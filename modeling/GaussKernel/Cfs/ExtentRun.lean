import Mathlib
import GaussKernel.Cfs.ExtentMap

/-!
# Runs over an extent

Sequences of extensions, writes, truncations, chunk recycling and recoveries on one extent, any of them cut off at any
point. Beside the file runs the page written last to every block; a block that is cut off or made anew holds a page of
zeros, and one whose write was cut off holds nothing that is known.
-/

namespace GaussKernel.Cfs
open Lib

inductive CfsOp where
  | extend (logicBlockNumber : Nat) (buffer : List UInt8)
  | write (logicBlockNumber : Nat) (buffer : List UInt8)
  | truncate (logicBlockNumber : Nat)
  | recycle
  | recover

/-- The file, which may not reach the extent, and the pages written last. -/
structure CfsState where
  file : Option Extent
  pages : Nat → Option (List UInt8)

def CfsState.init : CfsState := ⟨none, fun _ => none⟩

def offsetOf (logicBlockNumber : Nat) : Nat := logicBlockNumber % CFS_LOGIC_BLOCKS_PER_EXTENT

/-- The pages before a block is extended. -/
def basePages (pages : Nat → Option (List UInt8)) (b : Nat) : Nat → Option (List UInt8) :=
  if b = 0 then fun _ => some zeroPage else pages

def cutPages (pages : Nat → Option (List UInt8)) (b : Nat) : Nat → Option (List UInt8) :=
  fun i => if i < b then pages i else some zeroPage

/-- An operation that comes to its end. -/
def exec (o : CfsOption) : CfsOp → CfsState → Option CfsState
  | .extend n buffer, s =>
    (cfsExtendExtent o s.file n buffer).map fun e =>
      ⟨some e, Function.update (basePages s.pages (offsetOf n)) (offsetOf n) (some buffer)⟩
  | .write n buffer, s =>
    s.file.bind fun e => (cfsWritePage o e n buffer).map fun e =>
      ⟨some e, Function.update s.pages (offsetOf n) (some buffer)⟩
  | .truncate n, s =>
    s.file.bind fun e => (cfsMdTruncate o e n).map fun file => ⟨file, cutPages s.pages (offsetOf n)⟩
  | .recycle, s =>
    s.file.bind fun e => (pcaBufReadPage o e).bind fun h => (cfsRecycleChunkInExt o e).map fun e =>
      ⟨some e, recycledPages h s.pages⟩
  | .recover, s => s.file.bind fun e => (mdRecoveryPcaPage o e).map fun e => ⟨some e, s.pages⟩

/-- What an operation that is cut off may leave. -/
inductive Torn (o : CfsOption) : CfsOp → CfsState → CfsState → Prop where
  | before (op : CfsOp) (s : CfsState) : Torn o op s s
  | write {s : CfsState} {e : Extent} {h : CfsExtentHeader} {n : Nat} {buffer : List UInt8} {data : Nat → List UInt8} :
    s.file = some e → pcaBufReadPage o e = some h →
    (∀ c ∉ writeTargets o h (offsetOf n) buffer, data c = e.data c) → (∀ c, (data c).length ≤ o.chunkSize) →
    Torn o (.write n buffer) s ⟨some { e with data := data }, Function.update s.pages (offsetOf n) none⟩
  | extendInit {s : CfsState} {n : Nat} {buffer : List UInt8} {data : Nat → List UInt8} :
    offsetOf n = 0 → (∀ c, (data c).length ≤ o.chunkSize) →
    Torn o (.extend n buffer) s ⟨some ⟨some initExtentHeader, initExtentHeader, data⟩, fun _ => some zeroPage⟩
  | extendWrite {s s' : CfsState} {e : Extent} {n : Nat} {buffer : List UInt8} :
    extendBase o s.file (offsetOf n) = some e →
    Torn o (.write n buffer) ⟨some e, basePages s.pages (offsetOf n)⟩ s' → Torn o (.extend n buffer) s s'
  | extendWritten {s : CfsState} {e e' : Extent} {n : Nat} {buffer : List UInt8} :
    extendBase o s.file (offsetOf n) = some e → cfsWritePage o e n buffer = some e' →
    Torn o (.extend n buffer) s
      ⟨some e', Function.update (basePages s.pages (offsetOf n)) (offsetOf n) (some buffer)⟩
  | truncate {s : CfsState} {e : Extent} {h : CfsExtentHeader} {n : Nat} :
    s.file = some e → offsetOf n ≠ 0 → pcaBufReadPage o e = some h →
    Torn o (.truncate n) s
      ⟨some (e.pcaBufFreePage (truncateHeader h (offsetOf n)) true), cutPages s.pages (offsetOf n)⟩
  -- the assist file is processed before anything else happens to the extent
  | recycle {s : CfsState} {e torn e' : Extent} {h : CfsExtentHeader} :
    s.file = some e → pcaBufReadPage o e = some h → h.recycleInOrder = false → torn.pca = none →
    (torn.disk = e.disk ∨ torn.disk = (cfsSortOutChunk o h e.data).1 ∧
      torn.data = (cfsSortOutChunk o h e.data).2) →
    mdAssistFileProcess o (cfsSortOutChunk o h e.data) torn = some e' →
    Torn o .recycle s ⟨some e', recycledPages h s.pages⟩

inductive CfsEvent where
  | done (op : CfsOp)
  | crash (op : CfsOp)

/-- Buffers are pages. -/
def CfsOp.Wf : CfsOp → Prop
  | .extend _ buffer => buffer.length = BLCKSZ
  | .write _ buffer => buffer.length = BLCKSZ
  | _ => True

/-- The pca buffer is lost. -/
def CfsState.lose (s : CfsState) : CfsState := ⟨s.file.map fun e => { e with pca := none }, s.pages⟩

inductive CfsStep (o : CfsOption) : CfsState → CfsEvent → CfsState → Prop where
  | done {op : CfsOp} {s s' : CfsState} : op.Wf → exec o op s = some s' → CfsStep o s (.done op) s'
  | crash {op : CfsOp} {s s' : CfsState} : op.Wf → Torn o op s s' → CfsStep o s (.crash op) s'.lose

/-- The states of the runs whose events all meet the condition. -/
inductive CfsReach (o : CfsOption) (cond : CfsEvent → CfsState → Prop) : CfsState → Prop where
  | init : CfsReach o cond .init
  | step {s s' : CfsState} {ev : CfsEvent} :
    CfsReach o cond s → cond ev s → CfsStep o s ev s' → CfsReach o cond s'

/-- A page that counts as new is all zeros and goes to a block without chunks in use; recovery finds no block at or
behind `nblocks` with a chunk above those of the blocks below. -/
def OpSound (o : CfsOption) (s : CfsState) : CfsOp → Prop
  | .extend n buffer => ∀ e, extendBase o s.file (offsetOf n) = some e → NewPageOk e.disk (offsetOf n) buffer
  | .write n buffer => ∀ e, s.file = some e → NewPageOk e.disk (offsetOf n) buffer
  | .recover => ∀ e h, s.file = some e → pcaBufReadPage o e = some h → KeptCovered h
  | _ => True

def EventSound (o : CfsOption) : CfsEvent → CfsState → Prop
  | .crash .recover, _ => True
  | .crash op, s => OpSound o s op
  | .done op, s => OpSound o s op

/-- The chunk numbers are distinct and in their bounds, and every block below `nblocks` reads as its page. -/
def ExtentGood (o : CfsOption) (e : Extent) (pages : Nat → Option (List UInt8)) : Prop :=
  ∃ h, pcaBufReadPage o e = some h ∧ h.chunks.flatten.Nodup ∧
    (∀ c ∈ h.chunks.flatten, 1 ≤ c ∧ c ≤ o.maxChunks ∧ c ≤ h.allocatedChunks) ∧
    ∀ b < h.nblocks, ∀ page, pages b = some page → cfsReadPage o e b = some page

variable {o : CfsOption} {s s' : CfsState}

lemma ExtentOk.good {e : Extent} {pages : Nat → Option (List UInt8)} (he : ExtentOk o e pages) :
    ExtentGood o e pages := by
  obtain ⟨h, hload, hsame⟩ := he.load
  refine ⟨h, hload, hsame.ok.dense.nodup, fun c hc => ?_, fun b hb page hp => ?_⟩
  · obtain ⟨h1, hle⟩ := hsame.ok.dense.mem_iff.mp hc
    exact ⟨h1, hle.trans hsame.ok.allocated_le, hle⟩
  · have hb' : b < CFS_LOGIC_BLOCKS_PER_EXTENT := hb.trans_le hsame.ok.nblocks_le
    rw [cfsReadPage_eq, hload, Option.bind_some, Nat.mod_eq_of_lt hb', hsame.getExtentAddress]
    exact he.page b hb' page hp

def StateOk (o : CfsOption) (s : CfsState) : Prop := ∀ e, s.file = some e → ExtentOk o e s.pages

lemma offsetOf_lt (n : Nat) : offsetOf n < CFS_LOGIC_BLOCKS_PER_EXTENT := Nat.mod_lt _ (by decide)

lemma stateOk_some {e : Extent} {pages : Nat → Option (List UInt8)} (h : ExtentOk o e pages) :
    StateOk o ⟨some e, pages⟩ := by
  rintro e' he
  obtain rfl := Option.some.inj he
  exact h

lemma extendBase_ok (hs : StateOk o s) {n : Nat} {e : Extent} (he : extendBase o s.file (offsetOf n) = some e) :
    ExtentOk o e (basePages s.pages (offsetOf n)) := by
  unfold extendBase at he
  unfold basePages
  split at he
  case isTrue h =>
    obtain rfl := Option.some.inj he
    rw [if_pos h]
    exact initExtent_ok o
  case isFalse h =>
    rw [if_neg h]
    exact hs e he

/-- An operation on an extent that is there, or on its first block, succeeds and keeps the invariant. -/
lemma exec_ok (hl : o.Lawful) (hs : StateOk o s) {op : CfsOp} (hwf : op.Wf) (hsound : OpSound o s op)
    (hthere : (∃ e, s.file = some e) ∨ ∃ n buffer, op = .extend n buffer ∧ offsetOf n = 0) :
    ∃ s', exec o op s = some s' ∧ StateOk o s' := by
  have hfile : (∀ n buffer, op = .extend n buffer → offsetOf n ≠ 0) → ∃ e, s.file = some e := by
    intro hno
    rcases hthere with h | ⟨n, buffer, hop, h0⟩
    · exact h
    · exact absurd h0 (hno n buffer hop)
  cases op with
  | extend n buffer =>
    have hbase : ∃ e, extendBase o s.file (offsetOf n) = some e := by
      unfold extendBase
      split
      case isTrue => exact ⟨_, rfl⟩
      case isFalse h0 => exact hfile fun n' _ hop => by cases hop; exact h0
    obtain ⟨e, he⟩ := hbase
    obtain ⟨e', hext, hok⟩ := cfsExtendExtent_ok hl he (extendBase_ok hs he) hwf (hsound e he)
    exact ⟨_, by rw [exec, hext]; rfl, stateOk_some hok⟩
  | write n buffer =>
    obtain ⟨e, he⟩ := hfile fun _ _ hop => by cases hop
    obtain ⟨e', hw, hok⟩ := cfsWritePage_ok hl (hs e he) hwf (hsound e he)
    exact ⟨_, by rw [exec, he, Option.bind_some, hw]; rfl, stateOk_some hok⟩
  | truncate n =>
    obtain ⟨e, he⟩ := hfile fun _ _ hop => by cases hop
    by_cases h0 : offsetOf n = 0
    · have hcut : cfsMdTruncate o e n = some none := if_pos h0
      exact ⟨_, by rw [exec, he, Option.bind_some, hcut, Option.map_some], fun e' he' => by cases he'⟩
    · obtain ⟨e', hcut, hok⟩ := cfsMdTruncate_ok (hs e he) h0
      exact ⟨_, by rw [exec, he, Option.bind_some, hcut]; rfl, stateOk_some hok⟩
  | recycle =>
    obtain ⟨e, he⟩ := hfile fun _ _ hop => by cases hop
    obtain ⟨h, hload, hsame⟩ := (hs e he).load
    obtain ⟨e', hrec, hok⟩ := cfsRecycleChunkInExt_ok (hs e he) hload hsame
    exact ⟨_, by rw [exec, he, Option.bind_some, hload, Option.bind_some, hrec, Option.map_some], stateOk_some hok⟩
  | recover =>
    obtain ⟨e, he⟩ := hfile fun _ _ hop => by cases hop
    obtain ⟨h, hload, hsame⟩ := (hs e he).load
    obtain ⟨e', hrec, hok⟩ := mdRecoveryPcaPage_ok (hs e he) hload hsame (hsound e h he hload)
    exact ⟨_, by rw [exec, he, Option.bind_some, hrec, Option.map_some], stateOk_some hok⟩

/-- An extent that is missing can only be made by its first block. -/
lemma exec_there {op : CfsOp} (h : exec o op s = some s') :
    (∃ e, s.file = some e) ∨ ∃ n buffer, op = .extend n buffer ∧ offsetOf n = 0 := by
  cases hf : s.file with
  | some e => exact .inl ⟨e, rfl⟩
  | none =>
    cases op with
    | extend n buffer =>
      refine .inr ⟨n, buffer, rfl, ?_⟩
      by_contra h0
      have hnone : cfsExtendExtent o s.file n buffer = none := by
        unfold cfsExtendExtent
        dsimp only
        rw [if_neg (show ¬ n % CFS_LOGIC_BLOCKS_PER_EXTENT = 0 from h0), hf]
        rfl
      rw [exec, hnone] at h
      cases h
    | write n buffer => rw [exec, hf] at h; cases h
    | truncate n => rw [exec, hf] at h; cases h
    | recycle => rw [exec, hf] at h; cases h
    | recover => rw [exec, hf] at h; cases h

lemma torn_ok (hl : o.Lawful) {op : CfsOp} (ht : Torn o op s s') (hs : StateOk o s) (hwf : op.Wf)
    (hsound : EventSound o (.crash op) s) : StateOk o s' := by
  induction ht with
  | before op s => exact hs
  | write he hload hdata hcs =>
    obtain ⟨h', hload', hsame⟩ := (hs _ he).load
    rw [hload] at hload'
    obtain rfl := Option.some.inj hload'
    exact stateOk_some ((hs _ he).torn hl hsame (offsetOf_lt _) hwf hdata hcs)
  | extendInit _ hcs => exact stateOk_some (newExtent_ok hcs)
  | extendWrite he _ ih =>
    refine ih (stateOk_some (extendBase_ok hs he)) hwf ?_
    rintro e' he'
    obtain rfl := Option.some.inj he'
    exact hsound _ he
  | extendWritten he hw =>
    obtain ⟨e'', hw', hok⟩ := cfsWritePage_ok hl (extendBase_ok hs he) hwf (hsound _ he)
    rw [hw] at hw'
    obtain rfl := Option.some.inj hw'
    exact stateOk_some hok
  | truncate he h0 hload =>
    obtain ⟨h', hload', hsame⟩ := (hs _ he).load
    rw [hload] at hload'
    obtain rfl := Option.some.inj hload'
    exact stateOk_some ((hs _ he).truncate hsame (offsetOf_lt _) (hs _ he).chunk_le fun _ _ _ _ => rfl)
  | recycle he hload horder hpca htorn hassist =>
    obtain ⟨h', hload', hsame⟩ := (hs _ he).load
    rw [hload] at hload'
    obtain rfl := Option.some.inj hload'
    obtain ⟨e'', hassist', hok⟩ := mdAssistFileProcess_ok (hs _ he) hsame horder hpca htorn
    rw [hassist] at hassist'
    obtain rfl := Option.some.inj hassist'
    exact stateOk_some hok

lemma StateOk.lose (hs : StateOk o s) : StateOk o s.lose := by
  rintro e he
  obtain ⟨e', he', rfl⟩ := Option.map_eq_some_iff.mp he
  exact (hs e' he').lose

lemma step_ok (hl : o.Lawful) {ev : CfsEvent} (h : CfsStep o s ev s') (hs : StateOk o s) (hsound : EventSound o ev s) :
    StateOk o s' := by
  cases h with
  | @done op _ _ hwf hexec =>
    obtain ⟨s'', hexec', hok⟩ := exec_ok hl hs hwf hsound (exec_there hexec)
    rw [hexec] at hexec'
    obtain rfl := Option.some.inj hexec'
    exact hok
  | crash hwf ht => exact (torn_ok hl ht hs hwf hsound).lose

lemma CfsReach.ok (hl : o.Lawful) (h : CfsReach o (EventSound o) s) : StateOk o s := by
  induction h with
  | init => intro e he; cases he
  | step _ hsound hstep ih => exact step_ok hl hstep ih hsound

/-- In every run without a recovery that passes over kept chunks, and without a new page over an old one, the chunk map
is right and blocks read as they were written. -/
theorem cfs_extent_run {o : CfsOption} (hl : o.Lawful) {s : CfsState} (h : CfsReach o (EventSound o) s) {e : Extent}
    (he : s.file = some e) :
    ExtentGood o e s.pages ∧ ∀ op : CfsOp, op.Wf → OpSound o s op → ∃ s', exec o op s = some s' := by
  refine ⟨(h.ok hl e he).good, fun op hwf hsound => ?_⟩
  obtain ⟨s', hexec, -⟩ := exec_ok hl (h.ok hl) hwf hsound (.inl ⟨e, he⟩)
  exact ⟨s', hexec⟩

/-- Chunks of half a page, for pages that do not compress. -/
def rawOption : CfsOption := ⟨0, 0, fun _ => none, fun _ => none, false, by decide, by decide⟩

def rawPage : List UInt8 := List.replicate BLCKSZ 1

lemma rawOption_lawful : rawOption.Lawful := ⟨fun _ _ h => (by cases h), fun _ _ _ _ h => (by cases h)⟩

lemma rawPage_wf (n : Nat) : (CfsOp.extend n rawPage).Wf := List.length_replicate

lemma rawPage_not_new (h : CfsExtentHeader) (b : Nat) : NewPageOk h b rawPage := fun hnew =>
  absurd hnew (by decide +kernel)

lemma rawPage_sound (n : Nat) (s : CfsState) : EventSound rawOption (.done (.extend n rawPage)) s := fun _ _ =>
  rawPage_not_new _ _

/-- The server dies while block 1 is cut off, and the chunks are recycled. -/
def recycledRun : Option CfsState :=
  (exec rawOption (.extend 0 rawPage) .init).bind fun s =>
    (exec rawOption (.extend 1 rawPage) s).bind fun s =>
      s.file.bind fun e => (pcaBufReadPage rawOption e).bind fun h =>
        exec rawOption .recycle (CfsState.lose ⟨some (e.pcaBufFreePage (truncateHeader h 1) true), cutPages s.pages 1⟩)

/-- It dies again, and after the recovery block 1 is extended anew. -/
def recoveredRun : Option CfsState :=
  recycledRun.bind fun s =>
    (exec rawOption .recover s.lose).bind fun s => exec rawOption (.extend 1 rawPage) s

/-- No block that was cut off has kept a chunk. -/
lemma recycledRun_kept : (recycledRun.bind fun s => s.lose.file.bind fun e => (pcaBufReadPage rawOption e).map
    fun h => ((h.cfsExtentAddress.drop h.nblocks).map (·.chunknos)).flatten) = some [] := by
  decide +kernel

lemma recoveredRun_chunks : (recoveredRun.bind fun s => s.file.bind fun e => (pcaBufReadPage rawOption e).map
    fun h => h.chunks.flatten) = some [1, 2, 3, 4] := by
  decide +kernel

lemma recycledRun_reach (h : recycledRun = some s) : CfsReach rawOption (EventSound rawOption) s := by
  obtain ⟨s₁, h₁, h⟩ := Option.bind_eq_some_iff.mp h
  obtain ⟨s₂, h₂, h⟩ := Option.bind_eq_some_iff.mp h
  obtain ⟨e, he, h⟩ := Option.bind_eq_some_iff.mp h
  obtain ⟨head, hload, h₃⟩ := Option.bind_eq_some_iff.mp h
  have r₁ : CfsReach rawOption (EventSound rawOption) s₁ :=
    .step .init (rawPage_sound 0 .init) (.done (rawPage_wf 0) h₁)
  have r₂ : CfsReach rawOption (EventSound rawOption) s₂ :=
    .step r₁ (rawPage_sound 1 s₁) (.done (rawPage_wf 1) h₂)
  have htorn : Torn rawOption (.truncate 1) s₂
      ⟨some (e.pcaBufFreePage (truncateHeader head 1) true), cutPages s₂.pages 1⟩ := .truncate he (by decide) hload
  have r₃ := r₂.step (show EventSound rawOption (.crash (.truncate 1)) s₂ from trivial)
    (.crash (show (CfsOp.truncate 1).Wf from trivial) htorn)
  exact r₃.step (show EventSound rawOption (.done .recycle) _ from trivial)
    (.done (show CfsOp.recycle.Wf from trivial) h₃)

theorem cfs_extent_run_extend : ∃ s e, recoveredRun = some s ∧ s.file = some e ∧
    (pcaBufReadPage rawOption e).map (fun h => h.chunks.flatten) = some [1, 2, 3, 4] ∧
    ExtentGood rawOption e s.pages ∧
    ∀ op : CfsOp, op.Wf → OpSound rawOption s op → ∃ s', exec rawOption op s = some s' := by
  obtain ⟨s, hrun, hch⟩ := Option.bind_eq_some_iff.mp recoveredRun_chunks
  obtain ⟨e, he, hch⟩ := Option.bind_eq_some_iff.mp hch
  refine ⟨s, e, hrun, he, hch, ?_⟩
  obtain ⟨s₁, h₁, hrun⟩ := Option.bind_eq_some_iff.mp hrun
  obtain ⟨s₂, h₂, h₃⟩ := Option.bind_eq_some_iff.mp hrun
  have r₁ : CfsReach rawOption (EventSound rawOption) s₁.lose :=
    (recycledRun_reach h₁).step (show EventSound rawOption (.crash .recycle) s₁ from trivial)
      (.crash (show CfsOp.recycle.Wf from trivial) (.before _ _))
  have hkept : EventSound rawOption (.done .recover) s₁.lose := by
    intro e h he hload c hc
    have hnone := recycledRun_kept
    rw [h₁, Option.bind_some, he, Option.bind_some, hload, Option.map_some, Option.some_inj] at hnone
    rw [hnone] at hc
    cases hc
  have r₂ : CfsReach rawOption (EventSound rawOption) s₂ :=
    r₁.step hkept (.done (show CfsOp.recover.Wf from trivial) h₂)
  have r₃ : CfsReach rawOption (EventSound rawOption) s :=
    r₂.step (rawPage_sound 1 s₂) (.done (rawPage_wf 1) h₃)
  exact cfs_extent_run rawOption_lawful r₃ he

/-- Block 1 is cut off, the server dies, and blocks 1 and 2 are extended after the recovery. -/
def keptRun : Option CfsState :=
  (exec rawOption (.extend 0 rawPage) .init).bind fun s =>
    (exec rawOption (.extend 1 rawPage) s).bind fun s =>
      (exec rawOption (.truncate 1) s).bind fun s =>
        (exec rawOption .recover s.lose).bind fun s =>
          (exec rawOption (.extend 1 rawPage) s).bind fun s => exec rawOption (.extend 2 rawPage) s

lemma keptRun_chunks : (keptRun.bind fun s => s.file.bind fun e => (pcaBufReadPage rawOption e).map
    fun h => h.chunks.flatten) = some [1, 2, 3, 4, 3, 4] := by
  decide +kernel

/-- Block 1 has kept the chunks 3 and 4; recovery forgets them, and block 2 gets them as well. -/
theorem cfs_recovery_shares_chunks :
    ∃ s e, CfsReach rawOption (fun _ _ => True) s ∧ s.file = some e ∧ ¬ ExtentGood rawOption e s.pages := by
  have hch := keptRun_chunks
  obtain ⟨s, hrun, hch⟩ := Option.bind_eq_some_iff.mp hch
  obtain ⟨e, he, hch⟩ := Option.bind_eq_some_iff.mp hch
  refine ⟨s, e, ?_, he, ?_⟩
  · obtain ⟨s₁, h₁, hrun⟩ := Option.bind_eq_some_iff.mp hrun
    obtain ⟨s₂, h₂, hrun⟩ := Option.bind_eq_some_iff.mp hrun
    obtain ⟨s₃, h₃, hrun⟩ := Option.bind_eq_some_iff.mp hrun
    obtain ⟨s₄, h₄, hrun⟩ := Option.bind_eq_some_iff.mp hrun
    obtain ⟨s₅, h₅, h₆⟩ := Option.bind_eq_some_iff.mp hrun
    have r₁ : CfsReach rawOption (fun _ _ => True) s₁ := .step .init trivial (.done (rawPage_wf 0) h₁)
    have r₂ : CfsReach rawOption (fun _ _ => True) s₂ := .step r₁ trivial (.done (rawPage_wf 1) h₂)
    have r₃ : CfsReach rawOption (fun _ _ => True) s₃ :=
      .step r₂ trivial (.done (show (CfsOp.truncate 1).Wf from trivial) h₃)
    have r₃' : CfsReach rawOption (fun _ _ => True) s₃.lose :=
      .step r₃ trivial (.crash (show CfsOp.recycle.Wf from trivial) (.before _ _))
    have r₄ : CfsReach rawOption (fun _ _ => True) s₄ :=
      .step r₃' trivial (.done (show CfsOp.recover.Wf from trivial) h₄)
    have r₅ : CfsReach rawOption (fun _ _ => True) s₅ := .step r₄ trivial (.done (rawPage_wf 1) h₅)
    exact .step r₅ trivial (.done (rawPage_wf 2) h₆)
  · rintro ⟨h, hload, hnodup, -⟩
    rw [hload, Option.map_some, Option.some.injEq] at hch
    rw [hch] at hnodup
    exact absurd hnodup (by decide)

end GaussKernel.Cfs
