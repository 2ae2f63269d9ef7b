import GaussKernel.Ipc.SinvalQueue
import GaussKernel.Lib.Fifo
import GaussKernel.Lib.Follow

/-!
# What the backends get from the shared invalidation queue

All messages ever inserted are a log that the buffer has the end of. In every run, whatever the order of the steps, each
backend follows this log from where it joined, with a gap where it was reset, and a call that gives it fewer messages
than it asked for has taken it past everything inserted before the call.
-/

namespace GaussKernel.Ipc

open Lib
open Function (update update_self update_of_ne)

variable {Msg : Type} {s s' : SinvalState Msg} {es : List (SinvalEvent Msg)} {e : SinvalEvent Msg}

/-! ## History -/

/-- What one backend saw since it joined -/
structure Seen (Msg : Type) where
  /-- how long the log was -/
  joined : ℕ
  got : List (Got Msg)
  /-- how much of the log was inserted when the backend called `SIGetDataEntries` last -/
  due : ℕ

structure SinvalHist (Msg : Type) where
  /-- the messages with the threads that inserted them -/
  log : List (ℕ × Msg)
  /-- the part of the log from before `SInvalWriteLock` was given back last -/
  inserted : ℕ
  /-- what the threads have asked to insert -/
  asked : ℕ → List Msg
  seen : ℕ → Seen Msg

namespace SinvalHist

def msgs (h : SinvalHist Msg) : List Msg := h.log.map Prod.snd

def setSeen (h : SinvalHist Msg) (i : ℕ) (seen : Seen Msg) : SinvalHist Msg :=
  { h with seen := update h.seen i seen }

def note (h : SinvalHist Msg) : SinvalEvent Msg → SinvalHist Msg
  | .quiet | .left _ => h
  | .insert t data => { h with asked := update h.asked t (h.asked t ++ data) }
  | .copied t msg => { h with log := h.log ++ [(t, msg)] }
  | .unlock => { h with inserted := h.log.length }
  | .joined i => h.setSeen i ⟨h.log.length, [], h.log.length⟩
  | .called i _ => h.setSeen i { h.seen i with due := h.inserted }
  | .got i msg => h.setSeen i { h.seen i with got := (h.seen i).got ++ [.entry msg] }
  | .returned i _ n => if n < 0 then h.setSeen i { h.seen i with got := (h.seen i).got ++ [.gap] } else h

end SinvalHist

/-- The history of a run -/
def histOf (es : List (SinvalEvent Msg)) : SinvalHist Msg :=
  es.foldl SinvalHist.note ⟨[], 0, fun _ => [], fun _ => ⟨0, [], 0⟩⟩

lemma histOf_concat (es : List (SinvalEvent Msg)) (e : SinvalEvent Msg) : histOf (es ++ [e]) = (histOf es).note e :=
  List.foldl_append ..

/-- The state of a new instance -/
def SinvalState.start (maxBackends maxreserveBackends : ℕ) (buffer : ℕ → Msg) : SinvalState Msg :=
  ⟨createSharedInvalidationState maxBackends maxreserveBackends buffer, none, fun _ => [], fun _ => .idle⟩

/-! ## The invariant -/

/-- The kick of a new message will still come to this backend. -/
def KickDue (lock : Option (ℕ × WritePlace)) (i : ℕ) : Prop := ∃ t j, lock = some (t, .kick j) ∧ j ≤ i

/-- A backend that has looked up to `v` and whose flag is down has nothing to hear of that is fully inserted. -/
def Heard (base : ℤ) (h : SinvalHist Msg) (s : SinvalState Msg) (i : ℕ) (v : ℤ) : Prop :=
  v = s.seg.maxMsgNum ∨ KickDue s.lock i ∧ h.inserted ≤ base + v

/-- The counters, the buffer and the thread that writes -/
structure QueueInv (base : ℤ) (h : SinvalHist Msg) (s : SinvalState Msg) : Prop where
  base_nonneg : 0 ≤ base
  base_mod : base % maxNumMessages = 0
  min_nonneg : 0 ≤ s.seg.minMsgNum
  min_le : s.seg.minMsgNum ≤ s.seg.maxMsgNum
  max_le : s.seg.maxMsgNum ≤ s.seg.minMsgNum + maxNumMessages
  min_lt : s.seg.minMsgNum < msgNumWraparound
  place :
    match s.lock with
    | none | some (_, .recheck) => h.log.length = base + s.seg.maxMsgNum ∧ h.inserted = base + s.seg.maxMsgNum
    | some (_, .copy nthistime max) => s.seg.maxMsgNum ≤ max ∧ h.log.length = base + max ∧
        h.inserted = base + s.seg.maxMsgNum ∧ max + nthistime ≤ s.seg.minMsgNum + maxNumMessages
    | some (_, .kick _) => h.log.length = base + s.seg.maxMsgNum ∧ h.inserted ≤ base + s.seg.maxMsgNum
  buffer : ∀ k : ℕ, base + s.seg.minMsgNum ≤ k → k < h.log.length →
    h.msgs[k]? = some (s.seg.buffer (k % maxNumMessages))
  data : ∀ t, h.asked t = (h.log.filter (·.1 = t)).map Prod.snd ++ s.data t

/-- Which entries are in use -/
structure EntriesInv (s : SinvalState Msg) : Prop where
  beyond : ∀ i, s.seg.lastBackend ≤ i → (s.seg.procState i).procPid = 0
  reserve : ∀ i, s.seg.lastreserveBackend ≤ i → i < s.seg.maxreserveBackends → (s.seg.procState i).procPid = 0
  idle : ∀ i, ¬ s.Reads i → s.reader i = .idle

section reader

variable (base : ℤ) (h : SinvalHist Msg) (s : SinvalState Msg) (i : ℕ) (seen : Seen Msg) (p : ProcState) (pos : ℕ)

/-- How far a backend is that has looked up to `max` -/
structure Looked (max : ℤ) : Prop where
  le_max : max ≤ s.seg.maxMsgNum
  min_le : s.seg.minMsgNum ≤ max
  pos_le : pos ≤ base + max
  due_le : seen.due ≤ base + max
  heard : p.hasMessages = false → Heard base h s i max

/-- The backend has come to `pos`. -/
structure ReaderAt (place : ReadPlace) : Prop where
  follows : Got.Follows h.msgs seen.joined seen.got pos
  pos_le : pos ≤ base + s.seg.maxMsgNum
  due_le : seen.due ≤ h.inserted
  next : p.resetState = false → pos = base + p.nextMsgNum ∧ s.seg.minMsgNum ≤ p.nextMsgNum
  looked :
    match place with
    | .idle | .called _ | .tested _ =>
      p.hasMessages = false → p.resetState = false ∧ Heard base h s i p.nextMsgNum
    | .cleared _ => True
    | .fetched _ max => Looked base h s i seen p pos max
    | .loop _ max _ => p.resetState = false ∧ Looked base h s i seen p pos max

end reader

structure SinvalInv (base : ℤ) (h : SinvalHist Msg) (s : SinvalState Msg) : Prop where
  queue : QueueInv base h s
  entries : EntriesInv s
  readers : ∀ i, s.Reads i → ∃ pos, ReaderAt base h s i (h.seen i) (s.seg.procState i) pos (s.reader i)

/-! ## Reading -/

section steps

variable {base : ℤ} {h h' : SinvalHist Msg} {i pos : ℕ} {seen : Seen Msg} {p p' : ProcState} {place : ReadPlace}

/-- A backend stays where it is when others go on. -/
lemma ReaderAt.frame (hr : ReaderAt base h s i seen p pos place) (hmsgs : ∃ more, h'.msgs = h.msgs ++ more)
    (hinserted : h.inserted ≤ h'.inserted) (hmin : s'.seg.minMsgNum = s.seg.minMsgNum)
    (hmax : s.seg.maxMsgNum ≤ s'.seg.maxMsgNum) (hnext : p'.nextMsgNum = p.nextMsgNum)
    (hreset : p'.resetState = p.resetState)
    (hheard : p'.hasMessages = false → p.hasMessages = false ∧ ∀ v, Heard base h s i v → Heard base h' s' i v) :
    ReaderAt base h' s' i seen p' pos place := by
  have hlooked : ∀ {max}, Looked base h s i seen p pos max → Looked base h' s' i seen p' pos max := by
    intro max hl
    refine ⟨hl.le_max.trans hmax, hmin ▸ hl.min_le, hl.pos_le, hl.due_le, fun hflag => ?_⟩
    obtain ⟨hflag, hheard⟩ := hheard hflag
    exact hheard _ (hl.heard hflag)
  refine ⟨?_, hr.pos_le.trans (Int.add_le_add_left hmax base), hr.due_le.trans hinserted, ?_, ?_⟩
  · obtain ⟨more, hmore⟩ := hmsgs
    rw [hmore]
    exact hr.follows.append more
  · rw [hnext, hreset, hmin]
    exact hr.next
  · have hl := hr.looked
    have hflag : (p.hasMessages = false → p.resetState = false ∧ Heard base h s i p.nextMsgNum) →
        p'.hasMessages = false → p'.resetState = false ∧ Heard base h' s' i p'.nextMsgNum := by
      intro hl hflag
      obtain ⟨hflag, hheard⟩ := hheard hflag
      rw [hreset, hnext]
      exact (hl hflag).imp_right (hheard _)
    cases place with
    | idle => exact hflag hl
    | called => exact hflag hl
    | tested => exact hflag hl
    | cleared => exact trivial
    | fetched => exact hlooked hl
    | loop => exact ⟨hreset.trans hl.1, hlooked hl.2⟩

lemma ReaderAt.congr (hr : ReaderAt base h s i seen p pos place) (hmsgs : h'.msgs = h.msgs)
    (hinserted : h'.inserted = h.inserted) (hmin : s'.seg.minMsgNum = s.seg.minMsgNum)
    (hmax : s'.seg.maxMsgNum = s.seg.maxMsgNum) (hlock : s'.lock = s.lock) :
    ReaderAt base h' s' i seen p pos place := by
  apply hr.frame ⟨[], hmsgs.trans (List.append_nil _).symm⟩ hinserted.ge hmin hmax.ge rfl rfl
  intro hflag
  refine ⟨hflag, fun v hheard => ?_⟩
  rwa [Heard, hmax, hlock, hinserted]

/-- One backend goes on, the others stay where they are. -/
lemma SinvalInv.advance (hinv : SinvalInv base h s) (hi : s.Reads i)
    (hself : ∃ pos, ReaderAt base h s i seen p' pos place) (hpid : p'.procPid = (s.seg.procState i).procPid)
    (hsend : p'.sendOnly = (s.seg.procState i).sendOnly) :
    SinvalInv base (h.setSeen i seen) (s.setReader (s.seg.setProc i p') i place) := by
  have hproc : ∀ j, (((s.setReader (s.seg.setProc i p') i place).seg.procState j).procPid =
      (s.seg.procState j).procPid) ∧
      ((s.setReader (s.seg.setProc i p') i place).seg.procState j).sendOnly = (s.seg.procState j).sendOnly := by
    intro j
    rw [SinvalState.setReader, SISeg.setProc]
    dsimp only
    by_cases hj : j = i
    · subst hj
      rw [update_self]
      exact ⟨hpid, hsend⟩
    · rw [update_of_ne hj]
      exact ⟨rfl, rfl⟩
  have hreads : ∀ j, (s.setReader (s.seg.setProc i p') i place).Reads j ↔ s.Reads j := by
    intro j
    rw [SinvalState.Reads, SinvalState.Reads, (hproc j).1, (hproc j).2]
  refine ⟨⟨hinv.queue.base_nonneg, hinv.queue.base_mod, hinv.queue.min_nonneg, hinv.queue.min_le, hinv.queue.max_le,
    hinv.queue.min_lt, hinv.queue.place, hinv.queue.buffer, hinv.queue.data⟩,
    ⟨fun j hj => (hproc j).1.trans (hinv.entries.beyond j hj),
      fun j hj hj' => (hproc j).1.trans (hinv.entries.reserve j hj hj'), ?_⟩, ?_⟩
  · intro j hj
    have hne : j ≠ i := fun heq => hj ((hreads j).mpr (heq ▸ hi))
    exact (update_of_ne hne ..).trans (hinv.entries.idle j (mt (hreads j).mpr hj))
  · intro j hj
    rw [hreads] at hj
    rw [SinvalHist.setSeen, SinvalState.setReader, SISeg.setProc]
    dsimp only
    by_cases hne : j = i
    · subst hne
      rw [update_self, update_self, update_self]
      obtain ⟨pos, hself⟩ := hself
      exact ⟨pos, hself.congr rfl rfl rfl rfl rfl⟩
    · rw [update_of_ne hne, update_of_ne hne, update_of_ne hne]
      obtain ⟨pos, hr⟩ := hinv.readers j hj
      exact ⟨pos, hr.congr rfl rfl rfl rfl rfl⟩

lemma QueueInv.max_le_log (hq : QueueInv base h s) : base + s.seg.maxMsgNum ≤ h.log.length := by
  have hplace := hq.place
  split at hplace
  · exact hplace.1.ge
  · exact hplace.1.ge
  · exact (Int.add_le_add_left hplace.1 base).trans hplace.2.1.ge
  · exact hplace.1.ge

lemma QueueInv.inserted_le (hq : QueueInv base h s) : h.inserted ≤ base + s.seg.maxMsgNum := by
  have hplace := hq.place
  split at hplace
  · exact hplace.2.le
  · exact hplace.2.le
  · exact hplace.2.2.1.le
  · exact hplace.2

/-- A message counter and the place in the log that it stands for have one slot in the buffer. -/
lemma messageSlot_eq {base n : ℤ} {k : ℕ} (hmod : base % maxNumMessages = 0) (hk : (k : ℤ) = base + n) :
    messageSlot n = k % maxNumMessages := by
  rw [messageSlot]
  dsimp only [maxNumMessages] at hmod ⊢
  omega

namespace ReaderAt

variable {datasize n : ℕ} {max : ℤ}

lemma call (hr : ReaderAt base h s i seen p pos .idle) (datasize : ℕ) :
    ReaderAt base h s i { seen with due := h.inserted } p pos (.called datasize) :=
  ⟨hr.follows, hr.pos_le, le_rfl, hr.next, hr.looked⟩

lemma nothing (hq : QueueInv base h s) (hr : ReaderAt base h s i seen p pos (.called datasize))
    (hflag : p.hasMessages = false) : ReaderAt base h s i seen p pos .idle ∧ seen.due ≤ pos := by
  refine ⟨⟨hr.follows, hr.pos_le, hr.due_le, hr.next, hr.looked⟩, ?_⟩
  obtain ⟨hreset, hheard⟩ := hr.looked hflag
  have hpos := (hr.next hreset).1
  have hdue := hr.due_le
  have hinserted := hq.inserted_le
  obtain heq | ⟨-, hle⟩ := hheard <;> omega

lemma test (hr : ReaderAt base h s i seen p pos (.called datasize)) :
    ReaderAt base h s i seen p pos (.tested datasize) :=
  ⟨hr.follows, hr.pos_le, hr.due_le, hr.next, hr.looked⟩

lemma clear (hr : ReaderAt base h s i seen p pos (.tested datasize)) :
    ReaderAt base h s i seen { p with hasMessages := false } pos (.cleared datasize) :=
  ⟨hr.follows, hr.pos_le, hr.due_le, hr.next, trivial⟩

lemma fetch (hq : QueueInv base h s) (hr : ReaderAt base h s i seen p pos (.cleared datasize)) :
    ReaderAt base h s i seen p pos (.fetched datasize s.seg.maxMsgNum) := by
  have hdue : (seen.due : ℤ) ≤ h.inserted := Int.ofNat_le.mpr hr.due_le
  exact ⟨hr.follows, hr.pos_le, hr.due_le, hr.next,
    ⟨le_rfl, hq.min_le, hr.pos_le, hdue.trans hq.inserted_le, fun _ => .inl rfl⟩⟩

/-- The reset takes the backend to where it looked. -/
lemma reset (hq : QueueInv base h s) (hr : ReaderAt base h s i seen p pos (.fetched datasize max)) :
    ∃ pos', ReaderAt base h s i { seen with got := seen.got ++ [.gap] }
      { p with nextMsgNum := max, resetState := false, signaled := false } pos' .idle ∧ seen.due ≤ pos' := by
  have hl : Looked base h s i seen p pos max := hr.looked
  have hmax : ((base + max).toNat : ℤ) = base + max :=
    Int.toNat_of_nonneg (Int.add_nonneg hq.base_nonneg (hq.min_nonneg.trans hl.min_le))
  have hpos := hl.pos_le
  have hdue := hl.due_le
  refine ⟨(base + max).toNat, ⟨hr.follows.gap (by omega), ?_, hr.due_le, fun _ => ⟨hmax, hl.min_le⟩, ?_⟩, by omega⟩
  · rw [hmax]
    exact Int.add_le_add_left hl.le_max base
  · exact fun hflag => ⟨rfl, hl.heard hflag⟩

lemma enter (hr : ReaderAt base h s i seen p pos (.fetched datasize max)) (hreset : p.resetState = false) :
    ReaderAt base h s i seen p pos (.loop datasize max 0) :=
  ⟨hr.follows, hr.pos_le, hr.due_le, hr.next, hreset, hr.looked⟩

/-- The buffer still has the message that the backend reads next. -/
lemma take (hq : QueueInv base h s) (hr : ReaderAt base h s i seen p pos (.loop datasize max n))
    (hnext : p.nextMsgNum < max) :
    ReaderAt base h s i { seen with got := seen.got ++ [.entry (s.seg.buffer (messageSlot p.nextMsgNum))] }
      { p with nextMsgNum := p.nextMsgNum + 1 } (pos + 1) (.loop datasize max (n + 1)) := by
  obtain ⟨hreset, hl⟩ := hr.looked
  obtain ⟨hpos, hmin⟩ := hr.next hreset
  have hlt : pos + 1 ≤ base + max := by omega
  have hbuffer : h.msgs[pos]? = some (s.seg.buffer (messageSlot p.nextMsgNum)) := by
    rw [messageSlot_eq hq.base_mod hpos]
    apply hq.buffer
    · omega
    · have hlog := hq.max_le_log
      have hmax := hl.le_max
      omega
  refine ⟨hr.follows.entry hbuffer, ?_, hr.due_le, fun _ => ⟨?_, ?_⟩, hreset, ?_⟩
  · exact_mod_cast hlt.trans (Int.add_le_add_left hl.le_max base)
  · push_cast
    omega
  · dsimp only
    omega
  · exact ⟨hl.le_max, hl.min_le, by exact_mod_cast hlt, hl.due_le, hl.heard⟩

lemma finish (hr : ReaderAt base h s i seen p pos (.loop datasize max n))
    (hdone : ¬(n < datasize ∧ p.nextMsgNum < max)) :
    ReaderAt base h s i seen
      (if max ≤ p.nextMsgNum then { p with signaled := false } else { p with hasMessages := true }) pos .idle ∧
    (n < datasize → seen.due ≤ pos) := by
  obtain ⟨hreset, hl⟩ := hr.looked
  obtain ⟨hpos, hmin⟩ := hr.next hreset
  have hle := hl.pos_le
  constructor
  · split_ifs with hmax
    · refine ⟨hr.follows, hr.pos_le, hr.due_le, hr.next, fun hflag => ⟨hreset, ?_⟩⟩
      have heq : max = p.nextMsgNum := by omega
      exact heq ▸ hl.heard hflag
    · exact ⟨hr.follows, hr.pos_le, hr.due_le, hr.next, fun hflag => absurd hflag Bool.noConfusion⟩
  · intro hn
    have hdue := hl.due_le
    have hnext := not_lt.mp (not_and.mp hdone hn)
    omega

end ReaderAt

/-! ## Inserting -/

/-- Before the kicks, a flag that is down means that all is read. -/
lemma Heard.eq_max {v : ℤ} (hheard : Heard base h s i v) (hlock : ∀ t j, s.lock ≠ some (t, .kick j)) :
    v = s.seg.maxMsgNum := by
  obtain heq | ⟨⟨t, j, hkick, -⟩, -⟩ := hheard
  · exact heq
  · exact absurd hkick (hlock t j)

section

variable (hinv : SinvalInv base h s)
include hinv

/-- A thread that inserts leaves the backends where they are. -/
lemma SinvalInv.write (hq : QueueInv base h' s') (hseen : h'.seen = h.seen) (hmsgs : ∃ more, h'.msgs = h.msgs ++ more)
    (hinserted : h.inserted ≤ h'.inserted) (hmin : s'.seg.minMsgNum = s.seg.minMsgNum)
    (hmax : s.seg.maxMsgNum ≤ s'.seg.maxMsgNum) (hreader : s'.reader = s.reader)
    (hlast : s'.seg.lastBackend = s.seg.lastBackend) (hreserve : s'.seg.lastreserveBackend = s.seg.lastreserveBackend)
    (hmaxreserve : s'.seg.maxreserveBackends = s.seg.maxreserveBackends)
    (hproc : ∀ i, s'.seg.procState i = s.seg.procState i ∨
      s'.seg.procState i = { s.seg.procState i with hasMessages := true })
    (hheard : ∀ i v, s.Reads i → (s'.seg.procState i).hasMessages = false → Heard base h s i v →
      Heard base h' s' i v) : SinvalInv base h' s' := by
  have hsame : ∀ i, (s'.seg.procState i).procPid = (s.seg.procState i).procPid ∧
      (s'.seg.procState i).sendOnly = (s.seg.procState i).sendOnly ∧
      (s'.seg.procState i).nextMsgNum = (s.seg.procState i).nextMsgNum ∧
      (s'.seg.procState i).resetState = (s.seg.procState i).resetState ∧
      ((s'.seg.procState i).hasMessages = false → (s.seg.procState i).hasMessages = false) := by
    intro i
    obtain h | h := hproc i
    · rw [h]
      exact ⟨rfl, rfl, rfl, rfl, id⟩
    · rw [h]
      exact ⟨rfl, rfl, rfl, rfl, fun hflag => absurd hflag Bool.noConfusion⟩
  have hreads : ∀ i, s'.Reads i ↔ s.Reads i := by
    intro i
    rw [SinvalState.Reads, SinvalState.Reads, (hsame i).1, (hsame i).2.1]
  refine ⟨hq, ⟨?_, ?_, ?_⟩, ?_⟩
  · intro i hi
    rw [(hsame i).1]
    exact hinv.entries.beyond i (hlast ▸ hi)
  · intro i hi hi'
    rw [(hsame i).1]
    exact hinv.entries.reserve i (hreserve ▸ hi) (hmaxreserve ▸ hi')
  · intro i hi
    rw [hreader]
    exact hinv.entries.idle i (mt (hreads i).mpr hi)
  · intro i hi
    rw [hreads] at hi
    obtain ⟨pos, hr⟩ := hinv.readers i hi
    obtain ⟨-, -, hnext, hreset, hflag⟩ := hsame i
    rw [hseen, hreader]
    exact ⟨pos, hr.frame hmsgs hinserted hmin hmax hnext hreset
      fun hdown => ⟨hflag hdown, fun v => hheard i v hi hdown⟩⟩

lemma SinvalInv.insert {t : ℕ} {data : List Msg} (hidle : s.data t = []) :
    SinvalInv base (h.note (.insert t data)) { s with data := update s.data t data } := by
  have hq := hinv.queue
  refine hinv.write ⟨hq.base_nonneg, hq.base_mod, hq.min_nonneg, hq.min_le, hq.max_le, hq.min_lt, hq.place, hq.buffer,
    ?_⟩ rfl ⟨[], (List.append_nil _).symm⟩ le_rfl rfl le_rfl rfl rfl rfl rfl (fun _ => .inl rfl) fun _ _ _ _ => id
  intro t'
  show update h.asked t (h.asked t ++ data) t' = (h.log.filter (·.1 = t')).map Prod.snd ++
    update s.data t data t'
  by_cases ht : t' = t
  · subst ht
    rw [update_self, update_self, hq.data, hidle, List.append_nil]
  · rw [update_of_ne ht, update_of_ne ht]
    exact hq.data t'

/-- The lock changes hands or the thread leaves the recheck. -/
lemma SinvalInv.relock {lock : Option (ℕ × WritePlace)} (hq : QueueInv base h { s with lock := lock })
    (hlock : ∀ t j, s.lock ≠ some (t, .kick j)) :
    SinvalInv base h { s with lock := lock } :=
  hinv.write hq rfl ⟨[], (List.append_nil _).symm⟩ le_rfl rfl le_rfl rfl rfl rfl rfl (fun _ => .inl rfl)
    fun _ _ _ _ hheard => .inl (hheard.eq_max hlock)

lemma SinvalInv.acquire {t : ℕ} (hlock : s.lock = none) : SinvalInv base h { s with lock := some (t, .recheck) } := by
  have hq := hinv.queue
  have hplace := hq.place
  rw [hlock] at hplace
  exact hinv.relock ⟨hq.base_nonneg, hq.base_mod, hq.min_nonneg, hq.min_le, hq.max_le, hq.min_lt, hplace, hq.buffer,
    hq.data⟩ fun t j heq => Option.noConfusion rfl (heq_of_eq (hlock.symm.trans heq))

lemma SinvalInv.room {t k : ℕ} (hlock : s.lock = some (t, .recheck)) (hroom : s.seg.HasRoom k) :
    SinvalInv base h { s with lock := some (t, .copy k s.seg.maxMsgNum) } := by
  have hq := hinv.queue
  have hplace := hq.place
  rw [hlock] at hplace
  have hle : s.seg.maxMsgNum + k ≤ s.seg.minMsgNum + maxNumMessages := by
    have hfit := not_lt.mp (not_or.mp hroom).1
    omega
  refine hinv.relock ⟨hq.base_nonneg, hq.base_mod, hq.min_nonneg, hq.min_le, hq.max_le, hq.min_lt,
    ⟨le_rfl, hplace.1, hplace.2, hle⟩, hq.buffer, hq.data⟩ ?_
  intro t j heq
  cases hlock.symm.trans heq

/-- A new message goes where no message is that anyone still needs. -/
lemma SinvalInv.copy {t k : ℕ} {max : ℤ} {msg : Msg} {data : List Msg} (hlock : s.lock = some (t, .copy (k + 1) max))
    (hdata : s.data t = msg :: data) :
    SinvalInv base (h.note (.copied t msg))
      { s with seg := s.seg.store max msg, data := update s.data t data
               lock := some (t, .copy k (max + 1)) } := by
  have hq := hinv.queue
  have hplace := hq.place
  rw [hlock] at hplace
  obtain ⟨hmax, hlog, hinserted, hfit⟩ := hplace
  have hlength : h.msgs.length = h.log.length := List.length_map ..
  have hmsgs : (h.note (.copied t msg)).msgs = h.msgs ++ [msg] := List.map_append ..
  have hlength' : (h.note (.copied t msg)).log.length = h.log.length + 1 := List.length_append ..
  refine hinv.write ⟨hq.base_nonneg, hq.base_mod, hq.min_nonneg, hq.min_le, hq.max_le, hq.min_lt, ?_, ?_, ?_⟩
    rfl ⟨[msg], hmsgs⟩ le_rfl rfl le_rfl rfl rfl rfl rfl (fun _ => .inl rfl) ?_
  · refine ⟨hmax.trans (Int.le_add_one le_rfl), ?_, hinserted, ?_⟩
    · rw [hlength']
      push_cast
      omega
    · show max + 1 + k ≤ s.seg.minMsgNum + maxNumMessages
      omega
  · intro j hj hj'
    rw [hlength'] at hj'
    rw [hmsgs]
    show (h.msgs ++ [msg])[j]? = some (update s.seg.buffer (messageSlot max) msg (j % maxNumMessages))
    rw [messageSlot_eq hq.base_mod hlog]
    replace hj : base + s.seg.minMsgNum ≤ j := hj
    obtain hlt | rfl := Nat.lt_succ_iff_lt_or_eq.mp hj'
    · have hne : j % maxNumMessages ≠ h.log.length % maxNumMessages := ring_slot_ne hlt (by omega)
      rw [update_of_ne hne, List.getElem?_append_left (hlength ▸ hlt)]
      exact hq.buffer j hj hlt
    · rw [update_self, ← hlength, List.getElem?_concat_length]
  · intro t'
    show h.asked t' = ((h.log ++ [(t, msg)]).filter (·.1 = t')).map Prod.snd ++ update s.data t data t'
    rw [hq.data, List.filter_append, List.map_append, List.append_assoc]
    by_cases ht : t' = t
    · subst ht
      have hown : [(t', msg)].filter (·.1 = t') = [(t', msg)] := List.filter_cons_of_pos (decide_eq_true rfl)
      rw [update_self, hdata, hown]
      rfl
    · have hother : [(t, msg)].filter (·.1 = t') = [] :=
        List.filter_cons_of_neg fun heq => ht (of_decide_eq_true heq).symm
      rw [update_of_ne ht, hother]
      rfl
  · intro j v _ _ hheard
    refine .inl (hheard.eq_max fun t j heq => ?_)
    cases hlock.symm.trans heq

lemma SinvalInv.publish {t : ℕ} {max : ℤ} (hlock : s.lock = some (t, .copy 0 max)) :
    SinvalInv base h { s with seg := { s.seg with maxMsgNum := max }, lock := some (t, .kick 0) } := by
  have hq := hinv.queue
  have hplace := hq.place
  rw [hlock] at hplace
  obtain ⟨hmax, hlog, hinserted, hfit⟩ := hplace
  refine hinv.write ⟨hq.base_nonneg, hq.base_mod, hq.min_nonneg, hq.min_le.trans hmax, ?_, hq.min_lt, ⟨hlog, ?_⟩,
    hq.buffer, hq.data⟩ rfl ⟨[], (List.append_nil _).symm⟩ le_rfl rfl hmax rfl rfl rfl rfl (fun _ => .inl rfl) ?_
  · show max ≤ s.seg.minMsgNum + maxNumMessages
    omega
  · show (h.inserted : ℤ) ≤ base + max
    omega
  · intro i v _ _ hheard
    have heq : v = s.seg.maxMsgNum := hheard.eq_max fun t j heq => by cases hlock.symm.trans heq
    -- all kicks are to come
    refine .inr ⟨⟨t, 0, rfl, i.zero_le⟩, ?_⟩
    omega

end

lemma kick_proc (seg : SISeg Msg) (i j : ℕ) : (seg.kick i).procState j = seg.procState j ∨
    (seg.kick i).procState j = { seg.procState j with hasMessages := true } := by
  rw [SISeg.kick]
  split_ifs with hactive
  · rw [SISeg.setProc]
    dsimp only
    by_cases hj : j = i
    · subst hj
      exact .inr (update_self ..)
    · exact .inl (update_of_ne hj ..)
  · exact .inl rfl

lemma kick_flag (seg : SISeg Msg) (hactive : (seg.procState i).procPid ≠ 0) :
    ((seg.kick i).procState i).hasMessages = true := by
  rw [SISeg.kick, if_pos hactive, SISeg.setProc]
  dsimp only
  rw [update_self]

lemma kick_rest (seg : SISeg Msg) (i : ℕ) : seg.kick i = { seg with procState := (seg.kick i).procState } := by
  rw [SISeg.kick]
  split_ifs <;> rfl

section

variable (hinv : SinvalInv base h s)
include hinv

lemma SinvalInv.kick {t j : ℕ} (hlock : s.lock = some (t, .kick j)) :
    SinvalInv base h { s with seg := s.seg.kick j, lock := some (t, .kick (j + 1)) } := by
  have hq := hinv.queue
  have hplace := hq.place
  rw [hlock] at hplace
  have hproc := kick_proc s.seg j
  have hflag := fun hactive => kick_flag (i := j) s.seg hactive
  rw [kick_rest]
  refine hinv.write ⟨hq.base_nonneg, hq.base_mod, hq.min_nonneg, hq.min_le, hq.max_le, hq.min_lt, hplace, hq.buffer,
    hq.data⟩ rfl ⟨[], (List.append_nil _).symm⟩ le_rfl rfl le_rfl rfl rfl rfl rfl hproc ?_
  intro i v hi hdown hheard
  obtain heq | ⟨⟨t', j', hkick, hle⟩, hinserted⟩ := hheard
  · exact .inl heq
  · cases hlock.symm.trans hkick
    -- the entry that was just kicked has its flag up
    have hne : i ≠ j := by
      rintro rfl
      exact absurd (hdown.symm.trans (hflag hi.1)) Bool.noConfusion
    exact .inr ⟨⟨t, j + 1, rfl, by omega⟩, hinserted⟩

lemma SinvalInv.unlock {t j : ℕ} (hlock : s.lock = some (t, .kick j)) (hj : s.seg.lastBackend ≤ j) :
    SinvalInv base (h.note .unlock) { s with lock := none } := by
  have hq := hinv.queue
  have hplace := hq.place
  rw [hlock] at hplace
  have hinserted : h.inserted ≤ h.log.length := by
    have hle := hplace.2.trans hplace.1.ge
    exact_mod_cast hle
  refine hinv.write ⟨hq.base_nonneg, hq.base_mod, hq.min_nonneg, hq.min_le, hq.max_le, hq.min_lt,
    ⟨hplace.1, hplace.1⟩, hq.buffer, hq.data⟩ rfl ⟨[], (List.append_nil _).symm⟩ hinserted rfl le_rfl rfl rfl rfl rfl
    (fun _ => .inl rfl) ?_
  intro i v hi _ hheard
  obtain heq | ⟨⟨t', j', hkick, hle⟩, -⟩ := hheard
  · exact .inl heq
  · cases hlock.symm.trans hkick
    exact absurd (hinv.entries.beyond i (hj.trans hle)) hi.1

/-! ## Cleaning up, joining and leaving -/

/-- No backend that has not been reset is passed by the oldest message still needed. -/
lemma SinvalInv.min_le_next (hcounts : (s.seg.procState i).Counts) :
    s.seg.minMsgNum ≤ (s.seg.procState i).nextMsgNum := by
  obtain ⟨pos, hr⟩ := hinv.readers i ⟨hcounts.1, hcounts.2.2⟩
  exact (hr.next hcounts.2.1).2

lemma SinvalInv.lt_last (hactive : (s.seg.procState i).procPid ≠ 0) : i < s.seg.lastBackend := by
  by_contra hi
  exact hactive (hinv.entries.beyond i (not_lt.mp hi))

end

/-- A backend that is waiting to read follows the counters down. -/
lemma ReaderAt.clean {minFree : ℕ} {wrap : ℤ} (hinv : SinvalInv base h s)
    (hclean : SISeg.Cleaned s.seg minFree wrap s'.seg) (hfree : minFree ≤ writeQuantum) (hi : s.Reads i)
    (hlock : ∀ t j, s.lock ≠ some (t, .kick j)) (hplace : ¬ place.Locked)
    (hr : ReaderAt base h s i seen (s.seg.procState i) pos place) :
    ReaderAt (base + wrap) h s' i seen (s'.seg.procState i) pos place := by
  have hlt := hinv.lt_last hi.1
  have hnext := hclean.next_eq i hlt hi.1
  obtain ⟨hpid, hsend, hflag⟩ := hclean.same i
  have hpos := hr.pos_le
  have hmax := hclean.max_eq
  have hdown : ((s.seg.procState i).hasMessages = false → (s.seg.procState i).resetState = false ∧
      Heard base h s i (s.seg.procState i).nextMsgNum) →
      (s'.seg.procState i).hasMessages = false → (s'.seg.procState i).resetState = false ∧
      Heard (base + wrap) h s' i (s'.seg.procState i).nextMsgNum := by
    intro hlooked hdown
    obtain ⟨hreset, hheard⟩ := hlooked (hflag.symm.trans hdown)
    have heq := hheard.eq_max hlock
    refine ⟨?_, .inl (by rw [hnext, heq, hmax])⟩
    obtain hsame | ⟨-, hlow⟩ := hclean.reset i
    · exact hsame.trans hreset
    · -- nobody is reset that has read everything
      dsimp only [writeQuantum, maxNumMessages] at hfree hlow
      omega
  refine ⟨hr.follows, ?_, hr.due_le, ?_, ?_⟩
  · omega
  · intro hreset
    have hkept : (s.seg.procState i).resetState = false := by
      obtain hsame | ⟨htrue, -⟩ := hclean.reset i
      · exact hsame.symm.trans hreset
      · exact absurd (htrue.symm.trans hreset) Bool.noConfusion
    have heq := (hr.next hkept).1
    exact ⟨by omega, hclean.min_le_next i hlt ⟨hpid ▸ hi.1, hreset, hsend.trans hi.2⟩⟩
  · have hlooked := hr.looked
    cases place with
    | idle => exact hdown hlooked
    | called => exact hdown hlooked
    | tested => exact hdown hlooked
    | cleared => exact absurd trivial hplace
    | fetched => exact absurd trivial hplace
    | loop => exact absurd trivial hplace

variable {seg : SISeg Msg} {lxid : ℕ}

lemma SinvalInv.clean (hinv : SinvalInv base h s) {minFree : ℕ} {wrap : ℤ} {lock : Option (ℕ × WritePlace)}
    (hclean : SISeg.Cleaned s.seg minFree wrap seg) (hfree : minFree ≤ writeQuantum)
    (hreaders : ∀ i, ¬ (s.reader i).Locked) (hlock : s.lock = none ∨ ∃ t, s.lock = some (t, .recheck))
    (hlock' : lock = none ∨ ∃ t, lock = some (t, .recheck)) :
    SinvalInv (base + wrap) h { s with seg := seg, lock := lock } := by
  have hq := hinv.queue
  obtain ⟨hlast, hreserve, -, hmaxreserve⟩ := hclean.backends
  have hreads : ∀ i, SinvalState.Reads { s with seg := seg, lock := lock } i ↔ s.Reads i := by
    intro i
    obtain ⟨hpid, hsend, -⟩ := hclean.same i
    rw [SinvalState.Reads, SinvalState.Reads, hpid, hsend]
  have hkick : ∀ t j, s.lock ≠ some (t, .kick j) := by
    obtain heq | ⟨t', heq⟩ := hlock
    all_goals
      intro t j hkick
      cases heq.symm.trans hkick
  have hplace : h.log.length = base + s.seg.maxMsgNum ∧ h.inserted = base + s.seg.maxMsgNum := by
    have hplace := hq.place
    obtain heq | ⟨t', heq⟩ := hlock
    all_goals
      rw [heq] at hplace
      exact hplace
  have hmin : s.seg.minMsgNum ≤ seg.minMsgNum + wrap :=
    hclean.le_min _ hq.min_le fun i _ hcounts _ => hinv.min_le_next hcounts
  have hspace : s.seg.maxMsgNum - maxNumMessages + minFree ≤ seg.minMsgNum + wrap := by
    apply hclean.le_min
    · dsimp only [writeQuantum, maxNumMessages] at hfree ⊢
      omega
    · exact fun i _ _ hnext => hnext
  have hmax := hclean.max_eq
  have hmaxle := hq.max_le
  have hminlt := hq.min_lt
  have hminnonneg := hq.min_nonneg
  refine ⟨⟨Int.add_nonneg hq.base_nonneg hclean.wrap_nonneg, ?_, hclean.min_nonneg (hminnonneg.trans hmin),
    hclean.min_le, ?_, hclean.min_lt ?_, ?_, ?_, hq.data⟩, ⟨?_, ?_, ?_⟩, ?_⟩
  · rw [Int.add_emod, hq.base_mod, hclean.wrap_mod]
    rfl
  · show seg.maxMsgNum ≤ seg.minMsgNum + maxNumMessages
    omega
  · dsimp only [msgNumWraparound, maxNumMessages] at hminlt hmaxle ⊢
    omega
  · have hsum : base + wrap + seg.maxMsgNum = base + s.seg.maxMsgNum := by omega
    obtain rfl | ⟨t', rfl⟩ := hlock'
    · exact ⟨hplace.1.trans hsum.symm, hplace.2.trans hsum.symm⟩
    · exact ⟨hplace.1.trans hsum.symm, hplace.2.trans hsum.symm⟩
  · intro k hk hk'
    replace hk : base + wrap + seg.minMsgNum ≤ k := hk
    show h.msgs[k]? = some (seg.buffer (k % maxNumMessages))
    rw [hclean.buffer]
    exact hq.buffer k (by omega) hk'
  · intro i hi
    exact (hclean.same i).1.trans (hinv.entries.beyond i (hlast ▸ hi))
  · intro i hi hi'
    exact (hclean.same i).1.trans (hinv.entries.reserve i (hreserve ▸ hi) (hmaxreserve ▸ hi'))
  · exact fun i hi => hinv.entries.idle i (mt (hreads i).mpr hi)
  · intro i hi
    rw [hreads] at hi
    obtain ⟨pos, hr⟩ := hinv.readers i hi
    exact ⟨pos, hr.clean hinv hclean hfree hi hkick (hreaders i)⟩

/-- A backend that is not reading joins or leaves. -/
lemma SinvalInv.replace (hinv : SinvalInv base h s) {seg : SISeg Msg} (hidle : s.reader i = .idle)
    (hproc : seg.procState = update s.seg.procState i p')
    (hrest : seg = { s.seg with lastBackend := seg.lastBackend, lastreserveBackend := seg.lastreserveBackend
                                procState := seg.procState })
    (hbeyond : ∀ j, seg.lastBackend ≤ j → (seg.procState j).procPid = 0)
    (hreserve : ∀ j, seg.lastreserveBackend ≤ j → j < s.seg.maxreserveBackends → (seg.procState j).procPid = 0)
    (hself : p'.procPid ≠ 0 → ∃ pos, ReaderAt base h s i seen p' pos .idle) :
    SinvalInv base (h.setSeen i seen) { s with seg := seg } := by
  have hq := hinv.queue
  rw [hrest]
  refine ⟨⟨hq.base_nonneg, hq.base_mod, hq.min_nonneg, hq.min_le, hq.max_le, hq.min_lt, hq.place, hq.buffer, hq.data⟩,
    ⟨hbeyond, hreserve, ?_⟩, ?_⟩
  · intro j hj
    by_cases hne : j = i
    · exact hne ▸ hidle
    · refine hinv.entries.idle j fun hj' => hj ?_
      rw [SinvalState.Reads]
      dsimp only
      rw [hproc, update_of_ne hne]
      exact hj'
  · intro j hj
    rw [SinvalState.Reads] at hj
    dsimp only at hj ⊢
    rw [hproc] at hj ⊢
    rw [SinvalHist.setSeen]
    dsimp only
    by_cases hne : j = i
    · subst hne
      rw [update_self] at hj ⊢
      rw [update_self, hidle]
      obtain ⟨pos, hself⟩ := hself hj.1
      exact ⟨pos, hself.congr rfl rfl rfl rfl rfl⟩
    · rw [update_of_ne hne] at hj ⊢
      rw [update_of_ne hne]
      obtain ⟨pos, hr⟩ := hinv.readers j hj
      exact ⟨pos, hr.congr rfl rfl rfl rfl rfl⟩

/-- A backend that joins has all extant messages behind it. -/
lemma SinvalInv.activate (hinv : SinvalInv base h s) (hlock : s.lock = none)
    (hinactive : (s.seg.procState i).procPid = 0) {procPid lastBackend lastreserveBackend : ℕ} {sendOnly : Bool}
    (hlast : s.seg.lastBackend ≤ lastBackend) (hi : i < lastBackend)
    (hreserve : s.seg.lastreserveBackend ≤ lastreserveBackend)
    (hi' : i < s.seg.maxreserveBackends → i < lastreserveBackend) :
    SinvalInv base (h.note (.joined i))
      { s with
        seg := { s.seg with lastBackend := lastBackend
                            lastreserveBackend := lastreserveBackend }.activate i procPid sendOnly } := by
  have hplace := hinv.queue.place
  rw [hlock] at hplace
  refine hinv.replace (hinv.entries.idle i fun hreads => hreads.1 hinactive) rfl rfl ?_ ?_ fun _ =>
    ⟨h.log.length, .join, hplace.1.le, ?_, fun _ => ⟨hplace.1, hinv.queue.min_le⟩, fun _ => ⟨rfl, .inl rfl⟩⟩
  · intro j hj
    exact (congrArg ProcState.procPid (update_of_ne (Nat.ne_of_gt (hi.trans_le hj)) ..)).trans
      (hinv.entries.beyond j (hlast.trans hj))
  · intro j hj hj'
    have hne : j ≠ i := by
      rintro rfl
      exact absurd (hi' hj') (not_lt.mpr hj)
    exact (congrArg ProcState.procPid (update_of_ne hne ..)).trans
      (hinv.entries.reserve j (hreserve.trans hj) hj')
  · have heq : h.log.length = h.inserted := by exact_mod_cast hplace.1.trans hplace.2.symm
    exact heq.le

/-- The entry for a new backend is not in use. -/
lemma EntriesInv.freeEntry (hentries : EntriesInv s) (hfree : s.seg.freeEntry = some i) :
    (s.seg.procState i).procPid = 0 := by
  rw [SISeg.freeEntry] at hfree
  split at hfree
  · next index hfind =>
    cases hfree
    have hzero := List.find?_some (p := fun index => decide ((s.seg.procState index).procPid = 0)) hfind
    exact of_decide_eq_true hzero
  · split_ifs at hfree with hlast
    cases hfree
    exact hentries.reserve _ le_rfl hlast

lemma lastActive_inactive {procState : ℕ → ProcState} {n : ℕ} (hi : SISeg.lastActive procState n ≤ i) (hn : i < n) :
    (procState i).procPid = 0 := by
  induction n with
  | zero => exact absurd hn (Nat.not_lt_zero i)
  | succ n ih =>
    rw [SISeg.lastActive] at hi
    split_ifs at hi with hactive
    · exact absurd hn (not_lt.mpr hi)
    · obtain hlt | rfl := Nat.lt_succ_iff_lt_or_eq.mp hn
      · exact ih hi hlt
      · exact not_not.mp hactive

/-- The entries from the last active one on are not in use when a backend has left. -/
lemma deactivated_beyond {last limit : ℕ} (hbeyond : ∀ j, last ≤ j → j < limit → (seg.procState j).procPid = 0) :
    ∀ j, SISeg.lastActive (seg.deactivate i lxid).procState last ≤ j → j < limit →
      ((seg.deactivate i lxid).procState j).procPid = 0 := by
  intro j hj hlimit
  by_cases hlt : j < last
  · exact lastActive_inactive hj hlt
  · rw [SISeg.deactivate, SISeg.setProc]
    dsimp only
    by_cases hne : j = i
    · subst hne
      rw [update_self]
    · rw [update_of_ne hne]
      exact hbeyond j (not_lt.mp hlt) hlimit

lemma deactivated_pid {j : ℕ} (hinactive : (seg.procState j).procPid = 0) :
    ((seg.deactivate i lxid).procState j).procPid = 0 := by
  rw [SISeg.deactivate, SISeg.setProc]
  dsimp only
  by_cases hne : j = i
  · subst hne
    rw [update_self]
  · rwa [update_of_ne hne]

lemma setSeen_self (h : SinvalHist Msg) (i : ℕ) : h.setSeen i (h.seen i) = h := by
  rw [SinvalHist.setSeen, Function.update_eq_self]

lemma SinvalInv.leave (hinv : SinvalInv base h s) (hidle : s.reader i = .idle) :
    SinvalInv base h { s with seg := s.seg.cleanupInvalidationState i lxid } := by
  rw [← setSeen_self h i]
  refine hinv.replace hidle rfl rfl (fun j hj => ?_) (fun j => ?_) fun hpid => absurd rfl hpid
  · exact deactivated_beyond (fun k hk (_ : k < j + 1) => hinv.entries.beyond k hk) j hj j.lt_succ_self
  · exact deactivated_beyond hinv.entries.reserve j

lemma SinvalInv.leaveSession (hinv : SinvalInv base h s) (hidle : s.reader i = .idle) :
    SinvalInv base h { s with seg := s.seg.cleanupWorkSessionInvalidation i lxid } := by
  rw [← setSeen_self h i]
  refine hinv.replace hidle rfl rfl (fun j hj => ?_) (fun j hj hj' => ?_) fun hpid => absurd rfl hpid
  · exact deactivated_beyond (fun k hk (_ : k < j + 1) => hinv.entries.beyond k hk) j hj j.lt_succ_self
  · exact deactivated_pid (hinv.entries.reserve j hj hj')

/-! ## Runs -/

/-- A backend that is in `SIGetDataEntries` reads messages. -/
lemma SinvalInv.readerAt (hinv : SinvalInv base h s) {place : ReadPlace} (hplace : s.reader i = place)
    (hidle : place ≠ .idle) :
    s.Reads i ∧ ∃ pos, ReaderAt base h s i (h.seen i) (s.seg.procState i) pos place := by
  have hreads : s.Reads i := by
    by_contra hreads
    exact hidle (hplace.symm.trans (hinv.entries.idle i hreads))
  exact ⟨hreads, hplace ▸ hinv.readers i hreads⟩

lemma setProc_self (seg : SISeg Msg) (i : ℕ) : seg.setProc i (seg.procState i) = seg := by
  rw [SISeg.setProc, Function.update_eq_self]

/-- A backend goes on without touching its entry. -/
lemma SinvalInv.moveOn (hinv : SinvalInv base h s) (hi : s.Reads i)
    (hself : ∃ pos, ReaderAt base h s i (h.seen i) (s.seg.procState i) pos place) :
    SinvalInv base h (s.setReader s.seg i place) := by
  have hnext := hinv.advance hi hself rfl rfl
  rwa [setProc_self, setSeen_self] at hnext

lemma finishRead_eq (seg : SISeg Msg) (i : ℕ) (max : ℤ) : seg.finishRead i max = seg.setProc i
    (if max ≤ (seg.procState i).nextMsgNum then { seg.procState i with signaled := false }
      else { seg.procState i with hasMessages := true }) := by
  rw [SISeg.finishRead]
  split_ifs <;> rfl

lemma note_returned (h : SinvalHist Msg) (i datasize n : ℕ) : h.note (.returned i datasize n) = h := by
  rw [SinvalHist.note]
  exact if_neg (not_lt.mpr (Int.natCast_nonneg n))

/-- The invariant is kept. -/
lemma SinvalInv.step (hinv : SinvalInv base h s) (hstep : SinvalStep s e s') :
    ∃ base', SinvalInv base' (h.note e) s' := by
  cases hstep with
  | insert hidle => exact ⟨base, hinv.insert hidle⟩
  | acquire hlock => exact ⟨base, hinv.acquire hlock⟩
  | @makeRoom t seg needSig hlock hroom hreaders hclean =>
    obtain ⟨wrap, hcleaned⟩ := s.seg.siCleanupQueue_cleaned (min (s.data t).length writeQuantum)
    rw [hclean] at hcleaned
    refine ⟨base + wrap, hinv.clean hcleaned (min_le_right _ _) hreaders (.inr ⟨t, hlock⟩) ?_⟩
    cases needSig with
    | none => exact .inr ⟨t, rfl⟩
    | some => exact .inl rfl
  | room hlock hroom => exact ⟨base, hinv.room hlock hroom⟩
  | copy hlock hdata => exact ⟨base, hinv.copy hlock hdata⟩
  | publish hlock => exact ⟨base, hinv.publish hlock⟩
  | kick hlock hi => exact ⟨base, hinv.kick hlock⟩
  | unlock hlock hi => exact ⟨base, hinv.unlock hlock hi⟩
  | @cleanup seg needSig hlock hreaders hclean =>
    obtain ⟨wrap, hcleaned⟩ := s.seg.siCleanupQueue_cleaned 0
    rw [hclean] at hcleaned
    have h := hinv.clean hcleaned (Nat.zero_le _) hreaders (.inl hlock) (.inl hlock)
    exact ⟨base + wrap, h⟩
  | @join i lxid procPid sendOnly seg hlock hpid hinit =>
    obtain ⟨index, hfree, heq⟩ := Option.map_eq_some_iff.mp hinit
    cases heq
    exact ⟨base, hinv.activate hlock (hinv.entries.freeEntry hfree) (le_max_left _ _)
      (lt_max_of_lt_right (lt_max_of_lt_right i.lt_succ_self)) (le_max_left _ _)
      fun _ => lt_max_of_lt_right i.lt_succ_self⟩
  | @joinSession i lxid procPid sendOnly seg hlock hpid hinit =>
    rw [SISeg.sharedInvalWorkSessionInit] at hinit
    split_ifs at hinit with hindex hused
    cases hinit
    exact ⟨base, hinv.activate hlock (not_not.mp hused) (le_max_left _ _) (lt_max_of_lt_right i.lt_succ_self) le_rfl
      fun hlt => absurd (.inl hlt) hindex⟩
  | leave hlock hactive hidle => exact ⟨base, hinv.leave hidle⟩
  | leaveSession hlock hactive hidle => exact ⟨base, hinv.leaveSession hidle⟩
  | @call i datasize hreads hidle =>
    obtain ⟨pos, hr⟩ := hinv.readers i hreads
    rw [hidle] at hr
    have hnext := hinv.advance hreads ⟨pos, hr.call datasize⟩ rfl rfl
    rw [setProc_self] at hnext
    exact ⟨base, hnext⟩
  | @nothing i datasize hplace hflag =>
    obtain ⟨hreads, pos, hr⟩ := hinv.readerAt hplace ReadPlace.noConfusion
    have hnext := hinv.moveOn hreads ⟨pos, (hr.nothing hinv.queue hflag).1⟩
    exact ⟨base, (note_returned h i datasize 0).symm ▸ hnext⟩
  | @test i datasize hplace hflag =>
    obtain ⟨hreads, pos, hr⟩ := hinv.readerAt hplace ReadPlace.noConfusion
    exact ⟨base, hinv.moveOn hreads ⟨pos, hr.test⟩⟩
  | @clear i datasize hplace =>
    obtain ⟨hreads, pos, hr⟩ := hinv.readerAt hplace ReadPlace.noConfusion
    have hnext := hinv.advance hreads ⟨pos, hr.clear⟩ rfl rfl
    rw [setSeen_self] at hnext
    exact ⟨base, hnext⟩
  | @fetch i datasize hplace =>
    obtain ⟨hreads, pos, hr⟩ := hinv.readerAt hplace ReadPlace.noConfusion
    exact ⟨base, hinv.moveOn hreads ⟨pos, hr.fetch hinv.queue⟩⟩
  | @reset i datasize max hplace hreset =>
    obtain ⟨hreads, pos, hr⟩ := hinv.readerAt hplace ReadPlace.noConfusion
    obtain ⟨pos', hr', -⟩ := hr.reset hinv.queue
    exact ⟨base, hinv.advance hreads ⟨pos', hr'⟩ rfl rfl⟩
  | @enter i datasize max hplace hreset =>
    obtain ⟨hreads, pos, hr⟩ := hinv.readerAt hplace ReadPlace.noConfusion
    exact ⟨base, hinv.moveOn hreads ⟨pos, hr.enter hreset⟩⟩
  | @take i datasize n max hplace hn hnext =>
    obtain ⟨hreads, pos, hr⟩ := hinv.readerAt hplace ReadPlace.noConfusion
    exact ⟨base, hinv.advance hreads ⟨pos + 1, hr.take hinv.queue hnext⟩ rfl rfl⟩
  | @finish i datasize n max hplace hdone =>
    obtain ⟨hreads, pos, hr⟩ := hinv.readerAt hplace ReadPlace.noConfusion
    have hsame : (if max ≤ (s.seg.procState i).nextMsgNum then { s.seg.procState i with signaled := false }
        else { s.seg.procState i with hasMessages := true }).procPid = (s.seg.procState i).procPid ∧
        (if max ≤ (s.seg.procState i).nextMsgNum then { s.seg.procState i with signaled := false }
        else { s.seg.procState i with hasMessages := true }).sendOnly = (s.seg.procState i).sendOnly := by
      split_ifs <;> exact ⟨rfl, rfl⟩
    have hnext := hinv.advance hreads ⟨pos, (hr.finish hdone).1⟩ hsame.1 hsame.2
    rw [setSeen_self, ← finishRead_eq] at hnext
    exact ⟨base, (note_returned h i datasize n).symm ▸ hnext⟩

variable {maxBackends maxreserveBackends : ℕ} {buffer : ℕ → Msg}

lemma SinvalInv.start : SinvalInv 0 (histOf []) (.start maxBackends maxreserveBackends buffer) where
  queue := ⟨le_rfl, rfl, le_rfl, le_rfl, (by decide : (0 : ℤ) ≤ 0 + maxNumMessages),
    (by decide : (0 : ℤ) < msgNumWraparound), ⟨rfl, rfl⟩, fun _ _ hk => absurd hk (Nat.not_lt_zero _), fun _ => rfl⟩
  entries := ⟨fun _ _ => rfl, fun _ _ _ => rfl, fun _ _ => rfl⟩
  readers _ hreads := absurd rfl hreads.1

/-- The invariant holds in every state of every run. -/
lemma SinvalInv.run (h : Trace SinvalStep (.start maxBackends maxreserveBackends buffer) es s) :
    ∃ base, SinvalInv base (histOf es) s := by
  apply h.history (fun es s => ∃ base, SinvalInv base (histOf es) s) []
  · rintro es s e s' ⟨base, hinv⟩ hstep
    rw [histOf_concat]
    exact hinv.step hstep
  · exact ⟨0, .start⟩

end steps

/-! ## A thread that goes on alone -/

section alone

variable {h h' : SinvalHist Msg} {t k : ℕ} {max : ℤ}

/-- A thread has gone on inserting, and every backend is where it was. -/
def Alone (h : SinvalHist Msg) (s : SinvalState Msg) (h' : SinvalHist Msg) (s' : SinvalState Msg) : Prop :=
  (∃ es, Trace SinvalStep s es s' ∧ es.foldl SinvalHist.note h = h') ∧ h'.seen = h.seen ∧ h'.asked = h.asked ∧
    s'.reader = s.reader ∧ ∀ i, s'.Reads i ↔ s.Reads i

lemma Alone.refl (h : SinvalHist Msg) (s : SinvalState Msg) : Alone h s h s :=
  ⟨⟨[], .nil s, rfl⟩, rfl, rfl, rfl, fun _ => .rfl⟩

lemma Alone.cons {s₁ : SinvalState Msg} (hstep : SinvalStep s e s₁) (hseen : (h.note e).seen = h.seen)
    (hasked : (h.note e).asked = h.asked) (hreader : s₁.reader = s.reader) (hreads : ∀ i, s₁.Reads i ↔ s.Reads i)
    (hrest : Alone (h.note e) s₁ h' s') : Alone h s h' s' := by
  obtain ⟨⟨es, htrace, hes⟩, hseen', hasked', hreader', hreads'⟩ := hrest
  exact ⟨⟨e :: es, .cons hstep htrace, hes⟩, hseen'.trans hseen, hasked'.trans hasked, hreader'.trans hreader,
    fun i => (hreads' i).trans (hreads i)⟩

lemma Alone.trans {h₁ : SinvalHist Msg} {s₁ : SinvalState Msg} (hone : Alone h s h₁ s₁) (hrest : Alone h₁ s₁ h' s') :
    Alone h s h' s' := by
  obtain ⟨⟨es, htrace, rfl⟩, hseen, hasked, hreader, hreads⟩ := hone
  obtain ⟨⟨es', htrace', rfl⟩, hseen', hasked', hreader', hreads'⟩ := hrest
  exact ⟨⟨es ++ es', htrace.append htrace', List.foldl_append ..⟩, hseen'.trans hseen, hasked'.trans hasked,
    hreader'.trans hreader, fun i => (hreads' i).trans (hreads i)⟩

lemma Alone.inv (halone : Alone h s h' s') (hinv : ∃ base, SinvalInv base h s) : ∃ base, SinvalInv base h' s' := by
  obtain ⟨⟨es, htrace, rfl⟩, -⟩ := halone
  induction htrace generalizing h with
  | nil => exact hinv
  | cons hstep _ ih =>
    obtain ⟨base, hinv⟩ := hinv
    exact ih (hinv.step hstep)

/-- A batch is copied. -/
lemma copies_alone (hlock : s.lock = some (t, .copy k max)) (hk : k ≤ (s.data t).length) :
    ∃ h' s' max', Alone h s h' s' ∧ s'.lock = some (t, .copy 0 max') ∧ s'.data t = (s.data t).drop k := by
  induction k generalizing h s max with
  | zero => exact ⟨h, s, max, .refl h s, hlock, rfl⟩
  | succ k ih =>
    cases hdata : s.data t with
    | nil =>
      rw [hdata] at hk
      cases hk
    | cons msg data =>
      rw [hdata] at hk
      have hself : update s.data t data t = data := update_self ..
      have hk' : k ≤ (update s.data t data t).length := by
        rw [hself]
        exact Nat.le_of_succ_le_succ hk
      obtain ⟨h', s', max', halone, hlock', hdata'⟩ := ih (h := h.note (.copied t msg))
        (s := { s with seg := s.seg.store max msg, data := update s.data t data, lock := some (t, .copy k (max + 1)) })
        rfl hk'
      exact ⟨h', s', max', .cons (.copy hlock hdata) rfl rfl rfl (fun _ => .rfl) halone, hlock',
        hdata'.trans (congrArg (List.drop k) hself)⟩

/-- All entries are kicked, then the lock is given back. -/
lemma kicks_alone {j : ℕ} (hlock : s.lock = some (t, .kick j)) :
    ∃ h' s', Alone h s h' s' ∧ s'.lock = none ∧ s'.data = s.data := by
  induction hleft : s.seg.lastBackend - j generalizing h s j with
  | zero => exact ⟨h.note .unlock, { s with lock := none },
      .cons (.unlock hlock (Nat.le_of_sub_eq_zero hleft)) rfl rfl rfl
      (fun _ => .rfl) (.refl _ _), rfl, rfl⟩
  | succ n ih =>
    have hlast : (s.seg.kick j).lastBackend = s.seg.lastBackend := by rw [kick_rest]
    obtain ⟨h', s', halone, hlock', hdata'⟩ := ih (h := h) (j := j + 1)
      (s := { s with seg := s.seg.kick j, lock := some (t, .kick (j + 1)) }) rfl (by rw [hlast]; omega)
    refine ⟨h', s', .cons (e := .quiet) (.kick hlock (by omega)) rfl rfl rfl (fun i => ?_) halone, hlock', hdata'⟩
    rw [SinvalState.Reads, SinvalState.Reads]
    rcases kick_proc s.seg j i with heq | heq <;> rw [heq]

/-- Where there is room the next messages are inserted. -/
lemma batch_alone (hlock : s.lock = some (t, .recheck)) (hroom : s.seg.HasRoom (min (s.data t).length writeQuantum)) :
    ∃ h' s', Alone h s h' s' ∧ s'.lock = none ∧
      s'.data t = (s.data t).drop (min (s.data t).length writeQuantum) := by
  obtain ⟨h₁, s₁, max', hcopied, hlock₁, hdata₁⟩ := copies_alone (h := h)
    (s := { s with lock := some (t, .copy (min (s.data t).length writeQuantum) s.seg.maxMsgNum) }) rfl (min_le_left _ _)
  obtain ⟨h', s', hkicked, hlock', hdata'⟩ := kicks_alone (h := h₁)
    (s := { s₁ with seg := { s₁.seg with maxMsgNum := max' }, lock := some (t, .kick 0) }) rfl
  have hbatch := hcopied.trans (.cons (e := .quiet) (.publish hlock₁) rfl rfl rfl (fun _ => .rfl) hkicked)
  exact ⟨h', s', .cons (e := .quiet) (.room hlock hroom) rfl rfl rfl (fun _ => .rfl) hbatch, hlock',
    (congrFun hdata' t).trans hdata₁⟩

/-- One cleanup makes the room that is asked for. -/
lemma SinvalInv.hasRoom (hinv : SinvalInv base h s) (hk : k ≤ writeQuantum) :
    (s.seg.siCleanupQueue k).1.HasRoom k := by
  have hmax := hinv.queue.max_le
  have hmin := hinv.queue.min_lt
  obtain ⟨wrap, hclean⟩ := s.seg.siCleanupQueue_cleaned k
  have hspace : s.seg.maxMsgNum - maxNumMessages + k ≤ (s.seg.siCleanupQueue k).1.minMsgNum + wrap := by
    apply hclean.le_min
    · dsimp only [writeQuantum, maxNumMessages] at hk ⊢
      omega
    · exact fun i _ _ hnext => hnext
  have hdown := hclean.max_eq
  exact not_or.mpr ⟨by omega, not_le.mpr hclean.threshold⟩

/-- Where there is no room a cleanup makes it, after which the lock may have to be taken again. -/
lemma makeRoom_alone (hinv : SinvalInv base h s) (hlock : s.lock = some (t, .recheck)) (hdata : s.data t ≠ [])
    (hroom : ¬ s.seg.HasRoom (min (s.data t).length writeQuantum)) (hreaders : ∀ i, ¬ (s.reader i).Locked) :
    ∃ s', Alone h s h s' ∧ s'.lock = some (t, .recheck) ∧ s'.data = s.data ∧
      s'.seg.HasRoom (min (s.data t).length writeQuantum) := by
  have hroom' := hinv.hasRoom (k := min (s.data t).length writeQuantum) (min_le_right _ _)
  obtain ⟨wrap, hcleaned⟩ := s.seg.siCleanupQueue_cleaned (min (s.data t).length writeQuantum)
  cases hclean : s.seg.siCleanupQueue (min (s.data t).length writeQuantum) with
  | mk seg needSig =>
    rw [hclean] at hroom' hcleaned
    have hmake := SinvalStep.makeRoom hlock hroom hreaders hclean
    have hreads : ∀ i lock, SinvalState.Reads { s with seg := seg, lock := lock } i ↔ s.Reads i := by
      intro i lock
      rw [SinvalState.Reads, SinvalState.Reads]
      dsimp only
      rw [(hcleaned.same i).1, (hcleaned.same i).2.1]
    refine ⟨{ s with seg := seg, lock := some (t, .recheck) }, .cons (e := .quiet) hmake rfl rfl rfl
      (fun i => hreads i _) ?_, rfl, rfl, hroom'⟩
    cases needSig with
    | none => exact .refl _ _
    | some i =>
      exact .cons (e := .quiet) (.acquire (s := { s with seg := seg, lock := none }) rfl hdata) rfl rfl rfl
        (fun _ => .rfl) (.refl _ _)

/-- The lock is taken once or twice, and the next messages are inserted. -/
lemma round_alone (hinv : SinvalInv base h s) (hlock : s.lock = none) (hreaders : ∀ i, ¬ (s.reader i).Locked)
    (hdata : s.data t ≠ []) : ∃ h' s', Alone h s h' s' ∧ s'.lock = none ∧
      s'.data t = (s.data t).drop (min (s.data t).length writeQuantum) := by
  have hacquire : Alone h s h { s with lock := some (t, .recheck) } :=
    .cons (e := .quiet) (.acquire hlock hdata) rfl rfl rfl (fun _ => .rfl) (.refl _ _)
  by_cases hroom : s.seg.HasRoom (min (s.data t).length writeQuantum)
  · obtain ⟨h', s', halone, hend⟩ := batch_alone (s := { s with lock := some (t, .recheck) }) rfl hroom
    exact ⟨h', s', hacquire.trans halone, hend⟩
  · obtain ⟨s₁, hmade, hlock₁, hdata₁, hroom₁⟩ := makeRoom_alone (hinv.acquire hlock) rfl hdata hroom hreaders
    have hsame : s₁.data t = s.data t := congrFun hdata₁ t
    rw [← hsame] at hroom₁ ⊢
    obtain ⟨h', s', halone, hend⟩ := batch_alone hlock₁ hroom₁
    exact ⟨h', s', (hacquire.trans hmade).trans halone, hend⟩

/-- A thread that is left alone inserts everything it was asked to. -/
lemma completes_alone (hinv : SinvalInv base h s) (hlock : s.lock = none) (hreaders : ∀ i, ¬ (s.reader i).Locked) :
    ∃ h' s', Alone h s h' s' ∧ s'.lock = none ∧ s'.data t = [] := by
  induction hn : (s.data t).length using Nat.strong_induction_on generalizing base h s with
  | _ n ih =>
    subst hn
    by_cases hdata : s.data t = []
    · exact ⟨h, s, .refl h s, hlock, hdata⟩
    · obtain ⟨h₁, s₁, hone, hlock₁, hdata₁⟩ := round_alone hinv hlock hreaders hdata
      have hless : (s₁.data t).length < (s.data t).length := by
        have hpos := List.length_pos_iff.mpr hdata
        rw [hdata₁, List.length_drop]
        dsimp only [writeQuantum]
        omega
      obtain ⟨base₁, hinv₁⟩ := hone.inv ⟨base, hinv⟩
      have hreaders₁ : ∀ i, ¬ (s₁.reader i).Locked := hone.2.2.2.1 ▸ hreaders
      obtain ⟨h', s', hrest, hend⟩ := ih _ hless hinv₁ hlock₁ hreaders₁ rfl
      exact ⟨h', s', hone.trans hrest, hend⟩

end alone

/-! ## A backend that falls behind -/

lemma exists_trace_cons {P : SinvalState Msg → Prop} {s₁ : SinvalState Msg} (hstep : SinvalStep s e s₁)
    (hrest : ∃ s', Trace SinvalStep s₁ es s' ∧ P s') : ∃ s', Trace SinvalStep s (e :: es) s' ∧ P s' := by
  obtain ⟨s', htrace, hs'⟩ := hrest
  exact ⟨s', .cons hstep htrace, hs'⟩

/-- A backend that has got nothing of a longer log than the buffer holds is reset. -/
lemma SinvalInv.fallenBehind {h : SinvalHist Msg} {i : ℕ} (hinv : SinvalInv base h s) (hi : s.Reads i)
    (hlock : s.lock = none) (hseen : h.seen i = ⟨0, [], 0⟩) (hlong : maxNumMessages < h.log.length) :
    (s.seg.procState i).resetState = true := by
  obtain ⟨pos, hr⟩ := hinv.readers i hi
  have hplace := hinv.queue.place
  rw [hlock] at hplace
  have hfollows := hr.follows
  rw [hseen] at hfollows
  cases hreset : (s.seg.procState i).resetState with
  | true => rfl
  | false =>
    obtain ⟨hpos, hmin⟩ := hr.next hreset
    have hmin0 := hinv.queue.min_nonneg
    have hmax := hinv.queue.max_le
    have hbase := hinv.queue.base_nonneg
    have hlog := hplace.1
    have hzero : pos = 0 := hfollows.of_nil
    dsimp only [maxNumMessages] at hlong hmax
    omega

/-- A thread inserts more messages than the buffer holds, with cleanups in between, while two backends read nothing; then
the first of them reads and is reset. -/
lemma behind_run (data : List ℕ) (hlong : maxNumMessages < data.length) :
    ∃ es s, Trace SinvalStep (.start 2 2 fun _ => 0) (es ++ [.returned 0 32 (-1)]) s ∧ s.Reads 0 ∧ s.Reads 1 ∧
      data.length ≤ (histOf (es ++ [.returned 0 32 (-1)])).msgs.length ∧ data.length ≤ ((histOf es).seen 0).due ∧
      (histOf (es ++ [.returned 0 32 (-1)])).seen 0 = ⟨0, [.gap], ((histOf es).seen 0).due⟩ ∧
      (histOf (es ++ [.returned 0 32 (-1)])).seen 1 = ⟨0, [], 0⟩ := by
  obtain ⟨s₁, hjoined, hreads₀, hreads₁, hlock₁, hreader₁⟩ : ∃ s₁ : SinvalState ℕ,
      Trace SinvalStep (.start 2 2 fun _ => 0) [.joined 0, .joined 1, .insert 7 data] s₁ ∧ s₁.Reads 0 ∧
      s₁.Reads 1 ∧ s₁.lock = none ∧ s₁.reader = fun _ => .idle := by
    refine exists_trace_cons (@SinvalStep.join _ _ 0 0 9 false _ rfl (by decide) rfl) ?_
    refine exists_trace_cons (@SinvalStep.join _ _ 1 0 8 false _ rfl (by decide) rfl) ?_
    refine exists_trace_cons (.insert rfl nofun) ?_
    exact ⟨_, .nil _, ⟨Nat.succ_ne_zero 8, rfl⟩, ⟨Nat.succ_ne_zero 7, rfl⟩, rfl, rfl⟩
  obtain ⟨base₁, hinv₁⟩ := SinvalInv.run hjoined
  obtain ⟨h₂, s₂, halone, hlock₂, hdata₂⟩ := completes_alone (t := 7) hinv₁ hlock₁
    (by rw [hreader₁]; exact fun _ => id)
  obtain ⟨base, hinv⟩ := halone.inv ⟨base₁, hinv₁⟩
  obtain ⟨⟨es, hrun, hes⟩, hseen, hasked, hreader, hreads⟩ := halone
  have hlog : data.length ≤ h₂.log.length := by
    have hdata := hinv.queue.data 7
    rw [hdata₂, List.append_nil, hasked] at hdata
    have hlength := congrArg List.length hdata
    rw [List.length_map] at hlength
    exact hlength.trans_le (List.length_filter_le _ _)
  have hinserted : h₂.inserted = h₂.log.length := by
    have hplace := hinv.queue.place
    rw [hlock₂] at hplace
    exact Int.ofNat_inj.mp (hplace.2.trans hplace.1.symm)
  have hi := (hreads 0).mpr hreads₀
  have hreset := hinv.fallenBehind hi hlock₂ (congrFun hseen 0) (hlong.trans_le hlog)
  have hidle : s₂.reader 0 = .idle := congrFun (hreader.trans hreader₁) 0
  have hflag : (s₂.seg.procState 0).hasMessages = true := by
    obtain ⟨pos, hr⟩ := hinv.readers 0 hi
    rw [hidle] at hr
    cases hdown : (s₂.seg.procState 0).hasMessages with
    | true => rfl
    | false => cases hreset.symm.trans (hr.looked hdown).1
  -- the first backend reads
  obtain ⟨s, hread, hreads'⟩ : ∃ s, Trace SinvalStep s₂ [.called 0 32, .quiet, .quiet, .quiet, .returned 0 32 (-1)] s ∧
      s.Reads 0 ∧ s.Reads 1 := by
    refine exists_trace_cons (.call hi hidle) ?_
    refine exists_trace_cons (@SinvalStep.test _ _ 0 32 rfl hflag) ?_
    refine exists_trace_cons (@SinvalStep.clear _ _ 0 32 rfl) ?_
    refine exists_trace_cons (@SinvalStep.fetch _ _ 0 32 rfl) ?_
    refine exists_trace_cons (@SinvalStep.reset _ _ 0 32 s₂.seg.maxMsgNum rfl hreset) ?_
    exact ⟨_, .nil _, hi, (hreads 1).mpr hreads₁⟩
  have htrace := hjoined.append (hrun.append hread)
  refine ⟨[.joined 0, .joined 1, .insert 7 data] ++ es ++ [.called 0 32, .quiet, .quiet, .quiet], s, ?_, hreads'.1,
    hreads'.2, ?_⟩
  · rw [List.append_assoc, List.append_assoc]
    exact htrace
  have hhist : histOf ([.joined 0, .joined 1, .insert 7 data] ++ es ++ [.called 0 32, .quiet, .quiet, .quiet]) =
      h₂.note (.called 0 32) := by
    rw [← hes, histOf, histOf, List.foldl_append, List.foldl_append]
    rfl
  have hseen₀ : h₂.seen 0 = ⟨0, [], 0⟩ := congrFun hseen 0
  have hend₀ : ((h₂.note (.called 0 32)).note (.returned 0 32 (-1))).seen 0 =
      ⟨(h₂.seen 0).joined, (h₂.seen 0).got ++ [.gap], h₂.inserted⟩ := rfl
  rw [histOf_concat, hhist, hend₀, hseen₀]
  exact ⟨(List.length_map _).symm ▸ hlog, hlog.trans hinserted.ge, rfl, congrFun hseen 1⟩

/-! ## The results -/

section results

variable {maxBackends maxreserveBackends : ℕ} {buffer : ℕ → Msg} {i : ℕ}

/-- In every run, each backend has got the messages from where it joined on, in order and each once, with a gap for what
it missed at a reset. -/
theorem sinval_delivers (h : Trace SinvalStep (.start maxBackends maxreserveBackends buffer) es s) (hi : s.Reads i) :
    ∃ pos ≤ (histOf es).msgs.length,
      Got.Follows (histOf es).msgs ((histOf es).seen i).joined ((histOf es).seen i).got pos ∧
      (.gap ∉ ((histOf es).seen i).got → ((histOf es).seen i).got.filterMap Got.entry? =
        ((histOf es).msgs.drop ((histOf es).seen i).joined).take (pos - ((histOf es).seen i).joined)) := by
  obtain ⟨base, hinv⟩ := SinvalInv.run h
  obtain ⟨pos, hr⟩ := hinv.readers i hi
  refine ⟨pos, ?_, hr.follows, hr.follows.entries⟩
  have hle := hr.pos_le.trans hinv.queue.max_le_log
  rw [SinvalHist.msgs, List.length_map]
  exact_mod_cast hle

theorem sinval_delivers_behind : ∃ es s, Trace SinvalStep (.start 2 2 fun _ => 0) es s ∧
    5000 ≤ (histOf es).msgs.length ∧ (∃ pos ≤ (histOf es).msgs.length, Got.Follows (histOf es).msgs 0 [.gap] pos) ∧
      ∃ pos ≤ (histOf es).msgs.length, Got.Follows (histOf es).msgs 0 [] pos := by
  obtain ⟨es, s, hrun, hreads₀, hreads₁, hlong, -, hseen₀, hseen₁⟩ :=
    behind_run (List.replicate 5000 5) (by rw [List.length_replicate]; decide)
  obtain ⟨pos₀, hle₀, hfollows₀, -⟩ := sinval_delivers hrun hreads₀
  obtain ⟨pos₁, hle₁, hfollows₁, -⟩ := sinval_delivers hrun hreads₁
  rw [hseen₀] at hfollows₀
  rw [hseen₁] at hfollows₁
  rw [List.length_replicate] at hlong
  exact ⟨_, s, hrun, hlong, ⟨pos₀, hle₀, hfollows₀⟩, pos₁, hle₁, hfollows₁⟩

/-- A call of `SIGetDataEntries` that gives fewer messages than it may, also one that finds the flag down or a reset,
has taken the backend past all messages whose insertion was over when it was called. -/
theorem sinval_catches_up {datasize : ℕ} {n : ℤ}
    (h : Trace SinvalStep (.start maxBackends maxreserveBackends buffer) (es ++ [.returned i datasize n]) s)
    (hn : n < datasize) :
    ∃ pos, Got.Follows (histOf (es ++ [.returned i datasize n])).msgs
        ((histOf (es ++ [.returned i datasize n])).seen i).joined
        ((histOf (es ++ [.returned i datasize n])).seen i).got pos ∧ ((histOf es).seen i).due ≤ pos := by
  obtain ⟨s₁, s₂, hpre, hstep, -⟩ := h.at_event
  obtain ⟨base, hinv⟩ := SinvalInv.run hpre
  rw [histOf_concat]
  generalize histOf es = hist at hinv ⊢
  cases hstep with
  | nothing hplace hflag =>
    obtain ⟨-, pos, hr⟩ := hinv.readerAt hplace ReadPlace.noConfusion
    rw [show hist.note (.returned i datasize 0) = hist from note_returned hist i datasize 0]
    exact ⟨pos, hr.follows, (hr.nothing hinv.queue hflag).2⟩
  | reset hplace hreset =>
    obtain ⟨-, pos, hr⟩ := hinv.readerAt hplace ReadPlace.noConfusion
    obtain ⟨pos', hr', hdue⟩ := hr.reset hinv.queue
    have hseen : (hist.note (.returned i datasize (-1))).seen i =
        { hist.seen i with got := (hist.seen i).got ++ [.gap] } := update_self ..
    rw [hseen]
    exact ⟨pos', hr'.follows, hdue⟩
  | @finish _ _ n _ hplace hdone =>
    obtain ⟨-, pos, hr⟩ := hinv.readerAt hplace ReadPlace.noConfusion
    rw [note_returned]
    exact ⟨pos, hr.follows, (hr.finish hdone).2 (by exact_mod_cast hn)⟩

theorem sinval_catches_up_behind : ∃ es s, Trace SinvalStep (.start 2 2 fun _ => 0) (es ++ [.returned 0 32 (-1)]) s ∧
    ∃ pos, Got.Follows (histOf (es ++ [.returned 0 32 (-1)])).msgs 0 [.gap] pos ∧ 5000 ≤ pos := by
  obtain ⟨es, s, hrun, -, -, -, hdue, hseen₀, -⟩ :=
    behind_run (List.replicate 5000 5) (by rw [List.length_replicate]; decide)
  obtain ⟨pos, hfollows, hle⟩ := sinval_catches_up hrun (by decide)
  rw [hseen₀] at hfollows
  rw [List.length_replicate] at hdue
  exact ⟨es, s, hrun, pos, hfollows, hdue.trans hle⟩

/-- The buffer has the end of the log: message `n`, from `minMsgNum` up to `maxMsgNum`, stands in its slot, also while a
thread copies, and everything a thread has asked to insert is in the log, in this order and once, or still held by it.
Whenever nobody inserts, the log ends at `maxMsgNum`. -/
theorem sinval_inserts (h : Trace SinvalStep (.start maxBackends maxreserveBackends buffer) es s) :
    ∃ base : ℕ, base % maxNumMessages = 0 ∧
      (∀ n, s.seg.minMsgNum ≤ n → n < s.seg.maxMsgNum →
        (histOf es).msgs[(base + n).toNat]? = some (s.seg.buffer (messageSlot n))) ∧
      (s.lock = none → (histOf es).msgs.length = base + s.seg.maxMsgNum) ∧
      ∀ t, (histOf es).asked t = ((histOf es).log.filter (·.1 = t)).map Prod.snd ++ s.data t := by
  obtain ⟨base, hinv⟩ := SinvalInv.run h
  have hq := hinv.queue
  obtain ⟨base, rfl⟩ := Int.eq_ofNat_of_zero_le hq.base_nonneg
  have hmod := hq.base_mod
  refine ⟨base, by exact_mod_cast hmod, fun n hmin hmax => ?_, fun hlock => ?_, hq.data⟩
  · have hlog := hq.max_le_log
    have hmin0 := hq.min_nonneg
    rw [hq.buffer (base + n).toNat (by omega) (by omega), messageSlot_eq hmod (Int.toNat_of_nonneg (by omega))]
  · have hplace := hq.place
    rw [hlock] at hplace
    rw [SinvalHist.msgs, List.length_map]
    exact hplace.1

theorem sinval_inserts_behind : ∃ es s, Trace SinvalStep (.start 2 2 fun _ => 0) es s ∧
    5000 ≤ (histOf es).msgs.length ∧ ∃ base : ℕ, ∀ n, s.seg.minMsgNum ≤ n → n < s.seg.maxMsgNum →
      (histOf es).msgs[(base + n).toNat]? = some (s.seg.buffer (messageSlot n)) := by
  obtain ⟨es, s, hrun, -, -, hlong, -⟩ :=
    behind_run (List.replicate 5000 5) (by rw [List.length_replicate]; decide)
  obtain ⟨base, -, hbuffer, -⟩ := sinval_inserts hrun
  rw [List.length_replicate] at hlong
  exact ⟨_, s, hrun, hlong, base, hbuffer⟩

/-- The counters stay within the range of an `int` and a buffer apart, a new backend never gets an entry in use, and one
cleanup makes the room that is asked for. -/
theorem sinval_counters (h : Trace SinvalStep (.start maxBackends maxreserveBackends buffer) es s) :
    (0 ≤ s.seg.minMsgNum ∧ s.seg.minMsgNum ≤ s.seg.maxMsgNum ∧
      s.seg.maxMsgNum ≤ s.seg.minMsgNum + maxNumMessages ∧ s.seg.maxMsgNum < 2 ^ 31) ∧
    (∀ i, s.Reads i → (s.seg.procState i).resetState = false →
      s.seg.minMsgNum ≤ (s.seg.procState i).nextMsgNum ∧ (s.seg.procState i).nextMsgNum ≤ s.seg.maxMsgNum) ∧
    (∀ i, s.seg.freeEntry = some i → (s.seg.procState i).procPid = 0) ∧
    ∀ k ≤ writeQuantum, (s.seg.siCleanupQueue k).1.HasRoom k := by
  obtain ⟨base, hinv⟩ := SinvalInv.run h
  have hq := hinv.queue
  have hmax := hq.max_le
  have hmin := hq.min_lt
  refine ⟨⟨hq.min_nonneg, hq.min_le, hmax, ?_⟩, ?_, fun i hfree => hinv.entries.freeEntry hfree,
    fun k hk => hinv.hasRoom hk⟩
  · dsimp only [maxNumMessages, msgNumWraparound] at hmax hmin
    omega
  · intro i hi hreset
    obtain ⟨pos, hr⟩ := hinv.readers i hi
    obtain ⟨hpos, hle⟩ := hr.next hreset
    have hpos' := hr.pos_le
    exact ⟨hle, by omega⟩

theorem sinval_counters_behind : ∃ es s, Trace SinvalStep (.start 2 2 fun _ => 0) es s ∧
    5000 ≤ (histOf es).msgs.length ∧ s.seg.maxMsgNum ≤ s.seg.minMsgNum + maxNumMessages := by
  obtain ⟨es, s, hrun, -, -, hlong, -⟩ :=
    behind_run (List.replicate 5000 5) (by rw [List.length_replicate]; decide)
  rw [List.length_replicate] at hlong
  exact ⟨_, s, hrun, hlong, (sinval_counters hrun).1.2.2.1⟩

end results

end GaussKernel.Ipc
