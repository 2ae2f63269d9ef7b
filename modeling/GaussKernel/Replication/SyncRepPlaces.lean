import GaussKernel.Replication.SyncRepLoops

/-!
# Places in the wait queues

Every backend is free, in a queue, or in the chain of a leader, and `Picture` says where. What its fields are follows
from its place and its phase (`PlaceOk`).
-/

namespace GaussKernel.Replication

open GaussKernel.Lib
open Function (update update_self update_of_ne)

variable {ln : Links ShmElem} {mode : SyncRepWaitMode} {b : ℕ} {s s' : SyncRepShmem}

inductive Place
  | free
  | queued (mode : SyncRepWaitMode)
  | chained (leader : ℕ)

structure Picture where
  queue : SyncRepWaitMode → List ℕ
  /-- The backends that a leader still has to notify. -/
  chain : ℕ → List ℕ
  place : ℕ → Place

/-- The fields of a backend that nobody else changes any more. -/
def FreeOk (state : SyncRepState) (inComplete : Bool) (next : Option ShmElem) : Phase → Prop
  | .idle => state = .notWaiting ∧ inComplete = false ∧ next = none
  | .stopped => state = .waitComplete ∧ inComplete = true ∨
      state = .notWaiting ∧ inComplete = false ∧ next = none
  | .notifying _ _ => state = .waitComplete ∧ inComplete = true ∧ next = none
  | .gone => next = none
  | _ => state = .waitComplete ∧ inComplete = true

def PlaceOk (s : SyncRepShmem) (b : ℕ) : Place → Prop
  | .free => s.links.prev (.proc b) = none ∧
      FreeOk (s.syncRepState b) (s.syncRepInCompleteQueue b) (s.links.next (.proc b)) (s.phase b)
  | .queued _ => s.syncRepState b = .waiting ∧ s.syncRepInCompleteQueue b = false ∧
      (s.phase b = .waiting ∨ s.phase b = .exiting)
  | .chained _ => s.syncRepState b = .waiting ∧ s.syncRepInCompleteQueue b = true ∧
      (s.phase b = .waiting ∨ s.phase b = .exiting ∨ s.phase b = .waitCompletionQueue)

/-- Where the chain of a leader goes on: in a local variable once it walks along it. -/
def pending (s : SyncRepShmem) (b : ℕ) : Option ShmElem :=
  match s.phase b with
  | .notifying nextElement _ => nextElement
  | _ => if s.syncRepState b = .waitComplete then s.links.next (.proc b) else none

structure SyncInv (s : SyncRepShmem) (pic : Picture) : Prop where
  queue : ∀ mode, IsQueue s.links mode (pic.queue mode)
  sorted : ∀ mode, (pic.queue mode).Pairwise fun p q => s.waitLSN p ≤ s.waitLSN q
  chain : ∀ b, Linked s.links.next (pending s b) ((pic.chain b).map ShmElem.proc) none
  nodup : ∀ b, (pic.chain b).Nodup
  mem_queue : ∀ mode b, b ∈ pic.queue mode ↔ pic.place b = .queued mode
  mem_chain : ∀ leader b, b ∈ pic.chain leader ↔ pic.place b = .chained leader
  ok : ∀ b, PlaceOk s b (pic.place b)

variable {pic : Picture}

/-- The steps change the fields of one backend; `place` says what else they may touch. -/
structure SameBut (s s' : SyncRepShmem) (b : ℕ) : Prop where
  state : ∀ a, a ≠ b → s'.syncRepState a = s.syncRepState a
  inComplete : ∀ a, a ≠ b → s'.syncRepInCompleteQueue a = s.syncRepInCompleteQueue a
  waitLSN : ∀ a, a ≠ b → s'.waitLSN a = s.waitLSN a
  phase : ∀ a, a ≠ b → s'.phase a = s.phase a

lemma PlaceOk.congr {place : Place} (h : PlaceOk s b place) (hstate : s'.syncRepState b = s.syncRepState b)
    (hin : s'.syncRepInCompleteQueue b = s.syncRepInCompleteQueue b) (hphase : s'.phase b = s.phase b)
    (hlinks : place = .free →
      s'.links.next (.proc b) = s.links.next (.proc b) ∧ s'.links.prev (.proc b) = s.links.prev (.proc b)) :
    PlaceOk s' b place := by
  cases place with
  | free =>
    obtain ⟨hnext, hprev⟩ := hlinks rfl
    unfold PlaceOk
    rw [hstate, hin, hphase, hnext, hprev]
    exact h
  | queued mode =>
    unfold PlaceOk
    rw [hstate, hin, hphase]
    exact h
  | chained leader =>
    unfold PlaceOk
    rw [hstate, hin, hphase]
    exact h

lemma pending_congr (hstate : s'.syncRepState b = s.syncRepState b) (hphase : s'.phase b = s.phase b)
    (hnext : s.syncRepState b = .waitComplete → s'.links.next (.proc b) = s.links.next (.proc b)) :
    pending s' b = pending s b := by
  unfold pending
  rw [hstate, hphase]
  cases s.phase b with
  | notifying => rfl
  | _ =>
    by_cases hc : s.syncRepState b = .waitComplete
    · simp only [if_pos hc, hnext hc]
    · simp only [if_neg hc]

namespace SyncInv

section

variable (h : SyncInv s pic)
include h

lemma waiting_of_place (hplace : pic.place b ≠ .free) : s.syncRepState b = .waiting := by
  have hok := h.ok b
  cases hp : pic.place b with
  | free => exact absurd hp hplace
  | queued mode => exact (hp ▸ hok).1
  | chained leader => exact (hp ▸ hok).1

lemma phase_of_place (hplace : pic.place b ≠ .free) :
    s.phase b = .waiting ∨ s.phase b = .exiting ∨ s.phase b = .waitCompletionQueue := by
  have hok := h.ok b
  cases hp : pic.place b with
  | free => exact absurd hp hplace
  | queued mode => exact (hp ▸ hok).2.2.imp_right .inl
  | chained leader => exact (hp ▸ hok).2.2

lemma free_of_complete (hstate : s.syncRepState b = .waitComplete) : pic.place b = .free := by
  by_contra hplace
  exact SyncRepState.noConfusion ((h.waiting_of_place hplace).symm.trans hstate)

lemma pending_of_place (hplace : pic.place b ≠ .free) : pending s b = none := by
  have hstate : ¬ s.syncRepState b = .waitComplete := by
    rw [h.waiting_of_place hplace]
    decide
  unfold pending
  rcases h.phase_of_place hplace with hp | hp | hp
  · simp only [hp, if_neg hstate]
  · simp only [hp, if_neg hstate]
  · simp only [hp, if_neg hstate]

lemma chain_nil (hpending : pending s b = none) : pic.chain b = [] := by
  have hchain := h.chain b
  rw [hpending] at hchain
  cases hc : pic.chain b with
  | nil => rfl
  | cons c rest => exact (nomatch (hc ▸ hchain : Linked _ none (.proc c :: rest.map ShmElem.proc) none).1)

/-- The ring of a mode does not hold what is elsewhere. -/
lemma not_mem_ring (hplace : pic.place b ≠ .queued mode) :
    ShmElem.proc b ∉ ShmElem.head mode :: (pic.queue mode).map ShmElem.proc := by
  intro hmem
  rcases List.mem_cons.mp hmem with heq | hmem
  · cases heq
  · obtain ⟨c, hc, heq⟩ := List.mem_map.mp hmem
    cases heq
    exact hplace ((h.mem_queue mode b).mp hc)

/-- The fields of one backend change, and its links if it is nowhere. -/
lemma own (hbut : SameBut s s' b) (hlinks : s.links.SameOff s'.links [.proc b])
    (hplace : pic.place b = .free ∨ s'.links = s.links ∧ s'.waitLSN = s.waitLSN)
    (hchain : Linked s'.links.next (pending s' b) ((pic.chain b).map ShmElem.proc) none)
    (hok : PlaceOk s' b (pic.place b)) : SyncInv s' pic := by
  have helse : ∀ a, pic.place a ≠ .free → s'.waitLSN a = s.waitLSN a ∧
      s'.links.next (.proc a) = s.links.next (.proc a) ∧ s'.links.prev (.proc a) = s.links.prev (.proc a) := by
    intro a ha
    rcases hplace with hfree | ⟨hl, hw⟩
    · have hab : a ≠ b := fun heq => ha (heq ▸ hfree)
      have hnot : ShmElem.proc a ∉ [ShmElem.proc b] := fun hmem => hab (ShmElem.proc.inj (List.mem_singleton.mp hmem))
      exact ⟨hbut.waitLSN a hab, hlinks _ hnot⟩
    · rw [hl, hw]
      exact ⟨rfl, rfl, rfl⟩
  have hqueued : ∀ {mode a}, a ∈ pic.queue mode → pic.place a ≠ .free := by
    intro mode a ha
    rw [(h.mem_queue mode a).mp ha]
    exact Place.noConfusion
  refine ⟨fun mode => ?_, fun mode => ?_, fun a => ?_, h.nodup, h.mem_queue, h.mem_chain, fun a => ?_⟩
  · have hring : ∀ e ∈ ShmElem.head mode :: (pic.queue mode).map ShmElem.proc,
        s'.links.next e = s.links.next e ∧ s'.links.prev e = s.links.prev e := by
      intro e he
      rcases List.mem_cons.mp he with rfl | he
      · exact hlinks _ fun hmem => ShmElem.noConfusion (List.mem_singleton.mp hmem)
      · obtain ⟨a, ha, rfl⟩ := List.mem_map.mp he
        exact (helse a (hqueued ha)).2
    exact (h.queue mode).congr (fun e he => (hring e he).1) fun e he => (hring e he).2
  · refine (h.sorted mode).imp_of_mem fun ha hc hle => ?_
    rw [(helse _ (hqueued ha)).1, (helse _ (hqueued hc)).1]
    exact hle
  · by_cases hab : a = b
    · rw [hab]
      exact hchain
    · have hnot : ShmElem.proc a ∉ [ShmElem.proc b] := fun hmem => hab (ShmElem.proc.inj (List.mem_singleton.mp hmem))
      rw [pending_congr (hbut.state a hab) (hbut.phase a hab) fun _ => (hlinks _ hnot).1]
      refine (h.chain a).congr fun e he => ?_
      obtain ⟨c, hc, rfl⟩ := List.mem_map.mp he
      have hplace : pic.place c ≠ .free := by
        rw [(h.mem_chain a c).mp hc]
        exact Place.noConfusion
      exact (helse c hplace).2.1
  · by_cases hab : a = b
    · rw [hab]
      exact hok
    · have hnot : ShmElem.proc a ∉ [ShmElem.proc b] := fun hmem => hab (ShmElem.proc.inj (List.mem_singleton.mp hmem))
      exact (h.ok a).congr (hbut.state a hab) (hbut.inComplete a hab) (hbut.phase a hab) fun _ => hlinks _ hnot

/-- What a change of one ring leaves alone. -/
lemma ring_frame (hb : pic.place b = .free ∨ pic.place b = .queued mode)
    (hoff : s.links.SameOff ln (.proc b :: .head mode :: (pic.queue mode).map ShmElem.proc)) :
    (∀ mode', mode' ≠ mode → IsQueue ln mode' (pic.queue mode')) ∧
      (∀ leader, ∀ c ∈ pic.chain leader, ln.next (.proc c) = s.links.next (.proc c)) ∧
      ∀ a, a ≠ b → pic.place a = .free →
        ln.next (.proc a) = s.links.next (.proc a) ∧ ln.prev (.proc a) = s.links.prev (.proc a) := by
  have hout : ∀ a, a ≠ b → pic.place a ≠ .queued mode →
      ShmElem.proc a ∉ ShmElem.proc b :: ShmElem.head mode :: (pic.queue mode).map ShmElem.proc := by
    intro a hab ha hmem
    rcases List.mem_cons.mp hmem with heq | hmem
    · exact hab (ShmElem.proc.inj heq)
    · exact h.not_mem_ring ha hmem
  refine ⟨fun mode' hmode => ?_, fun leader c hc => ?_, fun a hab ha => hoff _ (hout a hab ?_)⟩
  · refine (h.queue mode').off hoff fun e he hmem => ?_
    rcases List.mem_cons.mp he with rfl | he
    · rcases List.mem_cons.mp hmem with heq | hmem
      · cases heq
      · rcases List.mem_cons.mp hmem with heq | hmem
        · exact hmode (ShmElem.head.inj heq)
        · obtain ⟨c, -, heq⟩ := List.mem_map.mp hmem
          cases heq
    · obtain ⟨c, hc, rfl⟩ := List.mem_map.mp he
      have hc := (h.mem_queue mode' c).mp hc
      have hcb : c ≠ b := by
        rintro rfl
        rcases hb with hb | hb
        · cases hb.symm.trans hc
        · exact hmode (Place.queued.inj (hc.symm.trans hb))
      exact hout c hcb (fun hq => hmode (Place.queued.inj (hc.symm.trans hq))) hmem
  · have hc := (h.mem_chain leader c).mp hc
    have hcb : c ≠ b := by
      rintro rfl
      rcases hb with hb | hb
      · cases hb.symm.trans hc
      · cases hb.symm.trans hc
    exact (hoff _ (hout c hcb fun hq => Place.noConfusion (hc.symm.trans hq))).1
  · rw [ha]
    exact Place.noConfusion

/-- The chains hang together as before, where the notified ones are as before. -/
lemma chain_congr {a : ℕ} (hstate : s'.syncRepState a = s.syncRepState a) (hphase : s'.phase a = s.phase a)
    (hfree : pic.place a = .free → s'.links.next (.proc a) = s.links.next (.proc a))
    (hnext : ∀ c ∈ pic.chain a, s'.links.next (.proc c) = s.links.next (.proc c)) :
    Linked s'.links.next (pending s' a) ((pic.chain a).map ShmElem.proc) none := by
  rw [pending_congr hstate hphase fun hc => hfree (h.free_of_complete hc)]
  refine (h.chain a).congr fun e he => ?_
  obtain ⟨c, hc, rfl⟩ := List.mem_map.mp he
  exact hnext c hc

/-- A backend leaves its queue. -/
lemma dequeue (hplace : pic.place b = .queued mode) (hbut : SameBut s s' b) (hwait : s'.waitLSN = s.waitLSN)
    (hdelete : shmQueueDelete s.links (.proc b) = some s'.links) (hstate : s'.syncRepState b ≠ .waitComplete)
    (hok : ∀ next, next = none → FreeOk (s'.syncRepState b) (s'.syncRepInCompleteQueue b) next (s'.phase b))
    (hphase : ∀ e atExit, s'.phase b ≠ .notifying e atExit) :
    ∃ pic', SyncInv s' pic' ∧ ∀ a, pic'.place a = update pic.place b .free a := by
  obtain ⟨l₁, l₂, hl⟩ := List.append_of_mem ((h.mem_queue mode b).mpr hplace)
  have hring := h.queue mode
  rw [hl, IsQueue, List.map_append, List.map_cons] at hring
  obtain ⟨ln, hln, hcirc, hnext, hprev, hoff⟩ := shmQueueDelete_spec hring
  obtain rfl := Option.some_inj.mp (hdelete.symm.trans hln)
  rw [← List.map_cons, ← List.map_append, ← hl] at hoff
  obtain ⟨hqueues, hchains, hfrees⟩ := h.ring_frame (.inr hplace) fun e he => hoff e fun hmem =>
    he (List.mem_cons_of_mem _ hmem)
  have hnodup : (l₁ ++ b :: l₂).Nodup := by
    have hnd := (List.nodup_cons.mp (h.queue mode).nodup).2
    rw [hl] at hnd
    exact hnd.of_map
  have hsub : ∀ a, a ∈ l₁ ++ l₂ ↔ a ≠ b ∧ a ∈ l₁ ++ b :: l₂ := by
    intro a
    have hb : b ∉ l₁ ++ l₂ := (List.nodup_cons.mp (List.perm_middle.nodup_iff.mp hnodup)).1
    rw [List.perm_middle.mem_iff, List.mem_cons]
    constructor
    · exact fun ha => ⟨fun heq => hb (heq ▸ ha), .inr ha⟩
    · exact fun ha => ha.2.resolve_left ha.1
  have hpend : pending s' b = none := by
    unfold pending
    cases hp : s'.phase b with
    | notifying e atExit => exact absurd hp (hphase e atExit)
    | _ => exact if_neg hstate
  have hqueue : IsQueue s'.links mode (l₁ ++ l₂) := by
    rw [IsQueue, List.map_append]
    exact hcirc
  refine ⟨⟨update pic.queue mode (l₁ ++ l₂), pic.chain, update pic.place b .free⟩,
    ⟨(Function.forall_update_iff _ _).mpr ⟨hqueue, hqueues⟩, ?_, fun a => ?_, h.nodup, fun mode' a => ?_,
      fun leader a => ?_, fun a => ?_⟩, fun _ => rfl⟩
  · rw [hwait]
    refine (Function.forall_update_iff _ fun _ queue => List.Pairwise _ queue).mpr ⟨?_, fun mode' _ => h.sorted mode'⟩
    exact (hl ▸ h.sorted mode).sublist ((List.sublist_cons_self b l₂).append_left l₁)
  · by_cases hab : a = b
    · subst hab
      have hnil : pic.chain a = [] :=
        h.chain_nil (h.pending_of_place (by rw [hplace]; exact Place.noConfusion))
      show Linked _ _ ((pic.chain a).map ShmElem.proc) none
      rw [hnil, hpend]
      rfl
    · exact h.chain_congr (hbut.state a hab) (hbut.phase a hab) (fun ha => (hfrees a hab ha).1) (hchains a)
  · show a ∈ update pic.queue mode _ mode' ↔ update pic.place b .free a = _
    by_cases hmode : mode' = mode
    · subst hmode
      rw [update_self, hsub a, ← hl, h.mem_queue mode' a]
      by_cases hab : a = b
      · rw [hab, update_self]
        exact ⟨fun ha => absurd rfl ha.1, Place.noConfusion⟩
      · rw [update_of_ne hab]
        exact and_iff_right hab
    · rw [update_of_ne hmode, h.mem_queue mode' a]
      by_cases hab : a = b
      · rw [hab, update_self, hplace]
        exact ⟨fun ha => absurd (Place.queued.inj ha).symm hmode, Place.noConfusion⟩
      · rw [update_of_ne hab]
  · show a ∈ pic.chain leader ↔ update pic.place b .free a = _
    rw [h.mem_chain leader a]
    by_cases hab : a = b
    · rw [hab, update_self, hplace]
      exact ⟨Place.noConfusion, Place.noConfusion⟩
    · rw [update_of_ne hab]
  · show PlaceOk s' a (update pic.place b .free a)
    by_cases hab : a = b
    · rw [hab, update_self]
      exact ⟨hprev, hnext ▸ hok none rfl⟩
    · rw [update_of_ne hab]
      exact (h.ok a).congr (hbut.state a hab) (hbut.inComplete a hab) (hbut.phase a hab) (hfrees a hab)

lemma place_idle (hphase : s.phase b = .idle) : pic.place b = .free := by
  by_contra hplace
  rcases h.phase_of_place hplace with hp | hp | hp
  · cases hphase.symm.trans hp
  · cases hphase.symm.trans hp
  · cases hphase.symm.trans hp

/-- A backend enters a queue. -/
lemma enqueue {fuel : ℕ} {xactCommitLSN : XLogRecPtr} (hphase : s.phase b = .idle)
    (hinsert : syncRepEnqueue fuel s b xactCommitLSN mode = some s') :
    ∃ pic', SyncInv (s'.setPhase b .waiting) pic' ∧ s'.lsn = s.lsn ∧
      s'.waitLSN = update s.waitLSN b xactCommitLSN ∧
      s'.syncRepState = update s.syncRepState b .waiting ∧
      ∀ a, pic'.place a = update pic.place b (.queued mode) a := by
  have hfree := h.place_idle hphase
  have hidle : s.syncRepState b = .notWaiting ∧ s.syncRepInCompleteQueue b = false ∧
      s.links.next (.proc b) = none := by
    have hok := h.ok b
    rw [hfree, PlaceOk, hphase] at hok
    exact hok.2
  have hout : b ∉ pic.queue mode := fun hmem => Place.noConfusion (hfree.symm.trans ((h.mem_queue mode b).mp hmem))
  have hring : IsQueue ({ s with waitLSN := update s.waitLSN b xactCommitLSN
                                 syncRepState := update s.syncRepState b .waiting } : SyncRepShmem).links mode
      (pic.queue mode) := h.queue mode
  obtain ⟨front, back, ln, -, hl, -, hrun, hfront, hback, hqueue, hoff⟩ := syncRepQueueInsert_spec hring hout
  obtain rfl := hrun fuel s' hinsert
  obtain ⟨hqueues, hchains, hfrees⟩ := h.ring_frame (.inl hfree) hoff
  have hlsn : ∀ p ∈ pic.queue mode, update s.waitLSN b xactCommitLSN p = s.waitLSN p := by
    intro p hp
    exact update_of_ne (fun heq : p = b => hout (heq ▸ hp)) _ _
  have hself : update s.waitLSN b xactCommitLSN b = xactCommitLSN := update_self _ _ _
  have hsorted : (front ++ b :: back).Pairwise fun p q =>
      update s.waitLSN b xactCommitLSN p ≤ update s.waitLSN b xactCommitLSN q := by
    have hold : (front ++ back).Pairwise fun p q =>
        update s.waitLSN b xactCommitLSN p ≤ update s.waitLSN b xactCommitLSN q := by
      refine hl ▸ (h.sorted mode).imp_of_mem fun hp hq hle => ?_
      rw [hlsn _ hp, hlsn _ hq]
      exact hle
    obtain ⟨hpfront, hpback, hcross⟩ := List.pairwise_append.mp hold
    have hle : ∀ p ∈ front, update s.waitLSN b xactCommitLSN p ≤
        update s.waitLSN b xactCommitLSN b := by
      intro p hp
      rcases front.eq_nil_or_concat with rfl | ⟨front, q, rfl⟩
      · cases hp
      · rw [List.concat_eq_append] at hp hpfront hfront
        have hq := hfront q (by rw [List.getLast?_concat, Option.mem_some_iff])
        rcases List.mem_append.mp hp with hp | hp
        · exact le_trans ((List.pairwise_append.mp hpfront).2.2 p hp q List.mem_cons_self) hq
        · exact List.mem_singleton.mp hp ▸ hq
    refine List.pairwise_append.mpr ⟨hpfront, List.pairwise_cons.mpr ⟨fun q hq => (hback q hq).le, hpback⟩,
      fun p hp q hq => ?_⟩
    rcases List.mem_cons.mp hq with rfl | hq
    · exact hle p hp
    · exact hcross p hp q hq
  refine ⟨⟨update pic.queue mode (front ++ b :: back), pic.chain, update pic.place b (.queued mode)⟩,
    ⟨(Function.forall_update_iff _ _).mpr ⟨hqueue, hqueues⟩, ?_, fun a => ?_, h.nodup, fun mode' a => ?_,
      fun leader a => ?_, fun a => ?_⟩, rfl, rfl, rfl, fun _ => rfl⟩
  · refine (Function.forall_update_iff _ fun _ queue => List.Pairwise _ queue).mpr ⟨hsorted, fun mode' _ => ?_⟩
    refine (h.sorted mode').imp_of_mem fun hp hq hle => ?_
    have hne : ∀ p ∈ pic.queue mode', update s.waitLSN b xactCommitLSN p = s.waitLSN p := by
      intro p hp
      refine update_of_ne (fun heq : p = b => ?_) _ _
      exact Place.noConfusion (hfree.symm.trans ((h.mem_queue mode' b).mp (heq ▸ hp)))
    exact (hne _ hp).trans_le (hle.trans_eq (hne _ hq).symm)
  · by_cases hab : a = b
    · subst hab
      have hpend : pending s a = none := by
        unfold pending
        rw [hphase, hidle.1]
        rfl
      have hpend' : pending (({ s with waitLSN := update s.waitLSN a xactCommitLSN
                                       syncRepState := update s.syncRepState a .waiting
                                       links := ln } : SyncRepShmem).setPhase a .waiting) a = none := by
        unfold pending SyncRepShmem.setPhase
        simp only [update_self]
        rfl
      show Linked _ _ ((pic.chain a).map ShmElem.proc) none
      rw [h.chain_nil hpend]
      exact hpend'
    · exact h.chain_congr (update_of_ne hab _ _) (update_of_ne hab _ _)
        (fun ha => (hfrees a hab ha).1) (hchains a)
  · show a ∈ update pic.queue mode _ mode' ↔ update pic.place b (.queued mode) a = _
    by_cases hmode : mode' = mode
    · subst hmode
      rw [update_self, List.perm_middle.mem_iff, List.mem_cons, ← hl, h.mem_queue mode' a]
      by_cases hab : a = b
      · rw [hab, update_self]
        exact ⟨fun _ => rfl, fun _ => .inl rfl⟩
      · rw [update_of_ne hab]
        exact or_iff_right hab
    · rw [update_of_ne hmode, h.mem_queue mode' a]
      by_cases hab : a = b
      · rw [hab, update_self, hfree]
        exact ⟨fun ha => (nomatch ha), fun ha => absurd (Place.queued.inj ha).symm hmode⟩
      · rw [update_of_ne hab]
  · show a ∈ pic.chain leader ↔ update pic.place b (.queued mode) a = _
    rw [h.mem_chain leader a]
    by_cases hab : a = b
    · rw [hab, update_self, hfree]
      exact ⟨fun ha => (nomatch ha), fun ha => (nomatch ha)⟩
    · rw [update_of_ne hab]
  · show PlaceOk _ a (update pic.place b (.queued mode) a)
    by_cases hab : a = b
    · rw [hab, update_self]
      exact ⟨update_self _ _ _, hidle.2.1, .inl (update_self _ _ _)⟩
    · rw [update_of_ne hab]
      exact (h.ok a).congr (update_of_ne hab _ _) rfl (update_of_ne hab _ _) (hfrees a hab)

/-- A piece leaves the queue, its first backend as the leader of the others. -/
lemma cut {first : ℕ} {tl back : List ℕ} (hl : pic.queue mode = first :: tl ++ back) (hqueue : IsQueue ln mode back)
    (hprev : ln.prev (.proc first) = none)
    (hlinked : Linked ln.next (some (.proc first)) ((first :: tl).map ShmElem.proc) none)
    (hoff : s.links.SameOff ln (.head mode :: (pic.queue mode).map ShmElem.proc)) :
    ∃ pic', SyncInv { s with
        links := ln
        syncRepInCompleteQueue := fun b => decide (b ∈ first :: tl) || s.syncRepInCompleteQueue b
        syncRepState := update s.syncRepState first .waitComplete } pic' ∧
      ∀ a, pic'.place a = if a = first then .free else if a ∈ tl then .chained first else pic.place a := by
  have hmem : ∀ a ∈ first :: tl, pic.place a = .queued mode := fun a ha =>
    (h.mem_queue mode a).mp (hl ▸ List.mem_append_left _ ha)
  have hfirst := hmem first List.mem_cons_self
  have hnodup : (first :: tl ++ back).Nodup := by
    have hnd := (List.nodup_cons.mp (h.queue mode).nodup).2
    rw [hl] at hnd
    exact hnd.of_map
  obtain ⟨hfirsttl, htl⟩ := List.nodup_cons.mp (hnodup.sublist (List.sublist_append_left _ _))
  obtain ⟨hqueues, hchains, hfrees⟩ := h.ring_frame (.inr hfirst) fun e he => hoff e fun hmem =>
    he (List.mem_cons_of_mem _ hmem)
  have hok := fun a (ha : a ∈ first :: tl) => (hmem a ha ▸ h.ok a : PlaceOk s a (.queued mode))
  have hphase : ∀ a ∈ first :: tl, s.phase a = .waiting ∨ s.phase a = .exiting := fun a ha => (hok a ha).2.2
  refine ⟨⟨update pic.queue mode back, update pic.chain first tl,
      fun a => if a = first then .free else if a ∈ tl then .chained first else pic.place a⟩,
    ⟨(Function.forall_update_iff _ _).mpr ⟨hqueue, hqueues⟩, ?_, fun a => ?_, fun a => ?_, fun mode' a => ?_,
      fun leader a => ?_, fun a => ?_⟩, fun _ => rfl⟩
  · refine (Function.forall_update_iff _ fun _ queue => List.Pairwise _ queue).mpr ⟨?_, fun mode' _ => h.sorted mode'⟩
    exact (hl ▸ h.sorted mode).sublist (List.sublist_append_right _ _)
  · by_cases ha : a = first
    · subst ha
      show Linked _ _ ((update pic.chain a tl a).map ShmElem.proc) none
      rw [update_self]
      have hpend : pending ({ s with links := ln
                                     syncRepInCompleteQueue := fun b =>
                                       decide (b ∈ a :: tl) || s.syncRepInCompleteQueue b
                                     syncRepState := update s.syncRepState a .waitComplete } :
          SyncRepShmem) a = ln.next (.proc a) := by
        unfold pending
        rcases hphase a List.mem_cons_self with hp | hp
        · simp only [hp, update_self, if_pos]
        · simp only [hp, update_self, if_pos]
      rw [hpend]
      exact hlinked.2
    · show Linked _ _ ((update pic.chain first tl a).map ShmElem.proc) none
      rw [update_of_ne ha]
      exact h.chain_congr (update_of_ne ha _ _) rfl (fun hf => (hfrees a ha hf).1) (hchains a)
  · by_cases ha : a = first
    · show (update pic.chain first tl a).Nodup
      rw [ha, update_self]
      exact htl
    · show (update pic.chain first tl a).Nodup
      rw [update_of_ne ha]
      exact h.nodup a
  · show a ∈ update pic.queue mode back mode' ↔
      (if a = first then Place.free else if a ∈ tl then .chained first else pic.place a) = _
    by_cases ha : a ∈ first :: tl
    · have hback : a ∉ back := List.disjoint_of_nodup_append hnodup ha
      have hno : a ∉ update pic.queue mode back mode' := by
        by_cases hmode : mode' = mode
        · rwa [hmode, update_self]
        · rw [update_of_ne hmode, h.mem_queue mode' a, hmem a ha]
          exact fun heq => hmode (Place.queued.inj heq).symm
      refine ⟨fun hin => absurd hin hno, fun heq => ?_⟩
      rcases List.mem_cons.mp ha with hf | htail
      · rw [if_pos hf] at heq
        cases heq
      · rw [if_neg (fun hf : a = first => hfirsttl (hf ▸ htail)), if_pos htail] at heq
        cases heq
    · have hf : a ≠ first := fun heq => ha (heq ▸ List.mem_cons_self)
      rw [if_neg hf, if_neg (fun htail => ha (List.mem_cons_of_mem _ htail)), ← h.mem_queue mode' a]
      by_cases hmode : mode' = mode
      · rw [hmode, update_self, hl, List.mem_append, or_iff_right ha]
      · rw [update_of_ne hmode]
  · show a ∈ update pic.chain first tl leader ↔
      (if a = first then Place.free else if a ∈ tl then .chained first else pic.place a) = _
    have hnil : pic.chain first = [] :=
      h.chain_nil (h.pending_of_place (by rw [hfirst]; exact Place.noConfusion))
    have hnofirst : pic.place a ≠ .chained first := by
      intro heq
      have := (h.mem_chain first a).mpr heq
      rw [hnil] at this
      cases this
    by_cases hleader : leader = first
    · rw [hleader, update_self]
      by_cases hf : a = first
      · rw [if_pos hf, hf]
        exact ⟨fun hin => absurd hin hfirsttl, fun heq => (nomatch heq)⟩
      · rw [if_neg hf]
        by_cases htail : a ∈ tl
        · rw [if_pos htail]
          exact ⟨fun _ => rfl, fun _ => htail⟩
        · rw [if_neg htail]
          exact ⟨fun hin => absurd hin htail, fun heq => absurd heq hnofirst⟩
    · rw [update_of_ne hleader, h.mem_chain leader a]
      by_cases hf : a = first
      · rw [if_pos hf, hf, hfirst]
        exact ⟨fun heq => (nomatch heq), fun heq => (nomatch heq)⟩
      · rw [if_neg hf]
        by_cases htail : a ∈ tl
        · rw [if_pos htail, hmem a (List.mem_cons_of_mem _ htail)]
          exact ⟨fun heq => (nomatch heq), fun heq => absurd (Place.chained.inj heq).symm hleader⟩
        · rw [if_neg htail]
  · show PlaceOk _ a (if a = first then .free else if a ∈ tl then .chained first else pic.place a)
    by_cases hf : a = first
    · rw [if_pos hf, hf]
      refine ⟨hprev, ?_⟩
      have hcomplete : update s.syncRepState first .waitComplete first = .waitComplete :=
        update_self _ _ _
      have hin : (decide (first ∈ first :: tl) || s.syncRepInCompleteQueue first) = true := by
        rw [decide_eq_true List.mem_cons_self, Bool.true_or]
      rcases hphase first List.mem_cons_self with hp | hp
      · show FreeOk _ _ _ (s.phase first)
        rw [hp]
        exact ⟨hcomplete, hin⟩
      · show FreeOk _ _ _ (s.phase first)
        rw [hp]
        exact ⟨hcomplete, hin⟩
    · rw [if_neg hf]
      by_cases htail : a ∈ tl
      · have ha : a ∈ first :: tl := List.mem_cons_of_mem _ htail
        rw [if_pos htail]
        refine ⟨(update_of_ne hf _ _).trans (hok a ha).1, ?_, (hphase a ha).imp_right .inl⟩
        show (decide (a ∈ first :: tl) || s.syncRepInCompleteQueue a) = true
        rw [decide_eq_true ha, Bool.true_or]
      · rw [if_neg htail]
        refine (h.ok a).congr (update_of_ne hf _ _) ?_ rfl (hfrees a hf)
        show (decide (a ∈ first :: tl) || s.syncRepInCompleteQueue a) = _
        rw [decide_eq_false (fun hmem => (List.mem_cons.mp hmem).elim hf htail), Bool.false_or]

/-- A leader hands the notification on to the next of its chain. -/
lemma handOn {c : ℕ} {atExit : Bool} (hphase : s.phase b = .notifying (some (.proc c)) atExit) :
    pic.place c = .chained b ∧
      ∃ pic', SyncInv ((notifyOne s c).1.setPhase b (.notifying (notifyOne s c).2 atExit)) pic' ∧
        ∀ a, pic'.place a = update pic.place c .free a := by
  have hfree : pic.place b = .free := by
    by_contra hplace
    rcases h.phase_of_place hplace with hp | hp | hp
    · cases hphase.symm.trans hp
    · cases hphase.symm.trans hp
    · cases hphase.symm.trans hp
  have hpend : pending s b = some (.proc c) := by
    unfold pending
    simp only [hphase]
  obtain ⟨rest, hchain, hrest⟩ : ∃ rest, pic.chain b = c :: rest ∧
      Linked s.links.next (s.links.next (.proc c)) (rest.map ShmElem.proc) none := by
    have hlinked := h.chain b
    rw [hpend] at hlinked
    cases hc : pic.chain b with
    | nil => exact (nomatch (hc ▸ hlinked : Linked _ (some (ShmElem.proc c)) [] none))
    | cons d rest =>
      rw [hc] at hlinked
      obtain rfl := ShmElem.proc.inj (Option.some_inj.mp hlinked.1)
      exact ⟨rest, rfl, hlinked.2⟩
  obtain ⟨hcrest, hnodup⟩ := List.nodup_cons.mp (hchain ▸ h.nodup b)
  have hc : pic.place c = .chained b := (h.mem_chain b c).mp (hchain ▸ List.mem_cons_self)
  have hcfree : pic.place c ≠ .free := by
    rw [hc]
    exact Place.noConfusion
  have hcb : c ≠ b := fun heq => hcfree (heq ▸ hfree)
  have hoff : ∀ a, a ≠ c → (shmQueueElemInit s.links (.proc c)).next (.proc a) = s.links.next (.proc a) ∧
      (shmQueueElemInit s.links (.proc c)).prev (.proc a) = s.links.prev (.proc a) := by
    intro a ha
    have hne : ShmElem.proc a ≠ .proc c := fun heq => ha (ShmElem.proc.inj heq)
    exact ⟨update_of_ne hne _ _, update_of_ne hne _ _⟩
  have hnone : (shmQueueElemInit s.links (.proc c)).next (.proc c) = none := update_self _ _ _
  refine ⟨hc, ⟨pic.queue, update pic.chain b rest, update pic.place c .free⟩,
    ⟨fun mode => ?_, h.sorted, fun a => ?_, fun a => ?_, fun mode a => ?_, fun leader a => ?_, fun a => ?_⟩,
    fun _ => rfl⟩
  · have hring : ∀ e ∈ ShmElem.head mode :: (pic.queue mode).map ShmElem.proc, e ≠ .proc c := by
      rintro e he rfl
      refine h.not_mem_ring ?_ he
      rw [hc]
      exact Place.noConfusion
    exact (h.queue mode).congr (fun e he => update_of_ne (hring e he) _ _) fun e he =>
      update_of_ne (hring e he) _ _
  · by_cases hab : a = b
    · subst hab
      show Linked _ _ ((update pic.chain a rest a).map ShmElem.proc) none
      have hpend' : pending ((notifyOne s c).1.setPhase a (.notifying (notifyOne s c).2 atExit)) a =
          s.links.next (.proc c) := by
        unfold pending SyncRepShmem.setPhase
        simp only [update_self]
        rfl
      rw [update_self, hpend']
      refine hrest.congr fun e he => ?_
      obtain ⟨d, hd, rfl⟩ := List.mem_map.mp he
      exact (hoff d fun heq => hcrest (heq ▸ hd)).1
    · show Linked _ _ ((update pic.chain b rest a).map ShmElem.proc) none
      rw [update_of_ne hab]
      by_cases hac : a = c
      · subst hac
        rw [h.chain_nil (h.pending_of_place hcfree)]
        show pending _ a = none
        unfold pending SyncRepShmem.setPhase
        have hself : (notifyOne s a).1.syncRepState a = .waitComplete := update_self _ _ _
        have hsame : (notifyOne s a).1.phase a = s.phase a := rfl
        simp only [update_of_ne hab, hself, if_pos, hsame]
        rcases h.phase_of_place hcfree with hp | hp | hp
        · rw [hp]
          exact hnone
        · rw [hp]
          exact hnone
        · rw [hp]
          exact hnone
      · refine h.chain_congr (update_of_ne hac _ _) (update_of_ne hab _ _)
          (fun _ => (hoff a hac).1) fun d hd => (hoff d ?_).1
        rintro rfl
        exact hab (Place.chained.inj (((h.mem_chain a d).mp hd).symm.trans hc))
  · by_cases hab : a = b
    · show (update pic.chain b rest a).Nodup
      rw [hab, update_self]
      exact hnodup
    · show (update pic.chain b rest a).Nodup
      rw [update_of_ne hab]
      exact h.nodup a
  · show a ∈ pic.queue mode ↔ update pic.place c .free a = _
    rw [h.mem_queue mode a]
    by_cases hac : a = c
    · rw [hac, update_self, hc]
      exact ⟨fun heq => (nomatch heq), fun heq => (nomatch heq)⟩
    · rw [update_of_ne hac]
  · show a ∈ update pic.chain b rest leader ↔ update pic.place c .free a = _
    have hmem : a ≠ c → (a ∈ update pic.chain b rest leader ↔ a ∈ pic.chain leader) := by
      intro hac
      by_cases hleader : leader = b
      · rw [hleader, update_self, hchain, List.mem_cons, or_iff_right hac]
      · rw [update_of_ne hleader]
    by_cases hac : a = c
    · rw [hac, update_self]
      refine ⟨fun hin => absurd hin ?_, fun heq => (nomatch heq)⟩
      by_cases hleader : leader = b
      · rwa [hleader, update_self]
      · rw [update_of_ne hleader, h.mem_chain leader c, hc]
        exact fun heq => hleader (Place.chained.inj heq).symm
    · rw [update_of_ne hac, hmem hac, h.mem_chain leader a]
  · show PlaceOk _ a (update pic.place c .free a)
    by_cases hac : a = c
    · subst hac
      rw [update_self]
      have hok : PlaceOk s a (.chained b) := hc ▸ h.ok a
      refine ⟨update_self _ _ _, ?_⟩
      have hstate : update s.syncRepState a .waitComplete a = .waitComplete := update_self _ _ _
      have hp : update s.phase b (.notifying (notifyOne s a).2 atExit) a = s.phase a :=
        update_of_ne hcb _ _
      show FreeOk _ _ _ (update s.phase b (.notifying (notifyOne s a).2 atExit) a)
      rw [hp]
      rcases h.phase_of_place hcfree with hp | hp | hp
      · rw [hp]
        exact ⟨hstate, hok.2.1⟩
      · rw [hp]
        exact ⟨hstate, hok.2.1⟩
      · rw [hp]
        exact ⟨hstate, hok.2.1⟩
    · rw [update_of_ne hac]
      by_cases hab : a = b
      · subst hab
        have hok : PlaceOk s a .free := hfree ▸ h.ok a
        rw [PlaceOk, hphase] at hok
        rw [hfree]
        refine ⟨(hoff a hac).2.trans hok.1, ?_⟩
        show FreeOk _ _ _ (update s.phase a (.notifying (notifyOne s c).2 atExit) a)
        rw [update_self]
        exact ⟨(update_of_ne hac _ _).trans hok.2.1, hok.2.2.1, (hoff a hac).1.trans hok.2.2.2⟩
      · exact (h.ok a).congr (update_of_ne hac _ _) rfl (update_of_ne hab _ _) fun _ => hoff a hac

end

end SyncInv

end GaussKernel.Replication
