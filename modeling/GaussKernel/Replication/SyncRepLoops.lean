import GaussKernel.Replication.SyncRepQueue

/-!
# Operations on a wait queue

The loops of `SyncRepQueueInsert` and `SyncRepWakeQueue` end on every ring, whatever it holds, and the piece that a
walsender cuts out hangs together by its forward links.
-/

namespace GaussKernel.Replication

open GaussKernel.Lib
open Function (update update_self update_of_ne)

variable {ln : Links ShmElem} {mode : SyncRepWaitMode} {l l₁ l₂ : List ℕ} {b : ℕ} {e : ShmElem} {rest : List ShmElem}
  {s : SyncRepShmem}

def IsQueue (ln : Links ShmElem) (mode : SyncRepWaitMode) (l : List ℕ) : Prop :=
  Circular ln (.head mode) (l.map ShmElem.proc)

/-! ## Reading a queue -/

lemma nextProc_eq {pre : List ShmElem} (h : IsQueue ln mode l)
    (hw : .head mode :: (l.map ShmElem.proc ++ [.head mode]) = pre ++ e :: (l₂.map ShmElem.proc ++ [.head mode])) :
    nextProc ln mode e = some l₂.head? := by
  unfold nextProc shmQueueNext
  cases l₂ with
  | nil =>
    rw [(h.joined_at hw).1]
    simp only [Option.bind_eq_bind, Option.bind_some, if_pos]
    rfl
  | cons p l₂ =>
    rw [(h.joined_at hw).1]
    simp only [Option.bind_eq_bind, Option.bind_some, reduceCtorEq, if_false]
    rfl

lemma prevProc_eq (h : IsQueue ln mode l)
    (hw : .head mode :: (l.map ShmElem.proc ++ [.head mode]) = (.head mode :: l₁.map ShmElem.proc) ++ e :: rest) :
    prevProc ln mode e = some l₁.getLast? := by
  unfold prevProc shmQueuePrev
  rcases l₁.eq_nil_or_concat with rfl | ⟨l₁, p, rfl⟩
  · have hw : .head mode :: (l.map ShmElem.proc ++ [.head mode]) = [] ++ .head mode :: e :: rest := hw
    rw [(h.joined_at hw).2]
    simp only [Option.bind_eq_bind, Option.bind_some, if_pos]
    rfl
  · have hw : ShmElem.head mode :: (l.map ShmElem.proc ++ [ShmElem.head mode]) =
        (ShmElem.head mode :: l₁.map ShmElem.proc) ++ ShmElem.proc p :: e :: rest := by
      rw [hw, List.concat_eq_append, List.map_append, List.cons_append, List.cons_append, List.append_assoc]
      rfl
    rw [(h.joined_at hw).2, List.concat_eq_append, List.getLast?_concat]
    simp only [Option.bind_eq_bind, Option.bind_some, reduceCtorEq, if_false]
    rfl

/-- The ring of a queue, walked up to one of its backends. -/
lemma ring_split (mode : SyncRepWaitMode) (l₁ l₂ : List ℕ) (p : ℕ) :
    ShmElem.head mode :: ((l₁ ++ p :: l₂).map ShmElem.proc ++ [ShmElem.head mode]) =
      (ShmElem.head mode :: l₁.map ShmElem.proc) ++
        ShmElem.proc p :: (l₂.map ShmElem.proc ++ [ShmElem.head mode]) := by
  rw [List.map_append, List.map_cons, List.append_assoc]
  rfl

variable {fuel : ℕ}

/-- The loop finds the last backend whose position is not greater. -/
lemma insertLoop_spec (waitLSN : XLogRecPtr) (h : IsQueue s.links mode (l₁ ++ l₂)) (hfuel : l₁.length < fuel) :
    ∃ front back, l₁ = front ++ back ∧ insertLoop s mode waitLSN fuel l₁.getLast? = some front.getLast? ∧
      (∀ p ∈ front.getLast?, s.waitLSN p ≤ waitLSN) ∧ ∀ p ∈ back, waitLSN < s.waitLSN p := by
  induction l₁ using List.reverseRecOn generalizing l₂ fuel with
  | nil =>
    obtain ⟨fuel, rfl⟩ : ∃ n, fuel = n + 1 := ⟨fuel - 1, by omega⟩
    exact ⟨[], [], rfl, rfl, fun p hp => (nomatch hp), fun p hp => (nomatch hp)⟩
  | append_singleton l₁ p ih =>
    obtain ⟨fuel, rfl⟩ : ∃ n, fuel = n + 1 := ⟨fuel - 1, by omega⟩
    rw [List.getLast?_concat]
    by_cases hle : s.waitLSN p ≤ waitLSN
    · refine ⟨l₁ ++ [p], [], (List.append_nil _).symm, ?_, fun q hq => ?_, fun q hq => (nomatch hq)⟩
      · rw [insertLoop, if_pos hle, List.getLast?_concat]
      · rw [List.getLast?_concat, Option.mem_some_iff] at hq
        exact hq ▸ hle
    · rw [List.append_assoc, List.singleton_append] at h
      have hprev : prevProc s.links mode (.proc p) = some l₁.getLast? := prevProc_eq h (ring_split mode l₁ l₂ p)
      rw [List.length_append, List.length_singleton] at hfuel
      obtain ⟨front, back, rfl, hloop, hfront, hback⟩ := ih h (by omega : l₁.length < fuel)
      refine ⟨front, back ++ [p], List.append_assoc _ _ _, ?_, hfront, fun q hq => ?_⟩
      · rw [insertLoop, if_neg hle, hprev]
        exact hloop
      · rcases List.mem_append.mp hq with hq | hq
        · exact hback q hq
        · exact List.mem_singleton.mp hq ▸ not_le.mp hle

lemma insertLoop_mono {waitLSN : XLogRecPtr} {fuel' : ℕ} {cur r : Option ℕ}
    (h : insertLoop s mode waitLSN fuel cur = some r) (hle : fuel ≤ fuel') :
    insertLoop s mode waitLSN fuel' cur = some r := by
  induction fuel generalizing cur fuel' with
  | zero => cases h
  | succ fuel ih =>
    obtain ⟨fuel', rfl⟩ : ∃ n, fuel' = n + 1 := ⟨fuel' - 1, by omega⟩
    cases cur with
    | none => exact h
    | some p =>
      rw [insertLoop] at h ⊢
      by_cases hp : s.waitLSN p ≤ waitLSN
      · rwa [if_pos hp] at h ⊢
      · rw [if_neg hp] at h ⊢
        obtain ⟨cur, hcur, h⟩ := Option.bind_eq_some_iff.mp h
        exact Option.bind_eq_some_iff.mpr ⟨cur, hcur, ih h (Nat.le_of_succ_le_succ hle)⟩

lemma wakeLoop_mono {all : Bool} {fuel' : ℕ} {cur : Option ℕ} {pTail : ShmElem} {r : SyncRepShmem × ShmElem}
    (h : wakeLoop all mode fuel s cur pTail = some r) (hle : fuel ≤ fuel') :
    wakeLoop all mode fuel' s cur pTail = some r := by
  induction fuel generalizing s cur pTail fuel' with
  | zero => cases h
  | succ fuel ih =>
    obtain ⟨fuel', rfl⟩ : ∃ n, fuel' = n + 1 := ⟨fuel' - 1, by omega⟩
    cases cur with
    | none => exact h
    | some p =>
      rw [wakeLoop] at h ⊢
      by_cases hp : (!all && s.lsn mode < s.waitLSN p) = true
      · rwa [if_pos hp] at h ⊢
      · rw [if_neg hp] at h ⊢
        obtain ⟨cur, hcur, h⟩ := Option.bind_eq_some_iff.mp h
        exact Option.bind_eq_some_iff.mpr ⟨cur, hcur, ih h (Nat.le_of_succ_le_succ hle)⟩

lemma mark_cons (f : ℕ → Bool) (p : ℕ) (seg : List ℕ) :
    (fun b => decide (b ∈ seg) || update f p true b) = fun b => decide (b ∈ p :: seg) || f b := by
  funext q
  by_cases hq : q = p
  · rw [hq, update_self, Bool.or_true, decide_eq_true List.mem_cons_self, Bool.true_or]
  · have hmem : q ∈ p :: seg ↔ q ∈ seg := by
      rw [List.mem_cons, or_iff_right hq]
    rw [update_of_ne hq, decide_eq_decide.mpr hmem]

/-- The loop of the walsender marks a piece from the front. -/
lemma wakeLoop_spec {all : Bool} (h : IsQueue s.links mode (l₁ ++ l₂)) (hfuel : l₂.length < fuel) (pTail : ShmElem) :
    ∃ seg back, l₂ = seg ++ back ∧
      wakeLoop all mode fuel s l₂.head? pTail = some
        ({ s with syncRepInCompleteQueue := fun b => decide (b ∈ seg) || s.syncRepInCompleteQueue b },
          (pTail :: seg.map ShmElem.proc).getLast (List.cons_ne_nil _ _)) ∧
      (∀ p ∈ seg, all = true ∨ s.waitLSN p ≤ s.lsn mode) ∧
      ∀ p ∈ back.head?, all = false ∧ s.lsn mode < s.waitLSN p := by
  induction l₂ generalizing l₁ s fuel pTail with
  | nil =>
    obtain ⟨fuel, rfl⟩ : ∃ n, fuel = n + 1 := ⟨fuel - 1, by omega⟩
    exact ⟨[], [], rfl, rfl, fun p hp => (nomatch hp), fun p hp => (nomatch hp)⟩
  | cons p l₂ ih =>
    obtain ⟨fuel, rfl⟩ : ∃ n, fuel = n + 1 := ⟨fuel - 1, by omega⟩
    rw [List.head?_cons]
    cases hstop : (!all && s.lsn mode < s.waitLSN p) with
    | true =>
      obtain ⟨hall, hlt⟩ := Bool.and_eq_true_iff.mp hstop
      refine ⟨[], p :: l₂, rfl, ?_, fun q hq => (nomatch hq), fun q hq => ?_⟩
      · rw [wakeLoop, hstop]
        rfl
      · rw [List.head?_cons, Option.mem_some_iff] at hq
        exact hq ▸ ⟨(Bool.not_eq_true' all).mp hall, of_decide_eq_true hlt⟩
    | false =>
      have hnext : nextProc s.links mode (.proc p) = some l₂.head? := nextProc_eq h (ring_split mode l₁ l₂ p)
      have hsplit : l₁ ++ p :: l₂ = (l₁ ++ [p]) ++ l₂ := List.append_cons l₁ p l₂
      rw [hsplit] at h
      have hfuel' : l₂.length < fuel := Nat.lt_of_succ_lt_succ hfuel
      have hlinks : IsQueue ({ s with
          syncRepInCompleteQueue := update s.syncRepInCompleteQueue p true } : SyncRepShmem).links mode
          ((l₁ ++ [p]) ++ l₂) := h
      obtain ⟨seg, back, rfl, hloop, hseg, hback⟩ := ih hlinks hfuel' (.proc p)
      refine ⟨p :: seg, back, rfl, ?_, fun q hq => ?_, hback⟩
      · rw [wakeLoop, hstop, hnext]
        exact hloop.trans (by rw [← mark_cons]; rfl)
      · rcases List.mem_cons.mp hq with rfl | hq
        · by_cases hall : all = true
          · exact .inl hall
          · refine .inr (not_lt.mp fun hlt => ?_)
            rw [Bool.not_eq_true] at hall
            rw [hall, decide_eq_true hlt] at hstop
            exact Bool.noConfusion hstop
        · exact hseg q hq

/-- A backend gets into a queue behind all whose position is not greater. -/
lemma syncRepQueueInsert_spec (h : IsQueue s.links mode l) (hb : b ∉ l) :
    ∃ front back ln fuel, l = front ++ back ∧ syncRepQueueInsert fuel s b mode = some { s with links := ln } ∧
      (∀ fuel' s', syncRepQueueInsert fuel' s b mode = some s' → s' = { s with links := ln }) ∧
      (∀ p ∈ front.getLast?, s.waitLSN p ≤ s.waitLSN b) ∧ (∀ p ∈ back, s.waitLSN b < s.waitLSN p) ∧
      IsQueue ln mode (front ++ b :: back) ∧
      s.links.SameOff ln (.proc b :: .head mode :: l.map ShmElem.proc) := by
  have hlast : prevProc s.links mode (.head mode) = some l.getLast? := by
    have hw : ShmElem.head mode :: (l.map ShmElem.proc ++ [ShmElem.head mode]) =
        (ShmElem.head mode :: l.map ShmElem.proc) ++ ShmElem.head mode :: [] := rfl
    exact prevProc_eq h hw
  have hring : IsQueue s.links mode (l ++ []) := (List.append_nil l).symm ▸ h
  obtain ⟨front, back, hl, hloop, hfront, hback⟩ :=
    insertLoop_spec (s.waitLSN b) hring (Nat.lt_succ_self l.length)
  obtain ⟨pre, hpre⟩ : ∃ pre, ShmElem.head mode :: front.map ShmElem.proc =
      pre ++ [front.getLast?.elim (.head mode) .proc] := by
    rcases front.eq_nil_or_concat with rfl | ⟨front, q, rfl⟩
    · exact ⟨[], rfl⟩
    · refine ⟨.head mode :: front.map ShmElem.proc, ?_⟩
      rw [List.concat_eq_append, List.getLast?_concat, List.map_append]
      rfl
  have hsplit : ShmElem.head mode :: l.map ShmElem.proc =
      pre ++ front.getLast?.elim (.head mode) .proc :: back.map ShmElem.proc := by
    rw [hl, List.map_append, ← List.cons_append, hpre, List.append_assoc]
    rfl
  have hout : ShmElem.proc b ∉ ShmElem.head mode :: l.map ShmElem.proc := by
    intro hmem
    rcases List.mem_cons.mp hmem with heq | hmem
    · cases heq
    · obtain ⟨c, hc, heq⟩ := List.mem_map.mp hmem
      exact hb (ShmElem.proc.inj heq ▸ hc)
  obtain ⟨ln, hinsert, hcirc, hoff⟩ := shmQueueInsertAfter_spec h hsplit hout
  have hrun : ∀ fuel, l.length < fuel → syncRepQueueInsert fuel s b mode = some { s with links := ln } := by
    intro fuel hfuel
    unfold syncRepQueueInsert
    rw [hlast]
    simp only [Option.bind_eq_bind, Option.bind_some, insertLoop_mono hloop hfuel, hinsert]
  refine ⟨front, back, ln, l.length + 1, hl, hrun _ (Nat.lt_succ_self _), fun fuel' s' hs' => ?_, hfront, hback, ?_,
    hoff⟩
  · have hmore : syncRepQueueInsert (max fuel' (l.length + 1)) s b mode = some s' := by
      obtain ⟨cur, hcur, hs'⟩ := Option.bind_eq_some_iff.mp hs'
      obtain ⟨place, hplace, hs'⟩ := Option.bind_eq_some_iff.mp hs'
      exact Option.bind_eq_some_iff.mpr
        ⟨cur, hcur, Option.bind_eq_some_iff.mpr ⟨place, insertLoop_mono hplace (le_max_left _ _), hs'⟩⟩
    exact Option.some_inj.mp (hmore.symm.trans (hrun _ (Nat.lt_of_succ_le (le_max_right _ _))))
  · refine hcirc _ ?_
    rw [List.map_append, ← List.cons_append, hpre, List.map_cons, List.append_assoc]
    rfl

/-! ## Cutting -/

lemma linked_of_joined {E : Type*} {ln : Links E} {w : List E} {n : E} (h : (w ++ [n]).IsChain (Joined ln)) :
    Linked ln.next (w ++ [n]).head? w (some n) := by
  induction w with
  | nil => rfl
  | cons a w ih =>
    refine ⟨rfl, ?_⟩
    have hrest : (w ++ [n]).IsChain (Joined ln) := h.tail
    have hnext : ln.next a = (w ++ [n]).head? := by
      cases w with
      | nil => exact (List.isChain_cons_cons.mp h).1.1
      | cons b w => exact (List.isChain_cons_cons.mp h).1.1
    rw [hnext]
    exact ih hrest

/-- The links after the piece from `first` to `t` is cut off in front of `n`. -/
def cutLinks {E : Type*} [DecidableEq E] (ln : Links E) (head first t n : E) : Links E :=
  ⟨update (update ln.next head (some n)) t none,
    update (update ln.prev first none) n (some head)⟩

section

variable {E : Type*} [DecidableEq E] {ln : Links E} {head first t n a : E}

lemma cutLinks_next_head (h : head ≠ t) : (cutLinks ln head first t n).next head = some n :=
  (update_of_ne h _ _).trans (update_self _ _ _)

lemma cutLinks_next_last : (cutLinks ln head first t n).next t = none := update_self _ _ _

lemma cutLinks_next_of_ne (hat : a ≠ t) (hah : a ≠ head) : (cutLinks ln head first t n).next a = ln.next a :=
  (update_of_ne hat _ _).trans (update_of_ne hah _ _)

lemma cutLinks_prev_next : (cutLinks ln head first t n).prev n = some head := update_self _ _ _

lemma cutLinks_prev_first (h : first ≠ n) : (cutLinks ln head first t n).prev first = none :=
  (update_of_ne h _ _).trans (update_self _ _ _)

lemma cutLinks_prev_of_ne (han : a ≠ n) (haf : a ≠ first) : (cutLinks ln head first t n).prev a = ln.prev a :=
  (update_of_ne han _ _).trans (update_of_ne haf _ _)

/-- The piece that was cut off hangs together by its forward links. -/
lemma cutLinks_linked (first n : E) {front : List E} (hchain : (front ++ [t]).IsChain (Joined ln))
    (hnodup : (front ++ [t]).Nodup) (hhead : head ∉ front ++ [t]) :
    Linked (cutLinks ln head first t n).next (front ++ [t]).head? (front ++ [t]) none := by
  have hfront := linked_of_joined hchain
  refine Linked.append (hfront.congr fun a ha => ?_) ⟨rfl, cutLinks_next_last⟩
  have hat : a ≠ t := by
    rintro rfl
    exact List.disjoint_of_nodup_append hnodup ha List.mem_cons_self
  have hah : a ≠ head := fun heq => hhead (List.mem_append_left _ (heq ▸ ha))
  exact cutLinks_next_of_ne hat hah

end

/-- The ring closes behind the piece, and the piece hangs together by its forward links. -/
lemma cutSegment_spec {E : Type*} [DecidableEq E] {ln : Links E} {head first : E} {seg rest : List E}
    (h : Circular ln head (first :: seg ++ rest)) :
    ∃ ln', cutSegment ln head ((first :: seg).getLast (List.cons_ne_nil _ _)) = some (ln', first) ∧
      Circular ln' head rest ∧ ln'.prev first = none ∧ Linked ln'.next (some first) (first :: seg) none ∧
      ln.SameOff ln' (head :: (first :: seg ++ rest)) := by
  obtain ⟨n, rest', hafter⟩ := exists_after head rest
  obtain ⟨front, t, hseg⟩ : ∃ front t, first :: seg = front ++ [t] :=
    ⟨_, _, (List.dropLast_concat_getLast (List.cons_ne_nil first seg)).symm⟩
  have hlast : (first :: seg).getLast (List.cons_ne_nil _ _) = t := by
    simp only [hseg, List.getLast_concat]
  have hw : head :: (first :: seg ++ rest ++ [head]) = [] ++ head :: (first :: seg ++ n :: rest') := by
    rw [List.append_assoc, hafter]
    rfl
  have hw' : head :: (rest ++ [head]) = [] ++ head :: ([] ++ n :: rest') := by
    rw [hafter]
    rfl
  obtain ⟨hfirst, -⟩ := h.joined_at hw
  have hwt : head :: (first :: seg ++ rest ++ [head]) = (head :: front) ++ t :: n :: rest' := by
    rw [hw, hseg, List.append_assoc]
    rfl
  obtain ⟨ht, -⟩ := h.joined_at hwt
  obtain ⟨hhead, hnodup⟩ := List.nodup_cons.mp h.nodup
  have htmem : t ∈ first :: seg := hseg ▸ List.mem_append_right _ List.mem_cons_self
  have hheadseg : head ∉ first :: seg := fun hmem => hhead (List.mem_append_left _ hmem)
  have hheadt : head ≠ t := fun heq => hheadseg (heq ▸ htmem)
  have hn : n = head ∨ n ∈ rest := by
    have : n ∈ rest ++ [head] := hafter ▸ List.mem_cons_self
    exact (List.mem_append.mp this).symm.imp_left List.mem_singleton.mp
  have hnseg : n ∉ first :: seg := by
    rcases hn with rfl | hn
    · exact hheadseg
    · exact fun hmem => List.disjoint_of_nodup_append hnodup hmem hn
  refine ⟨cutLinks ln head first t n, ?_, ?_, cutLinks_prev_first ?_, ?_, fun a ha => ?_⟩
  · unfold cutSegment
    rw [hlast, hfirst]
    simp only [Option.bind_eq_bind, Option.bind_some, Links.setNext, Links.setPrev, ht,
      update_of_ne hheadt.symm]
    rfl
  · refine h.splice hw hw' ?_ ?_ (fun a _ hah hamid => ?_) fun a _ han hamid => ?_
    · exact h.nodup.sublist ((List.sublist_append_right (first :: seg) rest).cons_cons head)
    · exact List.isChain_cons_cons.mpr ⟨⟨cutLinks_next_head hheadt, cutLinks_prev_next⟩, .singleton n⟩
    · exact cutLinks_next_of_ne (fun heq => hamid (heq ▸ htmem)) hah
    · exact cutLinks_prev_of_ne han fun heq => hamid (heq ▸ List.mem_cons_self)
  · exact fun heq => hnseg (heq ▸ List.mem_cons_self)
  · have hchain : (front ++ [t]).IsChain (Joined ln) := by
      have hjoined := h.joined
      rw [hw] at hjoined
      exact hseg ▸ (List.isChain_cons.mp hjoined).2.left_of_append
    have hlinked := cutLinks_linked first n hchain
      (hseg ▸ hnodup.sublist (List.sublist_append_left _ _)) (hseg ▸ hheadseg)
    rwa [← hseg] at hlinked
  · have hmem : ∀ b ∈ head :: (first :: seg ++ rest), a ≠ b := fun b hb heq => ha (heq ▸ hb)
    have han : a ≠ n := by
      rcases hn with rfl | hn
      · exact hmem n List.mem_cons_self
      · exact hmem n (List.mem_cons_of_mem _ (List.mem_append_right _ hn))
    have hat : a ≠ t := hmem t (List.mem_cons_of_mem _ (List.mem_append_left _ htmem))
    have hah : a ≠ head := hmem head List.mem_cons_self
    have haf : a ≠ first := hmem first (List.mem_cons_of_mem _ List.mem_cons_self)
    exact ⟨cutLinks_next_of_ne hat hah, cutLinks_prev_of_ne han haf⟩

/-- The result of a wake-up, whatever the bound of its loop. -/
def WakeResult (all : Bool) (mode : SyncRepWaitMode) (s : SyncRepShmem) (r : SyncRepShmem × Option ℕ) : Prop :=
  (∃ fuel, syncRepWakeQueue fuel all mode s = some r) ∧ ∀ fuel r', syncRepWakeQueue fuel all mode s = some r' → r' = r

/-- The piece that is marked is the piece that is cut. -/
lemma syncRepWakeQueue_spec (h : IsQueue s.links mode l) (all : Bool) :
    ∃ seg back, l = seg ++ back ∧ (∀ p ∈ seg, all = true ∨ s.waitLSN p ≤ s.lsn mode) ∧
      (∀ p ∈ back.head?, all = false ∧ s.lsn mode < s.waitLSN p) ∧
      (seg = [] ∧ WakeResult all mode s (s, none) ∨
        ∃ first tl ln, seg = first :: tl ∧ IsQueue ln mode back ∧ ln.prev (.proc first) = none ∧
          Linked ln.next (some (.proc first)) (seg.map ShmElem.proc) none ∧
          s.links.SameOff ln (.head mode :: l.map ShmElem.proc) ∧
          WakeResult all mode s
            ({ s with links := ln
                      syncRepInCompleteQueue := fun b => decide (b ∈ seg) || s.syncRepInCompleteQueue b
                      syncRepState := update s.syncRepState first .waitComplete }, some first)) := by
  have hfirst : nextProc s.links mode (.head mode) = some l.head? := by
    have hw : ShmElem.head mode :: (l.map ShmElem.proc ++ [ShmElem.head mode]) =
        [] ++ ShmElem.head mode :: (l.map ShmElem.proc ++ [ShmElem.head mode]) := rfl
    exact nextProc_eq h hw
  have hring : IsQueue s.links mode ([] ++ l) := h
  obtain ⟨seg, back, hl, hloop, hseg, hback⟩ := wakeLoop_spec hring (Nat.lt_succ_self l.length) (.head mode)
  have hresult : ∀ r, syncRepWakeQueue (l.length + 1) all mode s = some r → WakeResult all mode s r := by
    intro r hr
    refine ⟨⟨_, hr⟩, fun fuel r' hr' => ?_⟩
    have hmore : ∀ {n r}, n ≤ max fuel (l.length + 1) → syncRepWakeQueue n all mode s = some r →
        syncRepWakeQueue (max fuel (l.length + 1)) all mode s = some r := by
      intro n r hle hn
      obtain ⟨cur, hcur, hn⟩ := Option.bind_eq_some_iff.mp hn
      obtain ⟨marked, hmarked, hn⟩ := Option.bind_eq_some_iff.mp hn
      exact Option.bind_eq_some_iff.mpr
        ⟨cur, hcur, Option.bind_eq_some_iff.mpr ⟨marked, wakeLoop_mono hmarked hle, hn⟩⟩
    exact Option.some_inj.mp ((hmore (le_max_left _ _) hr').symm.trans (hmore (le_max_right _ _) hr))
  refine ⟨seg, back, hl, hseg, hback, ?_⟩
  cases seg with
  | nil =>
    refine .inl ⟨rfl, hresult _ ?_⟩
    have hnone : (fun b => decide (b ∈ ([] : List ℕ)) || s.syncRepInCompleteQueue b) = s.syncRepInCompleteQueue := by
      funext b
      rw [decide_eq_false List.not_mem_nil, Bool.false_or]
    unfold syncRepWakeQueue
    rw [hfirst]
    simp only [Option.bind_eq_bind, Option.bind_some, hloop, hnone]
    exact if_pos rfl
  | cons first tl =>
    rw [hl, IsQueue, List.map_append, List.map_cons] at h
    obtain ⟨ln, hcut, hqueue, hprev, hlinked, hoff⟩ := cutSegment_spec h
    have hlast : (ShmElem.head mode :: (first :: tl).map ShmElem.proc).getLast (List.cons_ne_nil _ _) =
        (ShmElem.proc first :: tl.map ShmElem.proc).getLast (List.cons_ne_nil _ _) := rfl
    have hne : (ShmElem.proc first :: tl.map ShmElem.proc).getLast (List.cons_ne_nil _ _) ≠ .head mode := by
      intro heq
      have hmem := List.getLast_mem (List.cons_ne_nil (ShmElem.proc first) (tl.map ShmElem.proc))
      rw [heq, ← List.map_cons] at hmem
      obtain ⟨c, -, hc⟩ := List.mem_map.mp hmem
      cases hc
    refine .inr ⟨first, tl, ln, rfl, hqueue, hprev, hlinked, ?_, hresult _ ?_⟩
    · rw [hl, List.map_append, List.map_cons]
      exact hoff
    · unfold syncRepWakeQueue
      rw [hfirst]
      simp only [Option.bind_eq_bind, Option.bind_some, hloop]
      rw [hlast, if_neg hne, hcut]
      rfl

end GaussKernel.Replication
