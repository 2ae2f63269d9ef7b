import Mathlib.Data.List.Chain
import Mathlib.Data.List.Infix
import Mathlib.Data.List.Nodup
import Mathlib.Logic.Function.Basic

/-!
# Circular lists

Doubly linked cells in a ring: from a head through its cells and back, every cell is joined to the one after it. A
stretch of the ring is exchanged for another (`Circular.splice`) by changing the links at its two ends only.
-/

namespace GaussKernel.Lib

variable {E : Type*}

structure Links (E : Type*) where
  next : E → Option E
  prev : E → Option E

def Joined (ln : Links E) (a b : E) : Prop := ln.next a = some b ∧ ln.prev b = some a

structure Circular (ln : Links E) (head : E) (l : List E) : Prop where
  joined : (head :: (l ++ [head])).IsChain (Joined ln)
  nodup : (head :: l).Nodup

section SetLinks

variable [DecidableEq E]

def Links.setNext (ln : Links E) (e : E) (v : Option E) : Links E := { ln with next := Function.update ln.next e v }

def Links.setPrev (ln : Links E) (e : E) (v : Option E) : Links E := { ln with prev := Function.update ln.prev e v }

end SetLinks

variable {ln ln' : Links E} {head p n e : E} {l l' pre mid mid' rest front back : List E}

/-- The links out of the last cell and into the first do not matter. -/
lemma isChain_joined_congr {w : List E} (h : w.IsChain (Joined ln)) (hnext : ∀ a ∈ w.dropLast, ln'.next a = ln.next a)
    (hprev : ∀ b ∈ w.tail, ln'.prev b = ln.prev b) : w.IsChain (Joined ln') := by
  induction w with
  | nil => exact .nil
  | cons a w ih =>
    cases w with
    | nil => exact .singleton a
    | cons b w =>
      obtain ⟨hab, hrest⟩ := List.isChain_cons_cons.mp h
      have hnext' : ∀ c ∈ (b :: w).dropLast, ln'.next c = ln.next c := fun c hc => hnext c (List.mem_cons_of_mem a hc)
      have hprev' : ∀ c ∈ (b :: w).tail, ln'.prev c = ln.prev c := fun c hc => hprev c (List.mem_cons_of_mem b hc)
      refine List.isChain_cons_cons.mpr ⟨⟨?_, ?_⟩, ih hrest hnext' hprev'⟩
      · rw [hnext a List.mem_cons_self, hab.1]
      · rw [hprev b List.mem_cons_self, hab.2]

lemma Circular.congr (h : Circular ln head l) (hnext : ∀ a ∈ head :: l, ln'.next a = ln.next a)
    (hprev : ∀ a ∈ head :: l, ln'.prev a = ln.prev a) : Circular ln' head l := by
  refine ⟨isChain_joined_congr h.joined (fun a ha => hnext a ?_) fun a ha => hprev a ?_, h.nodup⟩
  · rwa [← List.cons_append, List.dropLast_concat] at ha
  · rw [List.tail_cons, List.mem_append, List.mem_singleton] at ha
    exact List.mem_cons.mpr ha.symm

lemma Circular.nil_iff : Circular ln head [] ↔ ln.next head = some head ∧ ln.prev head = some head := by
  constructor
  · intro h
    exact (List.isChain_cons_cons.mp h.joined).1
  · intro h
    exact ⟨List.isChain_cons_cons.mpr ⟨h, .singleton head⟩, List.nodup_cons.mpr ⟨List.not_mem_nil, List.nodup_nil⟩⟩

/-- Links that differ at some cells only. -/
def Links.SameOff (ln ln' : Links E) (cells : List E) : Prop :=
  ∀ a ∉ cells, ln'.next a = ln.next a ∧ ln'.prev a = ln.prev a

lemma Circular.off {cells : List E} (h : Circular ln head l) (hoff : ln.SameOff ln' cells)
    (hcells : ∀ a ∈ head :: l, a ∉ cells) : Circular ln' head l :=
  h.congr (fun a ha => (hoff a (hcells a ha)).1) fun a ha => (hoff a (hcells a ha)).2

/-- Two neighbours. -/
lemma Circular.joined_at (h : Circular ln head l) (hw : head :: (l ++ [head]) = pre ++ p :: n :: rest) :
    Joined ln p n :=
  (List.isChain_append_cons_cons.mp (hw ▸ h.joined)).2.1

/-- The stretch between two cells is exchanged. -/
lemma Circular.splice (h : Circular ln head l) (hw : head :: (l ++ [head]) = pre ++ p :: (mid ++ n :: rest))
    (hw' : head :: (l' ++ [head]) = pre ++ p :: (mid' ++ n :: rest)) (hnodup : (head :: l').Nodup)
    (hmid : (p :: (mid' ++ [n])).IsChain (Joined ln'))
    (hnext : ∀ a ∈ head :: l, a ≠ p → a ∉ mid → ln'.next a = ln.next a)
    (hprev : ∀ a ∈ head :: l, a ≠ n → a ∉ mid → ln'.prev a = ln.prev a) : Circular ln' head l' := by
  have hjoined := h.joined
  have hmem : ∀ a ∈ pre ++ p :: (mid ++ n :: rest), a ∈ head :: l := by
    intro a ha
    rw [← hw] at ha
    rcases List.mem_cons.mp ha with rfl | ha
    · exact List.mem_cons_self
    · rcases List.mem_append.mp ha with ha | ha
      · exact List.mem_cons_of_mem _ ha
      · exact List.mem_singleton.mp ha ▸ List.mem_cons_self
  -- the head stands at both ends, so the cells differ without either
  have hfront : (pre ++ p :: (mid ++ (n :: rest).dropLast)).Nodup := by
    have hdrop := congrArg List.dropLast hw
    rw [← List.cons_append, List.dropLast_concat, List.dropLast_append_of_ne_nil (List.cons_ne_nil _ _),
      ← List.cons_append, List.dropLast_append_of_ne_nil (List.cons_ne_nil _ _)] at hdrop
    exact hdrop ▸ h.nodup
  have hback : (pre ++ p :: (mid ++ n :: rest)).tail.Nodup := by
    rw [← hw, List.tail_cons]
    exact List.perm_append_comm.nodup h.nodup
  rw [hw] at hjoined
  obtain ⟨hpre, hrest⟩ := List.isChain_split.mp hjoined
  have hrest : (n :: rest).IsChain (Joined ln) := by
    rw [← List.cons_append] at hrest
    exact hrest.right_of_append
  have hpre' : (pre ++ [p]).IsChain (Joined ln') := by
    refine isChain_joined_congr hpre (fun a ha => ?_) fun a ha => ?_
    · rw [List.dropLast_concat] at ha
      have hne := List.disjoint_of_nodup_append hfront ha
      refine hnext a (hmem a (List.mem_append_left _ ha)) ?_ ?_
      · rintro rfl
        exact hne List.mem_cons_self
      · exact fun hmid => hne (List.mem_cons_of_mem _ (List.mem_append_left _ hmid))
    · have hsplit : (pre ++ p :: (mid ++ n :: rest)).tail = (pre ++ [p]).tail ++ (mid ++ n :: rest) := by
        cases pre with
        | nil => rfl
        | cons b pre => exact List.append_cons pre p _
      rw [hsplit] at hback
      have hne := List.disjoint_of_nodup_append hback ha
      refine hprev a (hmem a ?_) ?_ ?_
      · rw [List.append_cons]
        exact List.mem_append_left _ (List.mem_of_mem_tail ha)
      · rintro rfl
        exact hne (List.mem_append_right _ List.mem_cons_self)
      · exact fun hmid => hne (List.mem_append_left _ hmid)
  have hrest' : (n :: rest).IsChain (Joined ln') := by
    have hafter : ∀ a ∈ n :: rest, a ∈ head :: l := fun a ha =>
      hmem a (List.mem_append_right _ (List.mem_cons_of_mem _ (List.mem_append_right _ ha)))
    refine isChain_joined_congr hrest (fun a ha => ?_) fun a ha => ?_
    · have hne := (List.nodup_cons.mp (List.nodup_append.mp hfront).2.1)
      refine hnext a (hafter a (List.mem_of_mem_dropLast ha)) ?_ ?_
      · rintro rfl
        exact hne.1 (List.mem_append_right _ ha)
      · exact fun hmid => List.disjoint_of_nodup_append hne.2 hmid ha
    · have hsuffix : (mid ++ n :: rest).Nodup := by
        refine hback.sublist ?_
        cases pre with
        | nil => exact List.Sublist.refl _
        | cons b pre => exact (List.sublist_cons_self _ _).trans (List.sublist_append_right _ _)
      refine hprev a (hafter a (List.mem_cons_of_mem _ ha)) ?_ ?_
      · rintro rfl
        exact (List.nodup_cons.mp (List.nodup_append.mp hsuffix).2.1).1 ha
      · exact fun hmid => List.disjoint_of_nodup_append hsuffix hmid (List.mem_cons_of_mem _ ha)
  refine ⟨?_, hnodup⟩
  rw [hw']
  refine List.isChain_split.mpr ⟨hpre', ?_⟩
  rw [← List.cons_append]
  exact List.isChain_split.mpr ⟨hmid, hrest'⟩

/-- What stands after a cell is another, or the head. -/
lemma exists_after (head : E) (back : List E) : ∃ n rest, back ++ [head] = n :: rest := by
  cases back with
  | nil => exact ⟨head, [], rfl⟩
  | cons n back => exact ⟨n, back ++ [head], rfl⟩

/-- A cell is joined to one behind it. -/
lemma Circular.exists_next (h : Circular ln head l) (hl : head :: l = front ++ p :: back) :
    ∃ n rest, n ∈ head :: l ∧ Joined ln p n ∧ head :: (l ++ [head]) = front ++ p :: n :: rest := by
  obtain ⟨n, rest, hafter⟩ := exists_after head back
  have hw : head :: (l ++ [head]) = front ++ p :: n :: rest := by
    rw [← List.cons_append, hl, List.append_assoc, List.cons_append, hafter]
  have hn : n ∈ head :: l := by
    have : n ∈ back ++ [head] := hafter ▸ List.mem_cons_self
    rcases List.mem_append.mp this with hback | hhead
    · exact hl ▸ List.mem_append_right _ (List.mem_cons_of_mem _ hback)
    · exact List.mem_singleton.mp hhead ▸ List.mem_cons_self
  exact ⟨n, rest, hn, h.joined_at hw, hw⟩

/-- The ring seen from its second cell. -/
lemma Circular.rotate_iff {b : E} : Circular ln head (b :: l) ↔ Circular ln b (l ++ [head]) := by
  have hperm : (head :: b :: l).Perm (b :: (l ++ [head])) :=
    (List.Perm.swap b head l).trans ((List.perm_append_singleton head l).symm.cons b)
  have hchain : (head :: (b :: l ++ [head])).IsChain (Joined ln) ↔ (b :: (l ++ [head] ++ [b])).IsChain (Joined ln) := by
    have hright : b :: (l ++ [head] ++ [b]) = (b :: l) ++ head :: [b] := by
      rw [List.append_assoc]
      rfl
    rw [hright, List.isChain_append_cons_cons, List.cons_append, List.isChain_cons_cons, ← List.cons_append]
    constructor
    · intro h
      exact ⟨h.2, h.1, .singleton b⟩
    · intro h
      exact ⟨h.2.1, h.1⟩
  constructor
  · intro h
    exact ⟨hchain.mp h.joined, hperm.nodup_iff.mp h.nodup⟩
  · intro h
    exact ⟨hchain.mpr h.joined, hperm.nodup_iff.mpr h.nodup⟩

/-- The ring seen from any of its cells. -/
lemma Circular.rotate (h : Circular ln head (front ++ p :: back)) : Circular ln p (back ++ head :: front) := by
  induction front generalizing head back with
  | nil => exact rotate_iff.mp h
  | cons b front ih =>
    have hb : Circular ln b ((front ++ p :: back) ++ [head]) := rotate_iff.mp h
    rw [List.append_assoc, List.cons_append] at hb
    have := ih hb
    rwa [List.append_assoc] at this

/-- A new cell is linked in between two neighbours. -/
lemma Circular.insert (h : Circular ln head l) (hw : head :: (l ++ [head]) = pre ++ p :: n :: rest)
    (hw' : head :: (l' ++ [head]) = pre ++ p :: e :: n :: rest) (hnodup : (head :: l').Nodup) (hpe : Joined ln' p e)
    (hen : Joined ln' e n) (hnext : ∀ a ∈ head :: l, a ≠ p → ln'.next a = ln.next a)
    (hprev : ∀ a ∈ head :: l, a ≠ n → ln'.prev a = ln.prev a) : Circular ln' head l' := by
  have hbefore : head :: (l ++ [head]) = pre ++ p :: ([] ++ n :: rest) := hw
  have hbetween : head :: (l' ++ [head]) = pre ++ p :: ([e] ++ n :: rest) := hw'
  refine h.splice hbefore hbetween hnodup ?_ (fun a ha hap _ => hnext a ha hap) fun a ha han _ => ?_
  · exact List.isChain_cons_cons.mpr ⟨hpe, List.isChain_cons_cons.mpr ⟨hen, .singleton n⟩⟩
  · exact hprev a ha han

/-- The neighbours of a cell other than the head, and the ring without it once they are joined. -/
lemma Circular.erase (h : Circular ln head (front ++ e :: back)) :
    ∃ p n, (head :: front).getLast? = some p ∧ (back ++ [head]).head? = some n ∧ p ≠ e ∧ n ≠ e ∧
      Joined ln p e ∧ Joined ln e n ∧ ∀ ln', Joined ln' p n →
        (∀ a ∈ head :: (front ++ e :: back), a ≠ p → a ≠ e → ln'.next a = ln.next a) →
        (∀ a ∈ head :: (front ++ e :: back), a ≠ n → a ≠ e → ln'.prev a = ln.prev a) →
        Circular ln' head (front ++ back) := by
  obtain ⟨n, rest, hafter⟩ := exists_after head back
  obtain ⟨pre, p, hbefore⟩ : ∃ pre p, head :: front = pre ++ [p] :=
    ⟨_, _, (List.dropLast_concat_getLast (List.cons_ne_nil head front)).symm⟩
  have hw : head :: ((front ++ e :: back) ++ [head]) = pre ++ p :: ([e] ++ n :: rest) := by
    rw [List.append_assoc, ← List.cons_append, hbefore, List.cons_append, hafter, List.append_assoc]
    rfl
  have hw₁ : head :: ((front ++ e :: back) ++ [head]) = (pre ++ [p]) ++ e :: n :: rest := by
    rw [hw, List.append_assoc]
    rfl
  have hw' : head :: ((front ++ back) ++ [head]) = pre ++ p :: ([] ++ n :: rest) := by
    rw [List.append_assoc, ← List.cons_append, hbefore, hafter, List.append_assoc]
    rfl
  have hnodup := h.nodup
  rw [← List.cons_append] at hnodup
  have hp : p ∈ head :: front := hbefore ▸ List.mem_append_right _ List.mem_cons_self
  have hn : n = head ∨ n ∈ back := by
    have : n ∈ back ++ [head] := hafter ▸ List.mem_cons_self
    exact (List.mem_append.mp this).symm.imp_left List.mem_singleton.mp
  have hdisj := List.disjoint_of_nodup_append hnodup
  have hpe : p ≠ e := fun heq => hdisj hp (heq ▸ List.mem_cons_self)
  have hne : n ≠ e := by
    rintro rfl
    rcases hn with rfl | hn
    · exact hdisj List.mem_cons_self List.mem_cons_self
    · exact (List.nodup_cons.mp (List.nodup_append.mp hnodup).2.1).1 hn
  refine ⟨p, n, ?_, ?_, hpe, hne, h.joined_at hw, h.joined_at hw₁, fun ln' hjoined hnext hprev => ?_⟩
  · rw [hbefore, List.getLast?_concat]
  · rw [hafter, List.head?_cons]
  refine h.splice hw hw' ?_ ?_ (fun a ha hap hae => ?_) fun a ha han hae => ?_
  · rw [← List.cons_append]
    exact hnodup.sublist ((List.sublist_cons_self e back).append_left _)
  · exact List.isChain_cons_cons.mpr ⟨hjoined, .singleton n⟩
  · exact hnext a ha hap fun heq => hae (List.mem_singleton.mpr heq)
  · exact hprev a ha han fun heq => hae (List.mem_singleton.mpr heq)

end GaussKernel.Lib
