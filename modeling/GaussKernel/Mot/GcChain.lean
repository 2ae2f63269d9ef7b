import GaussKernel.Mot.LimboGroup

/-!
# The groups of the garbage queue

The invariant of a garbage queue has the groups before the tail (`used`), those behind it (`spare`), which are empty, and
those that are in neither place while a call runs (`loose`): groups just allocated or just emptied. The lemmas of this
module move a group from one place to another, or change the objects of one group.
-/

namespace GaussKernel.Mot

open Lib

namespace GcQueue

variable {q q' : GcQueue} {a b : Nat} {n : Option Nat} {loose used spare : List Nat}

def reserved (q : GcQueue) : List Nat := q.m_reservedManager.m_limboReservedMemory

/-! ## Links -/

lemma setGroup_self (g : LimboGroup) : (q.setGroup a g).groups a = g := by
  simp only [setGroup, Function.update_self]

lemma setGroup_ne (g : LimboGroup) (h : b ≠ a) : (q.setGroup a g).groups b = q.groups b := by
  simp only [setGroup, Function.update_of_ne h]

lemma next_setGroup {g : LimboGroup} (hg : g.m_next = q.next a) : (q.setGroup a g).next = q.next := by
  funext b
  by_cases h : b = a
  · rw [h, next, setGroup_self]
    exact hg
  · rw [next, setGroup_ne g h]
    rfl

/-- `setNext` leaves the contents of the groups. -/
lemma setNext_groups (q : GcQueue) (a b : Nat) (n : Option Nat) :
    ∃ m, (q.setNext a n).groups b = { q.groups b with m_next := m } := by
  by_cases h : b = a
  · exact ⟨n, by rw [h, setNext, setGroup_self]⟩
  · exact ⟨(q.groups b).m_next, by rw [setNext, setGroup_ne _ h]⟩

lemma next_setNext_ne (h : b ≠ a) : (q.setNext a n).next b = q.next b := by
  rw [next, setNext, setGroup_ne _ h]
  rfl

lemma next_setNext_self : (q.setNext a n).next a = n := by
  rw [next, setNext, setGroup_self]

lemma setNext_elements : ((q.setNext a n).groups b).m_elements = (q.groups b).m_elements := by
  obtain ⟨m, hm⟩ := q.setNext_groups a b n
  rw [hm]

lemma setNext_ok (h : (q.groups b).Ok) : ((q.setNext a n).groups b).Ok := by
  obtain ⟨m, hm⟩ := q.setNext_groups a b n
  rw [hm]
  exact ⟨h.marked, h.empty, h.bound⟩

lemma setNext_empty (h : (q.groups b).Empty) : ((q.setNext a n).groups b).Empty := by
  obtain ⟨m, hm⟩ := q.setNext_groups a b n
  rw [hm]
  exact h

/-! ## The invariant -/

/-- All groups of the queue. -/
def held (q : GcQueue) (loose used spare : List Nat) : List Nat :=
  loose ++ (used ++ q.m_limboTail :: spare) ++ q.reserved

structure Inv (q : GcQueue) (loose used spare : List Nat) : Prop where
  linked : Linked q.next (some q.m_limboHead) (used ++ q.m_limboTail :: spare) none
  nodup : (q.held loose used spare).Nodup
  live : ∀ a ∈ q.held loose used spare, a ∈ q.live
  ok : ∀ a ∈ used ++ [q.m_limboTail], (q.groups a).Ok
  empty : ∀ a ∈ loose ++ spare ++ q.reserved, (q.groups a).Empty
  reservedNext : ∀ a ∈ q.reserved, q.next a = none
  objects : ((used ++ [q.m_limboTail]).flatMap fun a => pending (q.groups a).m_elements) = q.outstanding
  once : q.called.Nodup
  known : ∀ i ∈ q.called, i < q.pushed.length

section

variable (h : q.Inv loose used spare)
include h

/-- Groups may go from one place to another. -/
lemma Inv.rearrange {loose' used' spare' : List Nat} (hr : q'.reserved = q.reserved)
    (hp : ∀ a, (loose ++ (used ++ q.m_limboTail :: spare)).count a =
      (loose' ++ (used' ++ q'.m_limboTail :: spare')).count a) :
    (q'.held loose' used' spare').Nodup ∧ ∀ a ∈ q'.held loose' used' spare', a ∈ q.live := by
  have hperm : (q.held loose used spare).Perm (q'.held loose' used' spare') := by
    rw [held, held, hr]
    exact (List.perm_iff_count.mpr hp).append_right _
  exact ⟨hperm.nodup_iff.mp h.nodup, fun a ha => h.live a (hperm.mem_iff.mpr ha)⟩

/-- The counters and the delete vector have no part in the invariant. -/
lemma Inv.withStats (stats : GcStats) (deleted : List UInt32) :
    ({ q with m_stats := stats, m_deleteVector := deleted } : GcQueue).Inv loose used spare :=
  ⟨h.linked, h.nodup, h.live, h.ok, h.empty, h.reservedNext, h.objects, h.once, h.known⟩

lemma Inv.chain_subset (ha : a ∈ used ++ q.m_limboTail :: spare) : a ∈ q.live :=
  h.live a (List.mem_append_left _ (List.mem_append_right _ ha))

lemma Inv.chain_nodup : (used ++ q.m_limboTail :: spare).Nodup :=
  (List.nodup_append.mp (List.nodup_append.mp h.nodup).1).2.1

lemma Inv.chain_eq : q.chain (some q.m_limboHead) = some (used ++ q.m_limboTail :: spare) :=
  h.linked.follow_eq ((List.Nodup.subperm h.chain_nodup fun _ ha => h.chain_subset ha).length_le)

lemma Inv.tail_linked : Linked q.next (q.next q.m_limboTail) spare none := by
  obtain ⟨m, -, -, hs⟩ := linked_append.mp h.linked
  exact hs

lemma Inv.spare_eq : q.chain (q.next q.m_limboTail) = some spare := by
  refine h.tail_linked.follow_eq (List.Subperm.length_le (List.Nodup.subperm ?_ fun a ha => h.chain_subset ?_))
  · exact (List.nodup_append.mp h.chain_nodup).2.1.tail
  · exact List.mem_append_right _ (List.mem_cons_of_mem _ ha)

lemma Inv.loose_disjoint (ha : a ∈ loose) : a ∉ used ++ q.m_limboTail :: spare :=
  fun ha' => (List.nodup_append.mp (List.nodup_append.mp h.nodup).1).2.2 a ha a ha' rfl

lemma Inv.reserved_disjoint (ha : a ∈ q.reserved) : a ∉ loose ++ (used ++ q.m_limboTail :: spare) :=
  fun ha' => (List.nodup_append.mp h.nodup).2.2 a ha' a ha rfl

/-- A change of groups outside the chain. -/
lemma Inv.of_chain {loose' : List Nat} (hhead : q'.m_limboHead = q.m_limboHead) (htail : q'.m_limboTail = q.m_limboTail)
    (hpushed : q'.pushed = q.pushed) (hcalled : q'.called = q.called)
    (hchain : ∀ a ∈ used ++ q.m_limboTail :: spare, q'.groups a = q.groups a)
    (hnodup : (q'.held loose' used spare).Nodup) (hlive : ∀ a ∈ q'.held loose' used spare, a ∈ q'.live)
    (hempty : ∀ a ∈ loose' ++ q'.reserved, (q'.groups a).Empty) (hnext : ∀ a ∈ q'.reserved, q'.next a = none) :
    q'.Inv loose' used spare where
  linked := by
    rw [hhead, htail]
    exact h.linked.congr fun a ha => congrArg LimboGroup.m_next (hchain a ha)
  nodup := hnodup
  live := hlive
  ok a ha := by
    rw [htail] at ha
    rw [hchain a (by simp only [List.mem_append, List.mem_cons, List.not_mem_nil] at ha ⊢; tauto)]
    exact h.ok a ha
  empty a ha := by
    rcases List.mem_append.mp ha with ha | ha
    · rcases List.mem_append.mp ha with ha | ha
      · exact hempty a (List.mem_append_left _ ha)
      · rw [hchain a (List.mem_append_right _ (List.mem_cons_of_mem _ ha))]
        exact h.empty a (List.mem_append_left _ (List.mem_append_right _ ha))
    · exact hempty a (List.mem_append_right _ ha)
  reservedNext := hnext
  objects := by
    have hout : q'.outstanding = q.outstanding := by rw [outstanding, outstanding, hpushed, hcalled]
    rw [hout, htail]
    refine Eq.trans (List.flatMap_congr fun a ha => ?_) h.objects
    exact congrArg (fun g => pending g.m_elements)
      (hchain a (by simp only [List.mem_append, List.mem_cons, List.not_mem_nil] at ha ⊢; tauto))
  once := by
    rw [hcalled]
    exact h.once
  known := by
    rw [hcalled, hpushed]
    exact h.known

lemma Inv.loose_empty (ha : a ∈ loose) : (q.groups a).Empty :=
  h.empty a (List.mem_append_left _ (List.mem_append_left _ ha))

lemma Inv.reserved_empty (ha : a ∈ q.reserved) : (q.groups a).Empty :=
  h.empty a (List.mem_append_right _ ha)

lemma Inv.front_disjoint (ha : a ∈ used ++ [q.m_limboTail]) : a ∉ loose ++ spare ++ q.reserved := by
  have hperm : (q.held loose used spare).Perm ((used ++ [q.m_limboTail]) ++ (loose ++ spare ++ q.reserved)) := by
    rw [held, List.perm_iff_count]
    intro b
    simp only [List.count_append, List.count_cons, List.count_nil]
    omega
  exact fun ha' => (List.nodup_append.mp (hperm.nodup_iff.mp h.nodup)).2.2 a ha a ha' rfl

/-- Links of a group outside the chain may be set. -/
lemma Inv.setNext_loose (ha : a ∈ loose) : (q.setNext a n).Inv loose used spare := by
  refine h.of_chain rfl rfl rfl rfl (fun b hb => setGroup_ne _ ?_) h.nodup h.live (fun b hb => setNext_empty ?_)
    fun b hb => (next_setNext_ne ?_).trans (h.reservedNext b hb)
  · rintro rfl
    exact h.loose_disjoint ha hb
  · exact (List.mem_append.mp hb).elim h.loose_empty h.reserved_empty
  · rintro rfl
    exact h.reserved_disjoint hb (List.mem_append_left _ ha)

/-- A new link of the tail, when the groups stay the same ones. -/
lemma Inv.relinkTail {n : Option Nat} {loose' spare' : List Nat}
    (hlinked : Linked (q.setNext q.m_limboTail n).next (some q.m_limboHead) (used ++ q.m_limboTail :: spare') none)
    (hperm : (loose ++ spare).Perm (loose' ++ spare')) : (q.setNext q.m_limboTail n).Inv loose' used spare' := by
  have hheld : ((q.setNext q.m_limboTail n).held loose' used spare').Nodup ∧
      ∀ b ∈ (q.setNext q.m_limboTail n).held loose' used spare', b ∈ q.live := h.rearrange rfl fun b => by
    have hcount := hperm.count_eq b
    show _ = (loose' ++ (used ++ q.m_limboTail :: spare')).count b
    simp only [List.count_append, List.count_cons] at hcount ⊢
    omega
  refine ⟨hlinked, hheld.1, hheld.2, fun b hb => setNext_ok (h.ok b hb), fun b hb => setNext_empty (h.empty b ?_),
    fun b hb => ?_, ?_, h.once, h.known⟩
  · exact List.mem_append.mpr ((List.mem_append.mp hb).imp_left hperm.mem_iff.mpr)
  · refine (next_setNext_ne ?_).trans (h.reservedNext b hb)
    rintro rfl
    exact h.reserved_disjoint hb (List.mem_append_right _ (List.mem_append_right _ List.mem_cons_self))
  · refine Eq.trans ?_ h.objects
    simp only [setNext_elements]
    rfl

/-- Loose groups go behind the tail. -/
lemma Inv.hook (hl : Linked q.next (some a) loose (q.next q.m_limboTail)) :
    (q.setNext q.m_limboTail (some a)).Inv [] used (loose ++ spare) := by
  refine h.relinkTail ?_ (List.Perm.refl _)
  obtain ⟨m, hu, hm, hs⟩ := linked_append.mp h.linked
  have htail : q.m_limboTail ∉ used ∧ q.m_limboTail ∉ spare ∧ q.m_limboTail ∉ loose := by
    have hn := h.chain_nodup
    rw [List.nodup_append] at hn
    refine ⟨fun ht => hn.2.2 _ ht _ List.mem_cons_self rfl, (List.nodup_cons.mp hn.2.1).1, fun ht => ?_⟩
    exact h.loose_disjoint ht (List.mem_append_right _ List.mem_cons_self)
  have hne : ∀ {b : Nat} {l : List Nat}, q.m_limboTail ∉ l → b ∈ l →
      (q.setNext q.m_limboTail (some a)).next b = q.next b := fun hnot hb =>
    next_setNext_ne fun he => hnot (he ▸ hb)
  refine Linked.append (hu.congr fun b hb => hne htail.1 hb) ⟨hm, ?_⟩
  show Linked _ ((q.setNext q.m_limboTail (some a)).next q.m_limboTail) _ none
  rw [next_setNext_self]
  exact (hl.congr fun b hb => hne htail.2.2 hb).append (hs.congr fun b hb => hne htail.2.1 hb)

/-- The groups behind the tail come loose. -/
lemma Inv.unhook : (q.setNext q.m_limboTail none).Inv (loose ++ spare) used [] := by
  refine h.relinkTail ?_ (List.Perm.of_eq (List.append_nil _).symm)
  obtain ⟨m, hu, hm, -⟩ := linked_append.mp h.linked
  have htail : q.m_limboTail ∉ used := fun ht =>
    (List.nodup_append.mp h.chain_nodup).2.2 _ ht _ List.mem_cons_self rfl
  refine Linked.append (hu.congr fun b hb => next_setNext_ne fun he => htail (he ▸ hb)) ⟨hm, ?_⟩
  exact next_setNext_self

/-- Loose groups may be given back. -/
lemma Inv.release {live : List Nat} (hl : ∀ a, a ∉ loose → a ∈ q.live → a ∈ live) :
    ({ q with live := live } : GcQueue).Inv [] used spare := by
  have hn := h.nodup
  rw [held, List.append_assoc, List.nodup_append] at hn
  refine h.of_chain rfl rfl rfl rfl (fun _ _ => rfl) hn.2.1 (fun a ha => ?_) (fun a ha => h.reserved_empty ha)
    h.reservedNext
  refine hl a (fun hloose => hn.2.2 a hloose a ha rfl) (h.live a ?_)
  rw [held, List.append_assoc]
  exact List.mem_append_right _ ha

/-- A group that the queue did not have, emptied. -/
lemma Inv.addLoose (ha : a ∉ q.live) {g : LimboGroup} (hg : g.Empty) :
    ({ q.setGroup a g with live := a :: q.live } : GcQueue).Inv (a :: loose) used spare := by
  have hgroup : ∀ b ∈ q.live, (q.setGroup a g).groups b = q.groups b := fun b hb =>
    setGroup_ne g fun he => ha (he ▸ hb)
  have hreserved : ∀ b ∈ q.reserved, b ∈ q.live := fun b hb => h.live b (List.mem_append_right _ hb)
  refine h.of_chain rfl rfl rfl rfl (fun b hb => hgroup b (h.chain_subset hb))
    (List.nodup_cons.mpr ⟨fun hmem => ha (h.live a hmem), h.nodup⟩)
    (List.forall_mem_cons.mpr ⟨List.mem_cons_self, fun b hb => List.mem_cons_of_mem _ (h.live b hb)⟩)
    (List.forall_mem_cons.mpr ⟨?_, fun b hb => ?_⟩) fun b hb => ?_
  · show ((q.setGroup a g).groups a).Empty
    rwa [setGroup_self]
  · show ((q.setGroup a g).groups b).Empty
    rcases List.mem_append.mp hb with hb | hb
    · rw [hgroup b (h.live b (List.mem_append_left _ (List.mem_append_left _ hb)))]
      exact h.loose_empty hb
    · rw [hgroup b (hreserved b hb)]
      exact h.reserved_empty hb
  · exact (congrArg LimboGroup.m_next (hgroup b (hreserved b hb))).trans (h.reservedNext b hb)

/-- The first reserved group. -/
lemma Inv.takeReserved {e : Nat} {rest : List Nat} (hr : q.reserved = e :: rest) {pool : GcReservedMemoryPool}
    (hp : pool.m_limboReservedMemory = rest) :
    ({ q with m_reservedManager := pool } : GcQueue).Inv (e :: loose) used spare := by
  have hperm : (q.held loose used spare).Perm
      (({ q with m_reservedManager := pool } : GcQueue).held (e :: loose) used spare) := by
    rw [held, held, hr, reserved, hp, List.perm_iff_count]
    intro b
    simp only [List.count_append, List.count_cons]
    omega
  have hmem : ∀ b ∈ rest, b ∈ q.reserved := fun b hb => hr ▸ List.mem_cons_of_mem e hb
  have hrest : ({ q with m_reservedManager := pool } : GcQueue).reserved = rest := hp
  refine h.of_chain rfl rfl rfl rfl (fun _ _ => rfl) (hperm.nodup_iff.mp h.nodup)
    (fun b hb => h.live b (hperm.mem_iff.mpr hb)) (fun b hb => ?_) fun b hb => h.reservedNext b (hmem b (hrest ▸ hb))
  rw [hrest] at hb
  rcases List.mem_append.mp hb with hb | hb
  · rcases List.mem_cons.mp hb with rfl | hb
    · exact h.reserved_empty (hr ▸ List.mem_cons_self)
    · exact h.loose_empty hb
  · exact h.reserved_empty (hmem b hb)

/-- Loose groups are reserved. -/
lemma Inv.reserve (count : Nat) : (q.reserveGroups loose count).Inv [] used spare := by
  have hreserved : (q.reserveGroups loose count).reserved = q.reserved ++ loose := rfl
  have hperm : (q.held loose used spare).Perm ((q.reserveGroups loose count).held [] used spare) := by
    rw [held, held, hreserved, List.perm_iff_count]
    intro b
    simp only [List.count_append, List.count_nil, reserveGroups]
    omega
  have hin : ∀ b ∈ loose, (q.reserveGroups loose count).groups b = (q.groups b).reset := fun b hb => if_pos hb
  have hout : ∀ b, b ∉ loose → (q.reserveGroups loose count).groups b = q.groups b := fun b hb => if_neg hb
  have hold : ∀ b ∈ q.reserved, b ∉ loose := fun b hb hloose =>
    h.reserved_disjoint hb (List.mem_append_left _ hloose)
  refine h.of_chain rfl rfl rfl rfl (fun b hb => hout b fun hloose => h.loose_disjoint hloose hb)
    (hperm.nodup_iff.mp h.nodup) (fun b hb => h.live b (hperm.mem_iff.mpr hb)) (fun b hb => ?_) fun b hb => ?_
  · rw [List.nil_append, hreserved] at hb
    rcases List.mem_append.mp hb with hb | hb
    · rw [hout b (hold b hb)]
      exact h.reserved_empty hb
    · rw [hin b hb]
      exact ⟨rfl, rfl⟩
  · rcases List.mem_append.mp hb with hb | hb
    · exact (congrArg LimboGroup.m_next (hout b (hold b hb))).trans (h.reservedNext b hb)
    · exact congrArg LimboGroup.m_next (hin b hb)

end

/-- The tail moves to the group behind it. -/
lemma Inv.advanceTail (h : q.Inv loose used (b :: spare)) :
    ({ q with m_limboTail := b } : GcQueue).Inv loose (used ++ [q.m_limboTail]) spare := by
  have hchain : used ++ [q.m_limboTail] ++ b :: spare = used ++ q.m_limboTail :: b :: spare := by
    rw [List.append_assoc]
    rfl
  have hb : (q.groups b).Empty :=
    h.empty b (List.mem_append_left _ (List.mem_append_right _ List.mem_cons_self))
  have hplace : (({ q with m_limboTail := b } : GcQueue).held loose (used ++ [q.m_limboTail]) spare) =
      q.held loose used (b :: spare) := by
    rw [held, held, hchain]
    rfl
  refine ⟨?_, ?_, ?_, ?_, fun a ha => h.empty a ?_, h.reservedNext, ?_, h.once, h.known⟩
  · rw [hchain]
    exact h.linked
  · rw [hplace]
    exact h.nodup
  · rw [hplace]
    exact h.live
  · intro a ha
    rcases List.mem_append.mp ha with ha | ha
    · exact h.ok a ha
    · rw [List.mem_singleton.mp ha]
      exact hb.ok
  · simp only [List.mem_append, List.mem_cons] at ha ⊢
    tauto
  · rw [List.flatMap_append, h.objects, List.flatMap_singleton, hb.1]
    exact List.append_nil _

/-- The head, when it is empty, moves to the group behind it. -/
lemma Inv.advanceHead (h : q.Inv loose (a :: used) spare) (ha : (q.groups a).Empty) :
    ∃ b, q.next a = some b ∧ ({ q with m_limboHead := b } : GcQueue).Inv (loose ++ [a]) used spare := by
  have hrest := h.linked.2
  have hstart := hrest.start
  have hsome : ∃ b, q.next a = some b := by
    cases used with
    | nil => exact ⟨_, hstart⟩
    | cons c used => exact ⟨c, hstart⟩
  obtain ⟨b, hb⟩ := hsome
  have hplace : ({ q with m_limboHead := b } : GcQueue).held (loose ++ [a]) used spare =
    q.held loose (a :: used) spare := by
    simp only [held, List.append_assoc, List.cons_append, List.nil_append]
    rfl
  refine ⟨b, hb, ?_, ?_, ?_, fun c hc => h.ok c (List.mem_cons_of_mem _ hc), fun c hc => ?_, h.reservedNext, ?_, h.once,
    h.known⟩
  · show Linked q.next (some b) _ none
    rw [← hb]
    exact hrest
  · rw [hplace]
    exact h.nodup
  · rw [hplace]
    exact h.live
  · rw [List.append_assoc] at hc
    rcases List.mem_append.mp hc with hc | hc
    · rcases List.mem_append.mp hc with hc | hc
      · exact h.loose_empty hc
      · rw [List.mem_singleton.mp hc]
        exact ha
    · exact h.empty c (by simp only [List.mem_append] at hc ⊢; tauto)
  · have hobjects := h.objects
    rw [List.cons_append, List.flatMap_cons, ha.1] at hobjects
    exact hobjects

/-- When all groups are empty the queue starts again with the first one. -/
lemma Inv.restart (h : q.Inv loose [] spare) (ht : (q.groups q.m_limboTail).Empty) {rest : List Nat}
    (hl : loose ++ [q.m_limboTail] = b :: rest) (hlinked : Linked q.next (some b) loose (some q.m_limboHead)) :
    ({ q with m_limboHead := b, m_limboTail := b } : GcQueue).Inv [] [] (rest ++ spare) := by
  have hchain : loose ++ q.m_limboTail :: spare = b :: (rest ++ spare) := by
    rw [← List.cons_append, ← hl, List.append_assoc]
    rfl
  have hempty : ∀ a ∈ b :: rest, (q.groups a).Empty := fun a ha => by
    rw [← hl] at ha
    rcases List.mem_append.mp ha with ha | ha
    · exact h.loose_empty ha
    · rwa [List.mem_singleton.mp ha]
  have hplace : ({ q with m_limboHead := b, m_limboTail := b } : GcQueue).held [] [] (rest ++ spare) =
      q.held loose [] spare := by
    rw [held, held, List.nil_append, List.nil_append, List.nil_append, hchain]
    rfl
  have hb := hempty b List.mem_cons_self
  refine ⟨?_, ?_, ?_, ?_, fun a ha => ?_, h.reservedNext, ?_, h.once, h.known⟩
  · show Linked q.next (some b) (b :: (rest ++ spare)) none
    rw [← hchain]
    exact hlinked.append h.linked
  · rw [hplace]
    exact h.nodup
  · rw [hplace]
    exact h.live
  · exact fun a ha => List.mem_singleton.mp ha ▸ hb.ok
  · rw [List.nil_append, List.append_assoc] at ha
    rcases List.mem_append.mp ha with ha | ha
    · exact hempty a (List.mem_cons_of_mem b ha)
    · exact h.empty a (by simp only [List.mem_append] at ha ⊢; tauto)
  · have hobjects := h.objects
    rw [List.nil_append, List.flatMap_singleton, ht.1] at hobjects
    rw [List.nil_append, List.flatMap_singleton, hb.1]
    exact hobjects

/-! ## Objects -/

lemma mem_outstanding {i : Nat} {r : Recorded} : (i, r) ∈ q.outstanding ↔ q.pushed[i]? = some r ∧ i ∉ q.called := by
  simp only [outstanding, List.mem_filterMap, Prod.exists, List.mem_zipIdx_iff_getElem?]
  constructor
  · rintro ⟨r', j, hget, hsome⟩
    by_cases hj : j ∈ q.called
    · rw [if_pos hj] at hsome
      cases hsome
    · rw [if_neg hj] at hsome
      cases hsome
      exact ⟨hget, hj⟩
  · rintro ⟨hget, hi⟩
    exact ⟨r, i, hget, if_neg hi⟩

lemma outstanding_ids (q : GcQueue) :
    q.outstanding.map Prod.fst = (List.range q.pushed.length).filter fun i => i ∉ q.called := by
  rw [List.range_eq_range', ← List.zipIdx_map_snd 0 q.pushed, List.filter_map, outstanding, List.map_filterMap,
    ← List.filterMap_eq_map, ← List.filterMap_eq_filter, List.filterMap_filterMap]
  refine List.filterMap_congr fun x _ => ?_
  by_cases hx : x.2 ∈ q.called
  · simp [hx, Option.guard]
  · simp [hx, Option.guard]

lemma outstanding_nodup (q : GcQueue) : (q.outstanding.map Prod.fst).Nodup := by
  rw [outstanding_ids]
  exact List.nodup_range.filter _

lemma outstanding_push (hknown : ∀ i ∈ q.called, i < q.pushed.length) (r : Recorded) {pushed : List Recorded}
    (hp : pushed = q.pushed ++ [r]) :
    ({ q with pushed := pushed } : GcQueue).outstanding = q.outstanding ++ [(q.pushed.length, r)] := by
  have hnew : q.pushed.length ∉ q.called := fun h => (hknown _ h).false
  subst hp
  show (q.pushed ++ [r]).zipIdx.filterMap _ = _
  rw [List.zipIdx_append, List.filterMap_append]
  simp [hnew, outstanding]

lemma outstanding_called (ids : List Nat) :
    ({ q with called := q.called ++ ids } : GcQueue).outstanding = q.outstanding.filter fun x => x.1 ∉ ids := by
  rw [outstanding, outstanding, List.filter_filterMap]
  refine List.filterMap_congr fun x _ => ?_
  by_cases hx : x.2 ∈ q.called
  · simp [hx]
  · by_cases hi : x.2 ∈ ids
    · simp [hx, hi, Option.filter]
    · simp [hx, hi, Option.filter]

/-- Objects are taken out of one group only. -/
lemma flatMap_filter_at {f : Nat → List (Nat × Recorded)} {l ids : List Nat}
    (hn : ((l.flatMap f).map Prod.fst).Nodup) (ha : a ∈ l) (hids : ∀ i ∈ ids, i ∈ (f a).map Prod.fst) :
    (l.flatMap fun b => if b = a then (f a).filter fun x => x.1 ∉ ids else f b) =
      (l.flatMap f).filter fun x => x.1 ∉ ids := by
  rw [List.filter_flatMap]
  refine List.flatMap_congr fun b hb => ?_
  by_cases hba : b = a
  · rw [if_pos hba, hba]
  · rw [if_neg hba]
    refine (List.filter_eq_self.mpr fun x hx => ?_).symm
    rw [List.map_flatMap, List.nodup_flatMap] at hn
    have : Std.Symm (Function.onFun List.Disjoint fun c => (f c).map Prod.fst) := ⟨fun _ _ h => List.Disjoint.symm h⟩
    have hdisjoint := hn.2.forall hb ha hba
    exact decide_eq_true fun hi => hdisjoint (List.mem_map_of_mem hx) (hids _ hi)

/-- A change of the objects of a group of the chain. -/
lemma Inv.setChain (h : q.Inv loose used spare) {g : LimboGroup} (hg : g.Ok) (hnext : g.m_next = q.next a)
    (ha : a ∈ used ++ [q.m_limboTail]) {pushed : List Recorded} {called : List Nat}
    (hobjects : ((used ++ [q.m_limboTail]).flatMap fun b => pending ((q.setGroup a g).groups b).m_elements) =
      ({ q with pushed := pushed, called := called } : GcQueue).outstanding)
    (honce : called.Nodup) (hknown : ∀ i ∈ called, i < pushed.length) :
    ({ q.setGroup a g with pushed := pushed, called := called } : GcQueue).Inv loose used spare := by
  have hlinks : ∀ b, (q.setGroup a g).next b = q.next b := congrFun (next_setGroup hnext)
  have hother : ∀ b ∈ loose ++ spare ++ q.reserved, b ≠ a := fun b hb he => h.front_disjoint ha (he ▸ hb)
  refine ⟨h.linked.congr fun b _ => hlinks b, h.nodup, h.live, fun b hb => ?_, fun b hb => ?_, fun b hb => ?_,
    hobjects, honce, hknown⟩
  · show ((q.setGroup a g).groups b).Ok
    by_cases hba : b = a
    · rw [hba, setGroup_self]
      exact hg
    · rw [setGroup_ne g hba]
      exact h.ok b hb
  · show ((q.setGroup a g).groups b).Empty
    rw [setGroup_ne g (hother b hb)]
    exact h.empty b hb
  · exact (hlinks b).trans (h.reservedNext b hb)

lemma Inv.tail_not_mem (h : q.Inv loose used spare) : q.m_limboTail ∉ used := fun ht =>
  (List.nodup_append.mp h.chain_nodup).2.2 _ ht _ List.mem_cons_self rfl

/-- An object at the end of the tail group. -/
lemma Inv.push (h : q.Inv loose used spare) (hroom : (q.groups q.m_limboTail).m_tail + 2 ≤ LimboGroup.CAPACITY)
    (indexId : UInt32) (csn : UInt64) :
    ({ q.setGroup q.m_limboTail ((q.groups q.m_limboTail).pushBack indexId q.pushed.length csn) with
      pushed := q.pushed ++ [⟨csn, indexId⟩] } : GcQueue).Inv loose used spare := by
  have hok := h.ok q.m_limboTail (List.mem_append_right _ (List.mem_singleton_self _))
  obtain ⟨hg, hpending⟩ := hok.pushBack hroom indexId q.pushed.length csn
  refine h.setChain hg ?_ (List.mem_append_right _ (List.mem_singleton_self _)) ?_ h.once fun i hi =>
    (h.known i hi).trans (by rw [List.length_append]; exact Nat.lt_succ_self _)
  · rw [LimboGroup.pushBack]
    split <;> rfl
  · have hused : ∀ b ∈ used, pending ((q.setGroup q.m_limboTail
        ((q.groups q.m_limboTail).pushBack indexId q.pushed.length csn)).groups b).m_elements =
        pending (q.groups b).m_elements := fun b hb => by
      have hne : b ≠ q.m_limboTail := fun he => h.tail_not_mem (he ▸ hb)
      rw [setGroup_ne _ hne]
    have hobjects := h.objects
    rw [List.flatMap_append, List.flatMap_singleton] at hobjects
    rw [List.flatMap_append, List.flatMap_singleton, setGroup_self, hpending, List.flatMap_congr hused,
      ← List.append_assoc, hobjects]
    exact (outstanding_push h.known ⟨csn, indexId⟩ rfl).symm

/-- Destructor calls for objects of one group. -/
lemma Inv.destroy (h : q.Inv loose used spare) {g : LimboGroup} (hg : g.Ok) (hnext : g.m_next = q.next a)
    (ha : a ∈ used ++ [q.m_limboTail]) {ids : List Nat} (hids : ids.Nodup)
    (hsub : ∀ i ∈ ids, i ∈ (pending (q.groups a).m_elements).map Prod.fst)
    (hrest : pending g.m_elements = (pending (q.groups a).m_elements).filter fun x => x.1 ∉ ids) :
    ({ q.setGroup a g with called := q.called ++ ids } : GcQueue).Inv loose used spare := by
  have hnodup := q.outstanding_nodup
  rw [← h.objects] at hnodup
  have hout : ∀ i ∈ ids, ∃ r, (i, r) ∈ q.outstanding := fun i hi => by
    obtain ⟨⟨j, r⟩, hmem, rfl⟩ := List.mem_map.mp (hsub i hi)
    rw [← h.objects]
    exact ⟨r, List.mem_flatMap.mpr ⟨a, ha, hmem⟩⟩
  refine h.setChain hg hnext ha ?_ (List.nodup_append.mpr ⟨h.once, hids, ?_⟩) ?_
  · have hfilter := flatMap_filter_at hnodup ha hsub
    rw [h.objects, ← outstanding_called] at hfilter
    refine Eq.trans (List.flatMap_congr fun b _ => ?_) hfilter
    by_cases hb : b = a
    · rw [if_pos hb, hb, setGroup_self, hrest]
    · rw [if_neg hb, setGroup_ne g hb]
  · rintro i hi j hj rfl
    obtain ⟨r, hr⟩ := hout i hj
    exact (mem_outstanding.mp hr).2 hi
  · intro i hi
    rcases List.mem_append.mp hi with hi | hi
    · exact h.known i hi
    · obtain ⟨r, hr⟩ := hout i hi
      exact (List.getElem?_eq_some_iff.mp (mem_outstanding.mp hr).1).1

/-! ## Allocation -/

/-- No object is pushed or destroyed between `q` and `q'`. -/
structure SameObjects (q q' : GcQueue) : Prop where
  pushed : q'.pushed = q.pushed
  called : q'.called = q.called
  inuse : q'.m_stats.m_totalLimboInuseElements = q.m_stats.m_totalLimboInuseElements
  byIndex : q'.m_stats.m_totalLimboSizeInBytesByCleanIndex = q.m_stats.m_totalLimboSizeInBytesByCleanIndex

lemma SameObjects.refl (q : GcQueue) : q.SameObjects q := ⟨rfl, rfl, rfl, rfl⟩

lemma SameObjects.trans {q'' : GcQueue} (h : q.SameObjects q') (h' : q'.SameObjects q'') : q.SameObjects q'' :=
  ⟨h'.pushed.trans h.pushed, h'.called.trans h.called, h'.inuse.trans h.inuse, h'.byIndex.trans h.byIndex⟩

lemma SameObjects.outstanding (h : q.SameObjects q') : q'.outstanding = q.outstanding := by
  rw [GcQueue.outstanding, GcQueue.outstanding, h.pushed, h.called]

lemma Inv.tail_next_none (h : q.Inv loose used []) : q.next q.m_limboTail = none := h.tail_linked

/-- A loose group becomes the tail. -/
lemma Inv.extend (h : q.Inv [b] used []) (hb : q.next b = none) :
    ({ q.setNext q.m_limboTail (some b) with m_limboTail := b } : GcQueue).Inv [] (used ++ [q.m_limboTail]) [] :=
  (h.hook ⟨rfl, hb.trans h.tail_next_none.symm⟩).advanceTail

lemma empty_new : LimboGroup.new.Empty := ⟨rfl, rfl⟩

lemma empty_reset (g : LimboGroup) : g.reset.Empty := ⟨rfl, rfl⟩

/-- A group `a` more, which is linked to nothing. -/
structure Allocated (q q' : GcQueue) (a : Nat) (loose used spare : List Nat) : Prop where
  inv : q'.Inv (a :: loose) used spare
  same : q.SameObjects q'
  tail : q'.m_limboTail = q.m_limboTail
  unlinked : q'.next a = none
  others : ∀ b ∈ loose, q'.next b = q.next b

lemma Allocated.counted (h : q.Allocated q' a loose used spare) (n : UInt32) :
    q.Allocated (q'.addAllocations n) a loose used spare :=
  ⟨h.inv.withStats _ _, ⟨h.same.pushed, h.same.called, h.same.inuse, h.same.byIndex⟩, h.tail, h.unlinked, h.others⟩

lemma createNewLimboGroup_spec {m : GcManager} (h : q.Inv loose used spare)
    (hc : q.createNewLimboGroup m = some (a, q')) : q.Allocated q' a loose used spare := by
  rw [createNewLimboGroup] at hc
  split at hc
  case h_1 => cases hc
  case h_2 a' hnew =>
    cases hc
    have hfresh := m.create_fresh hnew
    refine ⟨h.addLoose hfresh empty_new, ⟨rfl, rfl, rfl, rfl⟩, rfl, ?_, fun b hb => ?_⟩
    · exact congrArg LimboGroup.m_next (setGroup_self LimboGroup.new)
    · refine congrArg LimboGroup.m_next (setGroup_ne _ ?_)
      rintro rfl
      exact hfresh (h.live b (List.mem_append_left _ (List.mem_append_left _ hb)))

lemma allocLimboGroupFromReserved_spec {m : GcManager} (h : q.Inv loose used spare)
    (hc : q.allocLimboGroupFromReserved m = some (a, q')) : q.Allocated q' a loose used spare := by
  rw [allocLimboGroupFromReserved] at hc
  split at hc
  case h_1 => cases hc
  case h_2 a' hnew =>
    cases hc
    have hfresh := m.reserved_fresh hnew
    refine ⟨h.addLoose hfresh (empty_reset _), ⟨rfl, rfl, rfl, rfl⟩, rfl, ?_, fun b hb => ?_⟩
    · exact congrArg LimboGroup.m_next (setGroup_self (q.groups a).reset)
    · refine congrArg LimboGroup.m_next (setGroup_ne _ ?_)
      rintro rfl
      exact hfresh (h.live b (List.mem_append_left _ (List.mem_append_left _ hb)))

lemma allocLimboGroup_spec (h : q.Inv loose used spare) (hc : q.allocLimboGroup = some (a, q')) :
    q.Allocated q' a loose used spare := by
  rw [allocLimboGroup] at hc
  split at hc
  case h_1 => cases hc
  case h_2 e rest hreserved =>
    cases hc
    exact ⟨h.takeReserved hreserved rfl, ⟨rfl, rfl, rfl, rfl⟩, rfl,
      h.reservedNext a (by rw [reserved, hreserved]; exact List.mem_cons_self), fun _ _ => rfl⟩

/-- A group just allocated, put behind the last one, is the tail. -/
lemma Allocated.extend (h : q.Allocated q' b [] used []) :
    let r := { q'.setNext q.m_limboTail (some b) with m_limboTail := b }
    ∃ used' spare', r.Inv [] used' spare' ∧ q.SameObjects r ∧ (r.groups r.m_limboTail).Empty := by
  rw [← h.tail]
  exact ⟨_, _, h.inv.extend h.unlinked, ⟨h.same.pushed, h.same.called, h.same.inuse, h.same.byIndex⟩,
    setNext_empty (h.inv.loose_empty (List.mem_singleton_self b))⟩

/-- `RefillLimboGroup` leaves an empty tail. -/
lemma refillLimboGroup_spec {m : GcManager} (h : q.Inv [] used spare) (hr : q.refillLimboGroup m = some q') :
    ∃ used' spare', q'.Inv [] used' spare' ∧ q.SameObjects q' ∧ (q'.groups q'.m_limboTail).Empty := by
  have hstart := h.tail_linked.start
  rw [refillLimboGroup] at hr
  cases hnext : q.next q.m_limboTail with
  | some b =>
    rw [hnext] at hr
    cases hr
    cases spare with
    | nil => exact absurd (hnext.symm.trans hstart) nofun
    | cons c spare =>
      cases hnext.symm.trans hstart
      exact ⟨_, _, h.advanceTail, ⟨rfl, rfl, rfl, rfl⟩, h.empty b (List.mem_append_left _ List.mem_cons_self)⟩
  | none =>
    have hspare : spare = [] := by
      cases spare with
      | nil => rfl
      | cons c spare => exact absurd (hnext.symm.trans hstart) nofun
    subst hspare
    rw [hnext] at hr
    dsimp only at hr
    split at hr
    case h_1 b q1 hc =>
      cases hr
      exact ((allocLimboGroupFromReserved_spec h hc).counted 1).extend
    case h_2 =>
      split at hr
      case h_1 b q1 hc =>
        cases hr
        exact (allocLimboGroup_spec h hc).extend
      case h_2 =>
        split at hr
        case h_1 b q1 hc =>
          cases hr
          exact ((createNewLimboGroup_spec h hc).counted 1).extend
        case h_2 => cases hr

end GcQueue

end GaussKernel.Mot
