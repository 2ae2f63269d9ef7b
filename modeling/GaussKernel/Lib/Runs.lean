import Mathlib

/-!
# Sorting into runs

A list is sorted by a key, with the position as a tie-breaker, and cut where the key changes. The pieces are what the
list holds of each key, in its own order.
-/

namespace GaussKernel.Lib

variable {α κ : Type*} [LinearOrder κ] (key : α → κ)

/-- Sort by the key and then by the position. -/
def sortByKey (l : List α) : List α :=
  (l.zipIdx.mergeSort fun a b => decide (toLex (key a.1, a.2) ≤ toLex (key b.1, b.2))).map Prod.fst

/-- Cut where the key changes. -/
def runsByKey (l : List α) : List (List α) := l.splitBy fun a b => decide (key a = key b)

variable {key} {l : List α}

lemma sortByKey_perm (l : List α) : (sortByKey key l).Perm l := by
  have hperm := (List.mergeSort_perm l.zipIdx fun a b => decide (toLex (key a.1, a.2) ≤ toLex (key b.1, b.2))).map
    Prod.fst
  rwa [List.zipIdx_map_fst] at hperm

lemma sortByKey_singleton (a : α) : sortByKey key [a] = [a] := List.perm_singleton.mp (sortByKey_perm [a])

lemma pairwise_zipIdx_mergeSort (l : List α) :
    (l.zipIdx.mergeSort fun a b => decide (toLex (key a.1, a.2) ≤ toLex (key b.1, b.2))).Pairwise
      fun a b => toLex (key a.1, a.2) ≤ toLex (key b.1, b.2) := by
  refine (List.pairwise_mergeSort (fun a b c hab hbc => ?_) (fun a b => ?_) l.zipIdx).imp of_decide_eq_true
  · exact decide_eq_true ((of_decide_eq_true hab).trans (of_decide_eq_true hbc))
  · rw [Bool.or_eq_true, decide_eq_true_iff, decide_eq_true_iff]
    exact le_total _ _

lemma sortByKey_pairwise (l : List α) : (sortByKey key l).Pairwise fun a b => key a ≤ key b := by
  rw [sortByKey, List.pairwise_map]
  exact (pairwise_zipIdx_mergeSort l).imp fun h => (Prod.Lex.le_iff.mp h).elim le_of_lt fun h => h.1.le

/-- What the list holds of a key stays in its order. -/
lemma sortByKey_filter (l : List α) (k : κ) :
    (sortByKey key l).filter (fun a => decide (key a = k)) = l.filter fun a => decide (key a = k) := by
  have hfilter : ∀ zs : List (α × Nat), (zs.map Prod.fst).filter (fun a => decide (key a = k)) =
      (zs.filter fun a => decide (key a.1 = k)).map Prod.fst := fun zs => List.filter_map
  conv_rhs => rw [← List.zipIdx_map_fst 0 l]
  rw [sortByKey, hfilter, hfilter]
  refine congrArg (List.map Prod.fst) ?_
  -- both are sorted by the position, which says which element it is
  have hperm := (List.mergeSort_perm l.zipIdx fun a b => decide (toLex (key a.1, a.2) ≤ toLex (key b.1, b.2))).filter
    fun a => decide (key a.1 = k)
  refine @List.Perm.eq_of_pairwise _ (fun a b : α × Nat => a.2 ≤ b.2) _ _ ?_ ?_ ?_ hperm
  · intro a b _ hb hab hba
    have ha := hperm.mem_iff.mp ‹_›
    have hposition := le_antisymm hab hba
    rw [List.mem_filter, List.mem_zipIdx_iff_getElem?] at ha hb
    exact Prod.ext (Option.some_inj.mp (ha.1.symm.trans (hposition ▸ hb.1))) hposition
  · rw [List.pairwise_filter]
    refine (pairwise_zipIdx_mergeSort l).imp fun {a b} hle ha hb => ?_
    have hkeys : key a.1 = key b.1 := (of_decide_eq_true ha).trans (of_decide_eq_true hb).symm
    rcases Prod.Lex.le_iff.mp hle with hlt | ⟨-, hle⟩
    · exact absurd hlt (by simp [hkeys])
    · exact hle
  · apply List.Pairwise.filter
    have hrange : (l.zipIdx.map Prod.snd).Pairwise (· ≤ ·) := by
      rw [List.zipIdx_map_snd]
      exact List.pairwise_le_range'
    exact List.pairwise_map.mp hrange

/-- Cut pieces of a sorted list whose keys change between them hold all that it has of their keys. -/
lemma run_eq_filter {gs : List (List α)} (hne : [] ∉ gs) (hsame : ∀ g ∈ gs, ∀ a ∈ g, ∀ b ∈ g, key a = key b)
    (hchange : gs.IsChain fun g g' => ∃ ha hb, key (g.getLast ha) ≠ key (g'.head hb))
    (hsorted : gs.flatten.Pairwise fun a b => key a ≤ key b) {g : List α} (hg : g ∈ gs) {a : α} (ha : a ∈ g) :
    g = gs.flatten.filter fun b => decide (key b = key a) := by
  induction gs with
  | nil => cases hg
  | cons first gs ih =>
    have hne' : [] ∉ gs := fun h => hne (List.mem_cons_of_mem _ h)
    obtain ⟨-, hrest, hcross⟩ := List.pairwise_append.mp hsorted
    -- behind the first piece the keys are greater
    have hgreater : ∀ b ∈ first, ∀ c ∈ gs.flatten, key b < key c := by
      intro b hb c hc
      refine lt_of_le_of_ne (hcross b hb c hc) ?_
      cases gs with
      | nil => cases hc
      | cons second gs =>
        obtain ⟨hlast, hhead, hdiff⟩ := (List.isChain_cons_cons.mp hchange).1
        have hb' : key b = key (first.getLast hlast) := hsame first List.mem_cons_self b hb _ (List.getLast_mem _)
        have hstep : key (first.getLast hlast) < key (second.head hhead) :=
          lt_of_le_of_ne (hcross _ (List.getLast_mem _) _ (by simp)) hdiff
        have hfirst : key (second.head hhead) ≤ key c := by
          obtain ⟨x, xs, rfl⟩ := List.exists_cons_of_ne_nil hhead
          rw [List.flatten_cons, List.cons_append, List.mem_cons] at hc
          rcases hc with rfl | hc
          · exact le_rfl
          · exact (List.pairwise_cons.mp hrest).1 c hc
        rw [hb']
        exact (hstep.trans_le hfirst).ne
    rw [List.flatten_cons, List.filter_append]
    rcases List.mem_cons.mp hg with rfl | hg
    · have hall : g.filter (fun b => decide (key b = key a)) = g :=
        List.filter_eq_self.mpr fun b hb => decide_eq_true (hsame g List.mem_cons_self b hb a ha)
      have hnone : gs.flatten.filter (fun b => decide (key b = key a)) = [] :=
        List.filter_eq_nil_iff.mpr fun b hb h => (hgreater a ha b hb).ne' (of_decide_eq_true h)
      rw [hall, hnone, List.append_nil]
    · have hmem : a ∈ gs.flatten := List.mem_flatten.mpr ⟨g, hg, ha⟩
      have hnone : first.filter (fun b => decide (key b = key a)) = [] :=
        List.filter_eq_nil_iff.mpr fun b hb h => (hgreater b hb a hmem).ne (of_decide_eq_true h)
      rw [hnone, List.nil_append]
      exact ih hne' (fun g hg => hsame g (List.mem_cons_of_mem _ hg)) (List.IsChain.tail hchange) hrest hg

/-- A run of a sorted list is what the list holds of its key. -/
lemma runsByKey_eq_filter (hsorted : l.Pairwise fun a b => key a ≤ key b) {g : List α} (hg : g ∈ runsByKey key l)
    {a : α} (ha : a ∈ g) : g = l.filter fun b => decide (key b = key a) := by
  have hflatten : (runsByKey key l).flatten = l := List.flatten_splitBy _ l
  have hsame : ∀ g ∈ runsByKey key l, ∀ a ∈ g, ∀ b ∈ g, key a = key b := by
    intro g hg a ha b hb
    have hchain : g.IsChain fun a b => key a = key b :=
      (List.isChain_of_mem_splitBy hg).imp fun _ _ => of_decide_eq_true
    have : Trans (fun a b : α => key a = key b) (fun a b => key a = key b) fun a b => key a = key b := ⟨Eq.trans⟩
    have : Std.Symm fun a b : α => key a = key b := ⟨fun _ _ => Eq.symm⟩
    exact hchain.pairwise.forall_of_forall (fun _ _ => Eq.refl (key _)) ha hb
  have hchange : (runsByKey key l).IsChain fun g g' => ∃ ha hb, key (g.getLast ha) ≠ key (g'.head hb) :=
    (List.isChain_getLast_head_splitBy _ l).imp fun g g' ⟨ha, hb, h⟩ => ⟨ha, hb, of_decide_eq_false h⟩
  have hrun := run_eq_filter (List.nil_notMem_splitBy _ l) hsame hchange (hflatten.symm ▸ hsorted) hg ha
  exact hrun.trans (congrArg (List.filter _) hflatten)

lemma exists_mem_runsByKey {a : α} (ha : a ∈ l) : ∃ g ∈ runsByKey key l, a ∈ g := by
  have hflatten : (runsByKey key l).flatten = l := List.flatten_splitBy _ l
  exact List.mem_flatten.mp (hflatten.symm ▸ ha)

end GaussKernel.Lib
