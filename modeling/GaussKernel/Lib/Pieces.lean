import Mathlib.Algebra.Order.BigOperators.Group.List
import Mathlib.Algebra.Order.Ring.Nat
import Mathlib.Data.List.Nodup
import Mathlib.Data.List.Pairwise

/-!
# Pieces

A family of lists that together hold nothing twice. Handing the pieces out again, each to at most one taker, still
hands out nothing twice.
-/

namespace GaussKernel.Lib

variable {ι α : Type*} {l : List ι} {f g p q : ι → List α}

/-- Two families of which no piece is handed to both takers, nor to one of them twice. -/
lemma nodup_pieces [DecidableEq α] (h : (l.flatMap f ++ l.flatMap g).Nodup)
    (hle : ∀ u ∈ l, ∀ x, (p u ++ q u).count x ≤ (f u ++ g u).count x) : (l.flatMap p ++ l.flatMap q).Nodup := by
  rw [List.nodup_iff_count_le_one] at h ⊢
  intro x
  refine le_trans ?_ (h x)
  rw [List.count_append, List.count_append, List.count_flatMap, List.count_flatMap, List.count_flatMap,
    List.count_flatMap, ← List.sum_map_add, ← List.sum_map_add]
  refine List.sum_le_sum fun u hu => ?_
  have hu := hle u hu x
  rwa [List.count_append, List.count_append] at hu

lemma pieces_disjoint (h : (l.flatMap f).Nodup) {u v : ι} (hu : u ∈ l) (hv : v ∈ l) (hne : u ≠ v) :
    (f u).Disjoint (f v) := by
  have : Std.Symm (Function.onFun List.Disjoint f) := ⟨fun _ _ hdisj _ hv hu => hdisj hu hv⟩
  exact (List.nodup_flatMap.mp h).2.forall hu hv hne

lemma pieces_apart (h : (l.flatMap f ++ l.flatMap g).Nodup) {u v : ι} (hu : u ∈ l) (hv : v ∈ l) :
    (f u).Disjoint (g v) := fun _ hf hg =>
  List.disjoint_of_nodup_append h (List.mem_flatMap.mpr ⟨u, hu, hf⟩) (List.mem_flatMap.mpr ⟨v, hv, hg⟩)

end GaussKernel.Lib
