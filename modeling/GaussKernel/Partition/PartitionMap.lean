import GaussKernel.Partition.PartitionKey

/-!
# Partition maps

The maps of a range, an interval and a list partitioned table (`partitionmap.h`, `partitionmap_gs.h`). The bounds of a
range map are sorted when the map is built, no two of them are equal, and the parser refuses NULL as a bound.

* `RangePartitionMap.compare_boundary`: a key compares with a bound as its rank does.
* `RangePartitionMap.boundaryRank_lt`: the ranks of the bounds increase.
-/

namespace GaussKernel.Partition

abbrev RANGE_PARTKEYMAXNUM : Nat := 16

abbrev InvalidOid : Nat := 0

structure Interval where
  time : Int
  day : Int
  month : Int
deriving DecidableEq

structure RangeElement (V : Type) where
  partitionOid : Nat
  boundary : List (Const V)
  isInterval : Bool

structure ListPartElement (V : Type) where
  partitionOid : Nat
  /-- The keys that the partition lists. -/
  boundary : List (List (Const V))

/-- The partitions of a range or an interval partitioned table, in the order of their upper bounds. -/
structure RangePartitionMap (V : Type) [LinearOrder V] where
  /-- The column numbers of the key. -/
  partitionKey : List Nat
  rangeElements : List (RangeElement V)
  intervalValue : Interval
  key_pos : 0 < partitionKey.length
  key_le : partitionKey.length ≤ RANGE_PARTKEYMAXNUM
  elements_pos : 0 < rangeElements.length
  boundary_length : ∀ e ∈ rangeElements, e.boundary.length = partitionKey.length
  boundary_not_null : ∀ e ∈ rangeElements, ∀ v ∈ e.boundary, ¬v.IsNull
  increasing : rangeElements.Pairwise fun e e' =>
    partitonKeyCompareForRouting (e.boundary.map some) (e'.boundary.map some) = .ok .lt
  /-- An interval partition has one key column, and its upper bound is a value. -/
  interval_value : ∀ e ∈ rangeElements, e.isInterval = true →
    partitionKey.length = 1 ∧ ∀ v ∈ e.boundary, v.ismaxvalue = false

namespace RangePartitionMap

variable {V : Type} [LinearOrder V] (m : RangePartitionMap V)

/-- The upper bound of a partition. -/
def boundary (i : Nat) : List (Const V) := (m.rangeElements[i]?.map RangeElement.boundary).getD []

variable {m} {i j : Nat}

lemma boundary_eq {e : RangeElement V} (h : m.rangeElements[i]? = some e) : m.boundary i = e.boundary := by
  simp only [boundary, h, Option.map_some, Option.getD_some]

lemma length_boundary (h : i < m.rangeElements.length) : (m.boundary i).length = m.partitionKey.length := by
  rw [boundary_eq (List.getElem?_eq_getElem h)]
  exact m.boundary_length _ (List.getElem_mem h)

lemma not_null (h : i < m.rangeElements.length) : ∀ v ∈ m.boundary i, ¬v.IsNull := by
  rw [boundary_eq (List.getElem?_eq_getElem h)]
  exact m.boundary_not_null _ (List.getElem_mem h)

/-- A key compares with an upper bound as its place does. -/
lemma compare_boundary (h : i < m.rangeElements.length) {key : List (Const V)}
    (hkey : key.length = m.partitionKey.length) :
    partitonKeyCompareForRouting (key.map some) ((m.boundary i).map some) =
      .ok (cmp (keyRank key) (keyRank (m.boundary i))) :=
  keyCompare_eq_cmp _ key (hkey.trans (length_boundary h).symm) (not_null h)

/-- The upper bounds increase. -/
lemma boundaryRank_lt (hij : i < j) (hj : j < m.rangeElements.length) :
    keyRank (m.boundary i) < keyRank (m.boundary j) := by
  have hi : i < m.rangeElements.length := hij.trans hj
  have hlt := List.pairwise_iff_getElem.1 m.increasing i j hi hj hij
  rw [← boundary_eq (List.getElem?_eq_getElem hi), ← boundary_eq (List.getElem?_eq_getElem hj),
    compare_boundary hj (length_boundary hi)] at hlt
  exact (cmp_eq_lt_iff _ _).1 (Except.ok.inj hlt)

end RangePartitionMap

end GaussKernel.Partition
