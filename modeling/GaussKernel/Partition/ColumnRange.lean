import GaussKernel.Partition.PartitionMap
import Mathlib.Data.List.TakeWhile

/-!
# Column ranges of a partition

`constructPartKeyRange` turns the bounds of a range partition into one range for each leading key column, and
`partitionShouldEliminated` reads them (`pruning.cpp`). The columns that the two bounds share become points, the first
column where they differ becomes a range, and two looks ahead fill one element more (`constructLoop_filled`). The
array of `PartKeyRange` has four elements and a key has up to sixteen columns, so the writes stay inside exactly when
the bounds share few enough columns (`columnRanges_inside_iff`).
-/

namespace GaussKernel.Partition

/-- The length of `PartKeyRange.columnRanges`. -/
abbrev columnRangesNum : Nat := 4

inductive PartKeyColumnRangeMode where
  | point
  | increase
  | range
  | union
deriving DecidableEq

/-- The pointers `prev` and `next` may be NULL. -/
structure PartKeyColumnRange (V : Type) where
  mode : PartKeyColumnRangeMode
  prev : Option (Const V)
  next : Option (Const V)

/-- The elements of `columnRanges` that were written, at any index: `none` is an element as `palloc0` left it. -/
structure PartKeyRange (V : Type) where
  num : Nat
  columnRanges : Nat → Option (PartKeyColumnRange V)

def CONSTISMIN {V : Type} : Option (Const V) → Bool
  | none => true
  | some value => value.constisnull

def CONSTISMAX {V : Type} : Option (Const V) → Bool
  | none => false
  | some value => value.ismaxvalue

abbrev INT8OID : Nat := 20

abbrev INT2OID : Nat := 21

abbrev INT4OID : Nat := 23

def typeIsNumerable {V : Type} (left : Const V) : Bool :=
  left.consttype == INT2OID || left.consttype == INT4OID || left.consttype == INT8OID

/-- A boundary of the pruning condition, by key columns. -/
structure PruningBoundary (V : Type) where
  min : Nat → Option (Const V)
  max : Nat → Option (Const V)
  minClose : Nat → Bool
  maxClose : Nat → Bool

namespace PartKeyRange

variable {V : Type}

/-- The result as `palloc0` returns it. -/
def zero : PartKeyRange V := ⟨0, fun _ => none⟩

def set (r : PartKeyRange V) (i : Nat) (columnRange : PartKeyColumnRange V) : PartKeyRange V :=
  { r with columnRanges := fun j => if j = i then some columnRange else r.columnRanges j }

/-- The elements below `k` were written, and no other. -/
def Filled (r : PartKeyRange V) (k : Nat) : Prop := ∀ i, (r.columnRanges i).isSome = true ↔ i < k

variable {r : PartKeyRange V} {i k : Nat}

@[simp] lemma columnRanges_set_self (c : PartKeyColumnRange V) : (r.set i c).columnRanges i = some c := if_pos rfl

lemma columnRanges_set_of_ne {j : Nat} (h : j ≠ i) (c : PartKeyColumnRange V) :
    (r.set i c).columnRanges j = r.columnRanges j := if_neg h

lemma filled_zero : (zero : PartKeyRange V).Filled 0 :=
  fun i => iff_of_false Bool.false_ne_true (Nat.not_lt_zero i)

lemma Filled.set (h : r.Filled k) (c : PartKeyColumnRange V) : (r.set k c).Filled (k + 1) := by
  intro i
  rcases eq_or_ne i k with rfl | hne
  · rw [columnRanges_set_self]
    exact iff_of_true rfl (Nat.lt_succ_self i)
  · rw [columnRanges_set_of_ne hne, h i]
    exact ⟨Nat.lt_succ_of_lt, fun hlt => lt_of_le_of_ne (Nat.le_of_lt_succ hlt) hne⟩

lemma Filled.overwrite (h : r.Filled k) (hi : i < k) (c : PartKeyColumnRange V) : (r.set i c).Filled k := by
  intro j
  rcases eq_or_ne j i with rfl | hne
  · rw [columnRanges_set_self]
    exact iff_of_true rfl hi
  · rw [columnRanges_set_of_ne hne, h j]

lemma Filled.with_num (h : r.Filled k) {n : Nat} (hn : n = k) : ({ r with num := n } : PartKeyRange V).Filled n := by
  rw [hn]
  exact h

end PartKeyRange

section

variable {V : Type} [LinearOrder V]

/-- A comparison of two single columns. -/
def compareColumn (v1 v2 : Option (Const V)) : Except ErrorData Ordering := partitonKeyCompare [v1] [v2] false

/-- The error of `AssertEreport`, without the file and the line that it names. -/
def failedOnAssertion : ErrorData := ⟨.assertFailed, "failed on assertion"⟩

/-! ## Construction

`datum` is the machine word that holds a value, or the pointer to it. -/

section

variable (datum : V → BitVec 64)

/-- `leftInt + 1 == rightInt`, for the lowest bytes of the two words. -/
def stepsByOne (left right : Const V) : Bool :=
  ((datum left.constvalue).setWidth 8).toInt + 1 == ((datum right.constvalue).setWidth 8).toInt

/-- What an increase of column `i` adds from the next column. -/
def lookAhead (i : Nat) (right : Const V) (result : PartKeyRange V) :
    List (Const V × Const V) → Except ErrorData (PartKeyRange V)
  | [] => .ok result
  | (left', right') :: _ =>
    if left'.ismaxvalue then
      let result := result.set i ⟨.point, some right, some right⟩
      .ok { result.set (i + 1) ⟨.range, none, some right'⟩ with num := result.num + 1 }
    else
      match compareColumn (some left') (some right') with
      | .error e => .error e
      | .ok .gt => .ok { result.set (i + 1) ⟨.union, some left', some right'⟩ with num := result.num + 1 }
      | .ok _ => .ok result

/-- The loop over the columns of the two bounds, from column `i` on. -/
def constructLoop : List (Const V × Const V) → Nat → PartKeyRange V → Except ErrorData (PartKeyRange V)
  | [], _, result => .ok result
  | (left, right) :: columns, i, result =>
    match compareColumn (some left) (some right) with
    | .error e => .error e
    | .ok .gt => .error failedOnAssertion
    | .ok .eq => constructLoop columns (i + 1) (result.set i ⟨.point, some left, some right⟩)
    | .ok .lt =>
      if typeIsNumerable left && !CONSTISMIN (some left) && !CONSTISMAX (some right) then
        if stepsByOne datum left right then
          lookAhead i right { result.set i ⟨.increase, some left, some right⟩ with num := i + 1 } columns
        else .ok { result.set i ⟨.range, some left, some right⟩ with num := i + 1 }
      else .ok { result.set i ⟨.range, some left, some right⟩ with num := i + 1 }

def constructPartKeyRange (partMap : RangePartitionMap V) (partSeq : Nat) : Except ErrorData (PartKeyRange V) :=
  let result : PartKeyRange V := .zero
  if partSeq = 0 then .ok { result.set 0 ⟨.range, none, (partMap.boundary 0).head?⟩ with num := 1 }
  else constructLoop datum ((partMap.boundary (partSeq - 1)).zip (partMap.boundary partSeq)) 0 result

end

/-! ## Reading -/

/-- The decision of one round of `partitionShouldEliminated`. -/
def columnSelected (columnRange : PartKeyColumnRange V) (boundary : PruningBoundary V) (i : Nat) :
    Except ErrorData Bool :=
  let min := boundary.min i
  let max := boundary.max i
  match columnRange.mode with
  | .point => do
    let prevCompareNext ← compareColumn columnRange.prev columnRange.next
    if !(prevCompareNext == .eq && !CONSTISMIN columnRange.prev && !CONSTISMAX columnRange.prev) then
      throw failedOnAssertion
    let prevCompareMin ← compareColumn columnRange.prev min
    let prevCompareMax ← compareColumn columnRange.prev max
    return (prevCompareMin == .gt && prevCompareMax == .lt) || (prevCompareMin == .eq && boundary.minClose i) ||
      (prevCompareMax == .eq && boundary.maxClose i)
  | .increase | .range =>
    if (CONSTISMIN columnRange.prev && CONSTISMIN min) || (CONSTISMAX columnRange.next && CONSTISMAX max) then
      .ok true
    else do
      let prevCompareMin ← compareColumn columnRange.prev min
      let prevCompareMax ← compareColumn columnRange.prev max
      let nextCompareMin ← compareColumn columnRange.next min
      let nextCompareMax ← compareColumn columnRange.next max
      return (prevCompareMin == .gt && prevCompareMax == .lt) || (prevCompareMin == .lt && nextCompareMin == .gt) ||
        (prevCompareMax == .eq && boundary.maxClose i) || (nextCompareMin == .eq && boundary.minClose i) ||
        prevCompareMin == .eq || nextCompareMax == .eq
  | .union =>
    if CONSTISMIN columnRange.prev || CONSTISMAX columnRange.prev || CONSTISMIN columnRange.next ||
        CONSTISMAX columnRange.next then .error failedOnAssertion
    else if CONSTISMIN min || CONSTISMAX max then .ok true
    else do
      let nextCompareMin ← compareColumn columnRange.next min
      if nextCompareMin == .gt then return true
      let prevCompareMax ← compareColumn columnRange.prev max
      return prevCompareMax == .lt || (prevCompareMax == .eq && boundary.maxClose i)

/-- `rounds` rounds of the loop from element `i` on: the elements that it reads, and whether the partition stays
selected. An element that nothing wrote is all zero. -/
def selectLoop (partRange : PartKeyRange V) (boundary : PruningBoundary V) :
    Nat → Nat → List Nat × Except ErrorData Bool
  | 0, _ => ([], .ok true)
  | rounds + 1, i =>
    match columnSelected ((partRange.columnRanges i).getD ⟨.point, none, none⟩) boundary i with
    | .ok true => (selectLoop partRange boundary rounds (i + 1)).map (i :: ·) id
    | isSelected => ([i], isSelected)

/-- The elements that are read, and whether the partition is left out. -/
def partitionShouldEliminated (datum : V → BitVec 64) (partMap : RangePartitionMap V) (partSeq : Nat)
    (boundary : PruningBoundary V) : List Nat × Except ErrorData Bool :=
  match constructPartKeyRange datum partMap partSeq with
  | .error e => ([], .error e)
  | .ok partRange => (selectLoop partRange boundary partRange.num 0).map id (·.map not)

/-- The elements that the loop reads lie in its rounds. -/
lemma selectLoop_reads (partRange : PartKeyRange V) (boundary : PruningBoundary V) (rounds i : Nat) :
    ∀ j ∈ (selectLoop partRange boundary rounds i).1, j < i + rounds := by
  induction rounds generalizing i with
  | zero => exact fun j hj => nomatch hj
  | succ rounds ih =>
    have hfirst : ∀ j ∈ [i], j < i + (rounds + 1) := by
      intro j hj
      cases List.mem_singleton.1 hj
      exact Nat.lt_add_of_pos_right (Nat.succ_pos rounds)
    intro j hj
    rw [selectLoop] at hj
    split at hj
    · cases hj with
      | head => exact hfirst i (.head _)
      | tail _ hj =>
        have hlt := ih (i + 1) j hj
        rwa [Nat.add_right_comm] at hlt
    · exact hfirst j hj

/-! ## The number of filled elements -/

/-- The bounds agree on the column. -/
def sameColumn (column : Const V × Const V) : Bool :=
  match compareColumn (some column.1) (some column.2) with
  | .ok .eq => true
  | _ => false

/-- The number of leading columns that the two bounds share. -/
def sharedColumns (columns : List (Const V × Const V)) : Nat := (columns.takeWhile sameColumn).length

/-- The next column of the lower bound is MAXVALUE, or above that of the upper bound. -/
def NextFills : List (Const V × Const V) → Prop
  | [] => False
  | (left', right') :: _ => left'.ismaxvalue = true ∨ compareColumn (some left') (some right') = .ok .gt

/-- In the first of the columns the lower bound is one below the upper one, and the next column fills an element. -/
def LooksAhead (datum : V → BitVec 64) : List (Const V × Const V) → Prop
  | [] => False
  | (left, right) :: columns =>
    (typeIsNumerable left && !CONSTISMIN (some left) && !CONSTISMAX (some right)) = true ∧
      stepsByOne datum left right = true ∧ NextFills columns

lemma compareColumn_eq_cmp (v1 : Const V) {v2 : Const V} (h : ¬v2.IsNull) :
    compareColumn (some v1) (some v2) = .ok (cmp v1.rank v2.rank) := by
  have hcolumn := fun nullNull => columnCompare_eq_cmp nullNull v1 v2 fun hn => h hn.2
  rw [compareColumn, partitonKeyCompare, keyCompare, hcolumn]
  cases cmp v1.rank v2.rank <;> rfl

lemma sameColumn_iff (v1 : Const V) {v2 : Const V} (h : ¬v2.IsNull) :
    sameColumn (v1, v2) = true ↔ v1.rank = v2.rank := by
  rw [sameColumn, compareColumn_eq_cmp v1 h]
  cases hcmp : cmp v1.rank v2.rank with
  | eq => exact iff_of_true rfl ((cmp_eq_eq_iff _ _).1 hcmp)
  | lt => exact iff_of_false Bool.false_ne_true ((cmp_eq_lt_iff _ _).1 hcmp).ne
  | gt => exact iff_of_false Bool.false_ne_true ((cmp_eq_gt_iff _ _).1 hcmp).ne'

lemma sharedColumns_cons_of_same {c : Const V × Const V} (h : sameColumn c = true)
    (columns : List (Const V × Const V)) : sharedColumns (c :: columns) = sharedColumns columns + 1 :=
  congrArg List.length (List.takeWhile_cons_of_pos h)

lemma sharedColumns_cons_of_not_same {c : Const V × Const V} (h : ¬sameColumn c = true)
    (columns : List (Const V × Const V)) : sharedColumns (c :: columns) = 0 :=
  congrArg List.length (List.takeWhile_cons_of_neg h)

section

variable {datum : V → BitVec 64} {result : PartKeyRange V} {columns : List (Const V × Const V)} {i : Nat}

/-- What the construction has filled: `k` elements, or one more when it looks ahead. -/
structure FilledBy (r : PartKeyRange V) (k : Nat) (Ahead : Prop) : Prop where
  filled : r.Filled r.num
  num : r.num = k ∧ ¬Ahead ∨ r.num = k + 1 ∧ Ahead

lemma lookAhead_filled (right : Const V) (hnull : ∀ c ∈ columns, ¬c.2.IsNull) (hf : result.Filled (i + 1))
    (hnum : result.num = i + 1) :
    ∃ r, lookAhead i right result columns = .ok r ∧ FilledBy r (i + 1) (NextFills columns) := by
  cases columns with
  | nil =>
    refine ⟨result, rfl, ?_, .inl ⟨hnum, id⟩⟩
    rwa [hnum]
  | cons c columns =>
    obtain ⟨left', right'⟩ := c
    rw [lookAhead]
    cases hmax : left'.ismaxvalue with
    | true =>
      have hf' := (hf.overwrite (Nat.lt_succ_self i) ⟨.point, some right, some right⟩).set
        ⟨.range, none, some right'⟩
      have hn := congrArg (· + 1) hnum
      exact ⟨_, rfl, hf'.with_num hn, .inr ⟨hn, .inl hmax⟩⟩
    | false =>
      rw [compareColumn_eq_cmp left' (hnull _ (.head _))]
      have hnext : NextFills ((left', right') :: columns) ↔ cmp left'.rank right'.rank = .gt := by
        rw [NextFills, hmax, compareColumn_eq_cmp left' (hnull _ (.head _)), or_iff_right Bool.false_ne_true]
        exact ⟨Except.ok.inj, congrArg Except.ok⟩
      cases hcmp : cmp left'.rank right'.rank with
      | gt =>
        have hf' := hf.set ⟨.union, some left', some right'⟩
        have hn := congrArg (· + 1) hnum
        exact ⟨_, rfl, hf'.with_num hn, .inr ⟨hn, hnext.2 hcmp⟩⟩
      | eq =>
        refine ⟨result, rfl, ?_, .inl ⟨hnum, fun h => ?_⟩⟩
        · rwa [hnum]
        · cases hcmp.symm.trans (hnext.1 h)
      | lt =>
        refine ⟨result, rfl, ?_, .inl ⟨hnum, fun h => ?_⟩⟩
        · rwa [hnum]
        · cases hcmp.symm.trans (hnext.1 h)

lemma constructPartKeyRange_zero (datum : V → BitVec 64) (partMap : RangePartitionMap V) :
    constructPartKeyRange datum partMap 0 =
      .ok { PartKeyRange.zero.set 0 ⟨.range, none, (partMap.boundary 0).head?⟩ with num := 1 } := rfl

lemma constructPartKeyRange_succ (datum : V → BitVec 64) (partMap : RangePartitionMap V) (s : Nat) :
    constructPartKeyRange datum partMap (s + 1) =
      constructLoop datum ((partMap.boundary s).zip (partMap.boundary (s + 1))) 0 .zero := rfl

/-- The loop fills an element for every shared column and one for the first that differs. -/
lemma constructLoop_filled (datum : V → BitVec 64) (hnull : ∀ c ∈ columns, ¬c.2.IsNull)
    (hlt : cmp (keyRank (columns.map Prod.fst)) (keyRank (columns.map Prod.snd)) = .lt) (hf : result.Filled i) :
    ∃ r, constructLoop datum columns i result = .ok r ∧
      FilledBy r (i + sharedColumns columns + 1) (LooksAhead datum (columns.drop (sharedColumns columns))) := by
  induction columns generalizing result i with
  | nil => cases (cmp_self_eq_eq _).symm.trans hlt
  | cons c columns ih =>
    obtain ⟨left, right⟩ := c
    have hright := hnull _ (.head _)
    have hrest : ∀ c ∈ columns, ¬c.2.IsNull := fun c hc => hnull c (.tail _ hc)
    rw [List.map_cons, List.map_cons, keyRank, keyRank, KeyRank.cmp_cons] at hlt
    cases hcmp : cmp left.rank right.rank with
    | eq =>
      have hsame := (sameColumn_iff left hright).2 ((cmp_eq_eq_iff _ _).1 hcmp)
      rw [hcmp] at hlt
      rw [sharedColumns_cons_of_same hsame]
      have ih := ih hrest hlt (hf.set ⟨.point, some left, some right⟩)
      rw [constructLoop, compareColumn_eq_cmp left hright, hcmp]
      rwa [Nat.add_right_comm i 1 (sharedColumns columns)] at ih
    | gt =>
      rw [hcmp] at hlt
      cases hlt
    | lt =>
      have hsame : ¬sameColumn (left, right) = true := by
        rw [sameColumn_iff left hright, ← cmp_eq_eq_iff, hcmp]
        decide
      rw [sharedColumns_cons_of_not_same hsame, constructLoop, compareColumn_eq_cmp left hright, hcmp]
      dsimp only
      split
      next hnumerable =>
        split
        next hsteps =>
          have hf' := (hf.set ⟨.increase, some left, some right⟩).with_num (rfl : i + 1 = i + 1)
          obtain ⟨r, hr, hfilled⟩ := lookAhead_filled right hrest hf' rfl
          refine ⟨r, hr, hfilled.filled, ?_⟩
          rcases hfilled.num with ⟨hnum, hnext⟩ | ⟨hnum, hnext⟩
          · exact .inl ⟨hnum, fun h => hnext h.2.2⟩
          · exact .inr ⟨hnum, hnumerable, hsteps, hnext⟩
        next hsteps =>
          exact ⟨_, rfl, (hf.set ⟨.range, some left, some right⟩).with_num rfl, .inl ⟨rfl, fun h => hsteps h.2.1⟩⟩
      next hnumerable =>
        exact ⟨_, rfl, (hf.set ⟨.range, some left, some right⟩).with_num rfl, .inl ⟨rfl, fun h => hnumerable h.1⟩⟩

end

/-! ## The array -/

/-- The construction of a partition's ranges stays inside the array, `num` is the number of elements that it fills, at
least one, and the elements that are read are among them. -/
def InsideArray (datum : V → BitVec 64) (partMap : RangePartitionMap V) (partSeq : Nat) : Prop :=
  ∃ r, constructPartKeyRange datum partMap partSeq = .ok r ∧
    (∀ i, (r.columnRanges i).isSome = true → i < columnRangesNum) ∧
    1 ≤ r.num ∧ (∀ i, (r.columnRanges i).isSome = true ↔ i < r.num) ∧
    ∀ boundary, ∀ i ∈ (partitionShouldEliminated datum partMap partSeq boundary).1, (r.columnRanges i).isSome = true

/-- The columns of the two bounds of a partition that is not the first. -/
def boundColumns (partMap : RangePartitionMap V) (partSeq : Nat) : List (Const V × Const V) :=
  (partMap.boundary (partSeq - 1)).zip (partMap.boundary partSeq)

/-- The partition is the first one, or its bounds share at most two columns, or three without a look ahead from the
fourth. -/
def FirstFour (datum : V → BitVec 64) (partMap : RangePartitionMap V) (partSeq : Nat) : Prop :=
  partSeq = 0 ∨ sharedColumns (boundColumns partMap partSeq) < 3 ∨
    sharedColumns (boundColumns partMap partSeq) = 3 ∧ ¬LooksAhead datum ((boundColumns partMap partSeq).drop 3)

/-- A construction that fills `num` elements is inside the array when there are at most four. -/
lemma insideArray_iff {datum : V → BitVec 64} {partMap : RangePartitionMap V} {partSeq : Nat} {r : PartKeyRange V}
    (hr : constructPartKeyRange datum partMap partSeq = .ok r) (hf : r.Filled r.num) (hpos : 1 ≤ r.num) :
    InsideArray datum partMap partSeq ↔ r.num ≤ columnRangesNum := by
  constructor
  · rintro ⟨r', hr', hinside, -⟩
    cases hr.symm.trans hr'
    have hlast := hinside (r.num - 1) ((hf _).2 (Nat.sub_lt hpos Nat.one_pos))
    omega
  · intro hle
    refine ⟨r, hr, fun i hi => lt_of_lt_of_le ((hf i).1 hi) hle, hpos, hf, ?_⟩
    intro boundary i hi
    rw [partitionShouldEliminated, hr] at hi
    have hlt := selectLoop_reads r boundary r.num 0 i hi
    rw [Nat.zero_add] at hlt
    exact (hf i).2 hlt

lemma fits_iff (Ahead : Nat → Prop) {n k : Nat} (h : n = k + 1 ∧ ¬Ahead k ∨ n = k + 1 + 1 ∧ Ahead k) :
    n ≤ columnRangesNum ↔ k < 3 ∨ k = 3 ∧ ¬Ahead 3 := by
  rcases lt_trichotomy k 3 with hk | hk | hk
  · refine iff_of_true ?_ (.inl hk)
    rcases h with ⟨rfl, -⟩ | ⟨rfl, -⟩
    · exact Nat.le_succ_of_le hk
    · exact Nat.succ_le_succ hk
  · subst hk
    rcases h with ⟨rfl, hahead⟩ | ⟨rfl, hahead⟩
    · exact iff_of_true (le_refl 4) (.inr ⟨rfl, hahead⟩)
    · exact iff_of_false (by decide) fun hor => hor.elim (lt_irrefl 3) fun hand => hand.2 hahead
  · refine iff_of_false ?_ fun hor => hor.elim hk.not_gt fun hand => hk.ne' hand.1
    rcases h with ⟨rfl, -⟩ | ⟨rfl, -⟩
    · exact (Nat.succ_lt_succ hk).not_ge
    · exact (Nat.lt_succ_of_lt (Nat.succ_lt_succ hk)).not_ge

/-- Reads and writes of the column ranges of a partition stay inside the array exactly when it is the first one or its
bounds share at most two columns, or three and the fourth does not look ahead. -/
theorem columnRanges_inside_iff (datum : V → BitVec 64) (partMap : RangePartitionMap V) {partSeq : Nat}
    (h : partSeq < partMap.rangeElements.length) :
    InsideArray datum partMap partSeq ↔ FirstFour datum partMap partSeq := by
  cases partSeq with
  | zero =>
    have hf := PartKeyRange.filled_zero.set ⟨.range, none, (partMap.boundary 0).head?⟩
    have hinside := insideArray_iff (constructPartKeyRange_zero datum partMap) (hf.with_num rfl) (le_refl 1)
    exact iff_of_true (hinside.2 (Nat.le_of_ble_eq_true rfl)) (.inl rfl)
  | succ s =>
    have hs : s < partMap.rangeElements.length := (Nat.lt_succ_self s).trans h
    have hlen := (partMap.length_boundary hs).trans (partMap.length_boundary h).symm
    have hnull : ∀ c ∈ boundColumns partMap (s + 1), ¬c.2.IsNull :=
      fun c hc => partMap.not_null h _ (List.of_mem_zip hc).2
    have hlt : cmp (keyRank ((boundColumns partMap (s + 1)).map Prod.fst))
        (keyRank ((boundColumns partMap (s + 1)).map Prod.snd)) = .lt := by
      rw [boundColumns, Nat.add_sub_cancel, List.map_fst_zip hlen.le, List.map_snd_zip hlen.ge]
      exact (partMap.boundaryRank_lt (Nat.lt_succ_self s) h).cmp_eq_lt
    obtain ⟨r, hloop, hfilled⟩ := constructLoop_filled datum hnull hlt PartKeyRange.filled_zero
    have hr := (constructPartKeyRange_succ datum partMap s).trans hloop
    have hnum := hfilled.num
    have hpos : 1 ≤ r.num := by rcases hnum with hn | hn <;> omega
    rw [Nat.zero_add] at hnum
    rw [insideArray_iff hr hfilled.filled hpos, FirstFour, or_iff_right (Nat.succ_ne_zero s)]
    exact fits_iff (fun k => LooksAhead datum ((boundColumns partMap (s + 1)).drop k)) hnum

end

/-- Two partitions `VALUES LESS THAN (1, 1, 1, 1, 1)` and `VALUES LESS THAN (1, 1, 1, 1, 2)` of five integer columns. -/
def fiveColumns : RangePartitionMap Int where
  partitionKey := [1, 2, 3, 4, 5]
  rangeElements := [1, 2].map fun (last : Int) =>
    ⟨16384 + last.toNat, [1, 1, 1, 1, last].map fun (value : Int) => ⟨INT4OID, false, false, value⟩, false⟩
  intervalValue := ⟨0, 0, 0⟩
  key_pos := by decide
  key_le := by decide
  elements_pos := by decide
  boundary_length := by decide
  boundary_not_null := by decide
  increasing := by decide
  interval_value := by decide

theorem columnRanges_inside_iff_fiveColumns :
    1 < fiveColumns.rangeElements.length ∧
      (InsideArray (BitVec.ofInt 64) fiveColumns 1 ↔ FirstFour (BitVec.ofInt 64) fiveColumns 1) :=
  ⟨by decide, columnRanges_inside_iff (BitVec.ofInt 64) fiveColumns (by decide)⟩

/-- The fifth column's range is written behind the array. -/
theorem not_columnRanges_inside : ¬InsideArray (BitVec.ofInt 64) fiveColumns 1 := by
  rintro ⟨r, hr, hinside, -⟩
  have hfifth : (constructPartKeyRange (BitVec.ofInt 64) fiveColumns 1).toOption.map
      (fun r => (r.columnRanges 4).isSome) = some true := by decide
  rw [hr] at hfifth
  exact absurd (hinside 4 (Option.some.inj hfifth)) (by decide)

end GaussKernel.Partition
