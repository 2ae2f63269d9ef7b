import GaussKernel.Partition.IntervalBound
import GaussKernel.Partition.ListRouting
import GaussKernel.Partition.RangeRouting

/-!
# Routing a tuple and locating it

`partitionRoutingForValue` says to which partition a key goes, and `isTupleLocatePartition` whether a tuple is in a
given partition (`partitionmap_gs.h`, `partitionlocate.cpp`). Routing looks at the lower bound of an interval partition
as well, and leaves the keys below it to a new partition. The check of a tuple takes the upper bound of the partition
before for the lower bound. So the two differ on the keys between these bounds, and nowhere else
(`partition_routing_iff`).
-/

namespace GaussKernel.Partition

inductive PartArea where
  | range
  | interval
  | list
deriving DecidableEq

structure PartitionIdentifier where
  partArea : PartArea
  partitionId : Nat
  fileExist : Bool
  partSeq : Int
deriving DecidableEq

def PartitionLogicalExist (partitionIdentifier : PartitionIdentifier) : Prop := 0 ≤ partitionIdentifier.partSeq

/-- A tuple with its descriptor: the type of a column, and its value with the NULL flag. -/
structure Tuple (V : Type) where
  atttypid : Nat → Nat
  getattr : Nat → V × Bool

def transformDatum2Const {V : Type} (atttypid : Nat) (datumValue : V) (isnull : Bool) : Const V :=
  { consttype := atttypid, constisnull := isnull, ismaxvalue := false, constvalue := datumValue }

/-- The key columns of a tuple. -/
def tuplePartKeyValues {V : Type} (partitionKey : List Nat) (tuple : Tuple V) : List (Const V) :=
  partitionKey.map fun attnum =>
    transformDatum2Const (tuple.atttypid attnum) (tuple.getattr attnum).1 (tuple.getattr attnum).2

inductive PartitionMap (V : Type) [LinearOrder V] where
  | range (partMap : RangePartitionMap V)
  | interval (partMap : RangePartitionMap V)
  | list (partMap : ListPartitionMap V)

section

variable {V : Type} [LinearOrder V]

/-- The key of a tuple in the columns of the map. -/
def PartitionMap.tupleKey (map : PartitionMap V) (tuple : Tuple V) : List (Const V) :=
  match map with
  | .range partMap | .interval partMap => tuplePartKeyValues partMap.partitionKey tuple
  | .list partMap => tuplePartKeyValues partMap.partitionKey tuple

/-! ## Routing

`lowValue` is the value that lies an interval below a value of a type; for dates and timestamps it is
`dateTimeLowValue`. -/

section

variable (lowValue : Nat → V → Interval → Except ErrorData V)

def CalcLowBoundary (upBoundary : Const V) (intervalValue : Interval) : Except ErrorData (Const V) :=
  match lowValue upBoundary.consttype upBoundary.constvalue intervalValue with
  | .error e => .error e
  | .ok lowValue => .ok ⟨upBoundary.consttype, upBoundary.constisnull, false, lowValue⟩

def ValueCmpLowBoudary (partKeyValue : List (Const V)) (partition : RangeElement V) (intervalValue : Interval) :
    Except ErrorData Ordering :=
  match partition.boundary.head? with
  | none => .ok .eq
  | some upBoundary =>
    match CalcLowBoundary lowValue upBoundary intervalValue with
    | .error e => .error e
    | .ok lowBoundary => partitonKeyCompareForRouting (partKeyValue.map some) [some lowBoundary]

def ValueSatisfyLowBoudary (partKeyValue : List (Const V)) (partition : RangeElement V) (intervalValue : Interval)
    (topClosed : Bool) : Except ErrorData Bool :=
  match ValueCmpLowBoudary lowValue partKeyValue partition intervalValue with
  | .error e => .error e
  | .ok compare => .ok (compare == .gt || (compare == .eq && topClosed))

/-- The routing in a range or an interval map. -/
def rangeRouting (partMap : RangePartitionMap V) (partArea : PartArea) (keyValue : List (Const V)) (topClosed : Bool) :
    Except ErrorData PartitionIdentifier :=
  match getRangePartitionOid partMap keyValue topClosed with
  | .error e => .error e
  | .ok (partitionId, partSeq) =>
    if partSeq < 0 then .ok ⟨partArea, partitionId, false, partSeq⟩
    else
      match partMap.rangeElements[partSeq.toNat]? with
      | none => .ok ⟨partArea, partitionId, true, partSeq⟩
      | some element =>
        if element.isInterval then
          match ValueSatisfyLowBoudary lowValue keyValue element partMap.intervalValue topClosed with
          | .error e => .error e
          | .ok true => .ok ⟨partArea, partitionId, true, partSeq⟩
          | .ok false => .ok ⟨partArea, InvalidOid, false, -1⟩
        else .ok ⟨partArea, partitionId, true, partSeq⟩

def partitionRoutingForValue (map : PartitionMap V) (keyValue : List (Const V)) (topClosed : Bool) :
    Except ErrorData PartitionIdentifier :=
  match map with
  | .range partMap => rangeRouting lowValue partMap .range keyValue topClosed
  | .interval partMap => rangeRouting lowValue partMap .interval keyValue topClosed
  | .list partMap =>
    let (partitionId, partSeq) := getListPartitionOid partMap keyValue topClosed
    .ok ⟨.list, partitionId, !(partSeq < 0), partSeq⟩

end

/-! ## Locating -/

def isPartKeyValuesInPartition (partMap : RangePartitionMap V) (partKeyValues : List (Const V)) (partSeq : Nat) :
    Except ErrorData Bool :=
  if partSeq = 0 then
    match compareBound partMap partKeyValues 0 with
    | .error e => .error e
    | .ok compareTop => .ok (compareTop == .lt)
  else
    match compareBound partMap partKeyValues (partSeq - 1), compareBound partMap partKeyValues partSeq with
    | .error e, _ => .error e
    | .ok _, .error e => .error e
    | .ok compareBottom, .ok compareTop => .ok (compareBottom != .lt && compareTop == .lt)

def isPartKeyValuesInListPartition (partMap : ListPartitionMap V) (partKeyValues : List (Const V)) (partSeq : Nat) :
    Except ErrorData Bool :=
  let (sourceOid, sourcePartSeq) := getListPartitionOid partMap partKeyValues true
  if sourcePartSeq < 0 then
    .error ⟨.invalidParameterValue, "Can't find list partition oid when checking tuple is in the partition."⟩
  else .ok ((partMap.listElements[partSeq]?.map ListPartElement.partitionOid) == some sourceOid)

def checkTupleIsInRangePartition (partMap : RangePartitionMap V) (partSeq : Nat) (tuple : Tuple V) :
    Except ErrorData Bool :=
  if partSeq ≥ partMap.rangeElements.length then .ok false
  else isPartKeyValuesInPartition partMap (tuplePartKeyValues partMap.partitionKey tuple) partSeq

def checkTupleIsInListPartition (partMap : ListPartitionMap V) (partSeq : Nat) (tuple : Tuple V) :
    Except ErrorData Bool :=
  if partSeq ≥ partMap.listElements.length then .ok false
  else isPartKeyValuesInListPartition partMap (tuplePartKeyValues partMap.partitionKey tuple) partSeq

def isTupleLocatePartition (map : PartitionMap V) (partSeq : Int) (tuple : Tuple V) : Except ErrorData Bool :=
  if partSeq < 0 then .ok false
  else
    match map with
    | .list partMap => checkTupleIsInListPartition partMap partSeq.toNat tuple
    | .range partMap | .interval partMap => checkTupleIsInRangePartition partMap partSeq.toNat tuple

/-! ## Where the two agree -/

section

variable {lowValue : Nat → V → Interval → Except ErrorData V} {m : RangePartitionMap V} {key : List (Const V)}
  {r : PartitionIdentifier} {i : Nat}

/-- The key is routed to the partition. -/
def RoutesTo (r : PartitionIdentifier) (partSeq : Int) : Prop := PartitionLogicalExist r ∧ r.partSeq = partSeq

/-- The answer of the routing in a range or an interval map. -/
inductive RangeOutcome (lowValue : Nat → V → Interval → Except ErrorData V) (m : RangePartitionMap V)
    (key : List (Const V)) (r : PartitionIdentifier) : Prop where
  | routed (i : Nat) (e : RangeElement V) :
    m.rangeElements[i]? = some e → (∀ j, j < m.rangeElements.length → (Within m true key j ↔ j = i)) →
      (e.isInterval = true → ValueSatisfyLowBoudary lowValue key e m.intervalValue true = .ok true) →
      r.partSeq = i → RangeOutcome lowValue m key r
  | gap (i : Nat) (e : RangeElement V) :
    m.rangeElements[i]? = some e → (∀ j, j < m.rangeElements.length → (Within m true key j ↔ j = i)) →
      e.isInterval = true → ValueSatisfyLowBoudary lowValue key e m.intervalValue true = .ok false →
      r.partSeq = -1 → RangeOutcome lowValue m key r
  | miss :
    (∀ j, j < m.rangeElements.length → ¬Within m true key j) → r.partSeq = -1 → RangeOutcome lowValue m key r

lemma rangeRouting_outcome {partArea : PartArea} (hkey : key.length = m.partitionKey.length)
    (h : rangeRouting lowValue m partArea key true = .ok r) : RangeOutcome lowValue m key r := by
  obtain ⟨a, hroute, hrouted⟩ := getRangePartitionOid_routed m hkey true
  rw [rangeRouting, hroute] at h
  cases hrouted with
  | miss hnone =>
    cases h
    exact .miss hnone rfl
  | hit i e he hwithin =>
    have hi : ¬(i : Int) < 0 := not_lt.2 (Int.natCast_nonneg i)
    simp only [hi, if_false, Int.toNat_natCast, he] at h
    cases hint : e.isInterval with
    | false =>
      rw [hint] at h
      cases h
      exact .routed i e he hwithin (fun ht => nomatch hint.symm.trans ht) rfl
    | true =>
      rw [hint, if_pos rfl] at h
      cases hlow : ValueSatisfyLowBoudary lowValue key e m.intervalValue true with
      | error err =>
        rw [hlow] at h
        cases h
      | ok low =>
        rw [hlow] at h
        cases low with
        | true =>
          cases h
          exact .routed i e he hwithin (fun _ => hlow) rfl
        | false =>
          cases h
          exact .gap i e he hwithin hint hlow rfl

/-- The check of a tuple compares the key with the bounds that the routing compares it with. -/
lemma isPartKeyValuesInPartition_within (hkey : key.length = m.partitionKey.length) (hi : i < m.rangeElements.length) :
    ∃ b, isPartKeyValuesInPartition m key i = .ok b ∧ (b = true ↔ Within m true key i) := by
  have htop := compareBound_eq hkey hi
  have hbefore : Before m true key i ↔ cmp (keyRank key) (keyRank (m.boundary i)) = .lt := by
    rw [Before, if_pos rfl, htop]
    exact ⟨Except.ok.inj, congrArg Except.ok⟩
  cases i with
  | zero =>
    rw [isPartKeyValuesInPartition, if_pos rfl, htop]
    refine ⟨_, rfl, ?_⟩
    rw [beq_iff_eq, ← hbefore]
    exact ⟨fun h => ⟨fun j hj => absurd hj (Nat.succ_ne_zero j), h⟩, Within.upper⟩
  | succ i =>
    have hbottom := compareBound_eq hkey (Nat.lt_of_succ_lt hi)
    rw [isPartKeyValuesInPartition, if_neg (Nat.succ_ne_zero i), Nat.add_sub_cancel, hbottom, htop]
    refine ⟨_, rfl, ?_⟩
    rw [Bool.and_eq_true, beq_iff_eq, ← hbefore, bne_iff_ne]
    have hbehind : Behind m true key i ↔ cmp (keyRank key) (keyRank (m.boundary i)) ≠ .lt := by
      rw [Behind, if_pos rfl, hbottom]
      cases cmp (keyRank key) (keyRank (m.boundary i)) <;> decide
    rw [← hbehind]
    refine ⟨fun h => ⟨fun j hj => ?_, h.2⟩, fun h => ⟨h.lower i rfl, h.upper⟩⟩
    cases hj
    exact h.1

lemma length_tuplePartKeyValues {V : Type} (partitionKey : List Nat) (tuple : Tuple V) :
    (tuplePartKeyValues partitionKey tuple).length = partitionKey.length := List.length_map _

/-- A tuple is located in the partition that its key lies in. -/
lemma checkTupleIsInRangePartition_within (m : RangePartitionMap V) (i : Nat) (tuple : Tuple V) :
    ∃ b, checkTupleIsInRangePartition m i tuple = .ok b ∧
      (b = true ↔ i < m.rangeElements.length ∧ Within m true (tuplePartKeyValues m.partitionKey tuple) i) := by
  rw [checkTupleIsInRangePartition]
  by_cases hi : i < m.rangeElements.length
  · obtain ⟨b, hb, hwithin⟩ := isPartKeyValuesInPartition_within (length_tuplePartKeyValues m.partitionKey tuple) hi
    rw [if_neg (not_le.2 hi)]
    exact ⟨b, hb, hwithin.trans (iff_and_self.2 fun _ => hi)⟩
  · rw [if_pos (not_lt.1 hi)]
    exact ⟨false, rfl, iff_of_false Bool.false_ne_true fun h => hi h.1⟩

/-- The key lies in an interval partition, by the bound of the partition before, and below its own lower bound. -/
def InGap (lowValue : Nat → V → Interval → Except ErrorData V) (m : RangePartitionMap V) (key : List (Const V))
    (partSeq : Nat) : Prop :=
  ∃ e, m.rangeElements[partSeq]? = some e ∧ e.isInterval = true ∧ Within m true key partSeq ∧
    ValueSatisfyLowBoudary lowValue key e m.intervalValue true = .ok false

lemma InGap.within {partSeq : Nat} (h : InGap lowValue m key partSeq) :
    partSeq < m.rangeElements.length ∧ Within m true key partSeq := by
  obtain ⟨e, he, -, hwithin, -⟩ := h
  exact ⟨(List.getElem?_eq_some_iff.1 he).1, hwithin⟩

lemma routesTo_of_partSeq (h : r.partSeq = i) (partSeq : Nat) : RoutesTo r partSeq ↔ partSeq = i := by
  rw [RoutesTo, PartitionLogicalExist, h]
  exact ⟨fun hroute => (Int.ofNat.inj hroute.2).symm, fun heq => ⟨Int.natCast_nonneg i, congrArg Int.ofNat heq.symm⟩⟩

lemma not_routesTo (h : r.partSeq = -1) (partSeq : Nat) : ¬RoutesTo r partSeq := by
  rw [RoutesTo, PartitionLogicalExist, h]
  exact fun hroute => absurd hroute.1 (by decide)

/-- A key is routed to the partition that it lies in, unless it is in the gap below it. -/
lemma RangeOutcome.routesTo_iff (h : RangeOutcome lowValue m key r) (partSeq : Nat) :
    RoutesTo r partSeq ↔
      (partSeq < m.rangeElements.length ∧ Within m true key partSeq) ∧ ¬InGap lowValue m key partSeq := by
  cases h with
  | routed i e he hwithin hlow hseq =>
    have hi := (List.getElem?_eq_some_iff.1 he).1
    rw [routesTo_of_partSeq hseq]
    constructor
    · rintro rfl
      refine ⟨⟨hi, (hwithin partSeq hi).2 rfl⟩, ?_⟩
      rintro ⟨e', he', hint, -, hnot⟩
      cases he.symm.trans he'
      cases (hlow hint).symm.trans hnot
    · rintro ⟨⟨hlt, hw⟩, -⟩
      exact (hwithin partSeq hlt).1 hw
  | gap i e he hwithin hint hlow hseq =>
    refine iff_of_false (not_routesTo hseq partSeq) ?_
    rintro ⟨⟨hlt, hw⟩, hnot⟩
    cases (hwithin partSeq hlt).1 hw
    exact hnot ⟨e, he, hint, hw, hlow⟩
  | miss hnone hseq =>
    refine iff_of_false (not_routesTo hseq partSeq) ?_
    rintro ⟨⟨hlt, hw⟩, -⟩
    exact hnone partSeq hlt hw

/-- In a range or an interval map a tuple is located where its key is routed to, unless the key is in a gap. -/
lemma located_iff_routesTo_range {tuple : Tuple V}
    (h : RangeOutcome lowValue m (tuplePartKeyValues m.partitionKey tuple) r) (partSeq : Nat) :
    (checkTupleIsInRangePartition m partSeq tuple = .ok true ↔ RoutesTo r partSeq) ↔
      ¬InGap lowValue m (tuplePartKeyValues m.partitionKey tuple) partSeq := by
  obtain ⟨b, hb, hlocated⟩ := checkTupleIsInRangePartition_within m partSeq tuple
  have hiff : checkTupleIsInRangePartition m partSeq tuple = .ok true ↔ b = true := by
    rw [hb]
    exact ⟨Except.ok.inj, congrArg Except.ok⟩
  rw [hiff, hlocated, h.routesTo_iff, iff_self_and]
  exact ⟨fun hnot hgap => hnot hgap.within hgap, fun hnot _ => hnot⟩

lemma ListPartitionMap.oid_eq_iff (m : ListPartitionMap V) {e : ListPartElement V} (he : m.listElements[i]? = some e)
    {j : Nat} : m.listElements[j]?.map ListPartElement.partitionOid = some e.partitionOid ↔ j = i := by
  have hi : (m.listElements.map ListPartElement.partitionOid)[i]? = some e.partitionOid := by
    rw [List.getElem?_map, he]
    rfl
  rw [← List.getElem?_map, ← hi]
  constructor
  · intro h
    have hlt := (List.getElem?_eq_some_iff.1 hi).1
    exact ((List.getElem?_inj hlt m.oid_nodup).1 h.symm).symm
  · rintro rfl
    rfl

lemma getListPartitionOid_cases (m : ListPartitionMap V) (key : List (Const V)) :
    (∃ (i : Nat) (e : ListPartElement V), m.listElements[i]? = some e ∧
        getListPartitionOid m key true = (e.partitionOid, (i : Int))) ∨
      getListPartitionOid m key true = (InvalidOid, -1) := by
  have hrouted := getListPartitionOid_routed m key true
  generalize getListPartitionOid m key true = a at hrouted
  cases hrouted with
  | listed i e he _ _ => exact .inl ⟨i, e, he, rfl⟩
  | default i e _ he _ _ => exact .inl ⟨i, e, he, rfl⟩
  | miss _ _ => exact .inr rfl

/-- A tuple whose key has a partition is located there and nowhere else. -/
lemma checkTupleIsInListPartition_hit {m : ListPartitionMap V} {tuple : Tuple V} {e : ListPartElement V}
    (he : m.listElements[i]? = some e)
    (h : getListPartitionOid m (tuplePartKeyValues m.partitionKey tuple) true = (e.partitionOid, (i : Int)))
    (partSeq : Nat) : ∃ b, checkTupleIsInListPartition m partSeq tuple = .ok b ∧ (b = true ↔ partSeq = i) := by
  rw [checkTupleIsInListPartition]
  by_cases hlt : partSeq < m.listElements.length
  · rw [if_neg (not_le.2 hlt), isPartKeyValuesInListPartition, h]
    dsimp only
    rw [if_neg (not_lt.2 (Int.natCast_nonneg i))]
    refine ⟨_, rfl, ?_⟩
    rw [beq_iff_eq, m.oid_eq_iff he]
  · rw [if_pos (not_lt.1 hlt)]
    refine ⟨false, rfl, iff_of_false Bool.false_ne_true ?_⟩
    rintro rfl
    exact hlt (List.getElem?_eq_some_iff.1 he).1

/-- For a tuple whose key has no partition the check raises an error. -/
lemma checkTupleIsInListPartition_miss {m : ListPartitionMap V} {tuple : Tuple V}
    (h : getListPartitionOid m (tuplePartKeyValues m.partitionKey tuple) true = (InvalidOid, -1)) (partSeq : Nat) :
    checkTupleIsInListPartition m partSeq tuple =
      if partSeq < m.listElements.length then
        .error ⟨.invalidParameterValue, "Can't find list partition oid when checking tuple is in the partition."⟩
      else .ok false := by
  rw [checkTupleIsInListPartition, isPartKeyValuesInListPartition, h]
  by_cases hlt : partSeq < m.listElements.length
  · rw [if_neg (not_le.2 hlt), if_pos hlt]
    rfl
  · rw [if_pos (not_lt.1 hlt), if_neg hlt]

/-- In a list map a tuple is located where its key is routed to. -/
lemma located_iff_routesTo_list {m : ListPartitionMap V} {tuple : Tuple V}
    (h : partitionRoutingForValue lowValue (.list m) (tuplePartKeyValues m.partitionKey tuple) true = .ok r)
    (partSeq : Nat) : checkTupleIsInListPartition m partSeq tuple = .ok true ↔ RoutesTo r partSeq := by
  rw [partitionRoutingForValue] at h
  rcases getListPartitionOid_cases m (tuplePartKeyValues m.partitionKey tuple) with ⟨i, e, he, hget⟩ | hget
  · rw [hget] at h
    cases h
    obtain ⟨b, hb, hiff⟩ := checkTupleIsInListPartition_hit he hget partSeq
    rw [hb, routesTo_of_partSeq rfl, ← hiff]
    exact ⟨Except.ok.inj, congrArg Except.ok⟩
  · rw [hget] at h
    cases h
    refine iff_of_false ?_ (not_routesTo rfl partSeq)
    rw [checkTupleIsInListPartition_miss hget]
    split <;> exact fun h => nomatch h

/-- The check of a tuple raises an error in a list map, for a key that is routed nowhere. -/
lemma list_error_iff {m : ListPartitionMap V} {tuple : Tuple V}
    (h : partitionRoutingForValue lowValue (.list m) (tuplePartKeyValues m.partitionKey tuple) true = .ok r)
    (partSeq : Nat) : (∃ e, checkTupleIsInListPartition m partSeq tuple = .error e) ↔
      partSeq < m.listElements.length ∧ ¬PartitionLogicalExist r := by
  rw [partitionRoutingForValue] at h
  rcases getListPartitionOid_cases m (tuplePartKeyValues m.partitionKey tuple) with ⟨i, e, he, hget⟩ | hget
  · rw [hget] at h
    cases h
    obtain ⟨b, hb, -⟩ := checkTupleIsInListPartition_hit he hget partSeq
    rw [hb]
    exact iff_of_false (fun ⟨e, he⟩ => nomatch he) fun hand => hand.2 (Int.natCast_nonneg i)
  · rw [hget] at h
    cases h
    have hmiss : ¬PartitionLogicalExist ⟨.list, InvalidOid, !decide ((-1 : Int) < 0), -1⟩ :=
      (by decide : ¬(0 : Int) ≤ -1)
    rw [checkTupleIsInListPartition_miss hget]
    by_cases hlt : partSeq < m.listElements.length
    · rw [if_pos hlt]
      exact iff_of_true ⟨_, rfl⟩ ⟨hlt, hmiss⟩
    · rw [if_neg hlt]
      exact iff_of_false (fun ⟨e, he⟩ => nomatch he) fun hand => hlt hand.1

end

/-! ## Routing and locating -/

/-- The key is in the gap below an interval partition of a range or an interval map. -/
def PartitionMap.InGap (lowValue : Nat → V → Interval → Except ErrorData V) (map : PartitionMap V) (tuple : Tuple V)
    (partSeq : Int) : Prop :=
  match map with
  | .range partMap | .interval partMap =>
    0 ≤ partSeq ∧ Partition.InGap lowValue partMap (tuplePartKeyValues partMap.partitionKey tuple) partSeq.toNat
  | .list _ => False

/-- The check raises an error: the map is a list map, and the key is routed nowhere. -/
def PartitionMap.NoPartition (map : PartitionMap V) (r : PartitionIdentifier) (partSeq : Int) : Prop :=
  match map with
  | .range _ | .interval _ => False
  | .list partMap => 0 ≤ partSeq ∧ partSeq.toNat < partMap.listElements.length ∧ ¬PartitionLogicalExist r

section

variable {lowValue : Nat → V → Interval → Except ErrorData V} {map : PartitionMap V} {tuple : Tuple V} {partSeq : Int}
  {r : PartitionIdentifier}

lemma PartitionMap.InGap.nonneg (h : map.InGap lowValue tuple partSeq) : 0 ≤ partSeq := by
  cases map with
  | range m => exact h.1
  | interval m => exact h.1
  | list m => exact h.elim

lemma PartitionMap.NoPartition.nonneg (h : map.NoPartition r partSeq) : 0 ≤ partSeq := by
  cases map with
  | range m => exact h.elim
  | interval m => exact h.elim
  | list m => exact h.1

/-- In a range or an interval map the check never raises an error. -/
lemma located_range {m : RangePartitionMap V} {partArea : PartArea}
    (h : rangeRouting lowValue m partArea (tuplePartKeyValues m.partitionKey tuple) true = .ok r) (i : Nat) :
    ((checkTupleIsInRangePartition m i tuple = .ok true ↔ RoutesTo r i) ↔
      ¬(0 ≤ (i : Int) ∧ InGap lowValue m (tuplePartKeyValues m.partitionKey tuple) i)) ∧
    ((∃ e, checkTupleIsInRangePartition m i tuple = .error e) ↔ False) := by
  have houtcome := rangeRouting_outcome (length_tuplePartKeyValues m.partitionKey tuple) h
  obtain ⟨b, hb, -⟩ := checkTupleIsInRangePartition_within m i tuple
  rw [and_iff_right (Int.natCast_nonneg i)]
  refine ⟨located_iff_routesTo_range houtcome i, ?_⟩
  rw [hb]
  exact iff_of_false (fun ⟨e, he⟩ => nomatch he) id

end

/-- A tuple is located in a partition exactly when its key is routed there, unless the key is in the gap below the
partition. -/
lemma located_iff_routesTo (lowValue : Nat → V → Interval → Except ErrorData V) (map : PartitionMap V)
    (partSeq : Int) (tuple : Tuple V) {r : PartitionIdentifier}
    (h : partitionRoutingForValue lowValue map (map.tupleKey tuple) true = .ok r) :
    ((isTupleLocatePartition map partSeq tuple = .ok true ↔ RoutesTo r partSeq) ↔ ¬map.InGap lowValue tuple partSeq) ∧
      ((∃ e, isTupleLocatePartition map partSeq tuple = .error e) ↔ map.NoPartition r partSeq) := by
  rw [isTupleLocatePartition.eq_def]
  rcases lt_or_ge partSeq 0 with hneg | hpos
  · -- no partition has a negative number
    have hroute : ¬RoutesTo r partSeq := fun hroute => absurd (hroute.2 ▸ hroute.1 : 0 ≤ partSeq) (not_le.2 hneg)
    have hgap : ¬map.InGap lowValue tuple partSeq := fun hgap => absurd hgap.nonneg (not_le.2 hneg)
    have hnone : ¬map.NoPartition r partSeq := fun hno => absurd hno.nonneg (not_le.2 hneg)
    rw [if_pos hneg]
    exact ⟨iff_of_true (iff_of_false (fun h => nomatch h) hroute) hgap, iff_of_false (fun ⟨e, he⟩ => nomatch he) hnone⟩
  · rw [if_neg (not_lt.2 hpos)]
    obtain ⟨i, rfl⟩ := Int.eq_ofNat_of_zero_le hpos
    rw [Int.toNat_natCast]
    cases map with
    | range m => exact located_range h i
    | interval m => exact located_range h i
    | list m =>
      refine ⟨iff_of_true (located_iff_routesTo_list h i) id, ?_⟩
      exact (list_error_iff h i).trans (and_iff_right hpos).symm

/-- A range or an interval map routes a key to the one partition whose bounds enclose it, a list map to the one that
lists it, else to the default partition, and a tuple is located where it is routed to, except in the gap below an
interval partition. -/
theorem partition_routing_iff (lowValue : Nat → V → Interval → Except ErrorData V) :
    (∀ (m : RangePartitionMap V) (key : List (Const V)) (topClosed : Bool), key.length = m.partitionKey.length →
      ∃ r, getRangePartitionOid m key topClosed = .ok r ∧ RangeRouted m topClosed key r) ∧
    (∀ (m : ListPartitionMap V) (key : List (Const V)) (topClosed : Bool),
      ListRouted m key (getListPartitionOid m key topClosed)) ∧
    ∀ (map : PartitionMap V) (partSeq : Int) (tuple : Tuple V) (r : PartitionIdentifier),
      partitionRoutingForValue lowValue map (map.tupleKey tuple) true = .ok r →
        ((isTupleLocatePartition map partSeq tuple = .ok true ↔ RoutesTo r partSeq) ↔
          ¬map.InGap lowValue tuple partSeq) ∧
        ((∃ e, isTupleLocatePartition map partSeq tuple = .error e) ↔ map.NoPartition r partSeq) :=
  ⟨fun m _ topClosed hkey => getRangePartitionOid_routed m hkey topClosed, getListPartitionOid_routed,
    fun map partSeq tuple _ h => located_iff_routesTo lowValue map partSeq tuple h⟩

end

/-- A table with an interval of one month: the partition below the first of February 2024, and the interval partition
of a row of June, whose upper bound is the first of July. -/
def monthly : RangePartitionMap Int where
  partitionKey := [1]
  rangeElements :=
    [⟨16386, [⟨DATEOID, false, false, 8797⟩], false⟩, ⟨16387, [⟨DATEOID, false, false, 8948⟩], true⟩]
  intervalValue := ⟨0, 0, 1⟩
  key_pos := by decide
  key_le := by decide
  elements_pos := by decide
  boundary_length := by decide
  boundary_not_null := by decide
  increasing := by decide
  interval_value := by decide

/-- A row of the tenth of April. -/
def april : Tuple Int where
  atttypid := fun _ => DATEOID
  getattr := fun _ => (8866, false)

lemma april_routing :
    partitionRoutingForValue dateTimeLowValue (.interval monthly) ((PartitionMap.interval monthly).tupleKey april)
      true = .ok ⟨.interval, InvalidOid, false, -1⟩ := by
  decide +kernel

theorem partition_routing_iff_monthly :
    [(⟨DATEOID, false, false, 8866⟩ : Const Int)].length = monthly.partitionKey.length ∧
      (∃ r, getRangePartitionOid monthly [⟨DATEOID, false, false, 8866⟩] true = .ok r ∧
        RangeRouted monthly true [⟨DATEOID, false, false, 8866⟩] r) ∧
      ((isTupleLocatePartition (.interval monthly) 1 april = .ok true ↔
          RoutesTo ⟨.interval, InvalidOid, false, -1⟩ 1) ↔
        ¬(PartitionMap.interval monthly).InGap dateTimeLowValue april 1) :=
  ⟨rfl, (partition_routing_iff dateTimeLowValue).1 monthly _ true rfl,
    ((partition_routing_iff dateTimeLowValue).2.2 (.interval monthly) 1 april _ april_routing).1⟩

/-- The row of April is located in the partition of July's upper bound, and it is routed nowhere. -/
theorem not_partition_routing :
    ¬∀ (map : PartitionMap Int) (partSeq : Int) (tuple : Tuple Int) (r : PartitionIdentifier),
      partitionRoutingForValue dateTimeLowValue map (map.tupleKey tuple) true = .ok r →
        (isTupleLocatePartition map partSeq tuple = .ok true ↔ RoutesTo r partSeq) := by
  intro h
  have hlocated : isTupleLocatePartition (.interval monthly) 1 april = .ok true := by decide
  have hroute := (h (.interval monthly) 1 april _ april_routing).1 hlocated
  exact absurd hroute.2 (by decide)

end GaussKernel.Partition
