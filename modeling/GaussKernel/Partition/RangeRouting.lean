import GaussKernel.Partition.PartitionMap

/-!
# Routing in a range map

`getRangePartitionOid` compares the key with the last upper bound and then halves the list (`partitionmap.cpp`). The
bounds left of the segment that is searched are below the key, and the last bound of the segment is above it
(`semiSeek_within`). So the search finds the one partition that the key lies in (`getRangePartitionOid_routed`).
-/

namespace GaussKernel.Partition

variable {V : Type} [LinearOrder V]

/-- The comparison of a key with the upper bound of a partition. -/
def compareBound (m : RangePartitionMap V) (key : List (Const V)) (i : Nat) : Except ErrorData Ordering :=
  partitonKeyCompareForRouting (key.map some) ((m.boundary i).map some)

/-- The search between two partitions: the key lies behind the ones before `min_part_id`, and not behind
`max_part_id`. -/
def semiSeek (m : RangePartitionMap V) (key : List (Const V)) (topClosed : Bool) (min_part_id max_part_id : Nat) :
    Except ErrorData Nat :=
  if max_part_id > min_part_id then
    let local_part_id := (max_part_id + min_part_id) / 2
    match compareBound m key local_part_id with
    | .error e => .error e
    | .ok .eq => .ok (if topClosed then local_part_id + 1 else local_part_id)
    | .ok .gt => semiSeek m key topClosed (local_part_id + 1) max_part_id
    | .ok .lt => semiSeek m key topClosed min_part_id local_part_id
  else .ok max_part_id
termination_by max_part_id - min_part_id

namespace RangePartitionMap

/-- The object id of a partition, and `InvalidOid` for no partition. -/
def partitionOid (m : RangePartitionMap V) (hit : Int) : Nat :=
  if 0 ≤ hit then (m.rangeElements[hit.toNat]?.map RangeElement.partitionOid).getD InvalidOid else InvalidOid

end RangePartitionMap

/-- The object id and the sequence number of the partition that a key is routed to; the number is `-1` for none. -/
def getRangePartitionOid (m : RangePartitionMap V) (key : List (Const V)) (topClosed : Bool) :
    Except ErrorData (Nat × Int) :=
  let max_part_id := m.rangeElements.length - 1
  match compareBound m key max_part_id with
  | .error e => .error e
  | .ok .eq =>
    let hit : Int := if topClosed then -1 else max_part_id
    .ok (m.partitionOid hit, hit)
  | .ok .gt => .ok (InvalidOid, -1)
  | .ok .lt =>
    match semiSeek m key topClosed 0 max_part_id with
    | .error e => .error e
    | .ok hit => .ok (m.partitionOid hit, hit)

/-! ## The partition of a key -/

/-- The upper bound of a partition is below the key, or equal to it when bounds belong to the next partition. -/
def Behind (m : RangePartitionMap V) (topClosed : Bool) (key : List (Const V)) (i : Nat) : Prop :=
  if topClosed then compareBound m key i = .ok .gt ∨ compareBound m key i = .ok .eq else compareBound m key i = .ok .gt

/-- The upper bound of a partition is above the key, or equal to it when bounds belong to their partition. -/
def Before (m : RangePartitionMap V) (topClosed : Bool) (key : List (Const V)) (i : Nat) : Prop :=
  if topClosed then compareBound m key i = .ok .lt else compareBound m key i = .ok .lt ∨ compareBound m key i = .ok .eq

/-- The key lies between the upper bounds of the partition before `i` and of the partition `i`. -/
structure Within (m : RangePartitionMap V) (topClosed : Bool) (key : List (Const V)) (i : Nat) : Prop where
  lower : ∀ j, j + 1 = i → Behind m topClosed key j
  upper : Before m topClosed key i

/-- The answer of the routing: the one partition that the key lies in, or none. -/
inductive RangeRouted (m : RangePartitionMap V) (topClosed : Bool) (key : List (Const V)) : Nat × Int → Prop where
  | hit (i : Nat) (e : RangeElement V) :
    m.rangeElements[i]? = some e → (∀ j, j < m.rangeElements.length → (Within m topClosed key j ↔ j = i)) →
      RangeRouted m topClosed key (e.partitionOid, i)
  | miss : (∀ j, j < m.rangeElements.length → ¬Within m topClosed key j) → RangeRouted m topClosed key (InvalidOid, -1)

section

variable {m : RangePartitionMap V} {key : List (Const V)} {topClosed : Bool} {i j : Nat}

section

variable (hkey : key.length = m.partitionKey.length)
include hkey

lemma compareBound_eq (h : i < m.rangeElements.length) :
    compareBound m key i = .ok (cmp (keyRank key) (keyRank (m.boundary i))) := m.compare_boundary h hkey

/-- A key is behind a partition or before its upper end, and not both. -/
lemma before_iff_not_behind (h : i < m.rangeElements.length) :
    Before m topClosed key i ↔ ¬Behind m topClosed key i := by
  rw [Before, Behind, compareBound_eq hkey h]
  cases cmp (keyRank key) (keyRank (m.boundary i)) <;> cases topClosed <;> decide

lemma behind_of_lt (h : i < m.rangeElements.length) (hlt : keyRank (m.boundary i) < keyRank key) :
    Behind m topClosed key i := by
  rw [Behind, compareBound_eq hkey h, hlt.cmp_eq_gt]
  cases topClosed <;> decide

/-- A key that is behind a partition is behind the ones before it. -/
lemma Behind.of_le (hj : j < m.rangeElements.length) (h : Behind m topClosed key j) (hij : i ≤ j) :
    Behind m topClosed key i := by
  rcases hij.eq_or_lt with rfl | hlt
  · exact h
  · have hrank := m.boundaryRank_lt hlt hj
    have hle : keyRank (m.boundary j) ≤ keyRank key := by
      by_contra hnot
      rw [Behind, compareBound_eq hkey hj, (not_le.1 hnot).cmp_eq_lt] at h
      cases topClosed <;> revert h <;> decide
    exact behind_of_lt hkey (hlt.trans hj) (hrank.trans_le hle)

/-- A key lies in one partition at most. -/
lemma Within.unique (hi : i < m.rangeElements.length) (hj : j < m.rangeElements.length) (h : Within m topClosed key i)
    (h' : Within m topClosed key j) : i = j := by
  have hnot : ∀ {i j : Nat}, i < m.rangeElements.length → j < m.rangeElements.length → Within m topClosed key i →
      Within m topClosed key j → ¬i < j := by
    intro i j hi hj h h' hlt
    obtain ⟨k, rfl⟩ : ∃ k, k + 1 = j := ⟨j - 1, Nat.succ_pred_eq_of_pos (Nat.zero_lt_of_lt hlt)⟩
    have hk := (h'.lower k rfl).of_le hkey (Nat.lt_of_succ_lt hj) (Nat.le_of_lt_succ hlt)
    exact (before_iff_not_behind hkey hi).1 h.upper hk
  exact Nat.le_antisymm (not_lt.1 (hnot hj hi h' h)) (not_lt.1 (hnot hi hj h h'))

/-- The partition at whose upper bound the key lies, or the next one. -/
lemma within_of_eq (hi : (if topClosed then i + 1 else i) < m.rangeElements.length)
    (h : keyRank key = keyRank (m.boundary i)) : Within m topClosed key (if topClosed then i + 1 else i) := by
  cases topClosed with
  | true =>
    have hlt := m.boundaryRank_lt (Nat.lt_succ_self i) hi
    refine ⟨?_, ?_⟩
    · intro j hj
      cases hj
      exact .inr ((compareBound_eq hkey (Nat.lt_of_succ_lt hi)).trans (congrArg Except.ok h.cmp_eq_eq))
    · rw [← h] at hlt
      exact (compareBound_eq hkey hi).trans (congrArg Except.ok hlt.cmp_eq_lt)
  | false =>
    refine ⟨?_, ?_⟩
    · rintro j rfl
      have hlt := m.boundaryRank_lt (Nat.lt_succ_self j) hi
      rw [← h] at hlt
      exact behind_of_lt hkey (Nat.lt_of_succ_lt hi) hlt
    · exact .inr ((compareBound_eq hkey hi).trans (congrArg Except.ok h.cmp_eq_eq))

end

/-- The search keeps the key behind the partitions before its segment, and before the last bound of the segment. -/
lemma semiSeek_within (topClosed : Bool) (hkey : key.length = m.partitionKey.length) {min_part_id max_part_id : Nat}
    (hle : min_part_id ≤ max_part_id) (hmax : max_part_id < m.rangeElements.length)
    (hlow : ∀ j, j + 1 = min_part_id → keyRank (m.boundary j) < keyRank key)
    (hup : keyRank key < keyRank (m.boundary max_part_id)) :
    ∃ hit, semiSeek m key topClosed min_part_id max_part_id = .ok hit ∧ hit < m.rangeElements.length ∧
      Within m topClosed key hit := by
  fun_induction semiSeek m key topClosed min_part_id max_part_id with
  | case1 min_part_id max_part_id hlt mid e herr =>
    have hmid : mid < m.rangeElements.length := lt_trans (by omega) hmax
    rw [compareBound_eq hkey hmid] at herr
    cases herr
  | case2 min_part_id max_part_id hlt mid heq =>
    have hmid : mid < max_part_id := by omega
    have hhit : (if topClosed then mid + 1 else mid) < m.rangeElements.length := by
      cases topClosed with
      | true => exact lt_of_le_of_lt hmid hmax
      | false => exact hmid.trans hmax
    rw [compareBound_eq hkey (hmid.trans hmax)] at heq
    exact ⟨_, rfl, hhit, within_of_eq hkey hhit ((cmp_eq_eq_iff _ _).1 (Except.ok.inj heq))⟩
  | case3 min_part_id max_part_id hlt mid hgt ih =>
    have hmid : mid < max_part_id := by omega
    rw [compareBound_eq hkey (hmid.trans hmax)] at hgt
    have hbehind := (cmp_eq_gt_iff _ _).1 (Except.ok.inj hgt)
    refine ih hmid hmax ?_ hup
    intro j hj
    cases hj
    exact hbehind
  | case4 min_part_id max_part_id hlt mid hlt' ih =>
    have hmid : mid < m.rangeElements.length := lt_trans (by omega) hmax
    rw [compareBound_eq hkey hmid] at hlt'
    exact ih (by omega) hmid hlow ((cmp_eq_lt_iff _ _).1 (Except.ok.inj hlt'))
  | case5 min_part_id max_part_id hnot =>
    have heq : min_part_id = max_part_id := Nat.le_antisymm hle (not_lt.1 hnot)
    subst heq
    refine ⟨min_part_id, rfl, hmax, ?_, ?_⟩
    · intro j hj
      exact behind_of_lt hkey (lt_of_le_of_lt (Nat.le_of_lt (Nat.lt_of_succ_le hj.le)) hmax) (hlow j hj)
    · rw [Before, compareBound_eq hkey hmax, hup.cmp_eq_lt]
      cases topClosed <;> decide

lemma RangePartitionMap.partitionOid_eq {e : RangeElement V} (h : m.rangeElements[i]? = some e) :
    m.partitionOid i = e.partitionOid := by
  rw [RangePartitionMap.partitionOid, if_pos (Int.natCast_nonneg i), Int.toNat_natCast, h]
  rfl

lemma routed_of_within (hkey : key.length = m.partitionKey.length) (hi : i < m.rangeElements.length)
    (h : Within m topClosed key i) : RangeRouted m topClosed key (m.partitionOid i, i) := by
  have he := List.getElem?_eq_getElem hi
  rw [m.partitionOid_eq he]
  refine .hit i _ he fun j hj => ⟨fun hw => hw.unique hkey hj hi h, ?_⟩
  rintro rfl
  exact h

/-- A key at or above the last bound, where that bound belongs to no partition, is in none. -/
lemma routed_of_behind (hkey : key.length = m.partitionKey.length)
    (h : Behind m topClosed key (m.rangeElements.length - 1)) : RangeRouted m topClosed key (InvalidOid, -1) := by
  have hlast : m.rangeElements.length - 1 < m.rangeElements.length := Nat.sub_lt m.elements_pos Nat.one_pos
  refine .miss fun j hj hw => ?_
  have hbehind := h.of_le hkey hlast (Nat.le_sub_one_of_lt hj)
  exact (before_iff_not_behind hkey hj).1 hw.upper hbehind

/-- The routing finds the one partition that the key lies in, or none. -/
lemma getRangePartitionOid_routed (m : RangePartitionMap V) {key : List (Const V)}
    (hkey : key.length = m.partitionKey.length) (topClosed : Bool) :
    ∃ r, getRangePartitionOid m key topClosed = .ok r ∧ RangeRouted m topClosed key r := by
  have hlast : m.rangeElements.length - 1 < m.rangeElements.length := Nat.sub_lt m.elements_pos Nat.one_pos
  have hcmp := compareBound_eq hkey hlast
  cases hc : cmp (keyRank key) (keyRank (m.boundary (m.rangeElements.length - 1))) with
  | eq =>
    rw [hc] at hcmp
    rw [getRangePartitionOid, hcmp]
    cases topClosed with
    | true => exact ⟨_, rfl, routed_of_behind hkey (.inr hcmp)⟩
    | false => exact ⟨_, rfl, routed_of_within hkey hlast (within_of_eq hkey hlast ((cmp_eq_eq_iff _ _).1 hc))⟩
  | gt =>
    rw [getRangePartitionOid, hcmp, hc]
    exact ⟨_, rfl, routed_of_behind hkey (behind_of_lt hkey hlast ((cmp_eq_gt_iff _ _).1 hc))⟩
  | lt =>
    have hup := (cmp_eq_lt_iff _ _).1 hc
    obtain ⟨hit, hseek, hhit, hw⟩ := semiSeek_within topClosed hkey (Nat.zero_le _) hlast
      (fun j hj => nomatch hj) hup
    rw [getRangePartitionOid, hcmp, hc]
    dsimp only
    rw [hseek]
    exact ⟨_, rfl, routed_of_within hkey hhit hw⟩

end

end GaussKernel.Partition
