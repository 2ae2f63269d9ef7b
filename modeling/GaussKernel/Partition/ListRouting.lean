import GaussKernel.Partition.PartitionMap
import Mathlib.Data.List.Nodup

/-!
# Routing in a list map

`getListPartitionOid` compares the key with the listed keys of every partition until one is equal, and remembers the
default partition on its way (`partitionmap.cpp`). `ListPartKeyCompare` answers zero for keys with the same columns,
where two NULLs are the same (`listPartKeyCompare_eq_iff`), so a map whose listed keys are pairwise different lists a
key in one partition at most.
-/

namespace GaussKernel.Partition

section

variable {V : Type} [LinearOrder V]

def ConstCompareWithNull (c1 c2 : Const V) : Ordering :=
  if c1.constisnull && c2.constisnull then .eq
  else if c1.constisnull || c2.constisnull then (if c1.constisnull then .lt else .gt)
  else constCompare c1 c2

/-- The loop of `ListPartKeyCompare`: the first column that differs decides. -/
def listColumnsCompare : List (Const V) → List (Const V) → Ordering
  | c1 :: k1, c2 :: k2 =>
    match ConstCompareWithNull c1 c2 with
    | .eq => listColumnsCompare k1 k2
    | res => res
  | _, _ => .eq

/-- The first value of the key is MAXVALUE. -/
def maxKey {V : Type} (k : List (Const V)) : Bool := (k.head?.map Const.ismaxvalue).getD false

def ListPartKeyCompare (k1 k2 : List (Const V)) : Ordering :=
  if k1.length ≠ k2.length then (if k1.length < k2.length then .gt else .lt)
  else if maxKey k1 || maxKey k2 then
    if maxKey k1 && maxKey k2 then .eq else (if maxKey k1 then .gt else .lt)
  else listColumnsCompare k1 k2

namespace ListPartElement

/-- The partition lists the one key `DEFAULT`. -/
def isDefault {V : Type} (e : ListPartElement V) : Bool :=
  match e.boundary with
  | [k] => maxKey k
  | _ => false

/-- The loop over the listed keys of a partition. -/
def hits (e : ListPartElement V) (key : List (Const V)) : Bool :=
  e.boundary.any fun k => ListPartKeyCompare key k == .eq

end ListPartElement

end

/-- The partitions of a list partitioned table. -/
structure ListPartitionMap (V : Type) [LinearOrder V] where
  /-- The column numbers of the key. -/
  partitionKey : List Nat
  listElements : List (ListPartElement V)
  oid_nodup : (listElements.map ListPartElement.partitionOid).Nodup
  /-- `DEFAULT` is stored as a key of one value. -/
  default_length : ∀ e ∈ listElements, ∀ k ∈ e.boundary, maxKey k = true → k.length = 1
  /-- No two partitions list the same key. -/
  distinct : listElements.Pairwise fun e e' => ∀ k ∈ e.boundary, ∀ k' ∈ e'.boundary, ListPartKeyCompare k k' ≠ .eq

variable {V : Type} [LinearOrder V]

/-- The loop of `getListPartitionOid` from partition `i` on: the partition that was hit, and the last default partition
on the way to it. -/
def listScan (key : List (Const V)) :
    List (ListPartElement V) → Nat → Option (Nat × Int) → Option (Nat × Int) × Option (Nat × Int)
  | [], _, default => (none, default)
  | e :: elements, i, default =>
    let default := if e.isDefault then some (e.partitionOid, (i : Int)) else default
    if e.hits key then (some (e.partitionOid, i), default) else listScan key elements (i + 1) default

/-- The object id and the sequence number of the partition that a key is routed to; the number is `-1` for none. -/
def getListPartitionOid (m : ListPartitionMap V) (key : List (Const V)) (_topClosed : Bool) : Nat × Int :=
  match listScan key m.listElements 0 none with
  | (some hit, _) => hit
  | (none, some default) => default
  | (none, none) => (InvalidOid, -1)

/-! ## Equal keys -/

def Const.listed (c : Const V) : WithTop V := if c.constisnull then ⊤ else c.constvalue

lemma constCompareWithNull_eq_iff (c1 c2 : Const V) :
    ConstCompareWithNull c1 c2 = .eq ↔ c1.listed = c2.listed := by
  obtain ⟨t1, n1, m1, x1⟩ := c1
  obtain ⟨t2, n2, m2, x2⟩ := c2
  cases n1 <;> cases n2
  · exact (cmp_eq_eq_iff x1 x2).trans WithTop.coe_inj.symm
  · exact iff_of_false (fun h => nomatch h) (WithTop.coe_ne_top)
  · exact iff_of_false (fun h => nomatch h) (WithTop.top_ne_coe)
  · exact iff_of_true rfl rfl

lemma listColumnsCompare_eq_iff {k1 k2 : List (Const V)} (hlen : k1.length = k2.length) :
    listColumnsCompare k1 k2 = .eq ↔ k1.map Const.listed = k2.map Const.listed := by
  induction k1 generalizing k2 with
  | nil =>
    cases k2 with
    | nil => exact iff_of_true rfl rfl
    | cons c2 k2 => cases hlen
  | cons c1 k1 ih =>
    cases k2 with
    | nil => cases hlen
    | cons c2 k2 =>
      have hhead := constCompareWithNull_eq_iff c1 c2
      rw [List.map_cons, List.map_cons, List.cons_eq_cons, ← hhead, ← ih (Nat.succ.inj hlen), listColumnsCompare]
      cases ConstCompareWithNull c1 c2 <;> simp

/-- Equal keys: both are `DEFAULT`, or they have the same columns. -/
def listedKey (k : List (Const V)) : Nat × Option (List (WithTop V)) :=
  (k.length, if maxKey k then none else some (k.map Const.listed))

lemma listPartKeyCompare_eq_iff (k1 k2 : List (Const V)) :
    ListPartKeyCompare k1 k2 = .eq ↔ listedKey k1 = listedKey k2 := by
  rw [ListPartKeyCompare, listedKey, listedKey, Prod.mk.injEq]
  by_cases hlen : k1.length = k2.length
  · rw [if_neg (not_not.2 hlen), and_iff_right hlen]
    cases maxKey k1 <;> cases maxKey k2
    · exact (listColumnsCompare_eq_iff hlen).trans Option.some_inj.symm
    · exact iff_of_false (fun h => nomatch h) (fun h => nomatch h)
    · exact iff_of_false (fun h => nomatch h) (fun h => nomatch h)
    · exact iff_of_true rfl rfl
  · rw [if_pos hlen]
    refine iff_of_false ?_ fun h => hlen h.1
    split <;> exact fun h => nomatch h

/-! ## The partition of a key -/

/-- The partition lists the key. -/
def Lists (e : ListPartElement V) (key : List (Const V)) : Prop := ∃ k ∈ e.boundary, ListPartKeyCompare key k = .eq

/-- The answer of the routing: the one partition that lists the key, else the default partition, else none. -/
inductive ListRouted (m : ListPartitionMap V) (key : List (Const V)) : Nat × Int → Prop where
  | listed (i : Nat) (e : ListPartElement V) :
    m.listElements[i]? = some e → Lists e key →
      (∀ j e', m.listElements[j]? = some e' → Lists e' key → j = i) → ListRouted m key (e.partitionOid, i)
  | default (i : Nat) (e : ListPartElement V) :
    (∀ e ∈ m.listElements, ¬Lists e key) → m.listElements[i]? = some e → e.isDefault = true →
      (∀ j e', m.listElements[j]? = some e' → e'.isDefault = true → j = i) → ListRouted m key (e.partitionOid, i)
  | miss :
    (∀ e ∈ m.listElements, ¬Lists e key) → (∀ e ∈ m.listElements, ¬e.isDefault = true) →
      ListRouted m key (InvalidOid, -1)

section

variable {m : ListPartitionMap V} {key : List (Const V)} {i j : Nat} {e e' : ListPartElement V}

lemma hits_iff : e.hits key = true ↔ Lists e key := by
  simp only [ListPartElement.hits, List.any_eq_true, beq_iff_eq, Lists]

lemma ListPartitionMap.eq_of_same_key (hi : m.listElements[i]? = some e) (hj : m.listElements[j]? = some e')
    {k k' : List (Const V)} (hk : k ∈ e.boundary) (hk' : k' ∈ e'.boundary) (h : listedKey k = listedKey k') :
    i = j := by
  have hnot : ∀ {i j : Nat} {e e' : ListPartElement V} {k k' : List (Const V)}, m.listElements[i]? = some e →
      m.listElements[j]? = some e' → k ∈ e.boundary → k' ∈ e'.boundary → listedKey k = listedKey k' → ¬i < j := by
    intro i j e e' k k' hi hj hk hk' h hlt
    obtain ⟨hil, rfl⟩ := List.getElem?_eq_some_iff.1 hi
    obtain ⟨hjl, rfl⟩ := List.getElem?_eq_some_iff.1 hj
    have hne := List.pairwise_iff_getElem.1 m.distinct i j hil hjl hlt
    exact hne k hk k' hk' ((listPartKeyCompare_eq_iff k k').2 h)
  exact Nat.le_antisymm (not_lt.1 (hnot hj hi hk' hk h.symm)) (not_lt.1 (hnot hi hj hk hk' h))

/-- A key is listed by one partition at most. -/
lemma Lists.unique (hi : m.listElements[i]? = some e) (hj : m.listElements[j]? = some e') (h : Lists e key)
    (h' : Lists e' key) : i = j := by
  obtain ⟨k, hk, heq⟩ := h
  obtain ⟨k', hk', heq'⟩ := h'
  rw [listPartKeyCompare_eq_iff] at heq heq'
  exact m.eq_of_same_key hi hj hk hk' (heq.symm.trans heq')

omit [LinearOrder V] in
lemma isDefault_boundary (h : e.isDefault = true) : ∃ k, e.boundary = [k] ∧ maxKey k = true := by
  rw [ListPartElement.isDefault] at h
  split at h
  · exact ⟨_, ‹_›, h⟩
  · cases h

/-- A map has one default partition at most. -/
lemma isDefault_unique (hi : m.listElements[i]? = some e) (hj : m.listElements[j]? = some e')
    (h : e.isDefault = true) (h' : e'.isDefault = true) : i = j := by
  obtain ⟨k, hk, hmax⟩ := isDefault_boundary h
  obtain ⟨k', hk', hmax'⟩ := isDefault_boundary h'
  have hmem : k ∈ e.boundary := hk ▸ List.mem_singleton_self k
  have hmem' : k' ∈ e'.boundary := hk' ▸ List.mem_singleton_self k'
  apply m.eq_of_same_key hi hj hmem hmem'
  rw [listedKey, listedKey, hmax, hmax', m.default_length e (List.mem_of_getElem? hi) k hmem hmax,
    m.default_length e' (List.mem_of_getElem? hj) k' hmem' hmax']
  rfl

/-- What the scan of `elements` from partition `i` on returns. -/
inductive Scanned (key : List (Const V)) (elements : List (ListPartElement V)) (i : Nat) (dflt : Option (Nat × Int)) :
    Option (Nat × Int) × Option (Nat × Int) → Prop where
  | hit (j : Nat) (e : ListPartElement V) (dflt' : Option (Nat × Int)) :
    elements[j]? = some e → Lists e key →
      Scanned key elements i dflt (some (e.partitionOid, ((i + j : Nat) : Int)), dflt')
  | default (j : Nat) (e : ListPartElement V) :
    (∀ e ∈ elements, ¬Lists e key) → elements[j]? = some e → e.isDefault = true →
      Scanned key elements i dflt (none, some (e.partitionOid, ((i + j : Nat) : Int)))
  | miss :
    (∀ e ∈ elements, ¬Lists e key) → (∀ e ∈ elements, ¬e.isDefault = true) → Scanned key elements i dflt (none, dflt)

lemma listScan_scanned (key : List (Const V)) (elements : List (ListPartElement V)) (i : Nat)
    (dflt : Option (Nat × Int)) : Scanned key elements i dflt (listScan key elements i dflt) := by
  induction elements generalizing i dflt with
  | nil => exact .miss (fun e he => nomatch he) (fun e he => nomatch he)
  | cons e elements ih =>
    rw [listScan]
    by_cases hhit : e.hits key = true
    · rw [if_pos hhit]
      exact .hit 0 e _ rfl (hits_iff.1 hhit)
    · rw [if_neg hhit]
      have hnot : ¬Lists e key := fun h => hhit (hits_iff.2 h)
      have hadd : ∀ j, i + 1 + j = i + (j + 1) := fun j => Nat.add_right_comm i 1 j
      generalize hd : (if e.isDefault = true then some (e.partitionOid, (i : Int)) else dflt) = dflt'
      have hscan := ih (i + 1) dflt'
      generalize listScan key elements (i + 1) dflt' = r at hscan
      cases hscan with
      | hit j e' d hj hlists =>
        rw [hadd]
        exact .hit (j + 1) e' d hj hlists
      | default j e' hnone hj hdefault =>
        have hnone : ∀ e' ∈ e :: elements, ¬Lists e' key := List.forall_mem_cons.2 ⟨hnot, hnone⟩
        rw [hadd]
        exact .default (j + 1) e' hnone hj hdefault
      | miss hnone hnodefault =>
        have hnone : ∀ e' ∈ e :: elements, ¬Lists e' key := List.forall_mem_cons.2 ⟨hnot, hnone⟩
        by_cases hdefault : e.isDefault = true
        · rw [if_pos hdefault] at hd
          rw [← hd]
          exact .default 0 e hnone rfl hdefault
        · rw [if_neg hdefault] at hd
          rw [← hd]
          have hnodefault : ∀ e' ∈ e :: elements, ¬e'.isDefault = true :=
            List.forall_mem_cons.2 ⟨hdefault, hnodefault⟩
          exact .miss hnone hnodefault

end

/-- The routing finds the one partition that lists the key, else the default partition, else none. -/
lemma getListPartitionOid_routed (m : ListPartitionMap V) (key : List (Const V)) (topClosed : Bool) :
    ListRouted m key (getListPartitionOid m key topClosed) := by
  have hscan := listScan_scanned key m.listElements 0 none
  rw [getListPartitionOid]
  generalize listScan key m.listElements 0 none = r at hscan
  cases hscan with
  | hit j e d hj hlists =>
    rw [Nat.zero_add]
    exact .listed j e hj hlists fun j' e' hj' hlists' => hlists'.unique hj' hj hlists
  | default j e hnone hj hdefault =>
    rw [Nat.zero_add]
    exact .default j e hnone hj hdefault fun j' e' hj' hdefault' => isDefault_unique hj' hj hdefault' hdefault
  | miss hnone hnodefault => exact .miss hnone hnodefault

end GaussKernel.Partition
