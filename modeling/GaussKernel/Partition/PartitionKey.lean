import Mathlib.Data.List.Lex
import Mathlib.Order.Compare
import Mathlib.Order.WithBot

/-!
# Partition keys

Key values, bounds and their comparison (`partitionkey.cpp`, `partitionkey.h`). Values are taken up to the equality of
the operator class of their type, and `V` is ordered as the class orders them. A MAXVALUE bound is above NULL, and NULL
is above every value. Two NULLs do not compare.

* `Const.rank`: the place of a key value in the order with NULL and MAXVALUE on top.
* `keyCompare_eq_cmp`: against a key without NULL the comparison is the lexicographic one of the ranks.
-/

namespace GaussKernel.Partition

/-- A key value or a bound. -/
structure Const (V : Type) where
  consttype : Nat
  constisnull : Bool
  ismaxvalue : Bool
  constvalue : V
deriving DecidableEq

inductive ErrCode where
  | datatypeMismatch
  | nullValueNotAllowed
  | unexpectedNullValue
  | invalidParameterValue
  | datetimeValueOutOfRange
  | invalidObjectDefinition
  | assertFailed
deriving DecidableEq

/-- What `ereport(ERROR, ..)` raises. -/
structure ErrorData where
  errcode : ErrCode
  errmsg : String
deriving DecidableEq

variable {V : Type} [LinearOrder V]

def constCompare (value1 value2 : Const V) : Ordering := cmp value1.constvalue value2.constvalue

/-- One column of a key comparison, for two pointers. `nullNull` is the outcome for two NULL values. -/
def columnCompare (nullNull : Except ErrorData Ordering) :
    Option (Const V) → Option (Const V) → Except ErrorData Ordering
  | none, none => .error ⟨.datatypeMismatch, "NULL can not be compared with NULL"⟩
  | none, some _ => .ok .lt
  | some _, none => .ok .gt
  | some v1, some v2 =>
    if v1.ismaxvalue && v2.ismaxvalue then .ok .eq
    else if v1.ismaxvalue then .ok .gt
    else if v2.ismaxvalue then .ok .lt
    else if v1.constisnull && v2.constisnull then nullNull
    else if v1.constisnull then .ok .gt
    else if v2.constisnull then .ok .lt
    else .ok (constCompare v1 v2)

/-- The comparison of two keys of one length: the first column that differs decides. -/
def keyCompare (nullNull : Except ErrorData Ordering) :
    List (Option (Const V)) → List (Option (Const V)) → Except ErrorData Ordering
  | v1 :: value1, v2 :: value2 =>
    match columnCompare nullNull v1 v2 with
    | .ok .eq => keyCompare nullNull value1 value2
    | compare => compare
  | _, _ => .ok .eq

def partitonKeyCompare (value1 value2 : List (Option (Const V))) (nullEqual : Bool) : Except ErrorData Ordering :=
  keyCompare
    (if nullEqual then .ok .eq
      else .error ⟨.nullValueNotAllowed, "null value can not be compared with null value."⟩)
    value1 value2

def partitonKeyCompareForRouting (value1 value2 : List (Option (Const V))) : Except ErrorData Ordering :=
  keyCompare (.error ⟨.unexpectedNullValue, "null value can not be compared with null value."⟩) value1 value2

/-! ## The order of keys -/

/-- The value is NULL, and not the MAXVALUE bound. -/
def Const.IsNull (v : Const V) : Prop := v.constisnull = true ∧ v.ismaxvalue = false

instance (v : Const V) : Decidable v.IsNull := inferInstanceAs (Decidable (_ ∧ _))

/-- The place of a key value in its column: the values in their order, then NULL, then MAXVALUE. -/
def Const.rank (v : Const V) : WithTop (WithTop V) :=
  if v.ismaxvalue then ⊤
  else if v.constisnull then ((⊤ : WithTop V) : WithTop (WithTop V))
  else ((v.constvalue : WithTop V) : WithTop (WithTop V))

lemma cmp_coe {α : Type} [LinearOrder α] (a b : α) : cmp (a : WithTop α) (b : WithTop α) = cmp a b := by
  unfold cmp cmpUsing
  simp only [WithTop.coe_lt_coe]

/-- The places of the columns of a key, in lexicographic order. -/
def KeyRank (V : Type) : Type := List (WithTop (WithTop V))

instance : LinearOrder (KeyRank V) := inferInstanceAs (LinearOrder (List (WithTop (WithTop V))))

def KeyRank.nil : KeyRank V := List.nil

def KeyRank.cons (a : WithTop (WithTop V)) (l : KeyRank V) : KeyRank V := List.cons a l

def keyRank : List (Const V) → KeyRank V
  | [] => KeyRank.nil
  | v :: value => KeyRank.cons v.rank (keyRank value)

lemma KeyRank.cons_lt_of_lt {a b : WithTop (WithTop V)} (h : a < b) (l l' : KeyRank V) :
    KeyRank.cons a l < KeyRank.cons b l' := List.Lex.rel h

lemma KeyRank.cons_lt_cons {l l' : KeyRank V} (h : l < l') (a : WithTop (WithTop V)) :
    KeyRank.cons a l < KeyRank.cons a l' := List.Lex.cons h

lemma KeyRank.cmp_cons (a b : WithTop (WithTop V)) (l l' : KeyRank V) :
    cmp (KeyRank.cons a l) (KeyRank.cons b l') = (cmp a b).then (cmp l l') := by
  rcases lt_trichotomy a b with h | h | h
  · rw [h.cmp_eq_lt, (KeyRank.cons_lt_of_lt h l l').cmp_eq_lt]
    rfl
  · subst h
    rw [cmp_self_eq_eq a, Ordering.eq_then]
    rcases lt_trichotomy l l' with h | h | h
    · rw [h.cmp_eq_lt, (KeyRank.cons_lt_cons h a).cmp_eq_lt]
    · subst h
      rw [cmp_self_eq_eq l, cmp_self_eq_eq (KeyRank.cons a l)]
    · rw [h.cmp_eq_gt, (KeyRank.cons_lt_cons h a).cmp_eq_gt]
  · rw [h.cmp_eq_gt, (KeyRank.cons_lt_of_lt h l' l).cmp_eq_gt]
    rfl

/-- Two columns that are not both NULL compare as their places do. -/
lemma columnCompare_eq_cmp (nullNull : Except ErrorData Ordering) (v1 v2 : Const V)
    (h : ¬(v1.IsNull ∧ v2.IsNull)) : columnCompare nullNull (some v1) (some v2) = .ok (cmp v1.rank v2.rank) := by
  obtain ⟨t1, n1, m1, x1⟩ := v1
  obtain ⟨t2, n2, m2, x2⟩ := v2
  cases m1 <;> cases m2
  · cases n1 <;> cases n2
    · exact congrArg Except.ok ((cmp_coe x1 x2).symm.trans (cmp_coe _ _).symm)
    · exact congrArg Except.ok (WithTop.coe_lt_coe.2 (WithTop.coe_lt_top x1)).cmp_eq_lt.symm
    · exact congrArg Except.ok (WithTop.coe_lt_coe.2 (WithTop.coe_lt_top x2)).cmp_eq_gt.symm
    · exact absurd ⟨⟨rfl, rfl⟩, ⟨rfl, rfl⟩⟩ h
  · cases n1 <;> exact congrArg Except.ok (WithTop.coe_lt_top _).cmp_eq_lt.symm
  · cases n2 <;> exact congrArg Except.ok (WithTop.coe_lt_top _).cmp_eq_gt.symm
  · exact congrArg Except.ok (cmp_self_eq_eq (⊤ : WithTop (WithTop V))).symm

/-- Against a key without NULL the comparison is the lexicographic one of the places. -/
lemma keyCompare_eq_cmp (nullNull : Except ErrorData Ordering) (value1 : List (Const V)) {value2 : List (Const V)}
    (hlen : value1.length = value2.length) (hnull : ∀ v ∈ value2, ¬v.IsNull) :
    keyCompare nullNull (value1.map some) (value2.map some) =
      .ok (cmp (keyRank value1) (keyRank value2)) := by
  induction value1 generalizing value2 with
  | nil =>
    cases value2 with
    | nil => exact congrArg Except.ok (cmp_self_eq_eq (KeyRank.nil : KeyRank V)).symm
    | cons v2 value2 => cases hlen
  | cons v1 value1 ih =>
    cases value2 with
    | nil => cases hlen
    | cons v2 value2 =>
      have hv := columnCompare_eq_cmp nullNull v1 v2 fun h => hnull v2 (.head _) h.2
      have ih := ih (Nat.succ.inj hlen) fun v hv => hnull v (.tail _ hv)
      rw [List.map_cons, List.map_cons, keyCompare, hv, keyRank, keyRank, KeyRank.cmp_cons]
      cases cmp v1.rank v2.rank with
      | eq => exact ih
      | lt => rfl
      | gt => rfl

end GaussKernel.Partition
