import Mathlib

/-!
# Registers

Every element of a set has a register, `key`, and a value there, `val`; a register holds the greatest value of its
elements. Insertion and union of sets become a maximum in one register and in all of them. A table that keeps the
value written last instead agrees with it exactly when the last element of every register covers the others.
-/

namespace GaussKernel.Lib

variable {α V : Type*} [LinearOrder V] [OrderBot V] (key : α → Nat) (val : α → V)

/-- Register `i` of a set. -/
def regOf (S : Finset α) (i : Nat) : V := (S.filter (key · = i)).sup val

def registersOf (n : Nat) (S : Finset α) : List V := (List.range n).map (regOf key val S)

/-- Raises the register `i` of a table to `v`. -/
def raise (r : List V) (i : Nat) (v : V) : List V := r.set i (max (r.getD i ⊥) v)

variable {key val}

@[simp]
lemma regOf_empty (i : Nat) : regOf key val ∅ i = ⊥ := rfl

lemma le_regOf {S : Finset α} {a : α} (h : a ∈ S) : val a ≤ regOf key val S (key a) :=
  Finset.le_sup (Finset.mem_filter.mpr ⟨h, rfl⟩)

variable {i n : Nat}

lemma regOf_eq_bot {S : Finset α} (h : ∀ a ∈ S, key a = i → val a = ⊥) : regOf key val S i = ⊥ := by
  apply (Finset.sup_eq_bot_iff _ _).mpr
  intro a ha
  rw [Finset.mem_filter] at ha
  exact h a ha.1 ha.2

@[simp]
lemma registersOf_length (n : Nat) (S : Finset α) : (registersOf key val n S).length = n := by
  simp [registersOf]

lemma registersOf_getElem {S : Finset α} (h : i < (registersOf key val n S).length) :
    (registersOf key val n S)[i] = regOf key val S i := by
  simp [registersOf]

lemma registersOf_empty (n : Nat) : registersOf key val n ∅ = List.replicate n ⊥ := by
  apply List.ext_getElem (by simp)
  intro i h h'
  rw [registersOf_getElem, regOf_empty, List.getElem_replicate]

/-- Registers stay below a bound of the values. -/
lemma registersOf_lt {bound : V} {S : Finset α} (hbot : ⊥ < bound) (hval : ∀ a ∈ S, val a < bound) :
    ∀ r ∈ registersOf key val n S, r < bound := by
  intro r hr
  obtain ⟨i, -, rfl⟩ := List.mem_map.mp hr
  exact (Finset.sup_lt_iff hbot).mpr fun a ha => hval a (Finset.mem_filter.mp ha).1

/-! ## Raising a register -/

@[simp]
lemma raise_length (r : List V) (i : Nat) (v : V) : (raise r i v).length = r.length := List.length_set

/-- A raised register stays below a bound of both. -/
lemma raise_lt {bound : V} {r : List V} {v : V} (hr : ∀ x ∈ r, x < bound) (hv : v < bound) :
    ∀ x ∈ raise r i v, x < bound := by
  intro x hx
  obtain hx | rfl := List.mem_or_eq_of_mem_set hx
  · exact hr x hx
  · refine max_lt ?_ hv
    rw [List.getD_eq_getElem?_getD]
    cases hget : r[i]? with
    | none => exact lt_of_le_of_lt bot_le hv
    | some y => exact hr y (List.mem_of_getElem? hget)

lemma raise_of_le {r : List V} {v : V} (h : v ≤ r.getD i ⊥) : raise r i v = r := by
  unfold raise
  rw [max_eq_left h]
  by_cases hi : i < r.length
  · rw [List.getD_eq_getElem _ _ hi, List.set_getElem_self]
  · exact List.set_eq_of_length_le (not_lt.mp hi)

lemma raise_append_cons (p : List V) (x : V) (q : List V) (v : V) :
    raise (p ++ x :: q) p.length v = p ++ max x v :: q := by
  simp [raise]

/-- A register amid untouched ones. -/
lemma raise_replicate (p q : List V) {u : Nat} (hu : u < n) (v : V) :
    raise (p ++ List.replicate n ⊥ ++ q) (p.length + u) v =
      p ++ List.replicate u ⊥ ++ v :: (List.replicate (n - u - 1) ⊥ ++ q) := by
  have hsplit : List.replicate n (⊥ : V) = List.replicate u ⊥ ++ ⊥ :: List.replicate (n - u - 1) ⊥ := by
    rw [← List.replicate_succ, ← List.replicate_add]
    congr 1
    omega
  have h := raise_append_cons (p ++ List.replicate u ⊥) ⊥ (List.replicate (n - u - 1) ⊥ ++ q) v
  rw [List.length_append, List.length_replicate, max_eq_right bot_le] at h
  rw [hsplit, ← h]
  congr 1
  simp

section InsertUnion

variable [DecidableEq α]

lemma regOf_insert (a : α) (S : Finset α) (i : Nat) :
    regOf key val (insert a S) i = if key a = i then max (val a) (regOf key val S i) else regOf key val S i := by
  unfold regOf
  rw [Finset.filter_insert]
  split
  · rw [Finset.sup_insert]
  · rfl

lemma regOf_union (S T : Finset α) (i : Nat) :
    regOf key val (S ∪ T) i = max (regOf key val S i) (regOf key val T i) := by
  unfold regOf
  rw [Finset.filter_union, Finset.sup_union]

/-- An insertion is a maximum in one register. -/
lemma registersOf_insert (n : Nat) (a : α) (S : Finset α) :
    registersOf key val n (insert a S) =
      raise (registersOf key val n S) (key a) (val a) := by
  unfold raise
  apply List.ext_getElem (by simp)
  intro i h h'
  have hi : i < n := by simpa using h
  rw [registersOf_getElem, regOf_insert, List.getElem_set]
  split
  case isTrue he =>
    subst he
    rw [List.getD_eq_getElem _ _ (by simpa using hi), registersOf_getElem, max_comm]
  case isFalse => rw [registersOf_getElem]

/-- An element below its register changes nothing. -/
lemma registersOf_insert_of_le (n : Nat) {a : α} {S : Finset α} (ha : val a ≤ regOf key val S (key a)) :
    registersOf key val n (insert a S) = registersOf key val n S := by
  unfold registersOf
  apply List.map_congr_left
  intro i _
  rw [regOf_insert]
  split
  case isTrue he => rw [← he, max_eq_right ha]
  case isFalse => rfl

/-- A union is a maximum in every register. -/
lemma registersOf_union (n : Nat) (S T : Finset α) :
    registersOf key val n (S ∪ T) = List.zipWith max (registersOf key val n S) (registersOf key val n T) := by
  apply List.ext_getElem (by simp)
  intro i h h'
  rw [List.getElem_zipWith, registersOf_getElem, registersOf_getElem, registersOf_getElem, regOf_union]

end InsertUnion

/-! ## The value written last -/

variable (key val)

def lastOf (l : List α) (i : Nat) : V := l.foldl (fun v a => if key a = i then val a else v) ⊥

def lastWrites (n : Nat) (l : List α) : List V :=
  l.foldl (fun r a => r.set (key a) (val a)) (List.replicate n ⊥)

lemma lastOf_append (l : List α) (a : α) (i : Nat) :
    lastOf key val (l ++ [a]) i = if key a = i then val a else lastOf key val l i := by
  simp [lastOf]

lemma lastWrites_append (n : Nat) (l : List α) (a : α) :
    lastWrites key val n (l ++ [a]) = (lastWrites key val n l).set (key a) (val a) := by
  simp [lastWrites]

variable {key val}

@[simp]
lemma lastWrites_length (n : Nat) (l : List α) : (lastWrites key val n l).length = n := by
  induction l using List.reverseRecOn with
  | nil => simp [lastWrites]
  | append_singleton l a ih => rw [lastWrites_append, List.length_set, ih]

lemma lastWrites_getElem {l : List α} (h : i < (lastWrites key val n l).length) :
    (lastWrites key val n l)[i] = lastOf key val l i := by
  induction l using List.reverseRecOn with
  | nil => simp [lastWrites, lastOf]
  | append_singleton l a ih => simp only [lastWrites_append, lastOf_append, List.getElem_set, ih]

lemma lastOf_none {l : List α} (h : ∀ c ∈ l, key c ≠ i) : lastOf key val l i = ⊥ := by
  induction l using List.reverseRecOn with
  | nil => rfl
  | append_singleton l a ih =>
    rw [lastOf_append, if_neg (h a (by simp))]
    exact ih fun c hc => h c (List.mem_append_left _ hc)

variable [LinearOrder α] (key val)

/-- Every element of `S` has one of its register that is as great, in `T` or as the last of `S`. -/
def LastCovers (S T : Finset α) : Prop :=
  ∀ a ∈ S, (∃ b ∈ T, key b = key a ∧ val a ≤ val b) ∨
    ∃ b ∈ S, key b = key a ∧ val a ≤ val b ∧ ∀ c ∈ S, key c = key a → c ≤ b

instance (S T : Finset α) : Decidable (LastCovers key val S T) :=
  inferInstanceAs (Decidable (∀ a ∈ S, (∃ b ∈ T, key b = key a ∧ val a ≤ val b) ∨
    ∃ b ∈ S, key b = key a ∧ val a ≤ val b ∧ ∀ c ∈ S, key c = key a → c ≤ b))

variable {key val}

/-- In an increasing list the last element of a register is its greatest. -/
lemma lastOf_last {l : List α} (hl : l.Pairwise (· < ·)) {b : α} (hb : b ∈ l)
    (hlast : ∀ c ∈ l, key c = key b → c ≤ b) : lastOf key val l (key b) = val b := by
  induction l using List.reverseRecOn with
  | nil => simp at hb
  | append_singleton l a ih =>
    rw [List.pairwise_append] at hl
    rw [lastOf_append]
    rcases List.mem_append.mp hb with hb | hb
    · have hba : b < a := hl.2.2 b hb a (by simp)
      have hne : key a ≠ key b := fun he => absurd (hlast a (by simp) he) (not_le.mpr hba)
      rw [if_neg hne]
      exact ih hl.1 hb fun c hc => hlast c (List.mem_append_left _ hc)
    · rw [List.mem_singleton.mp hb, if_pos rfl]

variable (key) in
lemma exists_last {S : Finset α} {a : α} (ha : a ∈ S) :
    ∃ b ∈ S, key b = key a ∧ ∀ c ∈ S, key c = key a → c ≤ b := by
  have hne : (S.filter (key · = key a)).Nonempty := ⟨a, Finset.mem_filter.mpr ⟨ha, rfl⟩⟩
  obtain ⟨b, hb, hmax⟩ := Finset.exists_max_image _ id hne
  rw [Finset.mem_filter] at hb
  exact ⟨b, hb.1, hb.2, fun c hc hk => hmax c (Finset.mem_filter.mpr ⟨hc, hk⟩)⟩

lemma lastOf_le_regOf {l : List α} (hl : l.Pairwise (· < ·)) (i : Nat) :
    lastOf key val l i ≤ regOf key val l.toFinset i := by
  by_cases h : ∃ a ∈ l, key a = i
  · obtain ⟨a, ha, rfl⟩ := h
    obtain ⟨b, hb, hk, hlast⟩ := exists_last key (List.mem_toFinset.mpr ha)
    rw [← hk] at hlast ⊢
    rw [lastOf_last hl (List.mem_toFinset.mp hb) fun c hc => hlast c (List.mem_toFinset.mpr hc)]
    exact le_regOf hb
  · rw [lastOf_none fun c hc hk => h ⟨c, hc, hk⟩]
    exact bot_le

/-- What was written last, with another set's registers over it, is the maximum exactly under `LastCovers`. -/
lemma lastCovers_iff {l : List α} (hl : l.Pairwise (· < ·)) (T : Finset α) :
    LastCovers key val l.toFinset T ↔
      ∀ i, max (lastOf key val l i) (regOf key val T i) = regOf key val (l.toFinset ∪ T) i := by
  have hle : ∀ i, max (lastOf key val l i) (regOf key val T i) ≤ regOf key val (l.toFinset ∪ T) i := by
    intro i
    rw [regOf_union]
    exact max_le_max (lastOf_le_regOf hl i) le_rfl
  constructor
  · intro hcov i
    apply le_antisymm (hle i)
    rw [regOf_union]
    apply max_le _ (le_max_right _ _)
    apply Finset.sup_le
    intro a ha
    rw [Finset.mem_filter] at ha
    obtain ⟨ha, rfl⟩ := ha
    rcases hcov a ha with ⟨b, hb, hk, hv⟩ | ⟨b, hb, hk, hv, hlast⟩
    · exact le_max_of_le_right (hv.trans (hk ▸ le_regOf hb))
    · rw [← hk] at hlast ⊢
      rw [lastOf_last hl (List.mem_toFinset.mp hb) fun c hc => hlast c (List.mem_toFinset.mpr hc)]
      exact le_max_of_le_left hv
  · intro heq a ha
    obtain ⟨b, hb, hk, hlast⟩ := exists_last key ha
    have hva : val a ≤ max (val b) (regOf key val T (key a)) := by
      have hreg : val a ≤ regOf key val (l.toFinset ∪ T) (key a) := le_regOf (Finset.mem_union_left _ ha)
      rw [← heq, ← hk] at hreg
      rw [← hk] at hlast ⊢
      rwa [lastOf_last hl (List.mem_toFinset.mp hb) fun c hc => hlast c (List.mem_toFinset.mpr hc)] at hreg
    rcases le_max_iff.mp hva with hv | hv
    · exact .inr ⟨b, hb, hk, hv, hlast⟩
    · rcases eq_or_ne (val a) ⊥ with hbot | hbot
      · exact .inr ⟨b, hb, hk, hbot ▸ bot_le, hlast⟩
      · obtain ⟨c, hc, hvc⟩ := (Finset.le_sup_iff (bot_lt_iff_ne_bot.mpr hbot)).mp hv
        rw [Finset.mem_filter] at hc
        exact .inl ⟨c, hc.1, hc.2, hvc⟩

/-- The same of tables of `n` registers. -/
lemma zipWith_lastWrites_iff {l : List α} (hl : l.Pairwise (· < ·)) (hn : ∀ a ∈ l, key a < n) (T : Finset α) :
    List.zipWith max (lastWrites key val n l) (registersOf key val n T) = registersOf key val n (l.toFinset ∪ T) ↔
      LastCovers key val l.toFinset T := by
  rw [lastCovers_iff hl]
  constructor
  · intro heq i
    by_cases hi : i < n
    · have hget := congrArg (·[i]?) heq
      simpa [List.getElem?_zipWith, List.getElem?_eq_getElem, hi, lastWrites_getElem, registersOf_getElem] using hget
    · have hne : ∀ a ∈ l, key a ≠ i := fun a ha he => hi (he ▸ hn a ha)
      rw [lastOf_none hne, regOf_union, regOf_eq_bot fun a ha he => absurd he (hne a (List.mem_toFinset.mp ha))]
  · intro heq
    apply List.ext_getElem (by simp)
    intro i h h'
    rw [List.getElem_zipWith, lastWrites_getElem, registersOf_getElem, registersOf_getElem, heq]

omit [OrderBot V] in
lemma lastCovers_singleton (a : α) (T : Finset α) : LastCovers key val {a} T := by
  intro b hb
  refine .inr ⟨b, hb, rfl, le_rfl, fun c hc _ => ?_⟩
  rw [Finset.mem_singleton.mp hb, Finset.mem_singleton.mp hc]

end GaussKernel.Lib
