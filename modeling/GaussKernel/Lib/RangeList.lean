import Mathlib.Tactic
import Mathlib.Order.Interval.Set.Basic

/-!
# Sets as sorted lists of ranges

A set over a linear order, kept as a list of closed ranges in increasing order. `insertRange` adds a range and merges
whatever it meets, `removeRange` cuts a range out. Both keep the list sorted (`insertRange_sorted`,
`removeRange_sorted`) and change the set as their names say (`covered_insertRange`, `covered_removeRange`).

Cutting a range out needs the neighbours of its ends: `up` and `down` are given for the ends at hand (`IsUp`,
`IsDown`), so that an order without successors everywhere can be used as well.
-/

namespace GaussKernel.Lib

variable {α : Type*} [LinearOrder α]

/-- Non-empty ranges, each before the next. -/
def SortedRanges (l : List (α × α)) : Prop := (∀ r ∈ l, r.1 ≤ r.2) ∧ l.Pairwise fun r s => r.2 < s.1

/-- The set that the ranges denote. -/
def covered (l : List (α × α)) : Set α := {x | ∃ r ∈ l, x ∈ Set.Icc r.1 r.2}

lemma SortedRanges.nil : SortedRanges ([] : List (α × α)) := ⟨nofun, .nil⟩

lemma SortedRanges.cons_iff {r : α × α} {l : List (α × α)} :
    SortedRanges (r :: l) ↔ r.1 ≤ r.2 ∧ (∀ s ∈ l, r.2 < s.1) ∧ SortedRanges l := by
  simp only [SortedRanges, List.forall_mem_cons, List.pairwise_cons]
  tauto

lemma covered_nil : covered ([] : List (α × α)) = ∅ := by
  ext x
  simp [covered]

lemma covered_cons (r : α × α) (l : List (α × α)) : covered (r :: l) = Set.Icc r.1 r.2 ∪ covered l := by
  ext x
  simp [covered]

/-! ## Insertion -/

def insertRange : List (α × α) → α × α → List (α × α)
  | [], r => [r]
  | e :: l, r =>
    if r.2 < e.1 then r :: e :: l
    else if e.2 < r.1 then e :: insertRange l r
    else insertRange l (min r.1 e.1, max r.2 e.2)

/-- What lies below the list and the range lies below the result. -/
lemma insertRange_above {a : α} {l : List (α × α)} {r : α × α} (hr : a < r.1) (hl : ∀ s ∈ l, a < s.1) :
    ∀ s ∈ insertRange l r, a < s.1 := by
  induction l generalizing r with
  | nil => simpa [insertRange] using hr
  | cons e l ih =>
    obtain ⟨he, hl⟩ := List.forall_mem_cons.mp hl
    rw [insertRange]
    split
    · exact List.forall_mem_cons.mpr ⟨hr, List.forall_mem_cons.mpr ⟨he, hl⟩⟩
    · split
      · exact List.forall_mem_cons.mpr ⟨he, ih hr hl⟩
      · exact ih (lt_min hr he) hl

lemma insertRange_sorted {l : List (α × α)} {r : α × α} (h : SortedRanges l) (hr : r.1 ≤ r.2) :
    SortedRanges (insertRange l r) := by
  induction l generalizing r with
  | nil => exact SortedRanges.cons_iff.mpr ⟨hr, nofun, .nil⟩
  | cons e l ih =>
    obtain ⟨he, hel, hl⟩ := SortedRanges.cons_iff.mp h
    rw [insertRange]
    split
    case isTrue hlt =>
      refine SortedRanges.cons_iff.mpr ⟨hr, List.forall_mem_cons.mpr ⟨hlt, fun s hs => ?_⟩, h⟩
      exact hlt.trans_le (he.trans (hel s hs).le)
    case isFalse hge =>
      split
      case isTrue hlt => exact SortedRanges.cons_iff.mpr ⟨he, insertRange_above hlt hel, ih hl hr⟩
      case isFalse hle => exact ih hl ((min_le_left _ _).trans (hr.trans (le_max_left _ _)))

lemma covered_insertRange {l : List (α × α)} {r : α × α} (h : SortedRanges l) (hr : r.1 ≤ r.2) :
    covered (insertRange l r) = covered l ∪ Set.Icc r.1 r.2 := by
  induction l generalizing r with
  | nil => rw [insertRange, covered_cons, covered_nil, Set.union_empty, Set.empty_union]
  | cons e l ih =>
    obtain ⟨_, _, hl⟩ := SortedRanges.cons_iff.mp h
    rw [insertRange]
    split
    case isTrue hlt => rw [covered_cons, Set.union_comm]
    case isFalse hge =>
      split
      case isTrue hlt => rw [covered_cons, covered_cons, ih hl hr, Set.union_assoc]
      case isFalse hle =>
        have hmerged : min r.1 e.1 ≤ max r.2 e.2 := (min_le_left _ _).trans (hr.trans (le_max_left _ _))
        have hunion := Set.Icc_union_Icc' (not_lt.mp hge) (not_lt.mp hle)
        rw [ih hl hmerged, ← hunion, covered_cons]
        rw [Set.union_comm (Set.Icc r.1 r.2), ← Set.union_assoc, Set.union_comm (covered l)]

/-- A range behind all others is inserted at the end. -/
lemma insertRange_end {l : List (α × α)} {r : α × α} (hl : SortedRanges l)
    (hr : r.1 ≤ r.2) (h : ∀ s ∈ l, s.2 < r.1) : insertRange l r = l ++ [r] := by
  induction l with
  | nil => rfl
  | cons e l ih =>
    obtain ⟨he, hrest⟩ := List.forall_mem_cons.mp h
    obtain ⟨hle, _, hl⟩ := SortedRanges.cons_iff.mp hl
    rw [insertRange, if_neg (not_lt.mpr (hle.trans (he.le.trans hr))), if_pos he, ih hl hrest]
    rfl

/-- The last range of a sorted list ends last. -/
lemma SortedRanges.le_getLast {l : List (α × α)} {b : α × α} (hl : SortedRanges l)
    (hb : l.getLast? = some b) : ∀ s ∈ l, s.2 ≤ b.2 := by
  induction l with
  | nil => exact nofun
  | cons e l ih =>
    obtain ⟨_, habove, hl⟩ := SortedRanges.cons_iff.mp hl
    cases l with
    | nil =>
      obtain rfl : e = b := Option.some.inj hb
      simp
    | cons f l =>
      have hb' : (f :: l).getLast? = some b := by rwa [List.getLast?_cons_cons] at hb
      have hmem : b ∈ f :: l := List.mem_of_getLast? hb'
      exact List.forall_mem_cons.mpr ⟨((habove b hmem).le).trans (hl.1 b hmem), ih hl hb'⟩

/-! ## Removal -/

/-- `b` is the next element behind `a`. -/
def IsUp (a b : α) : Prop := ∀ x, a < x ↔ b ≤ x

/-- `b` is the last element before `a`. -/
def IsDown (a b : α) : Prop := ∀ x, x < a ↔ x ≤ b

/-- What is left of the range `e` when `r` is cut out; `up` is behind the end of `r` and `down` before its start. -/
def cutRange (up down : α) (r e : α × α) : List (α × α) :=
  if min r.2 e.2 < max r.1 e.1 then [e]
  else if r.1 ≤ e.1 ∧ e.2 ≤ r.2 then []
  else if r.1 ≤ e.1 then [(up, e.2)]
  else if e.2 ≤ r.2 then [(e.1, down)]
  else [(e.1, down), (up, e.2)]

def removeRange (up down : α) (l : List (α × α)) (r : α × α) : List (α × α) := l.flatMap (cutRange up down r)

/-- Ranges that are not apart meet. -/
lemma meets_of_not_apart {r e : α × α} (h : ¬min r.2 e.2 < max r.1 e.1) : e.1 ≤ r.2 ∧ r.1 ≤ e.2 :=
  ⟨(le_max_right _ _).trans ((not_lt.mp h).trans (min_le_left _ _)),
    (le_max_left _ _).trans ((not_lt.mp h).trans (min_le_right _ _))⟩

section

variable {up down : α} {r e : α × α} (hr : r.1 ≤ r.2) (hup : e.1 ≤ r.2 → r.2 < e.2 → IsUp r.2 up)
  (hdown : e.1 < r.1 → r.1 ≤ e.2 → IsDown r.1 down)
include hr hup hdown

/-- The parts that are left lie inside the range, in order. -/
lemma cutRange_sorted (he : e.1 ≤ e.2) :
    SortedRanges (cutRange up down r e) ∧ ∀ s ∈ cutRange up down r e, e.1 ≤ s.1 ∧ s.2 ≤ e.2 := by
  rw [cutRange]
  split
  case isTrue => exact ⟨SortedRanges.cons_iff.mpr ⟨he, nofun, .nil⟩, by simp⟩
  case isFalse hmeet =>
    obtain ⟨h1, h2⟩ := meets_of_not_apart hmeet
    split
    case isTrue => exact ⟨.nil, nofun⟩
    case isFalse hpart =>
      split
      case isTrue hle =>
        have hlt : r.2 < e.2 := not_le.mp fun h => hpart ⟨hle, h⟩
        have hle' : up ≤ e.2 := (hup h1 hlt _).mp hlt
        have hge : e.1 ≤ up := h1.trans (not_lt.mp fun h => absurd ((hup h1 hlt up).mpr le_rfl) (not_lt.mpr h.le))
        exact ⟨SortedRanges.cons_iff.mpr ⟨hle', nofun, .nil⟩, by simpa using hge⟩
      case isFalse hgt =>
        have hgt : e.1 < r.1 := not_le.mp hgt
        have hge : e.1 ≤ down := (hdown hgt h2 _).mp hgt
        have hdr : down < r.1 := (hdown hgt h2 _).mpr le_rfl
        split
        case isTrue hle' =>
          refine ⟨SortedRanges.cons_iff.mpr ⟨hge, nofun, .nil⟩, ?_⟩
          simpa using hdr.le.trans h2
        case isFalse hlt' =>
          have hlt : r.2 < e.2 := not_le.mp hlt'
          have hle' : up ≤ e.2 := (hup h1 hlt _).mp hlt
          have hru : r.2 < up := (hup h1 hlt _).mpr le_rfl
          constructor
          · refine SortedRanges.cons_iff.mpr ⟨hge, ?_, SortedRanges.cons_iff.mpr ⟨hle', nofun, .nil⟩⟩
            simpa using hdr.trans (hr.trans_lt hru)
          · simpa using ⟨hdr.le.trans h2, h1.trans hru.le⟩

omit hr in
lemma covered_cutRange :
    covered (cutRange up down r e) = Set.Icc e.1 e.2 \ Set.Icc r.1 r.2 := by
  rw [cutRange]
  split
  case isTrue hapart =>
    -- the ranges do not meet
    rw [covered_cons, covered_nil, Set.union_empty]
    refine (Set.disjoint_left.mpr fun x hxe hxr => ?_).sdiff_eq_left.symm
    exact absurd (hapart.trans_le (max_le hxr.1 hxe.1)) (not_lt.mpr (le_min hxr.2 hxe.2))
  case isFalse hmeet =>
    obtain ⟨h1, h2⟩ := meets_of_not_apart hmeet
    split
    case isTrue hin =>
      rw [covered_nil]
      exact (Set.sdiff_eq_empty.mpr (Set.Icc_subset_Icc hin.1 hin.2)).symm
    case isFalse hpart =>
      split
      case isTrue hle =>
        have hlt : r.2 < e.2 := not_le.mp fun h => hpart ⟨hle, h⟩
        ext x
        have hx := hup h1 hlt x
        simp only [covered_cons, covered_nil, Set.union_empty, Set.mem_Icc, Set.mem_sdiff, ← hx]
        constructor
        · exact fun h => ⟨⟨h1.trans h.1.le, h.2⟩, fun h' => absurd h.1 (not_lt.mpr h'.2)⟩
        · exact fun h => ⟨not_le.mp fun h' => h.2 ⟨hle.trans h.1.1, h'⟩, h.1.2⟩
      case isFalse hgt =>
        have hgt : e.1 < r.1 := not_le.mp hgt
        split
        case isTrue hle' =>
          ext x
          have hx := hdown hgt h2 x
          simp only [covered_cons, covered_nil, Set.union_empty, Set.mem_Icc, Set.mem_sdiff, ← hx]
          constructor
          · exact fun h => ⟨⟨h.1, h.2.le.trans h2⟩, fun h' => absurd h.2 (not_lt.mpr h'.1)⟩
          · exact fun h => ⟨h.1.1, not_le.mp fun h' => h.2 ⟨h', h.1.2.trans hle'⟩⟩
        case isFalse hlt' =>
          have hlt : r.2 < e.2 := not_le.mp hlt'
          ext x
          have hx := hdown hgt h2 x
          have hx' := hup h1 hlt x
          simp only [covered_cons, covered_nil, Set.union_empty, Set.mem_union, Set.mem_Icc, Set.mem_sdiff, ← hx, ← hx']
          constructor
          · rintro (h | h)
            · exact ⟨⟨h.1, h.2.le.trans h2⟩, fun h' => absurd h.2 (not_lt.mpr h'.1)⟩
            · exact ⟨⟨h1.trans h.1.le, h.2⟩, fun h' => absurd h.1 (not_lt.mpr h'.2)⟩
          · intro h
            cases lt_or_ge x r.1 with
            | inl hxr => exact .inl ⟨h.1.1, hxr⟩
            | inr hxr => exact .inr ⟨not_le.mp fun h' => h.2 ⟨hxr, h'⟩, h.1.2⟩

end

section

variable {up down : α} {r : α × α} (hr : r.1 ≤ r.2) {l : List (α × α)} (h : SortedRanges l)
  (hup : ∀ e ∈ l, e.1 ≤ r.2 → r.2 < e.2 → IsUp r.2 up)
  (hdown : ∀ e ∈ l, e.1 < r.1 → r.1 ≤ e.2 → IsDown r.1 down)
include hr h hup hdown

lemma removeRange_sorted : SortedRanges (removeRange up down l r) := by
  have hkept : ∀ e ∈ l, _ := fun e he => cutRange_sorted hr (hup e he) (hdown e he) (h.1 e he)
  constructor
  · intro s hs
    obtain ⟨e, he, hse⟩ := List.mem_flatMap.mp hs
    exact (hkept e he).1.1 s hse
  · refine List.pairwise_flatMap.mpr ⟨fun e he => (hkept e he).1.2, h.2.imp_of_mem fun he he' hlt s hs s' hs' => ?_⟩
    exact (((hkept _ he).2 s hs).2.trans_lt hlt).trans_le ((hkept _ he').2 s' hs').1

omit hr h in
lemma covered_removeRange : covered (removeRange up down l r) = covered l \ Set.Icc r.1 r.2 := by
  ext x
  have hcut : ∀ e ∈ l, x ∈ covered (cutRange up down r e) ↔ x ∈ Set.Icc e.1 e.2 \ Set.Icc r.1 r.2 := fun e he =>
    Set.ext_iff.mp (covered_cutRange (hup e he) (hdown e he)) x
  constructor
  · rintro ⟨s, hs, hx⟩
    obtain ⟨e, he, hse⟩ := List.mem_flatMap.mp hs
    have hxe := (hcut e he).mp ⟨s, hse, hx⟩
    exact ⟨⟨e, he, hxe.1⟩, hxe.2⟩
  · rintro ⟨⟨e, he, hx⟩, hxr⟩
    obtain ⟨s, hs, hxs⟩ := (hcut e he).mpr ⟨hx, hxr⟩
    exact ⟨s, List.mem_flatMap.mpr ⟨e, he, hs⟩, hxs⟩

end

end GaussKernel.Lib
