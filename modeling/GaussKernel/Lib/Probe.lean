import Mathlib

/-!
# Open addressing

A table of `n` slots that is searched from a start slot on, slot after slot, until an entry of the wanted kind or a free
slot is met. Entries are never taken out, so that an entry stays reachable from its start slot.
-/

namespace GaussKernel.Lib

variable {ι : Type*}

inductive Probe (ι : Type*) where
  | hit (i : ι)
  | free (slot : ℕ)
  | exhausted

/-- Searches `fuel` slots from `slot` on. -/
def probe (n : ℕ) (look : ℕ → Option ι) (same : ι → Bool) : (fuel slot : ℕ) → Probe ι
  | 0, _ => .exhausted
  | fuel + 1, slot =>
    match look slot with
    | none => .free slot
    | some i => if same i then .hit i else probe n look same fuel ((slot + 1) % n)

/-- The entry `i` is met from `start` on before any free slot. -/
def Reachable (n : ℕ) (look : ℕ → Option ι) (start : ℕ) (i : ι) : Prop :=
  ∃ j < n, look ((start + j) % n) = some i ∧ ∀ k < j, look ((start + k) % n) ≠ none

section probe
variable {n : ℕ} {look : ℕ → Option ι} {same : ι → Bool} {start : ℕ}

lemma probe_hit {fuel slot : ℕ} {i : ι} (h : probe n look same fuel slot = .hit i) :
    same i = true ∧ ∃ s, look s = some i := by
  induction fuel generalizing slot with
  | zero => cases h
  | succ fuel ih =>
    rw [probe] at h
    split at h
    case h_1 => cases h
    case h_2 i' hlook =>
      split at h
      case isTrue hsame =>
        obtain rfl := Probe.hit.inj h
        exact ⟨hsame, slot, hlook⟩
      case isFalse => exact ih h

/-- The free slot that a search ends at is the first one from its start on. -/
lemma probe_free {fuel s : ℕ} {j : ℕ} (h : probe n look same fuel ((start + j) % n) = .free s)
    (hfull : ∀ k < j, look ((start + k) % n) ≠ none) :
    ∃ m < j + fuel, s = (start + m) % n ∧ look s = none ∧ ∀ k < m, look ((start + k) % n) ≠ none := by
  induction fuel generalizing j with
  | zero => cases h
  | succ fuel ih =>
    rw [probe] at h
    split at h
    case h_1 hlook =>
      obtain rfl := Probe.free.inj h
      exact ⟨j, by omega, rfl, hlook, hfull⟩
    case h_2 i' hlook =>
      split at h
      case isTrue => cases h
      case isFalse =>
        rw [Nat.mod_add_mod, Nat.add_assoc] at h
        obtain ⟨m, hm, hrest⟩ := ih h fun k hk => by
          rcases Nat.lt_succ_iff_lt_or_eq.mp hk with hk | rfl
          · exact hfull k hk
          · rw [hlook]
            exact nofun
        exact ⟨m, by omega, hrest⟩

/-- A reachable entry of the wanted kind ends the search. -/
lemma probe_of_reachable {i : ι} (hreach : Reachable n look start i) (hsame : same i = true) :
    ∃ i', probe n look same n (start % n) = .hit i' := by
  obtain ⟨j, hj, hlook, hfull⟩ := hreach
  have hsteps : ∀ m fuel, m ≤ j → j - m < fuel → ∃ i', probe n look same fuel ((start + m) % n) = .hit i' := by
    intro m fuel hm hfuel
    induction fuel generalizing m with
    | zero => omega
    | succ fuel ih =>
      rw [probe]
      rcases Nat.eq_or_lt_of_le hm with rfl | hlt
      · rw [hlook]
        exact ⟨i, if_pos hsame⟩
      · cases hmid : look ((start + m) % n) with
        | none => exact absurd hmid (hfull m hlt)
        | some i' =>
          dsimp only
          split
          · exact ⟨i', rfl⟩
          · rw [Nat.mod_add_mod, Nat.add_assoc]
            exact ih (m + 1) hlt (by omega)
  exact hsteps 0 n (Nat.zero_le j) (by omega)

/-- A new entry does not hide another. -/
lemma Reachable.insert {i : ι} (h : Reachable n look start i) {s : ℕ} (hfree : look s = none) (i' : ι) :
    Reachable n (Function.update look s (some i')) start i := by
  have hother : ∀ t, look t ≠ none → Function.update look s (some i') t = look t := by
    intro t ht
    refine Function.update_of_ne ?_ _ _
    rintro rfl
    exact ht hfree
  obtain ⟨j, hj, hlook, hfull⟩ := h
  refine ⟨j, hj, ?_, fun k hk => ?_⟩
  · rw [hother _ (by rw [hlook]; exact nofun), hlook]
  · rw [hother _ (hfull k hk)]
    exact hfull k hk

/-- The new entry is reachable from where the search for it began. -/
lemma reachable_insert {s : ℕ} (h : probe n look same n (start % n) = .free s) (i : ι) :
    Reachable n (Function.update look s (some i)) start i := by
  obtain ⟨m, hm, rfl, -, hfull⟩ := probe_free (j := 0) h fun k hk => absurd hk (Nat.not_lt_zero k)
  rw [Nat.zero_add] at hm
  refine ⟨m, hm, Function.update_self .., fun k hk => ?_⟩
  by_cases heq : (start + k) % n = (start + m) % n
  · rw [heq, Function.update_self]
    exact nofun
  · rw [Function.update_of_ne heq]
    exact hfull k hk

end probe

end GaussKernel.Lib
