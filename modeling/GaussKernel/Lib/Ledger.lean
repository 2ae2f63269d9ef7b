import Mathlib.Data.Option.Basic
import Mathlib.Logic.Function.Basic

/-!
# Ledgers

Uses are given addresses, and a ledger records for every address the use it serves. That the two are inverse to one
another says at once that no address serves two uses and that none is given away without a use.
-/

namespace GaussKernel.Lib

open Function (update update_self update_of_ne)

variable {U A : Type*}

/-- `owner` names for every address the use that has it. -/
def Ledger (addr : U → Option A) (owner : A → Option U) : Prop := ∀ u a, addr u = some a ↔ owner a = some u

variable {addr : U → Option A} {owner : A → Option U} {u v : U} {a b : A}

lemma Ledger.owner_eq (h : Ledger addr owner) (hu : addr u = some a) : owner a = some u := (h u a).mp hu

lemma Ledger.addr_eq (h : Ledger addr owner) (ha : owner a = some u) : addr u = some a := (h u a).mpr ha

lemma Ledger.inj (h : Ledger addr owner) (hu : addr u = some a) (hv : addr v = some a) : u = v :=
  Option.some_inj.mp ((h.owner_eq hu).symm.trans (h.owner_eq hv))

/-- An address without a use has not been given to any. -/
lemma Ledger.ne_of_none (h : Ledger addr owner) (ha : owner a = none) : addr u ≠ some a := by
  intro hu
  rw [h.owner_eq hu] at ha
  cases ha

lemma Ledger.empty : Ledger (fun _ : U => none) (fun _ : A => none) :=
  fun _ _ => ⟨fun h => (nomatch h), fun h => (nomatch h)⟩

variable [DecidableEq U] [DecidableEq A]

/-- A use gets an address that serves no other. -/
lemma Ledger.assign (h : Ledger addr owner) (hu : addr u = none) (ha : owner a = none) :
    Ledger (update addr u (some a)) (update owner a (some u)) := by
  intro v b
  by_cases hv : v = u
  · subst hv
    rw [update_self]
    by_cases hb : b = a
    · rw [hb, update_self]
      exact ⟨fun _ => rfl, fun _ => rfl⟩
    · rw [update_of_ne hb, ← h v b, hu]
      exact ⟨fun heq => absurd (Option.some_inj.mp heq).symm hb, fun heq => (nomatch heq)⟩
  · rw [update_of_ne hv, h v b]
    by_cases hb : b = a
    · rw [hb, update_self, ha]
      exact ⟨fun heq => (nomatch heq), fun heq => absurd (Option.some_inj.mp heq).symm hv⟩
    · rw [update_of_ne hb]

/-- A use gives its address back. -/
lemma Ledger.release (h : Ledger addr owner) (hu : addr u = some a) :
    Ledger (update addr u none) (update owner a none) := by
  intro v b
  by_cases hv : v = u
  · subst hv
    rw [update_self]
    by_cases hb : b = a
    · rw [hb, update_self]
      exact ⟨fun heq => (nomatch heq), fun heq => (nomatch heq)⟩
    · rw [update_of_ne hb, ← h v b, hu]
      exact ⟨fun heq => (nomatch heq), fun heq => absurd (Option.some_inj.mp heq).symm hb⟩
  · rw [update_of_ne hv, h v b]
    by_cases hb : b = a
    · rw [hb, update_self, h.owner_eq hu]
      exact ⟨fun heq => absurd (Option.some_inj.mp heq).symm hv, fun heq => (nomatch heq)⟩
    · rw [update_of_ne hb]

end GaussKernel.Lib
