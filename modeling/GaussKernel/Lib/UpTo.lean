import Mathlib.Data.Nat.Notation
import Mathlib.Data.Option.Basic

/-!
# Counting loops

The body of a loop at 0, 1, 2, … in turn, until it fails or the count is reached.
-/

namespace GaussKernel.Lib

variable {σ : Type*} {f : ℕ → σ → Option σ} {n : ℕ} {s s' : σ}

def upTo (f : ℕ → σ → Option σ) : ℕ → σ → Option σ
  | 0, s => some s
  | n + 1, s => upTo f n s >>= f n

/-- What every round keeps holds at the end. -/
lemma upTo_invariant (Inv : ℕ → σ → Prop) (hstep : ∀ k s s', k < n → Inv k s → f k s = some s' → Inv (k + 1) s')
    (h : upTo f n s = some s') (hinv : Inv 0 s) : Inv n s' := by
  induction n generalizing s' with
  | zero => exact Option.some_inj.mp h ▸ hinv
  | succ n ih =>
    obtain ⟨s₁, h₁, hlast⟩ := Option.bind_eq_some_iff.mp h
    have hn : Inv n s₁ := ih (fun k s s' hk => hstep k s s' (Nat.lt_succ_of_lt hk)) h₁
    exact hstep n s₁ s' n.lt_succ_self hn hlast

/-- Where no round fails under the invariant, the loop comes to its end. -/
lemma upTo_total (Inv : ℕ → σ → Prop) (hstep : ∀ k s, k < n → Inv k s → ∃ s', f k s = some s' ∧ Inv (k + 1) s')
    (hinv : Inv 0 s) : ∃ s', upTo f n s = some s' ∧ Inv n s' := by
  induction n with
  | zero => exact ⟨s, rfl, hinv⟩
  | succ n ih =>
    obtain ⟨s₁, h₁, hn⟩ := ih fun k s hk => hstep k s (Nat.lt_succ_of_lt hk)
    obtain ⟨s', hlast, hinv'⟩ := hstep n s₁ n.lt_succ_self hn
    exact ⟨s', Option.bind_eq_some_iff.mpr ⟨s₁, h₁, hlast⟩, hinv'⟩

end GaussKernel.Lib
