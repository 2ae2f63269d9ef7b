import Mathlib.Data.List.Basic

/-!
# Traces

A `Trace` is a run of a labelled step relation with the labels it went through, so that the order of two steps of a run
can be spoken of. An invariant of every step holds at the end of every trace, and an event of a trace splits it into
what went before it, its step, and what came after it.
-/

namespace GaussKernel.Lib

universe u v

variable {σ : Type u} {ε : Type v}

inductive Trace (step : σ → ε → σ → Prop) : σ → List ε → σ → Prop where
  | nil (s : σ) : Trace step s [] s
  | cons {s s₁ s' : σ} {e : ε} {es : List ε} (hstep : step s e s₁) (hrest : Trace step s₁ es s') :
      Trace step s (e :: es) s'

namespace Trace

variable {step : σ → ε → σ → Prop} {s s' : σ} {es es' : List ε} {e : ε}

lemma append {s₁ : σ} (h : Trace step s es s₁) (h' : Trace step s₁ es' s') : Trace step s (es ++ es') s' := by
  induction h with
  | nil => exact h'
  | cons hstep _ ih => exact .cons hstep (ih h')

lemma of_append : ∀ {es : List ε} {s : σ}, Trace step s (es ++ es') s' →
    ∃ s₁, Trace step s es s₁ ∧ Trace step s₁ es' s'
  | [], s, h => ⟨s, .nil s, h⟩
  | _ :: _, _, .cons hstep hrest => by
    obtain ⟨s₁, h, h'⟩ := of_append hrest
    exact ⟨s₁, .cons hstep h, h'⟩

/-- The states right before and right after an event. -/
lemma at_event (h : Trace step s (es ++ e :: es') s') :
    ∃ s₁ s₂, Trace step s es s₁ ∧ step s₁ e s₂ ∧ Trace step s₂ es' s' := by
  obtain ⟨s₁, hpre, hpost⟩ := of_append h
  cases hpost with
  | cons hstep hrest => exact ⟨s₁, _, hpre, hstep, hrest⟩

/-- What the start has and every step keeps, the end has. -/
lemma invariant {Inv : σ → Prop} (hstep : ∀ {s e s'}, Inv s → step s e s' → Inv s') (h : Trace step s es s')
    (hinv : Inv s) : Inv s' := by
  induction h with
  | nil => exact hinv
  | cons hone _ ih => exact ih (hstep hinv hone)

/-- The same, of a property of the events so far and the state. -/
lemma history (Inv : List ε → σ → Prop) (es₀ : List ε)
    (hstep : ∀ {es s e s'}, Inv es s → step s e s' → Inv (es ++ [e]) s')
    (h : Trace step s es s') (hinv : Inv es₀ s) : Inv (es₀ ++ es) s' := by
  induction h generalizing es₀ with
  | nil s => rwa [List.append_nil]
  | cons hone _ ih =>
    have := ih _ (hstep hinv hone)
    rwa [List.append_assoc, List.singleton_append] at this

/-- Forward simulation: a step is matched by a step of the other system where it shows an event of that system, and by
none where it does not. -/
lemma simulate {τ : Type*} {δ : Type*} {step' : τ → δ → τ → Prop} {shows : ε → Option δ} {R : σ → τ → Prop}
    (hsilent : ∀ {s e s' t}, R s t → step s e s' → shows e = none → R s' t)
    (hshown : ∀ {s e s' t d}, R s t → step s e s' → shows e = some d → ∃ t', step' t d t' ∧ R s' t')
    (h : Trace step s es s') {t : τ} (hR : R s t) : ∃ t', Trace step' t (es.filterMap shows) t' ∧ R s' t' := by
  induction h generalizing t with
  | nil s => exact ⟨t, .nil t, hR⟩
  | @cons s s₁ s' e es hone hrest ih =>
    cases he : shows e with
    | none =>
      rw [List.filterMap_cons_none he]
      exact ih (hsilent hR hone he)
    | some d =>
      obtain ⟨t₁, hd, hR₁⟩ := hshown hR hone he
      obtain ⟨t', htrace, hR'⟩ := ih hR₁
      rw [List.filterMap_cons_some he]
      exact ⟨t', .cons hd htrace, hR'⟩

end Trace

end GaussKernel.Lib
