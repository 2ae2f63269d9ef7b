import Mathlib.Tactic

/-!
# Log replay

A primary changes its state and writes a log, and a standby redoes the log. A `Replay` says how one record is
redone, `none` being a record that does not fit the state it meets, and which states count as the same. The
judgement `Reproduces s log s'` says that redoing `log` from `s` succeeds and ends in a state that is the same
as `s'`. It is closed under concatenation of logs, under steps on one part of the state (`Reproduces.lift`),
under exchanging records that do not interfere (`Reproduces.swap`), and along runs (`Run.reproduces`).
-/

namespace GaussKernel.Lib

universe u v w

/-- How records of type `ρ` are redone on states of type `σ`, up to a relation that redoing respects. -/
structure Replay (σ : Type u) (ρ : Type v) where
  redo : σ → ρ → Option σ
  Same : σ → σ → Prop
  refl : ∀ s, Same s s
  trans : ∀ {s t u}, Same s t → Same t u → Same s u
  redo_same : ∀ {s t s' r}, Same s t → redo s r = some s' → ∃ t', redo t r = some t' ∧ Same s' t'

namespace Replay

variable {σ : Type u} {ρ : Type v} {τ : Type u} {κ : Type w} (R : Replay σ ρ)

/-- Redo a list of records in order. -/
def replay (s : σ) (log : List ρ) : Option σ :=
  log.foldlM R.redo s

/-- Redoing the log from `s` gives a state that is the same as `s'`. -/
def Reproduces (s : σ) (log : List ρ) (s' : σ) : Prop :=
  ∃ t, R.replay s log = some t ∧ R.Same s' t

/-- Replay goes record by record. -/
@[simp]
lemma replay_cons (s : σ) (r : ρ) (log : List ρ) :
    R.replay s (r :: log) = (R.redo s r).bind (R.replay · log) := rfl

/-- A log is replayed part by part. -/
lemma replay_append (s : σ) (log log' : List ρ) :
    R.replay s (log ++ log') = (R.replay s log).bind (R.replay · log') :=
  List.foldlM_append

variable {R}

/-- Replay keeps two states the same. -/
lemma replay_same {s t s' : σ} {log : List ρ} (h : R.Same s t) (hrun : R.replay s log = some s') :
    ∃ t', R.replay t log = some t' ∧ R.Same s' t' := by
  induction log generalizing s t with
  | nil =>
    cases hrun
    exact ⟨t, rfl, h⟩
  | cons r log ih =>
    obtain ⟨s₁, hs₁, hrun⟩ := Option.bind_eq_some_iff.mp hrun
    obtain ⟨t₁, ht₁, h₁⟩ := R.redo_same h hs₁
    obtain ⟨t', ht', h'⟩ := ih h₁ hrun
    exact ⟨t', Option.bind_eq_some_iff.mpr ⟨t₁, ht₁, ht'⟩, h'⟩

namespace Reproduces

/-- Nothing is logged when nothing changes. -/
lemma nil (s : σ) : R.Reproduces s [] s :=
  ⟨s, rfl, R.refl s⟩

/-- One record reproduces its step. -/
lemma single {s t s' : σ} {r : ρ} (h : R.redo s r = some t) (hs : R.Same s' t) :
    R.Reproduces s [r] s' :=
  ⟨t, Option.bind_eq_some_iff.mpr ⟨t, h, rfl⟩, hs⟩

/-- The logs of two steps reproduce both. -/
lemma append {s s₁ s₂ : σ} {log log' : List ρ} (h : R.Reproduces s log s₁)
    (h' : R.Reproduces s₁ log' s₂) : R.Reproduces s (log ++ log') s₂ := by
  obtain ⟨t₁, hrun, hsame⟩ := h
  obtain ⟨t, hrun', hsame'⟩ := h'
  obtain ⟨t₂, hrun₂, hsame₂⟩ := replay_same hsame hrun'
  refine ⟨t₂, ?_, R.trans hsame' hsame₂⟩
  rw [replay_append]
  exact Option.bind_eq_some_iff.mpr ⟨t₁, hrun, hrun₂⟩

/-- What is reproduced counts up to sameness. -/
lemma of_same {s s₁ s₂ : σ} {log : List ρ} (h : R.Reproduces s log s₁) (hs : R.Same s₂ s₁) :
    R.Reproduces s log s₂ := by
  obtain ⟨t, hrun, hsame⟩ := h
  exact ⟨t, hrun, R.trans hs hsame⟩

end Reproduces

/-! ## Records that do not interfere -/

/-- The two records can be redone in either order. -/
def Commutes (R : Replay σ ρ) (r r' : ρ) : Prop :=
  ∀ s, (R.redo s r).bind (R.redo · r') = (R.redo s r').bind (R.redo · r)

/-- Two records commute if each changes its own part of the state, and neither looks at the other's. -/
lemma Commutes.of_parts {α β : Type*} {r r' : ρ} {f : σ → Option α} {a : σ → α → σ} {g : σ → Option β}
    {b : σ → β → σ} (hr : ∀ s, R.redo s r = (f s).map (a s)) (hr' : ∀ s, R.redo s r' = (g s).map (b s))
    (hf : ∀ s y, f (b s y) = f s) (hg : ∀ s x, g (a s x) = g s)
    (hab : ∀ s x y, b (a s x) y = a (b s y) x) : R.Commutes r r' := by
  intro s
  simp only [hr, hr']
  cases hx : f s with
  | none =>
    cases g s with
    | none => rfl
    | some y => simp only [Option.map_none, Option.map_some, Option.bind_none, Option.bind_some, hf, hx]
  | some x =>
    cases hy : g s with
    | none => simp only [Option.map_none, Option.map_some, Option.bind_none, Option.bind_some, hg, hy]
    | some y => simp only [Option.map_some, Option.bind_some, hf, hg, hx, hy, hab]

/-- A record may be moved behind those that it commutes with. -/
lemma Commutes.replay_cons {r : ρ} {log : List ρ} (h : ∀ r' ∈ log, R.Commutes r r') (s : σ) :
    R.replay s (r :: log) = R.replay s (log ++ [r]) := by
  induction log generalizing s with
  | nil => rfl
  | cons t log ih =>
    have ht := h t List.mem_cons_self s
    have ih := ih fun r' hr => h r' (List.mem_cons_of_mem t hr)
    calc R.replay s (r :: t :: log)
        = ((R.redo s r).bind (R.redo · t)).bind (R.replay · log) := by
          rw [Replay.replay_cons, Option.bind_assoc]
          rfl
      _ = (R.redo s t).bind fun u => R.replay u (r :: log) := by
          rw [ht, Option.bind_assoc]
          rfl
      _ = R.replay s (t :: log ++ [r]) := by
          simp only [ih]
          rfl

/-- Logs that commute may be swapped. -/
lemma replay_swap {l m : List ρ} (h : ∀ r ∈ l, ∀ r' ∈ m, R.Commutes r r') (s : σ) :
    R.replay s (l ++ m) = R.replay s (m ++ l) := by
  induction l generalizing s with
  | nil => rw [List.nil_append, List.append_nil]
  | cons r l ih =>
    have hr := Commutes.replay_cons (h r List.mem_cons_self)
    have ih := ih fun r' hr' => h r' (List.mem_cons_of_mem r hr')
    calc R.replay s (r :: l ++ m)
        = (R.redo s r).bind fun u => R.replay u (l ++ m) := rfl
      _ = R.replay s ((r :: m) ++ l) := by
          simp only [ih]
          rfl
      _ = R.replay s ((m ++ [r]) ++ l) := by
          rw [replay_append, hr, ← replay_append]
      _ = R.replay s (m ++ r :: l) := by
          rw [List.append_assoc]
          rfl

/-- Records written at once may overtake pending ones that they do not interfere with. -/
lemma Reproduces.swap {s s' : σ} {k l m t : List ρ} (hc : ∀ r ∈ l, ∀ r' ∈ m, R.Commutes r r')
    (h : R.Reproduces s (k ++ l ++ (m ++ t)) s') : R.Reproduces s (k ++ m ++ (l ++ t)) s' := by
  have heq : R.replay s (k ++ l ++ (m ++ t)) = R.replay s (k ++ m ++ (l ++ t)) := by
    calc R.replay s (k ++ l ++ (m ++ t))
        = (R.replay s k).bind fun u => (R.replay u (l ++ m)).bind (R.replay · t) := by
          simp only [replay_append, Option.bind_assoc]
      _ = (R.replay s k).bind fun u => (R.replay u (m ++ l)).bind (R.replay · t) := by
          simp only [replay_swap hc]
      _ = R.replay s (k ++ m ++ (l ++ t)) := by
          simp only [replay_append, Option.bind_assoc]
  unfold Reproduces at h ⊢
  rwa [← heq]

/-! ## Parts of a state -/

/-- `R'` redoes the records `f r` as `R` redoes `r` on one part of the state. -/
structure Part (R : Replay σ ρ) (R' : Replay τ κ) where
  get : τ → σ
  set : τ → σ → τ
  record : ρ → κ
  get_set : ∀ t s, get (set t s) = s
  set_set : ∀ t s s', set (set t s) s' = set t s'
  set_get : ∀ t, set t (get t) = t
  redo_record : ∀ t r, R'.redo t (record r) = (R.redo (get t) r).map (set t)
  same_set : ∀ {t s s'}, R.Same s s' → R'.Same (set t s) (set t s')

/-- The records of a part replay as they do alone. -/
lemma Part.replay_map {R' : Replay τ κ} (p : R.Part R') (t : τ) (log : List ρ) :
    R'.replay t (log.map p.record) = (R.replay (p.get t) log).map (p.set t) := by
  induction log generalizing t with
  | nil => exact congrArg some (p.set_get t).symm
  | cons r log ih =>
    rw [List.map_cons, Replay.replay_cons, Replay.replay_cons, p.redo_record]
    cases R.redo (p.get t) r with
    | none => rfl
    | some s =>
      refine (ih (p.set t s)).trans ?_
      rw [p.get_set, funext (p.set_set t s)]
      rfl

/-- What reproduces a part reproduces the whole. -/
lemma Reproduces.lift {R' : Replay τ κ} (p : R.Part R') {t : τ} {log : List ρ} {s' : σ}
    (h : R.Reproduces (p.get t) log s') : R'.Reproduces t (log.map p.record) (p.set t s') := by
  obtain ⟨u, hrun, hsame⟩ := h
  exact ⟨p.set t u, by rw [p.replay_map, hrun]; rfl, p.same_set hsame⟩

/-! ## Runs -/

/-- A run of logged steps: the log of a run is the logs of its steps, one after the other. -/
inductive Run (step : σ → List ρ → σ → Prop) (s : σ) : List ρ → σ → Prop where
  | nil : Run step s [] s
  | snoc {log log' : List ρ} {s₁ s₂ : σ} (hrun : Run step s log s₁) (hstep : step s₁ log' s₂) :
      Run step s (log ++ log') s₂

/-- What every step keeps and every step's log reproduces, the log of the whole run reproduces. -/
theorem Run.reproduces {step : σ → List ρ → σ → Prop} {Inv : σ → Prop}
    (hstep : ∀ {s log s'}, Inv s → step s log s' → Inv s' ∧ R.Reproduces s log s')
    {s s' : σ} {log : List ρ} (hinv : Inv s) (hrun : Run step s log s') :
    Inv s' ∧ R.Reproduces s log s' := by
  induction hrun with
  | nil => exact ⟨hinv, .nil s⟩
  | snoc _ hlast ih =>
    obtain ⟨hinv₁, hrep⟩ := ih
    obtain ⟨hinv₂, hrep'⟩ := hstep hinv₁ hlast
    exact ⟨hinv₂, hrep.append hrep'⟩

end Replay

end GaussKernel.Lib
