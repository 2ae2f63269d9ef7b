import Mathlib.Tactic

/-!
# Guarded redo

A log whose records carry a test for having been applied already. A `Redo` says how a record is applied and
when it counts as seen; replaying skips what was seen. Applying a record makes it seen, and nothing makes a
record unseen again, so that replaying a part of the log once more changes nothing (`replay_again`).
-/

namespace GaussKernel.Lib

universe u v

/-- How records of type `ρ` are redone on states of type `σ`. -/
structure Redo (σ : Type u) (ρ : Type v) where
  seen : σ → ρ → Bool
  apply : σ → ρ → σ
  seen_apply : ∀ s r, seen (apply s r) r = true
  seen_mono : ∀ s r r', seen s r = false → seen s r' = true → seen (apply s r) r' = true

namespace Redo

variable {σ : Type u} {ρ : Type v} (R : Redo σ ρ)

/-- Redo one record. -/
def step (s : σ) (r : ρ) : σ :=
  if R.seen s r then s else R.apply s r

/-- Redo a list of records in order. -/
def replay (s : σ) (rs : List ρ) : σ :=
  rs.foldl R.step s

@[simp]
lemma replay_nil (s : σ) : R.replay s [] = s := rfl

@[simp]
lemma replay_cons (s : σ) (r : ρ) (rs : List ρ) :
    R.replay s (r :: rs) = R.replay (R.step s r) rs := rfl

lemma replay_append (s : σ) (rs ts : List ρ) :
    R.replay s (rs ++ ts) = R.replay (R.replay s rs) ts :=
  List.foldl_append

variable {R}

lemma step_of_seen {s : σ} {r : ρ} (h : R.seen s r = true) : R.step s r = s :=
  if_pos h

lemma step_of_unseen {s : σ} {r : ρ} (h : R.seen s r = false) : R.step s r = R.apply s r := by
  rw [step, h, if_neg Bool.false_ne_true]

lemma seen_step (s : σ) (r : ρ) : R.seen (R.step s r) r = true := by
  cases h : R.seen s r with
  | true => rw [step_of_seen h, h]
  | false => rw [step_of_unseen h, R.seen_apply]

lemma seen_step_mono {s : σ} (r : ρ) {r' : ρ} (h' : R.seen s r' = true) :
    R.seen (R.step s r) r' = true := by
  cases h : R.seen s r with
  | true => rw [step_of_seen h, h']
  | false => rw [step_of_unseen h, R.seen_mono s r r' h h']

lemma seen_replay_mono {s : σ} (rs : List ρ) {r : ρ} (h : R.seen s r = true) :
    R.seen (R.replay s rs) r = true := by
  induction rs generalizing s with
  | nil => exact h
  | cons t rs ih => exact ih (seen_step_mono t h)

/-- Every replayed record is seen. -/
lemma seen_replay {s : σ} {rs : List ρ} {r : ρ} (hr : r ∈ rs) :
    R.seen (R.replay s rs) r = true := by
  induction rs generalizing s with
  | nil => cases hr
  | cons t rs ih =>
    rcases List.mem_cons.mp hr with rfl | hr
    · exact seen_replay_mono rs (seen_step s r)
    · exact ih hr

/-- Replaying seen records is a no-op. -/
lemma replay_of_seen {s : σ} {rs : List ρ} (h : ∀ r ∈ rs, R.seen s r = true) :
    R.replay s rs = s := by
  induction rs with
  | nil => rfl
  | cons t rs ih =>
    rw [replay_cons, step_of_seen (h t List.mem_cons_self)]
    exact ih fun r hr => h r (List.mem_cons_of_mem t hr)

/-- A first part of the log may be replayed before the whole log is. -/
theorem replay_again (s : σ) (rs : List ρ) (k : Nat) :
    R.replay s (rs.take k ++ rs) = R.replay s rs := by
  have hsplit : rs.take k ++ rs.drop k = rs := List.take_append_drop k rs
  calc R.replay s (rs.take k ++ rs)
      = R.replay (R.replay s (rs.take k)) (rs.take k ++ rs.drop k) := by
        rw [replay_append, hsplit]
    _ = R.replay (R.replay (R.replay s (rs.take k)) (rs.take k)) (rs.drop k) := replay_append ..
    _ = R.replay (R.replay s (rs.take k)) (rs.drop k) := by
        rw [replay_of_seen fun r hr => seen_replay hr]
    _ = R.replay s rs := by
        rw [← replay_append, hsplit]

end Redo

end GaussKernel.Lib
