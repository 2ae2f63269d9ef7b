import GaussKernel.Lib.Trace
import Mathlib.Data.Nat.ModEq

/-!
# Bounded queues

A queue that gives its elements out in the order in which they came, and holds at most `bound` of them. A run is told by
its operations, each with the element that it puts, takes or looks at.
-/

namespace GaussKernel.Lib

variable {α β : Type*}

inductive FifoOp (α : Type*)
  | put (a : α)
  | take (a : α)
  | top (a : α)
  deriving DecidableEq, Repr

namespace FifoOp

def putOf : FifoOp α → Option α
  | put a => some a
  | _ => none

def takenOf : FifoOp α → Option α
  | take a => some a
  | _ => none

def map (f : α → β) : FifoOp α → FifoOp β
  | put a => put (f a)
  | take a => take (f a)
  | top a => top (f a)

end FifoOp

def puts (ops : List (FifoOp α)) : List α := ops.filterMap FifoOp.putOf

def takes (ops : List (FifoOp α)) : List α := ops.filterMap FifoOp.takenOf

inductive FifoStep (bound : ℕ) : List α → FifoOp α → List α → Prop
  | put {items : List α} (a : α) (hroom : items.length < bound) : FifoStep bound items (.put a) (items ++ [a])
  | take (a : α) (items : List α) : FifoStep bound (a :: items) (.take a) items
  | top (a : α) (items : List α) : FifoStep bound (a :: items) (.top a) (a :: items)

variable {bound : ℕ} {ops : List (FifoOp α)} {items items₀ : List α}

/-- What was put is what was taken and what is there, in order. -/
lemma fifo_split (h : Trace (FifoStep bound) items₀ ops items) : items₀ ++ puts ops = takes ops ++ items := by
  induction h with
  | nil items => exact List.append_nil items
  | cons hstep _ ih =>
    cases hstep with
    | put a _ => exact (List.append_assoc _ [a] _).symm.trans ih
    | take a => exact congrArg (a :: ·) ih
    | top a => exact ih

lemma fifo_order (h : Trace (FifoStep bound) [] ops items) : takes ops <+: puts ops := ⟨items, (fifo_split h).symm⟩

/-- What is there is what was put and not yet taken. -/
lemma fifo_items (h : Trace (FifoStep bound) [] ops items) : (puts ops).drop (takes ops).length = items := by
  have hsplit : puts ops = takes ops ++ items := fifo_split h
  rw [hsplit, List.drop_left]

lemma fifo_length_le (h : Trace (FifoStep bound) items₀ ops items) (hle : items₀.length ≤ bound) :
    items.length ≤ bound := by
  induction h with
  | nil items => exact hle
  | cons hstep _ ih =>
    apply ih
    cases hstep with
    | put a hroom =>
      rw [List.length_append]
      exact hroom
    | take a => exact Nat.le_of_succ_le hle
    | top a => exact hle

/-- An element that is looked at is the one taken next. -/
lemma fifo_top_take {pre mid post : List (FifoOp α)} {a b : α}
    (h : Trace (FifoStep bound) items₀ (pre ++ .top a :: (mid ++ .take b :: post)) items) (hmid : takes mid = []) :
    b = a := by
  obtain ⟨_, items₁, _, htop, hrest⟩ := h.at_event
  obtain ⟨items₂, _, hbetween, htake, _⟩ := hrest.at_event
  have hsplit := fifo_split hbetween
  rw [hmid, List.nil_append] at hsplit
  cases htop with
  | top a rest =>
    cases htake with
    | take b rest' => exact (List.cons.inj hsplit).1.symm

/-- A run on the images of the elements. -/
lemma fifo_map (f : α → β) (h : Trace (FifoStep bound) items₀ ops items) :
    Trace (FifoStep bound) (items₀.map f) (ops.map (FifoOp.map f)) (items.map f) := by
  induction h with
  | nil items => exact .nil _
  | cons hstep _ ih =>
    refine .cons ?_ ih
    cases hstep with
    | put a hroom =>
      rw [List.map_append]
      exact .put (f a) (by rwa [List.length_map])
    | take a => exact .take (f a) _
    | top a => exact .top (f a) _

/-! ## The slots of a ring -/

variable {n N p r i j : ℕ}

/-- How far two places are apart is seen in their slots, with a difference that wraps at a multiple of the ring. -/
lemma ring_distance (hN : n ∣ N) (hpos : 0 < N) (hle : r ≤ p) (hlt : p < r + n) :
    (N - r % n + p % n) % n = p - r := by
  obtain ⟨d, rfl⟩ := Nat.exists_eq_add_of_le hle
  have hd : d < n := Nat.lt_of_add_lt_add_left hlt
  have hrem : r % n ≤ N := (Nat.mod_lt r (Nat.zero_lt_of_lt hd)).le.trans (Nat.le_of_dvd hpos hN)
  have hdiv := Nat.div_add_mod r n
  have hsum : N - r % n + (r + d) = N + n * (r / n) + d := by omega
  obtain ⟨c, rfl⟩ := hN
  rw [Nat.add_mod_mod, hsum, Nat.add_assoc, Nat.mul_add_mod, Nat.mul_add_mod, Nat.mod_eq_of_lt hd,
    Nat.add_sub_cancel_left]

/-- Fewer places than the ring has slots are in different slots. -/
lemma ring_slot_ne (hij : i < j) (hj : j < i + n) : i % n ≠ j % n := by
  intro heq
  have hdvd : n ∣ j - i := (Nat.modEq_iff_dvd' hij.le).mp heq
  have hle := Nat.le_of_dvd (Nat.sub_pos_of_lt hij) hdvd
  omega

end GaussKernel.Lib
