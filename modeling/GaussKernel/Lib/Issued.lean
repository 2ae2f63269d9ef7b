import Mathlib.Data.List.Perm.Basic
import Mathlib.Logic.Function.Basic
import Mathlib.Order.Nat

/-!
# Issued numbers

Users draw numbers from a counter, hold a number for a while, and then leave it in a table. `Issued` says that no number
is out twice: what is in hand and what lies in the table are all different, and the counter, where it is known, is above
them. A counter that was lost may be set again to any number above all that are out.
-/

namespace GaussKernel.Lib

variable {U : Type*}

/-- `hand` is what a user holds, `live` the numbers in the table, `next` the counter. -/
structure Issued (hand : U → Option ℕ) (live : List ℕ) (next : Option ℕ) : Prop where
  inj : ∀ u v n, hand u = some n → hand v = some n → u = v
  apart : ∀ u n, hand u = some n → n ∉ live
  nodup : live.Nodup
  handBelow : ∀ c, next = some c → ∀ u n, hand u = some n → n < c
  liveBelow : ∀ c, next = some c → ∀ n ∈ live, n < c

namespace Issued

variable {hand hand' : U → Option ℕ} {live live' : List ℕ} {next next' : Option ℕ} {u : U} {n c : ℕ}

lemma empty : Issued (fun _ : U => none) [] next :=
  ⟨fun _ _ _ h => (nomatch h), fun _ _ h => (nomatch h), List.nodup_nil, fun _ _ _ _ h => (nomatch h),
    fun _ _ _ h => (nomatch h)⟩

/-- Giving numbers up, or losing the counter. -/
lemma drop (h : Issued hand live next) (hhand : ∀ u n, hand' u = some n → hand u = some n)
    (hlive : live'.Sublist live) (hnext : ∀ c, next' = some c → next = some c) : Issued hand' live' next' where
  inj u v n hu hv := h.inj u v n (hhand u n hu) (hhand v n hv)
  apart u n hu hn := h.apart u n (hhand u n hu) (hlive.subset hn)
  nodup := h.nodup.sublist hlive
  handBelow c hc u n hu := h.handBelow c (hnext c hc) u n (hhand u n hu)
  liveBelow c hc n hn := h.liveBelow c (hnext c hc) n (hlive.subset hn)

/-- The table holds other numbers than before, all different, and none that is in hand. -/
lemma replace (h : Issued hand live next) (hnodup : live'.Nodup) (hapart : ∀ u n, hand u = some n → n ∉ live') :
    Issued hand live' none where
  inj := h.inj
  apart := hapart
  nodup := hnodup
  handBelow _ hc := (nomatch hc)
  liveBelow _ hc := (nomatch hc)

/-- The counter is set above all that is out. -/
lemma reset (h : Issued hand live next) (hhand : ∀ u n, hand u = some n → n < c) (hlive : ∀ n ∈ live, n < c) :
    Issued hand live (some c) where
  inj := h.inj
  apart := h.apart
  nodup := h.nodup
  handBelow _ hc := by cases hc; exact hhand
  liveBelow _ hc := by cases hc; exact hlive

section Update

variable [DecidableEq U]

/-- A user draws the number of the counter. -/
lemma draw (h : Issued hand live (some c)) : Issued (Function.update hand u (some c)) live (some (c + 1)) := by
  have hother : ∀ {v n}, v ≠ u → Function.update hand u (some c) v = some n → hand v = some n := fun hv hn => by
    rwa [Function.update_of_ne hv] at hn
  have hself : ∀ {n}, Function.update hand u (some c) u = some n → n = c := fun hn => by
    rw [Function.update_self] at hn
    exact (Option.some.inj hn).symm
  refine ⟨fun v w n hv hw => ?_, fun v n hv hn => ?_, h.nodup, fun d hd v n hv => ?_, fun d hd n hn => ?_⟩
  · by_cases hvu : v = u
    · by_cases hwu : w = u
      · rw [hvu, hwu]
      · have hlt := h.handBelow c rfl w n (hother hwu hw)
        rw [hvu] at hv
        exact absurd (hself hv) hlt.ne
    · have hlt := h.handBelow c rfl v n (hother hvu hv)
      by_cases hwu : w = u
      · rw [hwu] at hw
        exact absurd (hself hw) hlt.ne
      · exact h.inj v w n (hother hvu hv) (hother hwu hw)
  · by_cases hvu : v = u
    · rw [hvu] at hv
      exact absurd (hself hv) (h.liveBelow c rfl n hn).ne
    · exact h.apart v n (hother hvu hv) hn
  · cases hd
    by_cases hvu : v = u
    · rw [hvu] at hv
      exact (hself hv).trans_lt (Nat.lt_succ_self c)
    · exact (h.handBelow c rfl v n (hother hvu hv)).trans (Nat.lt_succ_self c)
  · cases hd
    exact (h.liveBelow c rfl n hn).trans (Nat.lt_succ_self c)

/-- A user leaves the number that it holds in the table. -/
lemma place (h : Issued hand live next) (hu : hand u = some n) (hlive : live'.Perm (n :: live)) :
    Issued (Function.update hand u none) live' next := by
  have hother : ∀ {v m}, Function.update hand u none v = some m → v ≠ u ∧ hand v = some m := by
    intro v m hv
    by_cases hvu : v = u
    · rw [hvu, Function.update_self] at hv
      cases hv
    · rw [Function.update_of_ne hvu] at hv
      exact ⟨hvu, hv⟩
  refine ⟨fun v w m hv hw => h.inj v w m (hother hv).2 (hother hw).2, fun v m hv hm => ?_,
    (hlive.nodup_iff).2 (List.nodup_cons.2 ⟨h.apart u n hu, h.nodup⟩),
    fun c hc v m hv => h.handBelow c hc v m (hother hv).2, fun c hc m hm => ?_⟩
  · obtain ⟨hne, hv⟩ := hother hv
    rcases List.mem_cons.1 (hlive.subset hm) with rfl | hm
    · exact hne (h.inj v u m hv hu)
    · exact h.apart v m hv hm
  · rcases List.mem_cons.1 (hlive.subset hm) with rfl | hm
    · exact h.handBelow c hc u m hu
    · exact h.liveBelow c hc m hm

end Update

end Issued

end GaussKernel.Lib
