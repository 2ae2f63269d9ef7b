import GaussKernel.Lib.Circular

/-!
# Queues in shared memory

The operations of `shmqueue.cpp` on the links of the elements. A link that is followed and is `NULL` gives `none`.
-/

namespace GaussKernel.Replication

open GaussKernel.Lib
open Function (update update_self update_of_ne)

variable {E : Type*} [DecidableEq E]

def shmQueueIsDetached (ln : Links E) (queue : E) : Bool := (ln.prev queue).isNone

def shmQueueElemInit (ln : Links E) (queue : E) : Links E := (ln.setPrev queue none).setNext queue none

def shmQueueDelete (ln : Links E) (queue : E) : Option (Links E) := do
  let nextElem ← ln.next queue
  let prevElem ← ln.prev queue
  let ln := ln.setNext prevElem (ln.next queue)
  let ln := ln.setPrev nextElem (ln.prev queue)
  some ((ln.setNext queue none).setPrev queue none)

def shmQueueInsertAfter (ln : Links E) (queue elem : E) : Option (Links E) := do
  let nextPtr ← ln.next queue
  let ln := ln.setPrev elem (ln.prev nextPtr)
  let ln := ln.setNext elem (ln.next queue)
  let ln := ln.setNext queue (some elem)
  some (ln.setPrev nextPtr (some elem))

/-- The next element, `some none` at the head of the queue. -/
def shmQueueNext (ln : Links E) (queue curElem : E) : Option (Option E) := do
  let elemPtr ← ln.next curElem
  if elemPtr = queue then some none else some (some elemPtr)

def shmQueuePrev (ln : Links E) (queue curElem : E) : Option (Option E) := do
  let elemPtr ← ln.prev curElem
  if elemPtr = queue then some none else some (some elemPtr)

variable {ln : Links E} {head p e : E} {l l₁ l₂ front back : List E}

/-- An element gets in between its place and what stood after it. -/
lemma shmQueueInsertAfter_spec (h : Circular ln head l) (hl : head :: l = front ++ p :: back) (he : e ∉ head :: l) :
    ∃ ln', shmQueueInsertAfter ln p e = some ln' ∧
      (∀ l', head :: l' = front ++ p :: e :: back → Circular ln' head l') ∧ ln.SameOff ln' (e :: head :: l) := by
  obtain ⟨n, rest, hn, ⟨hnext, hprev⟩, hw⟩ := h.exists_next hl
  have hp : p ∈ head :: l := hl ▸ List.mem_append_right _ List.mem_cons_self
  have hpe : p ≠ e := fun heq => he (heq ▸ hp)
  have hne : n ≠ e := fun heq => he (heq ▸ hn)
  refine ⟨⟨update (update ln.next e (some n)) p (some e),
    update (update ln.prev e (some p)) n (some e)⟩, ?_, fun l' hl' => ?_, fun a ha => ?_⟩
  · unfold shmQueueInsertAfter
    rw [hnext]
    simp only [Option.bind_eq_bind, Option.bind_some, Links.setNext, Links.setPrev, hprev, hnext]
  · have hafter : back ++ [head] = n :: rest := by
      rw [← List.cons_append, hl, List.append_assoc, List.cons_append] at hw
      exact (List.cons.inj (List.append_cancel_left hw)).2
    have hw' : head :: (l' ++ [head]) = front ++ p :: e :: n :: rest := by
      rw [← List.cons_append, hl', List.append_assoc, List.cons_append, List.cons_append, hafter]
    refine h.insert hw hw' ?_ ⟨?_, ?_⟩ ⟨?_, ?_⟩ (fun a ha hap => ?_) fun a ha han => ?_
    · have hnodup : (e :: (front ++ p :: back)).Nodup := List.nodup_cons.mpr ⟨hl ▸ he, hl ▸ h.nodup⟩
      rw [hl']
      refine (List.Perm.nodup_iff ?_).mp hnodup
      rw [List.append_cons front p (e :: back), List.append_cons front p back]
      exact List.perm_middle.symm
    · exact update_self _ _ _
    · exact (update_of_ne hne.symm _ _).trans (update_self _ _ _)
    · exact (update_of_ne hpe.symm _ _).trans (update_self _ _ _)
    · exact update_self _ _ _
    · have hae : a ≠ e := fun heq => he (heq ▸ ha)
      exact (update_of_ne hap _ _).trans (update_of_ne hae _ _)
    · have hae : a ≠ e := fun heq => he (heq ▸ ha)
      exact (update_of_ne han _ _).trans (update_of_ne hae _ _)
  · have hae : a ≠ e := fun heq => ha (heq ▸ List.mem_cons_self)
    have hap : a ≠ p := fun heq => ha (List.mem_cons_of_mem _ (heq ▸ hp))
    have han : a ≠ n := fun heq => ha (List.mem_cons_of_mem _ (heq ▸ hn))
    exact ⟨(update_of_ne hap _ _).trans (update_of_ne hae _ _),
      (update_of_ne han _ _).trans (update_of_ne hae _ _)⟩

lemma shmQueueDelete_spec (h : Circular ln head (l₁ ++ e :: l₂)) :
    ∃ ln', shmQueueDelete ln e = some ln' ∧ Circular ln' head (l₁ ++ l₂) ∧ ln'.next e = none ∧ ln'.prev e = none ∧
      ln.SameOff ln' (head :: (l₁ ++ e :: l₂)) := by
  obtain ⟨p, n, hp, hn, hpe, hne, ⟨-, hprev⟩, ⟨hnext, -⟩, hrest⟩ := h.erase
  have hp : p ∈ head :: l₁ := List.mem_of_getLast? hp
  have hn : n = head ∨ n ∈ l₂ := by
    have : n ∈ l₂ ++ [head] := List.mem_of_mem_head? hn
    exact (List.mem_append.mp this).symm.imp_left List.mem_singleton.mp
  refine ⟨⟨update (update ln.next p (some n)) e none,
    update (update ln.prev n (some p)) e none⟩, ?_, ?_, update_self _ _ _,
    update_self _ _ _, fun a ha => ?_⟩
  · unfold shmQueueDelete
    rw [hnext, hprev]
    simp only [Option.bind_eq_bind, Option.bind_some, Links.setNext, Links.setPrev, hprev]
  · refine hrest _ ⟨?_, ?_⟩ (fun a _ hap hae => ?_) fun a _ han hae => ?_
    · exact (update_of_ne hpe _ _).trans (update_self _ _ _)
    · exact (update_of_ne hne _ _).trans (update_self _ _ _)
    · exact (update_of_ne hae _ _).trans (update_of_ne hap _ _)
    · exact (update_of_ne hae _ _).trans (update_of_ne han _ _)
  · have hmem : ∀ b ∈ head :: l₁ ++ e :: l₂, a ≠ b := fun b hb heq => ha (heq ▸ hb)
    have hae : a ≠ e := hmem e (List.mem_append_right _ List.mem_cons_self)
    have hap : a ≠ p := hmem p (List.mem_append_left _ hp)
    have han : a ≠ n := by
      rcases hn with rfl | hn
      · exact hmem n List.mem_cons_self
      · exact hmem n (List.mem_append_right _ (List.mem_cons_of_mem _ hn))
    exact ⟨(update_of_ne hae _ _).trans (update_of_ne hap _ _),
      (update_of_ne hae _ _).trans (update_of_ne han _ _)⟩

end GaussKernel.Replication
