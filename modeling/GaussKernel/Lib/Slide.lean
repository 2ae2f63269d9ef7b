import GaussKernel.Lib.Bytes

/-!
# Sliding blocks together

Blocks of a memory, each with a source `src b` and a length `len b`, are moved up one after the other, the first one
against `top` and every other one against its predecessor (`slide`). Where the blocks are taken in decreasing order of
their sources, the moves go in place: a block is moved before anything is written over it.
-/

namespace GaussKernel.Lib

variable {β : Type*} (src len : β → Nat)

/-- The memory after the moves. -/
def slide (m : Mem) (top : Nat) : List β → Mem
  | [] => m
  | b :: bs => slide (m.write (top - len b) (m.read (src b) (len b))) (top - len b) bs

/-- The lowest place that is written to. -/
def slideEnd (top : Nat) (bs : List β) : Nat := top - (bs.map len).sum

/-- The blocks lie below `top`, each one below its predecessor. -/
structure Descending (top : Nat) (bs : List β) : Prop where
  le_top : ∀ b ∈ bs, src b + len b ≤ top
  pairwise : bs.Pairwise fun a b => src b + len b ≤ src a

variable {src len} {top : Nat} {b x : β} {bs : List β}

lemma Descending.head (h : Descending src len top (b :: bs)) : src b + len b ≤ top := h.le_top b List.mem_cons_self

/-- After the first move the others still lie below the place it went to. -/
lemma Descending.tail (h : Descending src len top (b :: bs)) : Descending src len (top - len b) bs where
  le_top x hx := by
    have hbelow := List.rel_of_pairwise_cons h.pairwise hx
    have hhead := h.head
    omega
  pairwise := h.pairwise.of_cons

/-- The blocks fit below `top`. -/
lemma Descending.sum_le (h : Descending src len top bs) : (bs.map len).sum ≤ top := by
  induction bs generalizing top with
  | nil => exact Nat.zero_le _
  | cons b bs ih =>
    have hrest := ih h.tail
    have hhead := h.head
    rw [List.map_cons, List.sum_cons]
    omega

lemma slideEnd_cons (top : Nat) (b : β) (bs : List β) : slideEnd len top (b :: bs) = slideEnd len (top - len b) bs := by
  rw [slideEnd, slideEnd, List.map_cons, List.sum_cons, Nat.sub_add_eq]

lemma slideEnd_le (top : Nat) (bs : List β) : slideEnd len top bs ≤ top := Nat.sub_le _ _

lemma slideEnd_even (htop : 2 ∣ top) (hlen : ∀ b ∈ bs, 2 ∣ len b) : 2 ∣ slideEnd len top bs := by
  apply Nat.dvd_sub htop
  apply List.dvd_sum
  intro l hl
  obtain ⟨b, hb, rfl⟩ := List.mem_map.mp hl
  exact hlen b hb

/-- Nothing else is written to. -/
lemma slide_out (h : Descending src len top bs) (m : Mem) {a : Nat} (ha : a < slideEnd len top bs ∨ top ≤ a) :
    slide src len m top bs a = m a := by
  induction bs generalizing top m with
  | nil => rfl
  | cons b bs ih =>
    have hhead := h.head
    have hend : slideEnd len (top - len b) bs ≤ top - len b := slideEnd_le _ _
    rw [slideEnd_cons] at ha
    rw [slide, ih h.tail _ (by omega)]
    apply Mem.write_out
    rw [Mem.read_length]
    omega

/-- The moves do not depend on what lies below the blocks. -/
lemma slide_congr {low : Nat} (hsrc : ∀ b ∈ bs, low ≤ src b) {m m' : Mem} (hm : ∀ a, low ≤ a → m a = m' a) {a : Nat}
    (ha : low ≤ a) : slide src len m top bs a = slide src len m' top bs a := by
  induction bs generalizing top m m' with
  | nil => exact hm a ha
  | cons b bs ih =>
    apply ih fun x hx => hsrc x (List.mem_cons_of_mem _ hx)
    intro a ha
    have hread : m.read (src b) (len b) = m'.read (src b) (len b) :=
      Mem.read_congr fun i _ => hm _ (Nat.le_add_right_of_le (hsrc b List.mem_cons_self))
    rw [Mem.write, Mem.write, hread, hm a ha]

/-! ## The places of the blocks -/

section

variable [DecidableEq β]

variable (len) in
/-- Where a block of the list is moved to. -/
def slideTo (top : Nat) : List β → β → Nat
  | [], _ => top
  | b :: bs, x => if x = b then top - len b else slideTo (top - len b) bs x

lemma slideTo_head (top : Nat) (b : β) (bs : List β) : slideTo len top (b :: bs) b = top - len b := if_pos rfl

lemma slideTo_tail (hne : x ≠ b) (top : Nat) (bs : List β) :
    slideTo len top (b :: bs) x = slideTo len (top - len b) bs x :=
  if_neg hne

section

variable (h : Descending src len top bs)
include h

/-- A block is moved into what is written to. -/
lemma slideTo_bounds (hx : x ∈ bs) :
    slideEnd len top bs ≤ slideTo len top bs x ∧ slideTo len top bs x + len x ≤ top := by
  induction bs generalizing top with
  | nil => cases hx
  | cons b bs ih =>
    have hhead := h.head
    rw [slideEnd_cons]
    by_cases hxb : x = b
    · subst hxb
      rw [slideTo_head]
      exact ⟨slideEnd_le _ _, by omega⟩
    · have hrest := ih h.tail (List.mem_of_ne_of_mem hxb hx)
      rw [slideTo_tail hxb]
      exact ⟨hrest.1, by omega⟩

/-- The blocks lie one below the other after the moves, too. -/
lemma slideTo_pairwise (hnodup : bs.Nodup) :
    bs.Pairwise fun a b => slideTo len top bs b + len b ≤ slideTo len top bs a := by
  induction bs generalizing top with
  | nil => exact .nil
  | cons b bs ih =>
    obtain ⟨hb, hrest⟩ := List.nodup_cons.mp hnodup
    have hne : ∀ x ∈ bs, x ≠ b := fun x hx he => hb (he ▸ hx)
    refine .cons (fun x hx => ?_) ?_
    · rw [slideTo_head, slideTo_tail (hne x hx)]
      exact (slideTo_bounds h.tail hx).2
    · refine (ih h.tail hrest).imp_of_mem fun {x y} hx hy hxy => ?_
      rwa [slideTo_tail (hne x hx), slideTo_tail (hne y hy)]

lemma slideTo_apart (hnodup : bs.Nodup) (hb : b ∈ bs) (hx : x ∈ bs) (hne : b ≠ x) :
    slideTo len top bs b + len b ≤ slideTo len top bs x ∨ slideTo len top bs x + len x ≤ slideTo len top bs b := by
  have hsymm : Std.Symm fun a b => slideTo len top bs a + len a ≤ slideTo len top bs b ∨
      slideTo len top bs b + len b ≤ slideTo len top bs a := ⟨fun _ _ => Or.symm⟩
  have hpair : bs.Pairwise fun a b => slideTo len top bs a + len a ≤ slideTo len top bs b ∨
      slideTo len top bs b + len b ≤ slideTo len top bs a := (slideTo_pairwise h hnodup).imp Or.inr
  exact hpair.forall hb hx hne

/-- A block has its bytes where it was moved to. -/
lemma slide_read (m : Mem) (hx : x ∈ bs) :
    (slide src len m top bs).read (slideTo len top bs x) (len x) = m.read (src x) (len x) := by
  induction bs generalizing top m with
  | nil => cases hx
  | cons b bs ih =>
    have hhead := h.head
    by_cases hxb : x = b
    · subst hxb
      have hmoved := Mem.read_write m (top - len x) (m.read (src x) (len x))
      rw [Mem.read_length] at hmoved
      rw [slide, slideTo_head]
      refine Eq.trans (Mem.read_congr fun i _ => ?_) hmoved
      exact slide_out h.tail _ (.inr (Nat.le_add_right _ _))
    · have hx' := List.mem_of_ne_of_mem hxb hx
      have hbelow := List.rel_of_pairwise_cons h.pairwise hx'
      rw [slide, slideTo_tail hxb, ih h.tail _ hx']
      -- the block lies below the place of the first move
      exact Mem.read_write_out (.inl (by omega))

end

/-- Blocks of even lengths go to even places below an even one. -/
lemma slideTo_even (htop : 2 ∣ top) (hlen : ∀ b ∈ bs, 2 ∣ len b) (x : β) : 2 ∣ slideTo len top bs x := by
  induction bs generalizing top with
  | nil => exact htop
  | cons b bs ih =>
    have hhead := Nat.dvd_sub htop (hlen b List.mem_cons_self)
    rw [slideTo]
    split
    · exact hhead
    · exact ih hhead fun y hy => hlen y (List.mem_cons_of_mem _ hy)

end

end GaussKernel.Lib
