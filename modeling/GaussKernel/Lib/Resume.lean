import GaussKernel.Lib.Bytes

/-!
# Resumable copying

A byte string made of several chunks is copied to a page that may end in the middle of a chunk. The copy
is then resumed on the next page from the first chunk again, knowing only how many bytes were copied
before. `Cursor` is the state of one such pass: the position in the page, how many of the old bytes are
still to be skipped (`my`), and the running count (`already`). `Cursor.step` is the copying of one chunk.

`putAll` copies a list of chunks into a memory; `putAll_page`, `putAll_done` and `putAll_already` say what
one pass does in terms of the joined bytes alone, so that no later argument looks at chunk boundaries.
-/

namespace GaussKernel.Lib

/-- State of one resumable pass over the chunks. -/
structure Cursor where
  ptr : Nat
  my : Nat
  already : Nat
  deriving DecidableEq, Repr

namespace Cursor

/-- Copy one chunk of `len` bytes to a page that ends at `limit`: the new state, the number of bytes
    copied, and whether the chunk is complete. -/
def step (limit len : Nat) (c : Cursor) : Cursor × Nat × Bool :=
  if len ≤ c.my then ({ c with my := c.my - len }, 0, true)
  else
    let remaining := len - c.my
    let can := min remaining (limit - c.ptr)
    if can = 0 then (c, 0, false)
    else ({ ptr := c.ptr + can, my := 0, already := c.already + can }, can, can == remaining)

variable {limit : Nat}

/-- A chunk copied by earlier passes is skipped. -/
lemma step_skip {len : Nat} {c : Cursor} (h : len ≤ c.my) :
    c.step limit len = ({ c with my := c.my - len }, 0, true) :=
  if_pos h

/-- A chunk that ends on the page is completed. -/
lemma step_full {len : Nat} {c : Cursor} (h : c.my < len) (hfit : len - c.my ≤ limit - c.ptr) :
    c.step limit len =
      (⟨c.ptr + (len - c.my), 0, c.already + (len - c.my)⟩, len - c.my, true) := by
  have hmin : min (len - c.my) (limit - c.ptr) = len - c.my := min_eq_left hfit
  have hne : len - c.my ≠ 0 := by omega
  simp only [step, if_neg (Nat.not_le.mpr h), hmin, if_neg hne, beq_self_eq_true]

/-- A chunk that does not end on the page takes what is left of the page. -/
lemma step_cut {len : Nat} {c : Cursor} (h : c.my < len) (hcut : limit - c.ptr < len - c.my) :
    (c.step limit len).1.already = c.already + (limit - c.ptr) ∧
      (c.step limit len).2 = (limit - c.ptr, false) := by
  have hmin : min (len - c.my) (limit - c.ptr) = limit - c.ptr := min_eq_right (by omega)
  simp only [step, if_neg (Nat.not_le.mpr h), hmin]
  by_cases h0 : limit - c.ptr = 0
  · rw [if_pos h0, h0]
    exact ⟨rfl, rfl⟩
  · rw [if_neg h0]
    refine ⟨rfl, ?_⟩
    rw [beq_eq_false_iff_ne.mpr (by omega)]

end Cursor

/-! ## Writing -/

/-- Copy one chunk into a page. -/
def put (limit : Nat) (src : List UInt8) (page : Mem) (c : Cursor) : Mem × Cursor × Bool :=
  let s := c.step limit src.length
  (page.write c.ptr ((src.drop c.my).take s.2.1), s.1, s.2.2)

/-- Copy chunks into a page until one does not fit. -/
def putAll (limit : Nat) : List (List UInt8) → Mem → Cursor → Mem × Cursor × Bool
  | [], page, c => (page, c, true)
  | src :: rest, page, c =>
    let r := put limit src page c
    if r.2.2 then putAll limit rest r.1 r.2.1 else r

/-- One pass copies the bytes from `my` on that fit, reports whether they all did, and counts them. -/
lemma putAll_eq (limit : Nat) (cs : List (List UInt8)) (page : Mem) (c : Cursor) :
    (putAll limit cs page c).1 =
        page.write c.ptr ((cs.flatten.drop c.my).take (limit - c.ptr)) ∧
      (putAll limit cs page c).2.2 = decide (cs.flatten.length - c.my ≤ limit - c.ptr) ∧
      (putAll limit cs page c).2.1.already =
        c.already + min (cs.flatten.length - c.my) (limit - c.ptr) := by
  induction cs generalizing page c with
  | nil => simp [putAll]
  | cons src rest ih =>
    have hdrop : (src :: rest).flatten.drop c.my =
        src.drop c.my ++ rest.flatten.drop (c.my - src.length) := by
      rw [List.flatten_cons, List.drop_append]
    have hlen : (src :: rest).flatten.length = src.length + rest.flatten.length := by simp
    rw [hdrop, hlen]
    by_cases hskip : src.length ≤ c.my
    · -- the chunk was copied by an earlier pass
      have hput : put limit src page c = (page, { c with my := c.my - src.length }, true) := by
        rw [put, Cursor.step_skip hskip, List.take_zero, Mem.write_nil]
      have hlen' : src.length + rest.flatten.length - c.my =
          rest.flatten.length - (c.my - src.length) := by omega
      rw [putAll, hput, if_pos rfl, List.drop_eq_nil_of_le hskip, List.nil_append, hlen']
      exact ih page { c with my := c.my - src.length }
    · have hmy : c.my < src.length := by omega
      by_cases hfit : src.length - c.my ≤ limit - c.ptr
      · -- the chunk ends on this page: the rest starts right after it
        have hput : put limit src page c = (page.write c.ptr (src.drop c.my),
            ⟨c.ptr + (src.length - c.my), 0, c.already + (src.length - c.my)⟩, true) := by
          rw [put, Cursor.step_full hmy hfit, List.take_of_length_le (by simp)]
        obtain ⟨h1, h2, h3⟩ := ih (page.write c.ptr (src.drop c.my))
          ⟨c.ptr + (src.length - c.my), 0, c.already + (src.length - c.my)⟩
        simp only [Nat.sub_zero, List.drop_zero] at h1 h2 h3
        rw [putAll, hput, if_pos rfl, h1, h2, h3, Nat.sub_eq_zero_of_le hmy.le, List.drop_zero]
        refine ⟨?_, ?_, ?_⟩
        · have hl : (src.drop c.my).length = src.length - c.my := List.length_drop
          have htake : (src.drop c.my).take (limit - c.ptr) = src.drop c.my :=
            List.take_of_length_le (by omega)
          rw [List.take_append, htake, Nat.sub_sub, ← hl, Mem.write_append]
        · apply decide_eq_decide.mpr
          omega
        · omega
      · -- the page ends inside the chunk
        have hcut : limit - c.ptr < src.length - c.my := by omega
        obtain ⟨ha, hr⟩ := Cursor.step_cut hmy hcut
        have hput : put limit src page c = (page.write c.ptr ((src.drop c.my).take (limit - c.ptr)),
            (c.step limit src.length).1, false) := by
          rw [put, hr]
        rw [putAll, hput, if_neg (by simp), List.take_append_of_le_length (by simp; omega)]
        refine ⟨rfl, ?_, ?_⟩
        · exact (decide_eq_false (by omega)).symm
        · show (c.step limit src.length).1.already = _
          omega

/-! ## Reading -/

/-- Copy bytes of a page into one chunk: the chunk with the new bytes laid over it. -/
def get (limit : Nat) (dst : List UInt8) (page : Mem) (c : Cursor) : List UInt8 × Cursor × Bool :=
  let s := c.step limit dst.length
  (dst.take c.my ++ page.read c.ptr s.2.1 ++ dst.drop (c.my + s.2.1), s.1, s.2.2)

/-- A half-read chunk: the first `k` bytes are those of `src`, the others are still those of `old`. -/
def overlay (src old : List UInt8) (k : Nat) : List UInt8 :=
  src.take k ++ old.drop k

variable {src old : List UInt8} {limit : Nat}

/-- Laying bytes over a chunk of the same length keeps the length. -/
lemma overlay_length (h : src.length = old.length) (k : Nat) :
    (overlay src old k).length = src.length := by
  simp [overlay, h]
  omega

/-- Nothing read yet. -/
@[simp]
lemma overlay_zero (src old : List UInt8) : overlay src old 0 = old := by
  simp [overlay]

/-- Everything read. -/
lemma overlay_full {k : Nat} (h : src.length = old.length) (hk : src.length ≤ k) :
    overlay src old k = src := by
  rw [overlay, List.take_of_length_le hk, List.drop_eq_nil_of_le (by omega), List.append_nil]

/-- Reading `n` further bytes of `src` into a half-read chunk. -/
lemma overlay_extend {src old : List UInt8} {k n : Nat} (h : src.length = old.length)
    (hk : k + n ≤ src.length) :
    (overlay src old k).take k ++ (src.drop k).take n ++ (overlay src old k).drop (k + n) =
      overlay src old (k + n) := by
  have hl : (src.take k).length = k := by simp; omega
  have htake : (overlay src old k).take k = src.take k := by
    rw [overlay, List.take_left' hl]
  have hdrop : (overlay src old k).drop (k + n) = old.drop (k + n) := by
    rw [overlay, ← List.drop_drop, List.drop_left' hl, List.drop_drop]
  rw [htake, hdrop, overlay, List.take_add]

/-- A chunk read by earlier passes stays. -/
lemma get_skip {dst : List UInt8} {page : Mem} {c : Cursor} (h : dst.length ≤ c.my) :
    get limit dst page c = (dst, { c with my := c.my - dst.length }, true) := by
  simp [get, Cursor.step_skip h, Mem.read]

/-- A chunk whose last bytes are on the page is completed. -/
lemma get_full {page : Mem} {c : Cursor} (h : src.length = old.length) (hmy : c.my < src.length)
    (hfit : src.length - c.my ≤ limit - c.ptr)
    (hread : page.read c.ptr (src.length - c.my) = src.drop c.my) :
    get limit (overlay src old c.my) page c =
      (src, ⟨c.ptr + (src.length - c.my), 0, c.already + (src.length - c.my)⟩, true) := by
  have hle : c.my + (src.length - c.my) ≤ src.length := by omega
  have hext := @overlay_extend src old _ _ h hle
  have htake : (src.drop c.my).take (src.length - c.my) = src.drop c.my :=
    List.take_of_length_le (by simp)
  have hfull : overlay src old (c.my + (src.length - c.my)) = src := overlay_full h (by omega)
  rw [htake, hfull] at hext
  rw [get, overlay_length h, Cursor.step_full hmy hfit]
  simp only [hread, hext]

/-- A chunk that runs over the page's end gets the bytes up to there. -/
lemma get_cut {page : Mem} {c : Cursor} (h : src.length = old.length) (hmy : c.my < src.length)
    (hcut : limit - c.ptr < src.length - c.my)
    (hread : page.read c.ptr (limit - c.ptr) = (src.drop c.my).take (limit - c.ptr)) :
    (get limit (overlay src old c.my) page c).1 = overlay src old (c.my + (limit - c.ptr)) ∧
      (get limit (overlay src old c.my) page c).2.1.already = c.already + (limit - c.ptr) ∧
      (get limit (overlay src old c.my) page c).2.2 = false := by
  obtain ⟨ha, hr⟩ := Cursor.step_cut hmy hcut
  rw [get, overlay_length h, hr]
  refine ⟨?_, ha, rfl⟩
  simp only [hread]
  exact overlay_extend h (by omega)

end GaussKernel.Lib
