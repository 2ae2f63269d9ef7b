import Mathlib.Tactic

/-!
# Xid bases of heap pages

Model of the routines of `heapam.cpp` that move the base of the short transaction ids on a heap page:
`heap_page_xid_min_max`, `HeapPageShiftBase`, `freeze_single_heap_page`, `heap_page_prepare_for_xid` and
`heap_change_xidbase_after_freeze`.

An id is stored as a 32-bit distance to the page's base. Ids are `uint64`, distances of bases `int64`, and
the expressions mix them; `toInt64` stands where C converts to `int64`.

`heap_page_prepare_for_xid` resets the base of an empty page to `RecentXmin - 3` without a look at the xid it
was called for, and clamps the base at 0 for an xid that is not normal; otherwise the xid fits afterwards and
no id on the page changes (`xid_base_iff`).
-/

namespace GaussKernel.Heap

abbrev frozenTransactionId : Nat := 2

abbrev firstNormalTransactionId : Nat := 3

abbrev maxShortTransactionId : Nat := 0xFFFFFFFF

/-- Conversion to `int64`. -/
def toInt64 (n : Int) : Int := Int.bmod n (2 ^ 64)

/-- `HeapTupleHeader`: its short ids and flags. -/
structure HeapTupleHeader where
  xmin : UInt32
  xmax : UInt32
  infomask : UInt16
  infomask2 : UInt16
  deriving DecidableEq

/-- A heap page. An item that `ItemIdIsNormal` rejects is `none`. -/
structure HeapPage where
  xidBase : UInt64
  multiBase : UInt64
  compressed : Bool
  items : List (Option HeapTupleHeader)
  deriving DecidableEq

namespace HeapTupleHeader

variable (t : HeapTupleHeader)

/-- `HeapTupleHeaderXminFrozen`. -/
def xminFrozen : Bool := t.infomask &&& 0x0300 = 0x0300

/-- `HEAP_XMAX_IS_MULTI`. -/
def xmaxIsMulti : Bool := t.infomask &&& 0x1000 ≠ 0

/-- `HEAP_XMAX_IS_LOCKED_ONLY`. -/
def xmaxIsLockedOnly : Bool :=
  t.infomask2 &&& 0x0800 ≠ 0 ∨ t.infomask &&& 0x0080 ≠ 0 ∨ t.infomask &&& 0x10C0 = 0x0040

/-- Whether `xmin` is relative to the xid base. -/
def xminCounts : Bool := t.xminFrozen = false ∧ firstNormalTransactionId ≤ t.xmin.toNat

/-- Whether `xmax` is relative to the xid base (`multi = false`) or to the multixact base. -/
def xmaxCounts (multi : Bool) : Bool :=
  firstNormalTransactionId ≤ t.xmax.toNat ∧ t.xmaxIsMulti = multi

end HeapTupleHeader

/-- `ShortTransactionIdToNormal`, in 64 bits. -/
def shortToNormal (base : UInt64) (xid : UInt32) : Nat :=
  if firstNormalTransactionId ≤ xid.toNat then (xid.toNat + base.toNat) % 2 ^ 64 else xid.toNat

namespace HeapPage

variable (page : HeapPage)

def base (multi : Bool) : UInt64 := if multi then page.multiBase else page.xidBase

def setBase (multi : Bool) (base : UInt64) : HeapPage :=
  if multi then { page with multiBase := base } else { page with xidBase := base }

end HeapPage

/-! ## Minimum and maximum -/

/-- Update of `found`, `*min` and `*max` with one short id. -/
def noteShort (found : Option (Nat × Nat)) (xid : UInt32) : Option (Nat × Nat) :=
  match found with
  | none => some (xid.toNat, xid.toNat)
  | some (lo, hi) => some (min lo xid.toNat, max hi xid.toNat)

/-- The body of the loop of `heap_page_xid_min_max` for a normal item. -/
def noteTuple (multi : Bool) (found : Option (Nat × Nat)) (t : HeapTupleHeader) : Option (Nat × Nat) :=
  if multi then
    if t.xmaxCounts true then noteShort found t.xmax else found
  else
    let found := if t.xminCounts then noteShort found t.xmin else found
    if t.xmaxCounts false then noteShort found t.xmax else found

/-- `heap_page_xid_min_max`. -/
def heapPageXidMinMax (page : HeapPage) (multi : Bool) : Option (Nat × Nat) :=
  page.items.foldl (fun found item => (item.map (noteTuple multi found)).getD found) none

/-! ## Shifting the base -/

/-- `xid -= delta` on a short id. -/
def shiftShort (xid : UInt32) (delta : Int) : UInt32 :=
  .ofNat (((xid.toNat : Int) - delta) % 2 ^ 32).toNat

/-- `base += delta`. -/
def shiftBase (base : UInt64) (delta : Int) : UInt64 :=
  .ofNat (((base.toNat : Int) + delta) % 2 ^ 64).toNat

/-- The body of the loop of `HeapPageShiftBase` for a normal item. -/
def shiftTuple (multi : Bool) (delta : Int) (t : HeapTupleHeader) : HeapTupleHeader :=
  if multi then
    if t.xmaxCounts true then { t with xmax := shiftShort t.xmax delta } else t
  else
    let t := if t.xminCounts then { t with xmin := shiftShort t.xmin delta } else t
    if t.xmaxCounts false then { t with xmax := shiftShort t.xmax delta } else t

/-- A base is not moved below 0. -/
def clampDelta (base : UInt64) (delta : Int) : Int :=
  if delta < 0 ∧ toInt64 (base.toNat + delta) < 0 then toInt64 (-toInt64 base.toNat) else delta

/-- `HeapPageShiftBase`, without its WAL record. -/
def heapPageShiftBase (page : HeapPage) (multi : Bool) (delta : Int) : HeapPage :=
  let delta := clampDelta (page.base multi) delta
  { page with items := page.items.map (Option.map (shiftTuple multi delta)) }.setBase multi
    (shiftBase (page.base multi) delta)

/-! ## Freezing -/

/-- What `heap_page_prune` leaves of a page: the bases, and each item as it was, but for hint bits, or
removed. -/
structure Pruned (page page' : HeapPage) : Prop where
  base : ∀ multi, page'.base multi = page.base multi
  compressed : page'.compressed = page.compressed
  length : page'.items.length = page.items.length
  kept : ∀ (i : Nat) (t' : HeapTupleHeader), page'.items[i]? = some (some t') →
    ∃ t : HeapTupleHeader, page.items[i]? = some (some t) ∧ t'.xmin = t.xmin ∧ t'.xmax = t.xmax ∧
      t'.xminFrozen = t.xminFrozen ∧ t'.xmaxIsMulti = t.xmaxIsMulti

/-- What freezing a page depends on: `heap_page_prune`, the tests of `heap_check_invalid_invisible_tuple`,
the cutoffs of `vacuum_set_xid_limits`, the transaction log and the members of multixacts. -/
structure FreezeEnv where
  heapPagePrune : HeapPage → HeapPage
  pruned : ∀ page, Pruned page (heapPagePrune page)
  invalidInvisible : HeapTupleHeader → Bool
  freezeXid : Nat
  freezeMxid : Nat
  recoveryInProgress : Bool
  didCommit : Nat → Bool
  updateXid : HeapTupleHeader → Nat

/-- `heap_invalid_invisible_tuple`. -/
def heapInvalidInvisibleTuple (t : HeapTupleHeader) : HeapTupleHeader :=
  { t with xmin := 0, xmax := 0, infomask := t.infomask &&& ~~~0x1CC0 &&& ~~~0x0100 ||| 0x0200 }

/-- The part of `heap_freeze_tuple` about `xmin`; `none` is its ERROR. -/
def freezeXmin (env : FreezeEnv) (page : HeapPage) (t : HeapTupleHeader) : Option (HeapTupleHeader × Bool) :=
  let xid := shortToNormal page.xidBase t.xmin
  if firstNormalTransactionId ≤ xid ∧ xid < env.freezeXid then
    if env.recoveryInProgress = false ∧ env.didCommit xid = false then none
    else some ({ t with xmin := .ofNat frozenTransactionId, infomask := t.infomask ||| 0x0100 }, true)
  else
    some (t, false)

/-- The part of `heap_freeze_tuple` about `xmax`; `none` is its ERROR. -/
def freezeXmax (env : FreezeEnv) (page : HeapPage) (t : HeapTupleHeader) : Option (HeapTupleHeader × Bool) :=
  let xid := shortToNormal (page.base t.xmaxIsMulti) t.xmax
  if t.xmaxIsMulti then
    if xid ≠ 0 ∧ xid < env.freezeMxid ∧ (t.xmaxIsLockedOnly ∨ env.updateXid t < env.freezeXid) then
      if env.recoveryInProgress = false ∧ t.infomask &&& 0x0800 = 0 ∧ t.xmaxIsLockedOnly = false ∧
          env.didCommit (env.updateXid t) then none
      else some ({ t with
        xmax := 0, infomask := t.infomask &&& ~~~0x1CC0 ||| 0x0800
        infomask2 := t.infomask2 &&& ~~~0x1800 &&& ~~~0x4000 }, true)
    else
      some (t, false)
  else if firstNormalTransactionId ≤ xid ∧ xid < env.freezeXid then
    if env.recoveryInProgress = false ∧ t.xmaxIsLockedOnly = false ∧ env.didCommit xid then none
    else some ({ t with
      xmax := 0, infomask := t.infomask &&& ~~~0x0400 ||| 0x0800
      infomask2 := t.infomask2 &&& ~~~0x4000 }, true)
  else
    some (t, false)

/-- `heap_freeze_tuple`. -/
def heapFreezeTuple (env : FreezeEnv) (page : HeapPage) (t : HeapTupleHeader) :
    Option (HeapTupleHeader × Bool) := do
  let (t, changed) ← freezeXmin env page t
  let (t, changed') ← freezeXmax env page t
  some (t, changed || changed')

/-- The body of the loop of `freeze_single_heap_page`: the item, and whether its offset is put into
`frozen` or `invalid`. -/
def freezeItem (env : FreezeEnv) (page : HeapPage) :
    Option HeapTupleHeader → Option (Option HeapTupleHeader × Bool)
  | none => some (none, false)
  | some t =>
    if env.invalidInvisible t then some (some (heapInvalidInvisibleTuple t), true)
    else (heapFreezeTuple env page t).map fun r => (some r.1, r.2)

/-- `freeze_single_heap_page`: the page, and for each item whether it was frozen. -/
def freezeSingleHeapPage (env : FreezeEnv) (page : HeapPage) : Option (HeapPage × List Bool) :=
  let page := env.heapPagePrune page
  (page.items.mapM (freezeItem env page)).map fun items =>
    ({ page with items := items.map Prod.fst }, items.map Prod.snd)

/-! ## Making room for an xid -/

/-- The body of the loop of `heap_page_prepare_for_xid`: what it returns with the page, or `none` when the
page has to be frozen. -/
def prepareOnce (recentXmin xid : UInt64) (multi : Bool) (page : HeapPage) : Option (Bool × HeapPage) :=
  let base := (page.base multi).toNat
  let lowest := (base + firstNormalTransactionId) % 2 ^ 64
  let highest := (base + maxShortTransactionId) % 2 ^ 64
  if lowest ≤ xid.toNat ∧ xid.toNat ≤ highest then
    some (false, page)
  else if page.items.length = 0 ∧ page.compressed = false ∧ multi = false then
    some (false, { page with xidBase := shiftBase recentXmin (-firstNormalTransactionId) })
  else
    match heapPageXidMinMax page multi with
    | none =>
      let delta := toInt64 (toInt64 ((xid.toNat : Int) - firstNormalTransactionId) - base)
      some (false, heapPageShiftBase page multi delta)
    | some (lo, hi) =>
      if xid.toNat < lowest then
        let freeDelta : Int := maxShortTransactionId - hi
        let requiredDelta := toInt64 ((lowest : Int) - xid.toNat)
        if requiredDelta ≤ freeDelta then
          some (true, heapPageShiftBase page multi ((-(freeDelta + requiredDelta)).tdiv 2))
        else none
      else
        let freeDelta : Int := lo - firstNormalTransactionId
        let requiredDelta := toInt64 ((xid.toNat : Int) - highest)
        if requiredDelta ≤ freeDelta then
          some (true, heapPageShiftBase page multi ((freeDelta + requiredDelta).tdiv 2))
        else none

/-- `heap_page_prepare_for_xid`; `none` is an ERROR. -/
def heapPagePrepareForXid (env : FreezeEnv) (recentXmin xid : UInt64) (multi : Bool) (page : HeapPage) :
    Option (Bool × HeapPage) :=
  match prepareOnce recentXmin xid multi page with
  | some r => some r
  | none =>
    (freezeSingleHeapPage env page).bind fun frozen => prepareOnce recentXmin xid multi frozen.1

/-- `heap_change_xidbase_after_freeze`. -/
def heapChangeXidbaseAfterFreeze (recentXmin : UInt64) (page : HeapPage) : Bool × HeapPage :=
  let base := page.xidBase.toNat
  let highest := (base + maxShortTransactionId) % 2 ^ 64
  match heapPageXidMinMax page false with
  | none =>
    let delta := toInt64 ((recentXmin.toNat : Int) - firstNormalTransactionId - base)
    (false, heapPageShiftBase page false delta)
  | some (lo, _) =>
    if recentXmin.toNat < highest then
      let xidmin := if lo < recentXmin.toNat then lo else recentXmin.toNat
      (true, heapPageShiftBase page false (toInt64 ((xidmin : Int) - firstNormalTransactionId)))
    else
      let freeDelta : Int := lo - firstNormalTransactionId
      let requiredDelta := toInt64 ((recentXmin.toNat : Int) - highest)
      if requiredDelta ≤ freeDelta then
        (true, heapPageShiftBase page false ((freeDelta + requiredDelta).tdiv 2))
      else
        (false, page)

/-! ## What is to be kept -/

/-- The xid can be stored relative to the base. -/
def Fits (page : HeapPage) (multi : Bool) (xid : UInt64) : Prop :=
  (page.base multi).toNat + firstNormalTransactionId ≤ xid.toNat ∧
    xid.toNat ≤ (page.base multi).toNat + maxShortTransactionId

/-- The ids of a tuple stand for the same ids as before. -/
structure TupleKept (page page' : HeapPage) (t t' : HeapTupleHeader) : Prop where
  xmin : t.xminCounts = true → t'.xminCounts = true ∧
    shortToNormal page'.xidBase t'.xmin = shortToNormal page.xidBase t.xmin
  xmax : ∀ multi, t.xmaxCounts multi = true → t'.xmaxCounts multi = true ∧
    shortToNormal (page'.base multi) t'.xmax = shortToNormal (page.base multi) t.xmax

/-- Every tuple that is still on the page, other than those in `frozen`, has kept its ids. -/
def KeptExcept (frozen : List Bool) (page page' : HeapPage) : Prop :=
  ∀ (i : Nat) (t' : HeapTupleHeader), page'.items[i]? = some (some t') → frozen[i]?.getD false = false →
    ∃ t, page.items[i]? = some (some t) ∧ TupleKept page page' t t'

/-! ## The short ids of a page -/

/-- The short ids of a tuple that are relative to a base. -/
def tupleShorts (multi : Bool) (t : HeapTupleHeader) : List UInt32 :=
  if multi then
    if t.xmaxCounts true then [t.xmax] else []
  else
    (if t.xminCounts then [t.xmin] else []) ++ if t.xmaxCounts false then [t.xmax] else []

/-- The short ids of a page that are relative to a base. -/
def pageShorts (page : HeapPage) (multi : Bool) : List UInt32 :=
  page.items.flatMap fun item => (item.map (tupleShorts multi)).getD []

section

variable {page page' : HeapPage} {multi : Bool} {t t' : HeapTupleHeader}

lemma noteTuple_eq (found : Option (Nat × Nat)) (t : HeapTupleHeader) :
    noteTuple multi found t = (tupleShorts multi t).foldl noteShort found := by
  cases multi with
  | true =>
    simp only [noteTuple, tupleShorts, if_true]
    split <;> rfl
  | false =>
    simp only [noteTuple, tupleShorts, Bool.false_eq_true, if_false]
    split <;> split <;> rfl

lemma heapPageXidMinMax_eq (page : HeapPage) (multi : Bool) :
    heapPageXidMinMax page multi = (pageShorts page multi).foldl noteShort none := by
  rw [heapPageXidMinMax, pageShorts, List.foldl_flatMap]
  congr 1
  funext found item
  cases item with
  | none => rfl
  | some t => exact noteTuple_eq found t

lemma foldl_noteShort (l : List UInt32) (lo hi : Nat) : ∃ lo' hi',
    l.foldl noteShort (some (lo, hi)) = some (lo', hi') ∧ lo' ≤ lo ∧ hi ≤ hi' ∧
      (∀ s ∈ l, lo' ≤ s.toNat ∧ s.toNat ≤ hi') ∧
      (lo' = lo ∨ ∃ s ∈ l, s.toNat = lo') ∧ (hi' = hi ∨ ∃ s ∈ l, s.toNat = hi') := by
  induction l generalizing lo hi with
  | nil => exact ⟨lo, hi, rfl, le_rfl, le_rfl, by simp, .inl rfl, .inl rfl⟩
  | cons s l ih =>
    obtain ⟨lo', hi', heq, hlo, hhi, hall, hmin, hmax⟩ := ih (min lo s.toNat) (max hi s.toNat)
    refine ⟨lo', hi', heq, hlo.trans (Nat.min_le_left _ _), (Nat.le_max_left _ _).trans hhi, ?_, ?_, ?_⟩
    · intro r hr
      rcases List.mem_cons.mp hr with rfl | hr
      · exact ⟨hlo.trans (Nat.min_le_right _ _), (Nat.le_max_right _ _).trans hhi⟩
      · exact hall r hr
    · rcases hmin with heq | ⟨r, hr, hrlo⟩
      · rcases min_choice lo s.toNat with hle | hle
        · exact .inl (heq.trans hle)
        · exact .inr ⟨s, List.mem_cons_self, (heq.trans hle).symm⟩
      · exact .inr ⟨r, List.mem_cons_of_mem _ hr, hrlo⟩
    · rcases hmax with heq | ⟨r, hr, hrhi⟩
      · rcases max_choice hi s.toNat with hle | hle
        · exact .inl (heq.trans hle)
        · exact .inr ⟨s, List.mem_cons_self, (heq.trans hle).symm⟩
      · exact .inr ⟨r, List.mem_cons_of_mem _ hr, hrhi⟩

lemma minMax_none (h : heapPageXidMinMax page multi = none) : pageShorts page multi = [] := by
  rw [heapPageXidMinMax_eq] at h
  cases hs : pageShorts page multi with
  | nil => rfl
  | cons s l =>
    rw [hs] at h
    obtain ⟨lo, hi, heq, -⟩ := foldl_noteShort l s.toNat s.toNat
    cases heq.symm.trans h

variable {lo hi : Nat} {s : UInt32} {delta : Int} {env : FreezeEnv}

lemma minMax_some (h : heapPageXidMinMax page multi = some (lo, hi)) :
    (∀ s ∈ pageShorts page multi, lo ≤ s.toNat ∧ s.toNat ≤ hi) ∧
      (∃ s ∈ pageShorts page multi, s.toNat = lo) ∧ ∃ s ∈ pageShorts page multi, s.toNat = hi := by
  rw [heapPageXidMinMax_eq] at h
  cases hs : pageShorts page multi with
  | nil =>
    rw [hs] at h
    cases h
  | cons s l =>
    rw [hs] at h
    obtain ⟨lo', hi', heq, hlo, hhi, hall, hmin, hmax⟩ := foldl_noteShort l s.toNat s.toNat
    cases heq.symm.trans h
    refine ⟨fun r hr => ?_, ?_, ?_⟩
    · rcases List.mem_cons.mp hr with rfl | hr
      · exact ⟨hlo, hhi⟩
      · exact hall r hr
    · rcases hmin with heq | ⟨r, hr, hrlo⟩
      · exact ⟨s, List.mem_cons_self, heq.symm⟩
      · exact ⟨r, List.mem_cons_of_mem _ hr, hrlo⟩
    · rcases hmax with heq | ⟨r, hr, hrhi⟩
      · exact ⟨s, List.mem_cons_self, heq.symm⟩
      · exact ⟨r, List.mem_cons_of_mem _ hr, hrhi⟩

lemma tupleShorts_normal (h : s ∈ tupleShorts multi t) : firstNormalTransactionId ≤ s.toNat := by
  cases multi <;> simp only [tupleShorts, HeapTupleHeader.xminCounts, HeapTupleHeader.xmaxCounts] at h <;>
    grind

lemma pageShorts_normal (h : s ∈ pageShorts page multi) : firstNormalTransactionId ≤ s.toNat := by
  obtain ⟨item, -, hs⟩ := List.mem_flatMap.mp h
  cases item with
  | none => cases hs
  | some t => exact tupleShorts_normal hs

lemma mem_pageShorts : s ∈ pageShorts page multi ↔
    ∃ (i : Nat) (t : HeapTupleHeader), page.items[i]? = some (some t) ∧ s ∈ tupleShorts multi t := by
  constructor
  · intro h
    obtain ⟨item, hitem, hs⟩ := List.mem_flatMap.mp h
    obtain ⟨i, hi⟩ := List.mem_iff_getElem?.mp hitem
    cases item with
    | none => cases hs
    | some t => exact ⟨i, t, hi, hs⟩
  · rintro ⟨i, t, hi, hs⟩
    exact List.mem_flatMap.mpr ⟨some t, List.mem_of_getElem? hi, hs⟩

lemma mem_tupleShorts : s ∈ tupleShorts multi t ↔
    multi = false ∧ t.xminCounts = true ∧ s = t.xmin ∨ t.xmaxCounts multi = true ∧ s = t.xmax := by
  cases multi <;> simp only [tupleShorts] <;> grind

/-! ## One shift -/

lemma shiftShort_toNat (s : UInt32) (delta : Int) :
    (shiftShort s delta).toNat = (((s.toNat : Int) - delta) % 2 ^ 32).toNat :=
  UInt32.toNat_ofNat_of_lt' (by show _ < 2 ^ 32; omega)

lemma shiftBase_toNat (base : UInt64) (delta : Int) :
    (shiftBase base delta).toNat = (((base.toNat : Int) + delta) % 2 ^ 64).toNat :=
  UInt64.toNat_ofNat_of_lt' (by show _ < 2 ^ 64; omega)

/-- Moving an id and its base by an `int64` keeps it exactly when the short id stays in range. -/
lemma shiftShort_kept_iff {base : UInt64} (hs : firstNormalTransactionId ≤ s.toNat) (hlo : -2 ^ 63 ≤ delta)
    (hhi : delta < 2 ^ 63) : (firstNormalTransactionId ≤ (shiftShort s delta).toNat ∧
        shortToNormal (shiftBase base delta) (shiftShort s delta) = shortToNormal base s) ↔
      firstNormalTransactionId ≤ (s.toNat : Int) - delta ∧
        (s.toNat : Int) - delta ≤ maxShortTransactionId := by
  have hbase := base.toNat_lt
  have hshort := s.toNat_lt
  have hnew := shiftShort_toNat s delta
  have hnewBase := shiftBase_toNat base delta
  simp only [shortToNormal, if_pos hs, firstNormalTransactionId, maxShortTransactionId] at *
  constructor
  · rintro ⟨h3, heq⟩
    rw [if_pos h3] at heq
    omega
  · rintro ⟨h3, hmax⟩
    have h3' : 3 ≤ (shiftShort s delta).toNat := by omega
    rw [if_pos h3']
    omega

@[simp]
lemma shiftTuple_infomask (delta : Int) (t : HeapTupleHeader) :
    (shiftTuple multi delta t).infomask = t.infomask := by
  simp only [shiftTuple]
  grind

lemma shiftTuple_xmin (delta : Int) (t : HeapTupleHeader) : (shiftTuple multi delta t).xmin =
    if multi = false ∧ t.xminCounts = true then shiftShort t.xmin delta else t.xmin := by
  simp only [shiftTuple]
  grind

lemma shiftTuple_xmax (delta : Int) (t : HeapTupleHeader) : (shiftTuple multi delta t).xmax =
    if t.xmaxCounts multi = true then shiftShort t.xmax delta else t.xmax := by
  simp only [shiftTuple]
  cases multi
  · by_cases hmin : t.xminCounts = true <;> simp [hmin, HeapTupleHeader.xmaxCounts, HeapTupleHeader.xmaxIsMulti]
    all_goals grind
  · grind

lemma toInt64_le (n : Int) : -2 ^ 63 ≤ toInt64 n ∧ toInt64 n < 2 ^ 63 := by
  have hlo : -((2 ^ 64 : Nat) : Int) / 2 ≤ Int.bmod n (2 ^ 64) := Int.le_bmod (by decide)
  have hhi : Int.bmod n (2 ^ 64) < (((2 ^ 64 : Nat) : Int) + 1) / 2 := Int.bmod_lt (by decide)
  rw [toInt64]
  omega

lemma toInt64_eq {n : Int} (hlo : -2 ^ 63 ≤ n) (hhi : n < 2 ^ 63) : toInt64 n = n :=
  Int.bmod_eq_of_le (by omega) (by omega)

lemma clampDelta_le (base : UInt64) (hlo : -2 ^ 63 ≤ delta) (hhi : delta < 2 ^ 63) :
    -2 ^ 63 ≤ clampDelta base delta ∧ clampDelta base delta < 2 ^ 63 := by
  rw [clampDelta]
  split
  · exact toInt64_le _
  · exact ⟨hlo, hhi⟩

lemma heapPageShiftBase_base (page : HeapPage) (multi m : Bool) (delta : Int) :
    (heapPageShiftBase page multi delta).base m =
      if m = multi then shiftBase (page.base multi) (clampDelta (page.base multi) delta)
      else page.base m := by
  cases multi <;> cases m <;> rfl

lemma heapPageShiftBase_items (page : HeapPage) (multi : Bool) (delta : Int) :
    (heapPageShiftBase page multi delta).items =
      page.items.map (Option.map (shiftTuple multi (clampDelta (page.base multi) delta))) := by
  cases multi <;> rfl

/-- What one shift does to the ids of a tuple. -/
lemma shiftTuple_kept_iff (hlo : -2 ^ 63 ≤ delta) (hhi : delta < 2 ^ 63) (t : HeapTupleHeader) :
    TupleKept page (heapPageShiftBase page multi delta) t
        (shiftTuple multi (clampDelta (page.base multi) delta) t) ↔
      ∀ s ∈ tupleShorts multi t,
        firstNormalTransactionId ≤ (s.toNat : Int) - clampDelta (page.base multi) delta ∧
          (s.toNat : Int) - clampDelta (page.base multi) delta ≤ maxShortTransactionId := by
  obtain ⟨hdlo, hdhi⟩ := clampDelta_le (page.base multi) hlo hhi
  have hbase : ∀ m, (heapPageShiftBase page multi delta).base m = _ :=
    fun m => heapPageShiftBase_base page multi m delta
  have hxidBase : (heapPageShiftBase page multi delta).xidBase =
      (heapPageShiftBase page multi delta).base false := rfl
  generalize hd : clampDelta (page.base multi) delta = d at hdlo hdhi hbase ⊢
  have hmin : t.xminCounts = true → firstNormalTransactionId ≤ t.xmin.toNat := by
    intro h
    exact (of_decide_eq_true h).2
  have hmax : ∀ {m}, t.xmaxCounts m = true → firstNormalTransactionId ≤ t.xmax.toNat ∧ t.xmaxIsMulti = m := by
    intro m h
    exact of_decide_eq_true h
  have hfrozen : (shiftTuple multi d t).xminFrozen = t.xminFrozen := by
    rw [HeapTupleHeader.xminFrozen, shiftTuple_infomask, HeapTupleHeader.xminFrozen]
  have hmulti : (shiftTuple multi d t).xmaxIsMulti = t.xmaxIsMulti := by
    rw [HeapTupleHeader.xmaxIsMulti, shiftTuple_infomask, HeapTupleHeader.xmaxIsMulti]
  constructor
  · intro h s hs
    rcases mem_tupleShorts.mp hs with ⟨hm, hcounts, rfl⟩ | ⟨hcounts, rfl⟩
    · obtain ⟨hcounts', heq⟩ := h.xmin hcounts
      rw [hxidBase, hbase, if_pos hm.symm, shiftTuple_xmin, if_pos ⟨hm, hcounts⟩] at heq
      have h3 := (of_decide_eq_true hcounts').2
      rw [shiftTuple_xmin, if_pos ⟨hm, hcounts⟩] at h3
      subst hm
      exact (shiftShort_kept_iff (hmin hcounts) hdlo hdhi).mp ⟨h3, heq⟩
    · obtain ⟨hcounts', heq⟩ := h.xmax multi hcounts
      rw [hbase, if_pos rfl, shiftTuple_xmax, if_pos hcounts] at heq
      have h3 := (of_decide_eq_true hcounts').1
      rw [shiftTuple_xmax, if_pos hcounts] at h3
      exact (shiftShort_kept_iff (hmax hcounts).1 hdlo hdhi).mp ⟨h3, heq⟩
  · intro h
    constructor
    · intro hcounts
      rw [HeapTupleHeader.xminCounts, hfrozen, hxidBase, hbase, shiftTuple_xmin]
      have hnot : t.xminFrozen = false := (of_decide_eq_true hcounts).1
      cases multi with
      | false =>
        have hrange := h t.xmin (mem_tupleShorts.mpr (.inl ⟨rfl, hcounts, rfl⟩))
        obtain ⟨h3, heq⟩ := (shiftShort_kept_iff (hmin hcounts) hdlo hdhi).mpr hrange
        rw [if_pos ⟨rfl, hcounts⟩, if_pos rfl]
        exact ⟨decide_eq_true ⟨hnot, h3⟩, heq⟩
      | true =>
        rw [if_neg (by simp), if_neg (by simp)]
        exact ⟨decide_eq_true ⟨hnot, hmin hcounts⟩, rfl⟩
    · intro m hcounts
      rw [HeapTupleHeader.xmaxCounts, hmulti, hbase, shiftTuple_xmax]
      obtain ⟨hnormal, hm⟩ := hmax hcounts
      rcases eq_or_ne m multi with rfl | hne
      · have hrange := h t.xmax (mem_tupleShorts.mpr (.inr ⟨hcounts, rfl⟩))
        obtain ⟨h3, heq⟩ := (shiftShort_kept_iff hnormal hdlo hdhi).mpr hrange
        rw [if_pos hcounts, if_pos rfl]
        exact ⟨decide_eq_true ⟨h3, hm⟩, heq⟩
      · have hother : ¬t.xmaxCounts multi = true := fun h' => hne (hm.symm.trans (hmax h').2)
        rw [if_neg hother, if_neg hne]
        exact ⟨decide_eq_true ⟨hnormal, hm⟩, rfl⟩

/-- **`HeapPageShiftBase` keeps every id** exactly when no short id leaves its range. -/
lemma heapPageShiftBase_kept_iff (hlo : -2 ^ 63 ≤ delta) (hhi : delta < 2 ^ 63) :
    KeptExcept [] page (heapPageShiftBase page multi delta) ↔
      ∀ s ∈ pageShorts page multi,
        firstNormalTransactionId ≤ (s.toNat : Int) - clampDelta (page.base multi) delta ∧
          (s.toNat : Int) - clampDelta (page.base multi) delta ≤ maxShortTransactionId := by
  constructor
  · intro h s hs
    obtain ⟨i, t, hi, hst⟩ := mem_pageShorts.mp hs
    have hi' : (heapPageShiftBase page multi delta).items[i]? =
        some (some (shiftTuple multi (clampDelta (page.base multi) delta) t)) := by
      rw [heapPageShiftBase_items, List.getElem?_map, hi]
      rfl
    obtain ⟨t₀, ht₀, hkept⟩ := h i _ hi' rfl
    cases hi.symm.trans ht₀
    exact (shiftTuple_kept_iff hlo hhi t).mp hkept s hst
  · intro h i t' hi' _
    rw [heapPageShiftBase_items, List.getElem?_map] at hi'
    obtain ⟨item, hitem, hmap⟩ := Option.map_eq_some_iff.mp hi'
    obtain ⟨t, rfl, rfl⟩ := Option.map_eq_some_iff.mp hmap
    refine ⟨t, hitem, (shiftTuple_kept_iff hlo hhi t).mpr fun s hs => h s ?_⟩
    exact mem_pageShorts.mpr ⟨i, t, hitem, hs⟩

/-! ## Making room -/

/-- Both bases are so far below 2^63 that no conversion to `int64` wraps. -/
def Bounded (page : HeapPage) : Prop := ∀ multi, (page.base multi).toNat + maxShortTransactionId < 2 ^ 63

/-- When `heap_page_prepare_for_xid` makes the xid fit: it fits already, or it is normal and, where the page
is empty and its base is reset, within reach of `RecentXmin`. -/
def PrepareOk (recentXmin xid : UInt64) (multi : Bool) (page : HeapPage) : Prop :=
  Fits page multi xid ∨
    firstNormalTransactionId ≤ xid.toNat ∧
      (page.items = [] → page.compressed = false → multi = false →
        firstNormalTransactionId ≤ recentXmin.toNat ∧ recentXmin.toNat ≤ xid.toNat ∧
          xid.toNat + firstNormalTransactionId ≤ recentXmin.toNat + maxShortTransactionId)

lemma KeptExcept.refl (page : HeapPage) : KeptExcept [] page page :=
  fun _ t ht _ => ⟨t, ht, ⟨fun h => ⟨h, rfl⟩, fun _ h => ⟨h, rfl⟩⟩⟩

lemma clampDelta_eq (base : UInt64) (delta : Int) (hb : base.toNat < 2 ^ 63) (hlo : -2 ^ 63 ≤ delta)
    (hhi : delta < 2 ^ 63) : clampDelta base delta = max delta (-(base.toNat : Int)) := by
  have hwide : delta < 0 → toInt64 ((base.toNat : Int) + delta) = base.toNat + delta := fun hneg =>
    toInt64_eq (by omega) (by omega)
  have hself : toInt64 (base.toNat : Int) = base.toNat := toInt64_eq (by omega) (by omega)
  have hneg : toInt64 (-(base.toNat : Int)) = -base.toNat := toInt64_eq (by omega) (by omega)
  rw [clampDelta, hself, hneg]
  split
  · rename_i h
    rw [hwide h.1] at h
    omega
  · rename_i h
    by_cases hd : delta < 0
    · rw [hwide hd] at h
      omega
    · omega

/-- The base after a shift. -/
lemma shift_base_toNat (page : HeapPage) (multi : Bool) (delta : Int)
    (hb : (page.base multi).toNat < 2 ^ 63) (hlo : -2 ^ 63 ≤ delta) (hhi : delta < 2 ^ 63) :
    (((heapPageShiftBase page multi delta).base multi).toNat : Int) =
      (page.base multi).toNat + max delta (-((page.base multi).toNat : Int)) := by
  rw [heapPageShiftBase_base, if_pos rfl, shiftBase_toNat, clampDelta_eq _ _ hb hlo hhi]
  omega

variable {recentXmin xid : UInt64}

/-- A page without short ids of the kind: the base becomes `xid - 3`. -/
lemma prepareOnce_none (hb : Bounded page) (hx : xid.toNat < 2 ^ 63)
    (hnone : heapPageXidMinMax page multi = none)
    (hdelta : delta = toInt64 (toInt64 ((xid.toNat : Int) - firstNormalTransactionId) - (page.base multi).toNat)) :
    KeptExcept [] page (heapPageShiftBase page multi delta) ∧
      (Fits (heapPageShiftBase page multi delta) multi xid ↔ firstNormalTransactionId ≤ xid.toNat) := by
  have hbase := hb multi
  have hd : delta = (xid.toNat : Int) - firstNormalTransactionId - (page.base multi).toNat := by
    simp only [firstNormalTransactionId, maxShortTransactionId] at *
    rw [hdelta, toInt64_eq (n := (xid.toNat : Int) - ((3 : Nat) : Int)) (by omega) (by omega),
      toInt64_eq (by omega) (by omega)]
  simp only [firstNormalTransactionId, maxShortTransactionId] at *
  constructor
  · refine (heapPageShiftBase_kept_iff (by omega) (by omega)).mpr fun s hs => ?_
    rw [minMax_none hnone] at hs
    cases hs
  · have hnew := shift_base_toNat page multi delta (by omega) (by omega) (by omega)
    simp only [Fits, firstNormalTransactionId, maxShortTransactionId]
    omega

/-- The xid is below the base: the ids are moved up half-way. -/
lemma prepareOnce_below {required : Int} (hb : Bounded page)
    (hsome : heapPageXidMinMax page multi = some (lo, hi))
    (hbelow : xid.toNat < (page.base multi).toNat + firstNormalTransactionId)
    (hrequired : required = (page.base multi).toNat + firstNormalTransactionId - xid.toNat)
    (hfree : required ≤ maxShortTransactionId - (hi : Int))
    (hdelta : delta = (-(maxShortTransactionId - (hi : Int) + required)).tdiv 2) :
    KeptExcept [] page (heapPageShiftBase page multi delta) ∧
      (Fits (heapPageShiftBase page multi delta) multi xid ↔ firstNormalTransactionId ≤ xid.toNat) := by
  obtain ⟨hall, -, r, hr, hrhi⟩ := minMax_some hsome
  have hnormal := pageShorts_normal hr
  have hshort := r.toNat_lt
  have hbase := hb multi
  have hhalf : delta = -((maxShortTransactionId - (hi : Int) + required) / 2) := by
    rw [hdelta, Int.neg_tdiv, Int.tdiv_eq_ediv_of_nonneg]
    simp only [firstNormalTransactionId, maxShortTransactionId] at *
    omega
  simp only [firstNormalTransactionId, maxShortTransactionId] at *
  have hclamp := clampDelta_eq (page.base multi) delta (by omega) (by omega) (by omega)
  constructor
  · refine (heapPageShiftBase_kept_iff (by omega) (by omega)).mpr fun s hs => ?_
    obtain ⟨-, hmax⟩ := hall s hs
    have h3 := pageShorts_normal hs
    simp only [firstNormalTransactionId, maxShortTransactionId] at *
    rw [hclamp]
    omega
  · have hnew := shift_base_toNat page multi delta (by omega) (by omega) (by omega)
    simp only [Fits, firstNormalTransactionId, maxShortTransactionId]
    omega

/-- The xid is above what fits: the ids are moved down half-way. -/
lemma prepareOnce_above {required : Int} (hb : Bounded page) (hx : xid.toNat < 2 ^ 63)
    (hsome : heapPageXidMinMax page multi = some (lo, hi))
    (habove : (page.base multi).toNat + maxShortTransactionId ≤ xid.toNat)
    (hrequired : required = (xid.toNat : Int) - ((page.base multi).toNat + maxShortTransactionId))
    (hfree : required ≤ (lo : Int) - firstNormalTransactionId)
    (hdelta : delta = ((lo : Int) - firstNormalTransactionId + required).tdiv 2) :
    KeptExcept [] page (heapPageShiftBase page multi delta) ∧
      Fits (heapPageShiftBase page multi delta) multi xid := by
  obtain ⟨hall, ⟨r, hr, hrlo⟩, -⟩ := minMax_some hsome
  have hnormal := pageShorts_normal hr
  have hshort := r.toNat_lt
  have hbase := hb multi
  have hhalf : delta = ((lo : Int) - firstNormalTransactionId + required) / 2 := by
    rw [hdelta, Int.tdiv_eq_ediv_of_nonneg]
    simp only [firstNormalTransactionId, maxShortTransactionId] at *
    omega
  simp only [firstNormalTransactionId, maxShortTransactionId] at *
  have hclamp := clampDelta_eq (page.base multi) delta (by omega) (by omega) (by omega)
  constructor
  · refine (heapPageShiftBase_kept_iff (by omega) (by omega)).mpr fun s hs => ?_
    obtain ⟨hmin, -⟩ := hall s hs
    have hlt := s.toNat_lt
    simp only [firstNormalTransactionId, maxShortTransactionId] at *
    rw [hclamp]
    omega
  · have hnew := shift_base_toNat page multi delta (by omega) (by omega) (by omega)
    simp only [Fits, firstNormalTransactionId, maxShortTransactionId]
    omega

/-- One pass of `heap_page_prepare_for_xid`. -/
lemma prepareOnce_spec (hb : Bounded page) (hx : xid.toNat < 2 ^ 63) {r : Bool}
    (h : prepareOnce recentXmin xid multi page = some (r, page')) :
    KeptExcept [] page page' ∧ (Fits page' multi xid ↔ PrepareOk recentXmin xid multi page) := by
  have hbase := hb multi
  have hlow : ((page.base multi).toNat + firstNormalTransactionId) % 2 ^ 64 =
      (page.base multi).toNat + firstNormalTransactionId := Nat.mod_eq_of_lt (by
    simp only [firstNormalTransactionId, maxShortTransactionId] at *
    omega)
  have hhigh : ((page.base multi).toNat + maxShortTransactionId) % 2 ^ 64 =
      (page.base multi).toNat + maxShortTransactionId := Nat.mod_eq_of_lt (by omega)
  simp only [prepareOnce, hlow, hhigh] at h
  split at h
  · -- the xid fits already
    rename_i hfits
    cases h
    exact ⟨KeptExcept.refl page, ⟨fun h => .inl h, fun _ => hfits⟩⟩
  rename_i hnot
  have hnotFits : ¬Fits page multi xid := hnot
  split at h
  · -- the base of an empty page is reset
    rename_i hempty
    obtain ⟨hlen, hcomp, rfl⟩ := hempty
    have hitems := List.length_eq_zero_iff.mp hlen
    cases h
    constructor
    · intro i t' ht'
      rw [hitems] at ht'
      cases ht'
    · have hnew := shiftBase_toNat recentXmin (-firstNormalTransactionId)
      have hrecent := recentXmin.toNat_lt
      have hxid := xid.toNat_lt
      have hok : PrepareOk recentXmin xid false page ↔
          firstNormalTransactionId ≤ xid.toNat ∧ firstNormalTransactionId ≤ recentXmin.toNat ∧
            recentXmin.toNat ≤ xid.toNat ∧
            xid.toNat + firstNormalTransactionId ≤ recentXmin.toNat + maxShortTransactionId :=
        ⟨fun h => (h.resolve_left hnotFits).imp_right fun h => h hitems hcomp rfl,
          fun h => .inr ⟨h.1, fun _ _ _ => h.2⟩⟩
      rw [hok]
      show (shiftBase recentXmin (-firstNormalTransactionId)).toNat + firstNormalTransactionId ≤ xid.toNat ∧
        xid.toNat ≤ (shiftBase recentXmin (-firstNormalTransactionId)).toNat + maxShortTransactionId ↔ _
      simp only [firstNormalTransactionId, maxShortTransactionId] at *
      omega
  rename_i hfilled
  have hok : PrepareOk recentXmin xid multi page ↔ firstNormalTransactionId ≤ xid.toNat :=
    ⟨fun h => (h.resolve_left hnotFits).1, fun h => .inr ⟨h, fun hi hc hm =>
      absurd ⟨List.length_eq_zero_iff.mpr hi, hc, hm⟩ hfilled⟩⟩
  rw [hok]
  split at h
  · rename_i hnone
    cases h
    exact prepareOnce_none hb hx hnone rfl
  · rename_i lo hi hsome
    split at h
    · rename_i hbelow
      split at h
      swap
      · cases h
      rename_i hfree
      cases h
      refine prepareOnce_below hb hsome hbelow (toInt64_eq ?_ ?_) hfree rfl
      all_goals
        simp only [firstNormalTransactionId, maxShortTransactionId] at *
        push_cast
        omega
    · rename_i habove
      split at h
      swap
      · cases h
      rename_i hfree
      cases h
      have hbig : (page.base multi).toNat + maxShortTransactionId ≤ xid.toNat := by
        simp only [firstNormalTransactionId, maxShortTransactionId] at *
        omega
      have hrequired : toInt64 ((xid.toNat : Int) -
          (((page.base multi).toNat + maxShortTransactionId : Nat) : Int)) =
          (xid.toNat : Int) - (((page.base multi).toNat + maxShortTransactionId : Nat) : Int) :=
        toInt64_eq (by omega) (by omega)
      obtain ⟨hkept, hfits⟩ := prepareOnce_above hb hx hsome hbig hrequired hfree rfl
      refine ⟨hkept, ⟨fun _ => ?_, fun _ => hfits⟩⟩
      simp only [firstNormalTransactionId, maxShortTransactionId] at *
      omega

/-! ## Freezing -/

lemma freezeXmin_unchanged (h : freezeXmin env page t = some (t', false)) : t' = t := by
  simp only [freezeXmin] at h
  grind

lemma freezeXmax_unchanged (h : freezeXmax env page t = some (t', false)) : t' = t := by
  simp only [freezeXmax] at h
  grind

lemma freezeItem_unchanged {item item' : Option HeapTupleHeader}
    (h : freezeItem env page item = some (item', false)) : item' = item := by
  cases item with
  | none =>
    cases h
    rfl
  | some t =>
    rw [freezeItem] at h
    split at h
    · cases h
    · obtain ⟨r, hr, heq⟩ := Option.map_eq_some_iff.mp h
      obtain ⟨⟨t₁, c₁⟩, h₁, hrest⟩ := Option.bind_eq_some_iff.mp hr
      obtain ⟨⟨t₂, c₂⟩, h₂, hr'⟩ := Option.bind_eq_some_iff.mp hrest
      cases hr'
      obtain ⟨rfl, hc⟩ := Prod.mk.inj heq
      obtain ⟨rfl, rfl⟩ := Bool.or_eq_false_iff.mp hc
      rw [freezeXmax_unchanged h₂, freezeXmin_unchanged h₁]

lemma mapM_eq_some {α β : Type} {f : α → Option β} {l : List α} {r : List β} (h : l.mapM f = some r) :
    r.length = l.length ∧ ∀ (i : Nat) (b : β), r[i]? = some b → ∃ a, l[i]? = some a ∧ f a = some b := by
  induction l generalizing r with
  | nil =>
    cases h
    exact ⟨rfl, fun i b hb => by cases hb⟩
  | cons a l ih =>
    rw [List.mapM_cons] at h
    obtain ⟨b, hb, hrest⟩ := Option.bind_eq_some_iff.mp h
    obtain ⟨r', hr', heq⟩ := Option.bind_eq_some_iff.mp hrest
    cases heq
    obtain ⟨hlen, hall⟩ := ih hr'
    refine ⟨by rw [List.length_cons, List.length_cons, hlen], fun i b' hb' => ?_⟩
    cases i with
    | zero =>
      cases hb'
      exact ⟨a, rfl, hb⟩
    | succ i => exact hall i b' hb'

/-- The frozen page has the bases and the number of items of the page, and its other tuples are those of the
page. -/
lemma freezeSingleHeapPage_spec {mid : HeapPage} {frozen : List Bool}
    (h : freezeSingleHeapPage env page = some (mid, frozen)) :
    (∀ multi, mid.base multi = page.base multi) ∧ mid.compressed = page.compressed ∧
      mid.items.length = page.items.length ∧
      ∀ (i : Nat) (t' : HeapTupleHeader), mid.items[i]? = some (some t') → frozen[i]?.getD false = false →
        ∃ t : HeapTupleHeader, page.items[i]? = some (some t) ∧ t'.xmin = t.xmin ∧ t'.xmax = t.xmax ∧
          t'.xminFrozen = t.xminFrozen ∧ t'.xmaxIsMulti = t.xmaxIsMulti := by
  have hprune := env.pruned page
  obtain ⟨items, hitems, heq⟩ := Option.map_eq_some_iff.mp h
  cases heq
  obtain ⟨hlen, hall⟩ := mapM_eq_some hitems
  refine ⟨fun multi => ?_, hprune.compressed, ?_, fun i t' ht' hfrozen => ?_⟩
  · rw [← hprune.base multi]
    rfl
  · rw [List.length_map, hlen, hprune.length]
  · rw [List.getElem?_map] at ht' hfrozen
    obtain ⟨⟨item', changed⟩, hi, rfl⟩ := Option.map_eq_some_iff.mp ht'
    rw [hi] at hfrozen
    cases hfrozen
    obtain ⟨item, hitem, hfreeze⟩ := hall i _ hi
    rw [← freezeItem_unchanged hfreeze] at hitem
    exact hprune.kept i t' hitem

/-- The items that the intermediate freeze of `heap_page_prepare_for_xid` freezes, if it comes to that. -/
def frozenItems (env : FreezeEnv) (recentXmin xid : UInt64) (multi : Bool) (page : HeapPage) : List Bool :=
  match prepareOnce recentXmin xid multi page with
  | some _ => []
  | none => ((freezeSingleHeapPage env page).map Prod.snd).getD []

/-- Ids kept from the frozen page are kept from the page, but for the frozen tuples. -/
lemma KeptExcept.of_frozen {mid : HeapPage} {frozen : List Bool}
    (hbase : ∀ multi, mid.base multi = page.base multi)
    (hitems : ∀ (i : Nat) (t' : HeapTupleHeader), mid.items[i]? = some (some t') →
      frozen[i]?.getD false = false →
      ∃ t : HeapTupleHeader, page.items[i]? = some (some t) ∧ t'.xmin = t.xmin ∧ t'.xmax = t.xmax ∧
        t'.xminFrozen = t.xminFrozen ∧ t'.xmaxIsMulti = t.xmaxIsMulti)
    (h : KeptExcept [] mid page') : KeptExcept frozen page page' := by
  intro i t' ht' hfrozen
  obtain ⟨t₁, ht₁, hkept⟩ := h i t' ht' rfl
  obtain ⟨t, ht, hxmin, hxmax, hfro, hmul⟩ := hitems i t₁ ht₁ hfrozen
  have hxid : mid.xidBase = page.xidBase := hbase false
  refine ⟨t, ht, ⟨fun hcounts => ?_, fun m hcounts => ?_⟩⟩
  · have hcounts₁ : t₁.xminCounts = true := by
      rw [HeapTupleHeader.xminCounts, hfro, hxmin]
      exact hcounts
    have hk := hkept.xmin hcounts₁
    rw [hxmin, hxid] at hk
    exact hk
  · have hcounts₁ : t₁.xmaxCounts m = true := by
      rw [HeapTupleHeader.xmaxCounts, hmul, hxmax]
      exact hcounts
    have hk := hkept.xmax m hcounts₁
    rw [hxmax, hbase] at hk
    exact hk

/-- `heap_page_prepare_for_xid`, with or without the freeze. -/
lemma heapPagePrepareForXid_spec (hb : Bounded page) (hx : xid.toNat < 2 ^ 63) {r : Bool}
    (h : heapPagePrepareForXid env recentXmin xid multi page = some (r, page')) :
    KeptExcept (frozenItems env recentXmin xid multi page) page page' ∧
      (Fits page' multi xid ↔ PrepareOk recentXmin xid multi page) := by
  rw [heapPagePrepareForXid] at h
  cases honce : prepareOnce recentXmin xid multi page with
  | some r' =>
    rw [honce] at h
    cases h
    rw [frozenItems, honce]
    exact prepareOnce_spec hb hx honce
  | none =>
    rw [honce] at h
    obtain ⟨⟨mid, frozen⟩, hfreeze, hagain⟩ := Option.bind_eq_some_iff.mp h
    obtain ⟨hbase, hcomp, hlen, hitems⟩ := freezeSingleHeapPage_spec hfreeze
    have hbmid : Bounded mid := fun m => by
      rw [hbase]
      exact hb m
    obtain ⟨hkept, hfits⟩ := prepareOnce_spec hbmid hx hagain
    rw [frozenItems, honce, hfreeze]
    refine ⟨hkept.of_frozen hbase hitems, hfits.trans ?_⟩
    have hfitsMid : Fits mid multi xid ↔ Fits page multi xid := by
      rw [Fits, Fits, hbase]
    have hempty : mid.items = [] ↔ page.items = [] := by
      rw [← List.length_eq_zero_iff, ← List.length_eq_zero_iff, hlen]
    rw [PrepareOk, PrepareOk, hfitsMid, hempty, hcomp]

/-- When `heap_change_xidbase_after_freeze` keeps the ids: `RecentXmin` is normal, or the ids do not run out
of their range when the base moves down by the missing distance. -/
def ChangeOk (recentXmin : UInt64) (page : HeapPage) : Prop :=
  firstNormalTransactionId ≤ recentXmin.toNat ∨ ∀ s ∈ pageShorts page false,
    s.toNat + min (firstNormalTransactionId - recentXmin.toNat) page.xidBase.toNat ≤ maxShortTransactionId

/-- `heap_change_xidbase_after_freeze` moves the base to the smallest id, or to `RecentXmin`. -/
lemma changeXidbase_kept_iff (hb : Bounded page) {xidmin : Nat}
    (hsome : heapPageXidMinMax page false = some (lo, hi))
    (hmin : xidmin = if lo < recentXmin.toNat then lo else recentXmin.toNat)
    (hdelta : delta = toInt64 ((xidmin : Int) - firstNormalTransactionId)) :
    KeptExcept [] page (heapPageShiftBase page false delta) ↔ ChangeOk recentXmin page := by
  obtain ⟨hall, ⟨r, hr, hrlo⟩, -⟩ := minMax_some hsome
  have hnormal := pageShorts_normal hr
  have hshort := r.toNat_lt
  have hbase : (page.base false).toNat + maxShortTransactionId < 2 ^ 63 := hb false
  have hxid : page.xidBase = page.base false := rfl
  have hle : xidmin ≤ lo ∧ xidmin ≤ recentXmin.toNat ∧ (xidmin = lo ∨ xidmin = recentXmin.toNat) := by
    rw [hmin]
    split <;> omega
  have hd : delta = (xidmin : Int) - firstNormalTransactionId := by
    rw [hdelta]
    exact toInt64_eq (by simp only [firstNormalTransactionId]; omega)
      (by simp only [firstNormalTransactionId]; omega)
  simp only [firstNormalTransactionId, maxShortTransactionId] at *
  have hclamp := clampDelta_eq (page.base false) delta (by omega) (by omega) (by omega)
  rw [heapPageShiftBase_kept_iff (by omega) (by omega), ChangeOk, hxid, hclamp]
  simp only [firstNormalTransactionId, maxShortTransactionId]
  constructor
  · intro h
    rcases Nat.lt_or_ge recentXmin.toNat 3 with hlt | hge
    · refine .inr fun s hs => ?_
      have hrange := (h s hs).2
      omega
    · exact .inl hge
  · intro h s hs
    obtain ⟨hslo, -⟩ := hall s hs
    have hslt := s.toNat_lt
    rcases h with hge | hall'
    · omega
    · have hs' := hall' s hs
      omega

/-- `heap_change_xidbase_after_freeze`. -/
lemma heapChangeXidbaseAfterFreeze_spec (hb : Bounded page) (hx : recentXmin.toNat < 2 ^ 63) :
    KeptExcept [] page (heapChangeXidbaseAfterFreeze recentXmin page).2 ↔ ChangeOk recentXmin page := by
  have hbase : page.xidBase.toNat + maxShortTransactionId < 2 ^ 63 := hb false
  have hhigh : (page.xidBase.toNat + maxShortTransactionId) % 2 ^ 64 =
      page.xidBase.toNat + maxShortTransactionId := Nat.mod_eq_of_lt (by omega)
  simp only [heapChangeXidbaseAfterFreeze, hhigh]
  split
  · rename_i hnone
    obtain ⟨hlo, hhi⟩ := toInt64_le ((recentXmin.toNat : Int) - firstNormalTransactionId - page.xidBase.toNat)
    have hempty := minMax_none hnone
    rw [heapPageShiftBase_kept_iff hlo hhi, ChangeOk, hempty]
    simp
  · rename_i lo hi hsome
    split
    · exact changeXidbase_kept_iff hb hsome rfl rfl
    rename_i hge
    have hbig : page.xidBase.toNat + maxShortTransactionId ≤ recentXmin.toNat := not_lt.mp hge
    have hok : ChangeOk recentXmin page := .inl (by
      simp only [firstNormalTransactionId, maxShortTransactionId] at *
      omega)
    refine ⟨fun _ => hok, fun _ => ?_⟩
    split
    · rename_i hfree
      have hrequired : toInt64 ((recentXmin.toNat : Int) -
          ((page.xidBase.toNat + maxShortTransactionId : Nat) : Int)) =
          (recentXmin.toNat : Int) - ((page.xidBase.toNat + maxShortTransactionId : Nat) : Int) :=
        toInt64_eq (by omega) (by omega)
      exact (prepareOnce_above hb hx hsome hbig hrequired hfree rfl).1
    · exact KeptExcept.refl page

/-- When `HeapPageShiftBase` keeps the ids: no short id leaves its range, the base being clamped at 0. -/
def ShiftOk (page : HeapPage) (multi : Bool) (delta : Int) : Prop :=
  ∀ s ∈ pageShorts page multi,
    firstNormalTransactionId ≤ (s.toNat : Int) - clampDelta (page.base multi) delta ∧
      (s.toNat : Int) - clampDelta (page.base multi) delta ≤ maxShortTransactionId

end

/-- **Shifting the base changes no id.** For bases and ids below 2^63: `heap_page_prepare_for_xid`, when it
returns, has made the xid fit and kept every id of every tuple it did not freeze or prune, exactly when the
xid fitted before or is normal and, on an empty page, within reach of `RecentXmin`; and the two other
routines keep every id exactly under `ChangeOk` and `ShiftOk`. -/
theorem xid_base_iff (env : FreezeEnv) (recentXmin : UInt64) (page : HeapPage) (hb : Bounded page) :
    (∀ xid multi r page', xid.toNat < 2 ^ 63 →
      heapPagePrepareForXid env recentXmin xid multi page = some (r, page') →
        (Fits page' multi xid ∧ KeptExcept (frozenItems env recentXmin xid multi page) page page' ↔
          PrepareOk recentXmin xid multi page)) ∧
    (recentXmin.toNat < 2 ^ 63 →
      (KeptExcept [] page (heapChangeXidbaseAfterFreeze recentXmin page).2 ↔ ChangeOk recentXmin page)) ∧
    ∀ multi delta, -2 ^ 63 ≤ delta → delta < 2 ^ 63 →
      (KeptExcept [] page (heapPageShiftBase page multi delta) ↔ ShiftOk page multi delta) := by
  refine ⟨fun xid multi r page' hx h => ?_, heapChangeXidbaseAfterFreeze_spec hb,
    fun multi delta hlo hhi => heapPageShiftBase_kept_iff hlo hhi⟩
  obtain ⟨hkept, hfits⟩ := heapPagePrepareForXid_spec hb hx h
  exact ⟨fun hp => hfits.mp hp.1, fun hok => ⟨hfits.mpr hok, hkept⟩⟩

lemma Pruned.refl (page : HeapPage) : Pruned page page :=
  ⟨fun _ => rfl, rfl, rfl, fun _ t ht => ⟨t, ht, rfl, rfl, rfl, rfl⟩⟩

/-- Nothing to prune and nothing to freeze. -/
def quietEnv : FreezeEnv where
  heapPagePrune page := page
  pruned := Pruned.refl
  invalidInvisible _ := false
  freezeXid := 0
  freezeMxid := 0
  recoveryInProgress := false
  didCommit _ := true
  updateXid _ := 0

/-- A page with one tuple, inserted by transaction 2^33 + 5. -/
def oneTuplePage : HeapPage where
  xidBase := 8589934592
  multiBase := 0
  compressed := false
  items := [some { xmin := 5, xmax := 0, infomask := 0, infomask2 := 0 }]

/-- A transaction id just below the base is made to fit. -/
theorem xid_base_oneTuplePage : ∃ page',
    heapPagePrepareForXid quietEnv 3 8589934582 false oneTuplePage = some (true, page') ∧
      Fits page' false 8589934582 ∧ KeptExcept [] oneTuplePage page' := by
  have hb : Bounded oneTuplePage := by
    rw [Bounded, Bool.forall_bool]
    decide
  have hok : PrepareOk 3 8589934582 false oneTuplePage := .inr ⟨by decide, fun h => by cases h⟩
  refine ⟨_, rfl, ?_⟩
  exact ((xid_base_iff quietEnv 3 oneTuplePage hb).1 8589934582 false true _ (by decide) rfl).mpr hok

/-- On an empty page a transaction id more than 2^32 above `RecentXmin` does not fit afterwards. -/
theorem empty_page_xid_does_not_fit : ¬∀ (env : FreezeEnv) (recentXmin xid : UInt64) (multi : Bool)
    (page : HeapPage) (r : Bool) (page' : HeapPage),
    heapPagePrepareForXid env recentXmin xid multi page = some (r, page') →
      Fits page' multi xid ∧ KeptExcept (frozenItems env recentXmin xid multi page) page page' := by
  intro hall
  obtain ⟨hfits, -⟩ := hall quietEnv 3 8589934592 false ⟨0, 0, false, []⟩ false ⟨0, 0, false, []⟩ rfl
  have hnot : ¬(0 + firstNormalTransactionId ≤ 8589934592 ∧ 8589934592 ≤ 0 + maxShortTransactionId) := by
    decide
  exact hnot hfits

end GaussKernel.Heap
