import GaussKernel.Lib.Runs
import GaussKernel.UHeap.TransSlot
import GaussKernel.Undo.Ptr

/-!
# Undo actions

Model of `UHeapUndoActions` (`knl_undoaction.cpp`) on one page, and of `FetchUndoRecordRange`, `SortByBlkNo`
(`knl_uundovec.cpp`) and the loop of `ExecuteUndoActions` that cuts a batch into the records of each page. What the
switch over the type of a record does to the rows of a page is the function `act` of the record. Log records and the
reinitialisation of an empty page are left out.
-/

namespace GaussKernel.Undo

open Lib
open UHeap (TD)

variable {α : Type*}

/-- A page by its tablespace, relfilenode and block number -/
abbrev RelBlock := ℕ ×ₗ ℕ ×ₗ ℕ

structure RollbackRecord (α : Type*) where
  urp : Nat
  xid : Nat
  blkprev : Nat
  prevurp : Nat
  reloid : Nat
  partitionoid : Nat
  block : RelBlock
  memoryRecordSize : Nat
  act : α → α

/-- What there is at a place of the undo space -/
inductive UndoEntry (α : Type*) where
  | unused
  | record (urec : RollbackRecord α)
  | discarded

abbrev UndoContent (α : Type*) := Nat → UndoEntry α

/-! ## Batches -/

abbrev sizeofURecVector : Nat := 48

/-- The loop of `FetchUndoRecordRange`: the records and the place to go on from; `none` if the fuel ends. -/
def fetchLoop (space : UndoContent α) (endUrp maxUndoApplySize : Nat) (onePage : Bool) :
    (fuel currUrp xid totalSize : Nat) → (urecvec : List (RollbackRecord α)) → Option (List (RollbackRecord α) × Nat)
  | 0, _, _, _, _ => none
  | fuel + 1, currUrp, xid, totalSize, urecvec =>
    match space currUrp with
    | .record urec =>
      if onePage ∧ xid ≠ UHeap.invalidTransactionId ∧ xid ≠ urec.xid then some (urecvec, invalidUndoRecPtr)
      else
        let next :=
          if onePage then urec.blkprev else if currUrp = endUrp then invalidUndoRecPtr else urec.prevurp
        let urecvec := urecvec ++ [urec]
        let totalSize := totalSize + urec.memoryRecordSize
        if next = invalidUndoRecPtr ∨ currUrp = endUrp then some (urecvec, invalidUndoRecPtr)
        else if maxUndoApplySize ≤ totalSize then some (urecvec, next)
        else fetchLoop space endUrp maxUndoApplySize onePage fuel next (if onePage then urec.xid else xid) totalSize
          urecvec
    | _ => some (urecvec, invalidUndoRecPtr)

def fetchUndoRecordRange (space : UndoContent α) (fuel startUrp endUrp maxUndoApplySize : Nat) (onePage : Bool) :
    Option (List (RollbackRecord α) × Nat) :=
  fetchLoop space endUrp maxUndoApplySize onePage fuel startUrp UHeap.invalidTransactionId sizeofURecVector []

/-- `SortByBlkNo` and the loop of `ExecuteUndoActions`: the records of each page of a batch -/
def pageGroups (urecvec : List (RollbackRecord α)) : List (List (RollbackRecord α)) :=
  runsByKey RollbackRecord.block (sortByKey RollbackRecord.block urecvec)

/-! ## One page -/

structure RollbackPage (α : Type*) where
  slots : List TD
  rows : α

inductive RollbackReturn where
  | ok
  | err
  | okNoexist
  deriving DecidableEq

/-- `UHeapPageGetTDSlotId`, with slots numbered from 0 -/
def uHeapPageGetTDSlotId (slots : List TD) (xid : Nat) : Option (Nat × Nat) :=
  (slots.findIdx? fun td => td.xactid = xid).bind fun i => (slots[i]?).map fun td => (i, td.undoRecordPtr)

/-- The loop over the records: `slotPrevUrp` and the rows after it -/
def applyLoop : List (RollbackRecord α) → (prevUrp slotPrevUrp : Nat) → α → Nat × α
  | [], _, slotPrevUrp, rows => (slotPrevUrp, rows)
  | urec :: urecvec, prevUrp, _, rows =>
    if prevUrp = 0 then (0, rows)
    else if prevUrp ≠ urec.urp then applyLoop urecvec prevUrp prevUrp rows
    else applyLoop urecvec urec.blkprev urec.blkprev (urec.act rows)

/-- The transaction that the slot gets: none once all of the page is rolled back -/
def slotXid (space : UndoContent α) (isFullChain : Bool) (xid slotPrevUrp : Nat) : Nat :=
  if isFullChain ∨ slotPrevUrp = invalidUndoRecPtr then UHeap.invalidTransactionId
  else match space slotPrevUrp with
    | .record urec => if urec.xid = xid then xid else UHeap.invalidTransactionId
    | _ => UHeap.invalidTransactionId

/-- `UHeapUndoActions` from where the page is locked; `first` and `last` are the ends of the batch. -/
def undoPage (space : UndoContent α) (page : RollbackPage α) (urecvec : List (RollbackRecord α))
    (first last : RollbackRecord α) (xid : Nat) (isFullChain : Bool) : RollbackReturn × RollbackPage α :=
  match uHeapPageGetTDSlotId page.slots xid with
  | none => (.err, page)
  | some (tdSlotId, slotUrecPtr) =>
    if undoPtrGetZoneId slotUrecPtr ≠ undoPtrGetZoneId first.urp ∨
        undoPtrGetZoneId slotUrecPtr = undoPtrGetZoneId last.blkprev ∧ slotUrecPtr ≤ last.blkprev then (.err, page)
    else
      let r := applyLoop urecvec slotUrecPtr last.blkprev page.rows
      (.ok, ⟨page.slots.set tdSlotId ⟨slotXid space isFullChain xid r.1, r.1⟩, r.2⟩)

/-- The return of the call before, with its relation and partition -/
structure PreviousCall where
  retCode : RollbackReturn
  reloid : Nat
  partitionoid : Nat

/-- The call before found no page, so that the pages of the same relation and partition are passed over. -/
def PreviousCall.Skips (pre : PreviousCall) (reloid partitionoid : Nat) : Prop :=
  pre.reloid = reloid ∧ pre.partitionoid = partitionoid ∧ pre.retCode = .okNoexist

instance (pre : PreviousCall) (reloid partitionoid : Nat) : Decidable (pre.Skips reloid partitionoid) :=
  inferInstanceAs (Decidable (_ ∧ _ ∧ _))

/-- `UHeapUndoActions`. `gone` says that the relation, its file or the block does not exist any more. -/
def uHeapUndoActions (gone : RelBlock → Bool) (space : UndoContent α) (pages : RelBlock → RollbackPage α)
    (urecvec : List (RollbackRecord α)) (xid reloid partitionoid : Nat) (block : RelBlock) (isFullChain : Bool)
    (pre : PreviousCall) : PreviousCall × (RelBlock → RollbackPage α) :=
  if pre.Skips reloid partitionoid then (pre, pages)
  else if gone block then (⟨.okNoexist, reloid, partitionoid⟩, pages)
  else match urecvec.head?, urecvec.getLast? with
    | some first, some last =>
      let r := undoPage space (pages block) urecvec first last xid isFullChain
      (⟨r.1, reloid, partitionoid⟩, Function.update pages block r.2)
    | _, _ => (⟨.err, reloid, partitionoid⟩, pages)

/-! ## Chains -/

/-- The records lead from the place `start` down to the place `base` by a link. -/
def Chain (link : RollbackRecord α → Nat) : (start : Nat) → List (RollbackRecord α) → (base : Nat) → Prop
  | start, [], base => start = base
  | start, urec :: l, base => start = urec.urp ∧ Chain link (link urec) l base

section chain

variable {link : RollbackRecord α → Nat} {s e m : Nat} {l l' : List (RollbackRecord α)} {urec : RollbackRecord α}

lemma chain_append : Chain link s (l ++ l') e ↔ ∃ m, Chain link s l m ∧ Chain link m l' e := by
  induction l generalizing s with
  | nil => exact ⟨fun h => ⟨s, rfl, h⟩, fun ⟨m, hs, h⟩ => hs ▸ h⟩
  | cons r l ih =>
    rw [List.cons_append, Chain, ih]
    exact ⟨fun ⟨hs, m, hl, hl'⟩ => ⟨m, ⟨hs, hl⟩, hl'⟩, fun ⟨m, ⟨hs, hl⟩, hl'⟩ => ⟨hs, m, hl, hl'⟩⟩

/-- The latest record of a list, or the place behind all of it -/
def stackTop (stack : List (RollbackRecord α)) (base : Nat) : Nat := (stack.head?.map RollbackRecord.urp).getD base

lemma Chain.start_eq (h : Chain link s l e) : s = stackTop l e := by
  cases l with
  | nil => exact h
  | cons r l => exact h.1

/-- The rest of a chain starts where its first part ends. -/
lemma Chain.drop (h : Chain link s (l ++ l') e) : Chain link s l (stackTop l' e) ∧ Chain link (stackTop l' e) l' e := by
  obtain ⟨m, hl, hl'⟩ := chain_append.mp h
  obtain rfl := hl'.start_eq
  exact ⟨hl, hl'⟩

end chain

/-! ## The loop over the records of a page -/

section loop

variable {stack rest urecvec : List (RollbackRecord α)} {base start slotPrevUrp : Nat} {rows : α}

/-- Roll back records, the latest first. -/
def undoAll (urecvec : List (RollbackRecord α)) (rows : α) : α := urecvec.foldl (fun rows urec => urec.act rows) rows

/-- Without a record of the chain ahead, nothing happens. -/
lemma applyLoop_skip (hskip : ∀ urec ∈ urecvec, urec.urp ≠ start) (hstart : start ≠ 0 ∨ slotPrevUrp = 0) :
    applyLoop urecvec start slotPrevUrp rows = (if urecvec = [] then slotPrevUrp else start, rows) := by
  induction urecvec generalizing slotPrevUrp with
  | nil => rfl
  | cons urec urecvec ih =>
    rw [applyLoop]
    by_cases hzero : start = 0
    · rw [if_pos hzero, if_neg (List.cons_ne_nil _ _), hzero]
    · rw [if_neg hzero, if_pos (hskip urec List.mem_cons_self).symm,
        ih (fun r hr => hskip r (List.mem_cons_of_mem _ hr)) (.inl hzero), if_neg (List.cons_ne_nil _ _)]
      split <;> rfl

/-- The records of a batch that are next in the chain of the page are rolled back, and no others. -/
lemma applyLoop_eq (slotPrevUrp : Nat) (rows : α) (hsub : stack.Sublist urecvec)
    (hchain : Chain RollbackRecord.blkprev start stack base)
    (hzero : ∀ urec ∈ stack, urec.urp ≠ 0) (hnodup : urecvec.Pairwise fun a b => a.urp ≠ b.urp)
    (hbase : ∀ urec ∈ urecvec, urec.urp ≠ base) :
    applyLoop urecvec start slotPrevUrp rows = (if urecvec = [] then slotPrevUrp else base, undoAll stack rows) := by
  induction urecvec generalizing start stack slotPrevUrp rows with
  | nil =>
    obtain rfl := List.sublist_nil.mp hsub
    rfl
  | cons urec urecvec ih =>
    obtain ⟨hdiff, hnodup'⟩ := List.pairwise_cons.mp hnodup
    have hbase' : ∀ r ∈ urecvec, r.urp ≠ base := fun r hr => hbase r (List.mem_cons_of_mem _ hr)
    rw [applyLoop, if_neg (List.cons_ne_nil _ _)]
    cases stack with
    | nil =>
      obtain rfl : start = base := hchain
      by_cases hzero : start = 0
      · rw [if_pos hzero, hzero]
        rfl
      · rw [if_neg hzero, if_pos (hbase urec List.mem_cons_self).symm, applyLoop_skip hbase' (.inl hzero)]
        split <;> rfl
    | cons top stack =>
      obtain ⟨rfl, hchain⟩ := hchain
      rw [if_neg (hzero top List.mem_cons_self)]
      rcases List.sublist_cons_iff.mp hsub with hsub | ⟨_, heq, hsub⟩
      · have hmem := hsub.subset List.mem_cons_self
        rw [if_pos (hdiff top hmem).symm, ih _ _ hsub ⟨rfl, hchain⟩ hzero hnodup' hbase',
          if_neg (List.ne_nil_of_mem hmem)]
      · obtain ⟨rfl, rfl⟩ := List.cons_eq_cons.mp heq
        have hzero' : ∀ r ∈ stack, r.urp ≠ 0 := fun r hr => hzero r (List.mem_cons_of_mem _ hr)
        rw [if_neg (not_not.mpr rfl), ih _ _ hsub hchain hzero' hnodup' hbase']
        split
        case isTrue hnil =>
          subst hnil
          obtain rfl := List.sublist_nil.mp hsub
          exact congrArg (·, _) hchain
        case isFalse => rfl

end loop

/-! ## What a page has left -/

section page

variable {space : UndoContent α} {xid zone base : Nat} {stack popped rest urecvec : List (RollbackRecord α)}

/-- A place without a record of the transaction -/
def Foreign (space : UndoContent α) (xid urp : Nat) : Prop :=
  urp = invalidUndoRecPtr ∨ space urp = .discarded ∨ ∃ urec, space urp = .record urec ∧ urec.xid ≠ xid

/-- The records of the transaction that a page has left, the latest first -/
structure Stacked (space : UndoContent α) (xid zone : Nat) (stack : List (RollbackRecord α)) (base : Nat) : Prop where
  chain : Chain RollbackRecord.blkprev (stackTop stack base) stack base
  own : ∀ urec ∈ stack, urec.xid = xid ∧ undoPtrGetZoneId urec.urp = zone ∧ urec.urp ≠ 0 ∧
    space urec.urp = .record urec
  foreign : Foreign space xid base

/-- The transaction has one slot with its latest record, or none when nothing is left. -/
def SlotHolds (slots : List TD) (xid : Nat) : List (RollbackRecord α) → Prop
  | [] => ∀ td ∈ slots, td.xactid ≠ xid
  | top :: _ => ∃ i : Nat, slots[i]? = some ⟨xid, top.urp⟩ ∧
    ∀ (j : Nat) (td : TD), slots[j]? = some td → td.xactid = xid → j = i

variable {slots : List TD} {isFullChain : Bool}

lemma tdSlotId_of_nil (h : ∀ td ∈ slots, td.xactid ≠ xid) : uHeapPageGetTDSlotId slots xid = none := by
  have hnone : slots.findIdx? (fun td => decide (td.xactid = xid)) = none :=
    List.findIdx?_eq_none_iff.mpr fun td htd => decide_eq_false (h td htd)
  rw [uHeapPageGetTDSlotId, hnone, Option.bind_none]

lemma tdSlotId_of_cons {top : RollbackRecord α} (h : SlotHolds slots xid (top :: stack)) :
    ∃ i, uHeapPageGetTDSlotId slots xid = some (i, top.urp) ∧ slots[i]? = some ⟨xid, top.urp⟩ ∧
      ∀ (j : Nat) (td : TD), slots[j]? = some td → td.xactid = xid → j = i := by
  obtain ⟨i, hi, huniq⟩ := h
  obtain ⟨hlt, hget⟩ := List.getElem?_eq_some_iff.mp hi
  have hfind : slots.findIdx? (fun td => decide (td.xactid = xid)) = some i := by
    rw [List.findIdx?_eq_some_iff_getElem]
    refine ⟨hlt, by rw [hget]; exact decide_eq_true rfl, fun j hj hown => ?_⟩
    have := huniq j _ (List.getElem?_eq_getElem (hj.trans hlt)) (of_decide_eq_true hown)
    omega
  exact ⟨i, by rw [uHeapPageGetTDSlotId, hfind, Option.bind_some, hi, Option.map_some], hi, huniq⟩

/-- While a record is left, the slot stays with the transaction. -/
lemma slotXid_of_cons {top : RollbackRecord α} (hrest : Stacked space xid zone (top :: rest) base)
    (hfull : isFullChain = true → top :: rest = []) : slotXid space isFullChain xid top.urp = xid := by
  obtain ⟨howner, -, hne, hrec⟩ := hrest.own top List.mem_cons_self
  rw [slotXid, if_neg, hrec]
  · exact if_pos howner
  · rintro (h | h)
    · exact List.cons_ne_nil _ _ (hfull h)
    · exact hne h

/-- The slot after the records that are left have become `rest` -/
lemma slotHolds_set (hxid : xid ≠ UHeap.invalidTransactionId) {i : Nat} (hi : i < slots.length)
    (huniq : ∀ (j : Nat) (td : TD), slots[j]? = some td → td.xactid = xid → j = i)
    (hrest : Stacked space xid zone rest base) (hfull : isFullChain = true → rest = []) :
    SlotHolds (slots.set i ⟨slotXid space isFullChain xid (stackTop rest base), stackTop rest base⟩) xid rest := by
  cases rest with
  | nil =>
    have hclear : slotXid space isFullChain xid (stackTop ([] : List (RollbackRecord α)) base) =
        UHeap.invalidTransactionId := by
      rw [slotXid]
      split
      · rfl
      · rename_i hno
        rcases hrest.foreign with hzero | hgone | ⟨urec, hrec, hother⟩
        · exact absurd (.inr hzero) hno
        · rw [show stackTop ([] : List (RollbackRecord α)) base = base from rfl, hgone]
        · rw [show stackTop ([] : List (RollbackRecord α)) base = base from rfl, hrec]
          exact if_neg hother
    intro td htd hown
    obtain ⟨j, hj⟩ := List.mem_iff_getElem?.mp htd
    by_cases hij : i = j
    · subst hij
      rw [List.getElem?_set_self hi, Option.some_inj] at hj
      subst hj
      exact hxid (hown.symm.trans hclear)
    · rw [List.getElem?_set_ne hij] at hj
      exact hij (huniq j td hj hown).symm
  | cons top rest =>
    have hkeep : slotXid space isFullChain xid (stackTop (top :: rest) base) = xid := slotXid_of_cons hrest hfull
    refine ⟨i, ?_, fun j td hj hown => ?_⟩
    · rw [List.getElem?_set_self hi, hkeep]
      rfl
    · by_cases hij : i = j
      · exact hij.symm
      · rw [List.getElem?_set_ne hij] at hj
        exact huniq j td hj hown

/-- A batch of records of the transaction for one page, the latest first -/
structure PageBatch (space : UndoContent α) (xid zone : Nat) (urecvec : List (RollbackRecord α)) : Prop where
  own : ∀ urec ∈ urecvec, urec.xid = xid ∧ undoPtrGetZoneId urec.urp = zone ∧ urec.urp ≠ 0 ∧
    space urec.urp = .record urec
  older : ∀ urec ∈ urecvec, undoPtrGetZoneId urec.blkprev = zone → urec.blkprev < urec.urp
  sorted : urecvec.Pairwise fun a b => b.urp < a.urp

lemma Stacked.drop (h : Stacked space xid zone (popped ++ rest) base) :
    Stacked space xid zone rest base ∧ Chain RollbackRecord.blkprev (stackTop (popped ++ rest) base) popped
      (stackTop rest base) := by
  obtain ⟨hpopped, hrest⟩ := h.chain.drop
  exact ⟨⟨hrest, fun urec hr => h.own urec (List.mem_append_right _ hr), h.foreign⟩, hpopped⟩

/-- `UHeapUndoActions` with a batch takes from the page what the batch has of the records left, and leaves the rest. -/
lemma undoPage_spec (hxid : xid ≠ UHeap.invalidTransactionId) {page : RollbackPage α}
    (h : Stacked space xid zone (popped ++ rest) base) (hslot : SlotHolds page.slots xid (popped ++ rest))
    (hbatch : PageBatch space xid zone urecvec) (hsub : popped.Sublist urecvec) (hrest : ∀ urec ∈ rest, urec ∉ urecvec)
    {first last : RollbackRecord α} (hfirst : first ∈ urecvec) (hlast : urecvec.getLast? = some last)
    (hfull : isFullChain = true → rest = []) {r : RollbackReturn × RollbackPage α}
    (hr : r = undoPage space page urecvec first last xid isFullChain) :
    SlotHolds r.2.slots xid rest ∧ r.2.rows = undoAll popped page.rows ∧ r.2.slots.length = page.slots.length ∧
      ∀ (i : Nat) (td : TD), r.2.slots[i]? = some td → td.xactid ≠ xid →
        page.slots[i]? = some td ∨ td.undoRecordPtr = base := by
  rw [undoPage] at hr
  cases hall : popped ++ rest with
  | nil =>
    obtain ⟨rfl, rfl⟩ := List.append_eq_nil_iff.mp hall
    rw [hall] at hslot
    rw [tdSlotId_of_nil hslot] at hr
    subst hr
    exact ⟨hslot, rfl, rfl, fun i td htd _ => .inl htd⟩
  | cons top stack =>
    rw [hall] at hslot
    obtain ⟨i, hfind, hi, huniq⟩ := tdSlotId_of_cons hslot
    rw [hfind] at hr
    dsimp only at hr
    obtain ⟨hltSlot, -⟩ := List.getElem?_eq_some_iff.mp hi
    have htop := h.own top (hall ▸ List.mem_cons_self)
    obtain ⟨hrestStacked, hchain⟩ := h.drop
    have hlastMem : last ∈ urecvec := List.mem_of_getLast? hlast
    -- a record of the batch is not where the rest starts
    have hnot : ∀ urec ∈ urecvec, urec.urp ≠ stackTop rest base := by
      intro urec hmem heq
      obtain ⟨howner, -, hne, hrec⟩ := hbatch.own urec hmem
      cases rest with
      | nil =>
        have hbase : urec.urp = base := heq
        rcases h.foreign with hzero | hgone | ⟨other, hother, hdiff⟩
        · exact hne (hbase.trans hzero)
        · rw [hbase, hgone] at hrec
          cases hrec
        · rw [hbase, hother] at hrec
          cases hrec
          exact hdiff howner
      | cons next rest =>
        have hnext := (h.own next (List.mem_append_right _ List.mem_cons_self)).2.2.2
        have hsame : urec.urp = next.urp := heq
        rw [← hsame, hrec] at hnext
        cases hnext
        exact hrest urec List.mem_cons_self hmem
    by_cases hskip : undoPtrGetZoneId top.urp ≠ undoPtrGetZoneId first.urp ∨
        undoPtrGetZoneId top.urp = undoPtrGetZoneId last.blkprev ∧ top.urp ≤ last.blkprev
    · -- all of the batch was rolled back before
      rw [if_pos hskip] at hr
      have hpopped : popped = [] := by
        cases popped with
        | nil => rfl
        | cons p popped =>
          obtain rfl : p = top := (List.cons_eq_cons.mp hall).1
          have hmem := hsub.subset List.mem_cons_self
          rcases hskip with hzone | ⟨hzone, hle⟩
          · exact absurd (htop.2.1.trans (hbatch.own first hfirst).2.1.symm) hzone
          · have holder := hbatch.older last hlastMem (hzone.symm.trans htop.2.1)
            have hge : last.urp ≤ p.urp := by
              obtain ⟨pre, rfl⟩ := List.getLast?_eq_some_iff.mp hlast
              rcases List.mem_append.mp hmem with hpre | hsame
              · exact ((List.pairwise_append.mp hbatch.sorted).2.2 p hpre last List.mem_cons_self).le
              · rw [List.mem_singleton.mp hsame]
            omega
      subst hr hpopped
      rw [List.nil_append] at hall
      exact ⟨hall ▸ hslot, rfl, rfl, fun i td htd _ => .inl htd⟩
    · rw [if_neg hskip] at hr
      have hstart : top.urp = stackTop (popped ++ rest) base := by rw [hall]; rfl
      have hloop := applyLoop_eq last.blkprev page.rows hsub hchain
        (fun urec hmem => (h.own urec (List.mem_append_left _ hmem)).2.2.1)
        (hbatch.sorted.imp fun hlt => hlt.ne') hnot
      rw [if_neg (List.ne_nil_of_mem hfirst)] at hloop
      rw [hstart, hloop] at hr
      subst hr
      refine ⟨slotHolds_set hxid hltSlot huniq hrestStacked hfull, rfl, List.length_set, fun j td hj hother => ?_⟩
      by_cases hij : i = j
      · subst hij
        rw [List.getElem?_set_self hltSlot, Option.some_inj] at hj
        subst hj
        cases rest with
        | nil => exact .inr rfl
        | cons next rest => exact absurd (slotXid_of_cons hrestStacked hfull) hother
      · rw [List.getElem?_set_ne hij] at hj
        exact .inl hj

end page

/-! ## What a batch holds -/

section batch

variable {space : UndoContent α} {xid base endUrp size start next : Nat} {l vec res : List (RollbackRecord α)}

/-- The place of the latest record of a list, if there is one -/
abbrev latest (l : List (RollbackRecord α)) : Nat := stackTop l invalidUndoRecPtr

/-- The loop reads the records of a transaction up to some place of their order, all of them up to the last one if
nothing is discarded and the size allows it. -/
lemma fetchLoop_transaction {fuel fetchXid total : Nat} (hchain : Chain RollbackRecord.prevurp start l base)
    (hne : l ≠ []) (hspace : ∀ urec ∈ l, space urec.urp = .record urec ∨ space urec.urp = .discarded)
    (hzero : ∀ urec ∈ l, urec.urp ≠ 0) (hsorted : l.Pairwise fun a b => b.urp < a.urp)
    (hend : ∀ urec ∈ l, endUrp ≤ urec.urp)
    (hlast : ∀ urec, l.getLast? = some urec → urec.urp = endUrp ∨ base = invalidUndoRecPtr)
    (hfetch : fetchLoop space endUrp size false fuel start fetchXid total vec = some (res, next)) :
    ∃ batch rest, l = batch ++ rest ∧ res = vec ++ batch ∧
      (next = latest rest ∧ batch ≠ [] ∨ next = 0 ∧ ∃ urec ∈ l, space urec.urp = .discarded) := by
  induction fuel generalizing start l fetchXid total vec with
  | zero => cases hfetch
  | succ fuel ih =>
    obtain ⟨urec, l, rfl⟩ := List.exists_cons_of_ne_nil hne
    obtain ⟨rfl, hchain⟩ := hchain
    rw [fetchLoop] at hfetch
    rcases hspace urec List.mem_cons_self with hrec | hgone
    · rw [hrec] at hfetch
      simp only [Bool.false_eq_true, false_and, if_false] at hfetch
      obtain ⟨hless, hsorted⟩ := List.pairwise_cons.mp hsorted
      cases l with
      | nil =>
        have hnext : (if urec.urp = endUrp then invalidUndoRecPtr else urec.prevurp) = invalidUndoRecPtr := by
          split
          · rfl
          · exact Eq.trans hchain ((hlast urec rfl).resolve_left ‹_›)
        rw [hnext, if_pos (.inl rfl), Option.some_inj, Prod.mk.injEq] at hfetch
        exact ⟨[urec], [], rfl, hfetch.1.symm, .inl ⟨hfetch.2.symm, List.cons_ne_nil _ _⟩⟩
      | cons second l =>
        have hnot : urec.urp ≠ endUrp :=
          ((hend second (List.mem_cons_of_mem _ List.mem_cons_self)).trans_lt (hless second List.mem_cons_self)).ne'
        have hprev : urec.prevurp ≠ 0 := by
          rw [hchain.1]
          exact hzero second (List.mem_cons_of_mem _ List.mem_cons_self)
        rw [if_neg hnot, if_neg (not_or.mpr ⟨hprev, hnot⟩)] at hfetch
        split at hfetch
        case isTrue =>
          rw [Option.some_inj, Prod.mk.injEq] at hfetch
          exact ⟨[urec], second :: l, rfl, hfetch.1.symm, .inl ⟨hfetch.2.symm.trans hchain.1, List.cons_ne_nil _ _⟩⟩
        case isFalse =>
          obtain ⟨batch, rest, hl, hres, hnext⟩ := ih hchain (List.cons_ne_nil _ _)
            (fun r hr => hspace r (List.mem_cons_of_mem _ hr)) (fun r hr => hzero r (List.mem_cons_of_mem _ hr)) hsorted
            (fun r hr => hend r (List.mem_cons_of_mem _ hr)) (fun r hr => hlast r (by rwa [List.getLast?_cons_cons]))
            hfetch
          refine ⟨urec :: batch, rest, by rw [hl]; rfl, by rw [hres, List.append_assoc]; rfl, ?_⟩
          exact hnext.imp (fun h => ⟨h.1, List.cons_ne_nil _ _⟩)
            fun ⟨hz, r, hr, hdisc⟩ => ⟨hz, r, List.mem_cons_of_mem _ hr, hdisc⟩
    · rw [hgone, Option.some_inj, Prod.mk.injEq] at hfetch
      exact ⟨[], urec :: l, rfl, by rw [List.append_nil]; exact hfetch.1.symm,
        .inr ⟨hfetch.2.symm, urec, List.mem_cons_self, hgone⟩⟩

/-- In one page, the loop reads records of the transaction that started the batch only: some of the chain, and all of
it if there is no place to go on from. -/
lemma fetchLoop_page {fuel fetchXid total : Nat} (hxid : xid ≠ UHeap.invalidTransactionId)
    (hchain : Chain RollbackRecord.blkprev start l base) (hforeign : Foreign space xid base)
    (hown : ∀ urec ∈ l, urec.xid = xid ∧ urec.urp ≠ 0 ∧ space urec.urp = .record urec) (hstart : start ≠ 0)
    (hfirst : fetchXid = xid ∨ fetchXid = UHeap.invalidTransactionId ∧ l ≠ [])
    (hfetch : fetchLoop space invalidUndoRecPtr size true fuel start fetchXid total vec = some (res, next)) :
    ∃ batch rest, l = batch ++ rest ∧ res = vec ++ batch ∧ (l ≠ [] → batch ≠ []) ∧
      (Chain RollbackRecord.blkprev next rest base ∨ next = 0 ∧ rest = []) := by
  induction fuel generalizing start l fetchXid total vec with
  | zero => cases hfetch
  | succ fuel ih =>
    rw [fetchLoop] at hfetch
    cases l with
    | nil =>
      obtain rfl : start = base := hchain
      obtain rfl : fetchXid = xid := hfirst.resolve_right fun h => h.2 rfl
      refine ⟨[], [], rfl, ?_⟩
      rcases hforeign with hzero | hgone | ⟨urec, hrec, hother⟩
      · exact absurd hzero hstart
      · rw [hgone, Option.some_inj, Prod.mk.injEq] at hfetch
        exact ⟨by rw [List.append_nil]; exact hfetch.1.symm, fun h => absurd rfl h, .inr ⟨hfetch.2.symm, rfl⟩⟩
      · rw [hrec] at hfetch
        dsimp only at hfetch
        rw [if_pos ⟨rfl, hxid, hother.symm⟩, Option.some_inj, Prod.mk.injEq] at hfetch
        exact ⟨by rw [List.append_nil]; exact hfetch.1.symm, fun h => absurd rfl h, .inr ⟨hfetch.2.symm, rfl⟩⟩
    | cons urec l =>
      obtain ⟨rfl, hchain⟩ := hchain
      obtain ⟨howner, hne, hrec⟩ := hown urec List.mem_cons_self
      rw [hrec] at hfetch
      dsimp only at hfetch
      have hsame : ¬(true = true ∧ fetchXid ≠ UHeap.invalidTransactionId ∧ fetchXid ≠ urec.xid) := by
        rintro ⟨-, hset, hdiff⟩
        rcases hfirst with rfl | ⟨hzero, -⟩
        · exact hdiff howner.symm
        · exact hset hzero
      rw [if_neg hsame] at hfetch
      simp only [if_true] at hfetch
      by_cases hprev : urec.blkprev = 0
      · have hnil : l = [] := by
          cases l with
          | nil => rfl
          | cons second l =>
            exact absurd (hchain.1.symm.trans hprev) (hown second (List.mem_cons_of_mem _ List.mem_cons_self)).2.1
        rw [if_pos (.inl hprev), Option.some_inj, Prod.mk.injEq] at hfetch
        exact ⟨[urec], l, rfl, hfetch.1.symm, fun _ => List.cons_ne_nil _ _, .inr ⟨hfetch.2.symm, hnil⟩⟩
      · rw [if_neg (not_or.mpr ⟨hprev, hne⟩)] at hfetch
        split at hfetch
        case isTrue =>
          rw [Option.some_inj, Prod.mk.injEq] at hfetch
          exact ⟨[urec], l, rfl, hfetch.1.symm, fun _ => List.cons_ne_nil _ _, .inl (hfetch.2 ▸ hchain)⟩
        case isFalse =>
          obtain ⟨batch, rest, hl, hres, -, hnext⟩ := ih hchain (fun r hr => hown r (List.mem_cons_of_mem _ hr)) hprev
            (.inl howner) hfetch
          exact ⟨urec :: batch, rest, by rw [hl]; rfl, by rw [hres, List.append_assoc]; rfl,
            fun _ => List.cons_ne_nil _ _, hnext⟩

/-- The group of a page is what the batch holds of it. -/
lemma pageGroups_eq {batch g : List (RollbackRecord α)} (hg : g ∈ pageGroups batch) {urec : RollbackRecord α}
    (hmem : urec ∈ g) : g = batch.filter fun r => decide (r.block = urec.block) := by
  rw [runsByKey_eq_filter (sortByKey_pairwise batch) hg hmem, sortByKey_filter]

lemma ne_nil_of_mem_pageGroups {batch g : List (RollbackRecord α)} (hg : g ∈ pageGroups batch) : g ≠ [] :=
  List.ne_nil_of_mem_splitBy hg

lemma exists_mem_pageGroups {batch : List (RollbackRecord α)} {urec : RollbackRecord α} (h : urec ∈ batch) :
    ∃ g ∈ pageGroups batch, urec ∈ g :=
  exists_mem_runsByKey ((sortByKey_perm batch).mem_iff.mpr h)

end batch

end GaussKernel.Undo
