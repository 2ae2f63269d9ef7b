import GaussKernel.Undo.Rollback

/-!
# Rollback of one transaction

The runs of `ExecuteUndoActions` and `ExecuteUndoActionsPage` (`knl_undoaction.cpp`) for one transaction: rollback to a
savepoint and of the whole transaction, by the session, by undo workers and by the readers of single pages, all at the
same time. A fetch is one step, and what `UHeapUndoActions` does under the lock of the page is one step.

The transaction has all its records in one zone: a switch of the zone, with a second transaction slot, is left out.
Relations may be dropped and blocks truncated meanwhile. `UHeapUndoActions` passes over a page when the one before it,
of the same relation, did not exist; the runs are right as long as the page that is passed over does not exist either
(`rollback_skips_page` is one where it does). `clean` is what the rows of a page would be without the transaction.
-/

namespace GaussKernel.Undo

open UHeap (TD)
open Function (update update_self update_of_ne)

variable {α : Type*}

/-- The transaction, its zone, the relation and partition of each page and the size of a batch -/
structure RollbackEnv where
  xid : Nat
  zone : Nat
  relOf : RelBlock → Nat × Nat
  undoApplySize : Nat
  xid_ne : xid ≠ UHeap.invalidTransactionId

/-- Where one caller stands: in `ExecuteUndoActions`, with the records of the parent when a subtransaction is rolled
back, or in `ExecuteUndoActionsPage`. -/
inductive Driver (α : Type*) where
  | idle
  | all (parent : Option (List (RollbackRecord α))) (toUrecptr urecPtr : Nat) (containsFullChain : Bool)
      (groups : List (List (RollbackRecord α))) (pre : PreviousCall)
  | page (block : RelBlock) (urp : Nat) (urecvec : Option (List (RollbackRecord α))) (pre : PreviousCall)

/-- `txn` are the records from `latest_urp_xact` on, `ended` and `start` the ones from the end to the start of the
transaction slot. -/
structure RollbackState (α : Type*) where
  space : UndoContent α
  pages : RelBlock → RollbackPage α
  clean : RelBlock → α
  gone : RelBlock → Bool
  txn : List (RollbackRecord α)
  ended : List (RollbackRecord α)
  start : Nat
  aborted : Bool
  finished : Bool
  panicked : Bool
  drivers : Nat → Driver α

namespace RollbackState

variable (s : RollbackState α)

/-- The page is neither dropped with its relation nor truncated. -/
def Present (block : RelBlock) : Prop := s.gone block = false

/-- No caller is about to pass over a page that is there. -/
def NoneSkipped : Prop :=
  ∀ d parent toUrecptr urecPtr full group groups pre last,
    s.drivers d = .all parent toUrecptr urecPtr full (group :: groups) pre → group.getLast? = some last →
    pre.Skips last.reloid last.partitionoid → s.gone last.block = true

def setDriver (d : Nat) (driver : Driver α) : RollbackState α :=
  { s with drivers := update s.drivers d driver }

end RollbackState

/-- No return of a call before -/
def firstCall : PreviousCall := ⟨.ok, 0, 0⟩

/-- What other transactions do to the undo space, the slots and the rows of the pages -/
structure Others (e : RollbackEnv) (s : RollbackState α) (space : UndoContent α) (slots : RelBlock → List TD)
    (change : RelBlock → α → α) : Prop where
  undo : ∀ p, space p = s.space p ∨ s.space p = .unused ∧ (∃ urec, space p = .record urec ∧ urec.xid ≠ e.xid) ∨
    space p = .discarded ∧ ∃ urec, s.space p = .record urec ∧ (urec.xid = e.xid → s.finished = true)
  own : ∀ (block : RelBlock) (i : Nat) (td : TD), td.xactid = e.xid →
    ((slots block)[i]? = some td ↔ (s.pages block).slots[i]? = some td)
  foreign : ∀ (block : RelBlock) (i : Nat) (td : TD), (slots block)[i]? = some td → td.xactid ≠ e.xid →
    (s.pages block).slots[i]? = some td ∨ Foreign space e.xid td.undoRecordPtr
  apart : ∀ urec ∈ s.txn, ∀ rows, change urec.block (urec.act rows) = urec.act (change urec.block rows)

inductive RollbackStep (e : RollbackEnv) (s : RollbackState α) : RollbackState α → Prop where
  /-- The transaction changes a page. -/
  | write (urec : RollbackRecord α) (rows : α) (i : Nat) (td : TD) (hidle : ∀ d, s.drivers d = .idle)
      (hactive : s.aborted = false) (hpresent : s.Present urec.block) (hxid : urec.xid = e.xid)
      (hzone : undoPtrGetZoneId urec.urp = e.zone) (hvalid : urec.urp ≠ invalidUndoRecPtr)
      (hnew : ∀ p, undoPtrGetZoneId p = e.zone → s.space p ≠ .unused → p < urec.urp)
      (hunused : s.space urec.urp = .unused)
      (hrel : (urec.reloid, urec.partitionoid) = e.relOf urec.block) (hprev : urec.prevurp = latest s.txn)
      (hslot : (s.pages urec.block).slots[i]? = some td) (hblkprev : urec.blkprev = td.undoRecordPtr)
      (hfree : td.xactid = e.xid ∨ ∀ td' ∈ (s.pages urec.block).slots, td'.xactid ≠ e.xid)
      (hact : urec.act rows = (s.pages urec.block).rows) :
      RollbackStep e s
        { s with
          space := update s.space urec.urp (.record urec)
          pages := update s.pages urec.block
            ⟨(s.pages urec.block).slots.set i ⟨e.xid, urec.urp⟩, rows⟩
          txn := urec :: s.txn
          ended := urec :: s.txn
          start := if s.start = invalidUndoRecPtr then urec.urp else s.start }
  /-- A subtransaction starts to roll back. -/
  | subStart (d : Nat) (sub parent : List (RollbackRecord α)) (last : RollbackRecord α)
      (hidle : ∀ d, s.drivers d = .idle) (hactive : s.aborted = false) (htxn : s.txn = sub ++ parent)
      (hlast : sub.getLast? = some last) :
      RollbackStep e s (s.setDriver d (.all (some parent) last.urp (latest s.txn) false [] firstCall))
  | abort (hidle : ∀ d, s.drivers d = .idle) : RollbackStep e s { s with aborted := true }
  /-- The session starts to roll back, or a worker from the transaction slot. -/
  | topStart (d : Nat) (l : List (RollbackRecord α)) (toUrecptr : Nat) (urec : RollbackRecord α)
      (hidle : s.drivers d = .idle) (haborted : s.aborted = true)
      (hfrom : l = s.txn ∧ (∃ last, l.getLast? = some last ∧ toUrecptr = last.urp) ∨
        l = s.ended ∧ l ≠ [] ∧ toUrecptr = s.start)
      (hrecord : s.space toUrecptr = .record urec) :
      RollbackStep e s (s.setDriver d (.all none toUrecptr (latest l) false [] firstCall))
  | allFetch (d fuel next : Nat) (urecvec : List (RollbackRecord α)) {parent : Option (List (RollbackRecord α))}
      {toUrecptr urecPtr : Nat} {full : Bool} {pre : PreviousCall}
      (hdriver : s.drivers d = .all parent toUrecptr urecPtr full [] pre) (hvalid : urecPtr ≠ invalidUndoRecPtr)
      (hfetch : fetchUndoRecordRange s.space fuel urecPtr toUrecptr e.undoApplySize false = some (urecvec, next))
      (hsome : urecvec ≠ []) :
      RollbackStep e s (s.setDriver d
        (.all parent toUrecptr next (parent.isNone && decide (next = invalidUndoRecPtr)) (pageGroups urecvec) pre))
  | allApply (d : Nat) {parent : Option (List (RollbackRecord α))} {toUrecptr urecPtr : Nat} {full : Bool}
      {group : List (RollbackRecord α)} {groups : List (List (RollbackRecord α))} {last : RollbackRecord α}
      {pre pre' : PreviousCall} {pages : RelBlock → RollbackPage α}
      (hdriver : s.drivers d = .all parent toUrecptr urecPtr full (group :: groups) pre)
      (hlast : group.getLast? = some last)
      (happly : (pre', pages) = uHeapUndoActions s.gone s.space s.pages group e.xid last.reloid last.partitionoid
        last.block full pre) :
      RollbackStep e s ({ s with pages := pages }.setDriver d (.all parent toUrecptr urecPtr full groups pre'))
  | allEnd (d fuel next : Nat) {parent : Option (List (RollbackRecord α))} {toUrecptr urecPtr : Nat} {full : Bool}
      {pre : PreviousCall} (hdriver : s.drivers d = .all parent toUrecptr urecPtr full [] pre)
      (hdone : urecPtr = invalidUndoRecPtr ∨
        fetchUndoRecordRange s.space fuel urecPtr toUrecptr e.undoApplySize false = some ([], next)) :
      RollbackStep e s
        ({ s with txn := parent.getD s.txn, finished := s.finished || parent.isNone }.setDriver d .idle)
  | pageStart (d : Nat) (block : RelBlock) (i urp : Nat) (hidle : s.drivers d = .idle) (haborted : s.aborted = true)
      (hpresent : s.Present block) (hslot : uHeapPageGetTDSlotId (s.pages block).slots e.xid = some (i, urp)) :
      RollbackStep e s (s.setDriver d (.page block urp none firstCall))
  | pageFetch (d fuel next : Nat) (urecvec : List (RollbackRecord α)) {block : RelBlock} {urp : Nat}
      {pre : PreviousCall} (hdriver : s.drivers d = .page block urp none pre) (hvalid : urp ≠ invalidUndoRecPtr)
      (hfetch : fetchUndoRecordRange s.space fuel urp invalidUndoRecPtr e.undoApplySize true = some (urecvec, next))
      (hsome : urecvec ≠ []) :
      RollbackStep e s (s.setDriver d (.page block next (some urecvec) pre))
  | pageApply (d : Nat) {block : RelBlock} {urp : Nat} {urecvec : List (RollbackRecord α)} {pre pre' : PreviousCall}
      {pages : RelBlock → RollbackPage α} (hdriver : s.drivers d = .page block urp (some urecvec) pre)
      (happly : (pre', pages) = uHeapUndoActions s.gone s.space s.pages urecvec e.xid (e.relOf block).1
        (e.relOf block).2 block (decide (urp = invalidUndoRecPtr)) pre) :
      RollbackStep e s ({ s with pages := pages }.setDriver d (.page block urp none pre'))
  /-- The caller panics if the page still has a slot of the transaction. -/
  | pageEnd (d fuel next : Nat) {block : RelBlock} {urp : Nat} {pre : PreviousCall}
      (hdriver : s.drivers d = .page block urp none pre)
      (hdone : urp = invalidUndoRecPtr ∨
        fetchUndoRecordRange s.space fuel urp invalidUndoRecPtr e.undoApplySize true = some ([], next)) :
      RollbackStep e s
        ({ s with panicked := s.panicked || (uHeapPageGetTDSlotId (s.pages block).slots e.xid).isSome }.setDriver d
          .idle)
  | others {space : UndoContent α} {slots : RelBlock → List TD} {change : RelBlock → α → α}
      (h : Others e s space slots change) :
      RollbackStep e s
        { s with
          space := space
          pages := fun block => ⟨slots block, change block (s.pages block).rows⟩
          clean := fun block => change block (s.clean block) }
  /-- Relations are dropped or truncated. Who rolls back a page keeps its relation open. -/
  | drop {gone : RelBlock → Bool} (hmore : ∀ block, s.gone block = true → gone block = true)
      (hopen : ∀ d block urp urecvec pre, s.drivers d = .page block urp urecvec pre → gone block = false) :
      RollbackStep e s { s with gone := gone }

/-- A step that starts with no caller about to pass over a page that is there -/
def SafeStep (e : RollbackEnv) (s s' : RollbackState α) : Prop := s.NoneSkipped ∧ RollbackStep e s s'

/-- Before the transaction writes -/
structure RollbackState.Initial (e : RollbackEnv) (s : RollbackState α) : Prop where
  slots : ∀ (block : RelBlock) (i : Nat) (td : TD), (s.pages block).slots[i]? = some td →
    td.xactid ≠ e.xid ∧ Foreign s.space e.xid td.undoRecordPtr
  rows : ∀ block, (s.pages block).rows = s.clean block
  txn : s.txn = []
  ended : s.ended = []
  start : s.start = invalidUndoRecPtr
  aborted : s.aborted = false
  finished : s.finished = false
  panicked : s.panicked = false
  idle : ∀ d, s.drivers d = .idle

/-! ## What holds in every state -/

variable {e : RollbackEnv} {s s' : RollbackState α} {stack stack' : RelBlock → List (RollbackRecord α)}
  {base : RelBlock → Nat}

structure TxnOk (e : RollbackEnv) (space : UndoContent α) (finished : Bool) (start : Nat)
    (txn ended : List (RollbackRecord α)) : Prop where
  suffix : txn <:+ ended
  sorted : ended.Pairwise fun a b => b.urp < a.urp
  own : ∀ urec ∈ ended, urec.xid = e.xid ∧ undoPtrGetZoneId urec.urp = e.zone ∧ urec.urp ≠ invalidUndoRecPtr
  rel : ∀ urec ∈ ended, (urec.reloid, urec.partitionoid) = e.relOf urec.block
  older : ∀ urec ∈ ended, undoPtrGetZoneId urec.blkprev = e.zone → urec.blkprev < urec.urp
  chain : Chain RollbackRecord.prevurp (latest ended) ended invalidUndoRecPtr
  stored : ∀ urec ∈ ended, space urec.urp = .record urec ∨ finished = true ∧ space urec.urp = .discarded
  low : ∀ urec ∈ ended, start ≤ urec.urp
  unstarted : start = invalidUndoRecPtr ↔ ended = []

/-- `stack` is what the page has left of the transaction, `base` what its slot had before. -/
structure PageOk (e : RollbackEnv) (space : UndoContent α) (txn : List (RollbackRecord α)) (block : RelBlock)
    (page : RollbackPage α) (clean : α) (stack : List (RollbackRecord α)) (base : Nat) : Prop where
  stacked : Stacked space e.xid e.zone stack base
  sub : stack.Sublist txn
  here : ∀ urec ∈ stack, urec.block = block
  slot : SlotHolds page.slots e.xid stack
  foreign : ∀ (i : Nat) (td : TD), page.slots[i]? = some td → td.xactid ≠ e.xid → Foreign space e.xid td.undoRecordPtr
  rows : undoAll stack page.rows = clean

/-- `ExecuteUndoActions` is done with `past`, is at the pages of `now`, and has `future` before it. -/
structure AllOk (e : RollbackEnv) (s : RollbackState α) (stack : RelBlock → List (RollbackRecord α)) (d : Nat)
    (parent : Option (List (RollbackRecord α))) (toUrecptr urecPtr : Nat) (full : Bool)
    (groups : List (List (RollbackRecord α))) (pre : PreviousCall) (past now future kept : List (RollbackRecord α)) :
    Prop where
  whole : past ++ (now ++ (future ++ kept)) = s.txn ∨ s.aborted = true ∧ past ++ (now ++ (future ++ kept)) = s.ended
  top : parent = none → s.aborted = true ∧ kept = []
  sub : ∀ p, parent = some p → s.aborted = false ∧ p = kept ∧ ∀ d' ≠ d, s.drivers d' = .idle
  next : urecPtr = latest future ∨ s.finished = true ∧ urecPtr = invalidUndoRecPtr
  low : ∀ urec ∈ future, toUrecptr ≤ urec.urp
  last : ∀ urec, future.getLast? = some urec → urec.urp = toUrecptr ∨ kept = []
  fullChain : full = true → s.finished = true ∨ future ++ kept = []
  cut : ∀ g ∈ groups, g ≠ [] ∧ ∃ block, g = now.filter fun urec => decide (urec.block = block)
  seen : ∀ block, s.Present block → ∀ urec ∈ stack block, urec ∉ past ∧ (urec ∈ now → ∃ g ∈ groups, urec ∈ g)

/-- `ExecuteUndoActionsPage` has all that the page has left before it. -/
structure PageRunOk (e : RollbackEnv) (s : RollbackState α) (stack : RelBlock → List (RollbackRecord α))
    (base : RelBlock → Nat) (block : RelBlock) (urp : Nat) (urecvec : Option (List (RollbackRecord α)))
    (pre : PreviousCall) : Prop where
  aborted : s.aborted = true
  present : s.Present block
  pre : pre.retCode ≠ .okNoexist
  sized : ∀ vec, urecvec = some vec → vec ≠ []
  left : stack block = [] ∨ ∃ popped rest, urecvec.getD [] ++ rest = popped ++ stack block ∧
    (urecvec.getD [] ++ rest).Sublist s.txn ∧
      (Chain RollbackRecord.blkprev urp rest (base block) ∨ urp = invalidUndoRecPtr ∧ rest = [])

def DriverOk (e : RollbackEnv) (s : RollbackState α) (stack : RelBlock → List (RollbackRecord α))
    (base : RelBlock → Nat) (d : Nat) : Driver α → Prop
  | .idle => True
  | .all parent toUrecptr urecPtr full groups pre =>
    ∃ past now future kept, AllOk e s stack d parent toUrecptr urecPtr full groups pre past now future kept
  | .page block urp urecvec pre => PageRunOk e s stack base block urp urecvec pre

structure RollbackInv (e : RollbackEnv) (s : RollbackState α) (stack : RelBlock → List (RollbackRecord α))
    (base : RelBlock → Nat) : Prop where
  txn : TxnOk e s.space s.finished s.start s.txn s.ended
  page : ∀ block, s.Present block →
    PageOk e s.space s.txn block (s.pages block) (s.clean block) (stack block) (base block)
  aborted : s.finished = true → s.aborted = true
  finished : s.finished = true → ∀ block, s.Present block → stack block = []
  driver : ∀ d, DriverOk e s stack base d (s.drivers d)
  panicked : s.panicked = false

namespace RollbackInv

/-- Records that are left can be read. -/
lemma unfinished (h : RollbackInv e s stack base) {block : RelBlock} (hpresent : s.Present block)
    (hleft : stack block ≠ []) : s.finished = false := by
  cases hfin : s.finished with
  | false => rfl
  | true => exact absurd (h.finished hfin block hpresent) hleft

lemma readable (h : RollbackInv e s stack base) (hfin : s.finished = false) {urec : RollbackRecord α}
    (hmem : urec ∈ s.ended) : s.space urec.urp = .record urec :=
  (h.txn.stored urec hmem).resolve_right fun hgone => Bool.noConfusion (hfin.symm.trans hgone.1)

/-- Some records of the transaction make a batch. -/
lemma pageBatch (h : RollbackInv e s stack base) (hfin : s.finished = false) {vec : List (RollbackRecord α)}
    (hsub : vec.Sublist s.ended) : PageBatch s.space e.xid e.zone vec where
  own urec hmem :=
    have hown := h.txn.own urec (hsub.subset hmem)
    ⟨hown.1, hown.2.1, hown.2.2, h.readable hfin (hsub.subset hmem)⟩
  older urec hmem := h.txn.older urec (hsub.subset hmem)
  sorted := h.txn.sorted.sublist hsub

end RollbackInv

lemma RollbackState.Present.of_more {block : RelBlock} (h : s'.Present block)
    (hgone : ∀ block, s.gone block = true → s'.gone block = true) : s.Present block := by
  cases hold : s.gone block with
  | false => exact hold
  | true => exact absurd (hgone block hold) (Bool.eq_false_iff.mp h)

/-- What a caller relies on stays while pages lose records. -/
lemma DriverOk.mono {d : Nat} {driver : Driver α} (h : DriverOk e s stack base d driver) (htxn : s'.txn = s.txn)
    (hended : s'.ended = s.ended) (haborted : s'.aborted = s.aborted)
    (hfin : s.finished = true → s'.finished = true)
    (hgone : ∀ block, s.gone block = true → s'.gone block = true)
    (hopen : ∀ block urp urecvec pre, driver = .page block urp urecvec pre → s'.Present block)
    (hidle : s.aborted = false → ∀ d' ≠ d, s.drivers d' = .idle → s'.drivers d' = .idle)
    (hstack : ∀ block, s'.Present block → stack' block <:+ stack block) : DriverOk e s' stack' base d driver := by
  cases driver with
  | idle => trivial
  | all parent toUrecptr urecPtr full groups pre =>
    obtain ⟨past, now, future, kept, h⟩ := h
    refine ⟨past, now, future, kept, ?_⟩
    constructor
    case whole => rw [htxn, hended, haborted]; exact h.whole
    case top => rw [haborted]; exact h.top
    case sub =>
      intro p hp
      obtain ⟨hactive, hkept, hothers⟩ := h.sub p hp
      exact ⟨haborted.trans hactive, hkept, fun d' hd' => hidle hactive d' hd' (hothers d' hd')⟩
    case next => exact h.next.imp_right fun hz => ⟨hfin hz.1, hz.2⟩
    case low => exact h.low
    case last => exact h.last
    case fullChain => exact fun hfull => (h.fullChain hfull).imp_left hfin
    case cut => exact h.cut
    case seen =>
      intro block hpresent urec hmem
      exact h.seen block (hpresent.of_more hgone) urec ((hstack block hpresent).subset hmem)
  | page block urp urecvec pre =>
    have hpresent := hopen block urp urecvec pre rfl
    refine ⟨haborted.trans h.aborted, hpresent, h.pre, h.sized, ?_⟩
    obtain ⟨lost, hlost⟩ := hstack block hpresent
    rcases h.left with hnil | ⟨popped, rest, hall, hsub, hchain⟩
    · rw [hnil, List.append_eq_nil_iff] at hlost
      exact .inl hlost.2
    · refine .inr ⟨popped ++ lost, rest, ?_, htxn ▸ hsub, hchain⟩
      rw [hall, List.append_assoc, hlost]

namespace RollbackInv

section

variable (h : RollbackInv e s stack base)
include h

lemma setDriver {d : Nat} {driver : Driver α}
    (hbusy : s.aborted = true ∨ s.drivers d ≠ .idle ∨ ∀ d, s.drivers d = .idle)
    (hdriver : DriverOk e (s.setDriver d driver) stack base d driver) :
    RollbackInv e (s.setDriver d driver) stack base where
  txn := h.txn
  page := h.page
  aborted := h.aborted
  finished := h.finished
  panicked := h.panicked
  driver d' := by
    by_cases hd : d' = d
    · subst hd
      rw [show (s.setDriver d' driver).drivers d' = driver from update_self _ _ _]
      exact hdriver
    · rw [show (s.setDriver d driver).drivers d' = s.drivers d' from update_of_ne hd _ _]
      have hold := h.driver d'
      by_cases hbusy' : s.drivers d' = .idle
      · rw [hbusy']
        trivial
      refine hold.mono rfl rfl rfl id (fun _ => id) (fun block urp urecvec pre hpage => ?_)
        (fun hactive d'' hd'' hidle => ?_) fun _ _ => List.suffix_refl _
      · rw [hpage] at hold
        exact hold.present
      · by_cases hsame : d'' = d
        · subst hsame
          rcases hbusy with haborted | hbusy | hall
          · exact Bool.noConfusion (hactive.symm.trans haborted)
          · exact absurd hidle hbusy
          · exact absurd (hall d') hbusy'
        · exact (update_of_ne hsame _ _).trans hidle

/-- One page loses records. -/
lemma shrink {block : RelBlock} {rest : List (RollbackRecord α)} {pages : RelBlock → RollbackPage α}
    (hsuffix : s.Present block → rest <:+ stack block)
    (hothers : ∀ other, s.Present other → other ≠ block → pages other = s.pages other)
    (hpage : s.Present block → PageOk e s.space s.txn block (pages block) (s.clean block) rest (base block)) :
    RollbackInv e { s with pages := pages } (update stack block rest) base where
  txn := h.txn
  page other hpresent := by
    by_cases hother : other = block
    · subst hother
      rw [update_self]
      exact hpage hpresent
    · dsimp only
      rw [update_of_ne hother, hothers other hpresent hother]
      exact h.page other hpresent
  aborted := h.aborted
  finished hfin other hpresent := by
    have hnil := h.finished hfin other hpresent
    by_cases hother : other = block
    · subst hother
      rw [update_self]
      exact List.suffix_nil.mp (hnil ▸ hsuffix hpresent)
    · rw [update_of_ne hother, hnil]
  panicked := h.panicked
  driver d := by
    have hold := h.driver d
    refine hold.mono rfl rfl rfl id (fun _ => id) (fun other urp urecvec pre hdriver => ?_) (fun _ _ _ => id)
      fun other hpresent => ?_
    · rw [show s.drivers d = _ from hdriver] at hold
      exact hold.present
    · by_cases hother : other = block
      · subst hother
        rw [update_self]
        exact hsuffix hpresent
      · rw [update_of_ne hother]

/-- `UHeapUndoActions` on a page that is there -/
lemma undoPage {block : RelBlock} (hpresent : s.Present block) {popped rest vec : List (RollbackRecord α)}
    (hsplit : stack block = popped ++ rest) {full : Bool}
    (hbatch : stack block ≠ [] → popped.Sublist vec ∧ vec.Sublist s.ended ∧ (∀ urec ∈ rest, urec ∉ vec) ∧
      (full = true → rest = []))
    {first last : RollbackRecord α} (hfirst : first ∈ vec) (hlast : vec.getLast? = some last)
    {r : RollbackReturn × RollbackPage α} (hr : r = Undo.undoPage s.space (s.pages block) vec first last e.xid full) :
    r.1 ≠ .okNoexist ∧ PageOk e s.space s.txn block r.2 (s.clean block) rest (base block) := by
  have hp := h.page block hpresent
  have hret : r.1 ≠ .okNoexist := by
    rw [hr, Undo.undoPage]
    split
    · exact RollbackReturn.noConfusion
    · dsimp only
      split <;> exact RollbackReturn.noConfusion
  refine ⟨hret, ?_⟩
  by_cases hnil : stack block = []
  · obtain ⟨rfl, rfl⟩ := List.append_eq_nil_iff.mp (hsplit.symm.trans hnil)
    have hslot := hp.slot
    rw [hnil] at hslot
    rw [Undo.undoPage, tdSlotId_of_nil hslot] at hr
    rw [hnil] at hp
    subst hr
    exact hp
  · have hfin := h.unfinished hpresent hnil
    obtain ⟨hsub, hvec, hrest, hfull⟩ := hbatch hnil
    obtain ⟨hslot, hrows, -, hforeign⟩ := undoPage_spec e.xid_ne (hsplit ▸ hp.stacked) (hsplit ▸ hp.slot)
      (h.pageBatch hfin hvec) hsub hrest hfirst hlast hfull hr
    constructor
    case stacked => exact (Stacked.drop (hsplit ▸ hp.stacked)).1
    case sub => exact (List.sublist_append_right popped rest).trans (hsplit ▸ hp.sub)
    case here => exact fun urec hmem => hp.here urec (hsplit ▸ List.mem_append_right popped hmem)
    case slot => exact hslot
    case foreign =>
      intro i td htd hother
      rcases hforeign i td htd hother with hold | hbase
      · exact hp.foreign i td hold hother
      · exact hbase ▸ hp.stacked.foreign
    case rows =>
      have hold := hp.rows
      rw [hsplit, undoAll, List.foldl_append] at hold
      rw [hrows]
      exact hold

lemma apply {block : RelBlock} {popped rest vec : List (RollbackRecord α)} {full : Bool} {pre pre' : PreviousCall}
    {pages : RelBlock → RollbackPage α} (hne : vec ≠ [])
    (hpre : pre.Skips (e.relOf block).1 (e.relOf block).2 → s.gone block = true)
    (hsplit : s.Present block → stack block = popped ++ rest)
    (hbatch : s.Present block → stack block ≠ [] → popped.Sublist vec ∧ vec.Sublist s.ended ∧
      (∀ urec ∈ rest, urec ∉ vec) ∧ (full = true → rest = []))
    (happly : (pre', pages) = uHeapUndoActions s.gone s.space s.pages vec e.xid (e.relOf block).1 (e.relOf block).2
      block full pre) :
    RollbackInv e { s with pages := pages } (update stack block rest) base ∧
      (s.Present block → pre.retCode ≠ .okNoexist → pre'.retCode ≠ .okNoexist) := by
  have hrest : s.Present block → rest <:+ stack block := fun hpresent =>
    hsplit hpresent ▸ List.suffix_append popped rest
  have hgone : s.gone block = true →
      RollbackInv e { s with pages := s.pages } (update stack block rest) base := by
    intro hgone
    have hno : ¬s.Present block := fun hp => Bool.noConfusion (hgone.symm.trans hp)
    exact h.shrink (fun hp => absurd hp hno) (fun _ _ _ => rfl) fun hp => absurd hp hno
  rw [uHeapUndoActions] at happly
  by_cases hskip : pre.Skips (e.relOf block).1 (e.relOf block).2
  · rw [if_pos hskip] at happly
    obtain ⟨rfl, rfl⟩ := Prod.mk.inj happly
    exact ⟨hgone (hpre hskip), fun _ => id⟩
  · rw [if_neg hskip] at happly
    cases hpresent : s.gone block with
    | true =>
      rw [hpresent, if_pos rfl] at happly
      obtain ⟨rfl, rfl⟩ := Prod.mk.inj happly
      exact ⟨hgone hpresent, fun hp => Bool.noConfusion (hpresent.symm.trans hp)⟩
    | false =>
      rw [hpresent, if_neg Bool.false_ne_true] at happly
      obtain ⟨first, tail, rfl⟩ := List.exists_cons_of_ne_nil hne
      have hlast := List.getLast?_eq_some_getLast (List.cons_ne_nil first tail)
      rw [List.head?_cons, hlast] at happly
      obtain ⟨rfl, rfl⟩ := Prod.mk.inj happly
      obtain ⟨hret, hpage⟩ := h.undoPage hpresent (hsplit hpresent) (hbatch hpresent) List.mem_cons_self hlast rfl
      exact ⟨h.shrink hrest (fun other _ hother => update_of_ne hother _ _)
          fun _ => (update_self block _ s.pages).symm ▸ hpage, fun _ _ => hret⟩

end

end RollbackInv

/-! ## The steps of `ExecuteUndoActions` -/

section all

variable {d : Nat} {parent : Option (List (RollbackRecord α))} {toUrecptr urecPtr : Nat} {full : Bool}
  {groups : List (List (RollbackRecord α))} {pre : PreviousCall} {past now future kept : List (RollbackRecord α)}

section

variable (h : AllOk e s stack d parent toUrecptr urecPtr full groups pre past now future kept)
include h

lemma AllOk.suffix (htxn : TxnOk e s.space s.finished s.start s.txn s.ended) :
    past ++ (now ++ (future ++ kept)) <:+ s.ended := by
  rcases h.whole with hwhole | ⟨-, hwhole⟩
  · exact hwhole ▸ htxn.suffix
  · exact hwhole ▸ List.suffix_refl _

lemma AllOk.txn_sublist (htxn : TxnOk e s.space s.finished s.start s.txn s.ended) :
    s.txn.Sublist (past ++ (now ++ (future ++ kept))) := by
  rcases h.whole with hwhole | ⟨-, hwhole⟩
  · exact hwhole ▸ List.Sublist.refl _
  · exact hwhole ▸ htxn.suffix.sublist

/-- What a page has left is in the batch or behind it. -/
lemma AllOk.split (hinv : RollbackInv e s stack base) {block : RelBlock} (hpresent : s.Present block) :
    ∃ popped rest, stack block = popped ++ rest ∧ popped.Sublist now ∧ rest.Sublist (future ++ kept) := by
  obtain ⟨before, left, hall, hbefore, hleft⟩ :=
    List.sublist_append_iff.mp ((hinv.page block hpresent).sub.trans (h.txn_sublist hinv.txn))
  obtain ⟨popped, rest, rfl, hpopped, hrest⟩ := List.sublist_append_iff.mp hleft
  have hnil : before = [] := by
    apply List.eq_nil_iff_forall_not_mem.mpr
    intro urec hmem
    exact (h.seen block hpresent urec (hall ▸ List.mem_append_left _ hmem)).1 (hbefore.subset hmem)
  rw [hnil, List.nil_append] at hall
  exact ⟨popped, rest, hall, hpopped, hrest⟩

/-- The fetch goes on from the records that are still to come. -/
lemma AllOk.fetch (hinv : RollbackInv e s stack base) (hvalid : urecPtr ≠ invalidUndoRecPtr) {fuel next : Nat}
    {urecvec : List (RollbackRecord α)}
    (hfetch : fetchUndoRecordRange s.space fuel urecPtr toUrecptr e.undoApplySize false = some (urecvec, next)) :
    ∃ rest, future = urecvec ++ rest ∧
      (next = latest rest ∧ urecvec ≠ [] ∨ next = invalidUndoRecPtr ∧ s.finished = true) := by
  have hnext : urecPtr = latest future := h.next.resolve_right fun hz => hvalid hz.2
  have hne : future ≠ [] := by
    rintro rfl
    exact hvalid hnext
  have hsuffix : future ++ kept <:+ s.ended :=
    ((List.suffix_append now _).trans (List.suffix_append past _)).trans (h.suffix hinv.txn)
  have hmem : ∀ urec ∈ future, urec ∈ s.ended := fun urec hin => hsuffix.subset (List.mem_append_left _ hin)
  have hchain : Chain RollbackRecord.prevurp urecPtr future (latest kept) := by
    obtain ⟨before, hbefore⟩ := hsuffix
    have hall := hinv.txn.chain
    rw [← hbefore] at hall
    have hpart := hall.drop.2.drop.1
    rw [hnext, latest]
    obtain ⟨urec, rest, rfl⟩ := List.exists_cons_of_ne_nil hne
    exact hpart
  obtain ⟨batch, rest, hfuture, hres, hend⟩ := fetchLoop_transaction hchain hne
    (fun urec hin => (hinv.txn.stored urec (hmem urec hin)).imp_right And.right)
    (fun urec hin => (hinv.txn.own urec (hmem urec hin)).2.2)
    (hinv.txn.sorted.sublist ((List.sublist_append_left future kept).trans hsuffix.sublist)) h.low
    (fun urec hlast => (h.last urec hlast).imp_right fun hnil => by rw [hnil]; rfl) hfetch
  rw [List.nil_append] at hres
  subst hres
  refine ⟨rest, hfuture, hend.imp_right fun ⟨hzero, urec, hin, hgone⟩ => ⟨hzero, ?_⟩⟩
  rcases hinv.txn.stored urec (hmem urec hin) with hrec | ⟨hfin, -⟩
  · rw [hgone] at hrec
    cases hrec
  · exact hfin

end

lemma RollbackInv.allFetch (h : RollbackInv e s stack base) {fuel next : Nat} {urecvec : List (RollbackRecord α)}
    (hdriver : s.drivers d = .all parent toUrecptr urecPtr full [] pre) (hvalid : urecPtr ≠ invalidUndoRecPtr)
    (hfetch : fetchUndoRecordRange s.space fuel urecPtr toUrecptr e.undoApplySize false = some (urecvec, next)) :
    RollbackInv e (s.setDriver d
      (.all parent toUrecptr next (parent.isNone && decide (next = invalidUndoRecPtr)) (pageGroups urecvec) pre))
      stack base := by
  have hold := h.driver d
  rw [hdriver] at hold
  obtain ⟨past, now, future, kept, hall⟩ := hold
  obtain ⟨rest, rfl, hnext⟩ := hall.fetch h hvalid hfetch
  have hmem : ∀ urec ∈ rest, urec ∈ s.ended := by
    intro urec hin
    apply (hall.suffix h.txn).subset
    simp only [List.mem_append]
    exact .inr (.inr (.inl (.inr hin)))
  apply h.setDriver (.inr (.inl (by rw [hdriver]; nofun)))
  refine ⟨past ++ now, urecvec, rest, kept, ?_⟩
  constructor
  case whole =>
    have hassoc : past ++ now ++ (urecvec ++ (rest ++ kept)) = past ++ (now ++ (urecvec ++ rest ++ kept)) := by
      simp only [List.append_assoc]
    rw [hassoc]
    exact hall.whole
  case top => exact hall.top
  case sub =>
    intro p hp
    obtain ⟨hactive, hkept, hidle⟩ := hall.sub p hp
    exact ⟨hactive, hkept, fun d' hd' => (update_of_ne hd' _ _).trans (hidle d' hd')⟩
  case next => exact hnext.imp And.left And.symm
  case low => exact fun urec hin => hall.low urec (List.mem_append_right _ hin)
  case last =>
    intro urec hlast
    apply hall.last urec
    rw [List.getLast?_append, hlast]
    rfl
  case fullChain =>
    intro hfull
    obtain ⟨hnone, hzero⟩ := (Bool.and_eq_true_iff).mp hfull
    rcases hnext with ⟨hlatest, -⟩ | ⟨-, hfin⟩
    · have hnil : rest = [] := by
        cases rest with
        | nil => rfl
        | cons urec rest =>
          have hin := hmem urec List.mem_cons_self
          exact absurd (hlatest.symm.trans (of_decide_eq_true hzero)) (h.txn.own urec hin).2.2
      rw [hnil, (hall.top (Option.isNone_iff_eq_none.mp hnone)).2]
      exact .inr rfl
    · exact .inl hfin
  case cut =>
    intro g hg
    have hne := ne_nil_of_mem_pageGroups hg
    obtain ⟨urec, hin⟩ := List.exists_mem_of_ne_nil g hne
    exact ⟨hne, urec.block, pageGroups_eq hg hin⟩
  case seen =>
    intro block hpresent urec hin
    obtain ⟨hpast, hnow⟩ := hall.seen block hpresent urec hin
    refine ⟨fun hdone => ?_, exists_mem_pageGroups⟩
    rcases List.mem_append.mp hdone with hdone | hdone
    · exact hpast hdone
    · obtain ⟨g, hg, -⟩ := hnow hdone
      cases hg

lemma RollbackInv.allApply (h : RollbackInv e s stack base) {group : List (RollbackRecord α)} {last : RollbackRecord α}
    {pre' : PreviousCall} {pages : RelBlock → RollbackPage α}
    (hdriver : s.drivers d = .all parent toUrecptr urecPtr full (group :: groups) pre)
    (hlast : group.getLast? = some last) (hskip : s.NoneSkipped)
    (happly : (pre', pages) = uHeapUndoActions s.gone s.space s.pages group e.xid last.reloid last.partitionoid
      last.block full pre) :
    ∃ stack', RollbackInv e
      ({ s with pages := pages }.setDriver d (.all parent toUrecptr urecPtr full groups pre')) stack' base := by
  have hold := h.driver d
  rw [hdriver] at hold
  obtain ⟨past, now, future, kept, hall⟩ := hold
  obtain ⟨hne, block, hgroup⟩ := hall.cut group List.mem_cons_self
  have hsuffix := hall.suffix h.txn
  have hnow : now.Sublist s.ended :=
    ((List.sublist_append_left now _).trans (List.sublist_append_right past _)).trans hsuffix.sublist
  have hin : ∀ urec ∈ group, urec ∈ now ∧ urec.block = block := by
    intro urec hmem
    rw [hgroup, List.mem_filter] at hmem
    exact ⟨hmem.1, of_decide_eq_true hmem.2⟩
  obtain ⟨hlastNow, hblock⟩ := hin last (List.mem_of_getLast? hlast)
  have hrel := h.txn.rel last (hnow.subset hlastNow)
  have hpre := hskip d _ _ _ _ _ _ _ last hdriver hlast
  rw [hblock] at happly hrel hpre
  rw [show last.reloid = (e.relOf block).1 from congrArg Prod.fst hrel,
    show last.partitionoid = (e.relOf block).2 from congrArg Prod.snd hrel] at happly hpre
  -- the records to come are none of the batch
  have happart : ∀ urec ∈ future ++ kept, urec ∉ now := by
    intro urec hbehind hbatch
    have hsorted := h.txn.sorted.sublist ((List.sublist_append_right past _).trans hsuffix.sublist)
    exact lt_irrefl _ ((List.pairwise_append.mp hsorted).2.2 urec hbatch urec hbehind)
  obtain ⟨popped, rest, hsplit⟩ : ∃ popped rest, s.Present block →
      stack block = popped ++ rest ∧ popped.Sublist now ∧ rest.Sublist (future ++ kept) := by
    by_cases hpresent : s.Present block
    · obtain ⟨popped, rest, hsplit⟩ := hall.split h hpresent
      exact ⟨popped, rest, fun _ => hsplit⟩
    · exact ⟨[], [], fun hp => absurd hp hpresent⟩
  have hstep := h.apply hne hpre (fun hp => (hsplit hp).1) (fun hpresent hleft => ?_) happly
  · obtain ⟨hinv, -⟩ := hstep
    refine ⟨_, hinv.setDriver (.inr (.inl (by rw [hdriver]; nofun))) ⟨past, now, future, kept, ?_⟩⟩
    constructor
    case whole => exact hall.whole
    case top => exact hall.top
    case sub =>
      intro p hp
      obtain ⟨hactive, hkept, hidle⟩ := hall.sub p hp
      exact ⟨hactive, hkept, fun d' hd' => (update_of_ne hd' _ _).trans (hidle d' hd')⟩
    case next => exact hall.next
    case low => exact hall.low
    case last => exact hall.last
    case fullChain => exact hall.fullChain
    case cut => exact fun g hg => hall.cut g (List.mem_cons_of_mem _ hg)
    case seen =>
      intro other hpresent urec hmem
      by_cases hother : other = block
      · subst hother
        obtain ⟨hstack, -, hrest⟩ := hsplit hpresent
        rw [update_self] at hmem
        have hseen := hall.seen other hpresent urec (hstack ▸ List.mem_append_right _ hmem)
        exact ⟨hseen.1, fun hbatch => absurd hbatch (happart urec (hrest.subset hmem))⟩
      · rw [update_of_ne hother] at hmem
        obtain ⟨hpast, hbatch⟩ := hall.seen other hpresent urec hmem
        refine ⟨hpast, fun hmemNow => ?_⟩
        obtain ⟨g, hg, hmemG⟩ := hbatch hmemNow
        rcases List.mem_cons.mp hg with rfl | hg
        · exact absurd (((h.page other hpresent).here urec hmem).symm.trans (hin urec hmemG).2) hother
        · exact ⟨g, hg, hmemG⟩
  · obtain ⟨hstack, hpopped, hrest⟩ := hsplit hpresent
    refine ⟨?_, ?_, fun urec hmem hbatch => happart urec (hrest.subset hmem) (hin urec hbatch).1, fun hfull => ?_⟩
    · have hfilter : popped.filter (fun urec => decide (urec.block = block)) = popped := by
        apply List.filter_eq_self.mpr
        intro urec hmem
        exact decide_eq_true ((h.page block hpresent).here urec (hstack ▸ List.mem_append_left _ hmem))
      rw [hgroup, ← hfilter]
      exact hpopped.filter _
    · rw [hgroup]
      exact List.filter_sublist.trans hnow
    · rcases hall.fullChain hfull with hfin | hnil
      · exact Bool.noConfusion (hfin.symm.trans (h.unfinished hpresent hleft))
      · exact List.sublist_nil.mp (hnil ▸ hrest)

/-- At the end, what pages have left is of the parent. -/
lemma AllOk.done (h : AllOk e s stack d parent toUrecptr urecPtr full [] pre past now future kept)
    (hinv : RollbackInv e s stack base) {fuel next : Nat} (hdone : urecPtr = invalidUndoRecPtr ∨
      fetchUndoRecordRange s.space fuel urecPtr toUrecptr e.undoApplySize false = some ([], next)) {block : RelBlock}
    (hpresent : s.Present block) : (stack block).Sublist kept := by
  by_cases hnil : stack block = []
  · rw [hnil]
    exact List.nil_sublist kept
  have hfin := hinv.unfinished hpresent hnil
  have hfuture : future = [] := by
    cases future with
    | nil => rfl
    | cons urec future =>
      by_cases hvalid : urecPtr = invalidUndoRecPtr
      · rcases h.next with hlatest | ⟨hfin', -⟩
        · have hmem : urec ∈ s.ended := by
            apply (h.suffix hinv.txn).subset
            simp only [List.mem_append, List.mem_cons, true_or, or_true]
          exact absurd (hlatest.symm.trans hvalid) (hinv.txn.own urec hmem).2.2
        · exact Bool.noConfusion (hfin'.symm.trans hfin)
      · obtain ⟨_, -, hend⟩ := h.fetch hinv hvalid (hdone.resolve_left hvalid)
        rcases hend with ⟨-, hbatch⟩ | ⟨-, hfin'⟩
        · exact absurd rfl hbatch
        · exact Bool.noConfusion (hfin'.symm.trans hfin)
  obtain ⟨popped, rest, hall, hpopped, hrest⟩ := h.split hinv hpresent
  have hnone : popped = [] := by
    apply List.eq_nil_iff_forall_not_mem.mpr
    intro urec hmem
    obtain ⟨g, hg, -⟩ := (h.seen block hpresent urec (hall ▸ List.mem_append_left _ hmem)).2 (hpopped.subset hmem)
    cases hg
  rw [hall, hnone]
  rwa [hfuture] at hrest

lemma RollbackInv.allEnd (h : RollbackInv e s stack base) {fuel next : Nat}
    (hdriver : s.drivers d = .all parent toUrecptr urecPtr full [] pre) (hdone : urecPtr = invalidUndoRecPtr ∨
      fetchUndoRecordRange s.space fuel urecPtr toUrecptr e.undoApplySize false = some ([], next)) :
    RollbackInv e ({ s with txn := parent.getD s.txn, finished := s.finished || parent.isNone }.setDriver d .idle)
      stack base := by
  have hold := h.driver d
  rw [hdriver] at hold
  obtain ⟨past, now, future, kept, hall⟩ := hold
  have hidle : RollbackInv e (s.setDriver d .idle) stack base :=
    h.setDriver (.inr (.inl (by rw [hdriver]; nofun))) trivial
  cases parent with
  | none =>
    obtain ⟨haborted, rfl⟩ := hall.top rfl
    constructor
    case txn =>
      exact ⟨h.txn.suffix, h.txn.sorted, h.txn.own, h.txn.rel, h.txn.older, h.txn.chain,
        fun urec hmem => (h.txn.stored urec hmem).imp_right fun hgone => ⟨Bool.or_true _, hgone.2⟩, h.txn.low,
        h.txn.unstarted⟩
    case page => exact h.page
    case aborted => exact fun _ => haborted
    case finished => exact fun _ block hpresent => List.sublist_nil.mp (hall.done h hdone hpresent)
    case driver =>
      intro d'
      refine (hidle.driver d').mono rfl rfl rfl (fun _ => Bool.or_true _) (fun _ => id)
        (fun block urp urecvec pre hpage => ?_) (fun _ _ _ => id) fun _ _ => List.suffix_refl _
      have hold := hidle.driver d'
      rw [show (s.setDriver d .idle).drivers d' = _ from hpage] at hold
      exact hold.present
    case panicked => exact h.panicked
  | some p =>
    obtain ⟨hactive, rfl, hothers⟩ := hall.sub p rfl
    have hfin : s.finished = false := by
      cases hfin : s.finished with
      | false => rfl
      | true => exact Bool.noConfusion (hactive.symm.trans (h.aborted hfin))
    have hwhole : past ++ (now ++ (future ++ p)) = s.txn :=
      hall.whole.resolve_right fun haborted => Bool.noConfusion (hactive.symm.trans haborted.1)
    have hsuffix : p <:+ s.txn := by
      rw [← hwhole]
      exact ((List.suffix_append future p).trans (List.suffix_append now _)).trans (List.suffix_append past _)
    constructor
    case txn =>
      exact ⟨hsuffix.trans h.txn.suffix, h.txn.sorted, h.txn.own, h.txn.rel, h.txn.older, h.txn.chain,
        fun urec hmem => .inl (h.readable hfin hmem), h.txn.low, h.txn.unstarted⟩
    case page =>
      intro block hpresent
      have hp := h.page block hpresent
      exact ⟨hp.stacked, hall.done h hdone hpresent, hp.here, hp.slot, hp.foreign, hp.rows⟩
    case aborted => exact fun hfin' => Bool.noConfusion ((Bool.or_eq_false_iff.mpr ⟨hfin, rfl⟩).symm.trans hfin')
    case finished => exact fun hfin' => Bool.noConfusion ((Bool.or_eq_false_iff.mpr ⟨hfin, rfl⟩).symm.trans hfin')
    case driver =>
      intro d'
      have hnone : (s.setDriver d .idle).drivers d' = .idle := by
        by_cases hd : d' = d
        · subst hd
          exact update_self _ _ _
        · exact (update_of_ne hd _ _).trans (hothers d' hd)
      exact (congrArg (DriverOk e _ stack base d') hnone).mpr trivial
    case panicked => exact h.panicked

end all

/-! ## The steps of `ExecuteUndoActionsPage` -/

section page

variable {d : Nat} {block : RelBlock} {urp : Nat} {pre : PreviousCall}

lemma RollbackInv.pageStart (h : RollbackInv e s stack base) {i : Nat} (haborted : s.aborted = true)
    (hpresent : s.Present block) (hslot : uHeapPageGetTDSlotId (s.pages block).slots e.xid = some (i, urp)) :
    RollbackInv e (s.setDriver d (.page block urp none firstCall)) stack base := by
  refine h.setDriver (.inl haborted) ⟨haborted, hpresent, RollbackReturn.noConfusion, nofun, .inr ?_⟩
  have hp := h.page block hpresent
  refine ⟨[], stack block, rfl, hp.sub, .inl ?_⟩
  cases hstack : stack block with
  | nil =>
    have hnone := hp.slot
    rw [hstack] at hnone
    rw [tdSlotId_of_nil hnone] at hslot
    cases hslot
  | cons top rest =>
    have hfound := hp.slot
    rw [hstack] at hfound
    obtain ⟨j, hget, -⟩ := tdSlotId_of_cons hfound
    rw [hget] at hslot
    cases hslot
    have hchain := hp.stacked.chain
    rw [hstack] at hchain
    exact hchain

/-- The fetch goes on in the chain of the page. -/
lemma PageRunOk.fetch (h : PageRunOk e s stack base block urp none pre) (hinv : RollbackInv e s stack base)
    (hleft : stack block ≠ []) {fuel next : Nat} {urecvec : List (RollbackRecord α)} (hvalid : urp ≠ invalidUndoRecPtr)
    (hfetch : fetchUndoRecordRange s.space fuel urp invalidUndoRecPtr e.undoApplySize true = some (urecvec, next)) :
    urecvec ≠ [] ∧ ∃ popped rest, urecvec ++ rest = popped ++ stack block ∧ (urecvec ++ rest).Sublist s.txn ∧
      (Chain RollbackRecord.blkprev next rest (base block) ∨ next = invalidUndoRecPtr ∧ rest = []) := by
  obtain ⟨popped, l, hall, hsub, hchain⟩ := h.left.resolve_left hleft
  rw [Option.getD_none, List.nil_append] at hall hsub
  have hfin := hinv.unfinished h.present hleft
  have hne : l ≠ [] := by
    rw [hall]
    exact fun hnil => hleft (List.append_eq_nil_iff.mp hnil).2
  have hmem : ∀ urec ∈ l, urec ∈ s.ended := fun urec hin => hinv.txn.suffix.subset (hsub.subset hin)
  obtain ⟨batch, rest, rfl, hres, hsome, hnext⟩ := fetchLoop_page e.xid_ne
    (hchain.resolve_right fun hz => hvalid hz.1) (hinv.page block h.present).stacked.foreign
    (fun urec hin => ⟨(hinv.txn.own urec (hmem urec hin)).1, (hinv.txn.own urec (hmem urec hin)).2.2,
      hinv.readable hfin (hmem urec hin)⟩) hvalid (.inr ⟨rfl, hne⟩) hfetch
  rw [List.nil_append] at hres
  subst hres
  exact ⟨hsome hne, popped, rest, hall, hsub, hnext⟩

lemma RollbackInv.pageFetch (h : RollbackInv e s stack base) {fuel next : Nat} {urecvec : List (RollbackRecord α)}
    (hdriver : s.drivers d = .page block urp none pre) (hvalid : urp ≠ invalidUndoRecPtr)
    (hfetch : fetchUndoRecordRange s.space fuel urp invalidUndoRecPtr e.undoApplySize true = some (urecvec, next))
    (hsome : urecvec ≠ []) : RollbackInv e (s.setDriver d (.page block next (some urecvec) pre)) stack base := by
  have hold := h.driver d
  rw [hdriver] at hold
  refine h.setDriver (.inl hold.aborted) ⟨hold.aborted, hold.present, hold.pre, fun vec hvec => ?_, ?_⟩
  · rwa [← Option.some_inj.mp hvec]
  · by_cases hnil : stack block = []
    · exact .inl hnil
    · exact .inr (hold.fetch h hnil hvalid hfetch).2

lemma RollbackInv.pageApply (h : RollbackInv e s stack base) {vec : List (RollbackRecord α)} {pre' : PreviousCall}
    {pages : RelBlock → RollbackPage α} (hdriver : s.drivers d = .page block urp (some vec) pre)
    (happly : (pre', pages) = uHeapUndoActions s.gone s.space s.pages vec e.xid (e.relOf block).1
      (e.relOf block).2 block (decide (urp = invalidUndoRecPtr)) pre) :
    ∃ stack', RollbackInv e ({ s with pages := pages }.setDriver d (.page block urp none pre')) stack' base := by
  have hold := h.driver d
  rw [hdriver] at hold
  have hpre : pre.Skips (e.relOf block).1 (e.relOf block).2 → s.gone block = true := fun hskip =>
    absurd hskip.2.2 hold.pre
  have hne := hold.sized vec rfl
  -- what the batch takes, what is left, and what of it the run has already taken
  obtain ⟨popped, rest, hsplit, hbatch, hleft⟩ : ∃ popped rest, stack block = popped ++ rest ∧
      (stack block ≠ [] → popped.Sublist vec ∧ vec.Sublist s.ended ∧ (∀ urec ∈ rest, urec ∉ vec) ∧
        (decide (urp = invalidUndoRecPtr) = true → rest = [])) ∧
      (rest = [] ∨ ∃ before behind, behind = before ++ rest ∧ behind.Sublist s.txn ∧
        (Chain RollbackRecord.blkprev urp behind (base block) ∨ urp = invalidUndoRecPtr ∧ behind = [])) := by
    rcases hold.left with hnil | ⟨before, behind, hall, hsub, hchain⟩
    · exact ⟨[], [], hnil, fun hsome => absurd hnil hsome, .inl rfl⟩
    rw [Option.getD_some] at hall hsub
    have hended := hsub.trans h.txn.suffix.sublist
    have happart : ∀ urec ∈ behind, urec ∉ vec := by
      intro urec hbehind hmem
      exact lt_irrefl _ ((List.pairwise_append.mp (h.txn.sorted.sublist hended)).2.2 urec hmem urec hbehind)
    have hfull : decide (urp = invalidUndoRecPtr) = true → behind = [] := by
      intro hzero
      rcases hchain with hchain | ⟨-, hnil⟩
      · cases behind with
        | nil => rfl
        | cons urec behind =>
          have hmem := hended.subset (List.mem_append_right vec List.mem_cons_self)
          exact absurd (hchain.1.symm.trans (of_decide_eq_true hzero)) (h.txn.own urec hmem).2.2
      · exact hnil
    have hbehind : behind.Sublist s.txn := (List.sublist_append_right vec behind).trans hsub
    have hvec : vec.Sublist s.ended := (List.sublist_append_left vec behind).trans hended
    rcases List.append_eq_append_iff.mp hall with ⟨more, hbefore, hrest⟩ | ⟨popped, hvecEq, hstack⟩
    · refine ⟨[], stack block, rfl, fun hsome => ⟨List.nil_sublist vec, hvec, fun urec hmem => ?_, fun hzero => ?_⟩,
        .inr ⟨more, behind, hrest, hbehind, hchain⟩⟩
      · exact happart urec (hrest ▸ List.mem_append_right more hmem)
      · exact (List.append_eq_nil_iff.mp (hrest.symm.trans (hfull hzero))).2
    · refine ⟨popped, behind, hstack, fun _ => ⟨?_, hvec, happart, hfull⟩, .inr ⟨[], behind, rfl, hbehind, hchain⟩⟩
      rw [hvecEq]
      exact List.sublist_append_right before popped
  obtain ⟨hinv, hret⟩ := h.apply hne hpre (fun _ => hsplit) (fun _ => hbatch) happly
  refine ⟨_, hinv.setDriver (.inl hold.aborted) ⟨hold.aborted, hold.present, hret hold.present hold.pre, nofun, ?_⟩⟩
  rw [update_self]
  exact hleft

lemma RollbackInv.pageEnd (h : RollbackInv e s stack base) {fuel next : Nat}
    (hdriver : s.drivers d = .page block urp none pre) (hdone : urp = invalidUndoRecPtr ∨
      fetchUndoRecordRange s.space fuel urp invalidUndoRecPtr e.undoApplySize true = some ([], next)) :
    RollbackInv e
      ({ s with panicked := s.panicked || (uHeapPageGetTDSlotId (s.pages block).slots e.xid).isSome }.setDriver d .idle)
      stack base := by
  have hold := h.driver d
  rw [hdriver] at hold
  have hnil : stack block = [] := by
    by_contra hleft
    by_cases hvalid : urp = invalidUndoRecPtr
    · obtain ⟨popped, l, hall, hsub, hchain⟩ := hold.left.resolve_left hleft
      rw [Option.getD_none, List.nil_append] at hall hsub
      cases l with
      | nil => exact hleft (List.append_eq_nil_iff.mp hall.symm).2
      | cons urec l =>
        have hmem := h.txn.suffix.subset (hsub.subset List.mem_cons_self)
        rcases hchain with hchain | ⟨-, hnil⟩
        · exact (h.txn.own urec hmem).2.2 (hchain.1.symm.trans hvalid)
        · cases hnil
    · exact (hold.fetch h hleft hvalid (hdone.resolve_left hvalid)).1 rfl
  have hslot := (h.page block hold.present).slot
  rw [hnil] at hslot
  rw [tdSlotId_of_nil hslot, Option.isSome_none, Bool.or_false]
  exact h.setDriver (.inl hold.aborted) trivial

end page

/-! ## The transaction and the others -/

namespace RollbackInv

lemma notFinished (h : RollbackInv e s stack base) (hactive : s.aborted = false) : s.finished = false := by
  cases hfin : s.finished with
  | false => rfl
  | true => exact Bool.noConfusion (hactive.symm.trans (h.aborted hfin))

/-- A place that a slot or a record points to is used. -/
lemma used_of_foreign {space : UndoContent α} {xid p : Nat} (h : Foreign space xid p) :
    p = invalidUndoRecPtr ∨ space p ≠ .unused := by
  rcases h with hzero | hgone | ⟨urec, hrec, -⟩
  · exact .inl hzero
  · exact .inr (by rw [hgone]; nofun)
  · exact .inr (by rw [hrec]; nofun)

lemma foreign_update {space : UndoContent α} {xid p q : Nat} {entry : UndoEntry α} (h : Foreign space xid p)
    (hunused : space q = .unused) : Foreign (update space q entry) xid p := by
  by_cases hpq : p = q
  · subst hpq
    rcases h with hzero | hgone | ⟨urec, hrec, -⟩
    · exact .inl hzero
    · rw [hunused] at hgone
      cases hgone
    · rw [hunused] at hrec
      cases hrec
  · rwa [Foreign, update_of_ne hpq]

section

variable (h : RollbackInv e s stack base)
include h

/-- The slot that the record goes to has the latest one, or one from before the transaction. -/
lemma slot_of_write {block : RelBlock} (hpresent : s.Present block) {i : Nat} {td : TD}
    (hslot : (s.pages block).slots[i]? = some td)
    (hfree : td.xactid = e.xid ∨ ∀ td' ∈ (s.pages block).slots, td'.xactid ≠ e.xid) :
    (stack block = [] ∧ Foreign s.space e.xid td.undoRecordPtr) ∨
      ∃ top rest, stack block = top :: rest ∧ td.undoRecordPtr = top.urp ∧
        ∀ (j : Nat) (td' : TD), (s.pages block).slots[j]? = some td' → td'.xactid = e.xid → j = i := by
  have hp := h.page block hpresent
  have hin := List.mem_of_getElem? hslot
  cases hstack : stack block with
  | nil =>
    have hnone := hp.slot
    rw [hstack] at hnone
    exact .inl ⟨rfl, hp.foreign i td hslot (hnone td hin)⟩
  | cons top rest =>
    have hholds := hp.slot
    rw [hstack] at hholds
    obtain ⟨j, hj, huniq⟩ := hholds
    have hown : td.xactid = e.xid := hfree.resolve_right fun hnone => hnone _ (List.mem_of_getElem? hj) rfl
    obtain rfl := huniq i td hslot hown
    rw [hslot, Option.some_inj] at hj
    exact .inr ⟨top, rest, rfl, by rw [hj], huniq⟩

lemma write {urec : RollbackRecord α} {rows : α} {i : Nat} {td : TD} (hidle : ∀ d, s.drivers d = .idle)
    (hactive : s.aborted = false) (hpresent : s.Present urec.block) (hxid : urec.xid = e.xid)
    (hzone : undoPtrGetZoneId urec.urp = e.zone) (hvalid : urec.urp ≠ invalidUndoRecPtr)
    (hnew : ∀ p, undoPtrGetZoneId p = e.zone → s.space p ≠ .unused → p < urec.urp)
    (hunused : s.space urec.urp = .unused) (hrel : (urec.reloid, urec.partitionoid) = e.relOf urec.block)
    (hprev : urec.prevurp = latest s.txn) (hslot : (s.pages urec.block).slots[i]? = some td)
    (hblkprev : urec.blkprev = td.undoRecordPtr)
    (hfree : td.xactid = e.xid ∨ ∀ td' ∈ (s.pages urec.block).slots, td'.xactid ≠ e.xid)
    (hact : urec.act rows = (s.pages urec.block).rows) :
    ∃ base', RollbackInv e
      { s with
        space := update s.space urec.urp (.record urec)
        pages := update s.pages urec.block ⟨(s.pages urec.block).slots.set i ⟨e.xid, urec.urp⟩, rows⟩
        txn := urec :: s.txn
        ended := urec :: s.txn
        start := if s.start = invalidUndoRecPtr then urec.urp else s.start }
      (update stack urec.block (urec :: stack urec.block)) base' := by
  have hfin := h.notFinished hactive
  have hrecord : ∀ r ∈ s.ended, s.space r.urp = .record r := fun r hr => h.readable hfin hr
  have hless : ∀ r ∈ s.ended, r.urp < urec.urp := by
    intro r hr
    apply hnew r.urp (h.txn.own r hr).2.1
    rw [hrecord r hr]
    nofun
  have hstill : ∀ r ∈ s.ended, update s.space urec.urp (.record urec) r.urp = .record r := by
    intro r hr
    rw [update_of_ne (hless r hr).ne]
    exact hrecord r hr
  have hcase := h.slot_of_write hpresent hslot hfree
  have hmem : ∀ r ∈ s.txn, r ∈ s.ended := fun r hr => h.txn.suffix.subset hr
  have hused : urec.blkprev = invalidUndoRecPtr ∨ s.space urec.blkprev ≠ .unused := by
    rw [hblkprev]
    rcases hcase with ⟨-, hforeign⟩ | ⟨top, rest, hstack, htop, -⟩
    · exact used_of_foreign hforeign
    · have hin := (h.page urec.block hpresent).sub.subset (hstack ▸ List.mem_cons_self)
      refine .inr ?_
      rw [htop, hrecord top (hmem top hin)]
      nofun
  obtain ⟨hltSlot, -⟩ := List.getElem?_eq_some_iff.mp hslot
  refine ⟨fun block => if block = urec.block ∧ stack block = [] then td.undoRecordPtr else base block, ?_⟩
  constructor
  case txn =>
    constructor
    case suffix => exact List.suffix_refl _
    case sorted =>
      exact List.pairwise_cons.mpr ⟨fun r hr => hless r (hmem r hr), h.txn.sorted.sublist h.txn.suffix.sublist⟩
    case own => exact List.forall_mem_cons.mpr ⟨⟨hxid, hzone, hvalid⟩, fun r hr => h.txn.own r (hmem r hr)⟩
    case rel => exact List.forall_mem_cons.mpr ⟨hrel, fun r hr => h.txn.rel r (hmem r hr)⟩
    case older =>
      refine List.forall_mem_cons.mpr ⟨fun hsame => ?_, fun r hr => h.txn.older r (hmem r hr)⟩
      rcases hused with hzero | hused
      · rw [hzero]
        exact Nat.pos_of_ne_zero hvalid
      · exact hnew _ hsame hused
    case chain =>
      obtain ⟨before, hbefore⟩ := h.txn.suffix
      have hall := h.txn.chain
      rw [← hbefore] at hall
      refine ⟨rfl, ?_⟩
      rw [hprev]
      exact hall.drop.2
    case stored =>
      exact List.forall_mem_cons.mpr ⟨.inl (update_self _ _ _), fun r hr => .inl (hstill r (hmem r hr))⟩
    case low =>
      by_cases hstart : s.start = invalidUndoRecPtr
      · have hnil : s.txn = [] := List.suffix_nil.mp (h.txn.unstarted.mp hstart ▸ h.txn.suffix)
        intro r hr
        rw [show r = urec from List.mem_singleton.mp (hnil ▸ hr)]
        exact (if_pos hstart).le
      · intro r hr
        refine (if_neg hstart).le.trans ?_
        rcases List.mem_cons.mp hr with rfl | hr
        · cases hended : s.ended with
          | nil => exact absurd (h.txn.unstarted.mpr hended) hstart
          | cons old ended =>
            have hin : old ∈ s.ended := hended ▸ List.mem_cons_self
            exact (h.txn.low old hin).trans (hless old hin).le
        · exact h.txn.low r (hmem r hr)
    case unstarted =>
      refine ⟨fun hzero => ?_, fun hnil => absurd hnil (List.cons_ne_nil _ _)⟩
      by_cases hstart : s.start = invalidUndoRecPtr
      · exact absurd ((if_pos hstart).symm.trans hzero) hvalid
      · exact absurd ((if_neg hstart).symm.trans hzero) hstart
  case page =>
    intro block hblock
    have hp := h.page block hblock
    have hown : ∀ r ∈ stack block, r ∈ s.ended := fun r hr => hmem r (hp.sub.subset hr)
    dsimp only
    by_cases hsame : block = urec.block
    · subst hsame
      rw [update_self, update_self]
      constructor
      case stacked =>
        constructor
        case chain =>
          refine ⟨rfl, ?_⟩
          rw [hblkprev]
          rcases hcase with ⟨hnil, -⟩ | ⟨top, rest, hstack, htop, -⟩
          · rw [if_pos ⟨rfl, hnil⟩, hnil]
            rfl
          · rw [if_neg fun hc => List.cons_ne_nil _ _ (hstack.symm.trans hc.2)]
            have hchain := hp.stacked.chain
            rw [hstack] at hchain ⊢
            rw [htop]
            exact hchain
        case own =>
          refine List.forall_mem_cons.mpr ⟨⟨hxid, hzone, hvalid, update_self _ _ _⟩, fun r hr => ?_⟩
          obtain ⟨hr1, hr2, hr3, -⟩ := hp.stacked.own r hr
          exact ⟨hr1, hr2, hr3, hstill r (hown r hr)⟩
        case foreign =>
          apply foreign_update _ hunused
          rcases hcase with ⟨hnil, hforeign⟩ | ⟨top, rest, hstack, -, -⟩
          · rwa [if_pos ⟨rfl, hnil⟩]
          · rw [if_neg fun hc => List.cons_ne_nil _ _ (hstack.symm.trans hc.2)]
            exact hp.stacked.foreign
      case sub => exact hp.sub.cons_cons urec
      case here => exact List.forall_mem_cons.mpr ⟨rfl, hp.here⟩
      case slot =>
        refine ⟨i, List.getElem?_set_self hltSlot, fun j td' hj hown' => ?_⟩
        by_cases hij : i = j
        · exact hij.symm
        rw [List.getElem?_set_ne hij] at hj
        rcases hcase with ⟨hnil, -⟩ | ⟨top, rest, hstack, -, huniq⟩
        · have hnone := hp.slot
          rw [hnil] at hnone
          exact absurd hown' (hnone td' (List.mem_of_getElem? hj))
        · exact huniq j td' hj hown'
      case foreign =>
        intro j td' hj hother
        apply foreign_update _ hunused
        by_cases hij : i = j
        · subst hij
          rw [List.getElem?_set_self hltSlot, Option.some_inj] at hj
          exact absurd (congrArg TD.xactid hj).symm hother
        · rw [List.getElem?_set_ne hij] at hj
          exact hp.foreign j td' hj hother
      case rows => exact (congrArg (undoAll (stack urec.block)) hact).trans hp.rows
    · rw [update_of_ne hsame, update_of_ne hsame, if_neg fun hc => hsame hc.1]
      refine ⟨⟨hp.stacked.chain, fun r hr => ?_, foreign_update hp.stacked.foreign hunused⟩, hp.sub.cons urec, hp.here,
        hp.slot, fun j td' hj hother => foreign_update (hp.foreign j td' hj hother) hunused, hp.rows⟩
      obtain ⟨hr1, hr2, hr3, -⟩ := hp.stacked.own r hr
      exact ⟨hr1, hr2, hr3, hstill r (hown r hr)⟩
  case aborted => exact fun hfin' => Bool.noConfusion (hfin.symm.trans hfin')
  case finished => exact fun hfin' => Bool.noConfusion (hfin.symm.trans hfin')
  case driver =>
    intro d
    exact (congrArg (DriverOk e _ _ _ d) (hidle d)).mpr trivial
  case panicked => exact h.panicked

lemma subStart {d : Nat} {sub parent : List (RollbackRecord α)} {last : RollbackRecord α}
    (hidle : ∀ d, s.drivers d = .idle) (hactive : s.aborted = false) (htxn : s.txn = sub ++ parent)
    (hlast : sub.getLast? = some last) :
    RollbackInv e (s.setDriver d (.all (some parent) last.urp (latest s.txn) false [] firstCall)) stack base := by
  apply h.setDriver (.inr (.inr hidle))
  have hended : (sub ++ parent).Sublist s.ended := htxn ▸ h.txn.suffix.sublist
  refine ⟨[], [], sub, parent, ?_⟩
  constructor
  case whole => exact .inl htxn.symm
  case top => nofun
  case sub =>
    intro p hp
    obtain rfl := Option.some_inj.mp hp
    exact ⟨hactive, rfl, fun d' hd' => (update_of_ne hd' _ _).trans (hidle d')⟩
  case next =>
    refine .inl ?_
    cases sub with
    | nil => cases hlast
    | cons urec sub =>
      rw [htxn]
      rfl
  case low =>
    intro urec hmem
    obtain ⟨before, rfl⟩ := List.getLast?_eq_some_iff.mp hlast
    have hsorted := h.txn.sorted.sublist ((List.sublist_append_left _ parent).trans hended)
    rcases List.mem_append.mp hmem with hbefore | hsame
    · exact ((List.pairwise_append.mp hsorted).2.2 urec hbefore last List.mem_cons_self).le
    · rw [List.mem_singleton.mp hsame]
  case last =>
    intro urec hurec
    rw [hlast, Option.some_inj] at hurec
    exact .inl (congrArg RollbackRecord.urp hurec.symm)
  case fullChain => nofun
  case cut => nofun
  case seen => exact fun _ _ _ _ => ⟨List.not_mem_nil, nofun⟩

lemma topStart {d : Nat} {l : List (RollbackRecord α)} {toUrecptr : Nat} (haborted : s.aborted = true)
    (hfrom : l = s.txn ∧ (∃ last, l.getLast? = some last ∧ toUrecptr = last.urp) ∨ l = s.ended ∧ l ≠ [] ∧
      toUrecptr = s.start) :
    RollbackInv e (s.setDriver d (.all none toUrecptr (latest l) false [] firstCall)) stack base := by
  apply h.setDriver (.inl haborted)
  refine ⟨[], [], l, [], ?_⟩
  constructor
  case whole =>
    rw [List.nil_append, List.nil_append, List.append_nil]
    exact hfrom.imp And.left fun hended => ⟨haborted, hended.1⟩
  case top => exact fun _ => ⟨haborted, rfl⟩
  case sub => nofun
  case next => exact .inl rfl
  case low =>
    intro urec hmem
    rcases hfrom with ⟨rfl, last, hlast, rfl⟩ | ⟨rfl, -, rfl⟩
    · obtain ⟨before, hbefore⟩ := List.getLast?_eq_some_iff.mp hlast
      have hsorted := h.txn.sorted.sublist h.txn.suffix.sublist
      rw [hbefore] at hsorted hmem
      rcases List.mem_append.mp hmem with hin | hsame
      · exact ((List.pairwise_append.mp hsorted).2.2 urec hin last List.mem_cons_self).le
      · rw [List.mem_singleton.mp hsame]
    · exact h.txn.low urec hmem
  case last => exact fun _ _ => .inr rfl
  case fullChain => nofun
  case cut => nofun
  case seen => exact fun _ _ _ _ => ⟨List.not_mem_nil, nofun⟩

lemma abort (hidle : ∀ d, s.drivers d = .idle) : RollbackInv e { s with aborted := true } stack base where
  txn := h.txn
  page := h.page
  aborted _ := rfl
  finished := h.finished
  driver d := (congrArg (DriverOk e _ _ _ d) (hidle d)).mpr trivial
  panicked := h.panicked

end

lemma undoAll_comm {change : α → α} {l : List (RollbackRecord α)}
    (hapart : ∀ urec ∈ l, ∀ rows, change (urec.act rows) = urec.act (change rows)) (rows : α) :
    undoAll l (change rows) = change (undoAll l rows) := by
  induction l generalizing rows with
  | nil => rfl
  | cons urec l ih =>
    rw [undoAll, List.foldl_cons, ← hapart urec List.mem_cons_self]
    exact ih (fun r hr => hapart r (List.mem_cons_of_mem _ hr)) (urec.act rows)

lemma others (h : RollbackInv e s stack base) {space : UndoContent α} {slots : RelBlock → List TD}
    {change : RelBlock → α → α} (hothers : Others e s space slots change) :
    RollbackInv e
      { s with
        space := space
        pages := fun block => ⟨slots block, change block (s.pages block).rows⟩
        clean := fun block => change block (s.clean block) } stack base where
  txn := by
    refine ⟨h.txn.suffix, h.txn.sorted, h.txn.own, h.txn.rel, h.txn.older, h.txn.chain, fun urec hmem => ?_, h.txn.low,
      h.txn.unstarted⟩
    rcases hothers.undo urec.urp with hsame | ⟨hunused, -⟩ | ⟨hgone, r, hrec, hfin⟩
    · exact (h.txn.stored urec hmem).imp hsame.trans fun hgone => ⟨hgone.1, hsame.trans hgone.2⟩
    · rcases h.txn.stored urec hmem with hrec | ⟨-, hgone⟩
      · rw [hunused] at hrec
        cases hrec
      · rw [hunused] at hgone
        cases hgone
    · rcases h.txn.stored urec hmem with hown | ⟨-, hold⟩
      · rw [hrec] at hown
        cases hown
        exact .inr ⟨hfin (h.txn.own urec hmem).1, hgone⟩
      · rw [hrec] at hold
        cases hold
  page block hpresent := by
    have hp := h.page block hpresent
    have hforeign : ∀ p, Foreign s.space e.xid p → Foreign space e.xid p := by
      intro p hold
      rcases hothers.undo p with hsame | ⟨hunused, -⟩ | ⟨hgone, -⟩
      · rwa [Foreign, hsame]
      · exact .inl ((used_of_foreign hold).resolve_right fun hused => hused hunused)
      · exact .inr (.inl hgone)
    constructor
    case stacked =>
      refine ⟨hp.stacked.chain, fun urec hmem => ?_, hforeign _ hp.stacked.foreign⟩
      have hfin := h.unfinished hpresent (List.ne_nil_of_mem hmem)
      obtain ⟨hxid, hzone, hvalid, hrec⟩ := hp.stacked.own urec hmem
      refine ⟨hxid, hzone, hvalid, ?_⟩
      rcases hothers.undo urec.urp with hsame | ⟨hunused, -⟩ | ⟨-, r, hr, hdone⟩
      · exact hsame.trans hrec
      · rw [hunused] at hrec
        cases hrec
      · rw [hrec] at hr
        cases hr
        exact Bool.noConfusion (hfin.symm.trans (hdone hxid))
    case sub => exact hp.sub
    case here => exact hp.here
    case slot =>
      have hslot := hp.slot
      cases hstack : stack block with
      | nil =>
        rw [hstack] at hslot
        intro td hmem hown
        obtain ⟨i, hi⟩ := List.mem_iff_getElem?.mp hmem
        exact hslot td (List.mem_of_getElem? ((hothers.own block i td hown).mp hi)) hown
      | cons top rest =>
        rw [hstack] at hslot
        obtain ⟨i, hi, huniq⟩ := hslot
        exact ⟨i, (hothers.own block i _ rfl).mpr hi,
          fun j td hj hown => huniq j td ((hothers.own block j td hown).mp hj) hown⟩
    case foreign =>
      intro i td hi hother
      rcases hothers.foreign block i td hi hother with hold | hnew
      · exact hforeign _ (hp.foreign i td hold hother)
      · exact hnew
    case rows =>
      dsimp only
      rw [undoAll_comm fun urec hmem rows => ?_, hp.rows]
      rw [← hp.here urec hmem]
      exact hothers.apart urec (hp.sub.subset hmem) rows
  aborted := h.aborted
  finished := h.finished
  driver d := by
    have hold := h.driver d
    refine hold.mono rfl rfl rfl id (fun _ => id) (fun block urp urecvec pre hpage => ?_) (fun _ _ _ => id)
      fun _ _ => List.suffix_refl _
    rw [show s.drivers d = _ from hpage] at hold
    exact hold.present
  panicked := h.panicked

lemma drop (h : RollbackInv e s stack base) {gone : RelBlock → Bool}
    (hmore : ∀ block, s.gone block = true → gone block = true)
    (hopen : ∀ d block urp urecvec pre, s.drivers d = .page block urp urecvec pre → gone block = false) :
    RollbackInv e { s with gone := gone } stack base where
  txn := h.txn
  page block hpresent := h.page block (hpresent.of_more hmore)
  aborted := h.aborted
  finished hfin block hpresent := h.finished hfin block (hpresent.of_more hmore)
  driver d := (h.driver d).mono rfl rfl rfl id hmore (hopen d) (fun _ _ _ => id)
    fun _ _ => List.suffix_refl _
  panicked := h.panicked

lemma step (h : RollbackInv e s stack base) (hskip : s.NoneSkipped) (hstep : RollbackStep e s s') :
    ∃ stack' base', RollbackInv e s' stack' base' := by
  cases hstep with
  | write urec rows i td hidle hactive hpresent hxid hzone hvalid hnew hunused hrel hprev hslot hblkprev hfree hact =>
    exact ⟨_, h.write hidle hactive hpresent hxid hzone hvalid hnew hunused hrel hprev hslot hblkprev hfree hact⟩
  | subStart d sub parent last hidle hactive htxn hlast => exact ⟨_, _, h.subStart hidle hactive htxn hlast⟩
  | abort hidle => exact ⟨_, _, h.abort hidle⟩
  | topStart d l toUrecptr urec hidle haborted hfrom hrecord => exact ⟨_, _, h.topStart haborted hfrom⟩
  | allFetch d fuel next urecvec hdriver hvalid hfetch hsome => exact ⟨_, _, h.allFetch hdriver hvalid hfetch⟩
  | allApply d hdriver hlast happly =>
    obtain ⟨stack', h⟩ := h.allApply hdriver hlast hskip happly
    exact ⟨stack', _, h⟩
  | allEnd d fuel next hdriver hdone => exact ⟨_, _, h.allEnd hdriver hdone⟩
  | pageStart d block i urp hidle haborted hpresent hslot => exact ⟨_, _, h.pageStart haborted hpresent hslot⟩
  | pageFetch d fuel next urecvec hdriver hvalid hfetch hsome => exact ⟨_, _, h.pageFetch hdriver hvalid hfetch hsome⟩
  | pageApply d hdriver happly =>
    obtain ⟨stack', h⟩ := h.pageApply hdriver happly
    exact ⟨stack', _, h⟩
  | pageEnd d fuel next hdriver hdone => exact ⟨_, _, h.pageEnd hdriver hdone⟩
  | others hothers => exact ⟨_, _, h.others hothers⟩
  | drop hmore hopen => exact ⟨_, _, h.drop hmore hopen⟩

/-- Before the transaction, no page has anything left of it. -/
lemma of_initial (h : s.Initial e) : RollbackInv e s (fun _ => []) fun _ => invalidUndoRecPtr where
  txn := by
    rw [h.txn, h.ended, h.start]
    exact ⟨List.suffix_refl _, List.Pairwise.nil, nofun, nofun, nofun, rfl, nofun, nofun, ⟨fun _ => rfl, fun _ => rfl⟩⟩
  page block _ := by
    refine ⟨⟨rfl, nofun, .inl rfl⟩, List.nil_sublist _, nofun, fun td hmem => ?_,
      fun i td hi _ => (h.slots block i td hi).2, h.rows block⟩
    obtain ⟨i, hi⟩ := List.mem_iff_getElem?.mp hmem
    exact (h.slots block i td hi).1
  aborted hfin := Bool.noConfusion (h.finished.symm.trans hfin)
  finished _ _ _ := rfl
  driver d := (congrArg (DriverOk e _ _ _ d) (h.idle d)).mpr trivial
  panicked := h.panicked

lemma of_run {s₀ : RollbackState α} (h₀ : s₀.Initial e)
    (hrun : Relation.ReflTransGen (SafeStep e) s₀ s) :
    ∃ stack base, RollbackInv e s stack base := by
  induction hrun with
  | refl => exact ⟨_, _, of_initial h₀⟩
  | tail hrun hstep ih =>
    obtain ⟨stack, base, h⟩ := ih
    exact h.step hstep.1 hstep.2

end RollbackInv

/-! ## Two runs -/

section runs

def readerBlock (blkno : Nat) : RelBlock := toLex (1663, toLex (16384, blkno))

/-- Every batch has one record. -/
def readerEnv : RollbackEnv := ⟨7, 0, fun _ => (1, 0), 100, by decide⟩

def readerStart : RollbackState (List Nat) where
  space _ := .unused
  pages _ := ⟨[⟨0, 0⟩], []⟩
  clean _ := []
  gone _ := false
  txn := []
  ended := []
  start := 0
  aborted := false
  finished := false
  panicked := false
  drivers _ := .idle

/-- The record of an insert into a page, which its undo takes back -/
def insertedRecord (blkno urp prevurp : Nat) : RollbackRecord (List Nat) :=
  { urp := urp, xid := 7, blkprev := 0, prevurp := prevurp, reloid := 1, partitionoid := 0, block := readerBlock blkno,
    memoryRecordSize := 100, act := List.tail }

lemma readerStart_initial : readerStart.Initial readerEnv where
  slots block i td hi := by
    obtain rfl : td = ⟨0, 0⟩ := List.mem_singleton.mp (List.mem_of_getElem? hi)
    exact ⟨by decide, .inl rfl⟩
  rows _ := rfl
  txn := rfl
  ended := rfl
  start := rfl
  aborted := rfl
  finished := rfl
  panicked := rfl
  idle _ := rfl

/-- The last call of the caller, if there was one, found its page. -/
def Driver.Found : Driver α → Prop
  | .all _ _ _ _ _ pre => pre.retCode ≠ .okNoexist
  | _ => True

lemma pageGroups_singleton (urec : RollbackRecord α) : pageGroups [urec] = [[urec]] := by
  rw [pageGroups, Lib.sortByKey_singleton]
  rfl

lemma exists_head {σ : Type*} {r : σ → σ → Prop} {P : σ → Prop} {s s₁ : σ} (hstep : r s s₁)
    (hrest : ∃ s', Relation.ReflTransGen r s₁ s' ∧ P s') : ∃ s', Relation.ReflTransGen r s s' ∧ P s' := by
  obtain ⟨s', hrun, hs'⟩ := hrest
  exact ⟨s', .head hstep hrun, hs'⟩

lemma safeStep_of_found (hfound : ∀ d, (s.drivers d).Found) (hstep : RollbackStep e s s') : SafeStep e s s' := by
  refine ⟨fun d parent toUrecptr urecPtr full group groups pre last hdriver _ hskip => ?_, hstep⟩
  have hpre := hfound d
  rw [hdriver] at hpre
  exact absurd hskip.2.2 hpre

lemma found_update {drivers : Nat → Driver α} (h : ∀ d, (drivers d).Found) (d : Nat) (driver : Driver α)
    (hdriver : driver.Found) : ∀ d', (update drivers d driver d').Found := by
  intro d'
  by_cases hd : d' = d
  · rw [hd, update_self]
    exact hdriver
  · rw [update_of_ne hd]
    exact h d'

/-- After the transaction has inserted into two pages and was aborted -/
def insertedState : RollbackState (List Nat) :=
  { readerStart with
    space := update (update readerStart.space 24 (.record (insertedRecord 0 24 0))) 124
      (.record (insertedRecord 1 124 24))
    pages := update (update readerStart.pages (readerBlock 0) ⟨[⟨7, 24⟩], [5]⟩) (readerBlock 1)
      ⟨[⟨7, 124⟩], [6]⟩
    txn := [insertedRecord 1 124 24, insertedRecord 0 24 0]
    ended := [insertedRecord 1 124 24, insertedRecord 0 24 0]
    start := 24
    aborted := true }

lemma inserted_run {P : RollbackState (List Nat) → Prop}
    (hrest : ∃ s', Relation.ReflTransGen (SafeStep readerEnv) insertedState s' ∧ P s') :
    ∃ s', Relation.ReflTransGen (SafeStep readerEnv) readerStart s' ∧ P s' := by
  have hidle : ∀ d, (readerStart.drivers d).Found := fun _ => trivial
  refine exists_head (safeStep_of_found hidle <|
    .write (insertedRecord 0 24 0) [5] 0 ⟨0, 0⟩ (fun _ => rfl) rfl rfl rfl rfl (by decide)
    (fun _ _ h => absurd rfl h) rfl rfl rfl rfl rfl (.inr (by decide)) rfl) ?_
  refine exists_head (safeStep_of_found hidle <|
    .write (insertedRecord 1 124 24) [6] 0 ⟨0, 0⟩ (fun _ => rfl) rfl rfl rfl rfl (by decide)
    (fun p _ h => ?_) rfl rfl rfl rfl rfl (.inr (by decide)) rfl) ?_
  · by_cases hp : p = 24
    · rw [hp]
      decide
    · exact absurd (update_of_ne hp _ _) h
  exact exists_head (safeStep_of_found hidle <| .abort fun _ => rfl) hrest

/-- The second page is rolled back by a worker and the first by its reader, after the worker has read the same record
as the reader. -/
lemma reader_run : ∃ s, Relation.ReflTransGen (SafeStep readerEnv) readerStart s ∧ s.finished = true ∧
    (∀ block, s.Present block) ∧ s.ended.length = 2 ∧ (s.pages (readerBlock 0)).slots = [⟨0, 0⟩] ∧
      (s.pages (readerBlock 1)).slots = [⟨0, 0⟩] := by
  refine inserted_run ?_
  have hidle : ∀ d, (insertedState.drivers d).Found := fun _ => trivial
  refine exists_head (safeStep_of_found hidle <| .pageStart 1 (readerBlock 0) 0 24 rfl rfl rfl rfl) ?_
  have hreader := found_update hidle 1 (.page (readerBlock 0) 24 none firstCall) trivial
  refine exists_head (safeStep_of_found hreader <|
    .pageFetch 1 2 0 [insertedRecord 0 24 0] rfl (by decide) rfl (List.cons_ne_nil _ _)) ?_
  replace hreader := found_update hreader 1 (.page (readerBlock 0) 0 (some [insertedRecord 0 24 0]) firstCall) trivial
  refine exists_head (safeStep_of_found hreader <|
    .topStart 0 _ 24 (insertedRecord 0 24 0) rfl rfl (.inl ⟨rfl, _, rfl, rfl⟩) rfl) ?_
  have hworker := found_update hreader 0 (.all none 24 124 false [] firstCall) RollbackReturn.noConfusion
  refine exists_head (safeStep_of_found hworker <|
    .allFetch 0 2 24 [insertedRecord 1 124 24] rfl (by decide) rfl (List.cons_ne_nil _ _)) ?_
  rw [pageGroups_singleton]
  replace hworker := found_update hworker 0 (.all none 24 24 false [[insertedRecord 1 124 24]] firstCall)
    RollbackReturn.noConfusion
  refine exists_head (safeStep_of_found hworker <| .allApply 0 rfl rfl rfl) ?_
  replace hworker := found_update hworker 0 (.all none 24 24 false [] ⟨.ok, 1, 0⟩) RollbackReturn.noConfusion
  refine exists_head (safeStep_of_found hworker <|
    .allFetch 0 2 0 [insertedRecord 0 24 0] rfl (by decide) rfl (List.cons_ne_nil _ _)) ?_
  rw [pageGroups_singleton]
  replace hworker := found_update hworker 0 (.all none 24 0 true [[insertedRecord 0 24 0]] ⟨.ok, 1, 0⟩)
    RollbackReturn.noConfusion
  refine exists_head (safeStep_of_found hworker <| .pageApply 1 rfl rfl) ?_
  replace hworker := found_update hworker 1 (.page (readerBlock 0) 0 none ⟨.ok, 1, 0⟩) trivial
  refine exists_head (safeStep_of_found hworker <| .pageEnd 1 0 0 rfl (.inl rfl)) ?_
  replace hworker := found_update hworker 1 .idle trivial
  refine exists_head (safeStep_of_found hworker <| .allApply 0 rfl rfl rfl) ?_
  replace hworker := found_update hworker 0 (.all none 24 0 true [] ⟨.err, 1, 0⟩) RollbackReturn.noConfusion
  refine exists_head (safeStep_of_found hworker <| .allEnd 0 0 0 rfl (.inl rfl)) ?_
  exact ⟨_, .refl, rfl, fun _ => rfl, rfl, rfl, rfl⟩

/-- The second page is not there any more, so that the worker passes over the first, which is. -/
theorem rollback_skips_page : ∃ s, Relation.ReflTransGen (RollbackStep readerEnv) insertedState s ∧
    s.Present (readerBlock 0) ∧ s.finished = true ∧ (s.pages (readerBlock 0)).slots = [⟨7, 24⟩] := by
  have hgone : ∀ block, insertedState.gone block = true → decide (block = readerBlock 1) = true :=
    fun _ h => Bool.noConfusion h
  have hopen : ∀ d block urp urecvec pre, insertedState.drivers d = .page block urp urecvec pre →
      decide (block = readerBlock 1) = false := fun _ _ _ _ _ h => Driver.noConfusion rfl (heq_of_eq h)
  refine exists_head (.drop hgone hopen) ?_
  refine exists_head (.topStart 0 _ 24 (insertedRecord 0 24 0) rfl rfl (.inl ⟨rfl, _, rfl, rfl⟩) rfl) ?_
  refine exists_head (.allFetch 0 2 24 [insertedRecord 1 124 24] rfl (by decide) rfl (List.cons_ne_nil _ _)) ?_
  rw [pageGroups_singleton]
  refine exists_head (.allApply 0 rfl rfl rfl) ?_
  refine exists_head (.allFetch 0 2 0 [insertedRecord 0 24 0] rfl (by decide) rfl (List.cons_ne_nil _ _)) ?_
  rw [pageGroups_singleton]
  refine exists_head (.allApply 0 rfl rfl rfl) ?_
  refine exists_head (.allEnd 0 0 0 rfl (.inl rfl)) ?_
  have hpresent : decide (readerBlock 0 = readerBlock 1) = false := by decide
  exact ⟨_, .refl, hpresent, rfl, rfl⟩

end runs

/-! ## The results -/

end GaussKernel.Undo
