import GaussKernel.Lib.Trace
import Mathlib.Data.List.TakeWhile
import Mathlib.Tactic

/-!
# The log of commit sequence numbers

Every transaction has an entry of 64 bits, which holds its commit sequence number, the link of a subtransaction to its
parent, or the mark that the commit has begun. A commit sets the entries of its tree twice, page by page: first to the
mark, the subtransactions linked to the top transaction, then to the number. A reader that meets a marked link goes on
with the parent.

A commit is the list of its writes of single entries, which `CSNLogSetCSN` does one at a time, and a lookup is a
sequence of reads of single entries; `CommitStep` interleaves them.
-/

namespace GaussKernel.Transam

open GaussKernel.Lib

abbrev TransactionId := BitVec 64
abbrev CommitSeqNo := BitVec 64

def InvalidTransactionId : TransactionId := 0
def BootstrapTransactionId : TransactionId := 1
def FirstNormalTransactionId : TransactionId := 3
/-- The first four bits are reserved. -/
def MaxTransactionId : TransactionId := 0xFFFFFFFFFFFFFFF

def InvalidCommitSeqNo : CommitSeqNo := 0
def COMMITSEQNO_INPROGRESS : CommitSeqNo := 0
def COMMITSEQNO_ABORTED : CommitSeqNo := 1
def COMMITSEQNO_FROZEN : CommitSeqNo := 2
def COMMITSEQNO_FIRST_NORMAL : CommitSeqNo := 3
def COMMITSEQNO_COMMIT_INPROGRESS : CommitSeqNo := BitVec.twoPow 64 62
def COMMITSEQNO_SUBTRANS_BIT : CommitSeqNo := BitVec.twoPow 64 63
def MAX_COMMITSEQNO : CommitSeqNo := BitVec.twoPow 64 60 - 1
def COMMITSEQNO_RESERVE_MASK : CommitSeqNo := ~~~MAX_COMMITSEQNO

def isAborted (csn : CommitSeqNo) : Prop := csn = COMMITSEQNO_ABORTED

def isCommitted (csn : CommitSeqNo) : Prop :=
  COMMITSEQNO_FROZEN ≤ csn &&& MAX_COMMITSEQNO ∧ csn &&& COMMITSEQNO_RESERVE_MASK = 0

def isCommitting (csn : CommitSeqNo) : Prop := csn &&& COMMITSEQNO_COMMIT_INPROGRESS = COMMITSEQNO_COMMIT_INPROGRESS

def isSubtrans (csn : CommitSeqNo) : Prop := csn &&& COMMITSEQNO_SUBTRANS_BIT = COMMITSEQNO_SUBTRANS_BIT

def getParentXid (csn : CommitSeqNo) : TransactionId := csn &&& MAX_COMMITSEQNO

instance (csn : CommitSeqNo) : Decidable (isAborted csn) := inferInstanceAs (Decidable (_ = _))
instance (csn : CommitSeqNo) : Decidable (isCommitted csn) := inferInstanceAs (Decidable (_ ∧ _))
instance (csn : CommitSeqNo) : Decidable (isCommitting csn) := inferInstanceAs (Decidable (_ = _))
instance (csn : CommitSeqNo) : Decidable (isSubtrans csn) := inferInstanceAs (Decidable (_ = _))

/-! ## Entries -/

def CSNLOG_XACTS_PER_PAGE : ℕ := 1024

def csnPage (xid : TransactionId) : ℕ := xid.toNat / CSNLOG_XACTS_PER_PAGE

def csnPgIndex (xid : TransactionId) : ℕ := xid.toNat % CSNLOG_XACTS_PER_PAGE

/-- The entries of all pages. -/
abbrev CsnLog := ℕ → ℕ → CommitSeqNo

def CsnLog.entry (log : CsnLog) (xid : TransactionId) : CommitSeqNo := log (csnPage xid) (csnPgIndex xid)

def CsnLog.set (log : CsnLog) (pageno entryno : ℕ) (csn : CommitSeqNo) : CsnLog := fun p e =>
  if p = pageno ∧ e = entryno then csn else log p e

structure CsnWrite where
  pageno : ℕ
  xid : TransactionId
  csn : CommitSeqNo
  deriving DecidableEq

/-- `CSNLogSetCSN`; no result is the panic. -/
def csnLogSetCSN (log : CsnLog) (w : CsnWrite) : Option CsnLog :=
  let value := log w.pageno (csnPgIndex w.xid)
  if (isCommitted value ∧ isAborted w.csn) ∨ (isAborted value ∧ isCommitted w.csn) then none
  else if isAborted value then some log
  else some (log.set w.pageno (csnPgIndex w.xid) w.csn)

/-- What the functions read of the node they run on. -/
structure NodeInfo where
  ssStandbyMode : Bool
  useLocalSnapshot : Bool
  isRoachStandbyCluster : Bool
  bootstrapMode : Bool

/-- `SubTransSetParent`. -/
def subTransSetParent (node : NodeInfo) (log : CsnLog) (xid parent : TransactionId) : CsnLog :=
  let newcsn := COMMITSEQNO_SUBTRANS_BIT ||| parent
  if node.ssStandbyMode then log
  else if log.entry xid ≠ newcsn ∧ log.entry xid ≠ newcsn ||| COMMITSEQNO_COMMIT_INPROGRESS then
    log.set (csnPage xid) (csnPgIndex xid) newcsn
  else log

/-- The number that `CSNLogSetPageStatus` sets for a subtransaction. -/
def subCsn (csn : CommitSeqNo) (topxid : TransactionId) : CommitSeqNo :=
  if isCommitting csn then COMMITSEQNO_SUBTRANS_BIT ||| topxid ||| COMMITSEQNO_COMMIT_INPROGRESS else csn

/-- The writes of `CSNLogSetPageStatus`. -/
def csnLogSetPageStatus (node : NodeInfo) (xid : TransactionId) (subxids : List TransactionId) (csn : CommitSeqNo)
    (pageno : ℕ) (topxid : TransactionId) : List CsnWrite :=
  if node.ssStandbyMode then []
  else (if xid = InvalidTransactionId then [] else [⟨pageno, xid, csn⟩]) ++
    subxids.map fun s => ⟨pageno, s, subCsn csn topxid⟩

/-- The loop of `CSNLogSetCommitSeqNo`, with a bound on its rounds: the subtransactions on the page, then the rest. -/
def csnLogSetPages (node : NodeInfo) (csn : CommitSeqNo) (topxid : TransactionId) :
    ℕ → TransactionId → ℕ → List TransactionId → List CsnWrite
  | 0, _, _, _ => []
  | fuel + 1, xid, pageno, subxids =>
    csnLogSetPageStatus node xid (subxids.takeWhile fun s => csnPage s = pageno) csn pageno topxid ++
      match subxids.dropWhile fun s => csnPage s = pageno with
      | [] => []
      | s :: rest => csnLogSetPages node csn topxid fuel InvalidTransactionId (csnPage s) (s :: rest)

/-- The writes of `CSNLogSetCommitSeqNo`; no result is the error. -/
def csnLogSetCommitSeqNo (node : NodeInfo) (xid : TransactionId) (subxids : List TransactionId) (csn : CommitSeqNo) :
    Option (List CsnWrite) :=
  let writes := fun csn => csnLogSetPages node csn xid (subxids.length + 1) xid (csnPage xid) subxids
  if (node.useLocalSnapshot ∨ node.isRoachStandbyCluster) ∧ csn ≤ COMMITSEQNO_ABORTED then some []
  else if csn = InvalidCommitSeqNo ∨ xid = BootstrapTransactionId then
    if node.bootstrapMode then some (writes COMMITSEQNO_FROZEN) else none
  else some (writes csn)

/-- `InternalGetCommitSeqNo`. -/
def internalGetCommitSeqNo (log : CsnLog) (xid : TransactionId) : CommitSeqNo :=
  if xid < FirstNormalTransactionId then
    if xid = InvalidTransactionId then COMMITSEQNO_ABORTED else COMMITSEQNO_FROZEN
  else log.entry xid

/-- One level of `RecursiveGetCommitSeqNo`: the number it returns, or the parent it goes on with. -/
def recursiveGetCommitSeqNo (log : CsnLog) (xid : TransactionId) : CommitSeqNo ⊕ TransactionId :=
  let csn := internalGetCommitSeqNo log xid
  if isSubtrans csn ∧ isCommitting csn then .inr (getParentXid csn) else .inl csn

/-! ## Commits and lookups -/

/-- A top transaction and its committed subtransactions, each with its immediate parent. -/
structure XactTree where
  top : TransactionId
  subs : List TransactionId
  parent : TransactionId → TransactionId
  normal : FirstNormalTransactionId ≤ top
  follows : ∀ s ∈ subs, top < s
  nodup : subs.Nodup
  bound : ∀ x ∈ top :: subs, x ≤ MaxTransactionId
  parent_mem : ∀ s ∈ subs, parent s ∈ top :: subs
  parent_lt : ∀ s ∈ subs, parent s < s

/-- `CSNLogGetNestCommitSeqNo` under way: the entry it reads next, and how many it has read. -/
structure Lookup where
  xid : TransactionId
  reads : ℕ
  deriving DecidableEq

structure CommitState where
  log : CsnLog
  /-- The writes that the committer has done. -/
  done : ℕ
  lookups : ℕ → Option Lookup

inductive CommitEvent
  | write (n : ℕ)
  | call (reader : ℕ) (xid : TransactionId)
  | read (reader : ℕ)
  | ret (reader : ℕ) (csn : CommitSeqNo)
  deriving DecidableEq

inductive CommitStep (members : List TransactionId) (prog : List CsnWrite) :
    CommitState → CommitEvent → CommitState → Prop where
  | write {s : CommitState} {w : CsnWrite} {log : CsnLog} (hw : prog[s.done]? = some w)
      (hlog : csnLogSetCSN s.log w = some log) :
      CommitStep members prog s (.write s.done) { s with log := log, done := s.done + 1 }
  | call {s : CommitState} {reader : ℕ} {xid : TransactionId} (hxid : xid ∈ members)
      (hidle : s.lookups reader = none) :
      CommitStep members prog s (.call reader xid)
        { s with lookups := Function.update s.lookups reader (some ⟨xid, 0⟩) }
  | read {s : CommitState} {reader : ℕ} {look : Lookup} {parentXid : TransactionId}
      (hlook : s.lookups reader = some look) (hread : recursiveGetCommitSeqNo s.log look.xid = .inr parentXid) :
      CommitStep members prog s (.read reader)
        { s with lookups := Function.update s.lookups reader (some ⟨parentXid, look.reads + 1⟩) }
  | ret {s : CommitState} {reader : ℕ} {look : Lookup} {csn : CommitSeqNo}
      (hlook : s.lookups reader = some look) (hread : recursiveGetCommitSeqNo s.log look.xid = .inl csn) :
      CommitStep members prog s (.ret reader csn) { s with lookups := Function.update s.lookups reader none }

/-- The log after every subtransaction was registered, and before the commit. -/
def registered (node : NodeInfo) (t : XactTree) (order : List TransactionId) (log : CsnLog) : CsnLog :=
  order.foldl (fun log s => subTransSetParent node log s (t.parent s)) log

def commitStart (log : CsnLog) : CommitState := ⟨log, 0, fun _ => none⟩

/-! ## Bits of an entry -/

section Bits

variable {csn latest : CommitSeqNo} {xid : TransactionId}

/-- A parent link has the highest bit. -/
lemma isSubtrans_iff : isSubtrans csn ↔ csn.getLsbD 63 = true := by
  unfold isSubtrans COMMITSEQNO_SUBTRANS_BIT
  rw [BitVec.and_twoPow]
  split
  · rename_i h
    exact iff_of_true rfl h
  · rename_i h
    exact iff_of_false (by decide) h

/-- A commit in progress has the second bit. -/
lemma isCommitting_iff : isCommitting csn ↔ csn.getLsbD 62 = true := by
  unfold isCommitting COMMITSEQNO_COMMIT_INPROGRESS
  rw [BitVec.and_twoPow]
  split
  · rename_i h
    exact iff_of_true rfl h
  · rename_i h
    exact iff_of_false (by decide) h

/-- A transaction id has 60 bits. -/
lemma getLsbD_of_le_max {i : ℕ} (h : xid ≤ MaxTransactionId) (hi : 60 ≤ i) : xid.getLsbD i = false := by
  refine Nat.testBit_lt_two_pow (lt_of_lt_of_le ?_ (Nat.pow_le_pow_right (by norm_num) hi))
  have hle : xid.toNat ≤ MaxTransactionId.toNat := h
  have hmax : MaxTransactionId.toNat = 2 ^ 60 - 1 := by decide
  omega

/-- No reserved bit of a committed entry is set. -/
lemma isCommitted_high {i : ℕ} (h : isCommitted csn) (hmask : COMMITSEQNO_RESERVE_MASK.getLsbD i = true) :
    csn.getLsbD i = false := by
  have := congrArg (BitVec.getLsbD · i) h.2
  simpa [BitVec.getLsbD_and, hmask] using this

/-- A committed entry is not in progress. -/
lemma isCommitted_not_committing (h : isCommitted csn) : ¬ isCommitting csn := by
  rw [isCommitting_iff, isCommitted_high h (by decide)]
  decide

/-- A committed entry is no parent link. -/
lemma isCommitted_not_subtrans (h : isCommitted csn) : ¬ isSubtrans csn := by
  rw [isSubtrans_iff, isCommitted_high h (by decide)]
  decide

/-- A running transaction has no parent link. -/
lemma inprogress_not_subtrans : ¬ isSubtrans COMMITSEQNO_INPROGRESS := by decide

/-- A running transaction is not committed. -/
lemma inprogress_not_committed : ¬ isCommitted COMMITSEQNO_INPROGRESS := by decide

/-! ### The mark of a commit that has begun -/

/-- The mark of a commit in progress. -/
lemma mark_committing : isCommitting (COMMITSEQNO_COMMIT_INPROGRESS ||| latest) := by
  rw [isCommitting_iff, BitVec.getLsbD_or]
  rfl

/-- The mark is no parent link. -/
lemma mark_not_subtrans (h : COMMITSEQNO_COMMIT_INPROGRESS ||| latest ≤ COMMITSEQNO_SUBTRANS_BIT) :
    ¬ isSubtrans (COMMITSEQNO_COMMIT_INPROGRESS ||| latest) := by
  rw [isSubtrans_iff]
  intro hbit
  -- with both bits set the number is beyond the subtransaction bit
  have hmark : isCommitting (COMMITSEQNO_COMMIT_INPROGRESS ||| latest) := mark_committing
  have hcommitting := isCommitting_iff.1 hmark
  have hle : (COMMITSEQNO_COMMIT_INPROGRESS ||| latest).toNat ≤ 2 ^ 63 := h
  generalize COMMITSEQNO_COMMIT_INPROGRESS ||| latest = csn at *
  have h63 : 2 ^ 63 ≤ csn.toNat := Nat.ge_two_pow_of_testBit hbit
  have heq : csn.toNat = 2 ^ 63 := hle.antisymm h63
  have : csn.toNat.testBit 62 = true := hcommitting
  rw [heq] at this
  exact absurd this (by decide)

/-! ### Links -/

/-- A parent link is not marked at first. -/
lemma parentLink_not_committing (h : xid ≤ MaxTransactionId) : ¬ isCommitting (COMMITSEQNO_SUBTRANS_BIT ||| xid) := by
  rw [isCommitting_iff, BitVec.getLsbD_or, getLsbD_of_le_max h (by norm_num)]
  decide

/-- A parent link is one. -/
lemma parentLink_subtrans : isSubtrans (COMMITSEQNO_SUBTRANS_BIT ||| xid) := by
  rw [isSubtrans_iff, BitVec.getLsbD_or]
  rfl

/-- A marked link is a parent link. -/
lemma topLink_subtrans : isSubtrans (COMMITSEQNO_SUBTRANS_BIT ||| xid ||| COMMITSEQNO_COMMIT_INPROGRESS) := by
  rw [isSubtrans_iff, BitVec.getLsbD_or, BitVec.getLsbD_or]
  rfl

/-- A marked link is a commit in progress. -/
lemma topLink_committing : isCommitting (COMMITSEQNO_SUBTRANS_BIT ||| xid ||| COMMITSEQNO_COMMIT_INPROGRESS) := by
  rw [isCommitting_iff, BitVec.getLsbD_or, BitVec.getLsbD_or, Bool.or_eq_true]
  exact Or.inr rfl

/-- The mask keeps a transaction id. -/
lemma and_max (h : xid ≤ MaxTransactionId) : xid &&& MAX_COMMITSEQNO = xid := by
  apply BitVec.eq_of_toNat_eq
  have hle : xid.toNat ≤ MaxTransactionId.toNat := h
  have hmax : MaxTransactionId.toNat = 2 ^ 60 - 1 := by decide
  have hnat : MAX_COMMITSEQNO.toNat = 2 ^ 60 - 1 := by decide
  rw [BitVec.toNat_and, hnat, Nat.and_two_pow_sub_one_eq_mod, Nat.mod_eq_of_lt (by omega)]

/-- A marked link still names its parent. -/
lemma topLink_parent (h : xid ≤ MaxTransactionId) :
    getParentXid (COMMITSEQNO_SUBTRANS_BIT ||| xid ||| COMMITSEQNO_COMMIT_INPROGRESS) = xid := by
  have hsub : COMMITSEQNO_SUBTRANS_BIT &&& MAX_COMMITSEQNO = 0 := by decide
  have hmark : COMMITSEQNO_COMMIT_INPROGRESS &&& MAX_COMMITSEQNO = 0 := by decide
  rw [getParentXid, BitVec.and_or_distrib_right, BitVec.and_or_distrib_right, and_max h, hsub, hmark]
  simp

/-- A normal sequence number is a commit. -/
lemma normal_committed (hmax : csn ≤ MAX_COMMITSEQNO) (hnormal : COMMITSEQNO_FIRST_NORMAL ≤ csn) :
    isCommitted csn := by
  have hand : csn &&& MAX_COMMITSEQNO = csn := and_max hmax
  have hfrozen : COMMITSEQNO_FROZEN ≤ csn :=
    BitVec.le_trans (show COMMITSEQNO_FROZEN ≤ COMMITSEQNO_FIRST_NORMAL by decide) hnormal
  refine ⟨hand.symm ▸ hfrozen, ?_⟩
  rw [← hand, BitVec.and_assoc, COMMITSEQNO_RESERVE_MASK, BitVec.and_not_self]
  exact BitVec.and_zero

end Bits

/-! ## The writes of a commit -/

section Writes

variable {node : NodeInfo} {xid topxid : TransactionId} {subxids : List TransactionId} {csn : CommitSeqNo} {pageno : ℕ}

/-- The remaining ids are written in their order. -/
lemma csnLogSetPages_rest (hnode : node.ssStandbyMode = false) : ∀ {fuel : ℕ} {s : TransactionId}
    {rest : List TransactionId}, rest.length < fuel →
    csnLogSetPages node csn topxid fuel InvalidTransactionId (csnPage s) (s :: rest) =
      (s :: rest).map fun s => ⟨csnPage s, s, subCsn csn topxid⟩
  | fuel + 1, s, rest, hfuel => by
    have hsplit := List.takeWhile_append_dropWhile (p := fun s' => decide (csnPage s' = csnPage s)) (l := s :: rest)
    have hpage : ∀ s' ∈ (s :: rest).takeWhile fun s' => csnPage s' = csnPage s, csnPage s' = csnPage s := fun s' h => by
      simpa using List.mem_takeWhile_imp h
    have hwrites : csnLogSetPageStatus node InvalidTransactionId
      ((s :: rest).takeWhile fun s' => csnPage s' = csnPage s)
        csn (csnPage s) topxid = ((s :: rest).takeWhile fun s' => csnPage s' = csnPage s).map
          fun s => ⟨csnPage s, s, subCsn csn topxid⟩ := by
      rw [csnLogSetPageStatus, hnode, if_neg Bool.false_ne_true, if_pos rfl, List.nil_append]
      exact List.map_congr_left fun s' h => by rw [hpage s' h]
    have hlen : ((s :: rest).dropWhile fun s' => csnPage s' = csnPage s).length ≤ rest.length := by
      rw [List.dropWhile_cons_of_pos (by simp)]
      exact (List.dropWhile_sublist _).length_le
    rw [csnLogSetPages, hwrites]
    conv_rhs => rw [← hsplit, List.map_append]
    congr 1
    cases hrest : (s :: rest).dropWhile fun s' => csnPage s' = csnPage s with
    | nil => rfl
    | cons s' rest' =>
      rw [hrest, List.length_cons] at hlen
      exact csnLogSetPages_rest hnode (by omega)

/-- The writes of the loop, in the order of the tree: the page boundaries do not show. -/
lemma csnLogSetPages_eq (hnode : node.ssStandbyMode = false) (hxid : xid ≠ InvalidTransactionId) :
    csnLogSetPages node csn topxid (subxids.length + 1) xid pageno subxids =
      ⟨pageno, xid, csn⟩ :: subxids.map fun s => ⟨csnPage s, s, subCsn csn topxid⟩ := by
  have hsplit := List.takeWhile_append_dropWhile (p := fun s => decide (csnPage s = pageno)) (l := subxids)
  have hpage : ∀ s ∈ subxids.takeWhile fun s => csnPage s = pageno, csnPage s = pageno := fun s h => by
    simpa using List.mem_takeWhile_imp h
  have hwrites : csnLogSetPageStatus node xid (subxids.takeWhile fun s => csnPage s = pageno) csn pageno topxid =
      ⟨pageno, xid, csn⟩ :: (subxids.takeWhile fun s => csnPage s = pageno).map
        fun s => ⟨csnPage s, s, subCsn csn topxid⟩ := by
    rw [csnLogSetPageStatus, hnode, if_neg Bool.false_ne_true, if_neg hxid, List.singleton_append]
    congr 1
    exact List.map_congr_left fun s h => by rw [hpage s h]
  have hlen : (subxids.dropWhile fun s => csnPage s = pageno).length ≤ subxids.length :=
    (List.dropWhile_sublist _).length_le
  rw [csnLogSetPages, hwrites, List.cons_append]
  conv_rhs => rw [← hsplit, List.map_append]
  congr 2
  cases hrest : subxids.dropWhile fun s => csnPage s = pageno with
  | nil => rfl
  | cons s rest =>
    rw [hrest, List.length_cons] at hlen
    exact csnLogSetPages_rest hnode (by omega)

/-- A number that is neither invalid nor aborted is written to the whole tree. -/
lemma csnLogSetCommitSeqNo_eq (subxids : List TransactionId) (hnode : node.ssStandbyMode = false)
    (hxid : FirstNormalTransactionId ≤ xid) (hcsn : ¬ csn ≤ COMMITSEQNO_ABORTED) :
    csnLogSetCommitSeqNo node xid subxids csn =
      some (⟨csnPage xid, xid, csn⟩ :: subxids.map fun s => ⟨csnPage s, s, subCsn csn xid⟩) := by
  have hinvalid : xid ≠ InvalidTransactionId := by
    rintro rfl
    exact absurd hxid (by decide)
  have hboot : xid ≠ BootstrapTransactionId := by
    rintro rfl
    exact absurd hxid (by decide)
  have hzero : csn ≠ InvalidCommitSeqNo := by
    rintro rfl
    exact absurd (by decide : InvalidCommitSeqNo ≤ COMMITSEQNO_ABORTED) hcsn
  unfold csnLogSetCommitSeqNo
  dsimp only
  rw [if_neg fun h => hcsn h.2, if_neg (not_or.2 ⟨hzero, hboot⟩), csnLogSetPages_eq hnode hinvalid]

end Writes

section Entries

variable {log : CsnLog} {xid xid' : TransactionId} {csn : CommitSeqNo}

/-- Different ids have different entries. -/
lemma address_inj (hpage : csnPage xid = csnPage xid') (hindex : csnPgIndex xid = csnPgIndex xid') : xid = xid' := by
  apply BitVec.eq_of_toNat_eq
  unfold csnPage csnPgIndex at *
  rw [← Nat.div_add_mod xid.toNat CSNLOG_XACTS_PER_PAGE, hpage, hindex, Nat.div_add_mod]

/-- The entry that was written is read back. -/
@[simp]
lemma entry_set_self : (log.set (csnPage xid) (csnPgIndex xid) csn).entry xid = csn := if_pos ⟨rfl, rfl⟩

/-- The other entries are kept. -/
lemma entry_set_ne (h : xid ≠ xid') : (log.set (csnPage xid) (csnPgIndex xid) csn).entry xid' = log.entry xid' :=
  if_neg fun ⟨hpage, hindex⟩ => h (address_inj hpage.symm hindex.symm)

/-- A write neither panics nor is skipped where the entry and the number are not aborted. -/
lemma csnLogSetCSN_eq (hvalue : ¬ isAborted (log.entry xid)) (hcsn : ¬ isAborted csn) :
    csnLogSetCSN log ⟨csnPage xid, xid, csn⟩ = some (log.set (csnPage xid) (csnPgIndex xid) csn) := by
  unfold csnLogSetCSN
  dsimp only
  rw [if_neg (not_or.2 ⟨fun h => hcsn h.2, fun h => hvalue h.1⟩)]
  exact if_neg hvalue

/-- The parent link is written, or stood there already. -/
lemma subTransSetParent_entry {node : NodeInfo} {parent : TransactionId} (hnode : node.ssStandbyMode = false)
    (hvalue : log.entry xid = COMMITSEQNO_INPROGRESS ∨ log.entry xid = COMMITSEQNO_SUBTRANS_BIT ||| parent) :
    (subTransSetParent node log xid parent).entry xid = COMMITSEQNO_SUBTRANS_BIT ||| parent := by
  unfold subTransSetParent
  dsimp only
  rw [hnode, if_neg Bool.false_ne_true]
  split
  · exact entry_set_self
  · rename_i hkeep
    rcases hvalue with hzero | hlink
    · exfalso
      -- a fresh entry is no link
      have hsub : ∀ {x : CommitSeqNo}, log.entry xid = COMMITSEQNO_SUBTRANS_BIT ||| parent ||| x → False := by
        intro x heq
        have hbit : isSubtrans (log.entry xid) := by
          rw [heq, isSubtrans_iff, BitVec.getLsbD_or, BitVec.getLsbD_or]
          rfl
        rw [hzero] at hbit
        exact inprogress_not_subtrans hbit
      refine hkeep ⟨fun heq => hsub (x := 0) (by rw [heq]; simp), hsub⟩
    · exact hlink

/-- The links of the others are kept. -/
lemma subTransSetParent_ne {node : NodeInfo} {parent : TransactionId} (h : xid ≠ xid') :
    (subTransSetParent node log xid parent).entry xid' = log.entry xid' := by
  unfold subTransSetParent
  dsimp only
  split
  · rfl
  · split
    · exact entry_set_ne h
    · rfl

/-- Registering changes the entries of the subtransactions to their links, and no other entry. -/
lemma registered_entry {node : NodeInfo} {t : XactTree} (hnode : node.ssStandbyMode = false) :
    ∀ {order : List TransactionId} {log : CsnLog} {xid : TransactionId},
      log.entry xid = COMMITSEQNO_INPROGRESS ∨ log.entry xid = COMMITSEQNO_SUBTRANS_BIT ||| t.parent xid →
      (registered node t order log).entry xid =
        if xid ∈ order then COMMITSEQNO_SUBTRANS_BIT ||| t.parent xid else log.entry xid
  | [], log, xid, _ => rfl
  | s :: order, log, xid, hvalue => by
    show (registered node t order (subTransSetParent node log s (t.parent s))).entry xid = _
    by_cases hs : s = xid
    · subst hs
      have hlink := subTransSetParent_entry hnode hvalue
      rw [registered_entry hnode (Or.inr hlink), hlink, ite_self, if_pos List.mem_cons_self]
    · have hkeep : (subTransSetParent node log s (t.parent s)).entry xid = log.entry xid := subTransSetParent_ne hs
      rw [registered_entry hnode (hkeep ▸ hvalue), hkeep]
      simp [Ne.symm hs]

end Entries

end GaussKernel.Transam
