import Mathlib.Data.BitVec
import Mathlib.Data.List.Dedup

/-!
# The tables of the ledger

Every change of a ledger table leaves a record in its history table, and every statement one in `gs_global_chain`. Both
are archived from time to time: what the archiving command sees is unified into one row (`gs_global_chain`: one for each
relation), and the rest of the table is truncated with it.

The scans of these functions read with `SnapshotNow`, which sees the rows of committed transactions and those of the
reader's own earlier commands, or with `SnapshotAny`, which sees every row.
-/

namespace GaussKernel.Ledger

abbrev Hash := BitVec 64

inductive XactStatus
  | inProgress
  | committed
  | aborted
  deriving DecidableEq

/-- What became of each transaction; `none` has not begun. -/
abbrev Clog := ℕ → Option XactStatus

/-- A transaction and one of its commands. -/
structure Stamp where
  xmin : ℕ
  cmin : ℕ
  deriving DecidableEq

/-- `HeapTupleSatisfiesNow`, of a row that nobody deletes. -/
def satisfiesNow (clog : Clog) (me row : Stamp) : Bool :=
  clog row.xmin = some .committed || (row.xmin = me.xmin && row.cmin < me.cmin)

/-- A row whose transaction did not abort. -/
def isLive (clog : Clog) (row : Stamp) : Bool := clog row.xmin ≠ some .aborted

def u64 (n : ℕ) : ℕ := n % 2 ^ 64

/-! ## History tables -/

structure HistRow where
  recNum : ℕ
  hashIns : Option Hash
  hashDel : Option Hash
  stamp : Stamp
  deriving DecidableEq

def seenRows (clog : Clog) (me : Stamp) (rows : List HistRow) : List HistRow :=
  rows.filter fun row => satisfiesNow clog me row.stamp

/-- The running greatest number of a scan, and whether no row was seen. -/
def maxRecNum (rows : List HistRow) : ℕ × Bool :=
  rows.foldl (fun acc row => if acc.1 ≤ row.recNum then (row.recNum, false) else acc) (0, true)

/-- `reload_g_rec_num`: the number returned, and the one left in the cache. -/
def reloadGRecNum (clog : Clog) (me : Stamp) (rows : List HistRow) : ℕ × ℕ :=
  let (maxRecNum, histEmpty) := maxRecNum (seenRows clog me rows)
  let recNum := if histEmpty then 0 else u64 (maxRecNum + 1)
  (recNum, u64 (recNum + 1))

/-- `ledger_hist_archive`: the table afterwards, unless it was empty. -/
def ledgerHistArchive (clog : Clog) (me : Stamp) (rows : List HistRow) : Option (List HistRow) :=
  let seen := seenRows clog me rows
  if seen = [] then none
  else some [{
    recNum := (maxRecNum seen).1
    hashIns := some (seen.map fun row => row.hashIns.getD 0).sum
    hashDel := some (seen.map fun row => row.hashDel.getD 0).sum
    stamp := me }]

/-- What an archive of a history table does when it succeeds. -/
lemma ledgerHistArchive_cases {clog : Clog} {me : Stamp} {rows rows' : List HistRow}
    (h : ledgerHistArchive clog me rows = some rows') :
    seenRows clog me rows ≠ [] ∧ rows' =
      [⟨(maxRecNum (seenRows clog me rows)).1,
        some ((seenRows clog me rows).map fun row => row.hashIns.getD 0).sum,
        some ((seenRows clog me rows).map fun row => row.hashDel.getD 0).sum, me⟩] := by
  unfold ledgerHistArchive at h
  dsimp only at h
  split at h
  · cases h
  · next hseen => exact ⟨hseen, (Option.some_inj.mp h).symm⟩

/-! ## The global chain -/

structure ChainRow where
  blocknum : ℕ
  relid : ℕ
  relhash : Hash
  stamp : Stamp
  deriving DecidableEq

/-- The scan of `reload_next_g_blocknum`, from the end of the table: it stops at the first number that is not greater. -/
def scanBackward : ℕ → List ℕ → ℕ
  | maxNum, [] => maxNum
  | maxNum, blocknum :: rest =>
    if maxNum < blocknum % 2 ^ 32 then scanBackward (blocknum % 2 ^ 32) rest else maxNum

def reloadNextGBlocknum (rows : List ChainRow) : ℕ := scanBackward 0 (rows.map fun row => row.blocknum).reverse

/-- A `uint32` that went through an `int` to a `uint64`. -/
def intToU64 (n : ℕ) : ℕ := if n < 2 ^ 31 then n else 2 ^ 64 - 2 ^ 32 + n

def seenChain (clog : Clog) (me : Stamp) (rows : List ChainRow) : List ChainRow :=
  rows.filter fun row => satisfiesNow clog me row.stamp

/-- The unified rows of `ledger_gchain_archive`, the last relation first; the block number counts the rows taken in. -/
def unifyChain (seen : List ChainRow) (me : Stamp) : ℕ → List ℕ → List ChainRow
  | _, [] => []
  | taken, relid :: relids =>
    let ofRel := seen.filter fun row => row.relid = relid
    { blocknum := u64 (taken + ofRel.length + (2 ^ 64 - 1))
      relid := relid
      relhash := (ofRel.map fun row => row.relhash).sum
      stamp := me } :: unifyChain seen me (taken + ofRel.length) relids

/-- The relations in the order in which the rows first name them. -/
def userRelArr (seen : List ChainRow) : List ℕ := (seen.map fun row => row.relid).reverse.dedup.reverse

/-- `ledger_gchain_archive`: the table afterwards, unless it was empty. -/
def ledgerGchainArchive (clog : Clog) (me : Stamp) (rows : List ChainRow) : Option (List ChainRow) :=
  let seen := seenChain clog me rows
  if userRelArr seen = [] then none else some (unifyChain seen me 0 (userRelArr seen).reverse)

/-- What an archive of the global chain does when it succeeds. -/
lemma ledgerGchainArchive_cases {clog : Clog} {me : Stamp} {rows rows' : List ChainRow}
    (h : ledgerGchainArchive clog me rows = some rows') :
    userRelArr (seenChain clog me rows) ≠ [] ∧
      rows' = unifyChain (seenChain clog me rows) me 0 (userRelArr (seenChain clog me rows)).reverse := by
  unfold ledgerGchainArchive at h
  dsimp only at h
  split at h
  · cases h
  · next hseen => exact ⟨hseen, (Option.some_inj.mp h).symm⟩

end GaussKernel.Ledger
