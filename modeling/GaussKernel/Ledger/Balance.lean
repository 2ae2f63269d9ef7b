import GaussKernel.Ledger.Tables
import GaussKernel.Lib.Share
import GaussKernel.Lib.Trace
import Mathlib.Data.BitVec
import Mathlib.Tactic.LinearCombination
import Mathlib.Tactic.Ring

/-!
# The balance of a ledger table

A transaction changes rows of a ledger table, leaves a record of each change in the history table, and at the end of a
statement the sum of the changes in `gs_global_chain`; each of these is a step of its own. An archive folds the rows
that it sees into one and truncates the rest of the table, in one step, since it holds its locks until then and no
other session holds one between its steps.

The sums agree for every way in which the running transactions may end (`Outcome`), what a session still has to record
counted in. An archive keeps this only where it sees every row that may come to count.
-/

namespace GaussKernel.Ledger

open GaussKernel.Lib
open Function (update update_self update_of_ne)

structure UserRow where
  hash : Hash
  xmin : ℕ
  xmax : Option ℕ
  deriving DecidableEq

/-- A change that has no record yet: the hash of the new row, and of the old one. -/
structure Change where
  hashIns : Option Hash
  hashDel : Option Hash
  deriving DecidableEq

/-- The delta that `hist_table_record_insert`, `_delete` and `_update` return. -/
def Change.delta (c : Change) : Hash := c.hashIns.getD 0 - c.hashDel.getD 0

/-- A running transaction. -/
structure Session where
  xid : ℕ
  cid : ℕ
  pending : Option Change
  /-- The deltas of the statement so far, for `gs_global_chain`. -/
  modified : Option Hash
  archived : Bool
  deriving DecidableEq

def Session.stamp (ses : Session) : Stamp := ⟨ses.xid, ses.cid⟩

structure BalanceState where
  clog : Clog
  user : List UserRow
  hist : List HistRow
  chain : List ChainRow
  sessions : List Session

def BalanceState.start : BalanceState := ⟨fun _ => none, [], [], [], []⟩

/-! ## Steps -/

/-- A row that a transaction may delete: it sees the row, and no other transaction deletes it. -/
def Deletable (clog : Clog) (x : ℕ) (row : UserRow) : Prop :=
  (row.xmin = x ∨ clog row.xmin = some .committed) ∧ ∀ y, row.xmax = some y → clog y = some .aborted

/-- The change of one row of the ledger table. -/
inductive UserOp (clog : Clog) (x : ℕ) : List UserRow → Change → List UserRow → Prop where
  | insert {pre post : List UserRow} {hash : Hash} :
      UserOp clog x (pre ++ post) ⟨some hash, none⟩ (pre ++ ⟨hash, x, none⟩ :: post)
  | delete {pre post : List UserRow} {row : UserRow} (hrow : Deletable clog x row) :
      UserOp clog x (pre ++ row :: post) ⟨none, some row.hash⟩ (pre ++ { row with xmax := some x } :: post)
  | update {pre post pre' post' : List UserRow} {row : UserRow} {hash : Hash} (hrow : Deletable clog x row)
      (hplace : pre ++ { row with xmax := some x } :: post = pre' ++ post') :
      UserOp clog x (pre ++ row :: post) ⟨some hash, some row.hash⟩ (pre' ++ ⟨hash, x, none⟩ :: post')

inductive BalanceEvent
  | begin (x : ℕ)
  | command (ses : Session)
  | write (ses : Session)
  | record (ses : Session)
  | append (ses : Session)
  | other (ses : Session)
  | histArchive (ses : Session)
  | chainArchive (ses : Session)
  | commit (ses : Session)
  | abort (ses : Session)
  deriving DecidableEq

inductive BalanceStep (relid : ℕ) (s : BalanceState) : BalanceEvent → BalanceState → Prop where
  | begin {x : ℕ} (hnew : s.clog x = none) :
      BalanceStep relid s (.begin x)
        { s with clog := update s.clog x (some .inProgress)
                 sessions := ⟨x, 0, none, none, false⟩ :: s.sessions }
  | command {pre post : List Session} {ses : Session} (hses : s.sessions = pre ++ ses :: post) :
      BalanceStep relid s (.command ses) { s with sessions := pre ++ { ses with cid := ses.cid + 1 } :: post }
  | write {pre post : List Session} {ses : Session} {op : Change} {user : List UserRow}
      (hses : s.sessions = pre ++ ses :: post) (hpending : ses.pending = none)
      (hop : UserOp s.clog ses.xid s.user op user) :
      BalanceStep relid s (.write ses)
        { s with user := user, sessions := pre ++ { ses with pending := some op } :: post }
  /-- `hist_table_record_internal`, with the number that it drew. -/
  | record {pre post : List Session} {ses : Session} {op : Change} {recNum : ℕ} {rows rows' : List HistRow}
      (hses : s.sessions = pre ++ ses :: post) (hpending : ses.pending = some op) (hrows : s.hist = rows ++ rows') :
      BalanceStep relid s (.record ses)
        { s with hist := rows ++ ⟨recNum, op.hashIns, op.hashDel, ses.stamp⟩ :: rows'
                 sessions := pre ++
                   { ses with pending := none, modified := some (ses.modified.getD 0 + op.delta) } :: post }
  /-- `ledger_gchain_append` at the end of a statement. -/
  | append {pre post : List Session} {ses : Session} {relhash : Hash} {blocknum : ℕ} {rows rows' : List ChainRow}
      (hses : s.sessions = pre ++ ses :: post) (hpending : ses.pending = none) (hsum : ses.modified = some relhash)
      (hrows : s.chain = rows ++ rows') :
      BalanceStep relid s (.append ses)
        { s with chain := rows ++ ⟨blocknum, relid, relhash, ses.stamp⟩ :: rows'
                 sessions := pre ++ { ses with modified := none } :: post }
  /-- The same, at the end of a statement on another table. -/
  | other {pre post : List Session} {ses : Session} {relhash : Hash} {blocknum relid' : ℕ}
      {rows rows' : List ChainRow} (hses : s.sessions = pre ++ ses :: post) (hrel : relid' ≠ relid)
      (hrows : s.chain = rows ++ rows') :
      BalanceStep relid s (.other ses) { s with chain := rows ++ ⟨blocknum, relid', relhash, ses.stamp⟩ :: rows' }
  | histArchive {pre post : List Session} {ses : Session} {rows : List HistRow}
      (hses : s.sessions = pre ++ ses :: post) (hpending : ses.pending = none)
      (hrows : ledgerHistArchive s.clog ses.stamp s.hist = some rows) :
      BalanceStep relid s (.histArchive ses)
        { s with hist := rows, sessions := pre ++ { ses with archived := true } :: post }
  | chainArchive {pre post : List Session} {ses : Session} {rows : List ChainRow}
      (hses : s.sessions = pre ++ ses :: post) (hpending : ses.pending = none)
      (hrows : ledgerGchainArchive s.clog ses.stamp s.chain = some rows) :
      BalanceStep relid s (.chainArchive ses)
        { s with chain := rows, sessions := pre ++ { ses with archived := true } :: post }
  | commit {pre post : List Session} {ses : Session} (hses : s.sessions = pre ++ ses :: post)
      (hrun : s.clog ses.xid = some .inProgress) (hpending : ses.pending = none) (hsum : ses.modified = none) :
      BalanceStep relid s (.commit ses)
        { s with clog := update s.clog ses.xid (some .committed), sessions := pre ++ post }
  | abort {pre post : List Session} {ses : Session} (hses : s.sessions = pre ++ ses :: post)
      (hrun : s.clog ses.xid = some .inProgress) :
      BalanceStep relid s (.abort ses)
        { s with clog := update s.clog ses.xid (some .aborted), sessions := pre ++ post }

/-! ## The checks -/

/-- `gen_usertable_hash_sum`, with a snapshot of the committed rows. -/
def usertableHashSum (clog : Clog) (rows : List UserRow) : Hash :=
  ((rows.filter fun row => clog row.xmin = some .committed ∧ ∀ y ∈ row.xmax, clog y ≠ some .committed).map
    fun row => row.hash).sum

def histtableHashSum (clog : Clog) (rows : List HistRow) : Hash :=
  ((rows.filter fun row => clog row.stamp.xmin = some .committed).map
    fun row => row.hashIns.getD 0 - row.hashDel.getD 0).sum

def gchainRelhashSum (clog : Clog) (relid : ℕ) (rows : List ChainRow) : Hash :=
  ((rows.filter fun row => clog row.stamp.xmin = some .committed ∧ row.relid = relid).map fun row => row.relhash).sum

/-- `is_hist_hash_identity`, and so `ledger_hist_check`. -/
def isHistHashIdentity (s : BalanceState) : Bool := usertableHashSum s.clog s.user = histtableHashSum s.clog s.hist

def ledgerGchainCheck (relid : ℕ) (s : BalanceState) : Bool :=
  isHistHashIdentity s && histtableHashSum s.clog s.hist = gchainRelhashSum s.clog relid s.chain

/-- Every row of an archived table is seen by the archive or is of no account, and what was archived is not undone. -/
def BalanceSafe (relid : ℕ) (s : BalanceState) : BalanceEvent → Prop
  | .histArchive ses => ∀ row ∈ s.hist,
      satisfiesNow s.clog ses.stamp row.stamp ∨ s.clog row.stamp.xmin = some .aborted
  | .chainArchive ses => ∀ row ∈ s.chain, row.relid = relid →
      satisfiesNow s.clog ses.stamp row.stamp ∨ s.clog row.stamp.xmin = some .aborted
  | .abort ses => ses.archived = false
  | _ => True

/-! ## Outcomes -/

/-- A way in which every transaction may end. Those that ended stay as they are, and one that archived commits. -/
structure Outcome (p : ℕ → Bool) (clog : Clog) (sessions : List Session) : Prop where
  committed : ∀ x, clog x = some .committed → p x = true
  aborted : ∀ x, clog x = some .aborted → p x = false
  archived : ∀ ses ∈ sessions, ses.archived = true → p ses.xid = true

def counted (p : ℕ → Bool) (x : ℕ) (hash : Hash) : Hash := if p x then hash else 0

def UserRow.share (p : ℕ → Bool) (row : UserRow) : Hash :=
  counted p row.xmin row.hash - row.xmax.elim 0 fun y => counted p y row.hash

def HistRow.share (p : ℕ → Bool) (row : HistRow) : Hash :=
  counted p row.stamp.xmin (row.hashIns.getD 0 - row.hashDel.getD 0)

def ChainRow.share (relid : ℕ) (p : ℕ → Bool) (row : ChainRow) : Hash :=
  if row.relid = relid then counted p row.stamp.xmin row.relhash else 0

/-- What a session still has to record in the history table. -/
def Session.histShare (p : ℕ → Bool) (ses : Session) : Hash := counted p ses.xid (ses.pending.elim 0 Change.delta)

/-- What it still has to append to the global chain. -/
def Session.chainShare (p : ℕ → Bool) (ses : Session) : Hash :=
  counted p ses.xid (ses.pending.elim 0 Change.delta + ses.modified.getD 0)

structure Balanced (relid : ℕ) (s : BalanceState) : Prop where
  hist : ∀ p, Outcome p s.clog s.sessions →
    total (HistRow.share p) s.hist + total (Session.histShare p) s.sessions = total (UserRow.share p) s.user
  chain : ∀ p, Outcome p s.clog s.sessions →
    total (ChainRow.share relid p) s.chain + total (Session.chainShare p) s.sessions = total (UserRow.share p) s.user
  /-- Only rows that were inserted for good, or by the same transaction, are deleted. -/
  deleted : ∀ row ∈ s.user, ∀ y, row.xmax = some y → row.xmin = y ∨ s.clog row.xmin = some .committed

variable {relid x : ℕ} {p : ℕ → Bool} {clog : Clog} {s s' : BalanceState}

lemma counted_of_true {hash : Hash} (hp : p x = true) : counted p x hash = hash := if_pos hp

lemma counted_of_false {hash : Hash} (hp : p x = false) : counted p x hash = 0 := if_neg (by rw [hp]; decide)

lemma counted_add (a b : Hash) : counted p x (a + b) = counted p x a + counted p x b := by
  cases hp : p x with
  | true => rw [counted_of_true hp, counted_of_true hp, counted_of_true hp]
  | false => rw [counted_of_false hp, counted_of_false hp, counted_of_false hp, add_zero]

lemma counted_sub (a b : Hash) : counted p x (a - b) = counted p x a - counted p x b := by
  cases hp : p x with
  | true => rw [counted_of_true hp, counted_of_true hp, counted_of_true hp]
  | false => rw [counted_of_false hp, counted_of_false hp, counted_of_false hp, sub_zero]

lemma counted_zero : counted p x 0 = 0 := ite_self 0

/-- An outcome of the sessions after one of them went on. -/
lemma Outcome.replace {pre post : List Session} {ses ses' : Session} (h : Outcome p clog (pre ++ ses' :: post))
    (hxid : ses'.xid = ses.xid) (harch : ses.archived = true → ses'.archived = true) :
    Outcome p clog (pre ++ ses :: post) := by
  refine ⟨h.committed, h.aborted, fun other hother hold => ?_⟩
  rcases List.mem_append.mp hother with hpre | hpost
  · exact h.archived other (List.mem_append_left _ hpre) hold
  · rcases List.mem_cons.mp hpost with rfl | hpost
    · rw [← hxid]
      exact h.archived ses' (List.mem_append_right _ List.mem_cons_self) (harch hold)
    · exact h.archived other (List.mem_append_right _ (List.mem_cons_of_mem _ hpost)) hold

/-! ## Changes of the table -/

lemma UserRow.share_new (hash : Hash) : UserRow.share p ⟨hash, x, none⟩ = counted p x hash := sub_zero _

/-- A deleted row loses its share if the deletion counts; the transaction that tried before is gone. -/
lemma UserRow.share_delete {row : UserRow} (habort : ∀ y, clog y = some .aborted → p y = false)
    (hrow : Deletable clog x row) :
    UserRow.share p { row with xmax := some x } = UserRow.share p row - counted p x row.hash := by
  have hold : (row.xmax.elim 0 fun y => counted p y row.hash) = 0 := by
    cases hmax : row.xmax with
    | none => rfl
    | some y => exact counted_of_false (habort y (hrow.2 y hmax))
  unfold UserRow.share
  rw [hold, sub_zero]
  rfl

variable {rows : List UserRow} {me : Stamp}

lemma total_userOp {rows' : List UserRow} {op : Change} (habort : ∀ y, clog y = some .aborted → p y = false)
    (hop : UserOp clog x rows op rows') :
    total (UserRow.share p) rows' = total (UserRow.share p) rows + counted p x op.delta := by
  cases hop with
  | @insert pre post hash =>
    have hdelta : Change.delta ⟨some hash, none⟩ = hash := sub_zero hash
    rw [total_middle, UserRow.share_new, hdelta, add_comm]
  | @delete pre post row hrow =>
    have hdelta : Change.delta ⟨none, some row.hash⟩ = 0 - row.hash := rfl
    rw [total_middle, total_middle, UserRow.share_delete habort hrow, hdelta, counted_sub, counted_zero]
    ring
  | @update pre post pre' post' row hash hrow hplace =>
    have hdelta : Change.delta ⟨some hash, some row.hash⟩ = hash - row.hash := rfl
    rw [total_middle, UserRow.share_new, ← hplace, total_middle, total_middle, UserRow.share_delete habort hrow, hdelta,
      counted_sub]
    ring

lemma UserOp.deleted {rows' : List UserRow} {op : Change} (hop : UserOp clog x rows op rows')
    (h : ∀ row ∈ rows, ∀ y, row.xmax = some y → row.xmin = y ∨ clog row.xmin = some .committed) :
    ∀ row ∈ rows', ∀ y, row.xmax = some y → row.xmin = y ∨ clog row.xmin = some .committed := by
  have hset : ∀ {pre post : List UserRow} {row : UserRow}, Deletable clog x row →
      (∀ row' ∈ pre ++ row :: post, ∀ y, row'.xmax = some y → row'.xmin = y ∨ clog row'.xmin = some .committed) →
      ∀ row' ∈ pre ++ { row with xmax := some x } :: post, ∀ y, row'.xmax = some y →
        row'.xmin = y ∨ clog row'.xmin = some .committed := by
    intro pre post row hrow h row' hmem y hy
    rcases List.mem_append.mp hmem with hpre | hpost
    · exact h row' (List.mem_append_left _ hpre) y hy
    · rcases List.mem_cons.mp hpost with rfl | hpost
      · exact Option.some_inj.mp hy ▸ hrow.1
      · exact h row' (List.mem_append_right _ (List.mem_cons_of_mem _ hpost)) y hy
  have hnew : ∀ {pre post : List UserRow} {hash : Hash},
      (∀ row ∈ pre ++ post, ∀ y, row.xmax = some y → row.xmin = y ∨ clog row.xmin = some .committed) →
      ∀ row ∈ pre ++ ⟨hash, x, none⟩ :: post, ∀ y, row.xmax = some y →
        row.xmin = y ∨ clog row.xmin = some .committed := by
    intro pre post hash h row hmem y hy
    rcases List.mem_append.mp hmem with hpre | hpost
    · exact h row (List.mem_append_left _ hpre) y hy
    · rcases List.mem_cons.mp hpost with rfl | hpost
      · exact (nomatch hy)
      · exact h row (List.mem_append_right _ hpost) y hy
  cases hop with
  | insert => exact hnew h
  | delete hrow => exact hset hrow h
  | update hrow hplace => exact hnew (hplace ▸ hset hrow h)

/-! ## Archives -/

/-- Rows that an archive sees count, if what the archive does counts. -/
lemma xmin_counts {row : Stamp} (hp : p me.xmin = true) (hcommit : ∀ y, clog y = some .committed → p y = true)
    (hsee : satisfiesNow clog me row = true) : p row.xmin = true := by
  rw [satisfiesNow, Bool.or_eq_true, Bool.and_eq_true, decide_eq_true_eq, decide_eq_true_eq] at hsee
  rcases hsee with hcommitted | ⟨hown, -⟩
  · exact hcommit _ hcommitted
  · rw [hown, hp]

/-- What the archive does not see has no share, and what it sees it takes over. -/
lemma total_ledgerHistArchive {rows rows' : List HistRow} (hp : p me.xmin = true)
    (hcommit : ∀ y, clog y = some .committed → p y = true) (habort : ∀ y, clog y = some .aborted → p y = false)
    (hsafe : ∀ row ∈ rows, satisfiesNow clog me row.stamp ∨ clog row.stamp.xmin = some .aborted)
    (h : ledgerHistArchive clog me rows = some rows') :
    total (HistRow.share p) rows' = total (HistRow.share p) rows := by
  have hseen : total (HistRow.share p) rows =
      total (fun row => row.hashIns.getD 0 - row.hashDel.getD 0) (seenRows clog me rows) := by
    refine total_filter (fun row _ hsee => ?_) fun row hrow hsee => ?_
    · exact counted_of_true (xmin_counts hp hcommit hsee)
    · exact counted_of_false (habort _ ((hsafe row hrow).resolve_left (by rw [hsee]; decide)))
  obtain ⟨-, rfl⟩ := ledgerHistArchive_cases h
  rw [hseen, total_sub, total_cons, total_nil, add_zero]
  exact counted_of_true hp

lemma total_unifyChain {seen : List ChainRow} (hp : p me.xmin = true) {relids : List ℕ} (hnodup : relids.Nodup)
    (taken : ℕ) :
    total (ChainRow.share relid p) (unifyChain seen me taken relids) =
      if relid ∈ relids then total (fun row => row.relhash) (seen.filter fun row => row.relid = relid) else 0 := by
  induction relids generalizing taken with
  | nil => rfl
  | cons r rest ih =>
    obtain ⟨hfirst, hrest⟩ := List.nodup_cons.mp hnodup
    rw [unifyChain, total_cons, ih hrest]
    by_cases hr : r = relid
    · subst hr
      rw [if_neg hfirst, if_pos List.mem_cons_self, add_zero]
      exact (if_pos rfl).trans (counted_of_true hp)
    · have hshare : ChainRow.share relid p
        ⟨u64 (taken + (seen.filter fun row => row.relid = r).length + (2 ^ 64 - 1)), r,
          ((seen.filter fun row => row.relid = r).map fun row => row.relhash).sum, me⟩ = 0 := if_neg hr
      have hmem : relid ∈ r :: rest ↔ relid ∈ rest := by
        rw [List.mem_cons, or_iff_right (Ne.symm hr)]
      rw [hshare, zero_add]
      exact (if_congr hmem rfl rfl).symm

lemma total_ledgerGchainArchive {rows rows' : List ChainRow} (hp : p me.xmin = true)
    (hcommit : ∀ y, clog y = some .committed → p y = true) (habort : ∀ y, clog y = some .aborted → p y = false)
    (hsafe : ∀ row ∈ rows, row.relid = relid → satisfiesNow clog me row.stamp ∨ clog row.stamp.xmin = some .aborted)
    (h : ledgerGchainArchive clog me rows = some rows') :
    total (ChainRow.share relid p) rows' = total (ChainRow.share relid p) rows := by
  have hseen : total (ChainRow.share relid p) rows =
      total (fun row => row.relhash) ((seenChain clog me rows).filter fun row => row.relid = relid) := by
    rw [seenChain, List.filter_filter]
    refine total_filter (fun row _ hsee => ?_) fun row hrow hsee => ?_
    · rw [Bool.and_eq_true, decide_eq_true_eq] at hsee
      exact (if_pos hsee.1).trans (counted_of_true (xmin_counts hp hcommit hsee.2))
    · by_cases hrel : row.relid = relid
      · rw [decide_eq_true hrel, Bool.true_and] at hsee
        have hgone := (hsafe row hrow hrel).resolve_left (by rw [hsee]; decide)
        exact (if_pos hrel).trans (counted_of_false (habort _ hgone))
      · exact if_neg hrel
  obtain ⟨-, rfl⟩ := ledgerGchainArchive_cases h
  have hnodup : (userRelArr (seenChain clog me rows)).reverse.Nodup := by
    rw [List.nodup_reverse, userRelArr, List.nodup_reverse]
    exact List.nodup_dedup _
  rw [hseen, total_unifyChain hp hnodup]
  by_cases hmem : relid ∈ (userRelArr (seenChain clog me rows)).reverse
  · exact if_pos hmem
  · have hnil : (seenChain clog me rows).filter (fun row => row.relid = relid) = [] := by
      rw [List.filter_eq_nil_iff]
      intro row hrow hrel
      refine hmem ?_
      rw [userRelArr, List.reverse_reverse, List.mem_dedup, List.mem_reverse]
      exact List.mem_map.mpr ⟨row, hrow, of_decide_eq_true hrel⟩
    rw [if_neg hmem, hnil, total_nil]

/-! ## Steps keep the balance -/

/-- A session went on. What it put into a table, it no longer owes; what it changed in the rows, it owes. -/
lemma Balanced.replace {pre post : List Session} {ses ses' : Session} {user : List UserRow} {hist : List HistRow}
    {chain : List ChainRow} (h : Balanced relid s) (hses : s.sessions = pre ++ ses :: post) (hxid : ses'.xid = ses.xid)
    (harch : ses.archived = true → ses'.archived = true)
    (hhist : ∀ p, Outcome p s.clog s.sessions → (ses'.archived = true → p ses.xid = true) →
      total (HistRow.share p) hist + ses'.histShare p + total (UserRow.share p) s.user =
        total (HistRow.share p) s.hist + ses.histShare p + total (UserRow.share p) user)
    (hchain : ∀ p, Outcome p s.clog s.sessions → (ses'.archived = true → p ses.xid = true) →
      total (ChainRow.share relid p) chain + ses'.chainShare p + total (UserRow.share p) s.user =
        total (ChainRow.share relid p) s.chain + ses.chainShare p + total (UserRow.share p) user)
    (hdel : ∀ row ∈ user, ∀ y, row.xmax = some y → row.xmin = y ∨ s.clog row.xmin = some .committed) :
    Balanced relid ⟨s.clog, user, hist, chain, pre ++ ses' :: post⟩ := by
  have hkeep : ∀ p, Outcome p s.clog (pre ++ ses' :: post) →
      Outcome p s.clog s.sessions ∧ (ses'.archived = true → p ses.xid = true) := by
    intro p hp
    refine ⟨hses ▸ hp.replace hxid harch, fun ha => ?_⟩
    rw [← hxid]
    exact hp.archived ses' (List.mem_append_right _ List.mem_cons_self) ha
  refine ⟨fun p hp => ?_, fun p hp => ?_, hdel⟩
  · obtain ⟨hp', ha⟩ := hkeep p hp
    have hold := h.hist p hp'
    have hnew := hhist p hp' ha
    rw [hses, total_middle] at hold
    rw [total_middle]
    linear_combination hold + hnew
  · obtain ⟨hp', ha⟩ := hkeep p hp
    have hold := h.chain p hp'
    have hnew := hchain p hp' ha
    rw [hses, total_middle] at hold
    rw [total_middle]
    linear_combination hold + hnew

/-- A session ended and owes nothing. -/
lemma Balanced.finish {pre post : List Session} {ses : Session} {status : XactStatus} (h : Balanced relid s)
    (hses : s.sessions = pre ++ ses :: post) (hrun : s.clog ses.xid = some .inProgress)
    (hold : ∀ p, Outcome p (update s.clog ses.xid (some status)) (pre ++ post) →
      (ses.archived = true → p ses.xid = true) ∧ ses.histShare p = 0 ∧ ses.chainShare p = 0) :
    Balanced relid { s with clog := update s.clog ses.xid (some status), sessions := pre ++ post } := by
  have hclog : ∀ y st, s.clog y = some st → st ≠ .inProgress →
      update s.clog ses.xid (some status) y = some st := by
    intro y st hy hne
    rw [update_of_ne _, hy]
    rintro rfl
    exact hne (Option.some_inj.mp (hy.symm.trans hrun))
  have hback : ∀ p, Outcome p (update s.clog ses.xid (some status)) (pre ++ post) →
      Outcome p s.clog s.sessions := by
    intro p hp
    refine ⟨fun y hy => hp.committed y (hclog y _ hy (by decide)), fun y hy => hp.aborted y (hclog y _ hy (by decide)),
      fun other hother ha => ?_⟩
    rw [hses] at hother
    rcases List.mem_append.mp hother with hpre | hpost
    · exact hp.archived other (List.mem_append_left _ hpre) ha
    · rcases List.mem_cons.mp hpost with rfl | hpost
      · exact (hold p hp).1 ha
      · exact hp.archived other (List.mem_append_right _ hpost) ha
  refine ⟨fun p hp => ?_, fun p hp => ?_, fun row hrow y hy => ?_⟩
  · have := h.hist p (hback p hp)
    rwa [hses, total_middle, (hold p hp).2.1, zero_add] at this
  · have := h.chain p (hback p hp)
    rwa [hses, total_middle, (hold p hp).2.2, zero_add] at this
  · exact (h.deleted row hrow y hy).imp_right fun hcommit => hclog _ _ hcommit (by decide)

lemma Balanced.begin (h : Balanced relid s) (hnew : s.clog x = none) :
    Balanced relid { s with clog := update s.clog x (some .inProgress)
                            sessions := ⟨x, 0, none, none, false⟩ :: s.sessions } := by
  have hclog : ∀ y st, s.clog y = some st → update s.clog x (some .inProgress) y = some st := by
    intro y st hy
    rw [update_of_ne _, hy]
    rintro rfl
    exact (nomatch hnew.symm.trans hy)
  have hback : ∀ p, Outcome p (update s.clog x (some .inProgress)) (⟨x, 0, none, none, false⟩ :: s.sessions) →
      Outcome p s.clog s.sessions := fun p hp =>
    ⟨fun y hy => hp.committed y (hclog y _ hy), fun y hy => hp.aborted y (hclog y _ hy),
      fun ses hses => hp.archived ses (List.mem_cons_of_mem _ hses)⟩
  have hnone : ∀ p, Session.histShare p ⟨x, 0, none, none, false⟩ = 0 := fun p => counted_zero
  have hnone' : ∀ p, Session.chainShare p ⟨x, 0, none, none, false⟩ = 0 := fun p => counted_zero
  refine ⟨fun p hp => ?_, fun p hp => ?_, fun row hrow y hy => (h.deleted row hrow y hy).imp_right (hclog _ _)⟩
  · rw [total_cons, hnone, zero_add]
    exact h.hist p (hback p hp)
  · rw [total_cons, hnone', zero_add]
    exact h.chain p (hback p hp)

lemma Balanced.step {e : BalanceEvent} (h : Balanced relid s) (hsafe : BalanceSafe relid s e)
    (hstep : BalanceStep relid s e s') : Balanced relid s' := by
  cases hstep with
  | begin hnew => exact h.begin hnew
  | command hses => exact h.replace hses rfl id (fun _ _ _ => rfl) (fun _ _ _ => rfl) h.deleted
  | @write pre post ses op user hses hpending hop =>
    have howe : ∀ p, Outcome p s.clog s.sessions →
        total (UserRow.share p) user = total (UserRow.share p) s.user + counted p ses.xid op.delta :=
      fun p hp => total_userOp hp.aborted hop
    refine h.replace hses rfl id (fun p hp _ => ?_) (fun p hp _ => ?_) (hop.deleted h.deleted)
    · rw [howe p hp, Session.histShare, Session.histShare, hpending]
      simp only [Option.elim, counted_zero]
      ring
    · rw [howe p hp, Session.chainShare, Session.chainShare, hpending]
      simp only [Option.elim, counted_add, counted_zero]
      ring
  | @record pre post ses op recNum rows rows' hses hpending hrows =>
    refine h.replace hses rfl id (fun p _ _ => ?_) (fun p _ _ => ?_) h.deleted
    · have hrow : HistRow.share p ⟨recNum, op.hashIns, op.hashDel, ses.stamp⟩ = counted p ses.xid op.delta := rfl
      rw [total_middle, hrows, hrow, Session.histShare, Session.histShare, hpending]
      simp only [Option.elim, counted_zero]
      ring
    · rw [Session.chainShare, Session.chainShare, hpending]
      simp only [Option.elim, Option.getD_some, counted_add, counted_zero]
      ring
  | @append pre post ses relhash blocknum rows rows' hses hpending hsum hrows =>
    refine h.replace hses rfl id (fun _ _ _ => rfl) (fun p _ _ => ?_) h.deleted
    have hrow : ChainRow.share relid p ⟨blocknum, relid, relhash, ses.stamp⟩ = counted p ses.xid relhash := if_pos rfl
    rw [total_middle, hrows, hrow, Session.chainShare, Session.chainShare, hpending, hsum]
    simp only [Option.elim, Option.getD_some, Option.getD_none, counted_add, counted_zero]
    ring
  | @other pre post ses relhash blocknum relid' rows rows' hses hrel hrows =>
    rw [hses]
    refine h.replace hses rfl id (fun _ _ _ => rfl) (fun p _ _ => ?_) h.deleted
    have hrow : ChainRow.share relid p ⟨blocknum, relid', relhash, ses.stamp⟩ = 0 := if_neg hrel
    rw [total_middle, hrows, hrow, zero_add]
  | @histArchive pre post ses rows hses hpending hrows =>
    refine h.replace hses rfl (fun _ => rfl) (fun p hp ha => ?_) (fun _ _ _ => rfl) h.deleted
    rw [total_ledgerHistArchive (ha rfl) hp.committed hp.aborted hsafe hrows]
    rfl
  | @chainArchive pre post ses rows hses hpending hrows =>
    refine h.replace hses rfl (fun _ => rfl) (fun _ _ _ => rfl) (fun p hp ha => ?_) h.deleted
    rw [total_ledgerGchainArchive (ha rfl) hp.committed hp.aborted hsafe hrows]
    rfl
  | @commit pre post ses hses hrun hpending hsum =>
    refine h.finish hses hrun fun p hp => ⟨fun _ => hp.committed _ (update_self _ _ _), ?_, ?_⟩
    · rw [Session.histShare, hpending]
      exact counted_zero
    · rw [Session.chainShare, hpending, hsum]
      exact counted_zero
  | @abort pre post ses hses hrun =>
    have hkept : ses.archived = false := hsafe
    refine h.finish hses hrun fun p hp => ⟨fun ha => absurd ha (by rw [hkept]; decide), ?_, ?_⟩
    · exact counted_of_false (hp.aborted _ (update_self _ _ _))
    · exact counted_of_false (hp.aborted _ (update_self _ _ _))

lemma balanced_start : Balanced relid .start := ⟨fun _ _ => rfl, fun _ _ => rfl, fun _ hrow => (nomatch hrow)⟩

/-- A step that meets the condition. -/
def SafeBalanceStep (relid : ℕ) (s : BalanceState) (e : BalanceEvent) (s' : BalanceState) : Prop :=
  BalanceStep relid s e s' ∧ BalanceSafe relid s e

lemma Balanced.run {es : List BalanceEvent} (h : Trace (SafeBalanceStep relid) .start es s) : Balanced relid s :=
  Trace.invariant (fun hinv hstep => hinv.step hstep.2 hstep.1) h balanced_start

/-! ## The sums -/

/-- Once all have ended, the outcome is what the clog says. -/
def committedNow (clog : Clog) (x : ℕ) : Bool := clog x = some .committed

lemma outcome_now (hend : s.sessions = []) : Outcome (committedNow s.clog) s.clog s.sessions := by
  refine ⟨fun x hx => decide_eq_true hx, fun x hx => ?_, fun ses hses => ?_⟩
  · rw [committedNow, hx]
    rfl
  · rw [hend] at hses
    cases hses

lemma histtableHashSum_eq (rows : List HistRow) :
    histtableHashSum clog rows = total (HistRow.share (committedNow clog)) rows := by
  refine (total_filter (fun row _ h => ?_) fun row _ h => ?_).symm
  · exact counted_of_true h
  · exact counted_of_false h

lemma gchainRelhashSum_eq (rows : List ChainRow) :
    gchainRelhashSum clog relid rows = total (ChainRow.share relid (committedNow clog)) rows := by
  refine (total_filter (fun row _ h => ?_) fun row _ h => ?_).symm
  · obtain ⟨hcommit, hrel⟩ := of_decide_eq_true h
    exact (if_pos hrel).trans (counted_of_true (decide_eq_true hcommit))
  · by_cases hrel : row.relid = relid
    · have hcommit : ¬ clog row.stamp.xmin = some .committed := fun hc => of_decide_eq_false h ⟨hc, hrel⟩
      exact (if_pos hrel).trans (counted_of_false (decide_eq_false hcommit))
    · exact if_neg hrel

lemma usertableHashSum_eq (hdel : ∀ row ∈ rows, ∀ y, row.xmax = some y → row.xmin = y ∨
    clog row.xmin = some .committed) :
    usertableHashSum clog rows = total (UserRow.share (committedNow clog)) rows := by
  refine (total_filter (fun row _ h => ?_) fun row hrow h => ?_).symm
  · obtain ⟨hcommit, hmax⟩ := of_decide_eq_true h
    have hcount : counted (committedNow clog) row.xmin row.hash = row.hash := counted_of_true (decide_eq_true hcommit)
    rw [UserRow.share, hcount]
    cases hxmax : row.xmax with
    | none => exact sub_zero _
    | some y =>
      have : counted (committedNow clog) y row.hash = 0 := counted_of_false (decide_eq_false (hmax y hxmax))
      exact (congrArg (row.hash - ·) this).trans (sub_zero _)
  · rw [UserRow.share]
    by_cases hcommit : clog row.xmin = some .committed
    · cases hxmax : row.xmax with
      | none => exact absurd ⟨hcommit, fun y hy => (nomatch hxmax.symm.trans hy)⟩ (of_decide_eq_false h)
      | some y =>
        have hy : clog y = some .committed := by
          by_contra hne
          exact of_decide_eq_false h ⟨hcommit, fun z hz => Option.some_inj.mp (hxmax.symm.trans hz) ▸ hne⟩
        rw [counted_of_true (decide_eq_true hcommit)]
        exact (congrArg (row.hash - ·) (counted_of_true (decide_eq_true hy))).trans (sub_self _)
    · rw [counted_of_false (decide_eq_false hcommit), zero_sub]
      cases hxmax : row.xmax with
      | none => exact neg_zero
      | some y =>
        have hy : row.xmin = y := (hdel row hrow y hxmax).resolve_right hcommit
        exact (congrArg Neg.neg (counted_of_false (decide_eq_false (hy ▸ hcommit)))).trans neg_zero

/-- Once all transactions have ended, the checks report no tampering. -/
theorem ledger_balanced {relid : ℕ} {es : List BalanceEvent} {s : BalanceState}
    (h : Trace (SafeBalanceStep relid) .start es s) (hend : s.sessions = []) :
    usertableHashSum s.clog s.user = histtableHashSum s.clog s.hist ∧
      usertableHashSum s.clog s.user = gchainRelhashSum s.clog relid s.chain ∧
      isHistHashIdentity s = true ∧ ledgerGchainCheck relid s = true := by
  have hbal := Balanced.run h
  have hout := outcome_now hend
  have hhist : usertableHashSum s.clog s.user = histtableHashSum s.clog s.hist := by
    rw [usertableHashSum_eq hbal.deleted, histtableHashSum_eq, ← hbal.hist _ hout, hend, total_nil, add_zero]
  have hchain : usertableHashSum s.clog s.user = gchainRelhashSum s.clog relid s.chain := by
    rw [usertableHashSum_eq hbal.deleted, gchainRelhashSum_eq, ← hbal.chain _ hout, hend, total_nil, add_zero]
  have hident : isHistHashIdentity s = true := decide_eq_true hhist
  exact ⟨hhist, hchain, hident, Bool.and_eq_true_iff.mpr ⟨hident, decide_eq_true (hhist.symm.trans hchain)⟩⟩

/-- A row that one transaction inserts, and the archives of another. -/
theorem ledger_balanced_archived :
    ∃ s : BalanceState, s.sessions = [] ∧ usertableHashSum s.clog s.user = 7 ∧ isHistHashIdentity s = true ∧
      ledgerGchainCheck 1 s = true := by
  have hrun : ∃ es s, Trace (SafeBalanceStep 1) .start es s ∧ s.sessions = [] ∧ usertableHashSum s.clog s.user = 7 := by
    refine ⟨_, _, .cons ⟨.begin (x := 0) rfl, trivial⟩
      (.cons ⟨@BalanceStep.write 1 _ [] [] ⟨0, 0, none, none, false⟩ _ _ rfl rfl (@UserOp.insert _ _ [] [] 7), trivial⟩
      (.cons ⟨@BalanceStep.record 1 _ [] [] _ _ 0 [] [] rfl rfl rfl, trivial⟩
      (.cons ⟨@BalanceStep.append 1 _ [] [] _ _ 0 [] [] rfl rfl rfl rfl, trivial⟩
      (.cons ⟨@BalanceStep.commit 1 _ [] [] _ rfl rfl rfl rfl, trivial⟩
      (.cons ⟨.begin (x := 1) rfl, trivial⟩
      (.cons ⟨@BalanceStep.histArchive 1 _ [] [] _ _ rfl rfl rfl, ?_⟩
      (.cons ⟨@BalanceStep.chainArchive 1 _ [] [] _ [⟨0, 1, 7, ⟨1, 0⟩⟩] rfl rfl (by decide), ?_⟩
      (.cons ⟨@BalanceStep.commit 1 _ [] [] _ rfl rfl rfl rfl, trivial⟩ (.nil _))))))))), rfl, by decide⟩
    · intro row hrow
      obtain rfl := List.mem_singleton.mp hrow
      exact .inl rfl
    · intro row hrow _
      obtain rfl := List.mem_singleton.mp hrow
      exact .inl rfl
  obtain ⟨es, s, h, hend, hsum⟩ := hrun
  exact ⟨s, hend, hsum, (ledger_balanced h hend).2.2⟩

/-- Transaction 1 has its record out, but has not ended, when transaction 2 archives the history table. -/
theorem ledger_unbalanced :
    ¬ ∀ (relid : ℕ) (es : List BalanceEvent) (s : BalanceState), Trace (BalanceStep relid) .start es s →
      s.sessions = [] → usertableHashSum s.clog s.user = histtableHashSum s.clog s.hist ∧
        usertableHashSum s.clog s.user = gchainRelhashSum s.clog relid s.chain ∧
        isHistHashIdentity s = true ∧ ledgerGchainCheck relid s = true := by
  intro h
  have hrun : ∃ es s, Trace (BalanceStep 1) .start es s ∧ s.sessions = [] ∧ isHistHashIdentity s = false := by
    exact ⟨_, _, .cons (.begin (x := 0) rfl)
      (.cons (@BalanceStep.write 1 _ [] [] ⟨0, 0, none, none, false⟩ _ _ rfl rfl (@UserOp.insert _ _ [] [] 5))
      (.cons (@BalanceStep.record 1 _ [] [] _ _ 0 [] [] rfl rfl rfl)
      (.cons (@BalanceStep.append 1 _ [] [] _ _ 0 [] [] rfl rfl rfl rfl)
      (.cons (@BalanceStep.commit 1 _ [] [] _ rfl rfl rfl rfl)
      (.cons (.begin (x := 1) rfl)
      (.cons (@BalanceStep.write 1 _ [] [] _ _ _ rfl rfl (@UserOp.insert _ _ [] [⟨5, 0, none⟩] 6))
      (.cons (@BalanceStep.record 1 _ [] [] _ _ 1 [] [⟨0, some 5, none, ⟨0, 0⟩⟩] rfl rfl rfl)
      (.cons (.begin (x := 2) rfl)
      (.cons (@BalanceStep.histArchive 1 _ [] [⟨1, 0, none, some 6, false⟩] _ [⟨0, some 5, some 0, ⟨2, 0⟩⟩] rfl rfl
        (by decide))
      (.cons (@BalanceStep.commit 1 _ [] [⟨1, 0, none, some 6, false⟩] _ rfl rfl rfl rfl)
      (.cons (@BalanceStep.append 1 _ [] [] _ _ 1 [] [⟨0, 1, 5, ⟨0, 0⟩⟩] rfl rfl rfl rfl)
      (.cons (@BalanceStep.commit 1 _ [] [] _ rfl rfl rfl rfl) (.nil _))))))))))))), rfl, by decide⟩
  obtain ⟨es, s, htrace, hend, hbad⟩ := hrun
  exact Bool.noConfusion (hbad.symm.trans (h 1 es s htrace hend).2.2.1)

end GaussKernel.Ledger
