import GaussKernel.Ledger.Tables
import GaussKernel.Lib.Issued
import GaussKernel.Lib.Trace
import Mathlib.Tactic

/-!
# The numbers of the ledger

A history record gets its number from a cache that is filled from the table when the table has no entry in it, and a row
of `gs_global_chain` gets its block number from one counter that is filled where it is zero. The sections that a lock
protects are single steps here, with everything else of other sessions between them: between the two sections of
`get_next_recnum`, between drawing a number and inserting the row that carries it, and between the insertion and the end
of the transaction.

The numbers stay distinct in every run in which the counters are filled only from tables that show all that is out.
-/

namespace GaussKernel.Ledger

open GaussKernel.Lib
open Function (update update_self update_of_ne)

/-- What the two systems share: the transactions, each with the number of its current command. -/
structure Xacts where
  clog : Clog
  cid : ℕ → ℕ

def Xacts.running (xs : Xacts) (x : ℕ) : Prop := xs.clog x = some .inProgress

def Xacts.stamp (xs : Xacts) (x : ℕ) : Stamp := ⟨x, xs.cid x⟩

def Xacts.start : Xacts := ⟨fun _ => none, fun _ => 0⟩

def Xacts.set (xs : Xacts) (x : ℕ) (status : XactStatus) : Xacts :=
  { xs with clog := update xs.clog x (some status) }

def Xacts.nextCommand (xs : Xacts) (x : ℕ) : Xacts := { xs with cid := update xs.cid x (xs.cid x + 1) }

/-- After a restart the transactions that were running have aborted. -/
def Xacts.restart (xs : Xacts) : Xacts :=
  { xs with clog := fun x => if xs.clog x = some .inProgress then some .aborted else xs.clog x }

/-- How the transactions change, whatever the tables do. -/
inductive XactEvent
  | begin (x : ℕ)
  | command (x : ℕ)
  | commit (x : ℕ)
  | abort (x : ℕ)
  deriving DecidableEq

inductive XactStep (xs : Xacts) : XactEvent → Xacts → Prop where
  | begin {x : ℕ} (hnew : xs.clog x = none) : XactStep xs (.begin x) (xs.set x .inProgress)
  | command {x : ℕ} (hrun : xs.running x) : XactStep xs (.command x) (xs.nextCommand x)
  | commit {x : ℕ} (hrun : xs.running x) : XactStep xs (.commit x) (xs.set x .committed)
  | abort {x : ℕ} (hrun : xs.running x) : XactStep xs (.abort x) (xs.set x .aborted)

/-! ## Record numbers -/

/-- Where a session is in `hist_table_record_internal`. -/
inductive RecPhase
  | idle
  | missed (oid : ℕ)
  | holding (oid recNum : ℕ)
  deriving DecidableEq

structure RecState where
  xs : Xacts
  /-- `g_recnum_cache`. -/
  cache : ℕ → Option ℕ
  hist : ℕ → List HistRow
  phase : ℕ → RecPhase

def RecState.start : RecState := ⟨.start, fun _ => none, fun _ => [], fun _ => .idle⟩

inductive RecEvent
  | xact (e : XactEvent)
  | lookup (x oid : ℕ)
  | reload (x oid : ℕ)
  | insert (x : ℕ)
  | archive (x oid : ℕ)
  | restart
  deriving DecidableEq

inductive RecStep (s : RecState) : RecEvent → RecState → Prop where
  | xact {e : XactEvent} {xs : Xacts} (hstep : XactStep s.xs e xs)
      (hidle : ∀ x, e = .commit x → s.phase x = .idle) :
      RecStep s (.xact e)
        { s with xs := xs, phase := fun x => if e = .abort x then .idle else s.phase x }
  /-- The section under the shared lock of `get_next_recnum`, where the table has an entry. -/
  | found {x oid c : ℕ} (hrun : s.xs.running x) (hidle : s.phase x = .idle) (hcache : s.cache oid = some c) :
      RecStep s (.lookup x oid)
        { s with cache := update s.cache oid (some (u64 (c + 1)))
                 phase := update s.phase x (.holding oid c) }
  | missed {x oid : ℕ} (hrun : s.xs.running x) (hidle : s.phase x = .idle) (hcache : s.cache oid = none) :
      RecStep s (.lookup x oid) { s with phase := update s.phase x (.missed oid) }
  /-- The section under the exclusive lock: the cache is not looked at again. -/
  | reload {x oid : ℕ} (hrun : s.xs.running x) (hmissed : s.phase x = .missed oid) :
      RecStep s (.reload x oid)
        { s with cache := update s.cache oid (some (reloadGRecNum s.xs.clog (s.xs.stamp x) (s.hist oid)).2)
                 phase := update s.phase x
                   (.holding oid (reloadGRecNum s.xs.clog (s.xs.stamp x) (s.hist oid)).1) }
  | insert {x oid n : ℕ} {ins del : Option Hash} {pre post : List HistRow} (hrun : s.xs.running x)
      (hhold : s.phase x = .holding oid n) (hrows : s.hist oid = pre ++ post) :
      RecStep s (.insert x)
        { s with hist := update s.hist oid (pre ++ ⟨n, ins, del, s.xs.stamp x⟩ :: post)
                 phase := update s.phase x .idle }
  | archive {x oid : ℕ} {rows : List HistRow} (hrun : s.xs.running x) (hidle : s.phase x = .idle)
      (hrows : ledgerHistArchive s.xs.clog (s.xs.stamp x) (s.hist oid) = some rows) :
      RecStep s (.archive x oid)
        { s with hist := update s.hist oid rows, cache := update s.cache oid none }
  | restart :
      RecStep s .restart { s with xs := s.xs.restart, cache := fun _ => none, phase := fun _ => .idle }

def RecPhase.hand (oid : ℕ) : RecPhase → Option ℕ
  | .holding oid' n => if oid' = oid then some n else none
  | _ => none

/-- The number of a table that a session holds. -/
def RecState.hand (s : RecState) (oid x : ℕ) : Option ℕ := (s.phase x).hand oid

/-- The numbers of the records that are committed or in progress. -/
def liveRecNums (clog : Clog) (rows : List HistRow) : List ℕ :=
  (rows.filter fun row => isLive clog row.stamp).map fun row => row.recNum

def RecState.live (s : RecState) (oid : ℕ) : List ℕ := liveRecNums s.xs.clog (s.hist oid)

/-- A number of the table that was given out and not given up. -/
def RecState.IsOut (s : RecState) (oid n : ℕ) : Prop := (∃ x, s.hand oid x = some n) ∨ n ∈ s.live oid

/-- The numbers come to their end nowhere, and a table is read only where it shows the numbers that are out. -/
def RecSafe (s : RecState) : RecEvent → Prop
  | .lookup _ oid => ∀ c, s.cache oid = some c → c + 1 < 2 ^ 64
  | .reload x oid => (∀ row ∈ s.hist oid, row.recNum + 2 < 2 ^ 64) ∧
      ∀ n, s.IsOut oid n → ∃ row ∈ seenRows s.xs.clog (s.xs.stamp x) (s.hist oid), n ≤ row.recNum
  | _ => True

/-! ## Block numbers -/

/-- Where a session is in `get_next_g_blocknum` and the insertion after it. -/
inductive BlockPhase
  | idle
  | wantInit
  | wantFetch
  | holding (blocknum : ℕ)
  deriving DecidableEq

structure ChainState where
  xs : Xacts
  gBlocknum : ℕ
  gchain : List ChainRow
  phase : ℕ → BlockPhase

def ChainState.start : ChainState := ⟨.start, 0, [], fun _ => .idle⟩

inductive ChainEvent
  | xact (e : XactEvent)
  | check (x : ℕ)
  | init (x : ℕ)
  | fetch (x : ℕ)
  | insert (x : ℕ)
  | archive (x : ℕ)
  | restart
  deriving DecidableEq

inductive ChainStep (s : ChainState) : ChainEvent → ChainState → Prop where
  | xact {e : XactEvent} {xs : Xacts} (hstep : XactStep s.xs e xs)
      (hidle : ∀ x, e = .commit x → s.phase x = .idle) :
      ChainStep s (.xact e)
        { s with xs := xs, phase := fun x => if e = .abort x then .idle else s.phase x }
  /-- The first look at the counter, without a lock. -/
  | check {x : ℕ} (hrun : s.xs.running x) (hidle : s.phase x = .idle) :
      ChainStep s (.check x)
        { s with phase := update s.phase x (if s.gBlocknum = 0 then .wantInit else .wantFetch) }
  /-- The section under the exclusive lock. -/
  | init {x : ℕ} (hrun : s.xs.running x) (hwant : s.phase x = .wantInit) :
      ChainStep s (.init x)
        { s with gBlocknum := if s.gBlocknum = 0 then u64 (1 + intToU64 (reloadNextGBlocknum s.gchain)) else s.gBlocknum
                 phase := update s.phase x .wantFetch }
  /-- The section under the shared lock. -/
  | fetch {x : ℕ} (hrun : s.xs.running x) (hwant : s.phase x = .wantFetch) :
      ChainStep s (.fetch x)
        { s with gBlocknum := u64 (s.gBlocknum + 1)
                 phase := update s.phase x (.holding s.gBlocknum) }
  | insert {x n relid : ℕ} {relhash : Hash} {pre post : List ChainRow} (hrun : s.xs.running x)
      (hhold : s.phase x = .holding n) (hrows : s.gchain = pre ++ post) :
      ChainStep s (.insert x)
        { s with gchain := pre ++ ⟨n, relid, relhash, s.xs.stamp x⟩ :: post
                 phase := update s.phase x .idle }
  | archive {x : ℕ} {rows : List ChainRow} (hrun : s.xs.running x) (hidle : s.phase x = .idle)
      (hrows : ledgerGchainArchive s.xs.clog (s.xs.stamp x) s.gchain = some rows) :
      ChainStep s (.archive x) { s with gchain := rows, gBlocknum := 0 }
  | restart : ChainStep s .restart { s with xs := s.xs.restart, gBlocknum := 0, phase := fun _ => .idle }

def BlockPhase.hand : BlockPhase → Option ℕ
  | .holding n => some n
  | _ => none

def ChainState.hand (s : ChainState) (x : ℕ) : Option ℕ := (s.phase x).hand

def liveBlocknums (clog : Clog) (rows : List ChainRow) : List ℕ :=
  (rows.filter fun row => isLive clog row.stamp).map fun row => row.blocknum

def ChainState.live (s : ChainState) : List ℕ := liveBlocknums s.xs.clog s.gchain

def ChainState.IsOut (s : ChainState) (n : ℕ) : Prop := (∃ x, s.hand x = some n) ∨ n ∈ s.live

/-- From a row that carries at least the number, the numbers fall strictly to the end of the table. -/
def ScanReaches (rows : List ChainRow) (n : ℕ) : Prop :=
  ∃ pre top post, rows = pre ++ top :: post ∧ n ≤ top.blocknum ∧
    (0 :: ((top :: post).map fun row => row.blocknum).reverse).Pairwise (· < ·)

/-- The counter is filled only where the scan comes to all numbers that are out, it is not drawn from after it was
reset and before it is filled, and no number in hand is among the ones that an archive gives to its rows. -/
def ChainSafe (s : ChainState) : ChainEvent → Prop
  | .init _ => s.gBlocknum = 0 → (∀ row ∈ s.gchain, row.blocknum < 2 ^ 31) ∧
      ∀ n, s.IsOut n → n = 0 ∨ ScanReaches s.gchain n
  | .fetch _ => s.gBlocknum ≠ 0 ∧ s.gBlocknum + 1 < 2 ^ 64
  | .archive x => (seenChain s.xs.clog (s.xs.stamp x) s.gchain).length < 2 ^ 64 ∧
      ∀ y n, s.hand y = some n → (seenChain s.xs.clog (s.xs.stamp x) s.gchain).length ≤ n
  | _ => True

/-! ## Record numbers stay distinct -/

section Xacts

variable {xs xs' : Xacts} {e : XactEvent} {x : ℕ} {row : Stamp}

/-- A row that is live after a transaction's step was live before. -/
lemma XactStep.isLive_of (h : XactStep xs e xs') (hlive : isLive xs'.clog row) : isLive xs.clog row := by
  simp only [isLive, decide_eq_true_eq] at hlive ⊢
  intro habort
  apply hlive
  cases h with
  | begin hnew =>
    have hne : row.xmin ≠ _ := fun heq => by rw [heq, hnew] at habort; cases habort
    exact (update_of_ne hne _ _).trans habort
  | command hrun => exact habort
  | commit hrun =>
    have hne : row.xmin ≠ _ := fun heq => by rw [heq, hrun] at habort; cases habort
    exact (update_of_ne hne _ _).trans habort
  | @abort x hrun =>
    by_cases heq : row.xmin = x
    · rw [heq]
      exact update_self _ _ _
    · exact (update_of_ne heq _ _).trans habort

lemma isLive_of_restart (hlive : isLive xs.restart.clog row) : isLive xs.clog row := by
  simp only [isLive, decide_eq_true_eq] at hlive ⊢
  intro habort
  apply hlive
  exact (if_neg (by rw [habort]; decide)).trans habort

/-- What a running transaction sees is live. -/
lemma isLive_of_sees (hrun : xs.running x) (hsees : satisfiesNow xs.clog (xs.stamp x) row) : isLive xs.clog row := by
  simp only [satisfiesNow, Bool.or_eq_true, Bool.and_eq_true, decide_eq_true_eq] at hsees
  simp only [isLive, decide_eq_true_eq]
  rcases hsees with h | ⟨h, -⟩
  · rw [h]
    decide
  · rw [h, show (xs.stamp x).xmin = x from rfl, hrun]
    decide

lemma isLive_stamp (hrun : xs.running x) : isLive xs.clog (xs.stamp x) := by
  simp only [isLive, decide_eq_true_eq]
  rw [show (xs.stamp x).xmin = x from rfl, hrun]
  decide

end Xacts

section Records

variable {s s' : RecState} {e : RecEvent} {x oid : ℕ}

lemma maxRecNum_spec : ∀ (rows : List HistRow) (acc : ℕ × Bool),
    let r := rows.foldl (fun acc row => if acc.1 ≤ row.recNum then (row.recNum, false) else acc) acc
    acc.1 ≤ r.1 ∧ (∀ row ∈ rows, row.recNum ≤ r.1) ∧
      (r = acc ∨ r.2 = false ∧ ∃ row ∈ rows, row.recNum = r.1)
  | [], acc => ⟨le_rfl, fun _ h => (nomatch h), Or.inl rfl⟩
  | row :: rows, acc => by
    dsimp only
    rw [List.foldl_cons]
    split
    · rename_i hle
      obtain ⟨hacc, hall, hmem⟩ := maxRecNum_spec rows (row.recNum, false)
      refine ⟨hle.trans hacc, List.forall_mem_cons.2 ⟨hacc, hall⟩, Or.inr ?_⟩
      rcases hmem with heq | ⟨hfalse, row', hrow', heq⟩
      · rw [heq]
        exact ⟨rfl, row, List.mem_cons_self, rfl⟩
      · exact ⟨hfalse, row', List.mem_cons_of_mem _ hrow', heq⟩
    · rename_i hlt
      obtain ⟨hacc, hall, hmem⟩ := maxRecNum_spec rows acc
      refine ⟨hacc, List.forall_mem_cons.2 ⟨(not_le.1 hlt).le.trans hacc, hall⟩, hmem.imp_right ?_⟩
      rintro ⟨hfalse, row', hrow', heq⟩
      exact ⟨hfalse, row', List.mem_cons_of_mem _ hrow', heq⟩

variable {rows : List HistRow}

lemma le_maxRecNum {row : HistRow} (h : row ∈ rows) : row.recNum ≤ (maxRecNum rows).1 :=
  (maxRecNum_spec rows (0, true)).2.1 row h

/-- The greatest number of a table that is not empty is one of its rows'. -/
lemma maxRecNum_mem (h : rows ≠ []) : (maxRecNum rows).2 = false ∧ ∃ row ∈ rows, row.recNum = (maxRecNum rows).1 := by
  obtain ⟨row, rows, rfl⟩ := List.exists_cons_of_ne_nil h
  have hfirst : maxRecNum (row :: rows) =
      rows.foldl (fun acc row => if acc.1 ≤ row.recNum then (row.recNum, false) else acc) (row.recNum, false) := by
    rw [maxRecNum, List.foldl_cons, if_pos (Nat.zero_le _)]
  rw [hfirst]
  rcases (maxRecNum_spec rows (row.recNum, false)).2.2 with heq | ⟨hfalse, row', hrow', heq⟩
  · rw [heq]
    exact ⟨rfl, row, List.mem_cons_self, rfl⟩
  · exact ⟨hfalse, row', List.mem_cons_of_mem _ hrow', heq⟩

/-- The number of a reload is above all that is out, and the cache is above it. -/
lemma reload_above (hsafe : RecSafe s (.reload x oid)) :
    (∀ n, s.IsOut oid n → n < (reloadGRecNum s.xs.clog (s.xs.stamp x) (s.hist oid)).1) ∧
      (reloadGRecNum s.xs.clog (s.xs.stamp x) (s.hist oid)).2 =
        (reloadGRecNum s.xs.clog (s.xs.stamp x) (s.hist oid)).1 + 1 := by
  obtain ⟨hroom, hout⟩ := hsafe
  simp only [reloadGRecNum]
  by_cases hempty : seenRows s.xs.clog (s.xs.stamp x) (s.hist oid) = []
  · rw [hempty] at hout ⊢
    refine ⟨fun n hn => ?_, rfl⟩
    obtain ⟨row, hrow, -⟩ := hout n hn
    cases hrow
  · obtain ⟨hfalse, top, htop, hmax⟩ := maxRecNum_mem hempty
    have hlt := hroom top (List.mem_of_mem_filter htop)
    have hnum : u64 ((maxRecNum (seenRows s.xs.clog (s.xs.stamp x) (s.hist oid))).1 + 1) = top.recNum + 1 := by
      rw [← hmax, u64, Nat.mod_eq_of_lt (by omega)]
    rw [hfalse, if_neg Bool.false_ne_true, hnum]
    refine ⟨fun n hn => ?_, Nat.mod_eq_of_lt (by omega)⟩
    obtain ⟨row, hrow, hle⟩ := hout n hn
    have := le_maxRecNum hrow
    omega

/-- No number of a table is out twice, and the cache is above all that are out. -/
def RecInv (s : RecState) : Prop := ∀ oid, Issued (s.hand oid) (s.live oid) (s.cache oid)

lemma liveRecNums_cons {clog : Clog} {row : HistRow} (h : isLive clog row.stamp) :
    liveRecNums clog (row :: rows) = row.recNum :: liveRecNums clog rows := by
  simp [liveRecNums, h]

lemma hand_update (s : RecState) {phase : ℕ → RecPhase} {p : RecPhase} (h : phase = update s.phase x p) :
    (fun y => (phase y).hand oid) = update (s.hand oid) x (p.hand oid) := by
  funext y
  rw [h]
  by_cases hy : y = x
  · subst hy
    rw [update_self, update_self]
  · rw [update_of_ne hy, update_of_ne hy]
    rfl

/-- A step of one session at one table. -/
lemma RecInv.at_table (hinv : RecInv s) (x oid : ℕ) {p : RecPhase} (hphase : s'.phase = update s.phase x p)
    (hp : ∀ oid', oid' ≠ oid → p.hand oid' = none) (hcache : ∀ oid', oid' ≠ oid → s'.cache oid' = s.cache oid')
    (hlive : ∀ oid', oid' ≠ oid → s'.live oid' = s.live oid')
    (hself : Issued (update (s.hand oid) x (p.hand oid)) (s'.live oid) (s'.cache oid)) : RecInv s' := by
  intro oid'
  by_cases hoid : oid' = oid
  · subst hoid
    rw [← hand_update s hphase] at hself
    exact hself
  · refine (hinv oid').drop (fun y n hy => ?_) (hlive oid' hoid ▸ List.Sublist.refl _)
      fun c hc => hcache oid' hoid ▸ hc
    have heq : s'.hand oid' y = update (s.hand oid') x (p.hand oid') y :=
      congrFun (hand_update s hphase) y
    rw [heq] at hy
    by_cases hyx : y = x
    · rw [hyx, update_self, hp oid' hoid] at hy
      cases hy
    · rwa [update_of_ne hyx] at hy

lemma RecInv.xact (hinv : RecInv s) {e : XactEvent} {xs : Xacts} (h : XactStep s.xs e xs) :
    RecInv { s with xs := xs, phase := fun x => if e = .abort x then .idle else s.phase x } := by
  intro oid
  refine (hinv oid).drop (fun y n hy => ?_) ?_ fun _ hc => hc
  · by_cases habort : e = .abort y
    · simp only [RecState.hand, if_pos habort, RecPhase.hand] at hy
      cases hy
    · simpa only [RecState.hand, if_neg habort] using hy
  · exact (List.monotone_filter_right _ fun row hrow => h.isLive_of hrow).map _

lemma RecInv.step (hinv : RecInv s) (hsafe : RecSafe s e) (h : RecStep s e s') : RecInv s' := by
  cases h with
  | xact hstep hidle => exact hinv.xact hstep
  | @found x oid c hrun hidle hcache =>
    have hroom : u64 (c + 1) = c + 1 := Nat.mod_eq_of_lt (hsafe c hcache)
    refine hinv.at_table x oid rfl (fun oid' hne => if_neg (Ne.symm hne))
      (fun oid' hne => update_of_ne hne _ _) (fun _ _ => rfl) ?_
    have hdraw := (hcache ▸ hinv oid).draw (u := x)
    rw [RecPhase.hand, if_pos rfl]
    show Issued _ (s.live oid) (update s.cache oid (some (u64 (c + 1))) oid)
    rwa [update_self, hroom]
  | @missed x oid hrun hidle hcache =>
    refine hinv.at_table x oid rfl (fun _ _ => rfl) (fun _ _ => rfl) (fun _ _ => rfl) ?_
    refine (hinv oid).drop (fun y n hy => ?_) (List.Sublist.refl _) fun _ hc => hc
    by_cases hyx : y = x
    · rw [hyx, update_self] at hy
      cases hy
    · rwa [update_of_ne hyx] at hy
  | @reload x oid hrun hmissed =>
    obtain ⟨habove, hnext⟩ := reload_above hsafe
    refine hinv.at_table x oid rfl (fun oid' hne => if_neg (Ne.symm hne))
      (fun oid' hne => update_of_ne hne _ _) (fun _ _ => rfl) ?_
    have hreset := (hinv oid).reset (fun y n hy => habove n (Or.inl ⟨y, hy⟩)) fun n hn => habove n (Or.inr hn)
    have hdraw := hreset.draw (u := x)
    rw [RecPhase.hand, if_pos rfl]
    show Issued _ (s.live oid) (update s.cache oid _ oid)
    rwa [update_self, hnext]
  | @insert x oid n ins del pre post hrun hhold hrows =>
    refine hinv.at_table x oid rfl (fun _ _ => rfl) (fun _ _ => rfl) (fun oid' hne => ?_) ?_
    · show liveRecNums s.xs.clog (update s.hist oid _ oid') = _
      rw [update_of_ne hne]
      rfl
    · have hheld : s.hand oid x = some n := by
        rw [RecState.hand, hhold, RecPhase.hand, if_pos rfl]
      refine (hinv oid).place hheld ?_
      show (liveRecNums s.xs.clog (update s.hist oid _ oid)).Perm (n :: s.live oid)
      rw [update_self, RecState.live, hrows]
      -- the row stands somewhere in the table, and it is live
      refine ((List.perm_middle.filter _).map _).trans (List.Perm.of_eq ?_)
      exact liveRecNums_cons (isLive_stamp hrun)
  | @archive x oid rows hrun hidle hrows =>
    refine hinv.at_table x oid (Function.update_eq_self x s.phase).symm
      (fun oid' _ => by rw [hidle]; rfl) (fun oid' hne => update_of_ne hne _ _) (fun oid' hne => ?_) ?_
    · show liveRecNums s.xs.clog (update s.hist oid _ oid') = _
      rw [update_of_ne hne]
      rfl
    · have hsame : update (s.hand oid) x ((s.phase x).hand oid) = s.hand oid := Function.update_eq_self x _
      rw [hsame]
      show Issued _ (liveRecNums s.xs.clog (update s.hist oid rows oid)) (update s.cache oid none oid)
      rw [update_self, update_self]
      obtain ⟨hne, rfl⟩ := ledgerHistArchive_cases hrows
      obtain ⟨-, top, htop, hmax⟩ := maxRecNum_mem hne
      -- the number of the unified row was the number of a live one
      have hmem : top.recNum ∈ s.live oid := by
        refine List.mem_map_of_mem (List.mem_filter.2 ⟨List.mem_of_mem_filter htop, ?_⟩)
        exact isLive_of_sees hrun (List.mem_filter.1 htop).2
      rw [liveRecNums_cons (isLive_stamp hrun), ← hmax]
      exact (hinv oid).replace (List.nodup_singleton _) fun y n hy hn =>
        (hinv oid).apart y n hy (List.mem_singleton.1 hn ▸ hmem)
  | restart =>
    intro oid
    refine (hinv oid).drop (fun y n hy => (nomatch hy)) ?_ fun _ hc => (nomatch hc)
    exact (List.monotone_filter_right _ fun row hrow => isLive_of_restart hrow).map _

end Records

/-! ## Block numbers stay distinct -/

section Blocks

variable {s s' : ChainState} {e : ChainEvent} {x : ℕ}

lemma le_scanBackward : ∀ (l : List ℕ) (m : ℕ), m ≤ scanBackward m l
  | [], m => le_rfl
  | b :: l, m => by
    rw [scanBackward]
    split
    · rename_i hlt
      exact hlt.le.trans (le_scanBackward l _)
    · exact le_rfl

/-- The scan comes through numbers that rise strictly. -/
lemma scanBackward_reaches : ∀ {l rest : List ℕ} {m : ℕ}, (m :: l).Pairwise (· < ·) → (∀ b ∈ l, b < 2 ^ 31) →
    ∀ b ∈ l, b ≤ scanBackward m (l ++ rest)
  | [], _, _, _, _ => fun _ h => (nomatch h)
  | b :: l, rest, m, hrise, hsmall => by
    have hb : b % 2 ^ 32 = b := Nat.mod_eq_of_lt ((hsmall b List.mem_cons_self).trans (by norm_num))
    have hlt : m < b := List.rel_of_pairwise_cons hrise List.mem_cons_self
    rw [List.cons_append, scanBackward, hb, if_pos hlt]
    exact List.forall_mem_cons.2 ⟨le_scanBackward _ b,
      scanBackward_reaches hrise.of_cons fun c hc => hsmall c (List.mem_cons_of_mem _ hc)⟩

lemma scanBackward_lt : ∀ {l : List ℕ} {m : ℕ}, m < 2 ^ 31 → (∀ b ∈ l, b < 2 ^ 31) → scanBackward m l < 2 ^ 31
  | [], _, hm, _ => hm
  | b :: l, m, hm, hl => by
    have hb : b % 2 ^ 32 = b := Nat.mod_eq_of_lt ((hl b List.mem_cons_self).trans (by norm_num))
    rw [scanBackward, hb]
    split
    · exact scanBackward_lt (hl b List.mem_cons_self) fun c hc => hl c (List.mem_cons_of_mem _ hc)
    · exact hm

/-- A filled counter is above all that is out. -/
lemma init_above (hzero : s.gBlocknum = 0) (hsafe : ChainSafe s (.init x)) :
    ∀ n, s.IsOut n → n < u64 (1 + intToU64 (reloadNextGBlocknum s.gchain)) := by
  obtain ⟨hsmall, hout⟩ := hsafe hzero
  have hsmall : ∀ b ∈ (s.gchain.map fun row => row.blocknum).reverse, b < 2 ^ 31 := by
    intro b hb
    obtain ⟨row, hrow, rfl⟩ := List.mem_map.1 (List.mem_reverse.1 hb)
    exact hsmall row hrow
  have hscan : reloadNextGBlocknum s.gchain < 2 ^ 31 := scanBackward_lt (by norm_num) hsmall
  have hnum : u64 (1 + intToU64 (reloadNextGBlocknum s.gchain)) = 1 + reloadNextGBlocknum s.gchain := by
    rw [intToU64, if_pos hscan, u64, Nat.mod_eq_of_lt (by omega)]
  intro n hn
  rw [hnum]
  rcases hout n hn with rfl | ⟨pre, top, post, hrows, hle, hrise⟩
  · omega
  · have hreach : top.blocknum ≤ reloadNextGBlocknum s.gchain := by
      rw [hrows, List.map_append, List.reverse_append] at hsmall
      rw [reloadNextGBlocknum, hrows, List.map_append, List.reverse_append]
      refine scanBackward_reaches hrise (fun b hb => hsmall b (List.mem_append_left _ hb)) _ ?_
      exact List.mem_reverse.2 (List.mem_map_of_mem List.mem_cons_self)
    omega

/-! ### Unified rows -/

/-- The rows of some of the relations. -/
def ofRels (seen : List ChainRow) (relids : List ℕ) : List ChainRow := seen.filter fun row => row.relid ∈ relids

lemma ofRels_cons (seen : List ChainRow) {relid : ℕ} {relids : List ℕ} (hnew : relid ∉ relids) :
    (ofRels seen (relid :: relids)).length =
      (seen.filter fun row => row.relid = relid).length + (ofRels seen relids).length := by
  unfold ofRels
  induction seen with
  | nil => rfl
  | cons row seen ih =>
    by_cases hrow : row.relid = relid
    · have hnot : row.relid ∉ relids := hrow ▸ hnew
      simp [hrow, hnew] at ih ⊢
      omega
    · by_cases hmem : row.relid ∈ relids
      · simp [hrow, hmem] at ih ⊢
        omega
      · simp [hrow, hmem] at ih ⊢
        omega

/-- The block numbers of the unified rows rise, from the rows taken in before to the ones taken in with them. -/
lemma unifyChain_blocknums (seen : List ChainRow) (me : Stamp) : ∀ (relids : List ℕ) (taken : ℕ), relids.Nodup →
    (∀ r ∈ relids, ∃ row ∈ seen, row.relid = r) → taken + (ofRels seen relids).length < 2 ^ 64 →
    (∀ row ∈ unifyChain seen me taken relids,
      taken ≤ row.blocknum ∧ row.blocknum < taken + (ofRels seen relids).length ∧ row.stamp = me) ∧
      ((unifyChain seen me taken relids).map fun row => row.blocknum).Nodup
  | [], _, _, _, _ => ⟨fun _ h => (nomatch h), List.nodup_nil⟩
  | r :: relids, taken, hnodup, hocc, hroom => by
    obtain ⟨hnew, hnodup⟩ := List.nodup_cons.1 hnodup
    have hlen := ofRels_cons seen hnew
    obtain ⟨row, hrow, hrel⟩ := hocc r List.mem_cons_self
    have hpos : 0 < (seen.filter fun row => row.relid = r).length :=
      List.length_pos_of_mem (List.mem_filter.2 ⟨hrow, decide_eq_true hrel⟩)
    rw [hlen] at hroom ⊢
    have hnum : u64 (taken + (seen.filter fun row => row.relid = r).length + (2 ^ 64 - 1)) =
        taken + (seen.filter fun row => row.relid = r).length - 1 := by
      rw [u64]
      omega
    obtain ⟨hrest, hdistinct⟩ := unifyChain_blocknums seen me relids
      (taken + (seen.filter fun row => row.relid = r).length) hnodup
      (fun r' h => hocc r' (List.mem_cons_of_mem _ h)) (by omega)
    rw [unifyChain, hnum]
    refine ⟨List.forall_mem_cons.2 ⟨?_, fun row' h => ?_⟩, ?_⟩
    · dsimp only
      exact ⟨by omega, by omega, rfl⟩
    · obtain ⟨hlow, hhigh, hstamp⟩ := hrest row' h
      exact ⟨by omega, by omega, hstamp⟩
    · rw [List.map_cons, List.nodup_cons]
      refine ⟨fun h => ?_, hdistinct⟩
      obtain ⟨row', hrow', heq⟩ := List.mem_map.1 h
      have hlow := (hrest row' hrow').1
      dsimp only at heq
      omega

/-! ### The invariant -/

/-- The counter, where it is filled. -/
def ChainState.next (s : ChainState) : Option ℕ := if s.gBlocknum = 0 then none else some s.gBlocknum

def ChainInv (s : ChainState) : Prop := Issued s.hand s.live s.next

lemma liveBlocknums_cons {clog : Clog} {row : ChainRow} {rows : List ChainRow} (h : isLive clog row.stamp) :
    liveBlocknums clog (row :: rows) = row.blocknum :: liveBlocknums clog rows := by
  simp [liveBlocknums, h]

lemma blockHand_update (s : ChainState) {phase : ℕ → BlockPhase} {p : BlockPhase}
    (h : phase = update s.phase x p) : (fun y => (phase y).hand) = update s.hand x p.hand := by
  funext y
  rw [h]
  by_cases hy : y = x
  · subst hy
    rw [update_self, update_self]
  · rw [update_of_ne hy, update_of_ne hy]
    rfl

/-- A step after which a session holds no number. -/
lemma ChainInv.empty_hand (hinv : ChainInv s) {p : BlockPhase} (hphase : s'.phase = update s.phase x p)
    (hp : p.hand = none) (hlive : s'.live = s.live) (hnext : ∀ c, s'.next = some c → s.next = some c) :
    ChainInv s' := by
  refine hinv.drop (fun y n hy => ?_) (hlive ▸ List.Sublist.refl _) hnext
  have heq : s'.hand y = update s.hand x p.hand y := congrFun (blockHand_update s hphase) y
  rw [heq] at hy
  by_cases hyx : y = x
  · rw [hyx, update_self, hp] at hy
    cases hy
  · rwa [update_of_ne hyx] at hy

lemma ChainInv.xact (hinv : ChainInv s) {e : XactEvent} {xs : Xacts} (h : XactStep s.xs e xs) :
    ChainInv { s with xs := xs, phase := fun x => if e = .abort x then .idle else s.phase x } := by
  refine hinv.drop (fun y n hy => ?_) ?_ fun _ hc => hc
  · by_cases habort : e = .abort y
    · simp only [ChainState.hand, if_pos habort, BlockPhase.hand] at hy
      cases hy
    · simpa only [ChainState.hand, if_neg habort] using hy
  · exact (List.monotone_filter_right _ fun row hrow => h.isLive_of hrow).map _

lemma ChainInv.archive (hinv : ChainInv s) (hrun : s.xs.running x) (hsafe : ChainSafe s (.archive x))
    {rows : List ChainRow} (hrows : ledgerGchainArchive s.xs.clog (s.xs.stamp x) s.gchain = some rows) :
    ChainInv { s with gchain := rows, gBlocknum := 0 } := by
  obtain ⟨hroom, hhand⟩ := hsafe
  obtain ⟨-, rfl⟩ := ledgerGchainArchive_cases hrows
  generalize hseen : seenChain s.xs.clog (s.xs.stamp x) s.gchain = seen at hroom hhand ⊢
  have hlen : (ofRels seen (userRelArr seen).reverse).length ≤ seen.length := List.length_filter_le _ _
  have hnodup : (userRelArr seen).reverse.Nodup := by
    rw [userRelArr, List.reverse_reverse]
    exact List.nodup_dedup _
  have hocc : ∀ r ∈ (userRelArr seen).reverse, ∃ row ∈ seen, row.relid = r := by
    intro r hr
    rw [userRelArr, List.reverse_reverse, List.mem_dedup, List.mem_reverse, List.mem_map] at hr
    exact hr
  obtain ⟨hrange, hdistinct⟩ := unifyChain_blocknums seen (s.xs.stamp x) _ 0 hnodup hocc (by omega)
  have hall : liveBlocknums s.xs.clog (unifyChain seen (s.xs.stamp x) 0 (userRelArr seen).reverse) =
      (unifyChain seen (s.xs.stamp x) 0 (userRelArr seen).reverse).map fun row => row.blocknum := by
    rw [liveBlocknums, List.filter_eq_self.2 fun row hrow => (hrange row hrow).2.2 ▸ isLive_stamp hrun]
  refine hinv.replace ?_ fun y n hy hn => ?_
  · show (liveBlocknums _ _).Nodup
    rw [hall]
    exact hdistinct
  · have hn : n ∈ liveBlocknums s.xs.clog (unifyChain seen (s.xs.stamp x) 0 (userRelArr seen).reverse) := hn
    rw [hall] at hn
    obtain ⟨row, hrow, rfl⟩ := List.mem_map.1 hn
    have hlt := (hrange row hrow).2.1
    have hge := hhand y _ hy
    omega

lemma ChainInv.step (hinv : ChainInv s) (hsafe : ChainSafe s e) (h : ChainStep s e s') : ChainInv s' := by
  cases h with
  | xact hstep hidle => exact hinv.xact hstep
  | @check x hrun hidle =>
    refine hinv.empty_hand rfl ?_ rfl fun _ hc => hc
    split <;> rfl
  | @init x hrun hwant =>
    by_cases hzero : s.gBlocknum = 0
    · have habove := init_above hzero hsafe
      have hfilled : ChainInv { s with gBlocknum := u64 (1 + intToU64 (reloadNextGBlocknum s.gchain)) } := by
        have hreset := hinv.reset (fun y n hy => habove n (Or.inl ⟨y, hy⟩)) fun n hn => habove n (Or.inr hn)
        refine hreset.drop (fun _ _ hy => hy) (List.Sublist.refl _) fun c hc => ?_
        simp only [ChainState.next] at hc
        split at hc
        · cases hc
        · exact hc
      rw [if_pos hzero]
      exact hfilled.empty_hand (p := .wantFetch) rfl rfl rfl fun _ hc => hc
    · rw [if_neg hzero]
      exact hinv.empty_hand (p := .wantFetch) rfl rfl rfl fun _ hc => hc
  | @fetch x hrun hwant =>
    obtain ⟨hne, hroom⟩ := hsafe
    have hnext : s.next = some s.gBlocknum := if_neg hne
    have hcounter : Issued s.hand s.live (some s.gBlocknum) := by
      rw [← hnext]
      exact hinv
    have hnum : u64 (s.gBlocknum + 1) = s.gBlocknum + 1 := Nat.mod_eq_of_lt hroom
    show Issued (fun y => (update s.phase x (.holding s.gBlocknum) y).hand) s.live
      (if u64 (s.gBlocknum + 1) = 0 then none else some (u64 (s.gBlocknum + 1)))
    rw [blockHand_update s rfl, hnum, if_neg (Nat.succ_ne_zero _)]
    exact hcounter.draw
  | @insert x n relid relhash pre post hrun hhold hrows =>
    have hheld : s.hand x = some n := by rw [ChainState.hand, hhold, BlockPhase.hand]
    have hperm : (liveBlocknums s.xs.clog (pre ++ ⟨n, relid, relhash, s.xs.stamp x⟩ :: post)).Perm (n :: s.live) := by
      rw [ChainState.live, hrows]
      refine ((List.perm_middle.filter _).map _).trans (List.Perm.of_eq ?_)
      exact liveBlocknums_cons (isLive_stamp hrun)
    have hplace := (hinv : Issued s.hand s.live s.next).place hheld hperm
    show Issued (fun y => (update s.phase x .idle y).hand) _ s.next
    rw [blockHand_update s rfl]
    exact hplace
  | archive hrun hidle hrows => exact hinv.archive hrun hsafe hrows
  | restart =>
    refine hinv.drop (fun y n hy => (nomatch hy)) ?_ fun _ hc => (nomatch hc)
    exact (List.monotone_filter_right _ fun row hrow => isLive_of_restart hrow).map _

end Blocks

/-! ## Runs -/

/-- A step whose condition holds before it. -/
def RecSafeStep (s : RecState) (e : RecEvent) (s' : RecState) : Prop := RecStep s e s' ∧ RecSafe s e

def ChainSafeStep (s : ChainState) (e : ChainEvent) (s' : ChainState) : Prop := ChainStep s e s' ∧ ChainSafe s e

/-- No number of a history table, and no block number, is carried by two rows that are committed or in progress. -/
theorem numbers_distinct {recEvents : List RecEvent} {s : RecState} {chainEvents : List ChainEvent} {t : ChainState}
    (hrec : Trace RecSafeStep .start recEvents s) (hchain : Trace ChainSafeStep .start chainEvents t) :
    (∀ oid, (s.live oid).Nodup) ∧ t.live.Nodup := by
  constructor
  · intro oid
    have hinv : RecInv s :=
      hrec.invariant (fun hinv hstep => RecInv.step hinv hstep.2 hstep.1) fun oid => Issued.empty
    exact (hinv oid).nodup
  · have hinv : ChainInv t :=
      hchain.invariant (fun hinv hstep => ChainInv.step hinv hstep.2 hstep.1) Issued.empty
    exact hinv.nodup

/-- What is out while nobody holds a number is in the table. -/
lemma RecState.IsOut.live {s : RecState} {oid n : ℕ} (h : s.IsOut oid n) (hands : ∀ y, s.hand oid y = none) :
    n ∈ s.live oid :=
  h.resolve_left fun ⟨y, hy⟩ => (nomatch (hands y).symm.trans hy)

lemma ChainState.IsOut.live {s : ChainState} {n : ℕ} (h : s.IsOut n) (hands : ∀ y, s.hand y = none) :
    n ∈ s.live :=
  h.resolve_left fun ⟨y, hy⟩ => (nomatch (hands y).symm.trans hy)

/-- Two sessions draw from the cache that the first one fills, and after an archive a third one fills it again. -/
def sessionRecords : List RecEvent :=
  [.xact (.begin 1), .xact (.begin 2), .lookup 1 7, .reload 1 7, .lookup 2 7, .insert 2, .insert 1, .xact (.commit 1),
    .xact (.commit 2), .xact (.begin 3), .archive 3 7, .xact (.commit 3), .xact (.begin 4), .lookup 4 7, .reload 4 7,
    .insert 4]

/-- Two sessions write blocks of different tables, and after an archive a third one fills the counter again. -/
def sessionBlocks : List ChainEvent :=
  [.xact (.begin 1), .xact (.begin 2), .check 1, .init 1, .check 2, .fetch 2, .fetch 1, .insert 1, .insert 2,
    .xact (.commit 1), .xact (.commit 2), .xact (.begin 3), .archive 3, .xact (.commit 3), .xact (.begin 4), .check 4,
    .init 4, .fetch 4, .insert 4]

/-- Each number of a record is drawn once. -/
lemma sessions_records : ∃ s, Trace RecSafeStep .start sessionRecords s ∧ s.live 7 = [2, 1] := by
  refine ⟨_, .cons ⟨.xact (.begin rfl) fun x h => (nomatch h), trivial⟩
    (.cons ⟨.xact (.begin rfl) fun x h => (nomatch h), trivial⟩
    (.cons ⟨@RecStep.missed _ 1 7 rfl rfl rfl, fun c h => (nomatch h)⟩
    (.cons ⟨@RecStep.reload _ 1 7 rfl rfl, fun row h => (nomatch h), fun n hn => ?_⟩
    (.cons ⟨@RecStep.found _ 2 7 1 rfl rfl rfl, ?_⟩
    (.cons ⟨@RecStep.insert _ 2 7 1 (some 6) none [] [] rfl rfl rfl, trivial⟩
    (.cons ⟨@RecStep.insert _ 1 7 0 (some 5) none [] [⟨1, some 6, none, ⟨2, 0⟩⟩] rfl rfl rfl, trivial⟩
    (.cons ⟨.xact (@XactStep.commit _ 1 rfl) ?_, trivial⟩
    (.cons ⟨.xact (@XactStep.commit _ 2 rfl) ?_, trivial⟩
    (.cons ⟨.xact (@XactStep.begin _ 3 rfl) fun x h => (nomatch h), trivial⟩
    (.cons ⟨@RecStep.archive _ 3 7 [⟨1, some 11, some 0, ⟨3, 0⟩⟩] rfl rfl (by decide), trivial⟩
    (.cons ⟨.xact (@XactStep.commit _ 3 rfl) ?_, trivial⟩
    (.cons ⟨.xact (@XactStep.begin _ 4 rfl) fun x h => (nomatch h), trivial⟩
    (.cons ⟨@RecStep.missed _ 4 7 rfl rfl rfl, fun c h => (nomatch h)⟩
    (.cons ⟨@RecStep.reload _ 4 7 rfl rfl, ?_, fun n hn => ?_⟩
    (.cons ⟨@RecStep.insert _ 4 7 2 (some 8) none [] [⟨1, some 11, some 0, ⟨3, 0⟩⟩] rfl rfl rfl, trivial⟩
      (.nil _)))))))))))))))), by decide⟩
  · have hlive := hn.live (fun y => by
      simp only [RecState.hand, Function.update_apply, RecState.start]
      split_ifs <;> rfl)
    cases hlive
  · intro c hc
    cases hc
    decide
  · intro x hx
    cases hx
    rfl
  · intro x hx
    cases hx
    rfl
  · intro x hx
    cases hx
    rfl
  · decide
  · have hlive := hn.live (fun y => by
      simp only [RecState.hand, Function.update_apply, RecState.start]
      split_ifs <;> rfl)
    have hone : n ∈ [1] := hlive
    refine ⟨⟨1, some 11, some 0, ⟨3, 0⟩⟩, by decide, ?_⟩
    rw [List.mem_singleton.mp hone]

/-- Each number of a block is drawn once. -/
lemma sessions_blocks : ∃ s, Trace ChainSafeStep .start sessionBlocks s ∧ s.live = [0, 1, 2] := by
  refine ⟨_, .cons ⟨.xact (.begin rfl) fun x h => (nomatch h), trivial⟩
    (.cons ⟨.xact (.begin rfl) fun x h => (nomatch h), trivial⟩
    (.cons ⟨@ChainStep.check _ 1 rfl rfl, trivial⟩
    (.cons ⟨@ChainStep.init _ 1 rfl rfl, fun _ => ⟨fun row h => (nomatch h), fun n hn => ?_⟩⟩
    (.cons ⟨@ChainStep.check _ 2 rfl rfl, trivial⟩
    (.cons ⟨@ChainStep.fetch _ 2 rfl rfl, by decide, by decide⟩
    (.cons ⟨@ChainStep.fetch _ 1 rfl rfl, by decide, by decide⟩
    (.cons ⟨@ChainStep.insert _ 1 2 7 5 [] [] rfl rfl rfl, trivial⟩
    (.cons ⟨@ChainStep.insert _ 2 1 8 6 [⟨2, 7, 5, ⟨1, 0⟩⟩] [] rfl rfl rfl, trivial⟩
    (.cons ⟨.xact (@XactStep.commit _ 1 rfl) ?_, trivial⟩
    (.cons ⟨.xact (@XactStep.commit _ 2 rfl) ?_, trivial⟩
    (.cons ⟨.xact (@XactStep.begin _ 3 rfl) fun x h => (nomatch h), trivial⟩
    (.cons ⟨@ChainStep.archive _ 3 [⟨0, 8, 6, ⟨3, 0⟩⟩, ⟨1, 7, 5, ⟨3, 0⟩⟩] rfl rfl (by decide), by decide,
      fun y n hy => ?_⟩
    (.cons ⟨.xact (@XactStep.commit _ 3 rfl) ?_, trivial⟩
    (.cons ⟨.xact (@XactStep.begin _ 4 rfl) fun x h => (nomatch h), trivial⟩
    (.cons ⟨@ChainStep.check _ 4 rfl rfl, trivial⟩
    (.cons ⟨@ChainStep.init _ 4 rfl rfl, fun _ => ⟨?_, fun n hn => ?_⟩⟩
    (.cons ⟨@ChainStep.fetch _ 4 rfl rfl, by decide, by decide⟩
    (.cons ⟨@ChainStep.insert _ 4 2 7 9 [⟨0, 8, 6, ⟨3, 0⟩⟩, ⟨1, 7, 5, ⟨3, 0⟩⟩] [] rfl rfl rfl, trivial⟩
      (.nil _))))))))))))))))))), by decide⟩
  · have hlive := hn.live (fun y => by
      simp only [ChainState.hand, Function.update_apply, ChainState.start]
      split_ifs <;> rfl)
    cases hlive
  · intro x hx
    cases hx
    rfl
  · intro x hx
    cases hx
    rfl
  · simp only [ChainState.hand, Function.update_apply, ChainState.start] at hy
    split_ifs at hy <;> cases hy
  · intro x hx
    cases hx
    rfl
  · decide
  · have hlive := hn.live (fun y => by
      simp only [ChainState.hand, Function.update_apply, ChainState.start]
      split_ifs <;> rfl)
    have htwo : n ∈ [0, 1] := hlive
    have hscan : n = 0 ∨ ScanReaches [⟨0, 8, 6, ⟨3, 0⟩⟩, ⟨1, 7, 5, ⟨3, 0⟩⟩] n := by
      rcases List.mem_cons.mp htwo with hzero | hone
      · exact .inl hzero
      · exact .inr ⟨[⟨0, 8, 6, ⟨3, 0⟩⟩], ⟨1, 7, 5, ⟨3, 0⟩⟩, [], rfl, (List.mem_singleton.mp hone).le, by decide⟩
    exact hscan

theorem numbers_distinct_first :
    ∃ s t, Trace RecSafeStep .start sessionRecords s ∧ Trace ChainSafeStep .start sessionBlocks t ∧
      s.live 7 = [2, 1] ∧ t.live = [0, 1, 2] ∧ (s.live 7).Nodup ∧ t.live.Nodup := by
  obtain ⟨s, hs, hrec⟩ := sessions_records
  obtain ⟨t, ht, hchain⟩ := sessions_blocks
  exact ⟨s, t, hs, ht, hrec, hchain, (numbers_distinct hs ht).1 7, (numbers_distinct hs ht).2⟩

/-- Two sessions miss the cache one after the other, and the second fills it while the record of the first is in
progress; and a session that finds the counter filled draws from it after it was reset. -/
theorem numbers_repeat : (∃ events s, Trace RecStep .start events s ∧ ¬ (s.live 7).Nodup) ∧
    ∃ events s, Trace ChainStep .start events s ∧ ¬ s.live.Nodup := by
  constructor
  · refine ⟨_, _, .cons (.xact (@XactStep.begin _ 1 rfl) fun x h => (nomatch h))
      (.cons (.xact (@XactStep.begin _ 2 rfl) fun x h => (nomatch h))
      (.cons (@RecStep.missed _ 1 7 rfl rfl rfl)
      (.cons (@RecStep.missed _ 2 7 rfl rfl rfl)
      (.cons (@RecStep.reload _ 1 7 rfl rfl)
      (.cons (@RecStep.insert _ 1 7 0 (some 5) none [] [] rfl rfl rfl)
      (.cons (@RecStep.reload _ 2 7 rfl rfl)
      (.cons (@RecStep.insert _ 2 7 0 (some 6) none [] [⟨0, some 5, none, ⟨1, 0⟩⟩] rfl rfl rfl) (.nil _)))))))), ?_⟩
    decide
  · refine ⟨_, _, .cons (.xact (@XactStep.begin _ 1 rfl) fun x h => (nomatch h))
      (.cons (@ChainStep.check _ 1 rfl rfl)
      (.cons (@ChainStep.init _ 1 rfl rfl)
      (.cons (@ChainStep.fetch _ 1 rfl rfl)
      (.cons (@ChainStep.insert _ 1 1 7 5 [] [] rfl rfl rfl)
      (.cons (.xact (@XactStep.commit _ 1 rfl) fun x h => by cases h; rfl)
      (.cons (.xact (@XactStep.begin _ 2 rfl) fun x h => (nomatch h))
      (.cons (@ChainStep.check _ 2 rfl rfl)
      (.cons (.xact (@XactStep.begin _ 3 rfl) fun x h => (nomatch h))
      (.cons (@ChainStep.archive _ 3 [⟨0, 7, 5, ⟨3, 0⟩⟩] rfl rfl (by decide))
      (.cons (@ChainStep.fetch _ 2 rfl rfl)
      (.cons (@ChainStep.insert _ 2 0 7 6 [] [⟨0, 7, 5, ⟨3, 0⟩⟩] rfl rfl rfl) (.nil _)))))))))))), ?_⟩
    decide

end GaussKernel.Ledger
