import Mathlib.Data.Int.Basic
import Mathlib.Data.Int.Order.Basic
import Mathlib.Data.Nat.Basic
import Mathlib.Logic.Function.Basic
import Mathlib.Tactic.SplitIfs
import Mathlib.Tactic.Lemma
import Mathlib.Tactic.Set

/-!
# The shared invalidation queue

Model of `sinvaladt.cpp`: the circular buffer of invalidation messages, the entries of the backends, and what each
function does to them while it has its locks. The message counters are C integers; a run keeps those that mean
something within range, so they are integers here.
-/

namespace GaussKernel.Ipc

open Function (update update_self update_of_ne)

abbrev maxNumMessages : ℕ := 4096
abbrev msgNumWraparound : ℤ := 4096 * 262144
abbrev cleanupMin : ℤ := 4096 / 2
abbrev cleanupQuantum : ℤ := 4096 / 16
abbrev sigThreshold : ℤ := 4096 / 2
abbrev writeQuantum : ℕ := 64

structure ProcState where
  procPid : ℕ
  nextMsgNum : ℤ
  resetState : Bool
  signaled : Bool
  hasMessages : Bool
  sendOnly : Bool
  nextLXID : ℕ

structure SISeg (Msg : Type) where
  minMsgNum : ℤ
  maxMsgNum : ℤ
  nextThreshold : ℤ
  lastBackend : ℕ
  lastreserveBackend : ℕ
  maxBackends : ℕ
  maxreserveBackends : ℕ
  buffer : ℕ → Msg
  procState : ℕ → ProcState

variable {Msg : Type}

def ProcState.unused : ProcState := ⟨0, 0, false, false, false, false, 0⟩

/-- The buffer is not filled at the start. -/
def createSharedInvalidationState (maxBackends maxreserveBackends : ℕ) (buffer : ℕ → Msg) : SISeg Msg :=
  ⟨0, 0, cleanupMin, 0, 0, maxBackends, maxreserveBackends, buffer, fun _ => .unused⟩

/-- Index into the buffer -/
def messageSlot (msgNum : ℤ) : ℕ := (msgNum % maxNumMessages).toNat

namespace SISeg

def setProc (seg : SISeg Msg) (index : ℕ) (stateP : ProcState) : SISeg Msg :=
  { seg with procState := update seg.procState index stateP }

/-- An entry is marked active, with all extant messages already read. -/
def activate (seg : SISeg Msg) (index procPid : ℕ) (sendOnly : Bool) : SISeg Msg :=
  seg.setProc index
    { seg.procState index with
      procPid := procPid, nextMsgNum := seg.maxMsgNum, resetState := false, signaled := false, hasMessages := false,
      sendOnly := sendOnly }

/-- The entry for a new backend: an inactive one that was used before, else the next one. `none` if there are too many
backends. -/
def freeEntry (seg : SISeg Msg) : Option ℕ :=
  match (List.range seg.lastreserveBackend).find? fun index => (seg.procState index).procPid = 0 with
  | some index => some index
  | none => if seg.lastreserveBackend < seg.maxreserveBackends then some seg.lastreserveBackend else none

/-- The entry of the backend and the local transaction id that it goes on with -/
def sharedInvalReserveBackendInit (seg : SISeg Msg) (procPid : ℕ) (sendOnly : Bool) : Option (ℕ × ℕ × SISeg Msg) :=
  seg.freeEntry.map fun index =>
    let lastreserveBackend := max seg.lastreserveBackend (index + 1)
    (index, (seg.procState index).nextLXID,
      { seg with lastreserveBackend := lastreserveBackend
                 lastBackend := max seg.lastBackend lastreserveBackend }.activate index procPid sendOnly)

def sharedInvalWorkSessionInit (seg : SISeg Msg) (index procPid : ℕ) (sendOnly : Bool) : Option (ℕ × SISeg Msg) :=
  if index < seg.maxreserveBackends ∨ seg.maxBackends ≤ index then none
  else if (seg.procState index).procPid ≠ 0 then none
  else
    some ((seg.procState index).nextLXID,
      { seg with lastBackend := max seg.lastBackend (index + 1) }.activate index procPid sendOnly)

/-- Index of the last active entry below `last`, plus one -/
def lastActive (procState : ℕ → ProcState) : ℕ → ℕ
  | 0 => 0
  | i + 1 => if (procState i).procPid ≠ 0 then i + 1 else lastActive procState i

/-- An entry is marked inactive. -/
def deactivate (seg : SISeg Msg) (index nextLocalTransactionId : ℕ) : SISeg Msg :=
  seg.setProc index
    { seg.procState index with
      nextLXID := nextLocalTransactionId, procPid := 0, nextMsgNum := 0, resetState := false, signaled := false }

def cleanupWorkSessionInvalidation (seg : SISeg Msg) (index nextLocalTransactionId : ℕ) : SISeg Msg :=
  let seg := seg.deactivate index nextLocalTransactionId
  { seg with lastBackend := lastActive seg.procState seg.lastBackend }

/-- Of a backend that has no session slot any more -/
def cleanupInvalidationState (seg : SISeg Msg) (index nextLocalTransactionId : ℕ) : SISeg Msg :=
  let seg := seg.deactivate index nextLocalTransactionId
  { seg with lastBackend := lastActive seg.procState seg.lastBackend
             lastreserveBackend := lastActive seg.procState seg.lastreserveBackend }

/-! ## Removing messages -/

/-- What the loop of `SICleanupQueue` over the backends computes -/
structure Scan where
  procState : ℕ → ProcState
  min : ℤ
  minsig : ℤ
  needSig : Option ℕ

/-- One backend: it is reset if it prevents space from being freed. -/
def scanBackend (maxreserveBackends : ℕ) (lowbound : ℤ) (scan : Scan) (i : ℕ) : Scan :=
  let stateP := scan.procState i
  let n := stateP.nextMsgNum
  if stateP.procPid = 0 ∨ stateP.resetState ∨ stateP.sendOnly then scan
  else if n < lowbound then
    { scan with procState := update scan.procState i { stateP with resetState := true } }
  else
    let scan := if n < scan.min then { scan with min := n } else scan
    if i < maxreserveBackends ∧ n < scan.minsig ∧ ¬ stateP.signaled then
      { scan with minsig := n, needSig := some i }
    else scan

def scanBackends (seg : SISeg Msg) (minFree : ℕ) : Scan :=
  (List.range seg.lastBackend).foldl
    (scanBackend seg.maxreserveBackends (seg.maxMsgNum - maxNumMessages + minFree))
    ⟨seg.procState, seg.maxMsgNum, seg.maxMsgNum - sigThreshold, none⟩

/-- All message counters are decremented when they get large. -/
def wraparound (seg : SISeg Msg) : SISeg Msg :=
  if msgNumWraparound ≤ seg.minMsgNum then
    { seg with
      minMsgNum := seg.minMsgNum - msgNumWraparound
      maxMsgNum := seg.maxMsgNum - msgNumWraparound
      procState := fun i =>
        if i < seg.lastBackend ∧ (seg.procState i).procPid ≠ 0 then
          { seg.procState i with nextMsgNum := (seg.procState i).nextMsgNum - msgNumWraparound }
        else seg.procState i }
  else seg

def setThreshold (seg : SISeg Msg) : SISeg Msg :=
  let numMsgs := seg.maxMsgNum - seg.minMsgNum
  { seg with
    nextThreshold :=
      if numMsgs < cleanupMin then cleanupMin else (numMsgs / cleanupQuantum + 1) * cleanupQuantum }

def markSignaled (seg : SISeg Msg) : Option ℕ → SISeg Msg
  | none => seg
  | some i => seg.setProc i { seg.procState i with signaled := true }

/-- The second result is the backend that is sent a catchup interrupt. -/
def siCleanupQueue (seg : SISeg Msg) (minFree : ℕ) : SISeg Msg × Option ℕ :=
  let scan := seg.scanBackends minFree
  let seg := { seg with procState := scan.procState, minMsgNum := scan.min }
  (seg.wraparound.setThreshold.markSignaled scan.needSig, scan.needSig)

/-! ## Inserting and reading -/

/-- The recheck at the top of the loop of `SIInsertDataEntries` finds no reason to clean up. -/
def HasRoom (seg : SISeg Msg) (nthistime : ℕ) : Prop :=
  ¬(maxNumMessages < seg.maxMsgNum - seg.minMsgNum + nthistime ∨
    seg.nextThreshold ≤ seg.maxMsgNum - seg.minMsgNum)

instance (seg : SISeg Msg) (nthistime : ℕ) : Decidable (seg.HasRoom nthistime) :=
  inferInstanceAs (Decidable (¬_))

def store (seg : SISeg Msg) (max : ℤ) (msg : Msg) : SISeg Msg :=
  { seg with buffer := update seg.buffer (messageSlot max) msg }

/-- A swift kick to one backend -/
def kick (seg : SISeg Msg) (i : ℕ) : SISeg Msg :=
  if (seg.procState i).procPid ≠ 0 then seg.setProc i { seg.procState i with hasMessages := true } else seg

def clearFlag (seg : SISeg Msg) (i : ℕ) : SISeg Msg :=
  seg.setProc i { seg.procState i with hasMessages := false }

/-- The result is the reset message. -/
def takeReset (seg : SISeg Msg) (i : ℕ) (max : ℤ) : SISeg Msg :=
  seg.setProc i { seg.procState i with nextMsgNum := max, resetState := false, signaled := false }

def nextMessage (seg : SISeg Msg) (i : ℕ) : Msg := seg.buffer (messageSlot (seg.procState i).nextMsgNum)

def advance (seg : SISeg Msg) (i : ℕ) : SISeg Msg :=
  seg.setProc i { seg.procState i with nextMsgNum := (seg.procState i).nextMsgNum + 1 }

/-- The end of `SIGetDataEntries` -/
def finishRead (seg : SISeg Msg) (i : ℕ) (max : ℤ) : SISeg Msg :=
  if max ≤ (seg.procState i).nextMsgNum then seg.setProc i { seg.procState i with signaled := false }
  else seg.setProc i { seg.procState i with hasMessages := true }

end SISeg

/-! ## Many backends at once -/

/-- Where a thread in `SIInsertDataEntries` is that has `SInvalWriteLock` -/
inductive WritePlace
  | recheck
  | copy (nthistime : ℕ) (max : ℤ)
  | kick (i : ℕ)

/-- Where a backend in `SIGetDataEntries` is -/
inductive ReadPlace
  | idle
  | called (datasize : ℕ)
  | tested (datasize : ℕ)
  | cleared (datasize : ℕ)
  | fetched (datasize : ℕ) (max : ℤ)
  | loop (datasize : ℕ) (max : ℤ) (n : ℕ)

/-- The backend has `SInvalReadLock` in shared mode. -/
def ReadPlace.Locked : ReadPlace → Prop
  | cleared _ | fetched _ _ | loop _ _ _ => True
  | _ => False

structure SinvalState (Msg : Type) where
  seg : SISeg Msg
  /-- who has `SInvalWriteLock` -/
  lock : Option (ℕ × WritePlace)
  /-- what each thread has still to insert -/
  data : ℕ → List Msg
  reader : ℕ → ReadPlace

inductive SinvalEvent (Msg : Type)
  | quiet
  /-- `SIInsertDataEntries` is called. -/
  | insert (thread : ℕ) (data : List Msg)
  | copied (thread : ℕ) (msg : Msg)
  | unlock
  | joined (i : ℕ)
  | left (i : ℕ)
  /-- `SIGetDataEntries` is called. -/
  | called (i datasize : ℕ)
  | got (i : ℕ) (msg : Msg)
  | returned (i datasize : ℕ) (n : ℤ)

namespace SinvalState

variable (s : SinvalState Msg)

def setReader (seg : SISeg Msg) (i : ℕ) (place : ReadPlace) : SinvalState Msg :=
  { s with seg := seg, reader := update s.reader i place }

/-- The lock is given back while the signal is sent. -/
def lockAfter (t : ℕ) : Option ℕ → Option (ℕ × WritePlace)
  | none => some (t, .recheck)
  | some _ => none

/-- Only such a backend reads messages. -/
def Reads (i : ℕ) : Prop := (s.seg.procState i).procPid ≠ 0 ∧ (s.seg.procState i).sendOnly = false

end SinvalState

/-- Steps of threads that insert, of backends that read, join and leave, and of whoever cleans up. What needs
`SInvalReadLock` in exclusive mode waits for the readers. -/
inductive SinvalStep : SinvalState Msg → SinvalEvent Msg → SinvalState Msg → Prop
  | insert {s : SinvalState Msg} {t : ℕ} {data : List Msg} (hidle : s.data t = [])
      (hlock : ∀ place, s.lock ≠ some (t, place)) :
      SinvalStep s (.insert t data) { s with data := update s.data t data }
  | acquire {s : SinvalState Msg} {t : ℕ} (hlock : s.lock = none) (hdata : s.data t ≠ []) :
      SinvalStep s .quiet { s with lock := some (t, .recheck) }
  | makeRoom {s : SinvalState Msg} {t : ℕ} {seg : SISeg Msg} {needSig : Option ℕ} (hlock : s.lock = some (t, .recheck))
      (hroom : ¬ s.seg.HasRoom (min (s.data t).length writeQuantum)) (hreaders : ∀ i, ¬ (s.reader i).Locked)
      (hclean : s.seg.siCleanupQueue (min (s.data t).length writeQuantum) = (seg, needSig)) :
      SinvalStep s .quiet { s with seg := seg, lock := SinvalState.lockAfter t needSig }
  | room {s : SinvalState Msg} {t : ℕ} (hlock : s.lock = some (t, .recheck))
      (hroom : s.seg.HasRoom (min (s.data t).length writeQuantum)) :
      SinvalStep s .quiet { s with lock := some (t, .copy (min (s.data t).length writeQuantum) s.seg.maxMsgNum) }
  | copy {s : SinvalState Msg} {t k : ℕ} {max : ℤ} {msg : Msg} {data : List Msg}
      (hlock : s.lock = some (t, .copy (k + 1) max)) (hdata : s.data t = msg :: data) :
      SinvalStep s (.copied t msg)
        { s with seg := s.seg.store max msg, data := update s.data t data
                 lock := some (t, .copy k (max + 1)) }
  | publish {s : SinvalState Msg} {t : ℕ} {max : ℤ} (hlock : s.lock = some (t, .copy 0 max)) :
      SinvalStep s .quiet { s with seg := { s.seg with maxMsgNum := max }, lock := some (t, .kick 0) }
  | kick {s : SinvalState Msg} {t i : ℕ} (hlock : s.lock = some (t, .kick i)) (hi : i < s.seg.lastBackend) :
      SinvalStep s .quiet { s with seg := s.seg.kick i, lock := some (t, .kick (i + 1)) }
  | unlock {s : SinvalState Msg} {t i : ℕ} (hlock : s.lock = some (t, .kick i)) (hi : s.seg.lastBackend ≤ i) :
      SinvalStep s .unlock { s with lock := none }
  | cleanup {s : SinvalState Msg} {seg : SISeg Msg} {needSig : Option ℕ} (hlock : s.lock = none)
      (hreaders : ∀ i, ¬ (s.reader i).Locked) (hclean : s.seg.siCleanupQueue 0 = (seg, needSig)) :
      SinvalStep s .quiet { s with seg := seg }
  | join {s : SinvalState Msg} {i lxid procPid : ℕ} {sendOnly : Bool} {seg : SISeg Msg} (hlock : s.lock = none)
      (hpid : procPid ≠ 0) (hinit : s.seg.sharedInvalReserveBackendInit procPid sendOnly = some (i, lxid, seg)) :
      SinvalStep s (.joined i) { s with seg := seg }
  | joinSession {s : SinvalState Msg} {i lxid procPid : ℕ} {sendOnly : Bool} {seg : SISeg Msg} (hlock : s.lock = none)
      (hpid : procPid ≠ 0) (hinit : s.seg.sharedInvalWorkSessionInit i procPid sendOnly = some (lxid, seg)) :
      SinvalStep s (.joined i) { s with seg := seg }
  | leave {s : SinvalState Msg} {i lxid : ℕ} (hlock : s.lock = none) (hactive : (s.seg.procState i).procPid ≠ 0)
      (hidle : s.reader i = .idle) (hindex : i < s.seg.maxreserveBackends) :
      SinvalStep s (.left i) { s with seg := s.seg.cleanupInvalidationState i lxid }
  | leaveSession {s : SinvalState Msg} {i lxid : ℕ} (hlock : s.lock = none)
      (hactive : (s.seg.procState i).procPid ≠ 0) (hidle : s.reader i = .idle)
      (hindex : s.seg.maxreserveBackends ≤ i) :
      SinvalStep s (.left i) { s with seg := s.seg.cleanupWorkSessionInvalidation i lxid }
  | call {s : SinvalState Msg} {i datasize : ℕ} (hreads : s.Reads i) (hidle : s.reader i = .idle) :
      SinvalStep s (.called i datasize) (s.setReader s.seg i (.called datasize))
  | nothing {s : SinvalState Msg} {i datasize : ℕ} (hplace : s.reader i = .called datasize)
      (hflag : (s.seg.procState i).hasMessages = false) :
      SinvalStep s (.returned i datasize 0) (s.setReader s.seg i .idle)
  | test {s : SinvalState Msg} {i datasize : ℕ} (hplace : s.reader i = .called datasize)
      (hflag : (s.seg.procState i).hasMessages = true) :
      SinvalStep s .quiet (s.setReader s.seg i (.tested datasize))
  | clear {s : SinvalState Msg} {i datasize : ℕ} (hplace : s.reader i = .tested datasize) :
      SinvalStep s .quiet (s.setReader (s.seg.clearFlag i) i (.cleared datasize))
  | fetch {s : SinvalState Msg} {i datasize : ℕ} (hplace : s.reader i = .cleared datasize) :
      SinvalStep s .quiet (s.setReader s.seg i (.fetched datasize s.seg.maxMsgNum))
  | reset {s : SinvalState Msg} {i datasize : ℕ} {max : ℤ} (hplace : s.reader i = .fetched datasize max)
      (hreset : (s.seg.procState i).resetState = true) :
      SinvalStep s (.returned i datasize (-1)) (s.setReader (s.seg.takeReset i max) i .idle)
  | enter {s : SinvalState Msg} {i datasize : ℕ} {max : ℤ} (hplace : s.reader i = .fetched datasize max)
      (hreset : (s.seg.procState i).resetState = false) :
      SinvalStep s .quiet (s.setReader s.seg i (.loop datasize max 0))
  | take {s : SinvalState Msg} {i datasize n : ℕ} {max : ℤ} (hplace : s.reader i = .loop datasize max n)
      (hn : n < datasize) (hnext : (s.seg.procState i).nextMsgNum < max) :
      SinvalStep s (.got i (s.seg.nextMessage i)) (s.setReader (s.seg.advance i) i (.loop datasize max (n + 1)))
  | finish {s : SinvalState Msg} {i datasize n : ℕ} {max : ℤ} (hplace : s.reader i = .loop datasize max n)
      (hdone : ¬(n < datasize ∧ (s.seg.procState i).nextMsgNum < max)) :
      SinvalStep s (.returned i datasize n) (s.setReader (s.seg.finishRead i max) i .idle)

/-! ## What a cleanup does -/

/-- The backend is not ignored when the oldest message still needed is looked for. -/
def ProcState.Counts (p : ProcState) : Prop := p.procPid ≠ 0 ∧ p.resetState = false ∧ p.sendOnly = false

/-- The backends that the cleanup scan does not pass over. -/
lemma ProcState.counts_iff {p : ProcState} : p.Counts ↔ ¬(p.procPid = 0 ∨ p.resetState ∨ p.sendOnly) := by
  rw [Counts, not_or, not_or, Bool.not_eq_true, Bool.not_eq_true]

namespace SISeg

variable {seg seg' : SISeg Msg} {procState procState' : ℕ → ProcState} {max lowbound least : ℤ} {n maxreserve : ℕ}

/-- The first `n` backends are scanned. -/
structure Scanned (procState : ℕ → ProcState) (max lowbound : ℤ) (n : ℕ) (procState' : ℕ → ProcState) (least : ℤ) :
    Prop where
  kept : ∀ i, procState' i = procState i ∨
    (procState i).nextMsgNum < lowbound ∧ procState' i = { procState i with resetState := true }
  rest : ∀ i, n ≤ i → procState' i = procState i
  le_max : least ≤ max
  le_next : ∀ i < n, (procState' i).Counts → least ≤ (procState i).nextMsgNum
  greatest : ∀ b ≤ max, (∀ i < n, (procState i).Counts → lowbound ≤ (procState i).nextMsgNum →
    b ≤ (procState i).nextMsgNum) → b ≤ least

namespace Scanned

/-- Nothing is scanned at first. -/
lemma start : Scanned procState max lowbound 0 procState max where
  kept _ := .inl rfl
  rest _ _ := rfl
  le_max := le_rfl
  le_next _ hi := absurd hi (Nat.not_lt_zero _)
  greatest _ hb _ := hb

section

variable (h : Scanned procState max lowbound n procState' least)
include h

/-- A backend that is not reset lowers the minimum. -/
lemma lower (hcounts : (procState n).Counts) (hlow : lowbound ≤ (procState n).nextMsgNum) :
    Scanned procState max lowbound (n + 1) procState'
      (if (procState n).nextMsgNum < least then (procState n).nextMsgNum else least) := by
  have hmin : (if (procState n).nextMsgNum < least then (procState n).nextMsgNum else least) =
      min (procState n).nextMsgNum least := by
    rw [min_def]
    split_ifs <;> omega
  rw [hmin]
  refine ⟨h.kept, fun i hi => h.rest i (Nat.le_of_succ_le hi), le_trans (min_le_right _ _) h.le_max, ?_, ?_⟩
  · intro i hi hi'
    obtain hlt | rfl := Nat.lt_succ_iff_lt_or_eq.mp hi
    · exact le_trans (min_le_right _ _) (h.le_next i hlt hi')
    · exact min_le_left _ _
  · intro b hb hall
    exact le_min (hall n n.lt_succ_self hcounts hlow) (h.greatest b hb fun i hi => hall i (Nat.lt_succ_of_lt hi))

/-- An ignored backend changes nothing. -/
lemma ignore (hcounts : ¬ (procState n).Counts) : Scanned procState max lowbound (n + 1) procState' least := by
  refine ⟨h.kept, fun i hi => h.rest i (Nat.le_of_succ_le hi), h.le_max, ?_, ?_⟩
  · intro i hi hi'
    obtain hlt | rfl := Nat.lt_succ_iff_lt_or_eq.mp hi
    · exact h.le_next i hlt hi'
    · exact absurd (h.rest i le_rfl ▸ hi') hcounts
  · exact fun b hb hall => h.greatest b hb fun i hi => hall i (Nat.lt_succ_of_lt hi)

/-- A backend that holds back too much is reset. -/
lemma reset (hlow : (procState n).nextMsgNum < lowbound) :
    Scanned procState max lowbound (n + 1)
      (update procState' n { procState n with resetState := true }) least := by
  refine ⟨?_, ?_, h.le_max, ?_, ?_⟩
  · intro i
    by_cases hi : i = n
    · subst hi
      exact .inr ⟨hlow, update_self ..⟩
    · rw [update_of_ne hi]
      exact h.kept i
  · intro i hi
    rw [update_of_ne (Nat.ne_of_gt hi)]
    exact h.rest i (Nat.le_of_succ_le hi)
  · intro i hi hcounts
    obtain hlt | rfl := Nat.lt_succ_iff_lt_or_eq.mp hi
    · rw [update_of_ne (Nat.ne_of_lt hlt)] at hcounts
      exact h.le_next i hlt hcounts
    · rw [update_self] at hcounts
      exact absurd hcounts.2.1 Bool.noConfusion
  · exact fun b hb hall => h.greatest b hb fun i hi => hall i (Nat.lt_succ_of_lt hi)

end

/-- A round scans one backend more. -/
lemma step {scan : Scan} (h : Scanned procState max lowbound n scan.procState scan.min) :
    Scanned procState max lowbound (n + 1) (scanBackend maxreserve lowbound scan n).procState
      (scanBackend maxreserve lowbound scan n).min := by
  have hn : scan.procState n = procState n := h.rest n le_rfl
  rw [scanBackend, hn]
  dsimp only
  split_ifs with hignored hlow hmin hsig hsig
  · exact h.ignore fun hcounts => ProcState.counts_iff.mp hcounts hignored
  · exact h.reset hlow
  all_goals
    have hlower := h.lower (ProcState.counts_iff.mpr hignored) (not_lt.mp hlow)
  · rwa [if_pos hmin] at hlower
  · rwa [if_pos hmin] at hlower
  · rwa [if_neg hmin] at hlower
  · rwa [if_neg hmin] at hlower

end Scanned

/-- The loop scans all backends. -/
lemma scanBackends_scanned (seg : SISeg Msg) (minFree : ℕ) :
    Scanned seg.procState seg.maxMsgNum (seg.maxMsgNum - maxNumMessages + minFree) seg.lastBackend
      (seg.scanBackends minFree).procState (seg.scanBackends minFree).min := by
  rw [scanBackends]
  generalize seg.lastBackend = n
  induction n with
  | zero => exact .start
  | succ n ih =>
    rw [List.range_succ, List.foldl_append]
    exact ih.step

/-- The counters go down by `wrap`, the slots that are not needed any more become free, and a backend is reset only if it
is further behind than there is space. -/
structure Cleaned (seg : SISeg Msg) (minFree : ℕ) (wrap : ℤ) (seg' : SISeg Msg) : Prop where
  wrap_nonneg : 0 ≤ wrap
  wrap_mod : wrap % maxNumMessages = 0
  max_eq : seg'.maxMsgNum = seg.maxMsgNum - wrap
  min_lt : seg.maxMsgNum < 2 * msgNumWraparound → seg'.minMsgNum < msgNumWraparound
  min_nonneg : 0 ≤ seg'.minMsgNum + wrap → 0 ≤ seg'.minMsgNum
  min_le : seg'.minMsgNum ≤ seg'.maxMsgNum
  le_min : ∀ b ≤ seg.maxMsgNum, (∀ i < seg.lastBackend, (seg.procState i).Counts →
    seg.maxMsgNum - maxNumMessages + minFree ≤ (seg.procState i).nextMsgNum → b ≤ (seg.procState i).nextMsgNum) →
    b ≤ seg'.minMsgNum + wrap
  threshold : seg'.maxMsgNum - seg'.minMsgNum < seg'.nextThreshold
  backends : seg'.lastBackend = seg.lastBackend ∧ seg'.lastreserveBackend = seg.lastreserveBackend ∧
    seg'.maxBackends = seg.maxBackends ∧ seg'.maxreserveBackends = seg.maxreserveBackends
  buffer : seg'.buffer = seg.buffer
  same : ∀ i, (seg'.procState i).procPid = (seg.procState i).procPid ∧
    (seg'.procState i).sendOnly = (seg.procState i).sendOnly ∧
    (seg'.procState i).hasMessages = (seg.procState i).hasMessages
  next_eq : ∀ i < seg.lastBackend, (seg.procState i).procPid ≠ 0 →
    (seg'.procState i).nextMsgNum = (seg.procState i).nextMsgNum - wrap
  min_le_next : ∀ i < seg.lastBackend, (seg'.procState i).Counts → seg'.minMsgNum ≤ (seg'.procState i).nextMsgNum
  reset : ∀ i, (seg'.procState i).resetState = (seg.procState i).resetState ∨
    (seg'.procState i).resetState = true ∧
      (seg.procState i).nextMsgNum < seg.maxMsgNum - maxNumMessages + minFree

/-- The counters that mean something go down by `wrap`. -/
def lowered (seg : SISeg Msg) (wrap : ℤ) : SISeg Msg :=
  { seg with
    minMsgNum := seg.minMsgNum - wrap
    maxMsgNum := seg.maxMsgNum - wrap
    procState := fun i =>
      if i < seg.lastBackend ∧ (seg.procState i).procPid ≠ 0 then
        { seg.procState i with nextMsgNum := (seg.procState i).nextMsgNum - wrap }
      else seg.procState i }

/-- The numbers are lowered by one amount, or not at all. -/
lemma wraparound_lowered (seg : SISeg Msg) : ∃ wrap, seg.wraparound = seg.lowered wrap ∧
    (wrap = 0 ∧ seg.minMsgNum < msgNumWraparound ∨ wrap = msgNumWraparound ∧ msgNumWraparound ≤ seg.minMsgNum) := by
  by_cases hmin : msgNumWraparound ≤ seg.minMsgNum
  · exact ⟨msgNumWraparound, if_pos hmin, .inr ⟨rfl, hmin⟩⟩
  · refine ⟨0, ?_, .inl ⟨rfl, not_le.mp hmin⟩⟩
    have hproc : (fun i => if i < seg.lastBackend ∧ (seg.procState i).procPid ≠ 0 then
        { seg.procState i with nextMsgNum := (seg.procState i).nextMsgNum - 0 } else seg.procState i) =
        seg.procState := by
      funext i
      rw [Int.sub_zero, ite_self]
    rw [wraparound, if_neg hmin, lowered, hproc, Int.sub_zero, Int.sub_zero]

/-- Lowering keeps all but the numbers of a backend. -/
lemma lowered_proc (seg : SISeg Msg) (wrap : ℤ) (i : ℕ) :
    ((seg.lowered wrap).procState i).procPid = (seg.procState i).procPid ∧
    ((seg.lowered wrap).procState i).sendOnly = (seg.procState i).sendOnly ∧
    ((seg.lowered wrap).procState i).hasMessages = (seg.procState i).hasMessages ∧
    ((seg.lowered wrap).procState i).resetState = (seg.procState i).resetState := by
  rw [lowered]
  dsimp only
  split_ifs <;> exact ⟨rfl, rfl, rfl, rfl⟩

/-- A backend in use is lowered with the queue. -/
lemma lowered_next (seg : SISeg Msg) (wrap : ℤ) {i : ℕ} (hi : i < seg.lastBackend)
    (hactive : (seg.procState i).procPid ≠ 0) :
    ((seg.lowered wrap).procState i).nextMsgNum = (seg.procState i).nextMsgNum - wrap := by
  rw [lowered]
  dsimp only
  rw [if_pos ⟨hi, hactive⟩]

/-- Signalling changes one flag of a backend. -/
lemma markSignaled_proc (seg : SISeg Msg) (needSig : Option ℕ) (i : ℕ) :
    ∃ signaled, (seg.markSignaled needSig).procState i = { seg.procState i with signaled := signaled } := by
  cases needSig with
  | none => exact ⟨_, rfl⟩
  | some j =>
    rw [markSignaled, setProc]
    dsimp only
    by_cases hi : i = j
    · subst hi
      exact ⟨true, update_self ..⟩
    · exact ⟨_, update_of_ne hi ..⟩

/-- Signalling changes backends only. -/
lemma markSignaled_rest (seg : SISeg Msg) (needSig : Option ℕ) :
    seg.markSignaled needSig = { seg with procState := (seg.markSignaled needSig).procState } := by
  cases needSig <;> rfl

/-- The next threshold is above the messages there are. -/
lemma lt_threshold (numMsgs : ℤ) :
    numMsgs < if numMsgs < cleanupMin then cleanupMin else (numMsgs / cleanupQuantum + 1) * cleanupQuantum := by
  split_ifs with h
  · exact h
  · exact Int.lt_mul_of_ediv_lt (by decide) (Int.lt_succ _)

/-- What a cleanup does to the queue. -/
lemma siCleanupQueue_cleaned (seg : SISeg Msg) (minFree : ℕ) :
    ∃ wrap, Cleaned seg minFree wrap (seg.siCleanupQueue minFree).1 := by
  have hscan := seg.scanBackends_scanned minFree
  obtain ⟨wrap, hwrap, hcases⟩ := wraparound_lowered
    { seg with procState := (seg.scanBackends minFree).procState, minMsgNum := (seg.scanBackends minFree).min }
  rw [siCleanupQueue]
  dsimp only
  rw [hwrap]
  generalize (seg.scanBackends minFree).needSig = needSig
  generalize (seg.scanBackends minFree).min = least at hscan hcases ⊢
  generalize (seg.scanBackends minFree).procState = procState' at hscan hcases ⊢
  -- what the scan left, with the counters lowered
  set low := SISeg.lowered { seg with procState := procState', minMsgNum := least } wrap with hlow
  have hproc : ∀ i, (low.procState i).procPid = (procState' i).procPid ∧
      (low.procState i).sendOnly = (procState' i).sendOnly ∧
      (low.procState i).hasMessages = (procState' i).hasMessages ∧
      (low.procState i).resetState = (procState' i).resetState := fun i => lowered_proc _ wrap i
  have hsig := markSignaled_proc low.setThreshold needSig
  rw [markSignaled_rest]
  have hkept : ∀ i, (procState' i).procPid = (seg.procState i).procPid ∧
      (procState' i).sendOnly = (seg.procState i).sendOnly ∧
      (procState' i).hasMessages = (seg.procState i).hasMessages ∧
      (procState' i).nextMsgNum = (seg.procState i).nextMsgNum := by
    intro i
    obtain h | ⟨-, h⟩ := hscan.kept i
    all_goals
      rw [h]
      exact ⟨rfl, rfl, rfl, rfl⟩
  have hnext : ∀ i < seg.lastBackend, (seg.procState i).procPid ≠ 0 →
      (low.procState i).nextMsgNum = (seg.procState i).nextMsgNum - wrap := by
    intro i hi hactive
    have hlowered := lowered_next { seg with procState := procState', minMsgNum := least } wrap hi
      ((hkept i).1.symm ▸ hactive)
    exact hlowered.trans (congrArg (· - wrap) (hkept i).2.2.2)
  refine ⟨wrap, ?_⟩
  constructor
  case wrap_nonneg => obtain ⟨rfl, -⟩ | ⟨rfl, -⟩ := hcases <;> decide
  case wrap_mod => obtain ⟨rfl, -⟩ | ⟨rfl, -⟩ := hcases <;> decide
  case max_eq => exact rfl
  case min_lt =>
    intro hmax
    have hle := hscan.le_max
    show least - wrap < msgNumWraparound
    obtain ⟨rfl, h⟩ | ⟨rfl, h⟩ := hcases <;> dsimp only at h <;> omega
  case min_nonneg =>
    intro hmin
    show 0 ≤ least - wrap
    replace hmin : 0 ≤ least - wrap + wrap := hmin
    obtain ⟨rfl, h⟩ | ⟨rfl, h⟩ := hcases <;> dsimp only at h <;> omega
  case min_le => exact Int.sub_le_sub_right hscan.le_max wrap
  case le_min =>
    intro b hb hall
    show b ≤ least - wrap + wrap
    rw [Int.sub_add_cancel]
    exact hscan.greatest b hb hall
  case threshold => exact lt_threshold _
  case backends => exact ⟨rfl, rfl, rfl, rfl⟩
  case buffer => exact rfl
  case same =>
    intro i
    obtain ⟨signaled, h⟩ := hsig i
    dsimp only
    rw [h]
    exact ⟨(hproc i).1.trans (hkept i).1, (hproc i).2.1.trans (hkept i).2.1, (hproc i).2.2.1.trans (hkept i).2.2.1⟩
  case next_eq =>
    intro i hi hactive
    obtain ⟨signaled, h⟩ := hsig i
    dsimp only
    rw [h]
    exact hnext i hi hactive
  case min_le_next =>
    intro i hi hcounts
    obtain ⟨signaled, h⟩ := hsig i
    dsimp only at hcounts ⊢
    rw [h] at hcounts ⊢
    obtain ⟨hactive, hreset, honly⟩ := hcounts
    replace hactive : (procState' i).procPid ≠ 0 := (hproc i).1 ▸ hactive
    show least - wrap ≤ (low.procState i).nextMsgNum
    rw [hnext i hi ((hkept i).1 ▸ hactive)]
    exact Int.sub_le_sub_right
      (hscan.le_next i hi ⟨hactive, (hproc i).2.2.2 ▸ hreset, (hproc i).2.1 ▸ honly⟩) wrap
  case reset =>
    intro i
    obtain ⟨signaled, h⟩ := hsig i
    dsimp only
    rw [h]
    have hreset : (low.procState i).resetState = (procState' i).resetState := (hproc i).2.2.2
    obtain hk | ⟨hlt, hk⟩ := hscan.kept i
    · exact .inl (hreset.trans (congrArg _ hk))
    · exact .inr ⟨hreset.trans (congrArg _ hk), hlt⟩

end SISeg

end GaussKernel.Ipc
