import GaussKernel.Lib.Linked
import GaussKernel.Lib.Trace
import GaussKernel.Replication.ShmQueue
import GaussKernel.Replication.SyncRep

/-!
# The wait queues of synchronous replication

A backend that commits waits in the queue of its mode until the standbys have its record. A walsender cuts all that need
not wait any more out of the queue in one piece and notifies the first only, the leader, who later hands the
notification on along the links of the piece, without the lock.

A step is a section under `SyncRepLock` or one notification; between its steps a backend is in one of the places of
`Phase`. To raise `lsn[mode]` and to wake the queue is one section of a walsender. Here these are two steps, so that
others may come in between.
-/

namespace GaussKernel.Replication

open GaussKernel.Lib
open Function (update)

inductive SyncRepState
  | notWaiting
  | waiting
  | waitComplete
  deriving DecidableEq

/-- A `SHM_QUEUE`: the head of a queue, or the `syncRepLinks` of a backend. -/
inductive ShmElem
  | head (mode : SyncRepWaitMode)
  | proc (b : ℕ)
  deriving DecidableEq

/-- Where a backend is, between its steps. -/
inductive Phase
  | idle
  /-- In the loop of `SyncRepWaitForLSN`. -/
  | waiting
  /-- Behind the loop. -/
  | stopped
  /-- In `SyncRepNotifyComplete`, on behalf of `SyncRepWaitForLSN` or of an exit. -/
  | notifying (nextElement : Option ShmElem) (atExit : Bool)
  /-- In `SyncRepCleanupAtProcExit`, before the lock. -/
  | exiting
  | waitCompletionQueue
  | gone
  deriving DecidableEq

structure SyncRepShmem where
  links : Links ShmElem
  syncRepState : ℕ → SyncRepState
  syncRepInCompleteQueue : ℕ → Bool
  waitLSN : ℕ → XLogRecPtr
  lsn : SyncRepWaitMode → XLogRecPtr
  phase : ℕ → Phase

def SyncRepShmem.start : SyncRepShmem where
  links :=
    { next := fun e => match e with | .head mode => some (.head mode) | .proc _ => none
      prev := fun e => match e with | .head mode => some (.head mode) | .proc _ => none }
  syncRepState := fun _ => .notWaiting
  syncRepInCompleteQueue := fun _ => false
  waitLSN := fun _ => 0
  lsn := fun _ => 0
  phase := fun _ => .idle

namespace SyncRepShmem

def setPhase (s : SyncRepShmem) (b : ℕ) (phase : Phase) : SyncRepShmem :=
  { s with phase := update s.phase b phase }

def setState (s : SyncRepShmem) (b : ℕ) (state : SyncRepState) : SyncRepShmem :=
  { s with syncRepState := update s.syncRepState b state }

end SyncRepShmem

/-- The address of a `PGPROC` from that of its links. -/
def procOf : Option ShmElem → Option (Option ℕ)
  | none => some none
  | some (.proc b) => some (some b)
  | some (.head _) => none

def nextProc (ln : Links ShmElem) (mode : SyncRepWaitMode) (curElem : ShmElem) : Option (Option ℕ) :=
  shmQueueNext ln (.head mode) curElem >>= procOf

def prevProc (ln : Links ShmElem) (mode : SyncRepWaitMode) (curElem : ShmElem) : Option (Option ℕ) :=
  shmQueuePrev ln (.head mode) curElem >>= procOf

/-! ## Enqueueing -/

/-- The loop of `SyncRepQueueInsert`. -/
def insertLoop (s : SyncRepShmem) (mode : SyncRepWaitMode) (waitLSN : XLogRecPtr) :
    ℕ → Option ℕ → Option (Option ℕ)
  | 0, _ => none
  | _ + 1, none => some none
  | fuel + 1, some proc =>
    if s.waitLSN proc ≤ waitLSN then some (some proc)
    else prevProc s.links mode (.proc proc) >>= insertLoop s mode waitLSN fuel

def syncRepQueueInsert (fuel : ℕ) (s : SyncRepShmem) (b : ℕ) (mode : SyncRepWaitMode) : Option SyncRepShmem := do
  let proc ← prevProc s.links mode (.head mode)
  let place ← insertLoop s mode (s.waitLSN b) fuel proc
  let links ← shmQueueInsertAfter s.links (place.elim (.head mode) .proc) (.proc b)
  some { s with links := links }

/-- The section of `SyncRepWaitForLSN` that enters the queue. -/
def syncRepEnqueue (fuel : ℕ) (s : SyncRepShmem) (b : ℕ) (xactCommitLSN : XLogRecPtr)
    (mode : SyncRepWaitMode) : Option SyncRepShmem :=
  syncRepQueueInsert fuel
    { s with waitLSN := update s.waitLSN b xactCommitLSN
             syncRepState := update s.syncRepState b .waiting } b mode

/-! ## Cancelling -/

/-- The part of a queue section that `SyncRepCancelWait` and `SyncRepCleanupAtProcExit` share. -/
def deleteIfQueued (s : SyncRepShmem) (b : ℕ) : Option SyncRepShmem :=
  if shmQueueIsDetached s.links (.proc b) then some s
  else (shmQueueDelete s.links (.proc b)).map fun links => { s with links := links }

/-- Whether the wait was cancelled. -/
def syncRepCancelWait (s : SyncRepShmem) (b : ℕ) : Option (SyncRepShmem × Bool) :=
  if s.syncRepInCompleteQueue b then some (s, false)
  else (deleteIfQueued s b).map fun s' => (s'.setState b .notWaiting, true)

/-- The section of `SyncRepCleanupAtProcExit`: whether that is all. -/
def syncRepCleanupSection (s : SyncRepShmem) (b : ℕ) : Option (SyncRepShmem × Bool) :=
  if s.syncRepInCompleteQueue b then some (s, false) else (deleteIfQueued s b).map fun s' => (s', true)

/-! ## Waking -/

/-- The loop of `SyncRepWakeQueue`. -/
def wakeLoop (all : Bool) (mode : SyncRepWaitMode) :
    ℕ → SyncRepShmem → Option ℕ → ShmElem → Option (SyncRepShmem × ShmElem)
  | 0, _, _, _ => none
  | _ + 1, s, none, pTail => some (s, pTail)
  | fuel + 1, s, some thisproc, pTail =>
    if !all && s.lsn mode < s.waitLSN thisproc then some (s, pTail)
    else do
      let proc ← nextProc s.links mode (.proc thisproc)
      wakeLoop all mode fuel
        { s with syncRepInCompleteQueue := update s.syncRepInCompleteQueue thisproc true } proc (.proc thisproc)

/-- The piece up to `pTail` is cut out, and its first element given. -/
def cutSegment {E : Type*} [DecidableEq E] (ln : Links E) (pHead pTail : E) : Option (Links E × E) := do
  let leader ← ln.next pHead
  let ln := ln.setPrev leader none
  let ln := ln.setNext pHead (ln.next pTail)
  let after ← ln.next pTail
  let ln := ln.setPrev after (some pHead)
  some (ln.setNext pTail none, leader)

/-- `SyncRepWakeQueue`, with the leader that it notified. -/
def syncRepWakeQueue (fuel : ℕ) (all : Bool) (mode : SyncRepWaitMode) (s : SyncRepShmem) :
    Option (SyncRepShmem × Option ℕ) := do
  let proc ← nextProc s.links mode (.head mode)
  let (s, pTail) ← wakeLoop all mode fuel s proc (.head mode)
  if pTail = .head mode then some (s, none)
  else do
    let (links, elem) ← cutSegment s.links (.head mode) pTail
    let leader ← procOf (some elem)
    match leader with
    | none => none
    | some leaderProc => some ({ s with links := links }.setState leaderProc .waitComplete, some leaderProc)

/-! ## Handing on -/

/-- One round of the loop of `SyncRepNotifyComplete`, on the links of `curProc`. -/
def notifyOne (s : SyncRepShmem) (curProc : ℕ) : SyncRepShmem × Option ShmElem :=
  ({ s with links := shmQueueElemInit s.links (.proc curProc) }.setState curProc .waitComplete,
    s.links.next (.proc curProc))

/-! ## Steps -/

inductive SyncEvent
  | enqueue (b : ℕ) (xactCommitLSN : XLogRecPtr) (mode : SyncRepWaitMode)
  | raise (mode : SyncRepWaitMode) (lsn : XLogRecPtr)
  | wake (all : Bool) (mode : SyncRepWaitMode) (leader : Option ℕ)
  | cancel (b : ℕ)
  | seeComplete (b : ℕ)
  | startNotify (b : ℕ)
  | notify (b curProc : ℕ)
  | finish (b : ℕ)
  | exit (b : ℕ)
  | cleanup (b : ℕ)
  | waited (b : ℕ)
  | init (b : ℕ)
  deriving DecidableEq

/-- The test of `SyncRepCleanupAtProcExit` before the lock. -/
def needsCleanup (s : SyncRepShmem) (b : ℕ) : Bool :=
  (s.links.prev (.proc b)).isSome || (s.links.next (.proc b)).isSome || s.syncRepState b ≠ .notWaiting

inductive SyncStep (s : SyncRepShmem) : SyncEvent → SyncRepShmem → Prop where
  | enqueue {b fuel : ℕ} {xactCommitLSN : XLogRecPtr} {mode : SyncRepWaitMode} {s' : SyncRepShmem}
      (hphase : s.phase b = .idle) (hlsn : s.lsn mode < xactCommitLSN)
      (hinsert : syncRepEnqueue fuel s b xactCommitLSN mode = some s') :
      SyncStep s (.enqueue b xactCommitLSN mode) (s'.setPhase b .waiting)
  | raise {mode : SyncRepWaitMode} {lsn : XLogRecPtr} (hlsn : s.lsn mode < lsn) :
      SyncStep s (.raise mode lsn) { s with lsn := update s.lsn mode lsn }
  | wake {all : Bool} {mode : SyncRepWaitMode} {fuel : ℕ} {s' : SyncRepShmem} {leader : Option ℕ}
      (hwake : syncRepWakeQueue fuel all mode s = some (s', leader)) : SyncStep s (.wake all mode leader) s'
  | cancel {b : ℕ} {s' : SyncRepShmem} (hphase : s.phase b = .waiting)
      (hcancel : syncRepCancelWait s b = some (s', true)) : SyncStep s (.cancel b) (s'.setPhase b .stopped)
  | cancelFails {b : ℕ} {s' : SyncRepShmem} (hphase : s.phase b = .waiting)
      (hcancel : syncRepCancelWait s b = some (s', false)) : SyncStep s (.cancel b) s'
  | seeComplete {b : ℕ} (hphase : s.phase b = .waiting) (hstate : s.syncRepState b = .waitComplete) :
      SyncStep s (.seeComplete b) (s.setPhase b .stopped)
  | startNotify {b : ℕ} {e : ShmElem} (hphase : s.phase b = .stopped) (hnext : s.links.next (.proc b) = some e) :
      SyncStep s (.startNotify b)
        ({ s with links := s.links.setNext (.proc b) none }.setPhase b (.notifying (some e) false))
  | notify {b curProc : ℕ} {atExit : Bool} (hphase : s.phase b = .notifying (some (.proc curProc)) atExit) :
      SyncStep s (.notify b curProc)
        ((notifyOne s curProc).1.setPhase b (.notifying (notifyOne s curProc).2 atExit))
  /-- The end of `SyncRepWaitForLSN`. -/
  | finish {b : ℕ} (hphase : s.phase b = .stopped ∧ s.links.next (.proc b) = none ∨ s.phase b = .notifying none false) :
      SyncStep s (.finish b)
        (({ s with syncRepInCompleteQueue := update s.syncRepInCompleteQueue b false
                   waitLSN := update s.waitLSN b 0 }.setState b .notWaiting).setPhase b .idle)
  | exit {b : ℕ} (hphase : s.phase b = .idle ∨ s.phase b = .waiting ∨ s.phase b = .stopped) :
      SyncStep s (.exit b) (s.setPhase b (if needsCleanup s b then .exiting else .gone))
  | cleanup {b : ℕ} {s' : SyncRepShmem} {released : Bool} (hphase : s.phase b = .exiting)
      (hcleanup : syncRepCleanupSection s b = some (s', released)) :
      SyncStep s (.cleanup b) (s'.setPhase b (if released then .gone else .waitCompletionQueue))
  /-- `SyncRepWaitCompletionQueue` has seen that the state is not waiting any more. -/
  | waited {b : ℕ} (hphase : s.phase b = .waitCompletionQueue) (hstate : s.syncRepState b ≠ .waiting) :
      SyncStep s (.waited b)
        (if s.syncRepState b = .waitComplete ∧ (s.links.next (.proc b)).isSome then
          { s with links := s.links.setNext (.proc b) none }.setPhase b
            (.notifying (s.links.next (.proc b)) true)
        else s.setPhase b .gone)
  | exited {b : ℕ} (hphase : s.phase b = .notifying none true) : SyncStep s (.exit b) (s.setPhase b .gone)
  /-- `InitProcess` of a new backend on the same `PGPROC`. -/
  | init {b : ℕ} (hphase : s.phase b = .gone) :
      SyncStep s (.init b)
        (({ s with waitLSN := update s.waitLSN b 0
                   syncRepInCompleteQueue := update s.syncRepInCompleteQueue b false
                   links := shmQueueElemInit s.links (.proc b) }.setState b .notWaiting).setPhase b .idle)

end GaussKernel.Replication
