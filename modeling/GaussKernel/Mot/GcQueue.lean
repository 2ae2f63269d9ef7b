import GaussKernel.Lib.Linked

/-!
# The garbage queue of MOT

Model of `LimboGroup` and `GcQueue` (`mm_gc_queue.h`, `mm_gc_queue.cpp`). Objects are named by the number of their
`PushBack`; what the destructor of an object does is its size and the sentinels that it leaves in the delete vector.
A limbo group has the address by which `m_next` and the queue refer to it; of the array of its elements there are those
from `m_head` up to `m_tail`.
-/

namespace GaussKernel.Mot

open Lib

inductive DestroyValueCbFunc where
  | nullDtor
  | dtor
  deriving DecidableEq, Repr

inductive GcQueueType where
  | deleteQueue | versionQueue | updateColumnQueue | genericQueue
  deriving DecidableEq, Repr

inductive GcOperationType where
  | operLocal | operDropIndex | operTruncate | alterTable
  deriving DecidableEq, Repr

structure LimboElement where
  /-- A null pointer marks the epoch of the elements behind it. -/
  m_objectPtr : Option Nat
  m_cb : DestroyValueCbFunc
  m_csn : UInt64
  m_indexId : UInt32
  deriving DecidableEq, Repr

structure LimboGroup where
  m_epoch : UInt64
  m_head : Nat
  m_elements : List LimboElement
  m_next : Option Nat
  deriving DecidableEq, Repr

namespace LimboGroup

/-- 4072 bytes in elements of 36 bytes. -/
def CAPACITY : Nat := 113

def m_tail (g : LimboGroup) : Nat := g.m_head + g.m_elements.length

/-- The constructor. -/
def new : LimboGroup := ⟨0, 0, [], none⟩

def reset (g : LimboGroup) : LimboGroup := { g with m_head := 0, m_elements := [], m_next := none }

/-- An epoch marker; the other fields of its slot are not read. -/
def marker (epoch : UInt64) : LimboElement := ⟨none, .nullDtor, epoch, 0⟩

def pushBack (g : LimboGroup) (indexId : UInt32) (objectPtr : Nat) (epoch : UInt64) : LimboGroup :=
  let g :=
    if g.m_elements = [] ∨ g.m_epoch ≠ epoch then
      { g with m_elements := g.m_elements ++ [marker epoch], m_epoch := epoch }
    else g
  { g with m_elements := g.m_elements ++ [⟨some objectPtr, .dtor, epoch, indexId⟩] }

end LimboGroup

structure GcReservedMemoryPool where
  groupAllocations : UInt32
  registeredElements : UInt32
  m_limboReservedMemory : List Nat

structure GcStats where
  m_totalLimboInuseElements : Nat
  m_totalLimboSizeInBytes : UInt64
  m_totalLimboSizeInBytesByCleanIndex : UInt64
  m_totalLimboReclaimedSizeInBytes : UInt64
  m_totalLimboRetiredSizeInBytes : UInt64
  m_limboGroupAllocations : UInt32

/-- What an object was recorded with. -/
structure Recorded where
  m_csn : UInt64
  m_indexId : UInt32
  deriving DecidableEq, Repr

structure GcQueue where
  m_queueType : GcQueueType
  m_stats : GcStats
  m_limboHead : Nat
  m_limboTail : Nat
  /-- The sentinels by their indexes. -/
  m_deleteVector : List UInt32
  m_reservedManager : GcReservedMemoryPool
  /-- The memory, and the groups in it that the queue has got. -/
  groups : Nat → LimboGroup
  live : List Nat
  /-- All objects that were ever pushed, and the numbers of those whose destructors were called. -/
  pushed : List Recorded
  called : List Nat

/-- What the destructors do that are called in one step. -/
structure Callback where
  size : Nat → UInt32
  deleted : Nat → List UInt32

/-- What the manager of the queue and the engine do in one step: an allocation hands out a group that the queue does
not have, if any. -/
structure GcManager where
  createNewLimboGroup : List Nat → Option Nat
  allocLimboGroupFromReserved : List Nat → Option Nat
  create_fresh : ∀ {live a}, createNewLimboGroup live = some a → a ∉ live
  reserved_fresh : ∀ {live a}, allocLimboGroupFromReserved live = some a → a ∉ live
  globalEpoch : UInt64
  sentinelSize : UInt32 → UInt32
  limboInuseElementsOfDeleteQueue : Nat

namespace GcQueue

/-- `Initialize`, with the group at `limboGroup`. -/
def init (type : GcQueueType) (limboGroup : Nat) : GcQueue where
  m_queueType := type
  m_stats := ⟨0, 0, 0, 0, 0, 1⟩
  m_limboHead := limboGroup
  m_limboTail := limboGroup
  m_deleteVector := []
  m_reservedManager := ⟨0, 0, []⟩
  groups := fun _ => .new
  live := [limboGroup]
  pushed := []
  called := []

def next (q : GcQueue) (a : Nat) : Option Nat := (q.groups a).m_next

def setGroup (q : GcQueue) (a : Nat) (g : LimboGroup) : GcQueue := { q with groups := Function.update q.groups a g }

def setNext (q : GcQueue) (a : Nat) (n : Option Nat) : GcQueue := q.setGroup a { q.groups a with m_next := n }

/-- The groups from `start` on by their `m_next`. -/
def chain (q : GcQueue) (start : Option Nat) : Option (List Nat) := follow q.next q.live.length start

def subInuse (q : GcQueue) (n : Nat) : GcQueue :=
  { q with m_stats := { q.m_stats with m_totalLimboInuseElements := q.m_stats.m_totalLimboInuseElements - n } }

def addAllocations (q : GcQueue) (n : UInt32) : GcQueue :=
  { q with m_stats := { q.m_stats with m_limboGroupAllocations := q.m_stats.m_limboGroupAllocations + n } }

def subAllocations (q : GcQueue) (n : UInt32) : GcQueue :=
  { q with m_stats := { q.m_stats with m_limboGroupAllocations := q.m_stats.m_limboGroupAllocations - n } }

/-- The call of a destructor. -/
def callDtor (cb : Callback) (q : GcQueue) (obj : Nat) : GcQueue :=
  { q with m_deleteVector := q.m_deleteVector ++ cb.deleted obj, called := q.called ++ [obj] }

/-! ## Groups -/

/-- A group of the manager's pool. -/
def createNewLimboGroup (m : GcManager) (q : GcQueue) : Option (Nat × GcQueue) :=
  match m.createNewLimboGroup q.live with
  | none => none
  | some a => some (a, { q.setGroup a .new with live := a :: q.live })

def allocLimboGroupFromReserved (m : GcManager) (q : GcQueue) : Option (Nat × GcQueue) :=
  match m.allocLimboGroupFromReserved q.live with
  | none => none
  | some a => some (a, { q.setGroup a (q.groups a).reset with live := a :: q.live })

def destroyLimboGroup (q : GcQueue) (a : Nat) : GcQueue := { q with live := q.live.erase a }

/-- `GcReservedMemoryPool::AllocLimboGroup` -/
def allocLimboGroup (q : GcQueue) : Option (Nat × GcQueue) :=
  match q.m_reservedManager.m_limboReservedMemory with
  | [] => none
  | e :: rest =>
    let pool := q.m_reservedManager
    some (e, { q with
      m_reservedManager := {
        groupAllocations := pool.groupAllocations - 1
        registeredElements := if pool.registeredElements > 113 then pool.registeredElements - 113 else 0
        m_limboReservedMemory := rest } })

/-- `std::ceil(double(n) / CAPACITY)` -/
def groupsFor (n : Nat) : Nat := (n + (LimboGroup.CAPACITY - 1)) / LimboGroup.CAPACITY

/-- `GcReservedMemoryPool::ReserveGCMemory` of the groups `list`. -/
def reserveGroups (q : GcQueue) (list : List Nat) (count : Nat) : GcQueue :=
  let pool := q.m_reservedManager
  { q with
    groups := fun a => if a ∈ list then (q.groups a).reset else q.groups a
    m_reservedManager := {
      groupAllocations := pool.groupAllocations + UInt32.ofNat (groupsFor count)
      registeredElements := pool.registeredElements + UInt32.ofNat count
      m_limboReservedMemory := pool.m_limboReservedMemory ++ list } }

def refillLimboGroup (m : GcManager) (q : GcQueue) : Option GcQueue :=
  match q.next q.m_limboTail with
  | some limboGroup => some { q with m_limboTail := limboGroup }
  | none =>
    let tail := q.m_limboTail
    -- first tier: the rollback pool
    match q.allocLimboGroupFromReserved m with
    | some (limboGroup, q) => some { (q.addAllocations 1).setNext tail (some limboGroup) with m_limboTail := limboGroup }
    | none =>
      -- second tier: the pool of the queue
      match q.allocLimboGroup with
      | some (limboGroup, q) => some { q.setNext tail (some limboGroup) with m_limboTail := limboGroup }
      | none =>
        -- third tier: the global pool
        match q.createNewLimboGroup m with
        | some (limboGroup, q) =>
          some { (q.addAllocations 1).setNext tail (some limboGroup) with m_limboTail := limboGroup }
        | none => none

/-- `PushBack`: the object is not recorded when there is no group to be had. -/
def pushBack (m : GcManager) (q : GcQueue) (indexId : UInt32) (objSize : UInt32) (csn : UInt64) : GcQueue :=
  let refilled :=
    if (q.groups q.m_limboTail).m_tail + 2 > LimboGroup.CAPACITY then q.refillLimboGroup m else some q
  match refilled with
  | none => q
  | some q =>
    let q := q.setGroup q.m_limboTail ((q.groups q.m_limboTail).pushBack indexId q.pushed.length csn)
    { q with
      pushed := q.pushed ++ [⟨csn, indexId⟩]
      m_stats := { q.m_stats with
        m_totalLimboInuseElements := q.m_stats.m_totalLimboInuseElements + 1
        m_totalLimboSizeInBytes := q.m_stats.m_totalLimboSizeInBytes + objSize.toUInt64
        m_totalLimboRetiredSizeInBytes := q.m_stats.m_totalLimboRetiredSizeInBytes + objSize.toUInt64 } }

/-- `RegisterDeletedSentinels`: the sentinels go to the generic queue of the manager. -/
def registerDeletedSentinels (m : GcManager) (q : GcQueue) : GcQueue :=
  let q' :=
    if q.m_queueType = .genericQueue then
      q.m_deleteVector.foldl (fun q indexId => q.pushBack m indexId (m.sentinelSize indexId) m.globalEpoch) q
    else q
  { q' with m_deleteVector := [] }

/-- One group more, and its count. -/
def allocOne (m : GcManager) (q : GcQueue) (fromReserved : Bool) : Option (Nat × GcQueue) :=
  match if fromReserved then q.allocLimboGroup else none with
  | some (limboGroup, q) => some (limboGroup, q)
  | none =>
    match q.createNewLimboGroup m with
    | some (limboGroup, q) => some (limboGroup, q.addAllocations 1)
    | none => none

/-- The groups linked so far, by `currentHead` and `currentTail`; whether all could be had. -/
def allocLoop (m : GcManager) (fromReserved : Bool) :
    Nat → GcQueue → Option (Nat × Nat) → GcQueue × Option (Nat × Nat) × Bool
  | 0, q, ends => (q, ends, true)
  | n + 1, q, ends =>
    match q.allocOne m fromReserved with
    | none => (q, ends, false)
    | some (limboGroup, q) =>
      match ends with
      | none => allocLoop m fromReserved n q (some (limboGroup, limboGroup))
      | some (currentHead, currentTail) =>
        allocLoop m fromReserved n (q.setNext limboGroup (some currentHead)) (some (limboGroup, currentTail))

def allocLimboGroups (m : GcManager) (q : GcQueue) (limboGroups totalElements : Nat) (reserve : Bool) :
    Option (GcQueue × Bool) :=
  let fromReserved := q.m_queueType = .genericQueue ∧ reserve = false
  match q.allocLoop m fromReserved limboGroups none with
  | (q, none, done) => some (q, done)
  | (q, some (currentHead, _), false) => do
    let list ← q.chain (some currentHead)
    return (list.foldl (fun q limboGroup => (q.destroyLimboGroup limboGroup).subAllocations 1) q, false)
  | (q, some (currentHead, currentTail), true) =>
    if reserve then do
      let list ← q.chain (some currentHead)
      return (q.reserveGroups list totalElements, true)
    else
      let q := q.setNext currentTail (q.next q.m_limboTail)
      some (q.setNext q.m_limboTail (some currentHead), true)

def getFreeAllocations (q : GcQueue) : Option Nat := do
  let list ← q.chain (q.next q.m_limboTail)
  return (LimboGroup.CAPACITY - (q.groups q.m_limboTail).m_tail + LimboGroup.CAPACITY * list.length) % 2 ^ 32

def reserveGCMemory (m : GcManager) (q : GcQueue) (elements : UInt32) (reserve : Bool) : Option (GcQueue × Bool) :=
  let totalElements := if q.m_queueType = .genericQueue then elements.toNat * 2 else elements.toNat
  if reserve then
    let pool := q.m_reservedManager
    let freeElements := (pool.groupAllocations * 113 - pool.registeredElements).toNat
    if freeElements > totalElements then some (q.reserveGroups [] (totalElements % 2 ^ 32), true)
    else
      let totalElements := totalElements - freeElements
      if groupsFor totalElements = 0 then some (q, true)
      else q.allocLimboGroups m (groupsFor totalElements) (totalElements % 2 ^ 32) true
  else do
    let freeElements ← q.getFreeAllocations
    let limboGroups := if freeElements < totalElements + 2 then groupsFor (totalElements + 2 - freeElements) else 0
    if limboGroups = 0 then some (q, true)
    else q.allocLimboGroups m limboGroups (totalElements % 2 ^ 32) false

/-! ## Cleaning -/

/-- The loop of `CleanUntil`, at `m_head` and with the elements from there on. -/
def cleanLoop (cb : Callback) (epochBound : UInt64) :
    List LimboElement → GcQueue → (m_head : Nat) → (csn : UInt64) → (count : Nat) →
      GcQueue × Nat × List LimboElement × Nat
  | [], ti, m_head, _, count => (ti, m_head, [], count)
  | elem :: rest, ti, m_head, csn, count =>
    match elem.m_objectPtr with
    | some obj =>
      if elem.m_cb = .nullDtor then cleanLoop cb epochBound rest ti (m_head + 1) csn count
      else
        let size := (cb.size obj).toUInt64
        let ti := ti.callDtor cb obj
        let ti := { ti with m_stats := { ti.m_stats with
          m_totalLimboSizeInBytes := ti.m_stats.m_totalLimboSizeInBytes - size
          m_totalLimboReclaimedSizeInBytes := ti.m_stats.m_totalLimboReclaimedSizeInBytes + size } }
        if count - 1 = 0 then
          -- the element becomes the marker of those behind it
          (ti, m_head, { elem with m_cb := .nullDtor, m_objectPtr := none, m_csn := csn } :: rest, 0)
        else cleanLoop cb epochBound rest ti (m_head + 1) csn (count - 1)
    | none =>
      if (epochBound - elem.m_csn).toInt64 < 0 then (ti, m_head, elem :: rest, count)
      else cleanLoop cb epochBound rest ti (m_head + 1) elem.m_csn count

/-- `CleanUntil` of the group at `a`, with what is left of `count`. -/
def cleanUntil (cb : Callback) (ti : GcQueue) (a : Nat) (epochBound : UInt64) (count : Nat) : GcQueue × Nat :=
  let g := ti.groups a
  let (ti, m_head, m_elements, count) := cleanLoop cb epochBound g.m_elements ti g.m_head 0 count
  let m_head := if m_elements = [] then 0 else m_head
  (ti.setGroup a { g with m_head := m_head, m_elements := m_elements }, count)

/-- Hooks the emptied groups in behind the tail. -/
def hookEmpties (q : GcQueue) : Option (Nat × Nat) → GcQueue
  | none => q
  | some (emptyHead, emptyTail) =>
    let q := q.setNext emptyTail (q.next q.m_limboTail)
    q.setNext q.m_limboTail (some emptyHead)

/-- The loop of `HardQuiesce` over at most `fuel` groups; `empties` are `emptyHead` and `emptyTail`. -/
def quiesceLoop (cb : Callback) (epochBound : UInt64) :
    (fuel : Nat) → GcQueue → (empties : Option (Nat × Nat)) → (count : Nat) → Option GcQueue
  | 0, _, _, _ => none
  | fuel + 1, q, empties, count =>
    if count = 0 then some (q.hookEmpties empties)
    else
      let (q, locCount) := q.cleanUntil cb q.m_limboHead epochBound count
      let q := q.subInuse (count - locCount)
      if (q.groups q.m_limboHead).m_elements ≠ [] then some (q.hookEmpties empties)
      else
        let emptyHead := (empties.map Prod.fst).getD q.m_limboHead
        if q.m_limboHead = q.m_limboTail then some { q with m_limboHead := emptyHead, m_limboTail := emptyHead }
        else do
          let next ← q.next q.m_limboHead
          quiesceLoop cb epochBound fuel { q with m_limboHead := next } (some (emptyHead, q.m_limboHead)) locCount

/-- `HardQuiesce`, with the perform epoch that was set. -/
def hardQuiesce (cb : Callback) (q : GcQueue) (performGcEpoch : UInt64) (numOfElementsToClean : Nat) : Option GcQueue :=
  let epochBound := performGcEpoch - 1
  match (q.groups q.m_limboHead).m_elements with
  | [] => some q
  | first :: _ =>
    if (epochBound - first.m_csn).toInt64 < 0 then some q
    else quiesceLoop cb epochBound (q.live.length + 1) q none numOfElementsToClean

/-- The loop of `CleanIndexItemPerGroup`; the number of the items cleaned. -/
def cleanIndexLoop (cb : Callback) (indexId : UInt32) :
    List LimboElement → GcQueue → GcQueue × List LimboElement × Nat
  | [], ti => (ti, [], 0)
  | elem :: rest, ti =>
    match elem.m_objectPtr with
    | some obj =>
      if elem.m_indexId = indexId ∧ elem.m_cb ≠ .nullDtor then
        let ti := ti.callDtor cb obj
        let ti := { ti with m_stats := { ti.m_stats with
          m_totalLimboSizeInBytesByCleanIndex :=
            ti.m_stats.m_totalLimboSizeInBytesByCleanIndex + (cb.size obj).toUInt64 } }
        let (ti, rest, itemCleaned) := cleanIndexLoop cb indexId rest ti
        (ti, { elem with m_cb := .nullDtor } :: rest, itemCleaned + 1)
      else
        let (ti, rest, itemCleaned) := cleanIndexLoop cb indexId rest ti
        (ti, elem :: rest, itemCleaned)
    | none =>
      let (ti, rest, itemCleaned) := cleanIndexLoop cb indexId rest ti
      (ti, elem :: rest, itemCleaned)

def cleanIndexItemPerGroup (cb : Callback) (indexId : UInt32) (ti : GcQueue) (a : Nat) : GcQueue × Nat :=
  let g := ti.groups a
  let (ti, m_elements, itemCleaned) := cleanIndexLoop cb indexId g.m_elements ti
  (ti.setGroup a { g with m_elements := m_elements }, itemCleaned)

def cleanIndexGroups (cb : Callback) (indexId : UInt32) : List Nat → GcQueue → GcQueue × Nat
  | [], q => (q, 0)
  | a :: groups, q =>
    let (q, n) := q.cleanIndexItemPerGroup cb indexId a
    let (q, counter) := cleanIndexGroups cb indexId groups q
    (q, n + counter)

def cleanIndexItems (cb : Callback) (m : GcManager) (q : GcQueue) (indexId : UInt32) (oper : GcOperationType) :
    Option GcQueue := do
  let groups ← q.chain (some q.m_limboHead)
  let (q, counter) := q.cleanIndexGroups cb indexId groups
  let q := if oper = .operDropIndex then q else q.registerDeletedSentinels m
  let stats := q.m_stats
  let size := stats.m_totalLimboSizeInBytesByCleanIndex
  -- the counter is an `uint32_t`
  if size = 0 then return q
  else
    return { q with m_stats := { stats with
      m_totalLimboInuseElements := stats.m_totalLimboInuseElements - counter % 2 ^ 32
      m_totalLimboSizeInBytes := stats.m_totalLimboSizeInBytes - size
      m_totalLimboReclaimedSizeInBytes := stats.m_totalLimboReclaimedSizeInBytes + size
      m_totalLimboSizeInBytesByCleanIndex := 0 } }

/-- Returns the reserved groups of the queue. -/
def destroyReserved (q : GcQueue) : GcQueue :=
  let list := q.m_reservedManager.m_limboReservedMemory
  let q := list.foldl (fun q limboGroup => (q.destroyLimboGroup limboGroup).subAllocations 1) q
  { q with m_reservedManager := ⟨0, 0, []⟩ }

def shrinkMem (m : GcManager) (q : GcQueue) : Option GcQueue :=
  if q.m_stats.m_limboGroupAllocations > 10 then do
    let list ← q.chain (q.next q.m_limboTail)
    let q := list.foldl (fun q limboGroup => (q.destroyLimboGroup limboGroup).subAllocations 1) q
    let pool := q.m_reservedManager
    let freeElements := pool.groupAllocations * 113 - pool.registeredElements
    let q :=
      if q.m_queueType = .genericQueue ∧ freeElements ≠ 0 ∧ q.m_stats.m_totalLimboInuseElements = 0 ∧
          m.limboInuseElementsOfDeleteQueue = 0 then q.destroyReserved
      else q
    return if list = [] then q else q.setNext q.m_limboTail none
  else some q

end GcQueue

/-- The calls on a queue. -/
inductive GcOp where
  | pushBack (m : GcManager) (indexId objSize : UInt32) (csn : UInt64)
  | hardQuiesce (cb : Callback) (performGcEpoch : UInt64) (numOfElementsToClean : Nat)
  | registerDeletedSentinels (m : GcManager)
  | cleanIndexItems (cb : Callback) (m : GcManager) (indexId : UInt32) (oper : GcOperationType)
  | reserveGCMemory (m : GcManager) (elements : UInt32) (reserveGroups : Bool)
  | shrinkMem (m : GcManager)

def GcOp.exec (q : GcQueue) : GcOp → Option GcQueue
  | pushBack m indexId objSize csn => some (q.pushBack m indexId objSize csn)
  | hardQuiesce cb performGcEpoch n => q.hardQuiesce cb performGcEpoch n
  | registerDeletedSentinels m => some (q.registerDeletedSentinels m)
  | cleanIndexItems cb m indexId oper => q.cleanIndexItems cb m indexId oper
  | reserveGCMemory m elements reserve => (q.reserveGCMemory m elements reserve).map Prod.fst
  | shrinkMem m => q.shrinkMem m

end GaussKernel.Mot
