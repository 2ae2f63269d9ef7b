import GaussKernel.Lib.Fifo

/-!
# The queue of a redo worker

Model of `spsc_blocking_queue.cpp` of the parallel recovery. A function is a walk through places between its single
reads and writes of the queue; what it holds in its local variables is in the place. One producer and one consumer go
on in any order, and every write is seen by the next read, as the barriers give it. The sleeps of the waiting loops and
the callback, which handles interrupts, do not touch the queue. `none` is an access outside of the buffer.
-/

namespace GaussKernel.Transam

open Lib

def POWER_OF_TWO (x : UInt32) : Prop := x &&& (x - 1) = 0

instance (x : UInt32) : Decidable (POWER_OF_TWO x) := inferInstanceAs (Decidable (_ = _))

def COUNT (head tail mask : UInt32) : UInt32 := (head - tail) &&& mask

def SPACE (head tail mask : UInt32) : UInt32 := (tail - (head + 1)) &&& mask

abbrev QUEUE_CAPACITY_MIN_LIMIT : UInt32 := 2

abbrev QUEUE_PUT_WAIT_LIMIT : UInt64 := 3

structure SPSCBlockingQueue (α : Type) where
  /-- The slot of the next write. -/
  writeHead : UInt32
  /-- The slot of the next read. -/
  readTail : UInt32
  capacity : UInt32
  mask : UInt32
  maxUsage : UInt32
  totalCnt : UInt64
  buffer : List α
  deriving DecidableEq, Repr

variable {α : Type}

/-- `SPSCBlockingQueueCreate`; `none` is the failed assertion. -/
def spscBlockingQueueCreate (null : α) (capacity : UInt32) : Option (SPSCBlockingQueue α) :=
  if QUEUE_CAPACITY_MIN_LIMIT ≤ capacity ∧ POWER_OF_TWO capacity then
    some {
      writeHead := 0
      readTail := 0
      capacity := capacity
      mask := capacity - 1
      maxUsage := 0
      totalCnt := 0
      buffer := List.replicate capacity.toNat null }
  else none

/-! ## The two sides and what is seen of them -/

inductive Side
  | producer
  | consumer
  deriving DecidableEq, Repr

inductive ProducerCall (α : Type)
  | put (element : α)
  | getQueueCount
  deriving DecidableEq, Repr

inductive ConsumerCall
  | take
  | top
  | pop
  | getQueueCount
  deriving DecidableEq, Repr

inductive SpscEvent (α : Type)
  | producerCall (call : ProducerCall α)
  | consumerCall (call : ConsumerCall)
  /-- An access that is none of those below. -/
  | access (side : Side)
  /-- The write of the buffer in `SPSCBlockingQueuePut`. -/
  | store (slot : UInt32) (element : α)
  /-- The update of `writeHead`. -/
  | enqueue (slot : UInt32) (element : α)
  | returnPut (element : α) (stored : Bool)
  /-- The update of `readTail`, with which `SPSCBlockingQueueTake` and `SPSCBlockingQueuePop` return. -/
  | remove (slot : UInt32) (element : α)
  | returnTop (slot : UInt32) (element : α)
  | returnCount (side : Side) (count : UInt32)
  /-- The warning "SPSCBlockingQueuePop queue error!". -/
  | warn
  deriving DecidableEq, Repr

/-- An access: the queue after it, what is seen of it, and the next place of the function unless it returns. -/
structure Access (α P : Type) where
  queue : SPSCBlockingQueue α
  event : SpscEvent α
  next : Option P

/-! ## The functions -/

inductive PutPlace
  | readHead
  | loop (head : UInt32) (cnt : UInt64)
  | readMaxUsage (head tmpCnt : UInt32)
  | writeMaxUsage (head tmpCnt : UInt32)
  | writeBuffer (head : UInt32)
  | writeHead (head : UInt32)
  | done
  deriving DecidableEq, Repr

def spscBlockingQueuePut (queue : SPSCBlockingQueue α) (element : α) : PutPlace → Option (Access α PutPlace)
  | .readHead => some ⟨queue, .access .producer, some (.loop queue.writeHead 0)⟩
  | .loop head cnt =>
    if QUEUE_PUT_WAIT_LIMIT < cnt then some ⟨queue, .returnPut element false, none⟩
    else
      let tail := queue.readTail
      if SPACE head tail queue.mask = 0 then some ⟨queue, .access .producer, some (.loop head (cnt + 1))⟩
      else some ⟨queue, .access .producer, some (.readMaxUsage head (COUNT head tail queue.mask))⟩
  | .readMaxUsage head tmpCnt =>
    if queue.maxUsage < tmpCnt then some ⟨queue, .access .producer, some (.writeMaxUsage head tmpCnt)⟩
    else some ⟨queue, .access .producer, some (.writeBuffer head)⟩
  | .writeMaxUsage head tmpCnt =>
    some ⟨{ queue with maxUsage := tmpCnt }, .access .producer, some (.writeBuffer head)⟩
  | .writeBuffer head =>
    if head.toNat < queue.buffer.length then
      some ⟨{ queue with buffer := queue.buffer.set head.toNat element }, .store head element, some (.writeHead head)⟩
    else none
  | .writeHead head =>
    some ⟨{ queue with writeHead := (head + 1) &&& queue.mask }, .enqueue head element, some .done⟩
  | .done => some ⟨queue, .returnPut element true, none⟩

inductive CountPlace
  | readHead
  | readTail (head : UInt32)
  deriving DecidableEq, Repr

def spscGetQueueCount (side : Side) (queue : SPSCBlockingQueue α) : CountPlace → Access α CountPlace
  | .readHead => ⟨queue, .access side, some (.readTail queue.writeHead)⟩
  | .readTail head => ⟨queue, .returnCount side (COUNT head queue.readTail queue.mask), none⟩

/-- The places of the wait for an element, which `SPSCBlockingQueueTake` and `SPSCBlockingQueueTop` have in common. -/
inductive WaitPlace
  | readTail
  | loop (tail : UInt32)
  | readBuffer (tail : UInt32)
  deriving DecidableEq, Repr

/-- The next place of the wait, or the slot and its element. -/
def waitElement (queue : SPSCBlockingQueue α) : WaitPlace → Option (WaitPlace ⊕ UInt32 × α)
  | .readTail => some (.inl (.loop queue.readTail))
  | .loop tail =>
    let head := queue.writeHead
    if COUNT head tail queue.mask = 0 then some (.inl (.loop tail)) else some (.inl (.readBuffer tail))
  | .readBuffer tail => queue.buffer[tail.toNat]?.map fun elem => .inr (tail, elem)

inductive TakePlace (α : Type)
  | wait (place : WaitPlace)
  | writeTail (tail : UInt32) (elem : α)
  deriving DecidableEq, Repr

def spscBlockingQueueTake (queue : SPSCBlockingQueue α) : TakePlace α → Option (Access α (TakePlace α))
  | .wait place => (waitElement queue place).map fun
    | .inl place => ⟨queue, .access .consumer, some (.wait place)⟩
    | .inr (tail, elem) => ⟨queue, .access .consumer, some (.writeTail tail elem)⟩
  | .writeTail tail elem =>
    some ⟨{ queue with readTail := (tail + 1) &&& queue.mask }, .remove tail elem, none⟩

def spscBlockingQueueTop (queue : SPSCBlockingQueue α) (place : WaitPlace) : Option (Access α WaitPlace) :=
  (waitElement queue place).map fun
    | .inl place => ⟨queue, .access .consumer, some place⟩
    | .inr (tail, elem) => ⟨queue, .returnTop tail elem, none⟩

inductive PopPlace
  | readTotalCnt
  | readTail (totalCnt : UInt64)
  | readHead (totalCnt : UInt64) (tail : UInt32)
  | writeTotalCnt (totalCnt : UInt64) (tail : UInt32)
  | writeTail (tail : UInt32)
  deriving DecidableEq, Repr

/-- `SPSCBlockingQueuePop` does not read the buffer; its event names what stands in the slot that it leaves. -/
def spscBlockingQueuePop (queue : SPSCBlockingQueue α) : PopPlace → Option (Access α PopPlace)
  | .readTotalCnt => some ⟨queue, .access .consumer, some (.readTail queue.totalCnt)⟩
  | .readTail totalCnt => some ⟨queue, .access .consumer, some (.readHead totalCnt queue.readTail)⟩
  | .readHead totalCnt tail =>
    if COUNT queue.writeHead tail queue.mask = 0 then some ⟨queue, .warn, none⟩
    else some ⟨queue, .access .consumer, some (.writeTotalCnt totalCnt tail)⟩
  | .writeTotalCnt totalCnt tail =>
    some ⟨{ queue with totalCnt := totalCnt + 1 }, .access .consumer, some (.writeTail tail)⟩
  | .writeTail tail => queue.buffer[tail.toNat]?.map fun elem =>
    ⟨{ queue with readTail := (tail + 1) &&& queue.mask }, .remove tail elem, none⟩

/-! ## Runs -/

inductive ProducerPlace (α : Type)
  | idle
  | put (element : α) (place : PutPlace)
  | count (place : CountPlace)
  deriving DecidableEq, Repr

inductive ConsumerPlace (α : Type)
  | idle
  | take (place : TakePlace α)
  | top (place : WaitPlace)
  | pop (place : PopPlace)
  | count (place : CountPlace)
  deriving DecidableEq, Repr

def ProducerCall.entry : ProducerCall α → ProducerPlace α
  | put element => .put element .readHead
  | getQueueCount => .count .readHead

def ConsumerCall.entry : ConsumerCall → ConsumerPlace α
  | take => .take (.wait .readTail)
  | top => .top .readTail
  | pop => .pop .readTotalCnt
  | getQueueCount => .count .readHead

structure SpscState (α : Type) where
  queue : SPSCBlockingQueue α
  producer : ProducerPlace α
  consumer : ConsumerPlace α
  deriving DecidableEq, Repr

def SpscState.start (queue : SPSCBlockingQueue α) : SpscState α := ⟨queue, .idle, .idle⟩

def producerStep (s : SpscState α) : Option (SpscEvent α × SpscState α) :=
  match s.producer with
  | .idle => none
  | .put element place => (spscBlockingQueuePut s.queue element place).map fun a =>
    (a.event, { s with queue := a.queue, producer := a.next.elim .idle (.put element) })
  | .count place =>
    let a := spscGetQueueCount .producer s.queue place
    some (a.event, { s with queue := a.queue, producer := a.next.elim .idle .count })

def consumerStep (s : SpscState α) : Option (SpscEvent α × SpscState α) :=
  match s.consumer with
  | .idle => none
  | .take place => (spscBlockingQueueTake s.queue place).map fun a =>
    (a.event, { s with queue := a.queue, consumer := a.next.elim .idle .take })
  | .top place => (spscBlockingQueueTop s.queue place).map fun a =>
    (a.event, { s with queue := a.queue, consumer := a.next.elim .idle .top })
  | .pop place => (spscBlockingQueuePop s.queue place).map fun a =>
    (a.event, { s with queue := a.queue, consumer := a.next.elim .idle .pop })
  | .count place =>
    let a := spscGetQueueCount .consumer s.queue place
    some (a.event, { s with queue := a.queue, consumer := a.next.elim .idle .count })

/-- A side that is idle calls any function that it may call; one in a function makes its next access. -/
inductive SpscStep (s : SpscState α) : SpscEvent α → SpscState α → Prop where
  | producerCall (call : ProducerCall α) (hidle : s.producer = .idle) :
      SpscStep s (.producerCall call) { s with producer := call.entry }
  | consumerCall (call : ConsumerCall) (hidle : s.consumer = .idle) :
      SpscStep s (.consumerCall call) { s with consumer := call.entry }
  | producer {e : SpscEvent α} {s' : SpscState α} (h : producerStep s = some (e, s')) : SpscStep s e s'
  | consumer {e : SpscEvent α} {s' : SpscState α} (h : consumerStep s = some (e, s')) : SpscStep s e s'

end GaussKernel.Transam
