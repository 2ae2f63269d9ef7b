import GaussKernel.Transam.SpscQueue
import Mathlib.Algebra.Order.Ring.Nat
import Mathlib.Data.Nat.Bitwise

/-!
# The queue of a redo worker as a bounded queue

What is in the queue are the elements from slot `readTail` up to slot `writeHead`, each with its slot. The updates of
the two indexes put and take elements, and the return of `SPSCBlockingQueueTop` looks at the first. A side knows its own
index; of the other it may know an older value, which makes it see a queue that is fuller, or emptier, than it is.
-/

namespace GaussKernel.Transam

open Lib

variable {α : Type} {capacity r : ℕ} {items items' : List (UInt32 × α)} {queue queue' : SPSCBlockingQueue α}
  {element : α}

/-! ## The ring -/

structure RingHolds (capacity r : ℕ) (items : List (UInt32 × α)) (queue : SPSCBlockingQueue α) : Prop where
  pow : capacity.isPowerOfTwo
  mask : queue.mask.toNat + 1 = capacity
  length : queue.buffer.length = capacity
  head : queue.writeHead.toNat = (r + items.length) % capacity
  tail : queue.readTail.toNat = r % capacity
  room : items.length < capacity
  slots : ∀ i (hi : i < items.length), items[i].1.toNat = (r + i) % capacity
  elements : ∀ x ∈ items, queue.buffer[x.1.toNat]? = some x.2

namespace RingHolds

section

variable (h : RingHolds capacity r items queue)
include h

lemma pos : 0 < capacity := Nat.zero_lt_of_lt h.room

lemma dvd : capacity ∣ 2 ^ 32 := by
  obtain ⟨k, hk⟩ := h.pow
  have hlt : 2 ^ k < 2 ^ 33 := by
    have hmask := h.mask
    have := queue.mask.toNat_lt
    omega
  rw [hk]
  exact Nat.pow_dvd_pow 2 (Nat.le_of_lt_succ ((Nat.pow_lt_pow_iff_right (by decide)).mp hlt))

lemma masked (x : UInt32) : (x &&& queue.mask).toNat = x.toNat % capacity := by
  obtain ⟨k, hk⟩ := h.pow
  have hmask : queue.mask.toNat = 2 ^ k - 1 := by
    rw [← hk, ← h.mask, Nat.add_sub_cancel]
  rw [UInt32.toNat_and, hmask, Nat.and_two_pow_sub_one_eq_mod, hk]

lemma masked_sub (x y : UInt32) : ((x - y) &&& queue.mask).toNat = (2 ^ 32 - y.toNat + x.toNat) % capacity := by
  rw [h.masked, UInt32.toNat_sub, Nat.mod_mod_of_dvd _ h.dvd]

lemma head_lt : queue.writeHead.toNat < capacity :=
  h.head ▸ Nat.mod_lt _ h.pos

lemma tail_lt : queue.readTail.toNat < capacity :=
  h.tail ▸ Nat.mod_lt _ h.pos

lemma count : (COUNT queue.writeHead queue.readTail queue.mask).toNat = items.length := by
  rw [COUNT, h.masked_sub, h.head, h.tail, ring_distance h.dvd (by decide) (Nat.le_add_right _ _)
    (Nat.add_lt_add_left h.room r), Nat.add_sub_cancel_left]

lemma count_eq_zero : COUNT queue.writeHead queue.readTail queue.mask = 0 ↔ items = [] := by
  rw [← UInt32.toNat_inj, h.count]
  exact List.length_eq_zero_iff

/-- The index behind one, before it is masked or after. -/
lemma succ_mod {x : UInt32} {p : ℕ} (hx : x.toNat = p % capacity) : (x + 1).toNat % capacity = (p + 1) % capacity := by
  rw [UInt32.toNat_add, Nat.mod_mod_of_dvd _ h.dvd, hx, UInt32.toNat_one, Nat.mod_add_mod]

lemma space : (SPACE queue.writeHead queue.readTail queue.mask).toNat = capacity - 1 - items.length := by
  have hroom := h.room
  have hhead := h.head_lt
  have hsucc := h.succ_mod h.head
  have hmask := h.mask
  have hle : (queue.writeHead + 1).toNat ≤ capacity := by
    rw [UInt32.toNat_add, UInt32.toNat_one]
    exact (Nat.mod_le _ _).trans hhead
  have hbase : (2 ^ 32 - (queue.writeHead + 1).toNat + queue.readTail.toNat) % capacity =
      (2 ^ 32 - (queue.writeHead + 1).toNat % capacity + queue.readTail.toNat) % capacity := by
    rcases hle.lt_or_eq with hlt | heq
    · rw [Nat.mod_eq_of_lt hlt]
    · obtain ⟨c, hc⟩ := h.dvd
      have hself : 2 ^ 32 - capacity + queue.readTail.toNat + capacity = 2 ^ 32 + queue.readTail.toNat := by
        have := Nat.le_of_dvd (by decide) h.dvd
        omega
      rw [heq, Nat.mod_self, Nat.sub_zero, ← hself, Nat.add_mod_right]
  have htail : queue.readTail.toNat = (r + capacity) % capacity := by rw [h.tail, Nat.add_mod_right]
  rw [SPACE, h.masked_sub, hbase, hsucc, htail, ring_distance h.dvd (by decide) (by omega) (by omega)]
  omega

lemma space_ne_zero (hspace : SPACE queue.writeHead queue.readTail queue.mask ≠ 0) : items.length + 1 < capacity := by
  have hne : (SPACE queue.writeHead queue.readTail queue.mask).toNat ≠ 0 := fun heq =>
    hspace (UInt32.toNat_inj.mp heq)
  rw [h.space] at hne
  omega

/-- No element stands in the slot of the next write. -/
lemma head_ne {x : UInt32 × α} (hx : x ∈ items) : x.1 ≠ queue.writeHead := by
  obtain ⟨i, hi, rfl⟩ := List.getElem_of_mem hx
  intro heq
  have hslot := h.slots i hi
  rw [heq, h.head] at hslot
  have hroom := h.room
  exact ring_slot_ne (by omega) (by omega) hslot.symm

end

/-- The first element stands in the slot of the next read. -/
lemma first {x : UInt32 × α} (h : RingHolds capacity r (x :: items) queue) : x.1 = queue.readTail := by
  have hslot := h.slots 0 (Nat.succ_pos _)
  exact UInt32.toNat_inj.mp (hslot.trans h.tail.symm)

lemma store (h : RingHolds capacity r items queue) :
    RingHolds capacity r items { queue with buffer := queue.buffer.set queue.writeHead.toNat element } where
  pow := h.pow
  mask := h.mask
  length := (List.length_set ..).trans h.length
  head := h.head
  tail := h.tail
  room := h.room
  slots := h.slots
  elements x hx := by
    have hne : queue.writeHead.toNat ≠ x.1.toNat := fun heq => h.head_ne hx (UInt32.toNat_inj.mp heq.symm)
    exact (List.getElem?_set_ne hne).trans (h.elements x hx)

lemma enqueue (h : RingHolds capacity r items queue) (hroom : items.length + 1 < capacity)
    (helement : queue.buffer[queue.writeHead.toNat]? = some element) :
    RingHolds capacity r (items ++ [(queue.writeHead, element)])
      { queue with writeHead := (queue.writeHead + 1) &&& queue.mask } where
  pow := h.pow
  mask := h.mask
  length := h.length
  head := by
    rw [h.masked, h.succ_mod h.head, List.length_append]
    rfl
  tail := h.tail
  room := List.length_append ▸ hroom
  slots i hi := by
    have hi' : i < items.length + 1 := by rwa [List.length_append] at hi
    rcases Nat.lt_succ_iff_lt_or_eq.mp hi' with hlt | rfl
    · rw [List.getElem_append_left hlt]
      exact h.slots i hlt
    · rw [List.getElem_concat_length rfl]
      exact h.head
  elements x hx := by
    rcases List.mem_append.mp hx with hx | hx
    · exact h.elements x hx
    · rw [List.mem_singleton.mp hx]
      exact helement

lemma remove {x : UInt32 × α} (h : RingHolds capacity r (x :: items) queue) :
    RingHolds capacity (r + 1) items { queue with readTail := (queue.readTail + 1) &&& queue.mask } where
  pow := h.pow
  mask := h.mask
  length := h.length
  head := by
    rw [Nat.add_assoc, Nat.add_comm 1]
    exact h.head
  tail := by rw [h.masked, h.succ_mod h.tail]
  room := Nat.lt_of_succ_lt h.room
  slots i hi := by
    rw [Nat.add_assoc, Nat.add_comm 1]
    exact h.slots (i + 1) (Nat.succ_lt_succ hi)
  elements y hy := h.elements y (List.mem_cons_of_mem x hy)

/-- The counters are not read for the ring. -/
lemma congr (h : RingHolds capacity r items queue) (hmask : queue'.mask = queue.mask)
    (hbuffer : queue'.buffer = queue.buffer) (hhead : queue'.writeHead = queue.writeHead)
    (htail : queue'.readTail = queue.readTail) : RingHolds capacity r items queue' where
  pow := h.pow
  mask := hmask ▸ h.mask
  length := hbuffer ▸ h.length
  head := hhead ▸ h.head
  tail := htail ▸ h.tail
  room := h.room
  slots := h.slots
  elements := hbuffer ▸ h.elements

end RingHolds

/-- A queue that was just created is empty. -/
lemma spscBlockingQueueCreate_holds {null : α} {size : UInt32} (h : spscBlockingQueueCreate null size = some queue) :
    RingHolds size.toNat 0 [] queue := by
  unfold spscBlockingQueueCreate at h
  split at h
  case isFalse => cases h
  case isTrue hsize =>
    obtain rfl := Option.some.inj h
    obtain ⟨htwo, hpow⟩ := hsize
    have htwo' : 2 ≤ size.toNat := UInt32.le_iff_toNat_le.mp htwo
    have hpos : 0 < size.toNat := Nat.lt_of_lt_of_le Nat.two_pos htwo'
    have hone : (1 : UInt32) ≤ size := UInt32.le_iff_toNat_le.mpr hpos
    have hmask : (size - 1).toNat = size.toNat - 1 := UInt32.toNat_sub_of_le size 1 hone
    have hand : size.toNat &&& (size.toNat - 1) = 0 := by
      have := congrArg UInt32.toNat hpow
      rwa [UInt32.toNat_and, hmask] at this
    refine ⟨(Nat.and_sub_one_eq_zero_iff_isPowerOfTwo hpos.ne').mp hand, ?_, List.length_replicate,
      (Nat.zero_mod _).symm, (Nat.zero_mod _).symm, hpos, fun i hi => ?_, fun x hx => ?_⟩
    · show (size - 1).toNat + 1 = size.toNat
      rw [hmask, Nat.sub_add_cancel hpos]
    · cases hi
    · cases hx

/-! ## The places -/

/-- What the producer knows in `SPSCBlockingQueuePut`: its own index, and behind the loop that there is room. -/
def PutOk (capacity : ℕ) (items : List (UInt32 × α)) (queue : SPSCBlockingQueue α) (element : α) : PutPlace → Prop
  | .readHead | .done => True
  | .loop head _ => head = queue.writeHead
  | .readMaxUsage head _ | .writeMaxUsage head _ | .writeBuffer head =>
    head = queue.writeHead ∧ items.length + 1 < capacity
  | .writeHead head =>
    head = queue.writeHead ∧ items.length + 1 < capacity ∧ queue.buffer[queue.writeHead.toNat]? = some element

def ProducerOk (capacity : ℕ) (items : List (UInt32 × α)) (queue : SPSCBlockingQueue α) : ProducerPlace α → Prop
  | .idle | .count _ => True
  | .put element place => PutOk capacity items queue element place

/-- What the consumer knows while it waits: its own index, and behind the loop that there is an element. -/
def WaitOk (items : List (UInt32 × α)) (queue : SPSCBlockingQueue α) : WaitPlace → Prop
  | .readTail => True
  | .loop tail => tail = queue.readTail
  | .readBuffer tail => tail = queue.readTail ∧ items ≠ []

def TakeOk (items : List (UInt32 × α)) (queue : SPSCBlockingQueue α) : TakePlace α → Prop
  | .wait place => WaitOk items queue place
  | .writeTail tail elem => items.head? = some (tail, elem)

def PopOk (items : List (UInt32 × α)) (queue : SPSCBlockingQueue α) : PopPlace → Prop
  | .readTotalCnt | .readTail _ => True
  | .readHead _ tail => tail = queue.readTail
  | .writeTotalCnt _ tail | .writeTail tail => tail = queue.readTail ∧ items ≠ []

def ConsumerOk (items : List (UInt32 × α)) (queue : SPSCBlockingQueue α) : ConsumerPlace α → Prop
  | .idle | .count _ => True
  | .take place => TakeOk items queue place
  | .top place => WaitOk items queue place
  | .pop place => PopOk items queue place

/-- What the producer knows stays true when the consumer takes elements. -/
lemma ProducerOk.congr {place : ProducerPlace α} (h : ProducerOk capacity items queue place)
    (hhead : queue'.writeHead = queue.writeHead) (hbuffer : queue'.buffer = queue.buffer)
    (hlength : items'.length ≤ items.length) : ProducerOk capacity items' queue' place := by
  have hroom : items.length + 1 < capacity → items'.length + 1 < capacity := fun h => by omega
  cases place with
  | idle => trivial
  | count => trivial
  | put element place =>
    cases place with
    | readHead => trivial
    | done => trivial
    | loop head cnt => exact h.trans hhead.symm
    | readMaxUsage head tmpCnt => exact ⟨h.1.trans hhead.symm, hroom h.2⟩
    | writeMaxUsage head tmpCnt => exact ⟨h.1.trans hhead.symm, hroom h.2⟩
    | writeBuffer head => exact ⟨h.1.trans hhead.symm, hroom h.2⟩
    | writeHead head =>
      refine ⟨h.1.trans hhead.symm, hroom h.2.1, ?_⟩
      rw [hbuffer, hhead]
      exact h.2.2

lemma WaitOk.congr {place : WaitPlace} (h : WaitOk items queue place) (htail : queue'.readTail = queue.readTail)
    (hmore : items <+: items') : WaitOk items' queue' place := by
  cases place with
  | readTail => trivial
  | loop tail => exact h.trans htail.symm
  | readBuffer tail => exact ⟨h.1.trans htail.symm, hmore.ne_nil h.2⟩

/-- What the consumer knows stays true when the producer puts elements. -/
lemma ConsumerOk.congr {place : ConsumerPlace α} (h : ConsumerOk items queue place)
    (htail : queue'.readTail = queue.readTail) (hmore : items <+: items') : ConsumerOk items' queue' place := by
  cases place with
  | idle => trivial
  | count => trivial
  | take place =>
    cases place with
    | wait place => exact WaitOk.congr h htail hmore
    | writeTail tail elem =>
      have hfirst : [(tail, elem)] <+: items := List.singleton_prefix_iff_head?_eq_some.mpr h
      exact List.singleton_prefix_iff_head?_eq_some.mp (hfirst.trans hmore)
  | top place => exact WaitOk.congr h htail hmore
  | pop place =>
    cases place with
    | readTotalCnt => trivial
    | readTail totalCnt => trivial
    | readHead totalCnt tail => exact h.trans htail.symm
    | writeTotalCnt totalCnt tail => exact ⟨h.1.trans htail.symm, hmore.ne_nil h.2⟩
    | writeTail tail => exact ⟨h.1.trans htail.symm, hmore.ne_nil h.2⟩

/-! ## The steps -/

/-- The producer makes an access of the function that it is in. -/
inductive ProducerTurn (s : SpscState α) : SpscEvent α → SpscState α → Prop where
  | put {element : α} {place : PutPlace} {a : Access α PutPlace} (hplace : s.producer = .put element place)
      (ha : spscBlockingQueuePut s.queue element place = some a) :
      ProducerTurn s a.event { s with queue := a.queue, producer := a.next.elim .idle (.put element) }
  | count {place : CountPlace} (hplace : s.producer = .count place) :
      ProducerTurn s (spscGetQueueCount .producer s.queue place).event
        { s with queue := (spscGetQueueCount .producer s.queue place).queue
                 producer := (spscGetQueueCount .producer s.queue place).next.elim .idle .count }

inductive ConsumerTurn (s : SpscState α) : SpscEvent α → SpscState α → Prop where
  | take {place : TakePlace α} {a : Access α (TakePlace α)} (hplace : s.consumer = .take place)
      (ha : spscBlockingQueueTake s.queue place = some a) :
      ConsumerTurn s a.event { s with queue := a.queue, consumer := a.next.elim .idle .take }
  | top {place : WaitPlace} {a : Access α WaitPlace} (hplace : s.consumer = .top place)
      (ha : spscBlockingQueueTop s.queue place = some a) :
      ConsumerTurn s a.event { s with queue := a.queue, consumer := a.next.elim .idle .top }
  | pop {place : PopPlace} {a : Access α PopPlace} (hplace : s.consumer = .pop place)
      (ha : spscBlockingQueuePop s.queue place = some a) :
      ConsumerTurn s a.event { s with queue := a.queue, consumer := a.next.elim .idle .pop }
  | count {place : CountPlace} (hplace : s.consumer = .count place) :
      ConsumerTurn s (spscGetQueueCount .consumer s.queue place).event
        { s with queue := (spscGetQueueCount .consumer s.queue place).queue
                 consumer := (spscGetQueueCount .consumer s.queue place).next.elim .idle .count }

lemma producerStep_turn {s s' : SpscState α} {e : SpscEvent α} (h : producerStep s = some (e, s')) :
    ProducerTurn s e s' := by
  unfold producerStep at h
  cases hplace : s.producer with
  | idle =>
    rw [hplace] at h
    cases h
  | put element place =>
    rw [hplace] at h
    obtain ⟨a, ha, heq⟩ := Option.map_eq_some_iff.mp h
    cases heq
    exact .put hplace ha
  | count place =>
    rw [hplace] at h
    cases h
    exact .count hplace

lemma consumerStep_turn {s s' : SpscState α} {e : SpscEvent α} (h : consumerStep s = some (e, s')) :
    ConsumerTurn s e s' := by
  unfold consumerStep at h
  cases hplace : s.consumer with
  | idle =>
    rw [hplace] at h
    cases h
  | take place =>
    rw [hplace] at h
    obtain ⟨a, ha, heq⟩ := Option.map_eq_some_iff.mp h
    cases heq
    exact .take hplace ha
  | top place =>
    rw [hplace] at h
    obtain ⟨a, ha, heq⟩ := Option.map_eq_some_iff.mp h
    cases heq
    exact .top hplace ha
  | pop place =>
    rw [hplace] at h
    obtain ⟨a, ha, heq⟩ := Option.map_eq_some_iff.mp h
    cases heq
    exact .pop hplace ha
  | count place =>
    rw [hplace] at h
    cases h
    exact .count hplace

/-- The operation of the bounded queue that an event is. -/
def SpscEvent.fifoOp : SpscEvent α → Option (FifoOp (UInt32 × α))
  | .enqueue slot element => some (.put (slot, element))
  | .remove slot element => some (.take (slot, element))
  | .returnTop slot element => some (.top (slot, element))
  | _ => none

structure SpscInv (capacity : ℕ) (items : List (UInt32 × α)) (s : SpscState α) : Prop where
  ring : ∃ r, RingHolds capacity r items s.queue
  producer : ProducerOk capacity items s.queue s.producer
  consumer : ConsumerOk items s.queue s.consumer

/-- What a step does to the elements: nothing, or its operation. -/
inductive Simulated (capacity : ℕ) (items : List (UInt32 × α)) (e : SpscEvent α) (s : SpscState α) : Prop
  | silent (hop : e.fifoOp = none) (hinv : SpscInv capacity items s)
  | shown {op : FifoOp (UInt32 × α)} {items' : List (UInt32 × α)} (hop : e.fifoOp = some op)
      (hstep : FifoStep (capacity - 1) items op items') (hinv : SpscInv capacity items' s)

namespace SpscInv

variable {s s' : SpscState α} {e : SpscEvent α}

/-- The producer goes to another place. -/
lemma setProducer (h : SpscInv capacity items s) {place : ProducerPlace α}
    (hplace : ProducerOk capacity items s.queue place) : SpscInv capacity items { s with producer := place } :=
  ⟨h.ring, hplace, h.consumer⟩

lemma setConsumer (h : SpscInv capacity items s) {place : ConsumerPlace α}
    (hplace : ConsumerOk items s.queue place) : SpscInv capacity items { s with consumer := place } :=
  ⟨h.ring, h.producer, hplace⟩

lemma put_step (h : SpscInv capacity items s) {place : PutPlace} (hplace : s.producer = .put element place)
    {a : Access α PutPlace} (ha : spscBlockingQueuePut s.queue element place = some a) :
    Simulated capacity items a.event { s with queue := a.queue, producer := a.next.elim .idle (.put element) } := by
  obtain ⟨r, hring⟩ := h.ring
  have hok := h.producer
  rw [hplace] at hok
  cases place with
  | readHead =>
    cases ha
    exact .silent rfl (h.setProducer rfl)
  | loop head cnt =>
    obtain rfl : head = s.queue.writeHead := hok
    rw [spscBlockingQueuePut] at ha
    split at ha
    case isTrue =>
      cases ha
      exact .silent rfl (h.setProducer trivial)
    case isFalse =>
      dsimp only at ha
      split at ha
      case isTrue =>
        cases ha
        exact .silent rfl (h.setProducer rfl)
      case isFalse hspace =>
        cases ha
        exact .silent rfl (h.setProducer ⟨rfl, hring.space_ne_zero hspace⟩)
  | readMaxUsage head tmpCnt =>
    rw [spscBlockingQueuePut] at ha
    split at ha
    case isTrue =>
      cases ha
      exact .silent rfl (h.setProducer hok)
    case isFalse =>
      cases ha
      exact .silent rfl (h.setProducer hok)
  | writeMaxUsage head tmpCnt =>
    cases ha
    exact .silent rfl ⟨⟨r, hring.congr rfl rfl rfl rfl⟩, hok, h.consumer.congr rfl (List.prefix_refl items)⟩
  | writeBuffer head =>
    obtain ⟨rfl, hroom⟩ := hok
    rw [spscBlockingQueuePut] at ha
    split at ha
    case isFalse => cases ha
    case isTrue hlt =>
      cases ha
      have helement : (s.queue.buffer.set s.queue.writeHead.toNat element)[s.queue.writeHead.toNat]? = some element :=
        List.getElem?_set_self hlt
      exact .silent rfl ⟨⟨r, hring.store⟩, ⟨rfl, hroom, helement⟩, h.consumer.congr rfl (List.prefix_refl items)⟩
  | writeHead head =>
    obtain ⟨rfl, hroom, helement⟩ := hok
    cases ha
    exact .shown rfl (.put _ (Nat.lt_sub_of_add_lt hroom))
      ⟨⟨r, hring.enqueue hroom helement⟩, trivial, h.consumer.congr rfl (List.prefix_append items _)⟩
  | done =>
    cases ha
    exact .silent rfl (h.setProducer trivial)

/-- The wait for an element: the next place, or the first element. -/
lemma wait_cases (h : SpscInv capacity items s) {place : WaitPlace} (hok : WaitOk items s.queue place) :
    (∃ place', waitElement s.queue place = some (.inl place') ∧ WaitOk items s.queue place') ∨
      ∃ tail elem rest, waitElement s.queue place = some (.inr (tail, elem)) ∧ items = (tail, elem) :: rest := by
  obtain ⟨r, hring⟩ := h.ring
  cases place with
  | readTail => exact .inl ⟨_, rfl, rfl⟩
  | loop tail =>
    obtain rfl : tail = s.queue.readTail := hok
    left
    rw [waitElement]
    split
    case isTrue => exact ⟨_, rfl, rfl⟩
    case isFalse hcount =>
      exact ⟨_, rfl, rfl, fun hnil => hcount (hring.count_eq_zero.mpr hnil)⟩
  | readBuffer tail =>
    obtain ⟨rfl, hne⟩ := hok
    obtain ⟨⟨tail, elem⟩, rest, rfl⟩ := List.exists_cons_of_ne_nil hne
    obtain rfl : tail = s.queue.readTail := hring.first
    have helement : s.queue.buffer[s.queue.readTail.toNat]? = some elem := hring.elements _ List.mem_cons_self
    refine .inr ⟨s.queue.readTail, elem, rest, ?_, rfl⟩
    rw [waitElement, helement]
    rfl

/-- The first element is taken. -/
lemma remove {x : UInt32 × α} (h : SpscInv capacity (x :: items) s) {tail : UInt32}
    (htail : tail = s.queue.readTail) :
    SpscInv capacity items
      { s with queue := { s.queue with readTail := (tail + 1) &&& s.queue.mask }, consumer := .idle } := by
  obtain ⟨r, hring⟩ := h.ring
  subst htail
  exact ⟨⟨r + 1, hring.remove⟩, h.producer.congr rfl rfl (Nat.le_succ _), trivial⟩

section

variable (h : SpscInv capacity items s)
include h

lemma take_step {place : TakePlace α} (hplace : s.consumer = .take place) {a : Access α (TakePlace α)}
    (ha : spscBlockingQueueTake s.queue place = some a) :
    Simulated capacity items a.event { s with queue := a.queue, consumer := a.next.elim .idle .take } := by
  have hok := h.consumer
  rw [hplace] at hok
  cases place with
  | wait place =>
    rw [spscBlockingQueueTake] at ha
    rcases h.wait_cases hok with ⟨place', hwait, hok'⟩ | ⟨tail, elem, rest, hwait, rfl⟩
    · rw [hwait] at ha
      cases ha
      exact .silent rfl (h.setConsumer hok')
    · rw [hwait] at ha
      cases ha
      exact .silent rfl (h.setConsumer rfl)
  | writeTail tail elem =>
    obtain ⟨rest, rfl⟩ := List.head?_eq_some_iff.mp hok
    obtain ⟨r, hring⟩ := h.ring
    cases ha
    exact .shown rfl (.take _ rest) (h.remove hring.first)

lemma top_step {place : WaitPlace} (hplace : s.consumer = .top place) {a : Access α WaitPlace}
    (ha : spscBlockingQueueTop s.queue place = some a) :
    Simulated capacity items a.event { s with queue := a.queue, consumer := a.next.elim .idle .top } := by
  have hok := h.consumer
  rw [hplace] at hok
  unfold spscBlockingQueueTop at ha
  rcases h.wait_cases hok with ⟨place', hwait, hok'⟩ | ⟨tail, elem, rest, hwait, rfl⟩
  · rw [hwait] at ha
    cases ha
    exact .silent rfl (h.setConsumer hok')
  · rw [hwait] at ha
    cases ha
    exact .shown rfl (.top _ rest) (h.setConsumer trivial)

lemma pop_step {place : PopPlace} (hplace : s.consumer = .pop place) {a : Access α PopPlace}
    (ha : spscBlockingQueuePop s.queue place = some a) :
    Simulated capacity items a.event { s with queue := a.queue, consumer := a.next.elim .idle .pop } := by
  obtain ⟨r, hring⟩ := h.ring
  have hok := h.consumer
  rw [hplace] at hok
  cases place with
  | readTotalCnt =>
    cases ha
    exact .silent rfl (h.setConsumer trivial)
  | readTail totalCnt =>
    cases ha
    exact .silent rfl (h.setConsumer rfl)
  | readHead totalCnt tail =>
    obtain rfl : tail = s.queue.readTail := hok
    rw [spscBlockingQueuePop] at ha
    split at ha
    case isTrue =>
      cases ha
      exact .silent rfl (h.setConsumer trivial)
    case isFalse hcount =>
      cases ha
      exact .silent rfl (h.setConsumer ⟨rfl, fun hnil => hcount (hring.count_eq_zero.mpr hnil)⟩)
  | writeTotalCnt totalCnt tail =>
    cases ha
    exact .silent rfl ⟨⟨r, hring.congr rfl rfl rfl rfl⟩, h.producer.congr rfl rfl le_rfl, hok⟩
  | writeTail tail =>
    obtain ⟨rfl, hne⟩ := hok
    obtain ⟨⟨tail, elem⟩, rest, rfl⟩ := List.exists_cons_of_ne_nil hne
    obtain rfl : tail = s.queue.readTail := hring.first
    have helement : s.queue.buffer[s.queue.readTail.toNat]? = some elem := hring.elements _ List.mem_cons_self
    rw [spscBlockingQueuePop, helement] at ha
    cases ha
    exact .shown rfl (.take _ rest) (h.remove rfl)

/-- Every step does its operation on the elements, or none. -/
lemma step (hstep : SpscStep s e s') : Simulated capacity items e s' := by
  cases hstep with
  | producerCall call hidle =>
    cases call with
    | put element => exact .silent rfl (h.setProducer trivial)
    | getQueueCount => exact .silent rfl (h.setProducer trivial)
  | consumerCall call hidle =>
    cases call with
    | take => exact .silent rfl (h.setConsumer trivial)
    | top => exact .silent rfl (h.setConsumer trivial)
    | pop => exact .silent rfl (h.setConsumer trivial)
    | getQueueCount => exact .silent rfl (h.setConsumer trivial)
  | producer hp =>
    cases producerStep_turn hp with
    | put hplace ha => exact h.put_step hplace ha
    | @count place hplace =>
      cases place with
      | readHead => exact .silent rfl (h.setProducer trivial)
      | readTail head => exact .silent rfl (h.setProducer trivial)
  | consumer hc =>
    cases consumerStep_turn hc with
    | take hplace ha => exact h.take_step hplace ha
    | top hplace ha => exact h.top_step hplace ha
    | pop hplace ha => exact h.pop_step hplace ha
    | @count place hplace =>
      cases place with
      | readHead => exact .silent rfl (h.setConsumer trivial)
      | readTail head => exact .silent rfl (h.setConsumer trivial)

/-- No function is stuck: an access is never outside of the buffer. -/
lemma producer_goes_on (hbusy : s.producer ≠ .idle) : (producerStep s).isSome := by
  obtain ⟨r, hring⟩ := h.ring
  have hok := h.producer
  unfold producerStep
  cases hplace : s.producer with
  | idle => exact absurd hplace hbusy
  | count place => rfl
  | put element place =>
    rw [hplace] at hok
    dsimp only
    rw [Option.isSome_map]
    cases place with
    | readHead => rfl
    | loop head cnt =>
      rw [spscBlockingQueuePut]
      split
      · rfl
      · dsimp only
        split <;> rfl
    | readMaxUsage head tmpCnt =>
      rw [spscBlockingQueuePut]
      split <;> rfl
    | writeMaxUsage head tmpCnt => rfl
    | writeBuffer head =>
      obtain ⟨rfl, -⟩ := hok
      rw [spscBlockingQueuePut, if_pos (hring.length ▸ hring.head_lt)]
      rfl
    | writeHead head => rfl
    | done => rfl

lemma consumer_goes_on (hbusy : s.consumer ≠ .idle) : (consumerStep s).isSome := by
  obtain ⟨r, hring⟩ := h.ring
  have hok := h.consumer
  unfold consumerStep
  cases hplace : s.consumer with
  | idle => exact absurd hplace hbusy
  | count place => rfl
  | take place =>
    rw [hplace] at hok
    dsimp only
    rw [Option.isSome_map]
    cases place with
    | wait place =>
      rw [spscBlockingQueueTake, Option.isSome_map]
      rcases h.wait_cases hok with ⟨_, hwait, -⟩ | ⟨_, _, _, hwait, -⟩
      · rw [hwait]
        rfl
      · rw [hwait]
        rfl
    | writeTail tail elem => rfl
  | top place =>
    rw [hplace] at hok
    dsimp only
    rw [Option.isSome_map, spscBlockingQueueTop, Option.isSome_map]
    rcases h.wait_cases hok with ⟨_, hwait, -⟩ | ⟨_, _, _, hwait, -⟩
    · rw [hwait]
      rfl
    · rw [hwait]
      rfl
  | pop place =>
    rw [hplace] at hok
    dsimp only
    rw [Option.isSome_map]
    cases place with
    | readTotalCnt => rfl
    | readTail totalCnt => rfl
    | readHead totalCnt tail =>
      rw [spscBlockingQueuePop]
      split <;> rfl
    | writeTotalCnt totalCnt tail => rfl
    | writeTail tail =>
      obtain ⟨rfl, -⟩ := hok
      have hlt : s.queue.readTail.toNat < s.queue.buffer.length := hring.length ▸ hring.tail_lt
      rw [spscBlockingQueuePop, Option.isSome_map, List.getElem?_eq_getElem hlt]
      rfl

end

end SpscInv

end GaussKernel.Transam
