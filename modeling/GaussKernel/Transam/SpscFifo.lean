import GaussKernel.Transam.SpscRing

/-!
# What a redo worker gets is what the dispatcher put

The events of a run tell which elements were put and which were taken. The run is one of a bounded queue.
-/

namespace GaussKernel.Transam

open Lib

variable {α : Type} {capacity : ℕ} {s s' start : SpscState α} {e : SpscEvent α} {log : List (SpscEvent α)}

namespace SpscEvent

def side : SpscEvent α → Side
  | producerCall _ | store _ _ | enqueue _ _ | returnPut _ _ => .producer
  | consumerCall _ | remove _ _ | returnTop _ _ | warn => .consumer
  | access side | returnCount side _ => side

/-- The updates of the indexes. -/
def MovesIndex : SpscEvent α → Prop
  | enqueue _ _ | remove _ _ => True
  | _ => False

def enqueued : SpscEvent α → Option α
  | enqueue _ element => some element
  | _ => none

/-- The element of a put that returned `true`. -/
def returnedPut : SpscEvent α → Option α
  | returnPut element true => some element
  | _ => none

/-- The call of `SPSCGetQueueCount`. -/
def countCall : Side → SpscEvent α
  | .producer => producerCall .getQueueCount
  | .consumer => consumerCall .getQueueCount

end SpscEvent

/-- The event with which a call returns: `SPSCBlockingQueuePop` removes an element or warns. -/
def ConsumerCall.EndsWith : ConsumerCall → SpscEvent α → Prop
  | .take, .remove _ _ => True
  | .top, .returnTop _ _ => True
  | .pop, .remove _ _ => True
  | .pop, .warn => True
  | .getQueueCount, .returnCount .consumer _ => True
  | _, _ => False

/-- The places of a call. -/
def ConsumerCall.At : ConsumerCall → ConsumerPlace α → Prop
  | .take, .take _ => True
  | .top, .top _ => True
  | .pop, .pop _ => True
  | .getQueueCount, .count _ => True
  | _, _ => False

def consumerEvents (log : List (SpscEvent α)) : List (SpscEvent α) := log.filter fun e => e.side = .consumer

/-! ## The effect of a step -/

/-- The loop of `SPSCBlockingQueuePut` is left because there is room. -/
def PutPlace.Committed : PutPlace → Prop
  | readHead | loop _ _ => False
  | _ => True

lemma PutPlace.ne_done {place : PutPlace} (h : ¬ place.Committed) : place ≠ .done := fun heq => h (heq ▸ trivial)

def Committed (s : SpscState α) : Prop :=
  match s.producer with
  | .put _ place => place.Committed
  | _ => False

def SpscState.countPlace (s : SpscState α) : Side → Option CountPlace
  | .producer =>
    match s.producer with
    | .count place => some place
    | _ => none
  | .consumer =>
    match s.consumer with
    | .count place => some place
    | _ => none

inductive ProducerEffect (s : SpscState α) : SpscEvent α → SpscState α → Prop where
  | wait {element : α} {place place' : PutPlace} (hplace : s.producer = .put element place) (hs : ¬ place.Committed)
      (hs' : place' ≠ .done) : ProducerEffect s (.access .producer) { s with producer := .put element place' }
  | giveUp {element : α} {place : PutPlace} (hplace : s.producer = .put element place) (hs : ¬ place.Committed) :
      ProducerEffect s (.returnPut element false) { s with producer := .idle }
  | goOn {element : α} {place place' : PutPlace} {maxUsage : UInt32} (hplace : s.producer = .put element place)
      (hc : place.Committed) (hs : place ≠ .done) (hc' : place'.Committed) (hs' : place' ≠ .done) :
      ProducerEffect s (.access .producer)
        { s with queue := { s.queue with maxUsage := maxUsage }, producer := .put element place' }
  | store {element : α} {head : UInt32} (hplace : s.producer = .put element (.writeBuffer head)) :
      ProducerEffect s (.store head element)
        { s with queue := { s.queue with buffer := s.queue.buffer.set head.toNat element }
                 producer := .put element (.writeHead head) }
  | enqueue {element : α} {head : UInt32} (hplace : s.producer = .put element (.writeHead head)) :
      ProducerEffect s (.enqueue head element)
        { s with queue := { s.queue with writeHead := (head + 1) &&& s.queue.mask }, producer := .put element .done }
  | done {element : α} (hplace : s.producer = .put element .done) :
      ProducerEffect s (.returnPut element true) { s with producer := .idle }
  | readHead (hplace : s.producer = .count .readHead) :
      ProducerEffect s (.access .producer) { s with producer := .count (.readTail s.queue.writeHead) }
  | readTail {head : UInt32} (hplace : s.producer = .count (.readTail head)) :
      ProducerEffect s (.returnCount .producer (COUNT head s.queue.readTail s.queue.mask)) { s with producer := .idle }

lemma producerStep_effect (h : producerStep s = some (e, s')) : ProducerEffect s e s' := by
  cases producerStep_turn h with
  | @count place hplace =>
    cases place with
    | readHead => exact .readHead hplace
    | readTail head => exact .readTail hplace
  | @put element place a hplace ha =>
    cases place with
    | readHead =>
      cases ha
      exact .wait hplace id PutPlace.noConfusion
    | loop head cnt =>
      rw [spscBlockingQueuePut] at ha
      split at ha
      case isTrue =>
        cases ha
        exact .giveUp hplace id
      case isFalse =>
        dsimp only at ha
        split at ha
        case isTrue =>
          cases ha
          exact .wait hplace id PutPlace.noConfusion
        case isFalse =>
          cases ha
          exact .wait hplace id PutPlace.noConfusion
    | readMaxUsage head tmpCnt =>
      rw [spscBlockingQueuePut] at ha
      split at ha
      case isTrue =>
        cases ha
        exact .goOn hplace trivial PutPlace.noConfusion trivial PutPlace.noConfusion
      case isFalse =>
        cases ha
        exact .goOn hplace trivial PutPlace.noConfusion trivial PutPlace.noConfusion
    | writeMaxUsage head tmpCnt =>
      cases ha
      exact .goOn hplace trivial PutPlace.noConfusion trivial PutPlace.noConfusion
    | writeBuffer head =>
      rw [spscBlockingQueuePut] at ha
      split at ha
      case isTrue =>
        cases ha
        exact .store hplace
      case isFalse => cases ha
    | writeHead head =>
      cases ha
      exact .enqueue hplace
    | done =>
      cases ha
      exact .done hplace

inductive ConsumerEffect (s : SpscState α) : SpscEvent α → SpscState α → Prop where
  | access {place : ConsumerPlace α} {totalCnt : UInt64} (hs : s.countPlace .consumer = none) :
      ConsumerEffect s (.access .consumer)
        { s with queue := { s.queue with totalCnt := totalCnt }, consumer := place }
  | remove {slot readTail : UInt32} {element : α} (hs : s.countPlace .consumer = none) :
      ConsumerEffect s (.remove slot element)
        { s with queue := { s.queue with readTail := readTail }, consumer := .idle }
  | returnTop {slot : UInt32} {element : α} (hs : s.countPlace .consumer = none) :
      ConsumerEffect s (.returnTop slot element) { s with consumer := .idle }
  | warn (hs : s.countPlace .consumer = none) : ConsumerEffect s .warn { s with consumer := .idle }
  | readHead (hplace : s.consumer = .count .readHead) :
      ConsumerEffect s (.access .consumer) { s with consumer := .count (.readTail s.queue.writeHead) }
  | readTail {head : UInt32} (hplace : s.consumer = .count (.readTail head)) :
      ConsumerEffect s (.returnCount .consumer (COUNT head s.queue.readTail s.queue.mask)) { s with consumer := .idle }

lemma consumerStep_effect (h : consumerStep s = some (e, s')) : ConsumerEffect s e s' := by
  cases consumerStep_turn h with
  | @count place hplace =>
    cases place with
    | readHead => exact .readHead hplace
    | readTail head => exact .readTail hplace
  | @take place a hplace ha =>
    have hs : s.countPlace .consumer = none := by rw [SpscState.countPlace, hplace]
    cases place with
    | wait place =>
      rw [spscBlockingQueueTake] at ha
      obtain ⟨next, -, rfl⟩ := Option.map_eq_some_iff.mp ha
      cases next with
      | inl place' => exact .access hs
      | inr found => exact .access hs
    | writeTail tail elem =>
      cases ha
      exact .remove hs
  | top hplace ha =>
    have hs : s.countPlace .consumer = none := by rw [SpscState.countPlace, hplace]
    rw [spscBlockingQueueTop] at ha
    obtain ⟨next, -, rfl⟩ := Option.map_eq_some_iff.mp ha
    cases next with
    | inl place' => exact .access hs
    | inr found => exact .returnTop hs
  | @pop place a hplace ha =>
    have hs : s.countPlace .consumer = none := by rw [SpscState.countPlace, hplace]
    cases place with
    | readTotalCnt =>
      cases ha
      exact .access hs
    | readTail totalCnt =>
      cases ha
      exact .access hs
    | readHead totalCnt tail =>
      rw [spscBlockingQueuePop] at ha
      split at ha
      case isTrue =>
        cases ha
        exact .warn hs
      case isFalse =>
        cases ha
        exact .access hs
    | writeTotalCnt totalCnt tail =>
      cases ha
      exact .access hs
    | writeTail tail =>
      rw [spscBlockingQueuePop] at ha
      obtain ⟨elem, -, rfl⟩ := Option.map_eq_some_iff.mp ha
      exact .remove hs

/-! ## Calls of the consumer -/

variable {call : ConsumerCall} {side : Side}

/-- A step in a call is an access, or the event with which the call returns. -/
lemma consumerStep_call (hat : call.At s.consumer) (h : consumerStep s = some (e, s')) :
    e = .access .consumer ∧ call.At s'.consumer ∨ call.EndsWith e ∧ s'.consumer = .idle := by
  cases consumerStep_turn h with
  | @count place hplace =>
    rw [hplace] at hat
    cases call with
    | getQueueCount =>
      cases place with
      | readHead => exact .inl ⟨rfl, trivial⟩
      | readTail head => exact .inr ⟨trivial, rfl⟩
    | take => exact hat.elim
    | top => exact hat.elim
    | pop => exact hat.elim
  | @take place a hplace ha =>
    rw [hplace] at hat
    cases call with
    | take =>
      cases place with
      | wait place =>
        rw [spscBlockingQueueTake] at ha
        obtain ⟨next, -, rfl⟩ := Option.map_eq_some_iff.mp ha
        cases next with
        | inl place' => exact .inl ⟨rfl, trivial⟩
        | inr found => exact .inl ⟨rfl, trivial⟩
      | writeTail tail elem =>
        cases ha
        exact .inr ⟨trivial, rfl⟩
    | top => exact hat.elim
    | pop => exact hat.elim
    | getQueueCount => exact hat.elim
  | @top place a hplace ha =>
    rw [hplace] at hat
    cases call with
    | top =>
      rw [spscBlockingQueueTop] at ha
      obtain ⟨next, -, rfl⟩ := Option.map_eq_some_iff.mp ha
      cases next with
      | inl place' => exact .inl ⟨rfl, trivial⟩
      | inr found => exact .inr ⟨trivial, rfl⟩
    | take => exact hat.elim
    | pop => exact hat.elim
    | getQueueCount => exact hat.elim
  | @pop place a hplace ha =>
    rw [hplace] at hat
    cases call with
    | pop =>
      cases place with
      | readTotalCnt =>
        cases ha
        exact .inl ⟨rfl, trivial⟩
      | readTail totalCnt =>
        cases ha
        exact .inl ⟨rfl, trivial⟩
      | readHead totalCnt tail =>
        rw [spscBlockingQueuePop] at ha
        split at ha
        case isTrue =>
          cases ha
          exact .inr ⟨trivial, rfl⟩
        case isFalse =>
          cases ha
          exact .inl ⟨rfl, trivial⟩
      | writeTotalCnt totalCnt tail =>
        cases ha
        exact .inl ⟨rfl, trivial⟩
      | writeTail tail =>
        rw [spscBlockingQueuePop] at ha
        obtain ⟨elem, -, rfl⟩ := Option.map_eq_some_iff.mp ha
        exact .inr ⟨trivial, rfl⟩
    | take => exact hat.elim
    | top => exact hat.elim
    | getQueueCount => exact hat.elim

lemma ConsumerCall.At.ne_idle (h : call.At s.consumer) : s.consumer ≠ .idle := by
  intro hidle
  rw [hidle] at h
  cases call <;> exact h.elim

/-- Events of the consumer are made by its calls and in them, those of the producer leave it where it is. -/
lemma step_consumer (h : SpscStep s e s') :
    (∃ call, e = .consumerCall call) ∨ e.side = .consumer ∧ consumerStep s = some (e, s') ∨
      e.side = .producer ∧ s'.consumer = s.consumer := by
  cases h with
  | producerCall call _ => exact .inr (.inr ⟨rfl, rfl⟩)
  | consumerCall call _ => exact .inl ⟨call, rfl⟩
  | producer hp => exact .inr (.inr (by cases producerStep_effect hp <;> exact ⟨rfl, rfl⟩))
  | consumer hc =>
    have hside : e.side = .consumer := by cases consumerStep_effect hc <;> rfl
    exact .inr (.inl ⟨hside, hc⟩)

/-- A consumer that is not called does nothing. -/
lemma idle_run {mid : List (SpscEvent α)} (h : Trace SpscStep s mid s') (hidle : s.consumer = .idle)
    (hmid : ∀ call, .consumerCall call ∉ mid) : consumerEvents mid = [] ∧ s'.consumer = .idle := by
  induction h with
  | nil s => exact ⟨rfl, hidle⟩
  | @cons s s₁ s' e es hstep _ ih =>
    rcases step_consumer hstep with ⟨call, rfl⟩ | ⟨-, hc⟩ | ⟨hside, hsame⟩
    · exact absurd List.mem_cons_self (hmid call)
    · rw [consumerStep, hidle] at hc
      cases hc
    · obtain ⟨hnone, hend⟩ := ih (hsame.trans hidle) fun call hmem => hmid call (.tail e hmem)
      refine ⟨?_, hend⟩
      rw [consumerEvents, List.filter_cons_of_neg (by rw [hside]; decide)]
      exact hnone

/-- What a call has done up to now: accesses, and at its end its event. -/
lemma call_run {mid : List (SpscEvent α)} (h : Trace SpscStep s mid s') (hat : call.At s.consumer)
    (hmid : ∀ call', .consumerCall call' ∉ mid) :
    (s'.consumer ≠ .idle ∧ ∃ n, consumerEvents mid = List.replicate n (.access .consumer)) ∨
      s'.consumer = .idle ∧ ∃ n e, call.EndsWith e ∧
        consumerEvents mid = List.replicate n (.access .consumer) ++ [e] := by
  induction h with
  | nil s => exact .inl ⟨hat.ne_idle, 0, rfl⟩
  | @cons s s₁ s' e es hstep hrest ih =>
    have hes : ∀ call', .consumerCall call' ∉ es := fun call' hmem => hmid call' (.tail e hmem)
    rcases step_consumer hstep with ⟨call', rfl⟩ | ⟨hside, hc⟩ | ⟨hside, hsame⟩
    · exact absurd List.mem_cons_self (hmid call')
    · have hcons : consumerEvents (e :: es) = e :: consumerEvents es :=
        List.filter_cons_of_pos (by rw [hside]; decide)
      rw [hcons]
      rcases consumerStep_call hat hc with ⟨rfl, hat'⟩ | ⟨hend, hidle⟩
      · rcases ih hat' hes with ⟨hbusy, n, heq⟩ | ⟨hidle, n, e', hend, heq⟩
        · exact .inl ⟨hbusy, n + 1, by rw [heq, List.replicate_succ]⟩
        · exact .inr ⟨hidle, n + 1, e', hend, by rw [heq, List.replicate_succ, List.cons_append]⟩
      · obtain ⟨hnone, hidle'⟩ := idle_run hrest hidle hes
        exact .inr ⟨hidle', 0, e, hend, by rw [hnone]; rfl⟩
    · have hcons : consumerEvents (e :: es) = consumerEvents es :=
        List.filter_cons_of_neg (by rw [hside]; decide)
      rw [hcons]
      exact ih (hsame ▸ hat) hes

lemma consumerCall_entry (h : SpscStep s (.consumerCall call) s') : s.consumer = .idle ∧ call.At s'.consumer := by
  cases h with
  | consumerCall _ hidle => exact ⟨hidle, by cases call <;> trivial⟩
  | producer hp => cases producerStep_effect hp
  | consumer hc => cases consumerStep_effect hc

/-- The warning is given at the read of `writeHead` in `SPSCBlockingQueuePop`. -/
lemma warn_step (h : SpscStep s .warn s') : ∃ totalCnt tail,
    s.consumer = .pop (.readHead totalCnt tail) ∧ COUNT s.queue.writeHead tail s.queue.mask = 0 := by
  have hc : consumerStep s = some (.warn, s') := by
    rcases step_consumer h with ⟨call, hcall⟩ | ⟨-, hc⟩ | ⟨hside, -⟩
    · cases hcall
    · exact hc
    · cases hside
  -- of the calls only a pop ends with it
  have hends : ∀ call : ConsumerCall, call.At s.consumer → call.EndsWith (.warn : SpscEvent α) := by
    intro call hat
    rcases consumerStep_call hat hc with ⟨haccess, -⟩ | ⟨hend, -⟩
    · cases haccess
    · exact hend
  cases hplace : s.consumer with
  | idle =>
    rw [consumerStep, hplace] at hc
    cases hc
  | take place => exact (hends .take (hplace ▸ trivial)).elim
  | top place => exact (hends .top (hplace ▸ trivial)).elim
  | count place => exact (hends .getQueueCount (hplace ▸ trivial)).elim
  | pop place =>
    rw [consumerStep, hplace] at hc
    obtain ⟨a, ha, heq⟩ := Option.map_eq_some_iff.mp hc
    have hevent : a.event = .warn := congrArg Prod.fst heq
    cases place with
    | readHead totalCnt tail =>
      rw [spscBlockingQueuePop] at ha
      split at ha
      case isTrue hzero => exact ⟨totalCnt, tail, rfl, hzero⟩
      case isFalse =>
        cases ha
        cases hevent
    | writeTail tail =>
      rw [spscBlockingQueuePop] at ha
      obtain ⟨elem, -, rfl⟩ := Option.map_eq_some_iff.mp ha
      cases hevent
    | readTotalCnt =>
      cases ha
      cases hevent
    | readTail totalCnt =>
      cases ha
      cases hevent
    | writeTotalCnt totalCnt tail =>
      cases ha
      cases hevent

/-! ## Puts that return -/

/-- The element whose index update is done and whose put has not returned. -/
def pending : ProducerPlace α → List α
  | .put element .done => [element]
  | _ => []

lemma pending_put {element : α} {place : PutPlace} (h : place ≠ .done) : pending (.put element place) = [] := by
  cases place with
  | done => exact absurd rfl h
  | _ => rfl

lemma step_returned (h : SpscStep s e s') :
    pending s.producer ++ e.enqueued.toList = e.returnedPut.toList ++ pending s'.producer := by
  cases h with
  | producerCall call hidle =>
    rw [hidle]
    cases call <;> rfl
  | consumerCall call _ => exact List.append_nil _
  | producer hp =>
    cases producerStep_effect hp with
    | wait hplace hs hs' =>
      rw [hplace, pending_put (PutPlace.ne_done hs), pending_put hs']
      rfl
    | giveUp hplace hs =>
      rw [hplace, pending_put (PutPlace.ne_done hs)]
      rfl
    | goOn hplace _ hs _ hs' =>
      rw [hplace, pending_put hs, pending_put hs']
      rfl
    | store hplace =>
      rw [hplace]
      rfl
    | enqueue hplace =>
      rw [hplace]
      rfl
    | done hplace =>
      rw [hplace]
      rfl
    | readHead hplace =>
      rw [hplace]
      rfl
    | readTail hplace =>
      rw [hplace]
      rfl
  | consumer hc => cases consumerStep_effect hc <;> exact List.append_nil _

lemma run_returned (h : Trace SpscStep start log s) (hidle : start.producer = .idle) :
    log.filterMap SpscEvent.enqueued = log.filterMap SpscEvent.returnedPut ++ pending s.producer := by
  refine h.history (fun log s => log.filterMap SpscEvent.enqueued =
    log.filterMap SpscEvent.returnedPut ++ pending s.producer) [] (fun {log s e s'} hlog hstep => ?_) ?_
  · rw [List.filterMap_append, List.filterMap_append, hlog, List.append_assoc, List.append_assoc]
    have hone : ∀ f : SpscEvent α → Option α, [e].filterMap f = (f e).toList := fun f => by
      cases hf : f e with
      | none => exact List.filterMap_cons_none hf
      | some x => exact List.filterMap_cons_some hf
    rw [hone, hone, step_returned hstep]
  · rw [hidle]
    rfl

/-! ## Puts that give up -/

lemma committed_step (h : SpscStep s e s') (hs : Committed s) :
    Committed s' ∨ ∃ element, e = .returnPut element true := by
  have hput : ∀ {element : α} {place : PutPlace}, s.producer = .put element place → place.Committed := by
    intro element place hplace
    rwa [Committed, hplace] at hs
  cases h with
  | producerCall call hidle =>
    rw [Committed, hidle] at hs
    exact hs.elim
  | consumerCall call _ => exact .inl hs
  | producer hp =>
    cases producerStep_effect hp with
    | wait hplace hs => exact (hs (hput hplace)).elim
    | giveUp hplace hs => exact (hs (hput hplace)).elim
    | goOn hplace _ _ hc' _ => exact .inl hc'
    | store hplace => exact .inl trivial
    | enqueue hplace => exact .inl trivial
    | done hplace => exact .inr ⟨_, rfl⟩
    | readHead hplace =>
      rw [Committed, hplace] at hs
      exact hs.elim
    | readTail hplace =>
      rw [Committed, hplace] at hs
      exact hs.elim
  | consumer hc => cases consumerStep_effect hc <;> exact .inl hs

/-- A step in which the producer leaves the queue as it is. -/
def QuietStep (s : SpscState α) (e : SpscEvent α) (s' : SpscState α) : Prop :=
  SpscStep s e s' ∧ (e.side = .producer → s'.queue = s.queue)

lemma quiet_step (h : SpscStep s e s') (hs : ¬ Committed s) : QuietStep s e s' := by
  refine ⟨h, fun hside => ?_⟩
  have hput : ∀ {element : α} {place : PutPlace}, s.producer = .put element place → ¬ place.Committed := by
    intro element place hplace
    rwa [Committed, hplace] at hs
  cases h with
  | producerCall call _ => rfl
  | consumerCall call _ => rfl
  | producer hp =>
    cases producerStep_effect hp with
    | wait _ _ _ => rfl
    | giveUp _ _ => rfl
    | goOn hplace hc _ _ _ => exact absurd hc (hput hplace)
    | store hplace => exact absurd trivial (hput hplace)
    | enqueue hplace => exact absurd trivial (hput hplace)
    | done _ => rfl
    | readHead _ => rfl
    | readTail _ => rfl
  | consumer hc => cases consumerStep_effect hc <;> cases hside

/-- Up to the return of a put with `false` the producer leaves the queue as it is. -/
lemma refused_quiet {element : α} {mid : List (SpscEvent α)}
    (h : Trace SpscStep s (mid ++ [.returnPut element false]) s')
    (hmid : ∀ element' stored, .returnPut element' stored ∉ mid) :
    ¬ Committed s ∧ Trace QuietStep s (mid ++ [.returnPut element false]) s' := by
  induction mid generalizing s with
  | nil =>
    cases h with
    | cons hstep hrest =>
      have hs : ¬ Committed s := by
        intro hs
        cases hstep with
        | producer hp =>
          rw [Committed] at hs
          cases producerStep_effect hp with
          | giveUp hplace hnot =>
            rw [hplace] at hs
            exact hnot hs
        | consumer hc => cases consumerStep_effect hc
      cases hrest with
      | nil => exact ⟨hs, .cons (quiet_step hstep hs) (.nil _)⟩
  | cons e mid ih =>
    cases h with
    | cons hstep hrest =>
      obtain ⟨hs₁, hquiet⟩ := ih hrest fun element' stored hmem => hmid element' stored (.tail e hmem)
      have hs : ¬ Committed s := by
        intro hs
        rcases committed_step hstep hs with hs' | ⟨element', rfl⟩
        · exact hs₁ hs'
        · exact hmid element' true (.head mid)
      exact ⟨hs, .cons (quiet_step hstep hs) hquiet⟩

/-! ## Counting -/

/-- A side that counts has read nothing yet, or the index as it is now. -/
def Counting (side : Side) (s : SpscState α) : Prop :=
  s.countPlace side = some .readHead ∨ s.countPlace side = some (.readTail s.queue.writeHead)

lemma Counting.ne_none (hs : Counting side s) : s.countPlace side ≠ none := by
  intro hnone
  rw [Counting, hnone] at hs
  cases hs with
  | inl hs => cases hs
  | inr hs => cases hs

lemma counting_call (h : SpscStep s (.countCall side) s') : Counting side s' := by
  cases side with
  | producer =>
    cases h with
    | producerCall _ _ => exact .inl rfl
    | producer hp => cases producerStep_effect hp
    | consumer hc => cases consumerStep_effect hc
  | consumer =>
    cases h with
    | consumerCall _ _ => exact .inl rfl
    | producer hp => cases producerStep_effect hp
    | consumer hc => cases consumerStep_effect hc

/-- The other side does not touch the place, and the index only by its update. -/
lemma counting_other (h : SpscStep s e s') (hs : Counting side s) (hside : e.side ≠ side) (hmoves : ¬ e.MovesIndex) :
    Counting side s' := by
  cases h with
  | producerCall call _ =>
    cases side with
    | producer => exact absurd rfl hside
    | consumer => exact hs
  | consumerCall call _ =>
    cases side with
    | producer => exact hs
    | consumer => exact absurd rfl hside
  | producer hp =>
    have hother : side = .consumer := by
      cases side with
      | consumer => rfl
      | producer => cases producerStep_effect hp <;> exact absurd rfl hside
    subst hother
    cases producerStep_effect hp with
    | enqueue _ => exact absurd trivial hmoves
    | _ => exact hs
  | consumer hc =>
    have hother : side = .producer := by
      cases side with
      | producer => rfl
      | consumer => cases consumerStep_effect hc <;> exact absurd rfl hside
    subst hother
    cases consumerStep_effect hc <;> exact hs

/-- The side itself reads the two indexes and returns their difference. -/
lemma counting_self (h : SpscStep s e s') (hs : Counting side s) (hside : e.side = side) :
    e = .access side ∧ Counting side s' ∨
      e = .returnCount side (COUNT s.queue.writeHead s.queue.readTail s.queue.mask) := by
  subst hside
  cases h with
  | producerCall call hidle => exact absurd (by rw [SpscEvent.side, SpscState.countPlace, hidle]) hs.ne_none
  | consumerCall call hidle => exact absurd (by rw [SpscEvent.side, SpscState.countPlace, hidle]) hs.ne_none
  | producer hp =>
    have hplace : ∀ {element : α} {place : PutPlace}, s.producer = .put element place →
        s.countPlace .producer = none := by
      intro element place hplace
      rw [SpscState.countPlace, hplace]
    cases producerStep_effect hp with
    | wait h _ _ => exact absurd (hplace h) hs.ne_none
    | giveUp h _ => exact absurd (hplace h) hs.ne_none
    | goOn h _ _ _ _ => exact absurd (hplace h) hs.ne_none
    | store h => exact absurd (hplace h) hs.ne_none
    | enqueue h => exact absurd (hplace h) hs.ne_none
    | done h => exact absurd (hplace h) hs.ne_none
    | readHead h => exact .inl ⟨rfl, .inr rfl⟩
    | readTail h =>
      rw [Counting, SpscEvent.side, SpscState.countPlace, h] at hs
      cases hs with
      | inl hs => cases hs
      | inr hs =>
        cases hs
        exact .inr rfl
  | consumer hc =>
    cases consumerStep_effect hc with
    | access h => exact absurd h hs.ne_none
    | remove h => exact absurd h hs.ne_none
    | returnTop h => exact absurd h hs.ne_none
    | warn h => exact absurd h hs.ne_none
    | readHead h => exact .inl ⟨rfl, .inr rfl⟩
    | readTail h =>
      rw [Counting, SpscEvent.side, SpscState.countPlace, h] at hs
      cases hs with
      | inl hs => cases hs
      | inr hs =>
        cases hs
        exact .inr rfl

/-- While the other side does not move, a count is the difference of the indexes. -/
lemma counting_run {mid : List (SpscEvent α)} {s₁ : SpscState α} {count : UInt32} (h : Trace SpscStep s mid s₁)
    (hs : Counting side s) (hmid : ∀ count', .returnCount side count' ∉ mid)
    (hother : ∀ e ∈ mid, e.side ≠ side → ¬ e.MovesIndex) (hstep : SpscStep s₁ (.returnCount side count) s') :
    count = COUNT s₁.queue.writeHead s₁.queue.readTail s₁.queue.mask := by
  induction h with
  | nil s =>
    rcases counting_self hstep hs rfl with ⟨heq, -⟩ | heq
    · cases heq
    · exact (SpscEvent.returnCount.inj heq).2
  | @cons s s₂ s₁ e es hone hrest ih =>
    refine ih ?_ (fun count' hmem => hmid count' (.tail e hmem)) (fun e' he' => hother e' (.tail e he')) hstep
    by_cases hside : e.side = side
    · rcases counting_self hone hs hside with ⟨-, hs'⟩ | rfl
      · exact hs'
      · exact absurd List.mem_cons_self (hmid _)
    · exact counting_other hone hs hside (hother e List.mem_cons_self hside)

/-! ## The run of a bounded queue -/

def fifoOps (log : List (SpscEvent α)) : List (FifoOp (UInt32 × α)) := log.filterMap SpscEvent.fifoOp

/-- The elements whose index update is done, each with its slot. -/
def enqueuedIn (log : List (SpscEvent α)) : List (UInt32 × α) := puts (fifoOps log)

def removedIn (log : List (SpscEvent α)) : List (UInt32 × α) := takes (fifoOps log)

/-- The elements that are not yet removed. -/
def held (log : List (SpscEvent α)) : List (UInt32 × α) := (enqueuedIn log).drop (removedIn log).length

lemma enqueuedIn_elements (log : List (SpscEvent α)) :
    (enqueuedIn log).map Prod.snd = log.filterMap SpscEvent.enqueued := by
  rw [enqueuedIn, puts, fifoOps, List.filterMap_filterMap, List.map_filterMap]
  refine List.filterMap_congr fun e _ => ?_
  cases e <;> rfl

section Run

variable {queue : SPSCBlockingQueue α} {r : ℕ} {pre mid post : List (SpscEvent α)}

lemma run_held (hring : RingHolds capacity r [] queue) (h : Trace SpscStep (.start queue) log s) :
    Trace (FifoStep (capacity - 1)) [] (fifoOps log) (held log) ∧ SpscInv capacity (held log) s := by
  have hstart : SpscInv capacity [] (.start queue) := ⟨⟨r, hring⟩, trivial, trivial⟩
  obtain ⟨items, htrace, hinv⟩ : ∃ items, Trace (FifoStep (capacity - 1)) [] (fifoOps log) items ∧
      SpscInv capacity items s := by
    refine h.simulate (R := fun s items => SpscInv capacity items s) (fun {s e s' items} hinv hstep hop => ?_)
      (fun {s e s' items op} hinv hstep hop => ?_) hstart
    · cases hinv.step hstep with
      | silent _ hinv' => exact hinv'
      | shown hop' => cases hop.symm.trans hop'
    · cases hinv.step hstep with
      | silent hop' => cases hop.symm.trans hop'
      | shown hop' hfifo hinv' =>
        cases hop.symm.trans hop'
        exact ⟨_, hfifo, hinv'⟩
  have hitems : held log = items := fifo_items htrace
  rw [hitems]
  exact ⟨htrace, hinv⟩

lemma run_top {slot slot' : UInt32} {element element' : α} (hring : RingHolds capacity r [] queue)
    (h : Trace SpscStep (.start queue) (pre ++ .returnTop slot element :: (mid ++ .remove slot' element' :: post)) s)
    (hmid : removedIn mid = []) : element' = element := by
  have hops : fifoOps (pre ++ .returnTop slot element :: (mid ++ .remove slot' element' :: post)) =
      fifoOps pre ++ .top (slot, element) :: (fifoOps mid ++ .take (slot', element') :: fifoOps post) := by
    simp only [fifoOps, List.filterMap_append, List.filterMap_cons, SpscEvent.fifoOp]
  have hfifo := (run_held hring h).1
  rw [hops] at hfifo
  exact (Prod.ext_iff.mp (fifo_top_take hfifo hmid)).2

/-- A put writes the slot behind the elements. -/
lemma run_kept {slot : UInt32} {element : α} (hring : RingHolds capacity r [] queue)
    (h : Trace SpscStep (.start queue) (pre ++ .store slot element :: post) s) : slot ∉ (held pre).map Prod.fst := by
  obtain ⟨s₁, s₂, hpre, hstep, -⟩ := h.at_event
  have hinv := (run_held hring hpre).2
  obtain ⟨r', hring'⟩ := hinv.ring
  have hok := hinv.producer
  have hslot : slot = s₁.queue.writeHead := by
    cases hstep with
    | producer hp =>
      cases producerStep_effect hp with
      | store hplace =>
        rw [hplace] at hok
        exact hok.1
    | consumer hc => cases consumerStep_effect hc
  intro hmem
  obtain ⟨x, hx, heq⟩ := List.mem_map.mp hmem
  exact hring'.head_ne hx (heq.trans hslot)

lemma run_refused {element element' : α} {s₁ s₂ : SpscState α}
    (h : Trace SpscStep s₁ (.producerCall (.put element) :: (mid ++ [.returnPut element' false])) s₂)
    (hmid : ∀ element'' stored, .returnPut element'' stored ∉ mid) :
    Trace QuietStep s₁ (.producerCall (.put element) :: (mid ++ [.returnPut element' false])) s₂ := by
  cases h with
  | cons hcall hrest =>
    refine .cons (quiet_step hcall ?_) (refused_quiet hrest hmid).2
    cases hcall with
    | producerCall _ hidle =>
      rw [Committed, hidle]
      exact id
    | producer hp => cases producerStep_effect hp
    | consumer hc => cases consumerStep_effect hc

/-- The warning comes when nothing is held. -/
lemma run_warned (hring : RingHolds capacity r [] queue) (h : Trace SpscStep (.start queue) (pre ++ .warn :: post) s) :
    held pre = [] := by
  obtain ⟨s₁, s₂, hpre, hstep, -⟩ := h.at_event
  have hinv := (run_held hring hpre).2
  obtain ⟨r', hring'⟩ := hinv.ring
  have hok := hinv.consumer
  obtain ⟨totalCnt, tail, hplace, hcount⟩ := warn_step hstep
  rw [hplace] at hok
  obtain rfl : tail = s₁.queue.readTail := hok
  exact hring'.count_eq_zero.mp hcount

/-- What the last call of the consumer has done. -/
lemma run_answering {call : ConsumerCall} (h : Trace SpscStep start (pre ++ .consumerCall call :: mid) s)
    (hmid : ∀ call', .consumerCall call' ∉ mid) :
    (s.consumer ≠ .idle ∧ ∃ n, consumerEvents mid = List.replicate n (.access .consumer)) ∨
      s.consumer = .idle ∧ ∃ n e, call.EndsWith e ∧
        consumerEvents mid = List.replicate n (.access .consumer) ++ [e] := by
  obtain ⟨s₁, s₂, -, hcall, hrest⟩ := h.at_event
  exact call_run hrest (consumerCall_entry hcall).2 hmid

/-- What a call of the consumer has done when the next one comes. -/
lemma run_answered {call call' : ConsumerCall}
    (h : Trace SpscStep start (pre ++ .consumerCall call :: (mid ++ .consumerCall call' :: post)) s)
    (hmid : ∀ call'', .consumerCall call'' ∉ mid) :
    ∃ n e, call.EndsWith e ∧ consumerEvents mid = List.replicate n (.access .consumer) ++ [e] := by
  obtain ⟨s₁, s₂, -, hcall, hrest⟩ := h.at_event
  obtain ⟨s₃, s₄, hbetween, hnext, -⟩ := hrest.at_event
  rcases call_run hbetween (consumerCall_entry hcall).2 hmid with ⟨hbusy, -⟩ | ⟨-, hdone⟩
  · exact absurd (consumerCall_entry hnext).1 hbusy
  · exact hdone

lemma run_counted {side : Side} {count : UInt32} (hring : RingHolds capacity r [] queue)
    (h : Trace SpscStep (.start queue) (pre ++ .countCall side :: (mid ++ .returnCount side count :: post)) s)
    (hmid : ∀ count', .returnCount side count' ∉ mid) (hother : ∀ e ∈ mid, e.side ≠ side → ¬ e.MovesIndex) :
    count.toNat = (held (pre ++ .countCall side :: mid)).length := by
  obtain ⟨s₁, s₂, hpre, hcall, hrest⟩ := h.at_event
  obtain ⟨s₃, s₄, hbetween, hreturn, -⟩ := hrest.at_event
  obtain ⟨r', hring'⟩ := (run_held hring (hpre.append (.cons hcall hbetween))).2.ring
  rw [counting_run hbetween (counting_call hcall) hmid hother hreturn]
  exact hring'.count

end Run

/-- What the events of a run tell. -/
structure FifoRun (capacity : ℕ) (start : SpscState α) (log : List (SpscEvent α)) (s : SpscState α) : Prop where
  /-- The run is one of a queue that holds at most `capacity - 1` elements. -/
  refines : Trace (FifoStep (capacity - 1)) [] ((fifoOps log).map (FifoOp.map Prod.snd)) ((held log).map Prod.snd)
  order : (removedIn log).map Prod.snd <+: (enqueuedIn log).map Prod.snd
  returned : log.filterMap SpscEvent.returnedPut <+: (enqueuedIn log).map Prod.snd
  top : ∀ {pre mid post : List (SpscEvent α)} {slot slot' : UInt32} {element element' : α},
    log = pre ++ .returnTop slot element :: (mid ++ .remove slot' element' :: post) → removedIn mid = [] →
      element' = element
  /-- A call of the consumer makes accesses and then the one event with which it returns: a take removes one element, a
  pop removes one element or warns, a look or a count removes none, -/
  answered : ∀ {pre mid post : List (SpscEvent α)} {call call' : ConsumerCall},
    log = pre ++ .consumerCall call :: (mid ++ .consumerCall call' :: post) →
      (∀ call'', .consumerCall call'' ∉ mid) →
      ∃ n e, call.EndsWith e ∧ consumerEvents mid = List.replicate n (.access .consumer) ++ [e]
  /-- and before its event no other. -/
  answering : ∀ {pre mid : List (SpscEvent α)} {call : ConsumerCall},
    log = pre ++ .consumerCall call :: mid → (∀ call', .consumerCall call' ∉ mid) →
      (s.consumer ≠ .idle ∧ ∃ n, consumerEvents mid = List.replicate n (.access .consumer)) ∨
        s.consumer = .idle ∧ ∃ n e, call.EndsWith e ∧
          consumerEvents mid = List.replicate n (.access .consumer) ++ [e]
  /-- A pop warns only when nothing is held. -/
  warned : ∀ {pre post : List (SpscEvent α)}, log = pre ++ .warn :: post → held pre = []
  bound : (held log).length ≤ capacity - 1
  /-- The slot of an element that is held is not written, -/
  kept : ∀ {pre post : List (SpscEvent α)} {slot : UInt32} {element : α},
    log = pre ++ .store slot element :: post → slot ∉ (held pre).map Prod.fst
  /-- and the element stands in it. -/
  inSlot : ∀ x ∈ held log, s.queue.buffer[x.1.toNat]? = some x.2
  /-- From the call of a put to its return with `false` no step of the producer changes the queue. -/
  refused : ∀ {pre mid : List (SpscEvent α)} {element element' : α} {s₁ s₂ : SpscState α},
    Trace SpscStep start pre s₁ →
      Trace SpscStep s₁ (.producerCall (.put element) :: (mid ++ [.returnPut element' false])) s₂ →
      (∀ element'' stored, .returnPut element'' stored ∉ mid) →
      Trace QuietStep s₁ (.producerCall (.put element) :: (mid ++ [.returnPut element' false])) s₂
  /-- A count is right if from its call to its return the other side does not move. -/
  counted : ∀ {pre mid post : List (SpscEvent α)} {side : Side} {count : UInt32},
    log = pre ++ .countCall side :: (mid ++ .returnCount side count :: post) →
      (∀ count', .returnCount side count' ∉ mid) → (∀ e ∈ mid, e.side ≠ side → ¬ e.MovesIndex) →
      count.toNat = (held (pre ++ .countCall side :: mid)).length
  /-- A side that is in a function has a step, which is no access outside of the buffer. -/
  goesOn : (s.producer ≠ .idle → (producerStep s).isSome) ∧ (s.consumer ≠ .idle → (consumerStep s).isSome)

lemma spscBlockingQueueCreate_eq (null : α) {capacity : UInt32} (hmin : 2 ≤ capacity)
    (hpow : capacity.toNat.isPowerOfTwo) : ∃ queue, spscBlockingQueueCreate null capacity = some queue := by
  have hpos : 0 < capacity.toNat := Nat.pos_of_isPowerOfTwo hpow
  have hone : (1 : UInt32) ≤ capacity := UInt32.le_iff_toNat_le.mpr hpos
  have htwo : POWER_OF_TWO capacity := by
    rw [POWER_OF_TWO, ← UInt32.toNat_inj, UInt32.toNat_and, UInt32.toNat_sub_of_le capacity 1 hone]
    exact (Nat.and_sub_one_eq_zero_iff_isPowerOfTwo hpos.ne').mpr hpow
  exact ⟨_, if_pos ⟨hmin, htwo⟩⟩

/-- Whatever the order of the accesses, the elements are removed in the order in which they were put. -/
theorem spscBlockingQueue_fifo (null : α) {capacity : UInt32} (hmin : 2 ≤ capacity)
    (hpow : capacity.toNat.isPowerOfTwo) :
    ∃ queue, spscBlockingQueueCreate null capacity = some queue ∧
      ∀ {log : List (SpscEvent α)} {s : SpscState α}, Trace SpscStep (.start queue) log s →
        FifoRun capacity.toNat (.start queue) log s := by
  obtain ⟨queue, hcreate⟩ := spscBlockingQueueCreate_eq null hmin hpow
  have hring := spscBlockingQueueCreate_holds hcreate
  refine ⟨queue, hcreate, fun {log s} hrun => ?_⟩
  obtain ⟨hfifo, hinv⟩ := run_held hring hrun
  obtain ⟨r', hring'⟩ := hinv.ring
  refine ⟨fifo_map Prod.snd hfifo, (fifo_order hfifo).map Prod.snd, ?_, ?_, ?_, ?_, ?_,
    fifo_length_le hfifo (Nat.zero_le _), ?_, hring'.elements, fun _ => run_refused, ?_, hinv.producer_goes_on,
      hinv.consumer_goes_on⟩
  · rw [enqueuedIn_elements, run_returned hrun rfl]
    exact List.prefix_append _ _
  · rintro pre mid post slot slot' element element' rfl
    exact run_top hring hrun
  · rintro pre mid post call call' rfl
    exact run_answered hrun
  · rintro pre mid call rfl
    exact run_answering hrun
  · rintro pre post rfl
    exact run_warned hring hrun
  · rintro pre post slot element rfl
    exact run_kept hring hrun
  · rintro pre mid post side count rfl
    exact run_counted hring hrun

/-- In a queue of one element the second put gives up; then the first element is looked at and taken, and one put
afterwards is popped, which makes the next pop warn. -/
def fullLog : List (SpscEvent ℕ) := List.flatten [
  .producerCall (.put 7) :: List.replicate 3 (.access .producer), [.store 0 7, .enqueue 0 7, .returnPut 7 true],
  .producerCall (.put 8) :: List.replicate 5 (.access .producer), [.returnPut 8 false],
  .consumerCall .top :: List.replicate 2 (.access .consumer), [.returnTop 0 7],
  .consumerCall .take :: List.replicate 3 (.access .consumer), [.remove 0 7],
  [.consumerCall .getQueueCount, .access .consumer, .returnCount .consumer 0],
  .producerCall (.put 9) :: List.replicate 3 (.access .producer), [.store 1 9, .enqueue 1 9, .returnPut 9 true],
  .consumerCall .pop :: List.replicate 4 (.access .consumer), [.remove 1 9],
  .consumerCall .pop :: List.replicate 2 (.access .consumer), [.warn]]

theorem spscBlockingQueue_fifo_two : ∃ queue, spscBlockingQueueCreate 0 2 = some queue ∧
    ∃ s, Trace SpscStep (.start queue) fullLog s ∧ FifoRun 2 (.start queue) fullLog s := by
  obtain ⟨queue, hcreate, hrun⟩ := spscBlockingQueue_fifo 0 (show (2 : UInt32) ≤ 2 by decide) ⟨1, rfl⟩
  refine ⟨queue, hcreate, ?_⟩
  obtain rfl := Option.some.inj hcreate
  have htrace : Trace SpscStep (.start ⟨0, 0, 2, 1, 0, 0, [0, 0]⟩) fullLog
      ⟨⟨0, 0, 2, 1, 0, 1, [7, 9]⟩, .idle, .idle⟩ := by
    apply Trace.cons (.producerCall _ rfl)
    iterate 6 apply Trace.cons (.producer rfl)
    apply Trace.cons (.producerCall _ rfl)
    iterate 6 apply Trace.cons (.producer rfl)
    apply Trace.cons (.consumerCall _ rfl)
    iterate 3 apply Trace.cons (.consumer rfl)
    apply Trace.cons (.consumerCall _ rfl)
    iterate 4 apply Trace.cons (.consumer rfl)
    apply Trace.cons (.consumerCall _ rfl)
    iterate 2 apply Trace.cons (.consumer rfl)
    apply Trace.cons (.producerCall _ rfl)
    iterate 6 apply Trace.cons (.producer rfl)
    apply Trace.cons (.consumerCall _ rfl)
    iterate 5 apply Trace.cons (.consumer rfl)
    apply Trace.cons (.consumerCall _ rfl)
    iterate 3 apply Trace.cons (.consumer rfl)
    exact .nil _
  exact ⟨_, htrace, hrun htrace⟩

end GaussKernel.Transam
