import GaussKernel.Replication.SyncRepPlaces

/-!
# Waiting for synchronous replication

No backend is lost between the queues and the chains, and each is woken once and not before its time, in whatever
order backends, walsenders and leaders take their steps.
-/

namespace GaussKernel.Replication

open GaussKernel.Lib
open Function (update update_self update_of_ne)

variable {mode : SyncRepWaitMode} {b : ℕ} {s s' : SyncRepShmem} {pic pic' : Picture} {e : SyncEvent}

/-- The events that set a backend to `SYNC_REP_WAIT_COMPLETE`. -/
def SyncEvent.Completes : SyncEvent → ℕ → Prop
  | .wake _ _ leader, b => leader = some b
  | .notify _ curProc, b => curProc = b
  | _, _ => False

def SyncEvent.Enqueues (e : SyncEvent) (b : ℕ) : Prop := ∃ xactCommitLSN mode, e = .enqueue b xactCommitLSN mode

/-! ## Steps of one backend -/

namespace SyncInv

lemma pending_links (hphase : ∀ e atExit, s.phase b ≠ .notifying e atExit) :
    pending s b = if s.syncRepState b = .waitComplete then s.links.next (.proc b) else none := by
  unfold pending
  cases hp : s.phase b with
  | notifying e atExit => exact absurd hp (hphase e atExit)
  | _ => rfl

section

variable (h : SyncInv s pic)
include h

/-- A step that changes only where a backend is. -/
lemma setPhase {phase : Phase} (hold : ∀ e atExit, s.phase b ≠ .notifying e atExit)
    (hnew : ∀ e atExit, phase ≠ .notifying e atExit)
    (hok : PlaceOk s b (pic.place b) → PlaceOk (s.setPhase b phase) b (pic.place b)) :
    SyncInv (s.setPhase b phase) pic := by
  have hbut : SameBut s (s.setPhase b phase) b :=
    ⟨fun _ _ => rfl, fun _ _ => rfl, fun _ _ => rfl, fun a hab => update_of_ne hab _ _⟩
  have hphase : (s.setPhase b phase).phase b = phase := update_self _ _ _
  have hpend : pending (s.setPhase b phase) b = pending s b := by
    rw [pending_links hold, pending_links (by rwa [hphase])]
    rfl
  exact h.own hbut (fun _ _ => ⟨rfl, rfl⟩) (.inr ⟨rfl, rfl⟩) (hpend ▸ h.chain b) (hok (h.ok b))

lemma place_of_phase (hwaiting : s.phase b ≠ .waiting) (hexiting : s.phase b ≠ .exiting)
    (hqueue : s.phase b ≠ .waitCompletionQueue) : pic.place b = .free := by
  by_contra hplace
  rcases h.phase_of_place hplace with hp | hp | hp
  · exact hwaiting hp
  · exact hexiting hp
  · exact hqueue hp

/-- The chain goes from the links of its leader into its local variable. -/
lemma takeChain {e : ShmElem} {atExit : Bool} (hfree : pic.place b = .free)
    (hphase : s.phase b = .stopped ∨ s.phase b = .waitCompletionQueue) (hstate : s.syncRepState b = .waitComplete)
    (hin : s.syncRepInCompleteQueue b = true) (hnext : s.links.next (.proc b) = some e) :
    SyncInv ({ s with links := s.links.setNext (.proc b) none }.setPhase b (.notifying (some e) atExit)) pic := by
  have hprev : s.links.prev (.proc b) = none := (hfree ▸ h.ok b : PlaceOk s b .free).1
  have hpend : pending s b = some e := by
    unfold pending
    rcases hphase with hp | hp
    · simp only [hp, hstate, if_pos, hnext]
    · simp only [hp, hstate, if_pos, hnext]
  refine h.own ⟨fun _ _ => rfl, fun _ _ => rfl, fun _ _ => rfl, fun a hab => update_of_ne hab _ _⟩
    (fun a ha => ⟨update_of_ne (fun heq => ha (List.mem_singleton.mpr heq)) _ _, rfl⟩) (.inl hfree) ?_ ?_
  · have hpend' : pending ({ s with links := s.links.setNext (.proc b) none }.setPhase b
        (.notifying (some e) atExit)) b = some e := by
      unfold pending SyncRepShmem.setPhase
      simp only [update_self]
    have hchain := h.chain b
    rw [hpend']
    rw [hpend] at hchain
    refine hchain.congr fun a ha => ?_
    obtain ⟨c, hc, rfl⟩ := List.mem_map.mp ha
    refine update_of_ne (fun heq => ?_) _ _
    obtain rfl := ShmElem.proc.inj heq
    exact Place.noConfusion (hfree.symm.trans ((h.mem_chain c c).mp hc))
  · rw [hfree]
    refine ⟨hprev, ?_⟩
    show FreeOk _ _ _ (update s.phase b (.notifying (some e) atExit) b)
    rw [update_self]
    exact ⟨hstate, hin, update_self _ _ _⟩

/-- A backend starts anew. -/
lemma reset {links : Links ShmElem} (hfree : pic.place b = .free) (hpend : pending s b = none)
    (hoff : s.links.SameOff links [.proc b]) (hnext : links.next (.proc b) = none)
    (hprev : links.prev (.proc b) = none) :
    SyncInv (({ s with waitLSN := update s.waitLSN b 0
                       syncRepInCompleteQueue := update s.syncRepInCompleteQueue b false
                       links := links }.setState b .notWaiting).setPhase b .idle) pic := by
  refine h.own ⟨fun a hab => update_of_ne hab _ _, fun a hab => update_of_ne hab _ _,
    fun a hab => update_of_ne hab _ _, fun a hab => update_of_ne hab _ _⟩ hoff (.inl hfree) ?_ ?_
  · rw [h.chain_nil hpend]
    show pending _ b = none
    unfold pending SyncRepShmem.setPhase SyncRepShmem.setState
    simp only [update_self]
    rfl
  · rw [hfree]
    refine ⟨hprev, ?_⟩
    show FreeOk _ _ _ (update s.phase b .idle b)
    rw [update_self]
    exact ⟨update_self _ _ _, update_self _ _ _, hnext⟩

lemma delete_of_queued (hplace : pic.place b = .queued mode) :
    ∃ ln, shmQueueDelete s.links (.proc b) = some ln ∧ deleteIfQueued s b = some { s with links := ln } := by
  obtain ⟨l₁, l₂, hl⟩ := List.append_of_mem ((h.mem_queue mode b).mpr hplace)
  have hring := h.queue mode
  rw [hl, IsQueue, List.map_append, List.map_cons] at hring
  obtain ⟨ln, hln, -⟩ := shmQueueDelete_spec hring
  refine ⟨ln, hln, ?_⟩
  have hprev : shmQueueIsDetached s.links (.proc b) = false := by
    unfold shmQueueDelete at hln
    obtain ⟨_, -, hln⟩ := Option.bind_eq_some_iff.mp hln
    obtain ⟨p, hp, -⟩ := Option.bind_eq_some_iff.mp hln
    unfold shmQueueIsDetached
    rw [hp]
    rfl
  unfold deleteIfQueued
  rw [hprev, hln]
  rfl

/-- Who is not in a completion chain yet, while it waits, is in a queue. -/
lemma queued_of_waiting (hphase : s.phase b = .waiting ∨ s.phase b = .exiting)
    (hin : s.syncRepInCompleteQueue b = false) : ∃ mode, pic.place b = .queued mode := by
  have hok := h.ok b
  cases hp : pic.place b with
  | free =>
    rw [hp, PlaceOk] at hok
    rcases hphase with hw | hw
    · rw [hw] at hok
      exact absurd hok.2.2 (by rw [hin]; decide)
    · rw [hw] at hok
      exact absurd hok.2.2 (by rw [hin]; decide)
  | queued mode => exact ⟨mode, rfl⟩
  | chained leader =>
    rw [hp] at hok
    exact absurd hok.2.1 (by rw [hin]; decide)

end

end SyncInv

/-! ## What a step does -/

inductive Moves (s s' : SyncRepShmem) (e : SyncEvent) (pic pic' : Picture) (b : ℕ) : Prop where
  | freed (hnew : pic'.place b = .free)
  | stays (hplace : pic'.place b = pic.place b) (hwait : s'.waitLSN b = s.waitLSN b) (hcompletes : ¬ e.Completes b)
      (henqueues : ¬ e.Enqueues b)
  | enters (mode : SyncRepWaitMode) (he : e = .enqueue b (s'.waitLSN b) mode) (hnew : pic'.place b = .queued mode)
  | follows (all : Bool) (mode : SyncRepWaitMode) (leader : ℕ) (he : e = .wake all mode (some leader))
      (hne : b ≠ leader) (hold : pic.place b = .queued mode) (hnew : pic'.place b = .chained leader)
      (hwait : s'.waitLSN b = s.waitLSN b) (hlsn : all = true ∨ s.waitLSN b ≤ s.lsn mode)

/-- Where a backend was that is woken. -/
inductive Wakes (s : SyncRepShmem) (e : SyncEvent) (pic : Picture) (b : ℕ) : Prop where
  | leads (all : Bool) (mode : SyncRepWaitMode) (he : e = .wake all mode (some b)) (hold : pic.place b = .queued mode)
      (hlsn : all = true ∨ s.waitLSN b ≤ s.lsn mode)
  | told (leader : ℕ) (he : e = .notify leader b) (hold : pic.place b = .chained leader)

structure StepOk (s s' : SyncRepShmem) (e : SyncEvent) (pic pic' : Picture) : Prop where
  inv : SyncInv s' pic'
  lsn : ∀ mode, s.lsn mode ≤ s'.lsn mode
  moves : ∀ b, Moves s s' e pic pic' b
  wakes : ∀ b, e.Completes b → Wakes s e pic b
  completes : ∀ b, e.Completes b → s'.syncRepState b = .waitComplete
  completed : ∀ b, s'.syncRepState b = .waitComplete → s.syncRepState b = .waitComplete ∨ e.Completes b

/-- A step that wakes nobody and moves nobody. -/
lemma StepOk.quiet (hinv : SyncInv s' pic) (hlsn : ∀ mode, s.lsn mode ≤ s'.lsn mode)
    (hwait : ∀ a, pic.place a = .free ∨ s'.waitLSN a = s.waitLSN a) (hcompletes : ∀ a, ¬ e.Completes a)
    (henqueues : ∀ a, ¬ e.Enqueues a)
    (hstate : ∀ a, s'.syncRepState a = .waitComplete → s.syncRepState a = .waitComplete) : StepOk s s' e pic pic where
  inv := hinv
  lsn := hlsn
  moves a := (hwait a).elim .freed fun hw => .stays rfl hw (hcompletes a) (henqueues a)
  wakes a ha := absurd ha (hcompletes a)
  completes a ha := absurd ha (hcompletes a)
  completed a ha := .inl (hstate a ha)

/-- A step by which one backend leaves its queue unwoken. -/
lemma StepOk.leave (hinv : SyncInv s' pic') (hlsn : s'.lsn = s.lsn)
    (hplace : ∀ a, pic'.place a = update pic.place b .free a) (hwait : s'.waitLSN = s.waitLSN)
    (hcompletes : ∀ a, ¬ e.Completes a) (henqueues : ∀ a, ¬ e.Enqueues a)
    (hstate : ∀ a, s'.syncRepState a = .waitComplete → s.syncRepState a = .waitComplete) : StepOk s s' e pic pic' where
  inv := hinv
  lsn mode := (congrFun hlsn mode).ge
  moves a := by
    by_cases hab : a = b
    · exact .freed (by rw [hplace a, hab, update_self])
    · exact .stays (by rw [hplace a, update_of_ne hab]) (congrFun hwait a) (hcompletes a) (henqueues a)
  wakes a ha := absurd ha (hcompletes a)
  completes a ha := absurd ha (hcompletes a)
  completed a ha := .inl (hstate a ha)

lemma notWaiting_of_update {a : ℕ} {state : SyncRepState} (hstate : state ≠ .waitComplete)
    (h : update s.syncRepState b state a = .waitComplete) : s.syncRepState a = .waitComplete := by
  by_cases hab : a = b
  · rw [hab, update_self] at h
    exact absurd h hstate
  · rwa [update_of_ne hab] at h

namespace SyncInv

lemma free_fields (h : SyncInv s pic) (hfree : pic.place b = .free) : s.links.prev (.proc b) = none ∧
    FreeOk (s.syncRepState b) (s.syncRepInCompleteQueue b) (s.links.next (.proc b)) (s.phase b) :=
  (hfree ▸ h.ok b : PlaceOk s b .free)

section

variable (h : SyncInv s pic)
include h

lemma cancel_step (hphase : s.phase b = .waiting) (hcancel : syncRepCancelWait s b = some (s', true)) :
    ∃ pic', StepOk s (s'.setPhase b .stopped) (.cancel b) pic pic' := by
  unfold syncRepCancelWait at hcancel
  cases hin : s.syncRepInCompleteQueue b with
  | true =>
    rw [hin] at hcancel
    cases hcancel
  | false =>
    obtain ⟨mode, hplace⟩ := h.queued_of_waiting (.inl hphase) hin
    obtain ⟨ln, hln, hdelete⟩ := h.delete_of_queued hplace
    rw [hin, hdelete] at hcancel
    obtain rfl := congrArg Prod.fst (Option.some_inj.mp hcancel)
    have hself : update s.syncRepState b .notWaiting b = .notWaiting := update_self _ _ _
    have hstopped : update s.phase b .stopped b = .stopped := update_self _ _ _
    have hbut : SameBut s (({ s with links := ln }.setState b .notWaiting).setPhase b .stopped) b :=
      ⟨fun a hab => update_of_ne hab _ _, fun _ _ => rfl, fun _ _ => rfl,
        fun a hab => update_of_ne hab _ _⟩
    have hstate : update s.syncRepState b .notWaiting b ≠ .waitComplete := by
      rw [hself]
      decide
    have hok : ∀ next, next = none → FreeOk (update s.syncRepState b .notWaiting b)
        (s.syncRepInCompleteQueue b) next (update s.phase b .stopped b) := by
      intro next hnext
      rw [hself, hstopped]
      exact .inr ⟨rfl, hin, hnext⟩
    obtain ⟨pic', hinv, hpic⟩ := h.dequeue hplace hbut rfl hln hstate hok fun e atExit heq =>
      (nomatch hstopped.symm.trans heq)
    exact ⟨pic', .leave hinv rfl hpic rfl (fun _ => id) (fun _ h => (nomatch h)) fun a ha =>
      notWaiting_of_update (by decide) ha⟩

lemma cleanup_step {released : Bool} (hphase : s.phase b = .exiting)
    (hcleanup : syncRepCleanupSection s b = some (s', released)) :
    ∃ pic', StepOk s (s'.setPhase b (if released then .gone else .waitCompletionQueue)) (.cleanup b) pic pic' := by
  have henqueues : ∀ a, ¬ (SyncEvent.cleanup b).Enqueues a := by
    rintro a ⟨_, _, heq⟩
    cases heq
  unfold syncRepCleanupSection at hcleanup
  cases hin : s.syncRepInCompleteQueue b with
  | true =>
    rw [hin] at hcleanup
    cases hcleanup
    refine ⟨pic, .quiet (h.setPhase (fun e atExit heq => ?_) (fun _ _ => Phase.noConfusion) fun hok => ?_)
      (fun _ => le_rfl) (fun _ => .inr rfl) (fun _ => id) henqueues fun _ => id⟩
    · cases hphase.symm.trans heq
    have hp : update s.phase b .waitCompletionQueue b = .waitCompletionQueue := update_self _ _ _
    cases hplace : pic.place b with
    | free =>
      rw [hplace, PlaceOk, hphase] at hok
      refine ⟨hok.1, ?_⟩
      show FreeOk _ _ _ (update s.phase b .waitCompletionQueue b)
      rw [hp]
      exact hok.2
    | queued mode =>
      rw [hplace] at hok
      exact absurd (hok.2.1.symm.trans hin) (by decide)
    | chained leader =>
      rw [hplace] at hok
      exact ⟨hok.1, hok.2.1, .inr (.inr hp)⟩
  | false =>
    obtain ⟨mode, hplace⟩ := h.queued_of_waiting (.inr hphase) hin
    obtain ⟨ln, hln, hdelete⟩ := h.delete_of_queued hplace
    rw [hin, hdelete] at hcleanup
    cases hcleanup
    have hwaiting : s.syncRepState b ≠ .waitComplete := by
      rw [h.waiting_of_place (by rw [hplace]; exact Place.noConfusion)]
      decide
    have hgone : update s.phase b .gone b = .gone := update_self _ _ _
    have hbut : SameBut s (({ s with links := ln } : SyncRepShmem).setPhase b .gone) b :=
      ⟨fun _ _ => rfl, fun _ _ => rfl, fun _ _ => rfl, fun a hab => update_of_ne hab _ _⟩
    have hok : ∀ next, next = none → FreeOk (s.syncRepState b) (s.syncRepInCompleteQueue b) next
        (update s.phase b .gone b) := by
      intro next hnext
      rw [hgone]
      exact hnext
    have hnotifying : ∀ e atExit, update s.phase b .gone b ≠ .notifying e atExit := by
      intro e atExit heq
      cases hgone.symm.trans heq
    obtain ⟨pic', hinv, hpic⟩ := h.dequeue hplace hbut rfl hln hwaiting hok hnotifying
    exact ⟨pic', .leave hinv rfl hpic rfl (fun _ => id) henqueues fun _ => id⟩

/-- An exit begins; who is nowhere and waits for nothing is gone at once. -/
lemma exit_step (hphase : s.phase b = .idle ∨ s.phase b = .waiting ∨ s.phase b = .stopped) :
    SyncInv (s.setPhase b (if needsCleanup s b then .exiting else .gone)) pic := by
  refine h.setPhase (fun e atExit heq => ?_) (fun e atExit heq => ?_) fun hok => ?_
  · rcases hphase with hp | hp | hp
    · cases hp.symm.trans heq
    · cases hp.symm.trans heq
    · cases hp.symm.trans heq
  · cases hneeds : needsCleanup s b with
    | true =>
      rw [hneeds] at heq
      cases heq
    | false =>
      rw [hneeds] at heq
      cases heq
  · have hneeds : s.syncRepState b ≠ .notWaiting → needsCleanup s b = true := by
      intro hne
      unfold needsCleanup
      rw [decide_eq_true hne, Bool.or_true]
    have hwaiting : s.syncRepState b = .waiting → update s.phase b
        (if needsCleanup s b then .exiting else .gone) b = .exiting := by
      intro hw
      rw [update_self, hneeds (by rw [hw]; decide), if_pos rfl]
    cases hplace : pic.place b with
    | queued mode =>
      rw [hplace] at hok
      exact ⟨hok.1, hok.2.1, .inr (hwaiting hok.1)⟩
    | chained leader =>
      rw [hplace] at hok
      exact ⟨hok.1, hok.2.1, .inr (.inl (hwaiting hok.1))⟩
    | free =>
      rw [hplace] at hok
      obtain ⟨hprev, hfree⟩ := hok
      refine ⟨hprev, ?_⟩
      show FreeOk (s.syncRepState b) (s.syncRepInCompleteQueue b) (s.links.next (.proc b)) (update s.phase b
        (if needsCleanup s b then .exiting else .gone) b)
      rw [update_self]
      have hcases : s.syncRepState b = .waitComplete ∧ s.syncRepInCompleteQueue b = true ∨
          s.syncRepState b = .notWaiting ∧ s.links.next (.proc b) = none := by
        rcases hphase with hp | hp | hp
        · rw [hp] at hfree
          exact .inr ⟨hfree.1, hfree.2.2⟩
        · rw [hp] at hfree
          exact .inl hfree
        · rw [hp] at hfree
          exact hfree.imp_right fun hf => ⟨hf.1, hf.2.2⟩
      rcases hcases with ⟨hstate, hin⟩ | ⟨hstate, hnext⟩
      · rw [hneeds (by rw [hstate]; decide), if_pos rfl]
        exact ⟨hstate, hin⟩
      · have hno : needsCleanup s b = false := by
          unfold needsCleanup
          rw [hprev, hnext, hstate]
          rfl
        rw [hno]
        exact hnext

lemma wake_step {all : Bool} {fuel : ℕ} {leader : Option ℕ}
    (hwake : syncRepWakeQueue fuel all mode s = some (s', leader)) :
    ∃ pic', StepOk s s' (.wake all mode leader) pic pic' := by
  obtain ⟨seg, back, hl, hseg, -, hcase⟩ := syncRepWakeQueue_spec (h.queue mode) all
  rcases hcase with ⟨rfl, -, hresult⟩ | ⟨first, tl, ln, rfl, hqueue, hprev, hlinked, hoff, -, hresult⟩
  · cases hresult fuel _ hwake
    exact ⟨pic, .quiet h (fun _ => le_rfl) (fun _ => .inr rfl) (fun _ h => (nomatch h)) (fun _ h => (nomatch h))
      fun _ => id⟩
  · cases hresult fuel _ hwake
    obtain ⟨pic', hinv, hpic⟩ := h.cut hl hqueue hprev hlinked hoff
    have hmem : ∀ a ∈ first :: tl, pic.place a = .queued mode := fun a ha =>
      (h.mem_queue mode a).mp (hl ▸ List.mem_append_left _ ha)
    refine ⟨pic', hinv, fun _ => le_rfl, fun a => ?_, fun a ha => ?_, fun a ha => ?_, fun a ha => ?_⟩
    · by_cases haf : a = first
      · exact .freed (by rw [hpic, if_pos haf])
      · by_cases htl : a ∈ tl
        · have ha : a ∈ first :: tl := List.mem_cons_of_mem _ htl
          exact .follows all mode first rfl haf (hmem a ha) (by rw [hpic, if_neg haf, if_pos htl]) rfl (hseg a ha)
        · refine .stays (by rw [hpic, if_neg haf, if_neg htl]) rfl (fun hc => ?_) fun h => (nomatch h)
          exact haf (Option.some_inj.mp hc).symm
    · obtain rfl := Option.some_inj.mp ha
      exact .leads all mode rfl (hmem _ List.mem_cons_self) (hseg _ List.mem_cons_self)
    · obtain rfl := Option.some_inj.mp ha
      exact update_self _ _ _
    · by_cases haf : a = first
      · exact .inr (congrArg some haf.symm)
      · exact .inl ((update_of_ne haf _ _).symm.trans ha)

lemma notify_step {c : ℕ} {atExit : Bool} (hphase : s.phase b = .notifying (some (.proc c)) atExit) :
    ∃ pic', StepOk s ((notifyOne s c).1.setPhase b (.notifying (notifyOne s c).2 atExit)) (.notify b c) pic pic' := by
  obtain ⟨hc, pic', hinv, hpic⟩ := h.handOn hphase
  refine ⟨pic', hinv, fun _ => le_rfl, fun a => ?_, fun a ha => ?_, fun a ha => ?_, fun a ha => ?_⟩
  · by_cases hac : a = c
    · exact .freed (by rw [hpic, hac, update_self])
    · exact .stays (by rw [hpic, update_of_ne hac]) rfl (fun ha => hac ha.symm) fun h => (nomatch h)
  · exact .told b (by rw [(show c = a from ha)]) (by rw [← (show c = a from ha), hc])
  · obtain rfl : c = a := ha
    exact update_self _ _ _
  · by_cases hac : a = c
    · exact .inr hac.symm
    · exact .inl ((update_of_ne hac _ _).symm.trans ha)

lemma enqueue_step {fuel : ℕ} {xactCommitLSN : XLogRecPtr} (hphase : s.phase b = .idle)
    (hinsert : syncRepEnqueue fuel s b xactCommitLSN mode = some s') :
    ∃ pic', StepOk s (s'.setPhase b .waiting) (.enqueue b xactCommitLSN mode) pic pic' := by
  obtain ⟨pic', hinv, hlsn, hwait, hstate, hpic⟩ := h.enqueue hphase hinsert
  refine ⟨pic', hinv, fun mode => (congrFun hlsn mode).ge, fun a => ?_, fun a ha => (nomatch ha),
    fun a ha => (nomatch ha), fun a ha => .inl ?_⟩
  · by_cases hab : a = b
    · subst hab
      refine .enters mode ?_ (by rw [hpic, update_self])
      show _ = SyncEvent.enqueue a (s'.waitLSN a) mode
      rw [hwait, update_self]
    · refine .stays (by rw [hpic, update_of_ne hab]) ?_ (fun h => (nomatch h)) ?_
      · show s'.waitLSN a = _
        rw [hwait, update_of_ne hab]
      · rintro ⟨lsn, mode', heq⟩
        cases heq
        exact hab rfl
  · have ha : s'.syncRepState a = .waitComplete := ha
    rw [hstate] at ha
    exact notWaiting_of_update (by decide) ha

end

/-- Whatever step is taken, everyone stays in one place. -/
lemma step (h : SyncInv s pic) (hstep : SyncStep s e s') : ∃ pic', StepOk s s' e pic pic' := by
  cases hstep with
  | enqueue hphase hlsn hinsert => exact h.enqueue_step hphase hinsert
  | @raise mode lsn hlsn =>
    refine ⟨pic, .quiet ?_ (fun mode' => ?_) (fun _ => .inr rfl) (fun _ => id) (fun _ h => (nomatch h)) fun _ => id⟩
    · exact ⟨h.queue, h.sorted, h.chain, h.nodup, h.mem_queue, h.mem_chain, h.ok⟩
    · by_cases hmode : mode' = mode
      · rw [hmode]
        show s.lsn mode ≤ update s.lsn mode lsn mode
        rw [update_self]
        exact hlsn.le
      · exact (update_of_ne hmode _ _).ge
  | wake hwake => exact h.wake_step hwake
  | cancel hphase hcancel => exact h.cancel_step hphase hcancel
  | @cancelFails b s' hphase hcancel =>
    unfold syncRepCancelWait at hcancel
    cases hin : s.syncRepInCompleteQueue b with
    | true =>
      rw [hin] at hcancel
      cases hcancel
      exact ⟨pic, .quiet h (fun _ => le_rfl) (fun _ => .inr rfl) (fun _ => id) (fun _ h => (nomatch h)) fun _ => id⟩
    | false =>
      rw [hin] at hcancel
      obtain ⟨_, -, heq⟩ := Option.map_eq_some_iff.mp hcancel
      exact Bool.noConfusion (congrArg Prod.snd heq)
  | @seeComplete b hphase hstate =>
    have hfree := h.free_of_complete hstate
    refine ⟨pic, .quiet (h.setPhase (fun _ _ heq => (nomatch hphase.symm.trans heq)) (fun _ _ heq => (nomatch heq))
      fun hok => ?_) (fun _ => le_rfl) (fun _ => .inr rfl) (fun _ => id) (fun _ h => (nomatch h)) fun _ => id⟩
    have hfields := h.free_fields hfree
    rw [hphase] at hfields
    rw [hfree]
    refine ⟨hfields.1, ?_⟩
    show FreeOk _ _ _ (update s.phase b .stopped b)
    rw [update_self]
    exact .inl hfields.2
  | @startNotify b e hphase hnext =>
    have hfree : pic.place b = .free :=
      h.place_of_phase (by rw [hphase]; decide) (by rw [hphase]; decide) (by rw [hphase]; decide)
    have hfields := h.free_fields hfree
    rw [hphase] at hfields
    obtain ⟨hstate, hin⟩ := hfields.2.resolve_right fun hf => (nomatch hnext.symm.trans hf.2.2)
    exact ⟨pic, .quiet (h.takeChain hfree (.inl hphase) hstate hin hnext) (fun _ => le_rfl) (fun _ => .inr rfl)
      (fun _ => id) (fun _ h => (nomatch h)) fun _ => id⟩
  | notify hphase => exact h.notify_step hphase
  | @finish b hphase =>
    have hfree : pic.place b = .free := by
      rcases hphase with ⟨hp, -⟩ | hp
      · exact h.place_of_phase (by rw [hp]; decide) (by rw [hp]; decide) (by rw [hp]; decide)
      · exact h.place_of_phase (by rw [hp]; exact Phase.noConfusion) (by rw [hp]; exact Phase.noConfusion)
          (by rw [hp]; exact Phase.noConfusion)
    have hfields := h.free_fields hfree
    obtain ⟨hpend, hnext⟩ : pending s b = none ∧ s.links.next (.proc b) = none := by
      rcases hphase with ⟨hp, hnext⟩ | hp
      · refine ⟨?_, hnext⟩
        rw [pending_links fun _ _ heq => (nomatch hp.symm.trans heq), hnext, ite_self]
      · rw [hp] at hfields
        refine ⟨?_, hfields.2.2.2⟩
        unfold pending
        rw [hp]
    refine ⟨pic, .quiet (h.reset hfree hpend (fun _ _ => ⟨rfl, rfl⟩) hnext hfields.1) (fun _ => le_rfl) (fun a => ?_)
      (fun _ => id) (fun _ h => (nomatch h)) fun a ha => notWaiting_of_update (by decide) ha⟩
    by_cases hab : a = b
    · exact .inl (hab ▸ hfree)
    · exact .inr (update_of_ne hab _ _)
  | exit hphase =>
    exact ⟨pic, .quiet (h.exit_step hphase) (fun _ => le_rfl) (fun _ => .inr rfl) (fun _ => id) (fun _ h => (nomatch h))
      fun _ => id⟩
  | cleanup hphase hcleanup => exact h.cleanup_step hphase hcleanup
  | @waited b hphase hstate =>
    have hfree : pic.place b = .free := by
      by_contra hplace
      exact hstate (h.waiting_of_place hplace)
    have hfields := h.free_fields hfree
    rw [hphase] at hfields
    split
    · next hnext =>
      obtain ⟨e, he⟩ := Option.isSome_iff_exists.mp hnext.2
      rw [he]
      exact ⟨pic, .quiet (h.takeChain hfree (.inr hphase) hfields.2.1 hfields.2.2 he) (fun _ => le_rfl)
        (fun _ => .inr rfl) (fun _ => id) (fun _ h => (nomatch h)) fun _ => id⟩
    · next hnext =>
      refine ⟨pic, .quiet (h.setPhase (fun _ _ heq => (nomatch hphase.symm.trans heq)) (fun _ _ heq => (nomatch heq))
        fun hok => ?_) (fun _ => le_rfl) (fun _ => .inr rfl) (fun _ => id) (fun _ h => (nomatch h)) fun _ => id⟩
      rw [hfree]
      refine ⟨hfields.1, ?_⟩
      show FreeOk _ _ _ (update s.phase b .gone b)
      rw [update_self]
      exact Option.not_isSome_iff_eq_none.mp fun hsome => hnext ⟨hfields.2.1, hsome⟩
  | @exited b hphase =>
    have hfree : pic.place b = .free := h.place_of_phase (by rw [hphase]; exact Phase.noConfusion)
      (by rw [hphase]; exact Phase.noConfusion) (by rw [hphase]; exact Phase.noConfusion)
    have hfields := h.free_fields hfree
    rw [hphase] at hfields
    have hpend : pending s b = none := by
      unfold pending
      rw [hphase]
    have hgone : (s.setPhase b .gone).phase b = .gone := update_self _ _ _
    refine ⟨pic, .quiet (h.own ⟨fun _ _ => rfl, fun _ _ => rfl, fun _ _ => rfl,
      fun a hab => update_of_ne hab _ _⟩ (fun _ _ => ⟨rfl, rfl⟩) (.inl hfree) ?_ ?_) (fun _ => le_rfl)
      (fun _ => .inr rfl) (fun _ => id) (fun _ h => (nomatch h)) fun _ => id⟩
    · rw [h.chain_nil hpend, pending_links fun _ _ heq => (nomatch hgone.symm.trans heq)]
      show (if s.syncRepState b = .waitComplete then s.links.next (.proc b) else none) = none
      rw [hfields.2.2.2, ite_self]
    · rw [hfree]
      refine ⟨hfields.1, ?_⟩
      show FreeOk _ _ _ (update s.phase b .gone b)
      rw [update_self]
      exact hfields.2.2.2
  | @init b hphase =>
    have hfree : pic.place b = .free :=
      h.place_of_phase (by rw [hphase]; decide) (by rw [hphase]; decide) (by rw [hphase]; decide)
    have hfields := h.free_fields hfree
    rw [hphase] at hfields
    have hpend : pending s b = none := by
      rw [pending_links fun _ _ heq => (nomatch hphase.symm.trans heq), hfields.2, ite_self]
    have hoff : s.links.SameOff (shmQueueElemInit s.links (.proc b)) [.proc b] := fun a ha =>
      have hne : a ≠ .proc b := fun heq => ha (List.mem_singleton.mpr heq)
      ⟨update_of_ne hne _ _, update_of_ne hne _ _⟩
    refine ⟨pic, .quiet (h.reset hfree hpend hoff (update_self _ _ _) (update_self _ _ _))
      (fun _ => le_rfl) (fun a => ?_) (fun _ => id) (fun _ h => (nomatch h)) fun a ha =>
        notWaiting_of_update (by decide) ha⟩
    by_cases hab : a = b
    · exact .inl (hab ▸ hfree)
    · exact .inr (update_of_ne hab _ _)

end SyncInv

/-! ## Histories -/

variable {es post : List SyncEvent} {lsn : XLogRecPtr}

/-- A wait that began in the past, and has neither been completed nor begun again. -/
structure InWait (es : List SyncEvent) (b : ℕ) (lsn : XLogRecPtr) (mode : SyncRepWaitMode) (post : List SyncEvent) :
    Prop where
  since : ∃ pre, es = pre ++ .enqueue b lsn mode :: post
  still : ∀ e ∈ post, ¬ e.Completes b ∧ ¬ e.Enqueues b

lemma InWait.snoc (h : InWait es b lsn mode post) (hcompletes : ¬ e.Completes b) (henqueues : ¬ e.Enqueues b) :
    InWait (es ++ [e]) b lsn mode (post ++ [e]) := by
  obtain ⟨⟨pre, rfl⟩, hopen⟩ := h
  refine ⟨⟨pre, ?_⟩, fun e' he' => ?_⟩
  · rw [List.append_assoc, List.cons_append]
  · rcases List.mem_append.mp he' with he' | he'
    · exact hopen e' he'
    · rw [List.mem_singleton.mp he']
      exact ⟨hcompletes, henqueues⟩

structure SyncHist (es : List SyncEvent) (s : SyncRepShmem) (pic : Picture) : Prop where
  queued : ∀ b mode, pic.place b = .queued mode → ∃ post, InWait es b (s.waitLSN b) mode post
  chained : ∀ b leader, pic.place b = .chained leader → ∃ mode post, InWait es b (s.waitLSN b) mode post ∧
    (s.waitLSN b ≤ s.lsn mode ∨ ∃ leader', .wake true mode leader' ∈ post)

lemma SyncHist.step (h : SyncHist es s pic) (hok : StepOk s s' e pic pic') : SyncHist (es ++ [e]) s' pic' := by
  refine ⟨fun b mode hplace => ?_, fun b leader hplace => ?_⟩
  · cases hok.moves b with
    | freed hnew => exact (nomatch hnew.symm.trans hplace)
    | stays hsame hwait hcompletes henqueues =>
      obtain ⟨post, hin⟩ := h.queued b mode (hsame.symm.trans hplace)
      exact ⟨_, hwait ▸ hin.snoc hcompletes henqueues⟩
    | enters mode' he hnew =>
      obtain rfl := Place.queued.inj (hnew.symm.trans hplace)
      exact ⟨[], ⟨es, by rw [he]⟩, fun e he => (nomatch he)⟩
    | follows all mode' leader he hne hold hnew hwait hlsn => exact (nomatch hnew.symm.trans hplace)
  · cases hok.moves b with
    | freed hnew => exact (nomatch hnew.symm.trans hplace)
    | stays hsame hwait hcompletes henqueues =>
      obtain ⟨mode, post, hin, hlsn⟩ := h.chained b leader (hsame.symm.trans hplace)
      refine ⟨mode, _, hwait ▸ hin.snoc hcompletes henqueues, hlsn.imp (fun hle => ?_) fun ⟨l, hl⟩ => ?_⟩
      · exact hwait ▸ hle.trans (hok.lsn mode)
      · exact ⟨l, List.mem_append_left _ hl⟩
    | enters mode' he hnew => exact (nomatch hnew.symm.trans hplace)
    | follows all mode leader' he hne hold hnew hwait hlsn =>
      obtain ⟨post, hin⟩ := h.queued b mode hold
      have hcompletes : ¬ e.Completes b := by
        rw [he]
        exact fun heq => hne (Option.some_inj.mp heq).symm
      have henqueues : ¬ e.Enqueues b := by
        rw [he]
        exact fun heq => (nomatch heq)
      refine ⟨mode, _, hwait ▸ hin.snoc hcompletes henqueues, hlsn.symm.imp (fun hle => ?_) fun hall => ?_⟩
      · exact hwait ▸ hle.trans (hok.lsn mode)
      · refine ⟨some leader', List.mem_append_right _ ?_⟩
        rw [he, hall]
        exact List.mem_cons_self

lemma syncInv_start : SyncInv .start ⟨fun _ => [], fun _ => [], fun _ => .free⟩ where
  queue _ := Circular.nil_iff.mpr ⟨rfl, rfl⟩
  sorted _ := .nil
  chain _ := rfl
  nodup _ := List.nodup_nil
  mem_queue _ _ := ⟨fun h => (nomatch h), fun h => (nomatch h)⟩
  mem_chain _ _ := ⟨fun h => (nomatch h), fun h => (nomatch h)⟩
  ok _ := ⟨rfl, rfl, rfl, rfl⟩

lemma sync_run (h : Trace SyncStep .start es s) : ∃ pic, SyncInv s pic ∧ SyncHist es s pic := by
  have hrun := h.history (fun es s => ∃ pic, SyncInv s pic ∧ SyncHist es s pic) []
    (fun ⟨pic, hinv, hhist⟩ hstep => by
      obtain ⟨pic', hok⟩ := hinv.step hstep
      exact ⟨pic', hok.inv, hhist.step hok⟩)
    ⟨_, syncInv_start, fun b mode h => (nomatch h), fun b leader h => (nomatch h)⟩
  exact hrun

/-! ## The queues and chains -/

/-- A leader that still has some to notify, and those. -/
def InChain (chain : ℕ → List ℕ) (b leader : ℕ) : Prop := chain leader ≠ [] ∧ (b = leader ∨ b ∈ chain leader)

/-- Rings in the order of their positions; chains that go on from a leader that has the notification; and everyone in
one place. -/
structure Placed (s : SyncRepShmem) (queue : SyncRepWaitMode → List ℕ) (chain : ℕ → List ℕ) : Prop where
  circular : ∀ mode, IsQueue s.links mode (queue mode)
  sorted : ∀ mode, (queue mode).Pairwise fun p q => s.waitLSN p ≤ s.waitLSN q
  reach : ∀ leader, Linked s.links.next (pending s leader) ((chain leader).map ShmElem.proc) none
  leader : ∀ leader, chain leader ≠ [] →
    s.syncRepState leader = .waitComplete ∧ s.phase leader ≠ .idle ∧ s.phase leader ≠ .gone
  apart : ∀ b,
    (s.links.next (.proc b) = none ∧ s.links.prev (.proc b) = none ∧ (∀ mode, b ∉ queue mode) ∧
      ∀ leader, ¬ InChain chain b leader) ∨
    (∃ mode, b ∈ queue mode ∧ (queue mode).Nodup ∧ (∀ mode', b ∈ queue mode' → mode' = mode) ∧
      ∀ leader, ¬ InChain chain b leader) ∨
    ∃ leader, InChain chain b leader ∧ (leader :: chain leader).Nodup ∧
      (∀ leader', InChain chain b leader' → leader' = leader) ∧ ∀ mode, b ∉ queue mode

namespace SyncInv

section

variable (h : SyncInv s pic)
include h

lemma chain_nil_of_place (hplace : pic.place b ≠ .free) : pic.chain b = [] :=
  h.chain_nil (h.pending_of_place hplace)

/-- A leader with a chain is free and has the notification. -/
lemma leader_fields (hchain : pic.chain b ≠ []) :
    pic.place b = .free ∧ s.syncRepState b = .waitComplete ∧ s.phase b ≠ .idle ∧ s.phase b ≠ .gone := by
  have hfree : pic.place b = .free := by
    by_contra hplace
    exact hchain (h.chain_nil_of_place hplace)
  have hpend : pending s b ≠ none := fun hnone => hchain (h.chain_nil hnone)
  have hfields := (h.free_fields hfree).2
  refine ⟨hfree, ?_, fun hp => ?_, fun hp => ?_⟩
  · cases hp : s.phase b with
    | notifying e atExit =>
      rw [hp] at hfields
      exact hfields.1
    | _ =>
      rw [pending_links (by rw [hp]; exact fun _ _ heq => (nomatch heq))] at hpend
      by_contra hstate
      exact hpend (if_neg hstate)
  · rw [hp] at hfields
    rw [pending_links (by rw [hp]; exact fun _ _ heq => (nomatch heq)), hfields.2.2, ite_self] at hpend
    exact hpend rfl
  · rw [hp] at hfields
    have hnext : s.links.next (.proc b) = none := hfields
    rw [pending_links (by rw [hp]; exact fun _ _ heq => (nomatch heq)), hnext, ite_self] at hpend
    exact hpend rfl

/-- Who is free and leads no chain has no links. -/
lemma detached (hfree : pic.place b = .free) (hchain : pic.chain b = []) : s.links.next (.proc b) = none := by
  have hfields := (h.free_fields hfree).2
  have hpend : pending s b = none := by
    have := h.chain b
    rw [hchain] at this
    exact this
  have hcomplete : (∀ e atExit, s.phase b ≠ .notifying e atExit) → s.syncRepState b = .waitComplete →
      s.links.next (.proc b) = none := by
    intro hp hstate
    rwa [pending_links hp, if_pos hstate] at hpend
  cases hp : s.phase b with
  | idle => exact (hp ▸ hfields : FreeOk _ _ _ .idle).2.2
  | gone => exact (hp ▸ hfields : FreeOk _ _ _ .gone)
  | notifying e atExit => exact (hp ▸ hfields : FreeOk _ _ _ (.notifying e atExit)).2.2
  | stopped =>
    rcases (hp ▸ hfields : FreeOk _ _ _ .stopped) with hf | hf
    · exact hcomplete (by rw [hp]; exact fun _ _ heq => (nomatch heq)) hf.1
    · exact hf.2.2
  | waiting =>
    have hf : FreeOk _ _ _ .waiting := hp ▸ hfields
    exact hcomplete (by rw [hp]; exact fun _ _ heq => (nomatch heq)) hf.1
  | exiting =>
    have hf : FreeOk _ _ _ .exiting := hp ▸ hfields
    exact hcomplete (by rw [hp]; exact fun _ _ heq => (nomatch heq)) hf.1
  | waitCompletionQueue =>
    have hf : FreeOk _ _ _ .waitCompletionQueue := hp ▸ hfields
    exact hcomplete (by rw [hp]; exact fun _ _ heq => (nomatch heq)) hf.1

lemma placed : Placed s pic.queue pic.chain where
  circular := h.queue
  sorted := h.sorted
  reach := h.chain
  leader leader hchain := (h.leader_fields hchain).2
  apart b := by
    cases hplace : pic.place b with
    | free =>
      have hqueue : ∀ mode, b ∉ pic.queue mode := fun mode hmem =>
        (nomatch hplace.symm.trans ((h.mem_queue mode b).mp hmem))
      have hmember : ∀ leader, b ∉ pic.chain leader := fun leader hmem =>
        (nomatch hplace.symm.trans ((h.mem_chain leader b).mp hmem))
      by_cases hchain : pic.chain b = []
      · refine .inl ⟨h.detached hplace hchain, (h.free_fields hplace).1, hqueue, fun leader hin => ?_⟩
        rcases hin.2 with rfl | hmem
        · exact hin.1 hchain
        · exact hmember leader hmem
      · refine .inr (.inr ⟨b, ⟨hchain, .inl rfl⟩, List.nodup_cons.mpr ⟨hmember b, h.nodup b⟩, fun leader hin => ?_,
          hqueue⟩)
        exact (hin.2.resolve_right (hmember leader)).symm
    | queued mode =>
      have hnil : pic.chain b = [] := h.chain_nil_of_place (by rw [hplace]; exact Place.noConfusion)
      refine .inr (.inl ⟨mode, (h.mem_queue mode b).mpr hplace, (List.nodup_cons.mp (h.queue mode).nodup).2.of_map,
        fun mode' hmem => ?_, fun leader hin => ?_⟩)
      · exact (Place.queued.inj (hplace.symm.trans ((h.mem_queue mode' b).mp hmem))).symm
      · rcases hin.2 with rfl | hmem
        · exact hin.1 hnil
        · exact (nomatch hplace.symm.trans ((h.mem_chain leader b).mp hmem))
    | chained leader =>
      have hnil : pic.chain b = [] := h.chain_nil_of_place (by rw [hplace]; exact Place.noConfusion)
      have hmem : b ∈ pic.chain leader := (h.mem_chain leader b).mpr hplace
      have hfree := (h.leader_fields (List.ne_nil_of_mem hmem)).1
      refine .inr (.inr ⟨leader, ⟨List.ne_nil_of_mem hmem, .inr hmem⟩,
        List.nodup_cons.mpr ⟨fun hself => ?_, h.nodup leader⟩,
        fun leader' hin => ?_, fun mode hmem => ?_⟩)
      · exact (nomatch hfree.symm.trans ((h.mem_chain leader leader).mp hself))
      · rcases hin.2 with rfl | hmem'
        · exact absurd hnil hin.1
        · exact (Place.chained.inj (hplace.symm.trans ((h.mem_chain leader' b).mp hmem'))).symm
      · exact (nomatch hplace.symm.trans ((h.mem_queue mode b).mp hmem))

/-- A step sets a backend to `SYNC_REP_WAIT_COMPLETE` by an event that says so. -/
lemma completes_iff (hstep : SyncStep s e s') :
    e.Completes b ↔ s.syncRepState b ≠ .waitComplete ∧ s'.syncRepState b = .waitComplete := by
  obtain ⟨pic', hok⟩ := h.step hstep
  constructor
  · intro hc
    refine ⟨fun hstate => ?_, hok.completes b hc⟩
    have hfree := h.free_of_complete hstate
    cases hok.wakes b hc with
    | leads all mode he hold hlsn => exact (nomatch hfree.symm.trans hold)
    | told leader he hold => exact (nomatch hfree.symm.trans hold)
  · exact fun ⟨hold, hnew⟩ => (hok.completed b hnew).resolve_left hold

/-- After a wake-up the queue holds only who waits for more than the walsender has. -/
lemma wake_done {fuel : ℕ} {leader : Option ℕ} (hwake : syncRepWakeQueue fuel false mode s = some (s', leader)) :
    ∃ queue chain, Placed s' queue chain ∧ ∀ b ∈ queue mode, s'.lsn mode < s'.waitLSN b := by
  obtain ⟨seg, back, hl, -, hback, hcase⟩ := syncRepWakeQueue_spec (h.queue mode) false
  have hafter : ∀ b ∈ back, s.lsn mode < s.waitLSN b := by
    have hsorted := hl ▸ h.sorted mode
    cases back with
    | nil => exact fun b hb => (nomatch hb)
    | cons p back =>
      have hp := (hback p rfl).2
      have hrest := (List.pairwise_cons.mp (List.pairwise_append.mp hsorted).2.1).1
      intro b hb
      rcases List.mem_cons.mp hb with rfl | hb
      · exact hp
      · exact lt_of_lt_of_le hp (hrest b hb)
  rcases hcase with ⟨rfl, -, hresult⟩ | ⟨first, tl, ln, rfl, hqueue, hprev, hlinked, hoff, -, hresult⟩
  · cases hresult fuel _ hwake
    refine ⟨pic.queue, pic.chain, h.placed, fun b hb => hafter b ?_⟩
    rw [hl] at hb
    exact hb
  · cases hresult fuel _ hwake
    obtain ⟨pic', hinv, hpic⟩ := h.cut hl hqueue hprev hlinked hoff
    refine ⟨pic'.queue, pic'.chain, hinv.placed, fun b hb => hafter b ?_⟩
    have hplace := (hinv.mem_queue mode b).mp hb
    rw [hpic] at hplace
    by_cases hf : b = first
    · rw [if_pos hf] at hplace
      cases hplace
    · rw [if_neg hf] at hplace
      by_cases htl : b ∈ tl
      · rw [if_pos htl] at hplace
        cases hplace
      · rw [if_neg htl, ← h.mem_queue mode b, hl] at hplace
        exact (List.mem_append.mp hplace).resolve_left fun hmem => (List.mem_cons.mp hmem).elim hf htl

end

end SyncInv

/-- The wait queues wake the right backends, in every run. -/
theorem sync_rep_wait {es : List SyncEvent} {s : SyncRepShmem} (h : Trace SyncStep .start es s) :
    (∃ queue chain, Placed s queue chain ∧
      ∀ b, s.phase b = .waiting ∨ s.phase b = .exiting → s.syncRepInCompleteQueue b = false →
        ∃ mode, b ∈ queue mode) ∧
    (∀ fuel mode leader s', syncRepWakeQueue fuel false mode s = some (s', leader) →
      ∃ queue chain, Placed s' queue chain ∧ ∀ b ∈ queue mode, s'.lsn mode < s'.waitLSN b) ∧
    (∀ e s' b, SyncStep s e s' →
      (e.Completes b ↔ s.syncRepState b ≠ .waitComplete ∧ s'.syncRepState b = .waitComplete)) ∧
    (∀ e s' b, SyncStep s e s' → e.Completes b →
      ∃ mode post, InWait es b (s.waitLSN b) mode post ∧
        (s.waitLSN b ≤ s.lsn mode ∨ ∃ leader, .wake true mode leader ∈ post ++ [e])) ∧
    (∀ all mode, ∃ fuel r, syncRepWakeQueue fuel all mode s = some r) ∧
    (∀ b xactCommitLSN mode, s.phase b = .idle → ∃ fuel s', syncRepEnqueue fuel s b xactCommitLSN mode = some s') ∧
    ∀ b, s.phase b = .waiting ∨ s.phase b = .exiting →
      (syncRepCancelWait s b).isSome ∧ (syncRepCleanupSection s b).isSome := by
  obtain ⟨pic, hinv, hhist⟩ := sync_run h
  refine ⟨⟨_, _, hinv.placed, fun b hphase hin => ?_⟩, fun fuel mode leader s' hwake => hinv.wake_done hwake,
    fun e s' b hstep => hinv.completes_iff hstep, fun e s' b hstep hc => ?_, fun all mode => ?_,
    fun b xactCommitLSN mode hphase => ?_, fun b hphase => ?_⟩
  · obtain ⟨mode, hplace⟩ := hinv.queued_of_waiting hphase hin
    exact ⟨mode, (hinv.mem_queue mode b).mpr hplace⟩
  · obtain ⟨pic', hok⟩ := hinv.step hstep
    cases hok.wakes b hc with
    | leads all mode he hold hlsn =>
      obtain ⟨post, hin⟩ := hhist.queued b mode hold
      refine ⟨mode, post, hin, hlsn.symm.imp_right fun hall => ⟨some b, List.mem_append_right _ ?_⟩⟩
      rw [he, hall]
      exact List.mem_cons_self
    | told leader he hold =>
      obtain ⟨mode, post, hin, hlsn⟩ := hhist.chained b leader hold
      exact ⟨mode, post, hin, hlsn.imp_right fun ⟨l, hl⟩ => ⟨l, List.mem_append_left _ hl⟩⟩
  · obtain ⟨_, _, -, -, -, hcase⟩ := syncRepWakeQueue_spec (hinv.queue mode) all
    rcases hcase with ⟨-, ⟨fuel, hrun⟩, -⟩ | ⟨_, _, _, _, _, _, _, _, ⟨fuel, hrun⟩, _⟩
    · exact ⟨fuel, _, hrun⟩
    · exact ⟨fuel, _, hrun⟩
  · have hfree := hinv.place_idle hphase
    have hout : b ∉ pic.queue mode := fun hmem => (nomatch hfree.symm.trans ((hinv.mem_queue mode b).mp hmem))
    have hring : IsQueue ({ s with waitLSN := update s.waitLSN b xactCommitLSN
                                   syncRepState := update s.syncRepState b .waiting } : SyncRepShmem).links
        mode (pic.queue mode) := hinv.queue mode
    obtain ⟨_, _, ln, fuel, -, hrun, -⟩ := syncRepQueueInsert_spec hring hout
    exact ⟨fuel, _, hrun⟩
  · cases hin : s.syncRepInCompleteQueue b with
    | true =>
      unfold syncRepCancelWait syncRepCleanupSection
      rw [hin]
      exact ⟨rfl, rfl⟩
    | false =>
      obtain ⟨mode, hplace⟩ := hinv.queued_of_waiting hphase hin
      obtain ⟨ln, -, hdelete⟩ := hinv.delete_of_queued hplace
      unfold syncRepCancelWait syncRepCleanupSection
      rw [hin, hdelete]
      exact ⟨rfl, rfl⟩

/-- Two backends wait and are cut out together; the first tells the second. -/
theorem sync_rep_wait_pair : ∃ s : SyncRepShmem,
    Trace SyncStep .start [.enqueue 1 5 .flush, .enqueue 2 7 .flush, .raise .flush 7, .wake false .flush (some 1),
      .seeComplete 1, .startNotify 1, .notify 1 2] s ∧
    s.phase 1 = .notifying none false ∧ s.syncRepState 2 = .waitComplete ∧ ∃ queue chain, Placed s queue chain := by
  obtain ⟨s, h, hphase, hstate⟩ : ∃ s, Trace SyncStep .start [.enqueue 1 5 .flush, .enqueue 2 7 .flush,
      .raise .flush 7, .wake false .flush (some 1), .seeComplete 1, .startNotify 1, .notify 1 2] s ∧
      s.phase 1 = .notifying none false ∧ s.syncRepState 2 = .waitComplete := by
    refine ⟨_, .cons (@SyncStep.enqueue _ 1 1 5 .flush _ rfl (by decide) rfl)
      (.cons (@SyncStep.enqueue _ 2 2 7 .flush _ rfl (by decide) rfl)
      (.cons (@SyncStep.raise _ .flush 7 (by decide))
      (.cons (@SyncStep.wake _ false .flush 3 _ _ rfl)
      (.cons (@SyncStep.seeComplete _ 1 rfl rfl)
      (.cons (@SyncStep.startNotify _ 1 _ rfl rfl)
      (.cons (@SyncStep.notify _ 1 2 false rfl) (.nil _))))))), rfl, rfl⟩
  obtain ⟨queue, chain, hplaced, -⟩ := (sync_rep_wait h).1
  exact ⟨s, h, hphase, hstate, queue, chain, hplaced⟩

end GaussKernel.Replication
