import GaussKernel.Mot.GcChain

/-!
# Reclamation by the garbage queue

Every object is destroyed at most once, not before its epoch, and stays within reach of `m_limboHead` until then. The
calls keep the invariant of the groups in every run; what does not hold in every run is the number of objects in use, as
`CleanIndexItems` counts what it destroys only if the destructors return sizes, and the order of the epochs, which are
compared by the sign of their difference (`GcOp.Sound`).
-/

namespace GaussKernel.Mot

open Lib

namespace GcQueue

variable {q q' : GcQueue} {a b : Nat} {loose used spare : List Nat}

/-! ## Recording objects -/

/-- Between `q` and `q'` objects were pushed and none was destroyed. -/
structure Records (q q' : GcQueue) : Prop where
  called : q'.called = q.called
  tally : q'.m_stats.m_totalLimboInuseElements + q.outstanding.length =
    q.m_stats.m_totalLimboInuseElements + q'.outstanding.length
  byIndex : q'.m_stats.m_totalLimboSizeInBytesByCleanIndex = q.m_stats.m_totalLimboSizeInBytesByCleanIndex

lemma Records.refl (q : GcQueue) : q.Records q := ⟨rfl, rfl, rfl⟩

lemma Records.trans {q'' : GcQueue} (h : q.Records q') (h' : q'.Records q'') : q.Records q'' where
  called := h'.called.trans h.called
  tally := by
    have := h.tally
    have := h'.tally
    omega
  byIndex := h'.byIndex.trans h.byIndex

lemma SameObjects.records (h : q.SameObjects q') : q.Records q' where
  called := h.called
  tally := by rw [h.inuse, h.outstanding]
  byIndex := h.byIndex

lemma sameObjects_setNext (q : GcQueue) (a : Nat) (n : Option Nat) : q.SameObjects (q.setNext a n) :=
  ⟨rfl, rfl, rfl, rfl⟩

/-- The invariant with no groups in between. -/
def Whole (q : GcQueue) : Prop := ∃ used spare, q.Inv [] used spare

lemma pushBack_spec (m : GcManager) (indexId objSize : UInt32) (csn : UInt64) (h : q.Whole) :
    (q.pushBack m indexId objSize csn).Whole ∧ q.Records (q.pushBack m indexId objSize csn) := by
  obtain ⟨used, spare, h⟩ := h
  have hrefilled : ∀ q', (if (q.groups q.m_limboTail).m_tail + 2 > LimboGroup.CAPACITY then q.refillLimboGroup m
      else some q) = some q' → ∃ used' spare', q'.Inv [] used' spare' ∧ q.SameObjects q' ∧
        (q'.groups q'.m_limboTail).m_tail + 2 ≤ LimboGroup.CAPACITY := by
    intro q' hq'
    split at hq'
    case isTrue =>
      obtain ⟨used', spare', h', hsame, hempty⟩ := refillLimboGroup_spec h hq'
      refine ⟨used', spare', h', hsame, ?_⟩
      rw [LimboGroup.m_tail, hempty.1, hempty.2]
      decide
    case isFalse hroom =>
      cases hq'
      exact ⟨used, spare, h, .refl q, Nat.not_lt.mp hroom⟩
  rw [pushBack]
  split
  case h_1 => exact ⟨⟨used, spare, h⟩, .refl q⟩
  case h_2 q' hq' =>
    obtain ⟨used', spare', h', hsame, hroom⟩ := hrefilled q' hq'
    have hpush := h'.push hroom indexId csn
    refine ⟨⟨used', spare', hpush.withStats _ _⟩, hsame.records.trans ⟨rfl, ?_, rfl⟩⟩
    have hlength := congrArg List.length (outstanding_push h'.known ⟨csn, indexId⟩ rfl)
    rw [List.length_append, List.length_singleton] at hlength
    show q'.m_stats.m_totalLimboInuseElements + 1 + q'.outstanding.length = q'.m_stats.m_totalLimboInuseElements +
      ({ q' with pushed := q'.pushed ++ [⟨csn, indexId⟩] } : GcQueue).outstanding.length
    omega

lemma Whole.withStats (h : q.Whole) (stats : GcStats) (deleted : List UInt32) :
    ({ q with m_stats := stats, m_deleteVector := deleted } : GcQueue).Whole :=
  let ⟨used, spare, h⟩ := h
  ⟨used, spare, h.withStats stats deleted⟩

lemma registerDeletedSentinels_spec (m : GcManager) (h : q.Whole) :
    (q.registerDeletedSentinels m).Whole ∧ q.Records (q.registerDeletedSentinels m) := by
  have hall : ∀ (indexes : List UInt32) (q : GcQueue), q.Whole →
      (indexes.foldl (fun q indexId => q.pushBack m indexId (m.sentinelSize indexId) m.globalEpoch) q).Whole ∧
      q.Records (indexes.foldl (fun q indexId => q.pushBack m indexId (m.sentinelSize indexId) m.globalEpoch) q) := by
    intro indexes
    induction indexes with
    | nil => exact fun q h => ⟨h, .refl q⟩
    | cons indexId indexes ih =>
      intro q h
      obtain ⟨h1, hrec⟩ := pushBack_spec m indexId (m.sentinelSize indexId) m.globalEpoch h
      obtain ⟨h2, hrest⟩ := ih _ h1
      exact ⟨h2, hrec.trans hrest⟩
  rw [registerDeletedSentinels]
  split
  case isTrue =>
    obtain ⟨h', hrec⟩ := hall q.m_deleteVector q h
    exact ⟨h'.withStats _ [], hrec.trans ⟨rfl, rfl, rfl⟩⟩
  case isFalse => exact ⟨h.withStats _ [], ⟨rfl, rfl, rfl⟩⟩

/-! ## Reserving memory -/

/-- The loose groups are linked from the first of `ends` to the last. -/
def Ends (q : GcQueue) (loose : List Nat) (stop : Option Nat) : Option (Nat × Nat) → Prop
  | none => loose = []
  | some (first, last) => Linked q.next (some first) loose stop ∧ loose.getLast? = some last

lemma allocOne_spec {m : GcManager} {fromReserved : Bool} (h : q.Inv loose used spare)
    (hc : q.allocOne m fromReserved = some (a, q')) : q.Allocated q' a loose used spare := by
  rw [allocOne] at hc
  split at hc
  case h_1 limboGroup q1 hreserved =>
    cases hc
    cases fromReserved with
    | false => cases hreserved
    | true => exact allocLimboGroup_spec h hreserved
  case h_2 =>
    split at hc
    case h_1 limboGroup q1 hnew =>
      cases hc
      exact (createNewLimboGroup_spec h hnew).counted 1
    case h_2 => cases hc

lemma allocLoop_spec (m : GcManager) (fromReserved : Bool) (n : Nat) {ends : Option (Nat × Nat)}
    (h : q.Inv loose used spare) (he : q.Ends loose none ends) :
    let r := allocLoop m fromReserved n q ends
    ∃ loose', r.1.Inv loose' used spare ∧ q.SameObjects r.1 ∧ r.1.Ends loose' none r.2.1 := by
  induction n generalizing q loose ends with
  | zero => exact ⟨loose, h, .refl q, he⟩
  | succ n ih =>
    rw [allocLoop]
    split
    case h_1 => exact ⟨loose, h, .refl q, he⟩
    case h_2 a q1 hc =>
      have halloc := allocOne_spec h hc
      cases ends with
      | none =>
        have hloose : loose = [] := he
        subst hloose
        have hone : q1.Ends [a] none (some (a, a)) := ⟨⟨rfl, halloc.unlinked⟩, rfl⟩
        obtain ⟨loose', h', hsame, he'⟩ := ih halloc.inv hone
        exact ⟨loose', h', halloc.same.trans hsame, he'⟩
      | some e =>
        obtain ⟨currentHead, currentTail⟩ := e
        obtain ⟨hl, hlast⟩ := he
        have hnot : a ∉ loose := (List.nodup_cons.mp (List.nodup_append.mp halloc.inv.nodup).1).1 ∘
          List.mem_append_left _
        have hlinked : (q1.setNext a (some currentHead)).Ends (a :: loose) none (some (a, currentTail)) := by
          refine ⟨⟨rfl, ?_⟩, ?_⟩
          · rw [next_setNext_self]
            refine hl.congr fun b hb => ?_
            have hba : b ≠ a := fun he => hnot (he ▸ hb)
            rw [next_setNext_ne hba, halloc.others b hb]
          · cases loose with
            | nil => cases hlast
            | cons c loose => exact hlast
        have hsame1 : q.SameObjects (q1.setNext a (some currentHead)) := halloc.same.trans (sameObjects_setNext q1 a _)
        obtain ⟨loose', h', hsame, he'⟩ := ih (halloc.inv.setNext_loose List.mem_cons_self) hlinked
        exact ⟨loose', h', hsame1.trans hsame, he'⟩

/-- Loose groups go behind the tail, whatever their last link was. -/
lemma Inv.hookEnds (h : q.Inv loose used spare) {stop : Option Nat} (he : q.Ends loose stop (some (a, b))) :
    ((q.setNext b (q.next q.m_limboTail)).setNext q.m_limboTail (some a)).Inv [] used (loose ++ spare) := by
  obtain ⟨hl, hlast⟩ := he
  obtain ⟨l, rfl⟩ := List.getLast?_eq_some_iff.mp hlast
  have hb : b ∈ l ++ [b] := List.mem_append_right _ (List.mem_singleton_self b)
  have hnot : b ∉ l := by
    have hn := h.nodup
    rw [held, List.append_assoc] at hn
    have hn := (List.nodup_append.mp hn).1
    exact fun hbl => (List.nodup_append.mp hn).2.2 b hbl b (List.mem_singleton_self b) rfl
  have htail : b ≠ q.m_limboTail := fun he =>
    h.loose_disjoint hb (he ▸ List.mem_append_right _ List.mem_cons_self)
  refine (h.setNext_loose hb).hook (a := a) ?_
  obtain ⟨m, hlm, hm, -⟩ := linked_append.mp hl
  refine Linked.append (hlm.congr fun c hc => next_setNext_ne fun he => hnot (he ▸ hc)) ⟨hm, ?_⟩
  exact next_setNext_self.trans (next_setNext_ne htail.symm).symm

lemma Inv.loose_chain (h : q.Inv loose used spare) (hl : Linked q.next (some a) loose none) :
    q.chain (some a) = some loose := by
  have hn := h.nodup
  rw [held, List.append_assoc] at hn
  have hsub : ∀ b ∈ loose, b ∈ q.live := fun b hb =>
    h.live b (List.mem_append_left _ (List.mem_append_left _ hb))
  exact hl.follow_eq ((List.nodup_append.mp hn).1.subperm hsub).length_le

lemma mem_foldl_erase {list live : List Nat} (ha : a ∉ list) (h : a ∈ live) :
    a ∈ list.foldl (fun live b => live.erase b) live := by
  induction list generalizing live with
  | nil => exact h
  | cons b list ih =>
    obtain ⟨hne, hrest⟩ := not_or.mp (mt List.mem_cons.mpr ha)
    exact ih hrest ((List.mem_erase_of_ne hne).mpr h)

lemma foldl_destroy (list : List Nat) (q : GcQueue) :
    ∃ n, list.foldl (fun q limboGroup => (q.destroyLimboGroup limboGroup).subAllocations 1) q = { q with
      live := list.foldl (fun live b => live.erase b) q.live
      m_stats := { q.m_stats with m_limboGroupAllocations := n } } := by
  induction list generalizing q with
  | nil => exact ⟨q.m_stats.m_limboGroupAllocations, rfl⟩
  | cons b list ih =>
    obtain ⟨n, hn⟩ := ih ((q.destroyLimboGroup b).subAllocations 1)
    exact ⟨n, hn⟩

lemma foldl_destroy_tail (list : List Nat) (q : GcQueue) :
    (list.foldl (fun q limboGroup => (q.destroyLimboGroup limboGroup).subAllocations 1) q).m_limboTail =
      q.m_limboTail := by
  obtain ⟨n, hn⟩ := foldl_destroy list q
  rw [hn]

/-- Loose groups given back one after the other. -/
lemma Inv.destroyAll (h : q.Inv loose used spare) :
    let r := loose.foldl (fun q limboGroup => (q.destroyLimboGroup limboGroup).subAllocations 1) q
    r.Inv [] used spare ∧ q.SameObjects r := by
  obtain ⟨n, hn⟩ := foldl_destroy loose q
  intro r
  have hr : r = _ := hn
  rw [hr]
  exact ⟨(h.release fun a ha hlive => mem_foldl_erase ha hlive).withStats _ _, ⟨rfl, rfl, rfl, rfl⟩⟩

lemma allocLimboGroups_spec (m : GcManager) (limboGroups totalElements : Nat) (reserve : Bool) (h : q.Whole) :
    ∃ r done, q.allocLimboGroups m limboGroups totalElements reserve = some (r, done) ∧ r.Whole ∧ q.SameObjects r := by
  obtain ⟨used, spare, h⟩ := h
  have hnone : q.Ends [] none none := rfl
  obtain ⟨loose, h', hsame, hends⟩ :=
    allocLoop_spec m (q.m_queueType = .genericQueue ∧ reserve = false) limboGroups h hnone
  rw [allocLimboGroups]
  generalize allocLoop m (q.m_queueType = .genericQueue ∧ reserve = false) limboGroups q none = built at h' hsame hends
  obtain ⟨q1, ends, done⟩ := built
  cases ends with
  | none =>
    have hloose : loose = [] := hends
    subst hloose
    exact ⟨q1, done, rfl, ⟨used, spare, h'⟩, hsame⟩
  | some e =>
    obtain ⟨currentHead, currentTail⟩ := e
    have hchain := h'.loose_chain hends.1
    cases done with
    | false =>
      obtain ⟨hdestroyed, hsame'⟩ := h'.destroyAll
      refine ⟨_, false, ?_, ⟨used, spare, hdestroyed⟩, hsame.trans hsame'⟩
      dsimp only
      rw [hchain]
      rfl
    | true =>
      dsimp only
      split
      case isTrue =>
        refine ⟨_, true, ?_, ⟨used, spare, h'.reserve totalElements⟩, hsame.trans ⟨rfl, rfl, rfl, rfl⟩⟩
        rw [hchain]
        rfl
      case isFalse =>
        exact ⟨_, true, rfl, ⟨used, _, h'.hookEnds hends⟩, hsame.trans ⟨rfl, rfl, rfl, rfl⟩⟩

lemma reserveGCMemory_spec (m : GcManager) (elements : UInt32) (reserve : Bool) (h : q.Whole) :
    ∃ r done, q.reserveGCMemory m elements reserve = some (r, done) ∧ r.Whole ∧ q.SameObjects r := by
  rw [reserveGCMemory]
  dsimp only
  generalize (if q.m_queueType = .genericQueue then elements.toNat * 2 else elements.toNat) = totalElements
  cases reserve with
  | true =>
    rw [if_pos rfl]
    split
    case isTrue =>
      obtain ⟨used, spare, h⟩ := h
      exact ⟨_, true, rfl, ⟨used, spare, h.reserve _⟩, ⟨rfl, rfl, rfl, rfl⟩⟩
    case isFalse =>
      split
      case isTrue => exact ⟨q, true, rfl, h, .refl q⟩
      case isFalse => exact allocLimboGroups_spec m _ _ true h
  | false =>
    rw [if_neg Bool.false_ne_true]
    have hfree : ∃ n, q.getFreeAllocations = some n := by
      obtain ⟨used, spare, h⟩ := h
      rw [getFreeAllocations, h.spare_eq]
      exact ⟨_, rfl⟩
    obtain ⟨n, hn⟩ := hfree
    rw [hn]
    dsimp only [bind, Option.bind]
    generalize (if n < totalElements + 2 then groupsFor (totalElements + 2 - n) else 0) = limboGroups
    split
    case isTrue => exact ⟨q, true, rfl, h, .refl q⟩
    case isFalse => exact allocLimboGroups_spec m _ _ false h

/-- The reserved groups given back. -/
lemma Inv.destroyReserved (h : q.Inv loose used spare) :
    q.destroyReserved.Inv loose used spare ∧ q.SameObjects q.destroyReserved := by
  obtain ⟨n, hn⟩ := foldl_destroy q.reserved q
  have hr : q.destroyReserved = { q with
      live := q.reserved.foldl (fun live b => live.erase b) q.live
      m_stats := { q.m_stats with m_limboGroupAllocations := n }
      m_reservedManager := ⟨0, 0, []⟩ } := by
    rw [GcQueue.destroyReserved]
    exact congrArg (fun q : GcQueue => { q with m_reservedManager := ⟨0, 0, []⟩ }) hn
  have hn := List.nodup_append.mp h.nodup
  rw [hr]
  refine ⟨h.of_chain rfl rfl rfl rfl (fun _ _ => rfl) ?_ (fun a ha => ?_) (fun a ha => ?_) nofun, ⟨rfl, rfl, rfl, rfl⟩⟩
  · show (loose ++ (used ++ q.m_limboTail :: spare) ++ []).Nodup
    rw [List.append_nil]
    exact hn.1
  · replace ha : a ∈ loose ++ (used ++ q.m_limboTail :: spare) ++ [] := ha
    rw [List.append_nil] at ha
    exact mem_foldl_erase (fun hmem => hn.2.2 a ha a hmem rfl) (h.live a (List.mem_append_left _ ha))
  · exact h.loose_empty (by simpa [reserved] using ha)

/-- Giving groups back does not look at the links. -/
lemma foldl_destroy_setNext (list : List Nat) (q : GcQueue) (a : Nat) (n : Option Nat) :
    list.foldl (fun q limboGroup => (q.destroyLimboGroup limboGroup).subAllocations 1) (q.setNext a n) =
      (list.foldl (fun q limboGroup => (q.destroyLimboGroup limboGroup).subAllocations 1) q).setNext a n := by
  induction list generalizing q with
  | nil => rfl
  | cons b list ih => exact ih ((q.destroyLimboGroup b).subAllocations 1)

lemma destroyReserved_setNext (q : GcQueue) (a : Nat) (n : Option Nat) :
    (q.setNext a n).destroyReserved = q.destroyReserved.setNext a n :=
  congrArg (fun q : GcQueue => { q with m_reservedManager := ⟨0, 0, []⟩ }) (foldl_destroy_setNext q.reserved q a n)

lemma destroyReserved_tail (q : GcQueue) : q.destroyReserved.m_limboTail = q.m_limboTail :=
  foldl_destroy_tail q.reserved q

lemma shrinkMem_spec (m : GcManager) (h : q.Whole) :
    ∃ r, q.shrinkMem m = some r ∧ r.Whole ∧ q.SameObjects r := by
  rw [shrinkMem]
  split
  case isTrue =>
    obtain ⟨used, spare, h⟩ := h
    rw [h.spare_eq]
    refine ⟨_, rfl, ?_⟩
    -- the groups are unlinked last, which is the same as first
    cases spare with
    | nil =>
      rw [if_pos rfl]
      split
      case isTrue =>
        obtain ⟨h', hsame⟩ := h.destroyReserved
        exact ⟨⟨used, [], h'⟩, hsame⟩
      case isFalse => exact ⟨⟨used, [], h⟩, .refl q⟩
    | cons b spare =>
      rw [if_neg nofun]
      obtain ⟨h', hsame⟩ := h.unhook.destroyAll
      rw [List.nil_append] at h' hsame
      have hsame := (sameObjects_setNext q q.m_limboTail none).trans hsame
      rw [foldl_destroy_setNext] at h' hsame
      have htail := foldl_destroy_tail (b :: spare) q
      split
      case isTrue =>
        obtain ⟨h'', hsame'⟩ := h'.destroyReserved
        rw [destroyReserved_setNext] at h'' hsame'
        rw [destroyReserved_tail, htail]
        exact ⟨⟨used, [], h''⟩, hsame.trans hsame'⟩
      case isFalse =>
        rw [htail]
        exact ⟨⟨used, [], h'⟩, hsame⟩
  case isFalse => exact ⟨q, rfl, h, .refl q⟩

/-! ## Cleaning -/

/-- The number of objects in use is right. -/
def Balanced (q : GcQueue) : Prop := q.m_stats.m_totalLimboInuseElements = q.outstanding.length

/-- Between `q` and `q'` destructors of outstanding objects were called, of such in time. -/
structure Quiesced (epochBound : UInt64) (q q' : GcQueue) : Prop where
  calls : ∃ ids, q'.called = q.called ++ ids ∧
    ∀ i ∈ ids, ∃ r, (i, r) ∈ q.outstanding ∧ InTime epochBound r.m_csn
  pushed : q'.pushed = q.pushed
  balanced : q'.Balanced
  byIndex : q'.m_stats.m_totalLimboSizeInBytesByCleanIndex = q.m_stats.m_totalLimboSizeInBytesByCleanIndex

/-- `CleanUntil` on a whole group. -/
lemma cleanGroup_spec (cb : Callback) (epochBound : UInt64) (ti : GcQueue) (m_head : Nat) {es : List LimboElement}
    {count : Nat} {last : UInt64} (hes : StartsMarked es last) (hcount : 0 < count) :
    let r := cleanLoop cb epochBound es ti m_head 0 count
    Cleaned epochBound last es ti m_head count r.1 r.2.1 r.2.2.1 r.2.2.2 := by
  rcases hes with rfl | ⟨e, rest, rfl, he, hrest⟩
  · exact ⟨⟨[], rfl, nofun, rfl, .refl ti⟩, rfl, .inl rfl⟩
  · rw [cleanLoop, he]
    dsimp only
    split
    case isTrue hlate => exact ⟨⟨[], rfl, nofun, rfl, .refl ti⟩, rfl, .inr ⟨e, rest, rfl, he, hrest⟩⟩
    case isFalse hintime => exact (cleanLoop_spec cb epochBound hrest hintime hcount).1.skip (pending_marker he rest)

lemma Inv.group_nodup (h : q.Inv loose used spare) (ha : a ∈ used ++ [q.m_limboTail]) :
    ((pending (q.groups a).m_elements).map Prod.fst).Nodup := by
  have hn := q.outstanding_nodup
  rw [← h.objects, List.map_flatMap, List.nodup_flatMap] at hn
  exact hn.1 a ha

lemma Inv.group_outstanding (h : q.Inv loose used spare) (ha : a ∈ used ++ [q.m_limboTail]) {x : Nat × Recorded}
    (hx : x ∈ pending (q.groups a).m_elements) : x ∈ q.outstanding := by
  rw [← h.objects]
  exact List.mem_flatMap.mpr ⟨a, ha, hx⟩

lemma filter_append_left {d r : List (Nat × Recorded)} (h : ((d ++ r).map Prod.fst).Nodup) :
    (d ++ r).filter (fun x => x.1 ∉ d.map Prod.fst) = r := by
  rw [List.map_append, List.nodup_append] at h
  rw [List.filter_append, List.filter_eq_nil_iff.mpr, List.filter_eq_self.mpr, List.nil_append]
  · exact fun x hx => decide_eq_true fun hd => h.2.2 _ hd _ (List.mem_map_of_mem hx) rfl
  · exact fun x hx => by simpa using ⟨x.2, hx⟩

/-- Taking out some of the objects leaves that many less. -/
lemma length_filter_ids {xs : List (Nat × Recorded)} {ids : List Nat} (hxs : (xs.map Prod.fst).Nodup)
    (hids : ids.Nodup) (hsub : ∀ i ∈ ids, i ∈ xs.map Prod.fst) :
    (xs.filter fun x => x.1 ∉ ids).length + ids.length = xs.length := by
  have hperm : ((xs.filter fun x => x.1 ∈ ids).map Prod.fst).Perm ids := by
    refine (List.perm_ext_iff_of_nodup (hxs.sublist (List.filter_sublist.map _)) hids).mpr fun i => ?_
    constructor
    · intro hi
      obtain ⟨x, hx, rfl⟩ := List.mem_map.mp hi
      exact of_decide_eq_true (List.mem_filter.mp hx).2
    · intro hi
      obtain ⟨x, hx, rfl⟩ := List.mem_map.mp (hsub i hi)
      exact List.mem_map_of_mem (List.mem_filter.mpr ⟨hx, decide_eq_true hi⟩)
  have hlength := hperm.length_eq
  rw [List.length_map] at hlength
  have hsplit := List.length_eq_length_filter_add (l := xs) fun x : Nat × Recorded => decide (x.1 ∈ ids)
  simp only [decide_not] at hsplit ⊢
  omega

/-- One round of `HardQuiesce`, before the head moves on. -/
lemma cleanUntil_spec (cb : Callback) (epochBound : UInt64) {count : Nat} (h : q.Inv loose used spare)
    (hb : q.Balanced) (ha : a ∈ used ++ [q.m_limboTail]) (hcount : 0 < count) :
    let r := q.cleanUntil cb a epochBound count
    let q' := r.1.subInuse (count - r.2)
    q'.Inv loose used spare ∧ q.Quiesced epochBound q' ∧ q'.next = q.next ∧ q'.m_limboHead = q.m_limboHead ∧
      q'.m_limboTail = q.m_limboTail := by
  have hok := h.ok a ha
  have hnodup := h.group_nodup ha
  have hout := fun x => h.group_outstanding ha (x := x)
  have hclean := cleanGroup_spec cb epochBound q (q.groups a).m_head hok.marked hcount
  rw [cleanUntil]
  dsimp only at hclean ⊢
  generalize cleanLoop cb epochBound (q.groups a).m_elements q (q.groups a).m_head 0 count = r at hclean ⊢
  obtain ⟨ti, m_head, es, left⟩ := r
  obtain ⟨⟨d, hd, hintime, hleft, hcalls⟩, htail, hmarked⟩ := hclean
  dsimp only at hd hleft hcalls htail hmarked ⊢
  have hids : (d.map Prod.fst).Nodup := by
    rw [hd, List.map_append] at hnodup
    exact (List.nodup_append.mp hnodup).1
  have hsub : ∀ i ∈ d.map Prod.fst, i ∈ (pending (q.groups a).m_elements).map Prod.fst := fun i hi => by
    rw [hd, List.map_append]
    exact List.mem_append_left _ hi
  have hg : LimboGroup.Ok { q.groups a with m_head := if es = [] then 0 else m_head, m_elements := es } := by
    refine ⟨hmarked, fun he => if_pos he, ?_⟩
    have hbound := hok.bound
    rw [LimboGroup.m_tail] at hbound ⊢
    dsimp only
    split <;> omega
  have hinv := h.destroy hg rfl ha hids hsub (by rw [hd] at hnodup ⊢; exact (filter_append_left hnodup).symm)
  have hnumber := length_filter_ids q.outstanding_nodup hids fun i hi => by
    obtain ⟨x, hx, rfl⟩ := List.mem_map.mp (hsub i hi)
    exact List.mem_map_of_mem (hout x hx)
  rw [← outstanding_called, List.length_map] at hnumber
  have hinuse := hcalls.inuse
  have hbyIndex := hcalls.byIndex
  obtain ⟨stats, deleted, rfl⟩ : ∃ stats deleted, ti = { q with
      m_stats := stats, m_deleteVector := deleted, called := q.called ++ d.map Prod.fst } := ⟨_, _, hcalls.same⟩
  dsimp only at hinuse hbyIndex
  have hcount' : count - left = d.length := by omega
  rw [hcount']
  refine ⟨hinv.withStats _ _, ⟨⟨d.map Prod.fst, rfl, fun i hi => ?_⟩, rfl, ?_, ?_⟩, ?_, rfl, rfl⟩
  · obtain ⟨x, hx, rfl⟩ := List.mem_map.mp hi
    exact ⟨x.2, hout x (by rw [hd]; exact List.mem_append_left _ hx), hintime x hx⟩
  · show stats.m_totalLimboInuseElements - d.length =
      ({ q with called := q.called ++ d.map Prod.fst } : GcQueue).outstanding.length
    rw [Balanced] at hb
    omega
  · show stats.m_totalLimboSizeInBytesByCleanIndex = _
    rw [hbyIndex, UInt64.add_zero]
  · exact next_setGroup (q := { q with
      m_stats := stats, m_deleteVector := deleted, called := q.called ++ d.map Prod.fst }) rfl

lemma SameObjects.balanced (h : q.SameObjects q') (hb : q.Balanced) : q'.Balanced :=
  h.inuse.trans (hb.trans (congrArg List.length h.outstanding).symm)

lemma SameObjects.quiesced {epochBound : UInt64} (h : q.SameObjects q') (hb : q.Balanced) :
    q.Quiesced epochBound q' :=
  ⟨⟨[], h.called.trans (List.append_nil _).symm, nofun⟩, h.pushed, h.balanced hb, h.byIndex⟩

lemma Quiesced.outstanding {epochBound : UInt64} (h : q.Quiesced epochBound q') {x : Nat × Recorded}
    (hx : x ∈ q'.outstanding) : x ∈ q.outstanding := by
  obtain ⟨ids, hids, -⟩ := h.calls
  obtain ⟨hget, hcalled⟩ := mem_outstanding.mp hx
  rw [h.pushed] at hget
  rw [hids] at hcalled
  exact mem_outstanding.mpr ⟨hget, fun hmem => hcalled (List.mem_append_left _ hmem)⟩

lemma Quiesced.trans {epochBound : UInt64} {q'' : GcQueue} (h : q.Quiesced epochBound q')
    (h' : q'.Quiesced epochBound q'') : q.Quiesced epochBound q'' where
  calls := by
    obtain ⟨ids, hids, hintime⟩ := h.calls
    obtain ⟨ids', hids', hintime'⟩ := h'.calls
    refine ⟨ids ++ ids', by rw [hids', hids, List.append_assoc], fun i hi => ?_⟩
    rcases List.mem_append.mp hi with hi | hi
    · exact hintime i hi
    · obtain ⟨r, hr, hlate⟩ := hintime' i hi
      exact ⟨r, h.outstanding hr, hlate⟩
  pushed := h'.pushed.trans h.pushed
  balanced := h'.balanced
  byIndex := h'.byIndex.trans h.byIndex

lemma hookEmpties_spec {stop : Option Nat} {empties : Option (Nat × Nat)} (h : q.Inv loose used spare)
    (he : q.Ends loose stop empties) : (q.hookEmpties empties).Whole ∧ q.SameObjects (q.hookEmpties empties) := by
  cases empties with
  | none =>
    have hloose : loose = [] := he
    subst hloose
    exact ⟨⟨used, spare, h⟩, .refl q⟩
  | some e =>
    obtain ⟨emptyHead, emptyTail⟩ := e
    exact ⟨⟨used, _, h.hookEnds he⟩, (sameObjects_setNext q emptyTail _).trans (sameObjects_setNext _ _ _)⟩

lemma Ends.congr {stop : Option Nat} {ends : Option (Nat × Nat)} (h : q.Ends loose stop ends)
    (hnext : q'.next = q.next) : q'.Ends loose stop ends := by
  cases ends with
  | none => exact h
  | some e =>
    refine ⟨?_, h.2⟩
    rw [hnext]
    exact h.1

/-- One group more that is emptied. -/
lemma Ends.snoc {empties : Option (Nat × Nat)} (h : q.Ends loose (some a) empties) :
    q.Ends (loose ++ [a]) (q.next a) (some ((empties.map Prod.fst).getD a, a)) := by
  cases empties with
  | none =>
    have hloose : loose = [] := h
    subst hloose
    exact ⟨⟨rfl, rfl⟩, rfl⟩
  | some e => exact ⟨h.1.append (.single a), List.getLast?_concat⟩

lemma Ends.first {empties : Option (Nat × Nat)} (h : q.Ends loose (some a) empties) :
    ∃ rest, loose ++ [a] = (empties.map Prod.fst).getD a :: rest ∧
      Linked q.next (some ((empties.map Prod.fst).getD a)) loose (some a) := by
  cases empties with
  | none =>
    have hloose : loose = [] := h
    subst hloose
    exact ⟨[], rfl, rfl⟩
  | some e =>
    obtain ⟨first, last⟩ := e
    obtain ⟨hl, hlast⟩ := h
    cases loose with
    | nil => cases hlast
    | cons c loose =>
      cases hl.1
      exact ⟨loose ++ [a], rfl, hl⟩

/-- One round of `HardQuiesce`: the loop ends, or the head group is empty. -/
lemma quiesceLoop_round (cb : Callback) (epochBound : UInt64) {fuel count : Nat} {empties : Option (Nat × Nat)}
    (h : q.Inv loose used spare) (hb : q.Balanced) (he : q.Ends loose (some q.m_limboHead) empties)
    (hhead : q.m_limboHead ∈ used ++ [q.m_limboTail]) :
    (∃ q', quiesceLoop cb epochBound (fuel + 1) q empties count = some q' ∧ q'.Whole ∧ q.Quiesced epochBound q') ∨
      ∃ q1 left, q1.Inv loose used spare ∧ q.Quiesced epochBound q1 ∧ q1.Ends loose (some q1.m_limboHead) empties ∧
        q1.m_limboHead = q.m_limboHead ∧ q1.m_limboTail = q.m_limboTail ∧ (q1.groups q1.m_limboHead).Empty ∧
        quiesceLoop cb epochBound (fuel + 1) q empties count =
          let emptyHead := (empties.map Prod.fst).getD q1.m_limboHead
          if q1.m_limboHead = q1.m_limboTail then some { q1 with m_limboHead := emptyHead, m_limboTail := emptyHead }
          else (q1.next q1.m_limboHead).bind fun next =>
            quiesceLoop cb epochBound fuel { q1 with m_limboHead := next } (some (emptyHead, q1.m_limboHead)) left := by
  rw [quiesceLoop]
  split
  case isTrue =>
    obtain ⟨h', hsame⟩ := hookEmpties_spec h he
    exact .inl ⟨_, rfl, h', hsame.quiesced hb⟩
  case isFalse hcount =>
    obtain ⟨h1, hq, hnext, hhead1, htail1⟩ := cleanUntil_spec cb epochBound h hb hhead (Nat.pos_of_ne_zero hcount)
    generalize q.cleanUntil cb q.m_limboHead epochBound count = r at h1 hq hnext hhead1 htail1 ⊢
    obtain ⟨ti, left⟩ := r
    dsimp only at h1 hq hnext hhead1 htail1 ⊢
    generalize ti.subInuse (count - left) = q1 at h1 hq hnext hhead1 htail1 ⊢
    rw [← hhead1] at he
    have he1 := he.congr hnext
    split
    case isTrue =>
      obtain ⟨h', hsame⟩ := hookEmpties_spec h1 he1
      exact .inl ⟨_, rfl, h', hq.trans (hsame.quiesced hq.balanced)⟩
    case isFalse hempty =>
      rw [not_not] at hempty
      rw [← hhead1, ← htail1] at hhead
      exact .inr ⟨q1, left, h1, hq, he1, hhead1, htail1, ⟨hempty, (h1.ok _ hhead).empty hempty⟩, rfl⟩

/-- The loop of `HardQuiesce`, by the groups before the tail. -/
lemma quiesceLoop_spec (cb : Callback) (epochBound : UInt64) {fuel count : Nat} {empties : Option (Nat × Nat)}
    (h : q.Inv loose used spare) (hb : q.Balanced) (he : q.Ends loose (some q.m_limboHead) empties)
    (hfuel : used.length < fuel) :
    ∃ q', quiesceLoop cb epochBound fuel q empties count = some q' ∧ q'.Whole ∧ q.Quiesced epochBound q' := by
  induction used generalizing q loose fuel count empties with
  | nil =>
    obtain ⟨fuel, rfl⟩ := Nat.exists_eq_succ_of_ne_zero (Nat.ne_of_gt (Nat.zero_lt_of_lt hfuel))
    have hhead : q.m_limboHead = q.m_limboTail := Option.some.inj h.linked.1
    rcases quiesceLoop_round cb epochBound h hb he (List.mem_singleton.mpr hhead) with
      hdone | ⟨q1, left, h1, hq, he1, hhead1, htail1, hempty, hloop⟩
    · exact hdone
    · -- all groups are empty
      have hhead2 : q1.m_limboHead = q1.m_limboTail := hhead1.trans (hhead.trans htail1.symm)
      obtain ⟨rest, hrest, hl⟩ := he1.first
      have hlast : loose ++ [q1.m_limboTail] = loose ++ [q1.m_limboHead] := by rw [hhead2]
      have hrestart := h1.restart (hhead2 ▸ hempty) (hlast.trans hrest) hl
      refine ⟨_, hloop.trans (if_pos hhead2), ⟨[], _, hrestart⟩, hq.trans ?_⟩
      exact SameObjects.quiesced ⟨rfl, rfl, rfl, rfl⟩ hq.balanced
  | cons a used ih =>
    obtain ⟨fuel, rfl⟩ := Nat.exists_eq_succ_of_ne_zero (Nat.ne_of_gt (Nat.zero_lt_of_lt hfuel))
    have hhead : q.m_limboHead = a := Option.some.inj h.linked.1
    rcases quiesceLoop_round cb epochBound h hb he (by rw [hhead]; exact List.mem_cons_self) with
      hdone | ⟨q1, left, h1, hq, he1, hhead1, htail1, hempty, hloop⟩
    · exact hdone
    · have ha : q1.m_limboHead = a := hhead1.trans hhead
      have hne : q1.m_limboHead ≠ q1.m_limboTail := by
        rw [ha]
        exact fun he => h1.tail_not_mem (he ▸ List.mem_cons_self)
      obtain ⟨b, hnext, h2⟩ := h1.advanceHead (ha ▸ hempty)
      have he2 := he1.snoc
      rw [ha] at he2 hloop hne
      rw [hnext] at he2 hloop
      have hsame : q1.Quiesced epochBound { q1 with m_limboHead := b } :=
        SameObjects.quiesced ⟨rfl, rfl, rfl, rfl⟩ hq.balanced
      obtain ⟨q', hq', hwhole, hquiesced⟩ :=
        @ih _ _ fuel left _ h2 hsame.balanced (he2.congr rfl) (Nat.lt_of_succ_lt_succ hfuel)
      refine ⟨q', ?_, hwhole, (hq.trans hsame).trans hquiesced⟩
      rw [hloop]
      dsimp only
      rw [if_neg hne]
      exact hq'

/-- `HardQuiesce` ends, and destroys objects in time only. -/
lemma hardQuiesce_spec (cb : Callback) (performGcEpoch : UInt64) (n : Nat) (h : q.Whole) (hb : q.Balanced) :
    ∃ q', q.hardQuiesce cb performGcEpoch n = some q' ∧ q'.Whole ∧ q.Quiesced (performGcEpoch - 1) q' := by
  have hsame : q.Quiesced (performGcEpoch - 1) q := (SameObjects.refl q).quiesced hb
  rw [hardQuiesce]
  split
  case h_1 => exact ⟨q, rfl, h, hsame⟩
  case h_2 =>
    split
    case isTrue => exact ⟨q, rfl, h, hsame⟩
    case isFalse =>
      obtain ⟨used, spare, h⟩ := h
      have hfuel : used.length < q.live.length + 1 := by
        have hlength := (h.chain_nodup.subperm fun _ ha => h.chain_subset ha).length_le
        rw [List.length_append, List.length_cons] at hlength
        omega
      exact quiesceLoop_spec cb (performGcEpoch - 1) h hb (rfl : [] = []) hfuel

/-! ## Cleaning an index -/

lemma totalSize_append (cb : Callback) (xs ys : List (Nat × Recorded)) :
    totalSize cb (xs ++ ys) = totalSize cb xs + totalSize cb ys := by
  induction xs with
  | nil => exact (UInt64.zero_add _).symm
  | cons x xs ih =>
    have hcons : ∀ zs, totalSize cb (x :: zs) = (cb.size x.1).toUInt64 + totalSize cb zs := fun _ => rfl
    rw [List.cons_append, hcons, hcons, ih, UInt64.add_assoc]

/-- Objects are told by their numbers. -/
lemma filter_index {indexId : UInt32} {xs : List (Nat × Recorded)} (h : (xs.map Prod.fst).Nodup) :
    (xs.filter fun x => x.2.m_indexId ≠ indexId) =
      xs.filter fun x => x.1 ∉ (ofIndex indexId xs).map Prod.fst := by
  refine List.filter_congr fun x hx => decide_eq_decide.mpr (not_congr ⟨fun hindex => ?_, fun hmem => ?_⟩)
  · exact List.mem_map_of_mem (List.mem_filter.mpr ⟨hx, decide_eq_true hindex⟩)
  · obtain ⟨y, hy, hyx⟩ := List.mem_map.mp hmem
    obtain ⟨hys, hindex⟩ := List.mem_filter.mp hy
    rw [List.inj_on_of_nodup_map h hys hx hyx] at hindex
    exact of_decide_eq_true hindex

/-- What cleaning the objects `items` of an index does to the queue. -/
structure CleansIndex (cb : Callback) (items : List (Nat × Recorded)) (q q' : GcQueue) (n : Nat) : Prop where
  intro ::
  called : q'.called = q.called ++ items.map Prod.fst
  pushed : q'.pushed = q.pushed
  inuse : q'.m_stats.m_totalLimboInuseElements = q.m_stats.m_totalLimboInuseElements
  byIndex : q'.m_stats.m_totalLimboSizeInBytesByCleanIndex =
    q.m_stats.m_totalLimboSizeInBytesByCleanIndex + totalSize cb items
  count : n = items.length
  tail : q'.m_limboTail = q.m_limboTail

lemma cleanIndexItemPerGroup_spec (cb : Callback) (indexId : UInt32) (h : q.Inv [] used spare)
    (ha : a ∈ used ++ q.m_limboTail :: spare) :
    let r := q.cleanIndexItemPerGroup cb indexId a
    let items := ofIndex indexId (pending (q.groups a).m_elements)
    r.1.Inv [] used spare ∧ CleansIndex cb items q r.1 r.2 ∧ ∀ b, b ≠ a → r.1.groups b = q.groups b := by
  by_cases hfront : a ∈ used ++ [q.m_limboTail]
  · have hok := h.ok a hfront
    have hnodup := h.group_nodup hfront
    obtain ⟨hcalls, hcount, hrest, hlength⟩ := cleanIndexLoop_spec cb indexId (q.groups a).m_elements q
    have hmarked := @cleanIndexLoop_startsMarked cb indexId _ q _ hok.marked
    rw [cleanIndexItemPerGroup]
    dsimp only
    generalize cleanIndexLoop cb indexId (q.groups a).m_elements q = r at hcalls hcount hrest hlength hmarked ⊢
    obtain ⟨ti, es, n⟩ := r
    dsimp only at hcalls hcount hrest hlength hmarked ⊢
    have hg : LimboGroup.Ok { q.groups a with m_elements := es } := by
      refine ⟨hmarked, fun hes => hok.empty (List.length_eq_zero_iff.mp ?_), ?_⟩
      · rw [← hlength]
        exact List.length_eq_zero_iff.mpr hes
      · have hbound := hok.bound
        rw [LimboGroup.m_tail] at hbound ⊢
        rwa [hlength]
    have hids : ((ofIndex indexId (pending (q.groups a).m_elements)).map Prod.fst).Nodup :=
      hnodup.sublist (List.filter_sublist.map _)
    have hinv := h.destroy hg rfl hfront hids
      (fun i hi => List.map_subset _ List.filter_sublist.subset hi) (hrest.trans (filter_index hnodup))
    have hinuse := hcalls.inuse
    have hbyIndex := hcalls.byIndex
    obtain ⟨stats, deleted, rfl⟩ : ∃ stats deleted, ti = { q with
        m_stats := stats, m_deleteVector := deleted,
        called := q.called ++ (ofIndex indexId (pending (q.groups a).m_elements)).map Prod.fst } :=
      ⟨_, _, hcalls.same⟩
    exact ⟨hinv.withStats stats deleted, ⟨rfl, rfl, hinuse, hbyIndex, hcount, rfl⟩, fun b hb => setGroup_ne _ hb⟩
  · have hspare : a ∈ spare := by
      simp only [List.mem_append, List.mem_cons, List.not_mem_nil] at ha hfront
      tauto
    have hempty := (h.empty a (List.mem_append_left _ (List.mem_append_right _ hspare))).1
    have hgroup : q.groups a = { q.groups a with m_elements := [] } := by rw [← hempty]
    have hr : q.cleanIndexItemPerGroup cb indexId a = (q, 0) := by
      rw [cleanIndexItemPerGroup, hempty]
      dsimp only [cleanIndexLoop]
      rw [← hgroup, setGroup, Function.update_eq_self]
    rw [hr, hempty]
    exact ⟨h, ⟨(List.append_nil _).symm, rfl, rfl, (UInt64.add_zero _).symm, rfl, rfl⟩, fun _ _ => rfl⟩

lemma cleanIndexGroups_spec (cb : Callback) (indexId : UInt32) {groups : List Nat} (h : q.Inv [] used spare)
    (hg : groups.Nodup) (hsub : ∀ a ∈ groups, a ∈ used ++ q.m_limboTail :: spare) :
    let r := q.cleanIndexGroups cb indexId groups
    r.1.Inv [] used spare ∧
      CleansIndex cb (ofIndex indexId (groups.flatMap fun a => pending (q.groups a).m_elements)) q r.1 r.2 := by
  induction groups generalizing q with
  | nil => exact ⟨h, ⟨(List.append_nil _).symm, rfl, rfl, (UInt64.add_zero _).symm, rfl, rfl⟩⟩
  | cons a groups ih =>
    obtain ⟨hnot, hg⟩ := List.nodup_cons.mp hg
    obtain ⟨ha, hsub⟩ := List.forall_mem_cons.mp hsub
    obtain ⟨h1, hfirst, hothers⟩ := cleanIndexItemPerGroup_spec cb indexId h ha
    rw [cleanIndexGroups]
    generalize q.cleanIndexItemPerGroup cb indexId a = r at h1 hfirst hothers ⊢
    obtain ⟨q1, n⟩ := r
    dsimp only at h1 hfirst hothers ⊢
    obtain ⟨h2, hrest⟩ := ih h1 hg (by rw [hfirst.tail]; exact hsub)
    have hsame : (groups.flatMap fun b => pending (q1.groups b).m_elements) =
        groups.flatMap fun b => pending (q.groups b).m_elements :=
      List.flatMap_congr fun b hb => by
        have hba : b ≠ a := fun he => hnot (he ▸ hb)
        rw [hothers b hba]
    rw [hsame] at hrest
    generalize q1.cleanIndexGroups cb indexId groups = r at h2 hrest ⊢
    obtain ⟨q2, counter⟩ := r
    dsimp only at h2 hrest ⊢
    have hitems : ofIndex indexId ((a :: groups).flatMap fun b => pending (q.groups b).m_elements) =
        ofIndex indexId (pending (q.groups a).m_elements) ++
          ofIndex indexId (groups.flatMap fun b => pending (q.groups b).m_elements) := by
      rw [List.flatMap_cons, ofIndex, List.filter_append]
      rfl
    rw [hitems]
    refine ⟨h2, ⟨?_, hrest.pushed.trans hfirst.pushed, hrest.inuse.trans hfirst.inuse, ?_, ?_,
      hrest.tail.trans hfirst.tail⟩⟩
    · rw [hrest.called, hfirst.called, List.map_append, List.append_assoc]
    · rw [hrest.byIndex, hfirst.byIndex, totalSize_append, UInt64.add_assoc]
    · rw [hrest.count, hfirst.count, List.length_append]

/-- All objects of an index are cleaned. -/
lemma cleanIndexChain_spec (cb : Callback) (indexId : UInt32) (h : q.Inv [] used spare) :
    let r := q.cleanIndexGroups cb indexId (used ++ q.m_limboTail :: spare)
    r.1.Inv [] used spare ∧ CleansIndex cb (ofIndex indexId q.outstanding) q r.1 r.2 := by
  have hspare : (spare.flatMap fun a => pending (q.groups a).m_elements) = [] :=
    List.flatMap_eq_nil_iff.mpr fun a ha => by
      rw [(h.empty a (List.mem_append_left _ (List.mem_append_right _ ha))).1]
      rfl
  have hall : ((used ++ q.m_limboTail :: spare).flatMap fun a => pending (q.groups a).m_elements) =
      q.outstanding := by
    rw [← List.singleton_append, ← List.append_assoc, List.flatMap_append, h.objects, hspare, List.append_nil]
  rw [← hall]
  exact cleanIndexGroups_spec cb indexId h h.chain_nodup fun _ ha => ha

/-- The destructors called for an index return sizes that do not add up to zero, if any is called. -/
def SizesCount (cb : Callback) (items : List (Nat × Recorded)) : Prop :=
  items = [] ∨ totalSize cb items ≠ 0 ∧ items.length < 2 ^ 32

/-- A state between the calls. -/
structure Good (q : GcQueue) : Prop where
  whole : q.Whole
  balanced : q.Balanced
  byIndex : q.m_stats.m_totalLimboSizeInBytesByCleanIndex = 0

lemma CleansIndex.length {cb : Callback} {items : List (Nat × Recorded)} {n : Nat}
    (h : CleansIndex cb items q q' n) (hids : (items.map Prod.fst).Nodup) (hsub : ∀ x ∈ items, x ∈ q.outstanding) :
    q'.outstanding.length + n = q.outstanding.length := by
  have hlength := length_filter_ids q.outstanding_nodup hids fun i hi => by
    obtain ⟨x, hx, rfl⟩ := List.mem_map.mp hi
    exact List.mem_map_of_mem (hsub x hx)
  have hout : q'.outstanding = ({ q with called := q.called ++ items.map Prod.fst } : GcQueue).outstanding := by
    rw [outstanding, outstanding, h.called, h.pushed]
  rw [h.count, hout, outstanding_called, ← hlength, List.length_map]

lemma cleanIndexItems_spec (cb : Callback) (m : GcManager) (indexId : UInt32) (oper : GcOperationType) (h : q.Good)
    (hsizes : SizesCount cb (ofIndex indexId q.outstanding)) :
    ∃ q', q.cleanIndexItems cb m indexId oper = some q' ∧ q'.Good := by
  obtain ⟨⟨used, spare, hinv⟩, hbalanced, hzero⟩ := h
  rw [cleanIndexItems, hinv.chain_eq]
  dsimp only [bind, Option.bind]
  obtain ⟨h1, hcleans⟩ := cleanIndexChain_spec cb indexId hinv
  generalize q.cleanIndexGroups cb indexId (used ++ q.m_limboTail :: spare) = r at h1 hcleans ⊢
  obtain ⟨q1, counter⟩ := r
  dsimp only at h1 hcleans ⊢
  have hlength := hcleans.length (q.outstanding_nodup.sublist (List.filter_sublist.map _))
    fun x hx => List.filter_sublist.subset hx
  have h2 : ∀ q2, q2 = (if oper = .operDropIndex then q1 else q1.registerDeletedSentinels m) →
      q2.Whole ∧ q1.Records q2 := by
    rintro q2 rfl
    split
    case isTrue => exact ⟨⟨used, spare, h1⟩, .refl q1⟩
    case isFalse => exact registerDeletedSentinels_spec m ⟨used, spare, h1⟩
  generalize (if oper = .operDropIndex then q1 else q1.registerDeletedSentinels m) = q2 at h2 ⊢
  obtain ⟨hwhole, hrecords⟩ := h2 q2 rfl
  have htally := hrecords.tally
  have hinuse := hcleans.inuse
  have hsize : q2.m_stats.m_totalLimboSizeInBytesByCleanIndex = totalSize cb (ofIndex indexId q.outstanding) := by
    rw [hrecords.byIndex, hcleans.byIndex, hzero, UInt64.zero_add]
  have hcount := hcleans.count
  rw [Balanced] at hbalanced
  split
  case isTrue hnone =>
    rw [hsize] at hnone
    have hnil : ofIndex indexId q.outstanding = [] := hsizes.resolve_right fun h => h.1 hnone
    rw [hnil, List.length_nil] at hcount
    refine ⟨q2, rfl, hwhole, ?_, hsize.trans hnone⟩
    rw [Balanced]
    omega
  case isFalse hsome =>
    have hsmall : counter < 2 ^ 32 := by
      rcases hsizes with hnil | ⟨-, hsmall⟩
      · rw [hsize, hnil] at hsome
        exact absurd rfl hsome
      · rw [hcount]
        exact hsmall
    refine ⟨_, rfl, hwhole.withStats _ q2.m_deleteVector, ?_, rfl⟩
    show q2.m_stats.m_totalLimboInuseElements - counter % 2 ^ 32 = q2.outstanding.length
    rw [Nat.mod_eq_of_lt hsmall]
    omega

lemma Records.good (h : q.Records q') (hg : q.Good) (hw : q'.Whole) : q'.Good where
  whole := hw
  balanced := by
    have hb := hg.balanced
    have ht := h.tally
    rw [Balanced] at hb ⊢
    omega
  byIndex := h.byIndex.trans hg.byIndex

lemma init_good (type : GcQueueType) (limboGroup : Nat) : (init type limboGroup).Good where
  whole := by
    refine ⟨[], [], ⟨rfl, rfl⟩, List.nodup_singleton _, fun _ ha => ha, fun _ _ => ?_, nofun, nofun, rfl,
      List.nodup_nil,
      nofun⟩
    exact empty_new.ok
  balanced := rfl
  byIndex := rfl

/-! ## Runs -/

/-- What the queue is for: every object is destroyed at most once and within reach until then, the number of objects in
use is right, and the groups behind the tail are empty and none of those before. -/
structure Reclaims (q : GcQueue) : Prop where
  once : q.called.Nodup
  pushed : ∀ i ∈ q.called, i < q.pushed.length
  reachable : q.reachable = some q.outstanding
  inuse : q.m_stats.m_totalLimboInuseElements = q.outstanding.length
  groups : ∃ used spare, q.chain (some q.m_limboHead) = some (used ++ q.m_limboTail :: spare) ∧
    (used ++ q.m_limboTail :: spare).Nodup ∧ ∀ a ∈ spare, (q.groups a).m_elements = []

lemma Good.reclaims (h : q.Good) : q.Reclaims := by
  obtain ⟨⟨used, spare, hinv⟩, hbalanced, -⟩ := h
  have hspare : ∀ a ∈ spare, (q.groups a).m_elements = [] := fun a ha =>
    (hinv.empty a (List.mem_append_left _ (List.mem_append_right _ ha))).1
  refine ⟨hinv.once, hinv.known, ?_, hbalanced, used, spare, hinv.chain_eq, hinv.chain_nodup, hspare⟩
  have hnil : (spare.flatMap fun a => pending (q.groups a).m_elements) = [] :=
    List.flatMap_eq_nil_iff.mpr fun a ha => by
      rw [hspare a ha]
      rfl
  rw [reachable, hinv.chain_eq, Option.map_some, ← List.singleton_append, ← List.append_assoc, List.flatMap_append,
    hinv.objects, hnil, List.append_nil]

end GcQueue

open GcQueue

/-- The calls after which the number of objects in use is right, and which destroy no object before its time: no epoch
is 2^63 or more above the perform epoch, and the sizes returned for an index do not add up to zero. -/
def GcOp.Sound (q : GcQueue) : GcOp → Prop
  | hardQuiesce _ performGcEpoch _ => ∀ x ∈ q.outstanding, x.2.m_csn.toNat < performGcEpoch.toNat + 2 ^ 63
  | cleanIndexItems cb _ indexId _ => SizesCount cb (ofIndex indexId q.outstanding)
  | _ => True

/-- `HardQuiesce` calls the destructors of objects only whose epochs are below the perform epoch. -/
def GcOp.InTime (q q' : GcQueue) : GcOp → Prop
  | hardQuiesce _ performGcEpoch _ =>
    ∀ i ∈ q'.called, i ∉ q.called → ∃ r, q.pushed[i]? = some r ∧ r.m_csn < performGcEpoch
  | _ => True

/-- The states of a queue in runs of such calls. -/
inductive GcRun (type : GcQueueType) (limboGroup : Nat) : GcQueue → Prop where
  | init : GcRun type limboGroup (.init type limboGroup)
  | step {q q' : GcQueue} {op : GcOp} :
    GcRun type limboGroup q →
    op.Sound q →
    op.exec q = some q' →
    GcRun type limboGroup q'

lemma InTime.lt {performGcEpoch csn : UInt64} (h : Mot.InTime (performGcEpoch - 1) csn)
    (hnear : csn.toNat < performGcEpoch.toNat + 2 ^ 63) : csn < performGcEpoch := by
  by_contra hlate
  refine h ?_
  have hp := performGcEpoch.toNat_lt
  have hc := csn.toNat_lt
  rw [UInt64.lt_iff_toNat_lt] at hlate
  have hdiff : (performGcEpoch - 1 - csn).toNat = performGcEpoch.toNat + 2 ^ 64 - 1 - csn.toNat := by
    rw [UInt64.toNat_sub, UInt64.toNat_sub, UInt64.toNat_one]
    omega
  have hint : (performGcEpoch - 1 - csn).toInt64.toInt = (performGcEpoch - 1 - csn).toBitVec.toInt := rfl
  rw [Int64.lt_iff_toInt_lt, hint, BitVec.toInt_eq_toNat_cond, UInt64.toNat_toBitVec, hdiff]
  split
  · omega
  · rw [Int64.toInt_zero]
    omega

lemma GcOp.exec_good {q : GcQueue} {op : GcOp} (h : q.Good) (hop : op.Sound q) :
    ∃ q', op.exec q = some q' ∧ q'.Good ∧ op.InTime q q' := by
  cases op with
  | pushBack m indexId objSize csn =>
    obtain ⟨hw, hr⟩ := pushBack_spec m indexId objSize csn h.whole
    exact ⟨_, rfl, hr.good h hw, trivial⟩
  | hardQuiesce cb performGcEpoch n =>
    obtain ⟨q', hq', hw, hquiesced⟩ := hardQuiesce_spec cb performGcEpoch n h.whole h.balanced
    refine ⟨q', hq', ⟨hw, hquiesced.balanced, hquiesced.byIndex.trans h.byIndex⟩, fun i hi hnot => ?_⟩
    obtain ⟨ids, hids, hcalls⟩ := hquiesced.calls
    rw [hids] at hi
    obtain ⟨r, hr, hintime⟩ := hcalls i ((List.mem_append.mp hi).resolve_left hnot)
    exact ⟨r, (mem_outstanding.mp hr).1, hintime.lt (hop _ hr)⟩
  | registerDeletedSentinels m =>
    obtain ⟨hw, hr⟩ := registerDeletedSentinels_spec m h.whole
    exact ⟨_, rfl, hr.good h hw, trivial⟩
  | cleanIndexItems cb m indexId oper =>
    obtain ⟨q', hq', hg⟩ := cleanIndexItems_spec cb m indexId oper h hop
    exact ⟨q', hq', hg, trivial⟩
  | reserveGCMemory m elements reserve =>
    obtain ⟨q', done, hq', hw, hsame⟩ := reserveGCMemory_spec m elements reserve h.whole
    exact ⟨q', congrArg (Option.map Prod.fst) hq', hsame.records.good h hw, trivial⟩
  | shrinkMem m =>
    obtain ⟨q', hq', hw, hsame⟩ := shrinkMem_spec m h.whole
    exact ⟨q', hq', hsame.records.good h hw, trivial⟩

lemma GcRun.good {type : GcQueueType} {limboGroup : Nat} {q : GcQueue} (h : GcRun type limboGroup q) : q.Good := by
  induction h with
  | init => exact init_good type limboGroup
  | step _ hop hexec ih =>
    obtain ⟨q', hq', hg, -⟩ := GcOp.exec_good ih hop
    cases hexec.symm.trans hq'
    exact hg

/-- Along every run of sound calls the queue reclaims its objects once, in time and with the right count; every such
call comes to its end. -/
theorem gcQueue_run {type : GcQueueType} {limboGroup : Nat} {q : GcQueue} (h : GcRun type limboGroup q) :
    q.Reclaims ∧ ∀ op : GcOp, op.Sound q → ∃ q', op.exec q = some q' ∧ q'.Reclaims ∧ op.InTime q q' := by
  refine ⟨h.good.reclaims, fun op hop => ?_⟩
  obtain ⟨q', hq', hg, hintime⟩ := GcOp.exec_good h.good hop
  exact ⟨q', hq', hg.reclaims, hintime⟩

/-- A manager that hands out the group 1, if the queue does not have it. -/
def oneGroupManager : GcManager where
  createNewLimboGroup live := if 1 ∈ live then none else some 1
  allocLimboGroupFromReserved _ := none
  create_fresh h := by
    split at h
    case isTrue => cases h
    case isFalse hnew =>
      cases h
      exact hnew
  reserved_fresh h := by cases h
  globalEpoch := 1
  sentinelSize _ := 32
  limboInuseElementsOfDeleteQueue := 0

/-- Objects of index 7, sixty to an epoch -/
def pushedQueue (n : Nat) : GcQueue :=
  (List.range n).foldl (fun q i => q.pushBack oneGroupManager 7 64 (UInt64.ofNat (1 + i / 60))) (.init .versionQueue 0)

lemma pushedQueue_run (n : Nat) : GcRun .versionQueue 0 (pushedQueue n) := by
  induction n with
  | zero => exact .init
  | succ n ih =>
    have hpush : pushedQueue (n + 1) = (pushedQueue n).pushBack oneGroupManager 7 64 (UInt64.ofNat (1 + n / 60)) := by
      rw [pushedQueue, List.range_succ, List.foldl_append]
      rfl
    rw [hpush]
    exact @GcRun.step _ _ _ _ (.pushBack oneGroupManager 7 64 (UInt64.ofNat (1 + n / 60))) ih trivial rfl

/-- Destructors of 64 bytes. -/
def plainCallback : Callback := ⟨fun _ => 64, fun _ => []⟩

/-- Two epochs are over: the first group is emptied and stands behind the second one, which is not. -/
lemma pushedQueue_quiesce : ((pushedQueue 130).hardQuiesce plainCallback 3 1000).map
    (fun q => (q.called.length, q.chain (some q.m_limboHead), (q.groups 1).m_elements.length,
      decide (totalSize plainCallback (ofIndex 7 q.outstanding) ≠ 0 ∧ (ofIndex 7 q.outstanding).length < 2 ^ 32))) =
      some (120, some [1, 0], 11, true) := by
  decide +kernel

theorem gcQueue_run_clean : ∃ q q', (pushedQueue 130).hardQuiesce plainCallback 3 1000 = some q ∧
    q.called.length = 120 ∧ q.chain (some q.m_limboHead) = some [1, 0] ∧ (q.groups 1).m_elements.length = 11 ∧
    q.cleanIndexItems plainCallback oneGroupManager 7 .operTruncate = some q' ∧
    (q'.Reclaims ∧ ∀ op : GcOp, op.Sound q' → ∃ q'', op.exec q' = some q'' ∧ q''.Reclaims ∧ op.InTime q' q'') := by
  have hepochs : (GcOp.hardQuiesce plainCallback 3 1000).Sound (pushedQueue 130) := by
    intro x hx
    have hall : ∀ x ∈ (pushedQueue 130).outstanding, x.2.m_csn.toNat < 4 := by decide +kernel
    exact (hall x hx).trans (by decide)
  obtain ⟨q, hq, hvalues⟩ := Option.map_eq_some_iff.mp pushedQueue_quiesce
  simp only [Prod.mk.injEq, decide_eq_true_eq] at hvalues
  obtain ⟨hcalled, hchain, hleft, hsizes⟩ := hvalues
  have hrun : GcRun .versionQueue 0 q := (pushedQueue_run 130).step hepochs hq
  have hsound : (GcOp.cleanIndexItems plainCallback oneGroupManager 7 .operTruncate).Sound q := .inr hsizes
  obtain ⟨q', hq', -⟩ := (gcQueue_run hrun).2 _ hsound
  exact ⟨q, q', hq, hcalled, hchain, hleft, hq', gcQueue_run (hrun.step hsound hq')⟩

/-- An object of index 7, which is cleaned. -/
def cleanedQueue (size : UInt32) : Option GcQueue := do
  let q ← (GcOp.pushBack oneGroupManager 7 64 5).exec (.init .versionQueue 0)
  (GcOp.cleanIndexItems ⟨fun _ => size, fun _ => []⟩ oneGroupManager 7 .operTruncate).exec q

/-- A destructor that returns 0 leaves its object in the number of those in use. -/
theorem cleanIndexItems_miscounts : ∃ q, cleanedQueue 0 = some q ∧ q.outstanding = [] ∧
    q.m_stats.m_totalLimboInuseElements = 1 ∧ ¬ q.Reclaims := by
  refine ⟨_, rfl, rfl, rfl, fun h => ?_⟩
  exact absurd h.inuse (by decide)

end GaussKernel.Mot
