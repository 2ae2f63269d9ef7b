import GaussKernel.Mot.GcQueue

/-!
# The objects of a limbo group

The objects of a group that are not destroyed yet, and what `PushBack`, `CleanUntil` and `CleanIndexItemPerGroup` do to
them. A group starts with the marker of an epoch, and every object in it has the epoch of the marker before it.
-/

namespace GaussKernel.Mot

open Lib

/-! ## Outstanding objects -/

/-- The object of an element, unless its destructor was called. -/
def LimboElement.entry (e : LimboElement) : Option (Nat × Recorded) :=
  if e.m_cb = .nullDtor then none else e.m_objectPtr.map fun obj => (obj, ⟨e.m_csn, e.m_indexId⟩)

/-- The objects of elements that are not destroyed yet. -/
def pending (es : List LimboElement) : List (Nat × Recorded) := es.filterMap LimboElement.entry

/-- The objects pushed and not yet destroyed, in the order of their pushes. -/
def GcQueue.outstanding (q : GcQueue) : List (Nat × Recorded) :=
  q.pushed.zipIdx.filterMap fun (r, i) => if i ∈ q.called then none else some (i, r)

/-- The objects within reach of `m_limboHead`. -/
def GcQueue.reachable (q : GcQueue) : Option (List (Nat × Recorded)) :=
  (q.chain (some q.m_limboHead)).map fun groups => groups.flatMap fun a => pending (q.groups a).m_elements

/-- What is pending, part by part. -/
lemma pending_append (es es' : List LimboElement) : pending (es ++ es') = pending es ++ pending es' :=
  List.filterMap_append

variable {e : LimboElement}

/-- A marker is not pending. -/
lemma pending_marker (h : e.m_objectPtr = none) (es : List LimboElement) : pending (e :: es) = pending es := by
  have hentry : e.entry = none := by
    rw [LimboElement.entry, h]
    split <;> rfl
  exact List.filterMap_cons_none hentry

/-- A cleared element is not pending. -/
lemma pending_null (h : e.m_cb = .nullDtor) (es : List LimboElement) :
    pending (e :: es) = pending es := List.filterMap_cons_none (if_pos h)

/-- An object with a destructor is pending. -/
lemma pending_object {obj : Nat} (h : e.m_objectPtr = some obj) (hcb : e.m_cb ≠ .nullDtor) (es : List LimboElement) :
    pending (e :: es) = (obj, ⟨e.m_csn, e.m_indexId⟩) :: pending es := by
  rw [pending, List.filterMap_cons, LimboElement.entry, if_neg hcb, h]
  rfl

/-! ## Groups -/

/-- The elements behind a marker of `csn`, with `last` the epoch of the last marker: every object has the epoch of the
marker before it. -/
def Marked : (csn : UInt64) → List LimboElement → (last : UInt64) → Prop
  | csn, [], last => csn = last
  | csn, e :: es, last =>
    match e.m_objectPtr with
    | none => Marked e.m_csn es last
    | some _ => e.m_csn = csn ∧ Marked csn es last

/-- Elements that are empty or start with a marker. -/
def StartsMarked (es : List LimboElement) (last : UInt64) : Prop :=
  es = [] ∨ ∃ e rest, es = e :: rest ∧ e.m_objectPtr = none ∧ Marked e.m_csn rest last

structure LimboGroup.Ok (g : LimboGroup) : Prop where
  marked : StartsMarked g.m_elements g.m_epoch
  empty : g.m_elements = [] → g.m_head = 0
  bound : g.m_tail ≤ CAPACITY

def LimboGroup.Empty (g : LimboGroup) : Prop := g.m_elements = [] ∧ g.m_head = 0

/-- An empty group is well formed. -/
lemma LimboGroup.Empty.ok {g : LimboGroup} (h : g.Empty) : g.Ok where
  marked := .inl h.1
  empty _ := h.2
  bound := by
    rw [m_tail, h.1, h.2]
    exact Nat.zero_le _

/-- Marked parts follow one another. -/
lemma Marked.append {csn epoch : UInt64} {es es' : List LimboElement} {last : UInt64} (h : Marked csn es epoch)
    (h' : Marked epoch es' last) : Marked csn (es ++ es') last := by
  induction es generalizing csn with
  | nil =>
    cases h
    exact h'
  | cons e es ih =>
    rw [List.cons_append, Marked]
    rw [Marked] at h
    cases he : e.m_objectPtr with
    | none =>
      rw [he] at h
      exact ih h
    | some obj =>
      rw [he] at h
      exact ⟨h.1, ih h.2⟩

/-- An object stands under its own epoch. -/
lemma marked_object (indexId : UInt32) (obj : Nat) (epoch : UInt64) :
    Marked epoch [⟨some obj, .dtor, epoch, indexId⟩] epoch := ⟨rfl, rfl⟩

/-- An object behind its own marker, or behind the last one when that has its epoch. -/
lemma LimboGroup.Ok.pushBack {g : LimboGroup} (h : g.Ok) (hroom : g.m_tail + 2 ≤ CAPACITY) (indexId : UInt32)
    (obj : Nat) (epoch : UInt64) : (g.pushBack indexId obj epoch).Ok ∧
      pending (g.pushBack indexId obj epoch).m_elements = pending g.m_elements ++ [(obj, ⟨epoch, indexId⟩)] := by
  have hobj : pending [⟨some obj, .dtor, epoch, indexId⟩] = [(obj, ⟨epoch, indexId⟩)] := rfl
  rw [m_tail] at hroom
  rw [LimboGroup.pushBack]
  by_cases hnew : g.m_elements = [] ∨ g.m_epoch ≠ epoch
  · rw [if_pos hnew]
    dsimp only
    refine ⟨⟨?_, ?_, ?_⟩, ?_⟩
    · have hm : Marked g.m_epoch [marker epoch, ⟨some obj, .dtor, epoch, indexId⟩] epoch :=
        marked_object indexId obj epoch
      refine .inr ?_
      rcases h.marked with hnil | ⟨e, rest, hes, he, hrest⟩
      · rw [hnil]
        exact ⟨_, _, rfl, rfl, marked_object indexId obj epoch⟩
      · rw [hes]
        refine ⟨e, rest ++ [marker epoch] ++ _, rfl, he, ?_⟩
        rw [List.append_assoc]
        exact hrest.append hm
    · exact fun h => absurd h (by simp)
    · simp only [m_tail, List.length_append, List.length_singleton]
      omega
    · rw [pending_append, pending_append, hobj]
      exact congrArg (· ++ _) (List.append_nil _)
  · rw [if_neg hnew]
    dsimp only
    obtain ⟨hne, hepoch⟩ := not_or.mp hnew
    rw [not_not] at hepoch
    refine ⟨⟨?_, ?_, ?_⟩, ?_⟩
    · rcases h.marked with hnil | ⟨e, rest, hes, he, hrest⟩
      · exact absurd hnil hne
      · rw [hes, hepoch] at *
        exact .inr ⟨e, _, rfl, he, hrest.append (marked_object indexId obj epoch)⟩
    · exact fun h => absurd h (by simp)
    · simp only [m_tail, List.length_append, List.length_singleton]
      omega
    · rw [pending_append, hobj]

/-! ## Destructor calls -/

/-- Between `q` and `q'` the destructors of `ids` were called; `size` is what that adds for an index. -/
structure GcQueue.Destroys (q q' : GcQueue) (ids : List Nat) (size : UInt64) : Prop where
  same : q' = { q with
    m_stats := q'.m_stats, m_deleteVector := q'.m_deleteVector, called := q.called ++ ids }
  inuse : q'.m_stats.m_totalLimboInuseElements = q.m_stats.m_totalLimboInuseElements
  byIndex : q'.m_stats.m_totalLimboSizeInBytesByCleanIndex = q.m_stats.m_totalLimboSizeInBytesByCleanIndex + size

/-- Nothing is destroyed when nothing is done. -/
lemma GcQueue.Destroys.refl (q : GcQueue) : q.Destroys q [] 0 where
  same := by rw [List.append_nil]
  inuse := rfl
  byIndex := (UInt64.add_zero _).symm

/-- What two steps destroy adds up. -/
lemma GcQueue.Destroys.trans {q q' q'' : GcQueue} {ids ids' : List Nat} {size size' : UInt64}
    (h : q.Destroys q' ids size) (h' : q'.Destroys q'' ids' size') :
    q.Destroys q'' (ids ++ ids') (size + size') where
  same := by rw [h'.same, h.same, ← List.append_assoc]
  inuse := h'.inuse.trans h.inuse
  byIndex := by rw [h'.byIndex, h.byIndex, UInt64.add_assoc]

/-- A call of the destructor destroys its object. -/
lemma GcQueue.destroys_callDtor (cb : Callback) (q : GcQueue) (obj : Nat) (stats : GcStats) (size : UInt64)
    (hinuse : stats.m_totalLimboInuseElements = q.m_stats.m_totalLimboInuseElements)
    (hsize : stats.m_totalLimboSizeInBytesByCleanIndex = q.m_stats.m_totalLimboSizeInBytesByCleanIndex + size) :
    q.Destroys { q.callDtor cb obj with m_stats := stats } [obj] size := ⟨rfl, hinuse, hsize⟩

/-- The epoch test of `CleanUntil` and `HardQuiesce`. -/
def InTime (epochBound csn : UInt64) : Prop := ¬ (epochBound - csn).toInt64 < 0

/-- What `cleanLoop` leaves of a group: the objects destroyed come first and are in time. -/
structure Cleaned (epochBound last : UInt64) (es : List LimboElement) (ti : GcQueue) (m_head count : Nat)
    (ti' : GcQueue) (m_head' : Nat) (es' : List LimboElement) (count' : Nat) : Prop where
  intro ::
  exists_prefix : ∃ d, pending es = d ++ pending es' ∧ (∀ x ∈ d, InTime epochBound x.2.m_csn) ∧
    count' + d.length = count ∧ ti.Destroys ti' (d.map Prod.fst) 0
  tail : m_head' + es'.length = m_head + es.length
  marked : StartsMarked es' last

/-- An element that is not pending is passed over. -/
lemma Cleaned.skip {epochBound last : UInt64} {e : LimboElement} {es es' : List LimboElement} {ti ti' : GcQueue}
    {m_head m_head' count count' : Nat} (h : Cleaned epochBound last es ti (m_head + 1) count ti' m_head' es' count')
    (he : pending (e :: es) = pending es) :
    Cleaned epochBound last (e :: es) ti m_head count ti' m_head' es' count' where
  exists_prefix := by
    rw [he]
    exact h.exists_prefix
  tail := by rw [h.tail, List.length_cons, Nat.add_assoc, Nat.add_comm 1]
  marked := h.marked

/-- The loop of `CleanUntil` behind a marker that is in time. -/
lemma cleanLoop_spec (cb : Callback) (epochBound : UInt64) {es : List LimboElement} {ti : GcQueue}
    {m_head count : Nat} {csn last : UInt64} (hes : Marked csn es last) (hcsn : InTime epochBound csn)
    (hcount : 0 < count) :
    let r := GcQueue.cleanLoop cb epochBound es ti m_head csn count
    Cleaned epochBound last es ti m_head count r.1 r.2.1 r.2.2.1 r.2.2.2 ∧ (r.2.2.2 = 0 → r.2.2.1 ≠ []) := by
  induction es generalizing ti m_head csn count with
  | nil => exact ⟨⟨⟨[], rfl, nofun, rfl, .refl ti⟩, rfl, .inl rfl⟩, fun h => absurd h hcount.ne'⟩
  | cons e es ih =>
    rw [Marked] at hes
    rw [GcQueue.cleanLoop]
    cases hobj : e.m_objectPtr with
    | none =>
      rw [hobj] at hes
      dsimp only at hes ⊢
      split
      case isTrue hlate =>
        exact ⟨⟨⟨[], rfl, nofun, rfl, .refl ti⟩, rfl, .inr ⟨e, es, rfl, hobj, hes⟩⟩, fun h => absurd h hcount.ne'⟩
      case isFalse hintime =>
        obtain ⟨hc, hne⟩ := @ih ti (m_head + 1) count _ hes hintime hcount
        exact ⟨hc.skip (pending_marker hobj es), hne⟩
    | some obj =>
      rw [hobj] at hes
      dsimp only at hes ⊢
      split
      case isTrue hnull =>
        obtain ⟨hc, hne⟩ := @ih ti (m_head + 1) count _ hes.2 hcsn hcount
        exact ⟨hc.skip (pending_null hnull es), hne⟩
      case isFalse hcb =>
        have hpending := pending_object hobj hcb es
        have hfirst : InTime epochBound e.m_csn := hes.1 ▸ hcsn
        have hcall := ti.destroys_callDtor cb obj { ti.m_stats with
            m_totalLimboSizeInBytes := ti.m_stats.m_totalLimboSizeInBytes - (cb.size obj).toUInt64
            m_totalLimboReclaimedSizeInBytes :=
              ti.m_stats.m_totalLimboReclaimedSizeInBytes + (cb.size obj).toUInt64 } 0 rfl (UInt64.add_zero _).symm
        split
        case isTrue hlast =>
          -- the element is the marker of what is left
          refine ⟨⟨⟨[(obj, ⟨e.m_csn, e.m_indexId⟩)], hpending.trans ?_, ?_, ?_,
            ⟨rfl, rfl, (UInt64.add_zero _).symm⟩⟩, rfl,
            .inr ⟨_, es, rfl, rfl, hes.2⟩⟩, fun _ => nofun⟩
          · rw [pending_marker rfl]
            rfl
          · exact fun x hx => List.mem_singleton.mp hx ▸ hfirst
          · exact Nat.le_antisymm hcount (Nat.le_of_sub_eq_zero hlast)
        case isFalse hmore =>
          obtain ⟨⟨⟨d, hd, hintime, hleft, hcalls⟩, htail, hmarked⟩, hne⟩ :=
            @ih _ (m_head + 1) (count - 1) _ hes.2 hcsn (Nat.pos_of_ne_zero hmore)
          refine ⟨⟨⟨(obj, ⟨e.m_csn, e.m_indexId⟩) :: d, ?_, ?_, ?_, ?_⟩, ?_, hmarked⟩, hne⟩
          · rw [hpending, hd]
            rfl
          · exact List.forall_mem_cons.mpr ⟨hfirst, hintime⟩
          · rw [List.length_cons]
            omega
          · exact hcall.trans hcalls
          · rw [htail, List.length_cons]
            omega

/-- The objects among `xs` that were recorded for an index. -/
def ofIndex (indexId : UInt32) (xs : List (Nat × Recorded)) : List (Nat × Recorded) :=
  xs.filter fun x => x.2.m_indexId = indexId

/-- The sizes that the destructors of objects return, added up. -/
def totalSize (cb : Callback) (xs : List (Nat × Recorded)) : UInt64 := (xs.map fun x => (cb.size x.1).toUInt64).sum

/-- What `cleanIndexLoop` does to a group. -/
structure IndexCleaned (cb : Callback) (indexId : UInt32) (es : List LimboElement) (ti ti' : GcQueue)
    (es' : List LimboElement) (itemCleaned : Nat) : Prop where
  intro ::
  calls : ti.Destroys ti' ((ofIndex indexId (pending es)).map Prod.fst) (totalSize cb (ofIndex indexId (pending es)))
  count : itemCleaned = (ofIndex indexId (pending es)).length
  rest : pending es' = (pending es).filter fun x => x.2.m_indexId ≠ indexId
  length : es'.length = es.length

/-- An element that is not pending stays as it is. -/
lemma IndexCleaned.skip {cb : Callback} {indexId : UInt32} {e : LimboElement} {es es' : List LimboElement}
    {ti ti' : GcQueue} {n : Nat} (h : IndexCleaned cb indexId es ti ti' es' n)
    (he : ∀ es, pending (e :: es) = pending es) : IndexCleaned cb indexId (e :: es) ti ti' (e :: es') n where
  calls := by
    rw [he]
    exact h.calls
  count := by
    rw [he]
    exact h.count
  rest := by
    rw [he, he]
    exact h.rest
  length := congrArg (· + 1) h.length

/-- The loop destroys the objects of the index and keeps the others. -/
lemma cleanIndexLoop_spec (cb : Callback) (indexId : UInt32) (es : List LimboElement) (ti : GcQueue) :
    let r := GcQueue.cleanIndexLoop cb indexId es ti
    IndexCleaned cb indexId es ti r.1 r.2.1 r.2.2 := by
  induction es generalizing ti with
  | nil => exact ⟨.refl ti, rfl, rfl, rfl⟩
  | cons e es ih =>
    rw [GcQueue.cleanIndexLoop]
    cases hobj : e.m_objectPtr with
    | none => exact (ih ti).skip (pending_marker hobj)
    | some obj =>
      dsimp only
      by_cases hnull : e.m_cb = .nullDtor
      · rw [if_neg fun h => h.2 hnull]
        exact (ih ti).skip (pending_null hnull)
      · have hpending := pending_object hobj hnull
        by_cases hindex : e.m_indexId = indexId
        · rw [if_pos ⟨hindex, hnull⟩]
          have hcall := ti.destroys_callDtor cb obj { ti.m_stats with
            m_totalLimboSizeInBytesByCleanIndex :=
              ti.m_stats.m_totalLimboSizeInBytesByCleanIndex + (cb.size obj).toUInt64 } (cb.size obj).toUInt64 rfl rfl
          obtain ⟨hcalls, hcount, hrest, hlength⟩ := ih { ti.callDtor cb obj with m_stats := { ti.m_stats with
            m_totalLimboSizeInBytesByCleanIndex :=
              ti.m_stats.m_totalLimboSizeInBytesByCleanIndex + (cb.size obj).toUInt64 } }
          have hof : ofIndex indexId (pending (e :: es)) =
              (obj, ⟨e.m_csn, e.m_indexId⟩) :: ofIndex indexId (pending es) := by
            rw [hpending]
            exact List.filter_cons_of_pos (decide_eq_true hindex)
          refine ⟨?_, ?_, ?_, congrArg (· + 1) hlength⟩
          · rw [hof]
            exact hcall.trans hcalls
          · rw [hof]
            exact congrArg (· + 1) hcount
          · rw [pending_null rfl, hpending, List.filter_cons_of_neg (by simp [hindex])]
            exact hrest
        · rw [if_neg fun h => hindex h.1]
          obtain ⟨hcalls, hcount, hrest, hlength⟩ := ih ti
          have hof : ofIndex indexId (pending (e :: es)) = ofIndex indexId (pending es) := by
            rw [hpending]
            exact List.filter_cons_of_neg (by simp [hindex])
          refine ⟨?_, ?_, ?_, congrArg (· + 1) hlength⟩
          · rw [hof]
            exact hcalls
          · rw [hof]
            exact hcount
          · rw [hpending, hpending, List.filter_cons_of_pos (by simp [hindex])]
            exact congrArg _ hrest

/-- The loop keeps the epochs of the elements. -/
lemma cleanIndexLoop_marked (cb : Callback) (indexId : UInt32) {es : List LimboElement} {ti : GcQueue}
    {csn last : UInt64} (h : Marked csn es last) : Marked csn (GcQueue.cleanIndexLoop cb indexId es ti).2.1 last := by
  induction es generalizing ti csn with
  | nil => exact h
  | cons e es ih =>
    rw [Marked] at h
    rw [GcQueue.cleanIndexLoop]
    cases hobj : e.m_objectPtr with
    | none =>
      rw [hobj] at h
      dsimp only
      rw [Marked, hobj]
      exact ih h
    | some obj =>
      rw [hobj] at h
      dsimp only
      split
      case isTrue =>
        rw [Marked]
        dsimp only
        exact ⟨h.1, ih h.2⟩
      case isFalse =>
        rw [Marked, hobj]
        exact ⟨h.1, ih h.2⟩

/-- The loop keeps the first marker. -/
lemma cleanIndexLoop_startsMarked (cb : Callback) (indexId : UInt32) {es : List LimboElement} {ti : GcQueue}
    {last : UInt64} (h : StartsMarked es last) :
    StartsMarked (GcQueue.cleanIndexLoop cb indexId es ti).2.1 last := by
  rcases h with rfl | ⟨e, rest, rfl, he, hrest⟩
  · exact .inl rfl
  · rw [GcQueue.cleanIndexLoop]
    split
    case h_1 obj hobj => exact absurd (he.symm.trans hobj) nofun
    case h_2 => exact .inr ⟨e, _, rfl, he, cleanIndexLoop_marked cb indexId hrest⟩

end GaussKernel.Mot
