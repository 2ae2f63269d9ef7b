import GaussKernel.Transam.CsnLog

/-!
# Commit of a transaction tree

The second write of the top transaction's entry is the point at which the whole tree commits: until then no entry of the
tree holds a committed number, and from then on every entry is a link to the top transaction or holds the number. The
invariant says what every entry holds after any number of the committer's writes.
-/

namespace GaussKernel.Transam

open GaussKernel.Lib

/-- A lookup commits with the write at `k`: from then on it returns the number, and before it nothing committed. -/
structure TreeAtomic (t : XactTree) (prog : List CsnWrite) (k : ℕ) (c : CommitSeqNo) (start : CommitState) : Prop where
  returns : ∀ {events s pre r v post}, Trace (CommitStep (t.top :: t.subs) prog) start events s →
    events = pre ++ .ret r v :: post →
    (.write k ∈ pre → v = c) ∧ (.write k ∉ pre → ¬ isCommitted v)
  stable : ∀ {events s pre r v mid r' v' post}, Trace (CommitStep (t.top :: t.subs) prog) start events s →
    events = pre ++ .ret r v :: (mid ++ .ret r' v' :: post) → isCommitted v → v' = v
  ends : ∀ {events s r look}, Trace (CommitStep (t.top :: t.subs) prog) start events s → s.lookups r = some look →
    look.reads ≤ 1 ∧
      ∃ e s', CommitStep (t.top :: t.subs) prog s e s' ∧ (e = .read r ∨ ∃ v, e = .ret r v)
  runs : ∀ {events s}, Trace (CommitStep (t.top :: t.subs) prog) start events s → s.done < prog.length →
    ∃ s', CommitStep (t.top :: t.subs) prog s (.write s.done) s'

/-- The writes of both calls, one after the other. -/
def treeWrites (t : XactTree) (mark c : CommitSeqNo) : List CsnWrite :=
  (⟨csnPage t.top, t.top, mark⟩ :: t.subs.map fun s =>
    ⟨csnPage s, s, COMMITSEQNO_SUBTRANS_BIT ||| t.top ||| COMMITSEQNO_COMMIT_INPROGRESS⟩) ++
  (⟨csnPage t.top, t.top, c⟩ :: t.subs.map fun s => ⟨csnPage s, s, c⟩)

/-- Every entry of the tree after the writes that are done, and the lookups under way. -/
structure TreeInv (t : XactTree) (mark c : CommitSeqNo) (s : CommitState) : Prop where
  top : s.log.entry t.top =
    if s.done = 0 then COMMITSEQNO_INPROGRESS else if s.done ≤ t.subs.length + 1 then mark else c
  sub : ∀ j x, t.subs[j]? = some x → s.log.entry x =
    if s.done ≤ j + 1 then COMMITSEQNO_SUBTRANS_BIT ||| t.parent x
    else if s.done ≤ t.subs.length + 2 + j then
      COMMITSEQNO_SUBTRANS_BIT ||| t.top ||| COMMITSEQNO_COMMIT_INPROGRESS
    else c
  lookups : ∀ r look, s.lookups r = some look →
    look.xid ∈ t.top :: t.subs ∧ (look.reads = 0 ∨ look.xid = t.top ∧ look.reads = 1)

section Tree

variable {t : XactTree} {mark c : CommitSeqNo} {s s' : CommitState} {x : TransactionId} {v : CommitSeqNo}

lemma XactTree.member_normal (h : x ∈ t.top :: t.subs) : ¬ x < FirstNormalTransactionId := by
  rw [BitVec.not_lt]
  rcases List.mem_cons.1 h with rfl | hx
  · exact t.normal
  · exact BitVec.le_trans t.normal (BitVec.le_of_lt (t.follows x hx))

lemma XactTree.top_ne (h : x ∈ t.subs) : t.top ≠ x := by
  rintro rfl
  exact BitVec.lt_irrefl _ (t.follows _ h)

lemma XactTree.parent_le_max (h : x ∈ t.subs) : t.parent x ≤ MaxTransactionId :=
  t.bound _ (t.parent_mem x h)

lemma XactTree.top_le_max : t.top ≤ MaxTransactionId := t.bound _ List.mem_cons_self

/-- The writes by their number. -/
lemma treeWrites_cases {k : ℕ} {w : CsnWrite} (h : (treeWrites t mark c)[k]? = some w) :
    (k = 0 ∧ w = ⟨csnPage t.top, t.top, mark⟩) ∨
    (∃ j x, t.subs[j]? = some x ∧ k = j + 1 ∧
      w = ⟨csnPage x, x, COMMITSEQNO_SUBTRANS_BIT ||| t.top ||| COMMITSEQNO_COMMIT_INPROGRESS⟩) ∨
    (k = t.subs.length + 1 ∧ w = ⟨csnPage t.top, t.top, c⟩) ∨
    (∃ j x, t.subs[j]? = some x ∧ k = t.subs.length + 2 + j ∧ w = ⟨csnPage x, x, c⟩) := by
  unfold treeWrites at h
  by_cases hk : k < t.subs.length + 1
  · rw [List.getElem?_append_left (by simpa using hk)] at h
    cases k with
    | zero => exact Or.inl ⟨rfl, (Option.some.inj h).symm⟩
    | succ j =>
      rw [List.getElem?_cons_succ, List.getElem?_map, Option.map_eq_some_iff] at h
      obtain ⟨x, hx, rfl⟩ := h
      exact Or.inr (Or.inl ⟨j, x, hx, rfl, rfl⟩)
  · rw [List.getElem?_append_right (by simpa using hk), List.length_cons, List.length_map] at h
    obtain ⟨i, rfl⟩ := Nat.exists_eq_add_of_le (not_lt.1 hk)
    rw [Nat.add_sub_cancel_left] at h
    cases i with
    | zero => exact Or.inr (Or.inr (Or.inl ⟨rfl, (Option.some.inj h).symm⟩))
    | succ j =>
      rw [List.getElem?_cons_succ, List.getElem?_map, Option.map_eq_some_iff] at h
      obtain ⟨x, hx, rfl⟩ := h
      exact Or.inr (Or.inr (Or.inr ⟨j, x, hx, by omega, rfl⟩))

/-! ## The entries -/

variable (hmark : isCommitting mark) (hmarksub : ¬ isSubtrans mark) (hc : isCommitted c)
  (hnormal : COMMITSEQNO_FIRST_NORMAL ≤ c)

lemma not_aborted_of_committing (h : isCommitting v) : ¬ isAborted v := by
  rintro rfl
  exact absurd h (by decide)

lemma not_aborted_of_subtrans (h : isSubtrans v) : ¬ isAborted v := by
  rintro rfl
  exact absurd h (by decide)

lemma not_aborted_of_normal (h : COMMITSEQNO_FIRST_NORMAL ≤ v) : ¬ isAborted v := by
  rintro rfl
  exact absurd h (by decide)

include hmark hnormal in
lemma TreeInv.not_aborted (hinv : TreeInv t mark c s) (hx : x ∈ t.top :: t.subs) : ¬ isAborted (s.log.entry x) := by
  rcases List.mem_cons.1 hx with rfl | hx
  · rw [hinv.top]
    split
    · decide
    · split
      · exact not_aborted_of_committing hmark
      · exact not_aborted_of_normal hnormal
  · obtain ⟨j, hj⟩ := List.mem_iff_getElem?.1 hx
    rw [hinv.sub j x hj]
    split
    · exact not_aborted_of_subtrans parentLink_subtrans
    · split
      · exact not_aborted_of_subtrans topLink_subtrans
      · exact not_aborted_of_normal hnormal

/-- What one read of an entry of the tree tells. -/
structure ReadSpec (t : XactTree) (c : CommitSeqNo) (done : ℕ) (x : TransactionId) (out : CommitSeqNo ⊕ TransactionId) :
    Prop where
  follow : ∀ {p}, out = .inr p → p = t.top ∧ x ≠ t.top
  late : ∀ {v}, out = .inl v → t.subs.length + 1 < done → v = c
  early : ∀ {v}, out = .inl v → done ≤ t.subs.length + 1 → ¬ isCommitted v

lemma ReadSpec.value {done : ℕ} (hlate : t.subs.length + 1 < done → v = c)
    (hearly : done ≤ t.subs.length + 1 → ¬ isCommitted v) : ReadSpec t c done x (.inl v) := by
  refine ⟨fun h => (nomatch h), fun h => ?_, fun h => ?_⟩
  · cases h
    exact hlate
  · cases h
    exact hearly

include hmark hmarksub hc in
lemma TreeInv.read (hinv : TreeInv t mark c s) (hx : x ∈ t.top :: t.subs) :
    ReadSpec t c s.done x (recursiveGetCommitSeqNo s.log x) := by
  have hget : internalGetCommitSeqNo s.log x = s.log.entry x := if_neg (XactTree.member_normal hx)
  rw [recursiveGetCommitSeqNo, hget]
  rcases List.mem_cons.1 hx with rfl | hx
  · -- the entry of the top transaction is never a link
    rw [hinv.top]
    split
    · rename_i hdone
      rw [if_neg fun h => inprogress_not_subtrans h.1]
      exact .value (fun h => by omega) fun _ => inprogress_not_committed
    · split
      · rw [if_neg fun h => hmarksub h.1]
        exact .value (fun h => by omega) fun _ h => isCommitted_not_committing h hmark
      · rw [if_neg fun h => isCommitted_not_subtrans hc h.1]
        exact .value (fun _ => rfl) fun h => by omega
  · obtain ⟨j, hj⟩ := List.mem_iff_getElem?.1 hx
    have hlt : j < t.subs.length := (List.getElem?_eq_some_iff.1 hj).1
    rw [hinv.sub j x hj]
    split
    · rw [if_neg fun h => parentLink_not_committing (XactTree.parent_le_max hx) h.2]
      exact .value (fun h => by omega) fun _ h => isCommitted_not_subtrans h parentLink_subtrans
    · split
      · rw [if_pos ⟨topLink_subtrans, topLink_committing⟩, topLink_parent XactTree.top_le_max]
        refine ⟨fun h => ⟨(Sum.inr.inj h).symm, (XactTree.top_ne hx).symm⟩, fun h => (nomatch h), fun h => (nomatch h)⟩
      · rw [if_neg fun h => isCommitted_not_subtrans hc h.1]
        exact .value (fun _ => rfl) fun h => by omega

/-! ## Steps -/

/-- A write to an entry of the tree changes that entry alone. -/
lemma write_entry {log log' : CsnLog} (hvalue : ¬ isAborted (log.entry x)) (hv : ¬ isAborted v)
    (h : csnLogSetCSN log ⟨csnPage x, x, v⟩ = some log') :
    log'.entry x = v ∧ ∀ y, x ≠ y → log'.entry y = log.entry y := by
  rw [csnLogSetCSN_eq hvalue hv] at h
  obtain rfl := Option.some.inj h
  exact ⟨entry_set_self, fun y hy => entry_set_ne hy⟩

/-- The subtransactions are distinct, so a place in the list is a subtransaction. -/
lemma XactTree.index_inj {i j : ℕ} (hi : t.subs[i]? = some x) (hj : t.subs[j]? = some x) : i = j :=
  (List.getElem?_inj (List.getElem?_eq_some_iff.1 hi).1 t.nodup).1 (hi.trans hj.symm)

include hmark hnormal in
lemma TreeInv.write (hinv : TreeInv t mark c s) {w : CsnWrite} {log : CsnLog}
    (hw : (treeWrites t mark c)[s.done]? = some w) (hlog : csnLogSetCSN s.log w = some log) :
    TreeInv t mark c { s with log := log, done := s.done + 1 } := by
  have hlen : ∀ {j x}, t.subs[j]? = some x → j < t.subs.length := fun h => (List.getElem?_eq_some_iff.1 h).1
  rcases treeWrites_cases hw with ⟨hdone, rfl⟩ | ⟨j, x, hj, hdone, rfl⟩ | ⟨hdone, rfl⟩ | ⟨j, x, hj, hdone, rfl⟩
  · obtain ⟨hself, hother⟩ := write_entry (hinv.not_aborted hmark hnormal List.mem_cons_self)
      (not_aborted_of_committing hmark) hlog
    refine ⟨?_, fun i y hi => ?_, hinv.lookups⟩
    · dsimp only
      rw [hself, if_neg (by omega), if_pos (by omega)]
    · dsimp only
      rw [hother y (XactTree.top_ne (List.mem_of_getElem? hi)), hinv.sub i y hi, if_pos (by omega), if_pos (by omega)]
  · have hmem := List.mem_of_getElem? hj
    have hjlen := hlen hj
    obtain ⟨hself, hother⟩ := write_entry (hinv.not_aborted hmark hnormal (List.mem_cons_of_mem _ hmem))
      (not_aborted_of_subtrans topLink_subtrans) hlog
    refine ⟨?_, fun i y hi => ?_, hinv.lookups⟩
    · dsimp only
      rw [hother _ (XactTree.top_ne hmem).symm, hinv.top, if_neg (by omega), if_pos (by omega), if_neg (by omega),
        if_pos (by omega)]
    · dsimp only
      by_cases hij : i = j
      · subst hij
        obtain rfl : x = y := Option.some.inj (hj.symm.trans hi)
        rw [hself, if_neg (by omega), if_pos (by omega)]
      · have hne : x ≠ y := fun h => hij (XactTree.index_inj hi (h ▸ hj))
        have hilen := hlen hi
        rw [hother y hne, hinv.sub i y hi]
        by_cases hlt : s.done ≤ i + 1
        · rw [if_pos hlt, if_pos (by omega)]
        · rw [if_neg hlt, if_pos (by omega), if_neg (by omega), if_pos (by omega)]
  · obtain ⟨hself, hother⟩ := write_entry (hinv.not_aborted hmark hnormal List.mem_cons_self)
      (not_aborted_of_normal hnormal) hlog
    refine ⟨?_, fun i y hi => ?_, hinv.lookups⟩
    · dsimp only
      rw [hself, if_neg (by omega), if_neg (by omega)]
    · have hilen := hlen hi
      dsimp only
      rw [hother y (XactTree.top_ne (List.mem_of_getElem? hi)), hinv.sub i y hi, if_neg (by omega), if_pos (by omega),
        if_neg (by omega), if_pos (by omega)]
  · have hmem := List.mem_of_getElem? hj
    obtain ⟨hself, hother⟩ := write_entry (hinv.not_aborted hmark hnormal (List.mem_cons_of_mem _ hmem))
      (not_aborted_of_normal hnormal) hlog
    refine ⟨?_, fun i y hi => ?_, hinv.lookups⟩
    · dsimp only
      rw [hother _ (XactTree.top_ne hmem).symm, hinv.top, if_neg (by omega), if_neg (by omega), if_neg (by omega),
        if_neg (by omega)]
    · have hilen := hlen hi
      dsimp only
      by_cases hij : i = j
      · subst hij
        obtain rfl : x = y := Option.some.inj (hj.symm.trans hi)
        rw [hself, if_neg (by omega), if_neg (by omega)]
      · have hne : x ≠ y := fun h => hij (XactTree.index_inj hi (h ▸ hj))
        rw [hother y hne, hinv.sub i y hi, if_neg (by omega)]
        by_cases hlt : s.done ≤ t.subs.length + 2 + i
        · rw [if_pos hlt, if_neg (by omega), if_pos (by omega)]
        · rw [if_neg hlt, if_neg (by omega), if_neg (by omega)]

lemma TreeInv.setLookup {reader : ℕ} {look : Option Lookup} (hinv : TreeInv t mark c s)
    (hlook : ∀ l, look = some l → l.xid ∈ t.top :: t.subs ∧ (l.reads = 0 ∨ l.xid = t.top ∧ l.reads = 1)) :
    TreeInv t mark c { s with lookups := Function.update s.lookups reader look } := by
  refine ⟨hinv.top, hinv.sub, fun r l hl => ?_⟩
  dsimp only at hl
  by_cases hr : r = reader
  · rw [hr, Function.update_self] at hl
    exact hlook l hl
  · rw [Function.update_of_ne hr] at hl
    exact hinv.lookups r l hl

include hmark hmarksub hc hnormal in
lemma TreeInv.step {e : CommitEvent} (hinv : TreeInv t mark c s)
    (h : CommitStep (t.top :: t.subs) (treeWrites t mark c) s e s') : TreeInv t mark c s' := by
  cases h with
  | write hw hlog => exact hinv.write hmark hnormal hw hlog
  | call hxid hidle =>
    refine hinv.setLookup fun l hl => ?_
    cases hl
    exact ⟨hxid, Or.inl rfl⟩
  | read hlook hread =>
    obtain ⟨hmem, hreads⟩ := hinv.lookups _ _ hlook
    obtain ⟨rfl, hne⟩ := (hinv.read hmark hmarksub hc hmem).follow hread
    refine hinv.setLookup fun l hl => ?_
    cases hl
    refine ⟨List.mem_cons_self, Or.inr ⟨rfl, ?_⟩⟩
    rcases hreads with hzero | ⟨htop, -⟩
    · rw [hzero]
    · exact absurd htop hne
  | ret hlook hread => exact hinv.setLookup fun l hl => (nomatch hl)

include hmark hmarksub hc hnormal in
lemma TreeInv.trace {events : List CommitEvent} (hinv : TreeInv t mark c s)
    (h : Trace (CommitStep (t.top :: t.subs) (treeWrites t mark c)) s events s') : TreeInv t mark c s' :=
  h.invariant (fun hinv hstep => hinv.step hmark hmarksub hc hnormal hstep) hinv

/-- The committer's writes of a trace are the ones up to the count. -/
lemma write_mem_iff {members : List TransactionId} {prog : List CsnWrite} {events : List CommitEvent} {k : ℕ}
    (h : Trace (CommitStep members prog) s events s') (hzero : s.done = 0) :
    CommitEvent.write k ∈ events ↔ k < s'.done := by
  have hhist := h.history (fun es s => CommitEvent.write k ∈ es ↔ k < s.done) [] (by
    intro es s e s' hiff hstep
    rw [List.mem_append, hiff, List.mem_singleton]
    cases hstep with
    | write hw hlog =>
      rw [CommitEvent.write.injEq]
      dsimp only
      omega
    | call hxid hidle => simp
    | read hlook hread => simp
    | ret hlook hread => simp) (by simp [hzero])
  simpa using hhist

/-! ## The commit point -/

include hmark hmarksub hc hnormal in
lemma treeAtomic (hinv : TreeInv t mark c s) (hzero : s.done = 0) :
    TreeAtomic t (treeWrites t mark c) (t.subs.length + 1) c s := by
  have hreturns : ∀ {events s' pre r v post}, Trace (CommitStep (t.top :: t.subs) (treeWrites t mark c)) s events s' →
      events = pre ++ .ret r v :: post →
      (.write (t.subs.length + 1) ∈ pre → v = c) ∧ (.write (t.subs.length + 1) ∉ pre → ¬ isCommitted v) := by
    rintro events s' pre r v post h rfl
    obtain ⟨s₁, s₂, hpre, hstep, -⟩ := h.at_event
    have hinv₁ := hinv.trace hmark hmarksub hc hnormal hpre
    cases hstep with
    | ret hlook hread =>
      have hspec := hinv₁.read hmark hmarksub hc (hinv₁.lookups _ _ hlook).1
      rw [write_mem_iff hpre hzero]
      exact ⟨hspec.late hread, fun hdone => hspec.early hread (not_lt.1 hdone)⟩
  refine ⟨hreturns, ?_, ?_, ?_⟩
  · rintro events s' pre r v mid r' v' post h hevents hcommitted
    obtain ⟨hlate, hearly⟩ := hreturns h hevents
    have hmem : .write (t.subs.length + 1) ∈ pre := by
      by_contra hnot
      exact hearly hnot hcommitted
    have hevents' : events = (pre ++ .ret r v :: mid) ++ .ret r' v' :: post := by
      rw [hevents, List.append_assoc, List.cons_append]
    rw [hlate hmem]
    exact (hreturns h hevents').1 (List.mem_append_left _ hmem)
  · intro events s' r look h hlook
    have hinv' := hinv.trace hmark hmarksub hc hnormal h
    obtain ⟨-, hreads⟩ := hinv'.lookups r look hlook
    refine ⟨by rcases hreads with hreads | ⟨-, hreads⟩ <;> omega, ?_⟩
    cases hread : recursiveGetCommitSeqNo s'.log look.xid with
    | inr p => exact ⟨_, _, .read hlook hread, Or.inl rfl⟩
    | inl v => exact ⟨_, _, .ret hlook hread, Or.inr ⟨v, rfl⟩⟩
  · intro events s' h hdone
    have hinv' := hinv.trace hmark hmarksub hc hnormal h
    have hw := List.getElem?_eq_getElem hdone
    have hok : ∃ log, csnLogSetCSN s'.log (treeWrites t mark c)[s'.done] = some log := by
      have hvalue := fun {x} => hinv'.not_aborted (x := x) hmark hnormal
      rcases treeWrites_cases hw with ⟨-, heq⟩ | ⟨j, x, hj, -, heq⟩ | ⟨-, heq⟩ | ⟨j, x, hj, -, heq⟩
      · rw [heq]
        exact ⟨_, csnLogSetCSN_eq (hvalue List.mem_cons_self) (not_aborted_of_committing hmark)⟩
      · rw [heq]
        exact ⟨_, csnLogSetCSN_eq (hvalue (List.mem_cons_of_mem _ (List.mem_of_getElem? hj)))
          (not_aborted_of_subtrans topLink_subtrans)⟩
      · rw [heq]
        exact ⟨_, csnLogSetCSN_eq (hvalue List.mem_cons_self) (not_aborted_of_normal hnormal)⟩
      · rw [heq]
        exact ⟨_, csnLogSetCSN_eq (hvalue (List.mem_cons_of_mem _ (List.mem_of_getElem? hj)))
          (not_aborted_of_normal hnormal)⟩
    obtain ⟨log, hlog⟩ := hok
    exact ⟨_, .write hw hlog⟩

end Tree

/-- The second write of the top transaction's entry commits the whole tree, for every lookup that runs beside it. -/
theorem tree_commit_atomic {t : XactTree} {node : NodeInfo} {order : List TransactionId} {log : CsnLog}
    {latest c : CommitSeqNo} (hnode : node.ssStandbyMode = false) (horder : ∀ x, x ∈ order ↔ x ∈ t.subs)
    (hfresh : ∀ x ∈ t.top :: t.subs, log.entry x = COMMITSEQNO_INPROGRESS)
    (hlatest : COMMITSEQNO_COMMIT_INPROGRESS ||| latest ≤ COMMITSEQNO_SUBTRANS_BIT)
    (hnormal : COMMITSEQNO_FIRST_NORMAL ≤ c) (hmax : c ≤ MAX_COMMITSEQNO) :
    ∃ first second,
      csnLogSetCommitSeqNo node t.top t.subs (COMMITSEQNO_COMMIT_INPROGRESS ||| latest) = some first ∧
      csnLogSetCommitSeqNo node t.top t.subs c = some second ∧ second[0]? = some ⟨csnPage t.top, t.top, c⟩ ∧
      TreeAtomic t (first ++ second) first.length c (commitStart (registered node t order log)) := by
  have hc := normal_committed hmax hnormal
  have hmark : isCommitting (COMMITSEQNO_COMMIT_INPROGRESS ||| latest) := mark_committing
  have hmarksub := mark_not_subtrans hlatest
  have hlow : ∀ {v : CommitSeqNo}, isCommitting v ∨ COMMITSEQNO_FIRST_NORMAL ≤ v → ¬ v ≤ COMMITSEQNO_ABORTED := by
    rintro v (hv | hv) hle
    · have hbit := Nat.ge_two_pow_of_testBit (isCommitting_iff.1 hv)
      have hle : v.toNat ≤ 1 := hle
      omega
    · exact absurd (BitVec.le_trans hv hle) (by decide)
  have hfirst := csnLogSetCommitSeqNo_eq t.subs hnode t.normal (hlow (Or.inl hmark))
  have hsecond := csnLogSetCommitSeqNo_eq t.subs hnode t.normal (hlow (Or.inr hnormal))
  simp only [subCsn, if_pos hmark] at hfirst
  simp only [subCsn, if_neg (isCommitted_not_committing hc)] at hsecond
  refine ⟨_, _, hfirst, hsecond, rfl, ?_⟩
  have hinv : TreeInv t (COMMITSEQNO_COMMIT_INPROGRESS ||| latest) c (commitStart (registered node t order log)) := by
    refine ⟨?_, fun j x hj => ?_, fun r look hlook => (nomatch hlook)⟩
    · have htop : t.top ∉ order := fun h => XactTree.top_ne ((horder _).1 h) rfl
      show (registered node t order log).entry t.top = COMMITSEQNO_INPROGRESS
      rw [registered_entry hnode (Or.inl (hfresh _ List.mem_cons_self)), if_neg htop, hfresh _ List.mem_cons_self]
    · have hmem := List.mem_of_getElem? hj
      show (registered node t order log).entry x = if 0 ≤ j + 1 then _ else _
      rw [registered_entry hnode (Or.inl (hfresh _ (List.mem_cons_of_mem _ hmem))), if_pos ((horder x).2 hmem),
        if_pos (Nat.zero_le _)]
  have hatomic := treeAtomic hmark hmarksub hc hnormal hinv rfl
  rw [List.length_cons, List.length_map]
  exact hatomic

/-- A subtransaction on the page of the top transaction, and one of its own on a later page. -/
def nestedTree : XactTree where
  top := 5
  subs := [6, 2000]
  parent := fun x => if x = 2000 then 6 else 5
  normal := by decide
  follows := by simp
  nodup := by simp
  bound := by simp [MaxTransactionId]
  parent_mem := by simp
  parent_lt := by simp

theorem tree_commit_atomic_nested :
    ∃ first second,
      csnLogSetCommitSeqNo ⟨false, false, false, false⟩ 5 [6, 2000] (COMMITSEQNO_COMMIT_INPROGRESS ||| 7) = some first ∧
      csnLogSetCommitSeqNo ⟨false, false, false, false⟩ 5 [6, 2000] 8 = some second ∧
      second[0]? = some ⟨csnPage 5, 5, 8⟩ ∧
      TreeAtomic nestedTree (first ++ second) first.length 8
        (commitStart (registered ⟨false, false, false, false⟩ nestedTree [2000, 6]
          fun _ _ => COMMITSEQNO_INPROGRESS)) := by
  have horder : ∀ x, x ∈ [(2000 : TransactionId), 6] ↔ x ∈ nestedTree.subs := by
    intro x
    show x ∈ [(2000 : TransactionId), 6] ↔ x ∈ [(6 : TransactionId), 2000]
    simp only [List.mem_cons, List.not_mem_nil, or_false]
    exact or_comm
  exact tree_commit_atomic (t := nestedTree) rfl horder (fun _ _ => rfl) (by decide) (by decide) (by decide)

end GaussKernel.Transam
