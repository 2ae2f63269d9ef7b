import GaussKernel.Lib.OrderStat
import Mathlib.Data.List.Count
import Mathlib.Data.List.GetD
import Mathlib.Order.Nat

/-!
# Synced positions

A wal sender that got a reply computes from the replies of all synchronous standbys the positions up to which the
waiting backends may go on. `SyncRepGetSyncStandbys` collects the candidates group by group, `check_sync_standbys_num`
counts them, and the two position functions fold them into one accumulator in which the invalid position means that
nothing was taken yet.

An array entry that was allocated and never written has no value here: sorting such an array, or reading outside of it,
has no result.
-/

namespace GaussKernel.Replication

open GaussKernel.Lib

abbrev XLogRecPtr := ℕ

def InvalidXLogRecPtr : XLogRecPtr := 0

inductive SyncRepWaitMode
  | receive
  | write
  | flush
  | apply
  deriving DecidableEq

/-- One position for each wait mode. -/
structure RecPtrs where
  receive : XLogRecPtr
  write : XLogRecPtr
  flush : XLogRecPtr
  apply : XLogRecPtr
  deriving DecidableEq

def RecPtrs.get (ptrs : RecPtrs) : SyncRepWaitMode → XLogRecPtr
  | .receive => ptrs.receive
  | .write => ptrs.write
  | .flush => ptrs.flush
  | .apply => ptrs.apply

def RecPtrs.ofMode (f : SyncRepWaitMode → XLogRecPtr) : RecPtrs := ⟨f .receive, f .write, f .flush, f .apply⟩

@[simp] lemma RecPtrs.get_ofMode (f : SyncRepWaitMode → XLogRecPtr) (mode : SyncRepWaitMode) :
    (RecPtrs.ofMode f).get mode = f mode := by
  cases mode <;> rfl

inductive WalSndState
  | startup
  | backup
  | catchup
  | streaming
  deriving DecidableEq

inductive ServerMode
  | unknown
  | normal
  | primary
  | standby
  | cascadeStandby
  | pending
  | recovery
  | standbyCluster
  | mainStandby
  deriving DecidableEq

/-- The fields of a wal sender's slot that the computation reads. -/
structure WalSnd where
  pid : ℕ
  state : WalSndState
  peerRole : ServerMode
  ptrs : RecPtrs
  syncStandbyGroup : ℕ
  syncStandbyPriority : ℕ
  isCrossCluster : Bool

structure WalSndCtl where
  walsnds : List WalSnd
  myWalSnd : Fin walsnds.length
  lsn : RecPtrs
  mostAvailableSync : Bool

structure SyncRepStandbyData where
  ptrs : RecPtrs
  syncStandbyGroup : ℕ
  syncStandbyPriority : ℕ
  walsndIndex : ℕ
  isMe : Bool
  isCrossCluster : Bool
  deriving DecidableEq

/-! ## The configuration -/

inductive SyncRepMethod
  | priority
  | quorum
  deriving DecidableEq

structure SyncRepConfigData where
  numSync : ℕ
  syncrepMethod : SyncRepMethod
  memberNames : List String
  deriving DecidableEq

def SYNC_REP_MAX_GROUPS : ℕ := 256

/-- `analyze_star_and_num`: whether the group is a `*`, when the group is accepted. -/
def analyzeStarAndNum (groups : ℕ) (conf : SyncRepConfigData) : Option Bool :=
  if "*" ∈ conf.memberNames then
    if 1 < groups then none else if 1 < conf.memberNames.length then none else some true
  else if conf.memberNames.length < conf.numSync then none
  else some false

/-- `analyze_duplicate_names`: the names found so far, this group's included. -/
def analyzeDuplicateNames (pgStrcasecmp : String → String → Bool) (isStar : Bool) (conf : SyncRepConfigData)
    (existers : List String) : Option (List String) :=
  if isStar then some existers
  else conf.memberNames.foldlM (fun existers p =>
    if existers.any (pgStrcasecmp p) then none else some (existers ++ [p])) existers

/-- `transform_synchronous_standby_names` on the parsed groups; the result is a copy of them. -/
def transformSynchronousStandbyNames (pgStrcasecmp : String → String → Bool) (source : List SyncRepConfigData) :
    Option (List SyncRepConfigData) :=
  if SYNC_REP_MAX_GROUPS < source.length then none
  else do
    let _ ← source.foldlM (fun existers conf =>
      if conf.syncrepMethod = .priority ∧ 1 < source.length then none
      else do
        let isStar ← analyzeStarAndNum source.length conf
        analyzeDuplicateNames pgStrcasecmp isStar conf existers) []
    some source

/-! ## The candidates -/

def syncCandidate (conf : SyncRepConfigData) (groupid : ℕ) (walsnd : WalSnd) : Bool :=
  walsnd.pid ≠ 0 && walsnd.syncStandbyPriority ≠ 0 && walsnd.syncStandbyGroup = groupid &&
    walsnd.ptrs.flush ≠ InvalidXLogRecPtr && walsnd.state = .streaming &&
    !(conf.syncrepMethod = .quorum && walsnd.peerRole = .standbyCluster)

/-- The candidates of a group, in the order of the wal sender array. -/
def candidates (ctl : WalSndCtl) (conf : SyncRepConfigData) (groupid : ℕ) : List SyncRepStandbyData :=
  (ctl.walsnds.zipIdx.filter fun x => syncCandidate conf groupid x.1).map fun x =>
    { ptrs := x.1.ptrs
      syncStandbyGroup := x.1.syncStandbyGroup
      syncStandbyPriority := x.1.syncStandbyPriority
      walsndIndex := x.2
      isMe := x.2 = ctl.myWalSnd.val
      isCrossCluster := x.1.isCrossCluster }

/-- `standby_priority_comparator` is negative. -/
def priorityBefore (sa sb : SyncRepStandbyData) : Bool :=
  sa.syncStandbyPriority < sb.syncStandbyPriority ||
    (sa.syncStandbyPriority = sb.syncStandbyPriority && sa.walsndIndex < sb.walsndIndex)

def syncRepGetSyncStandbysInGroup (ctl : WalSndCtl) (conf : SyncRepConfigData) (groupid : ℕ) :
    List SyncRepStandbyData :=
  let standbys := candidates ctl conf groupid
  if conf.syncrepMethod = .priority ∧ conf.numSync < standbys.length then
    (standbys.mergeSort fun sa sb => !priorityBefore sb sa).take conf.numSync
  else standbys

def syncRepGetSyncStandbys (ctl : WalSndCtl) (config : List SyncRepConfigData) : List SyncRepStandbyData :=
  config.zipIdx.flatMap fun x => syncRepGetSyncStandbysInGroup ctl x.1 x.2

inductive SyncStandbyNumState
  | enough
  | notEnough
  | empty
  deriving DecidableEq

/-- `check_sync_standbys_num`; no group at all is the configuration that is not set. -/
def checkSyncStandbysNum (config : List SyncRepConfigData) (standbys : List SyncRepStandbyData) :
    SyncStandbyNumState :=
  if config = [] then .enough
  else if standbys = [] then .empty
  else if config.zipIdx.any fun x => standbys.countP (fun s => s.syncStandbyGroup = x.2) < x.1.numSync then .notEnough
  else .enough

/-! ## The positions -/

/-- `SyncRepGetOldestSyncRecPtr`, for one position. -/
def oldestSyncRecPtr (acc : XLogRecPtr) (ptrs : List XLogRecPtr) : XLogRecPtr :=
  ptrs.foldl (fun acc ptr => if acc = InvalidXLogRecPtr ∨ ¬ acc ≤ ptr then ptr else acc) acc

def syncRepGetOldestSyncRecPtr (acc : RecPtrs) (standbys : List SyncRepStandbyData) (groupid : ℕ) : RecPtrs :=
  let group := standbys.filter fun s => s.syncStandbyGroup = groupid
  .ofMode fun mode => oldestSyncRecPtr (acc.get mode) (group.map fun s => s.ptrs.get mode)

/-- One of the four arrays: an entry for each standby of the group, of which the ones across clusters stay unwritten. -/
def lsnArray (group : List SyncRepStandbyData) (mode : SyncRepWaitMode) : List (Option XLogRecPtr) :=
  let written := (group.filter fun s => !s.isCrossCluster).map fun s => some (s.ptrs.get mode)
  written ++ List.replicate (group.length - written.length) none

/-- `qsort` with `cmp_lsn`. -/
def qsortLsn (array : List (Option XLogRecPtr)) : Option (List XLogRecPtr) :=
  (array.mapM id).map fun lsns => lsns.mergeSort fun a b => b ≤ a

/-- The parameter is a byte, and the entry before the first is none of the array. -/
def nthLatestSyncRecPtr (acc : XLogRecPtr) (array : List (Option XLogRecPtr)) (nth : ℕ) : Option XLogRecPtr := do
  let sorted ← qsortLsn array
  if nth = 0 then none
  else do
    let ptr ← sorted[nth - 1]?
    some (if acc = InvalidXLogRecPtr ∨ ptr ≤ acc then ptr else acc)

def syncRepGetNthLatestSyncRecPtr (mostAvailableSync : Bool) (acc : RecPtrs) (standbys : List SyncRepStandbyData)
    (groupid nth : ℕ) : Option RecPtrs := do
  let group := standbys.filter fun s => s.syncStandbyGroup = groupid
  let nth := if mostAvailableSync ∧ group.length < nth then group.length % 256 else nth
  let receive ← nthLatestSyncRecPtr acc.receive (lsnArray group .receive) nth
  let write ← nthLatestSyncRecPtr acc.write (lsnArray group .write) nth
  let flush ← nthLatestSyncRecPtr acc.flush (lsnArray group .flush) nth
  let apply ← nthLatestSyncRecPtr acc.apply (lsnArray group .apply) nth
  some ⟨receive, write, flush, apply⟩

def syncPositions (ctl : WalSndCtl) (config : List SyncRepConfigData) (standbys : List SyncRepStandbyData) :
    Option RecPtrs :=
  config.zipIdx.foldlM (fun acc x =>
    match x.1.syncrepMethod with
    | .priority => some (syncRepGetOldestSyncRecPtr acc standbys x.2)
    | .quorum =>
      syncRepGetNthLatestSyncRecPtr ctl.mostAvailableSync acc standbys x.2 (x.1.numSync % 256))
    (.ofMode fun _ => InvalidXLogRecPtr)

/-- What the primary knows of itself: whether entering the most available mode is put off, and its own positions. -/
structure LocalInfo where
  delayIntoMostAvaSync : Bool
  xlogWrite : XLogRecPtr
  xlogFlush : XLogRecPtr

def judgeSyncStandbysNum (ctl : WalSndCtl) (info : LocalInfo) (state : SyncStandbyNumState) : Bool :=
  state = .enough || (ctl.mostAvailableSync && !info.delayIntoMostAvaSync)

structure SyncRecPtr where
  got : Bool
  ptrs : RecPtrs
  amSync : Bool

/-- `SyncRepGetSyncRecPtr`; no result where it reads what nobody wrote. -/
def syncRepGetSyncRecPtr (ctl : WalSndCtl) (config : List SyncRepConfigData) (info : LocalInfo) (checkAmSync : Bool) :
    Option SyncRecPtr :=
  let standbys := syncRepGetSyncStandbys ctl config
  let amSync := standbys.any fun s => s.isMe
  let state := checkSyncStandbysNum config standbys
  if (!amSync && checkAmSync) ∨ config = [] ∨ !judgeSyncStandbysNum ctl info state then
    some ⟨false, .ofMode fun _ => InvalidXLogRecPtr, amSync⟩
  else if state = .empty then
    some ⟨true, ⟨info.xlogWrite, info.xlogWrite, info.xlogFlush, info.xlogFlush⟩, amSync⟩
  else (syncPositions ctl config standbys).map fun ptrs => ⟨true, ptrs, amSync⟩

/-- `SyncRepReleaseWaiters`: the positions in `walsndctl->lsn` afterwards. -/
def syncRepReleaseWaiters (ctl : WalSndCtl) (config : List SyncRepConfigData) (info : LocalInfo) : Option RecPtrs :=
  let me := ctl.walsnds[ctl.myWalSnd]
  if me.syncStandbyPriority = 0 ∨ me.state ≠ .streaming ∨ me.ptrs.flush = InvalidXLogRecPtr then some ctl.lsn
  else do
    let out ← syncRepGetSyncRecPtr ctl config info true
    if !out.got ∨ !out.amSync then some ctl.lsn
    else some (.ofMode fun mode =>
      if ctl.lsn.get mode < out.ptrs.get mode then out.ptrs.get mode else ctl.lsn.get mode)

/-! ## What the positions are for -/

/-- The standbys of the group that have to report have reported the position: any `num_sync` of a quorum group, the
`num_sync` of lowest priority number of a priority group. -/
def GroupReached (ctl : WalSndCtl) (conf : SyncRepConfigData) (groupid : ℕ) (mode : SyncRepWaitMode) (p : XLogRecPtr) :
    Prop :=
  let standbys := candidates ctl conf groupid
  match conf.syncrepMethod with
  | .quorum => conf.numSync ≤ standbys.countP fun s => p ≤ s.ptrs.get mode
  | .priority => conf.numSync ≤ standbys.length ∧
      ∀ s ∈ standbys, standbys.countP (fun s' => priorityBefore s' s) < conf.numSync → p ≤ s.ptrs.get mode

/-- The positions that every group has reached. -/
def reached (ctl : WalSndCtl) (config : List SyncRepConfigData) (mode : SyncRepWaitMode) : Set XLogRecPtr :=
  {p | ∀ i conf, config[i]? = some conf → GroupReached ctl conf i mode p}

/-- The positions are the greatest that every group has reached, and no waiter is released beyond them. -/
structure QuorumExact (ctl : WalSndCtl) (config : List SyncRepConfigData) (info : LocalInfo) : Prop where
  positions : ∀ checkAmSync, ∃ out, syncRepGetSyncRecPtr ctl config info checkAmSync = some out ∧
    (out.got = true → ∀ mode, IsGreatest (reached ctl config mode) (out.ptrs.get mode))
  released : ∃ lsn, syncRepReleaseWaiters ctl config info = some lsn ∧
    ∀ mode, lsn.get mode ≠ ctl.lsn.get mode → ctl.lsn.get mode < lsn.get mode ∧ lsn.get mode ∈ reached ctl config mode

/-! ## When the positions are exact -/

/-- The standbys of a group that reported a position. -/
def reporting (ctl : WalSndCtl) (conf : SyncRepConfigData) (groupid : ℕ) (mode : SyncRepWaitMode)
    (p : XLogRecPtr) : ℕ :=
  (candidates ctl conf groupid).countP fun s => p ≤ s.ptrs.get mode

/-- The configuration is set, and every group has the standbys it asks for. -/
def Requested (ctl : WalSndCtl) (config : List SyncRepConfigData) : Prop :=
  config ≠ [] ∧ checkSyncStandbysNum config (syncRepGetSyncStandbys ctl config) = .enough

structure PositionsSettled (ctl : WalSndCtl) (config : List SyncRepConfigData) : Prop where
  written : ∀ i conf, config[i]? = some conf → conf.syncrepMethod = .quorum →
    ∀ s ∈ candidates ctl conf i, s.isCrossCluster = false
  counted : ∀ (i : ℕ) (conf : SyncRepConfigData), config[i]? = some conf → conf.syncrepMethod = .quorum →
    conf.numSync % 256 ≠ 0
  /-- Nothing to ask for where every `num_sync` fits in the byte. -/
  full : ∀ mode p, (∀ i conf, config[i]? = some conf → conf.syncrepMethod = .quorum →
      conf.numSync % 256 ≤ reporting ctl conf i mode p) →
    ∀ i conf, config[i]? = some conf → conf.syncrepMethod = .quorum → conf.numSync ≤ reporting ctl conf i mode p
  unsetGroup : (∀ conf ∈ config, conf.syncrepMethod = .quorum) → ∀ mode,
    (∃ i, ∃ conf : SyncRepConfigData, config[i]? = some conf ∧ reporting ctl conf i mode 1 < conf.numSync % 256) →
    ∀ last, config[config.length - 1]? = some last →
      reporting ctl last (config.length - 1) mode 1 < last.numSync % 256
  unsetStandby : ∀ conf : SyncRepConfigData, config = [conf] → conf.syncrepMethod = .priority → ∀ mode,
    (∃ s ∈ syncRepGetSyncStandbysInGroup ctl conf 0, s.ptrs.get mode = InvalidXLogRecPtr) →
    ∀ last, (syncRepGetSyncStandbysInGroup ctl conf 0).getLast? = some last →
      last.ptrs.get mode = InvalidXLogRecPtr

section Candidates

variable {ctl : WalSndCtl} {config : List SyncRepConfigData} {conf : SyncRepConfigData} {i : ℕ}
  {mode : SyncRepWaitMode} {p : XLogRecPtr}

variable {s : SyncRepStandbyData}

lemma candidates_group (h : s ∈ candidates ctl conf i) : s.syncStandbyGroup = i := by
  obtain ⟨x, hx, rfl⟩ := List.mem_map.1 h
  have hcand := (List.mem_filter.1 hx).2
  simp only [syncCandidate, Bool.and_eq_true, decide_eq_true_eq] at hcand
  exact hcand.1.1.1.2

lemma priorityBefore_irrefl (s : SyncRepStandbyData) : priorityBefore s s = false := by
  simp [priorityBefore]

lemma priorityBefore_asymm (s s' : SyncRepStandbyData) (h : priorityBefore s s') : priorityBefore s' s = false := by
  simp only [priorityBefore, Bool.or_eq_true, Bool.and_eq_true, decide_eq_true_eq] at h
  simp only [priorityBefore, Bool.or_eq_false_iff, Bool.and_eq_false_iff, decide_eq_false_iff_not]
  omega

lemma candidates_index : (candidates ctl conf i).Pairwise fun s s' => s.walsndIndex ≠ s'.walsndIndex := by
  refine List.pairwise_map.2 (List.Pairwise.filter _ ?_)
  have hnodup := List.nodup_range' (s := 0) (n := ctl.walsnds.length)
  rw [← List.zipIdx_map_snd] at hnodup
  exact List.pairwise_map.1 hnodup

/-- The candidates sorted by priority number, ties by the place in the array. -/
lemma sorted_candidates :
    ((candidates ctl conf i).mergeSort fun s s' => !priorityBefore s' s).Pairwise fun s s' => priorityBefore s s' := by
  have hsort : ((candidates ctl conf i).mergeSort fun s s' => !priorityBefore s' s).Pairwise
      fun s s' => !priorityBefore s' s := by
    refine List.pairwise_mergeSort (fun a b c => ?_) (fun a b => ?_) _
    · simp only [priorityBefore, Bool.not_eq_true', Bool.or_eq_false_iff, Bool.and_eq_false_iff,
        decide_eq_false_iff_not]
      omega
    · simp only [priorityBefore, Bool.or_eq_true, Bool.not_eq_true', Bool.or_eq_false_iff, Bool.and_eq_false_iff,
        decide_eq_false_iff_not]
      omega
  have hindex : ((candidates ctl conf i).mergeSort fun s s' => !priorityBefore s' s).Pairwise
      fun s s' => s.walsndIndex ≠ s'.walsndIndex :=
    (List.mergeSort_perm _ _).symm.pairwise candidates_index fun h => h.symm
  refine (hsort.and hindex).imp ?_
  rintro s s' ⟨hle, hne⟩
  simp only [priorityBefore, Bool.not_eq_true', Bool.or_eq_false_iff, Bool.and_eq_false_iff,
    decide_eq_false_iff_not] at hle
  simp only [priorityBefore, Bool.or_eq_true, Bool.and_eq_true, decide_eq_true_eq]
  omega

lemma inGroup_eq : syncRepGetSyncStandbysInGroup ctl conf i =
    if conf.syncrepMethod = .priority ∧ conf.numSync < (candidates ctl conf i).length then
      ((candidates ctl conf i).mergeSort fun s s' => !priorityBefore s' s).take conf.numSync
    else candidates ctl conf i :=
  rfl

lemma inGroup_quorum (hconf : conf.syncrepMethod = .quorum) :
    syncRepGetSyncStandbysInGroup ctl conf i = candidates ctl conf i :=
  if_neg fun h => by simp [hconf] at h

lemma mem_candidates_of_inGroup (h : s ∈ syncRepGetSyncStandbysInGroup ctl conf i) : s ∈ candidates ctl conf i := by
  rw [inGroup_eq] at h
  split at h
  · exact List.mem_mergeSort.1 (List.mem_of_mem_take h)
  · exact h

lemma length_inGroup_le : (syncRepGetSyncStandbysInGroup ctl conf i).length ≤ (candidates ctl conf i).length := by
  rw [inGroup_eq]
  split
  · rename_i h
    rw [List.length_take, List.length_mergeSort]
    exact min_le_right _ _
  · exact le_rfl

section

variable (hconf : conf.syncrepMethod = .priority)
  (hlen : conf.numSync ≤ (syncRepGetSyncStandbysInGroup ctl conf i).length)
include hconf hlen

/-- The standbys that stay are the ones with fewer than `num_sync` before them. -/
lemma mem_inGroup_iff :
    s ∈ syncRepGetSyncStandbysInGroup ctl conf i ↔ s ∈ candidates ctl conf i ∧
      (candidates ctl conf i).countP (fun s' => priorityBefore s' s) < conf.numSync := by
  rw [inGroup_eq] at hlen ⊢
  split
  · rw [mem_take_iff_countP_lt priorityBefore_irrefl priorityBefore_asymm sorted_candidates, List.mem_mergeSort,
      (List.mergeSort_perm _ _).countP_eq]
  · rename_i hall
    rw [if_neg hall] at hlen
    have hlen : conf.numSync = (candidates ctl conf i).length :=
      hlen.antisymm (not_lt.1 fun hlt => hall ⟨hconf, hlt⟩)
    rw [hlen]
    refine ⟨fun hs => ⟨hs, ?_⟩, And.left⟩
    -- the standby is not before itself
    exact List.countP_lt_length_iff.2 ⟨s, hs, priorityBefore_irrefl s⟩

lemma groupReached_priority_iff :
    GroupReached ctl conf i mode p ↔ ∀ s ∈ syncRepGetSyncStandbysInGroup ctl conf i, p ≤ s.ptrs.get mode := by
  simp only [GroupReached, hconf, mem_inGroup_iff hconf hlen]
  constructor
  · rintro ⟨-, h⟩ s ⟨hs, hlt⟩
    exact h s hs hlt
  · intro h
    exact ⟨hlen.trans length_inGroup_le, fun s hs hlt => h s ⟨hs, hlt⟩⟩

end

lemma groupReached_quorum_iff (hconf : conf.syncrepMethod = .quorum) :
    GroupReached ctl conf i mode p ↔ conf.numSync ≤ reporting ctl conf i mode p := by
  simp only [GroupReached, hconf, reporting]

lemma reporting_anti {p q : XLogRecPtr} (h : p ≤ q) : reporting ctl conf i mode q ≤ reporting ctl conf i mode p := by
  refine List.countP_mono_left fun s _ hs => ?_
  exact decide_eq_true (h.trans (of_decide_eq_true hs))

lemma reporting_zero : reporting ctl conf i mode 0 = (candidates ctl conf i).length := by
  simp [reporting]

/-- The standbys of one group in the array that all groups share. -/
lemma filter_group (h : config[i]? = some conf) :
    (syncRepGetSyncStandbys ctl config).filter (fun s => s.syncStandbyGroup = i) =
      syncRepGetSyncStandbysInGroup ctl conf i := by
  have hone : ∀ x : SyncRepConfigData × ℕ,
      (syncRepGetSyncStandbysInGroup ctl x.1 x.2).filter (fun s => s.syncStandbyGroup = i) =
        if x.2 = 0 + i then syncRepGetSyncStandbysInGroup ctl x.1 x.2 else [] := by
    intro x
    split
    · rename_i hx
      refine List.filter_eq_self.2 fun s hs => decide_eq_true ?_
      rw [candidates_group (mem_candidates_of_inGroup hs), hx, Nat.zero_add]
    · rename_i hx
      refine List.filter_eq_nil_iff.2 fun s hs hgroup => hx ?_
      rw [← candidates_group (mem_candidates_of_inGroup hs), of_decide_eq_true hgroup, Nat.zero_add]
  rw [syncRepGetSyncStandbys, List.filter_flatMap]
  simp only [hone]
  rw [flatMap_zipIdx_single h, Nat.zero_add]

lemma Requested.length (hreq : Requested ctl config) (h : config[i]? = some conf) :
    conf.numSync ≤ (syncRepGetSyncStandbysInGroup ctl conf i).length := by
  have hcheck := hreq.2
  unfold checkSyncStandbysNum at hcheck
  rw [if_neg hreq.1] at hcheck
  split at hcheck
  · cases hcheck
  · split at hcheck
    · cases hcheck
    · rename_i hfew
      rw [← filter_group h, ← List.countP_eq_length_filter]
      by_contra hlt
      exact hfew (List.any_eq_true.2 ⟨(conf, i), by simpa [List.mem_zipIdx_iff_getElem?] using h,
        decide_eq_true (not_le.1 hlt)⟩)

lemma Requested.ne_nil (hreq : Requested ctl config) : syncRepGetSyncStandbys ctl config ≠ [] := by
  intro hnil
  have hcheck := hreq.2
  rw [hnil, checkSyncStandbysNum, if_neg hreq.1, if_pos rfl] at hcheck
  cases hcheck

lemma reached_lower : IsLowerSet (reached ctl config mode) := by
  intro q p hpq hq i conf h
  have hq := hq i conf h
  unfold GroupReached at hq ⊢
  cases hconf : conf.syncrepMethod with
  | priority =>
    simp only [hconf] at hq
    exact ⟨hq.1, fun s hs hlt => hpq.trans (hq.2 s hs hlt)⟩
  | quorum =>
    simp only [hconf] at hq
    exact hq.trans (reporting_anti hpq)

lemma Requested.zero_mem (hreq : Requested ctl config) : 0 ∈ reached ctl config mode := by
  intro i conf h
  have hlen := (hreq.length h).trans length_inGroup_le
  unfold GroupReached
  cases hconf : conf.syncrepMethod with
  | priority => exact ⟨hlen, fun s _ _ => Nat.zero_le _⟩
  | quorum => exact hlen.trans_eq reporting_zero.symm

end Candidates

section Positions

variable {ctl : WalSndCtl} {config : List SyncRepConfigData} {conf : SyncRepConfigData} {info : LocalInfo} {i : ℕ}
  {mode : SyncRepWaitMode} {p : XLogRecPtr}

lemma oldestSyncRecPtr_eq (acc : XLogRecPtr) (ptrs : List XLogRecPtr) :
    oldestSyncRecPtr acc ptrs = ptrs.foldl keepLeast acc := by
  have hstep : (fun acc ptr : XLogRecPtr => if acc = InvalidXLogRecPtr ∨ ¬ acc ≤ ptr then ptr else acc) =
    keepLeast := by
    funext acc ptr
    unfold keepLeast
    by_cases hacc : acc = InvalidXLogRecPtr
    · rw [if_pos (Or.inl hacc)]
      exact (if_pos (Or.inl hacc)).symm
    · by_cases hle : acc ≤ ptr
      · rw [if_neg (not_or.2 ⟨hacc, not_not.2 hle⟩)]
        split
        · rename_i h
          exact hle.antisymm (h.resolve_left hacc)
        · rfl
      · rw [if_pos (Or.inr hle), if_pos (Or.inr (not_le.1 hle).le)]
  rw [oldestSyncRecPtr, hstep]

/-- The position of a quorum group, as `SyncRepGetNthLatestSyncRecPtr` finds it in a written array. -/
def nthLatest (ctl : WalSndCtl) (conf : SyncRepConfigData) (groupid : ℕ) (mode : SyncRepWaitMode) : XLogRecPtr :=
  (((candidates ctl conf groupid).map fun s => s.ptrs.get mode).mergeSort fun a b => b ≤ a).getD
    (conf.numSync % 256 - 1) InvalidXLogRecPtr

/-- The positions of all groups, when all are quorum groups. -/
def groupPositions (ctl : WalSndCtl) (config : List SyncRepConfigData) (mode : SyncRepWaitMode) : List XLogRecPtr :=
  config.zipIdx.map fun x => nthLatest ctl x.1 x.2 mode

/-- The index that `num_sync` gives is inside the sorted positions. -/
lemma mod_lt_sorted (mode : SyncRepWaitMode) (hnth : conf.numSync % 256 ≠ 0)
    (hlen : conf.numSync ≤ (candidates ctl conf i).length) : conf.numSync % 256 - 1 <
      (((candidates ctl conf i).map fun s => s.ptrs.get mode).mergeSort fun a b => b ≤ a).length := by
  have hle := Nat.mod_le conf.numSync 256
  rw [List.length_mergeSort, List.length_map]
  omega

lemma le_nthLatest_iff (hnth : conf.numSync % 256 ≠ 0) (hlen : conf.numSync ≤ (candidates ctl conf i).length) :
    p ≤ nthLatest ctl conf i mode ↔ conf.numSync % 256 ≤ reporting ctl conf i mode p := by
  have hsort : (((candidates ctl conf i).map fun s => s.ptrs.get mode).mergeSort fun a b : ℕ => b ≤ a).Pairwise
      fun a b : ℕ => decide (b ≤ a) := by
    refine List.pairwise_mergeSort (fun a b c => ?_) (fun a b => ?_) _
    · simp only [decide_eq_true_eq]
      omega
    · simp only [Bool.or_eq_true, decide_eq_true_eq]
      omega
  have hle := Nat.mod_le conf.numSync 256
  have hn := mod_lt_sorted mode hnth hlen
  have hcount : ((((candidates ctl conf i).map fun s => s.ptrs.get mode).mergeSort fun a b => b ≤ a).countP
      fun x => decide (p ≤ x)) = reporting ctl conf i mode p := by
    rw [(List.mergeSort_perm _ _).countP_eq, List.countP_map]
    rfl
  rw [nthLatest, List.getD_eq_getElem _ _ hn,
    le_getElem_iff_lt_countP hn (hsort.imp fun h => of_decide_eq_true h), hcount]
  omega

lemma lsnArray_written {group : List SyncRepStandbyData} (h : ∀ s ∈ group, s.isCrossCluster = false) :
    qsortLsn (lsnArray group mode) = some ((group.map fun s => s.ptrs.get mode).mergeSort fun a b => b ≤ a) := by
  have hall : (group.filter fun s => !s.isCrossCluster) = group :=
    List.filter_eq_self.2 fun s hs => by simp [h s hs]
  have hmap : ∀ l : List SyncRepStandbyData,
      (l.map fun s => some (s.ptrs.get mode)).mapM id = some (l.map fun s => s.ptrs.get mode) := by
    intro l
    induction l with
    | nil => rfl
    | cons s l ih => simp [ih]
  simp only [qsortLsn, lsnArray, hall, List.length_map, Nat.sub_self, List.replicate_zero, List.append_nil, hmap,
    Option.map_some]

lemma lsnArray_unwritten {group : List SyncRepStandbyData} {s : SyncRepStandbyData} (hs : s ∈ group)
    (hcross : s.isCrossCluster = true) : qsortLsn (lsnArray group mode) = none := by
  have hfew : (group.filter fun s => !s.isCrossCluster).length < group.length :=
    List.length_filter_lt_length_iff_exists.2 ⟨s, hs, by simp [hcross]⟩
  have hnone : none ∈ lsnArray group mode := by
    refine List.mem_append_right _ (List.mem_replicate.2 ⟨?_, rfl⟩)
    rw [List.length_map]
    omega
  have hfail : ∀ l : List (Option XLogRecPtr), none ∈ l → l.mapM id = none := by
    intro l hl
    induction l with
    | nil => cases hl
    | cons x l ih =>
      cases x with
      | none => rfl
      | some x =>
        have hl : none ∈ l := by simpa using hl
        simp [ih hl]
  rw [qsortLsn, hfail _ hnone]
  rfl

/-- A group whose array is written in full lowers each position to its own. -/
lemma nthStep_written (acc : RecPtrs) (h : config[i]? = some conf) (hconf : conf.syncrepMethod = .quorum)
    (hwritten : ∀ s ∈ candidates ctl conf i, s.isCrossCluster = false) (hnth : conf.numSync % 256 ≠ 0)
    (hlen : conf.numSync ≤ (candidates ctl conf i).length) :
    syncRepGetNthLatestSyncRecPtr false acc (syncRepGetSyncStandbys ctl config) i (conf.numSync % 256) =
      some (.ofMode fun mode => keepLeast (acc.get mode) (nthLatest ctl conf i mode)) := by
  have hone : ∀ mode, nthLatestSyncRecPtr (acc.get mode) (lsnArray (candidates ctl conf i) mode) (conf.numSync % 256) =
      some (keepLeast (acc.get mode) (nthLatest ctl conf i mode)) := by
    intro mode
    have hn := mod_lt_sorted mode hnth hlen
    simp only [nthLatestSyncRecPtr, lsnArray_written hwritten, Option.bind_eq_bind, Option.bind_some, if_neg hnth,
      List.getElem?_eq_getElem hn, nthLatest, List.getD_eq_getElem _ _ hn]
    rfl
  have hrec := hone .receive
  have hwrite := hone .write
  have hflush := hone .flush
  have happly := hone .apply
  simp only [RecPtrs.get] at hrec hwrite hflush happly
  simp only [syncRepGetNthLatestSyncRecPtr, filter_group h, inGroup_quorum hconf, Bool.false_eq_true, false_and,
    if_false, hrec, hwrite, hflush, happly, Option.bind_eq_bind, Option.bind_some]
  rfl

lemma nthStep_unwritten (acc : RecPtrs) (h : config[i]? = some conf) (hconf : conf.syncrepMethod = .quorum)
    (hbad : (∃ s ∈ candidates ctl conf i, s.isCrossCluster = true) ∨ conf.numSync % 256 = 0) :
    syncRepGetNthLatestSyncRecPtr false acc (syncRepGetSyncStandbys ctl config) i (conf.numSync % 256) = none := by
  have hone : nthLatestSyncRecPtr acc.receive (lsnArray (candidates ctl conf i) .receive) (conf.numSync % 256) =
    none := by
    rcases hbad with ⟨s, hs, hcross⟩ | hnth
    · rw [nthLatestSyncRecPtr, lsnArray_unwritten hs hcross]
      rfl
    · rw [nthLatestSyncRecPtr, hnth]
      cases qsortLsn (lsnArray (candidates ctl conf i) .receive) <;> rfl
  simp only [syncRepGetNthLatestSyncRecPtr, filter_group h, inGroup_quorum hconf, Bool.false_eq_true, false_and,
    if_false, hone, Option.bind_eq_bind, Option.bind_none]

lemma foldlM_some {α β : Type} {step : β → α → Option β} {g : β → α → β} : ∀ {l : List α} {acc : β},
    (∀ acc, ∀ x ∈ l, step acc x = some (g acc x)) → l.foldlM step acc = some (l.foldl g acc)
  | [], _, _ => rfl
  | x :: l, acc, h => by
    rw [List.foldlM_cons, h acc x List.mem_cons_self, Option.bind_eq_bind, Option.bind_some,
      foldlM_some fun acc x hx => h acc x (List.mem_cons_of_mem _ hx), List.foldl_cons]

lemma foldlM_none {α β : Type} {step : β → α → Option β} {x : α} : ∀ {l : List α} {acc : β}, x ∈ l →
    (∀ acc, step acc x = none) → l.foldlM step acc = none
  | y :: l, acc, hx, h => by
    rw [List.foldlM_cons]
    rcases List.mem_cons.1 hx with rfl | hx
    · rw [h acc]
      rfl
    · cases step acc y with
      | none => rfl
      | some acc' => exact foldlM_none hx h

lemma foldl_get (f : SyncRepConfigData × ℕ → SyncRepWaitMode → XLogRecPtr) (mode : SyncRepWaitMode) :
    ∀ (l : List (SyncRepConfigData × ℕ)) (acc : RecPtrs),
      (l.foldl (fun acc x => .ofMode fun mode => keepLeast (acc.get mode) (f x mode)) acc).get mode =
        (l.map fun x => f x mode).foldl keepLeast (acc.get mode)
  | [], _ => rfl
  | x :: l, acc => by
    rw [List.foldl_cons, foldl_get f mode l, RecPtrs.get_ofMode, List.map_cons, List.foldl_cons]

end Positions

section Exact

variable {ctl : WalSndCtl} {config : List SyncRepConfigData} {conf : SyncRepConfigData} {info : LocalInfo} {i : ℕ}
  {mode : SyncRepWaitMode} {p : XLogRecPtr} {pgStrcasecmp : String → String → Bool}

/-- An accepted configuration is one priority group or has quorum groups only. -/
lemma transform_methods (h : transformSynchronousStandbyNames pgStrcasecmp config = some config) :
    (∀ conf ∈ config, conf.syncrepMethod = .quorum) ∨ ∃ conf, config = [conf] ∧ conf.syncrepMethod = .priority := by
  by_contra hne
  rw [not_or] at hne
  obtain ⟨hprio, hone⟩ := hne
  push Not at hprio
  obtain ⟨conf, hmem, hmethod⟩ := hprio
  have hmethod : conf.syncrepMethod = .priority := by
    cases hconf : conf.syncrepMethod with
    | priority => rfl
    | quorum => exact absurd hconf hmethod
  have hlong : 1 < config.length := by
    match config, hmem, hone with
    | [c], hmem, hone => exact absurd ⟨c, rfl, List.mem_singleton.1 hmem ▸ hmethod⟩ hone
    | _ :: _ :: _, _, _ => simp
  unfold transformSynchronousStandbyNames at h
  split at h
  · cases h
  · rw [foldlM_none hmem fun existers => if_pos ⟨hmethod, hlong⟩] at h
    cases h

lemma syncPositions_quorum (hmost : ctl.mostAvailableSync = false) (hreq : Requested ctl config)
    (hall : ∀ conf ∈ config, conf.syncrepMethod = .quorum)
    (hwritten : ∀ i conf, config[i]? = some conf → conf.syncrepMethod = .quorum →
      ∀ s ∈ candidates ctl conf i, s.isCrossCluster = false)
    (hcounted : ∀ (i : ℕ) (conf : SyncRepConfigData), config[i]? = some conf → conf.syncrepMethod = .quorum →
      conf.numSync % 256 ≠ 0) :
    ∃ ptrs, syncPositions ctl config (syncRepGetSyncStandbys ctl config) = some ptrs ∧
      ∀ mode, ptrs.get mode =
        (groupPositions ctl config mode).foldl keepLeast InvalidXLogRecPtr := by
  refine ⟨config.zipIdx.foldl (fun acc x => .ofMode fun mode => keepLeast (acc.get mode) (nthLatest ctl x.1 x.2 mode))
    (.ofMode fun _ => InvalidXLogRecPtr), foldlM_some fun acc x hx => ?_, fun mode => ?_⟩
  · have h : config[x.2]? = some x.1 := List.mem_zipIdx_iff_getElem?.1 hx
    have hconf := hall x.1 (List.mem_of_getElem? h)
    have hlen := (hreq.length h).trans length_inGroup_le
    simp only [hconf, hmost, nthStep_written acc h hconf (hwritten _ _ h hconf) (hcounted _ _ h hconf) hlen]
  · rw [foldl_get (fun x mode => nthLatest ctl x.1 x.2 mode), RecPtrs.get_ofMode]
    rfl

lemma syncPositions_none (hmost : ctl.mostAvailableSync = false) (h : config[i]? = some conf)
    (hconf : conf.syncrepMethod = .quorum)
    (hbad : (∃ s ∈ candidates ctl conf i, s.isCrossCluster = true) ∨ conf.numSync % 256 = 0) :
    syncPositions ctl config (syncRepGetSyncStandbys ctl config) = none := by
  have hx : (conf, i) ∈ config.zipIdx := List.mem_zipIdx_iff_getElem?.2 h
  refine foldlM_none hx fun acc => ?_
  simp only [hconf, hmost, nthStep_unwritten acc h hconf hbad]

lemma syncPositions_priority (ctl : WalSndCtl) (hconf : conf.syncrepMethod = .priority) :
    ∃ ptrs, syncPositions ctl [conf] (syncRepGetSyncStandbys ctl [conf]) = some ptrs ∧
      ∀ mode, ptrs.get mode =
        ((syncRepGetSyncStandbysInGroup ctl conf 0).map fun s => s.ptrs.get mode).foldl keepLeast
          InvalidXLogRecPtr := by
  have h : [conf][0]? = some conf := rfl
  refine ⟨syncRepGetOldestSyncRecPtr (.ofMode fun _ => InvalidXLogRecPtr) (syncRepGetSyncStandbys ctl [conf]) 0, ?_,
    fun mode => ?_⟩
  · simp [syncPositions, hconf]
  · simp only [syncRepGetOldestSyncRecPtr, RecPtrs.get_ofMode, filter_group h, oldestSyncRecPtr_eq]

/-- What the callers see is the four positions, and the released waiters follow from them. -/
lemma quorumExact_iff_positions (hreq : Requested ctl config) :
    QuorumExact ctl config info ↔
      ∃ ptrs, syncPositions ctl config (syncRepGetSyncStandbys ctl config) = some ptrs ∧
        ∀ mode, IsGreatest (reached ctl config mode) (ptrs.get mode) := by
  have hjudge : judgeSyncStandbysNum ctl info .enough = true := rfl
  constructor
  · intro h
    obtain ⟨out, hout, hgreatest⟩ := h.positions false
    simp only [syncRepGetSyncRecPtr, hreq.2, hreq.1, hjudge, Bool.and_false, Bool.not_true, Bool.false_eq_true,
      or_self, if_false, reduceCtorEq, Option.map_eq_some_iff] at hout
    obtain ⟨ptrs, hptrs, rfl⟩ := hout
    exact ⟨ptrs, hptrs, hgreatest rfl⟩
  · rintro ⟨ptrs, hptrs, hgreatest⟩
    have hpositions : ∀ checkAmSync, ∃ out, syncRepGetSyncRecPtr ctl config info checkAmSync = some out ∧
        (out.got = true → ∀ mode, IsGreatest (reached ctl config mode) (out.ptrs.get mode)) := by
      intro checkAmSync
      unfold syncRepGetSyncRecPtr
      dsimp only
      split
      · exact ⟨_, rfl, fun h => nomatch h⟩
      · rw [hreq.2, if_neg (by decide), hptrs]
        exact ⟨_, rfl, fun _ => hgreatest⟩
    refine ⟨hpositions, ?_⟩
    unfold syncRepReleaseWaiters
    dsimp only
    split
    · exact ⟨_, rfl, fun mode hne => absurd rfl hne⟩
    · obtain ⟨out, hout, hgreatest⟩ := hpositions true
      rw [hout, Option.bind_eq_bind, Option.bind_some]
      split
      · exact ⟨_, rfl, fun mode hne => absurd rfl hne⟩
      · rename_i hgot
        have hgot : out.got = true := by
          by_contra hfalse
          exact hgot (Or.inl (by simp [hfalse]))
        refine ⟨_, rfl, fun mode hne => ?_⟩
        rw [RecPtrs.get_ofMode] at hne ⊢
        split at hne
        · rename_i hlt
          rw [if_pos hlt]
          exact ⟨hlt, (hgreatest hgot mode).1⟩
        · exact absurd rfl hne

/-- Without the standbys asked for nothing is returned and nobody is released. -/
lemma quorumExact_of_not_requested (hmost : ctl.mostAvailableSync = false) (hreq : ¬ Requested ctl config) :
    QuorumExact ctl config info := by
  have hfalse : ∀ checkAmSync, syncRepGetSyncRecPtr ctl config info checkAmSync =
      some ⟨false, .ofMode fun _ => InvalidXLogRecPtr, (syncRepGetSyncStandbys ctl config).any fun s => s.isMe⟩ := by
    intro checkAmSync
    refine if_pos (Or.inr ?_)
    by_cases hnil : config = []
    · exact Or.inl hnil
    · refine Or.inr ?_
      have hne : checkSyncStandbysNum config (syncRepGetSyncStandbys ctl config) ≠ .enough := fun h => hreq ⟨hnil, h⟩
      simp [judgeSyncStandbysNum, hne, hmost]
  refine ⟨fun checkAmSync => ⟨_, hfalse checkAmSync, fun h => nomatch h⟩, ctl.lsn, ?_, fun mode hne => absurd rfl hne⟩
  unfold syncRepReleaseWaiters
  rw [hfalse true]
  simp

/-! ### Quorum groups -/

lemma nthLatest_eq_bot_iff (hnth : conf.numSync % 256 ≠ 0) (hlen : conf.numSync ≤ (candidates ctl conf i).length) :
    nthLatest ctl conf i mode = ⊥ ↔ reporting ctl conf i mode 1 < conf.numSync % 256 := by
  rw [← not_le, ← le_nthLatest_iff hnth hlen, not_le]
  generalize nthLatest ctl conf i mode = v
  exact Nat.lt_one_iff.symm

section Groups

variable (hreq : Requested ctl config) (hall : ∀ conf ∈ config, conf.syncrepMethod = .quorum)
  (hcounted : ∀ (i : ℕ) (conf : SyncRepConfigData), config[i]? = some conf → conf.syncrepMethod = .quorum →
    conf.numSync % 256 ≠ 0)

include hall in
lemma mem_reached_iff : p ∈ reached ctl config mode ↔ ∀ (i : ℕ) (conf : SyncRepConfigData), config[i]? = some conf →
    conf.numSync ≤ reporting ctl conf i mode p :=
  forall₃_congr fun _ _ h => groupReached_quorum_iff (hall _ (List.mem_of_getElem? h))

include hreq hall hcounted

lemma le_positions_iff : (∀ v ∈ groupPositions ctl config mode, p ≤ v) ↔
    ∀ (i : ℕ) (conf : SyncRepConfigData), config[i]? = some conf →
      conf.numSync % 256 ≤ reporting ctl conf i mode p := by
  have hle : ∀ {i : ℕ} {conf : SyncRepConfigData}, config[i]? = some conf →
      (p ≤ nthLatest ctl conf i mode ↔ conf.numSync % 256 ≤ reporting ctl conf i mode p) := fun h =>
    le_nthLatest_iff (hcounted _ _ h (hall _ (List.mem_of_getElem? h))) ((hreq.length h).trans length_inGroup_le)
  rw [groupPositions, List.forall_mem_map]
  constructor
  · intro h i conf hi
    exact (hle hi).1 (h (conf, i) (List.mem_zipIdx_iff_getElem?.2 hi))
  · rintro h ⟨conf, i⟩ hx
    have hi := List.mem_zipIdx_iff_getElem?.1 hx
    exact (hle hi).2 (h i conf hi)

lemma bot_mem_positions_iff : ⊥ ∈ groupPositions ctl config mode ↔
    ∃ i, ∃ conf : SyncRepConfigData, config[i]? = some conf ∧
      reporting ctl conf i mode 1 < conf.numSync % 256 := by
  have hbot : ∀ {i : ℕ} {conf : SyncRepConfigData}, config[i]? = some conf →
      (nthLatest ctl conf i mode = ⊥ ↔ reporting ctl conf i mode 1 < conf.numSync % 256) := fun h =>
    nthLatest_eq_bot_iff (hcounted _ _ h (hall _ (List.mem_of_getElem? h))) ((hreq.length h).trans length_inGroup_le)
  rw [groupPositions, List.mem_map]
  constructor
  · rintro ⟨⟨conf, i⟩, hx, hv⟩
    have hi := List.mem_zipIdx_iff_getElem?.1 hx
    exact ⟨i, conf, hi, (hbot hi).1 hv⟩
  · rintro ⟨i, conf, hi, hlt⟩
    exact ⟨(conf, i), List.mem_zipIdx_iff_getElem?.2 hi, (hbot hi).2 hlt⟩

lemma last_positions_iff (hne : (groupPositions ctl config mode) ≠ []) :
    (groupPositions ctl config mode).getLast hne = ⊥ ↔
      ∀ last, config[config.length - 1]? = some last →
        reporting ctl last (config.length - 1) mode 1 < last.numSync % 256 := by
  have hlen : config.length - 1 < config.length := Nat.sub_one_lt (List.length_pos_iff.2 hreq.1).ne'
  obtain ⟨last, hlast⟩ : ∃ last, config[config.length - 1]? = some last := ⟨_, List.getElem?_eq_getElem hlen⟩
  have hval : (groupPositions ctl config mode).getLast hne =
      nthLatest ctl last (config.length - 1) mode := by
    simp only [groupPositions, List.getLast_eq_getElem, List.getElem_map, List.getElem_zipIdx, List.length_map,
      List.length_zipIdx, Nat.zero_add]
    rw [(List.getElem_eq_iff _).2 hlast]
  have hnth := hcounted _ _ hlast (hall _ (List.mem_of_getElem? hlast))
  have hbot : nthLatest ctl last (config.length - 1) mode = ⊥ ↔
      reporting ctl last (config.length - 1) mode 1 < last.numSync % 256 :=
    nthLatest_eq_bot_iff hnth ((hreq.length hlast).trans length_inGroup_le)
  rw [hval, hbot]
  constructor
  · intro h last' heq
    cases hlast.symm.trans heq
    exact h
  · intro h
    exact h _ hlast

/-- One mode, when every array is written: the last group stands for the unset ones, and no group is cut short. -/
lemma isGreatest_positions_iff :
    IsGreatest (reached ctl config mode)
        ((groupPositions ctl config mode).foldl keepLeast InvalidXLogRecPtr) ↔
      ((∃ i, ∃ conf : SyncRepConfigData, config[i]? = some conf ∧
          reporting ctl conf i mode 1 < conf.numSync % 256) →
        ∀ last, config[config.length - 1]? = some last →
          reporting ctl last (config.length - 1) mode 1 < last.numSync % 256) ∧
      ∀ p, (∀ (i : ℕ) (conf : SyncRepConfigData), config[i]? = some conf →
          conf.numSync % 256 ≤ reporting ctl conf i mode p) →
        ∀ (i : ℕ) (conf : SyncRepConfigData), config[i]? = some conf →
          conf.numSync ≤ reporting ctl conf i mode p := by
  have hne : (groupPositions ctl config mode) ≠ [] := fun h =>
    hreq.1 (List.zipIdx_eq_nil_iff.1 (List.map_eq_nil_iff.1 h))
  refine (isGreatest_foldl_keepLeast_iff hne reached_lower ⟨0, hreq.zero_mem⟩ fun p hp => ?_).trans ?_
  · refine (le_positions_iff hreq hall hcounted).2 fun i conf h => ?_
    exact (Nat.mod_le _ _).trans ((mem_reached_iff hall).1 hp i conf h)
  · exact and_congr
      (imp_congr (bot_mem_positions_iff hreq hall hcounted) (last_positions_iff hreq hall hcounted hne))
      (forall_congr' fun p => imp_congr (le_positions_iff hreq hall hcounted) (mem_reached_iff hall))

end Groups

/-- All groups are quorum groups: the positions are those of the groups, in the order of the configuration. -/
lemma exact_quorum (hmost : ctl.mostAvailableSync = false) (hreq : Requested ctl config)
    (hall : ∀ conf ∈ config, conf.syncrepMethod = .quorum) :
    QuorumExact ctl config info ↔ PositionsSettled ctl config := by
  rw [quorumExact_iff_positions hreq]
  have hquorum : ∀ {i : ℕ} {conf : SyncRepConfigData}, config[i]? = some conf → conf.syncrepMethod = .quorum :=
    fun h => hall _ (List.mem_of_getElem? h)
  by_cases hdef : (∀ i conf, config[i]? = some conf → conf.syncrepMethod = .quorum →
      ∀ s ∈ candidates ctl conf i, s.isCrossCluster = false) ∧
      ∀ (i : ℕ) (conf : SyncRepConfigData), config[i]? = some conf → conf.syncrepMethod = .quorum →
        conf.numSync % 256 ≠ 0
  · obtain ⟨hwritten, hcounted⟩ := hdef
    obtain ⟨ptrs, hptrs, hget⟩ := syncPositions_quorum hmost hreq hall hwritten hcounted
    constructor
    · rintro ⟨out, hout, hgreatest⟩
      obtain rfl : ptrs = out := Option.some.inj (hptrs.symm.trans hout)
      have hone := fun mode => (isGreatest_positions_iff hreq hall hcounted).1 (hget mode ▸ hgreatest mode)
      refine ⟨hwritten, hcounted, fun mode p hp i conf h _ => ?_, fun _ mode => (hone mode).1, ?_⟩
      · exact (hone mode).2 p (fun i conf h => hp i conf h (hquorum h)) i conf h
      · rintro conf rfl hprio
        rw [hall conf List.mem_cons_self] at hprio
        cases hprio
    · intro h
      refine ⟨ptrs, hptrs, fun mode => ?_⟩
      rw [hget mode, isGreatest_positions_iff hreq hall hcounted]
      refine ⟨h.unsetGroup hall mode, fun p hp i conf hi => ?_⟩
      exact h.full mode p (fun i conf hi _ => hp i conf hi) i conf hi (hquorum hi)
  · -- an array with an unwritten entry, or no entry asked for: there is no result
    have hbad : ∃ i conf, config[i]? = some conf ∧ conf.syncrepMethod = .quorum ∧
        ((∃ s ∈ candidates ctl conf i, s.isCrossCluster = true) ∨ conf.numSync % 256 = 0) := by
      by_contra hgood
      push Not at hgood
      refine hdef ⟨fun i conf h hconf s hs => ?_, fun i conf h hconf => (hgood i conf h hconf).2⟩
      simpa using (hgood i conf h hconf).1 s hs
    obtain ⟨i, conf, h, hconf, hbad⟩ := hbad
    constructor
    · rintro ⟨ptrs, hptrs, -⟩
      rw [syncPositions_none hmost h hconf hbad] at hptrs
      cases hptrs
    · intro hset
      exact absurd ⟨hset.written, hset.counted⟩ hdef

/-- One priority group: the positions are those of the chosen standbys, in the order of their array. -/
lemma exact_priority (hconf : conf.syncrepMethod = .priority) (hreq : Requested ctl [conf]) :
    QuorumExact ctl [conf] info ↔ PositionsSettled ctl [conf] := by
  rw [quorumExact_iff_positions hreq]
  obtain ⟨ptrs, hptrs, hget⟩ := syncPositions_priority ctl hconf
  have hzero : [conf][0]? = some conf := rfl
  have hreached : ∀ {mode p}, p ∈ reached ctl [conf] mode ↔
      ∀ v ∈ (syncRepGetSyncStandbysInGroup ctl conf 0).map fun s => s.ptrs.get mode, p ≤ v := by
    intro mode p
    rw [List.forall_mem_map, ← groupReached_priority_iff hconf (hreq.length hzero)]
    constructor
    · intro h
      exact h 0 conf rfl
    · intro h i c hi
      obtain ⟨rfl, rfl⟩ : i = 0 ∧ c = conf := by
        cases i with
        | zero => exact ⟨rfl, (Option.some.inj hi).symm⟩
        | succ i => simp at hi
      exact h
  have hne : syncRepGetSyncStandbysInGroup ctl conf 0 ≠ [] := by
    have := hreq.ne_nil
    simpa [syncRepGetSyncStandbys] using this
  have hmap : ∀ {mode}, ((syncRepGetSyncStandbysInGroup ctl conf 0).map fun s => s.ptrs.get mode) ≠ [] :=
    fun {mode} h => hne (List.map_eq_nil_iff.1 h)
  have hiff : ∀ mode, IsGreatest (reached ctl [conf] mode) (ptrs.get mode) ↔
      ((∃ s ∈ syncRepGetSyncStandbysInGroup ctl conf 0, s.ptrs.get mode = InvalidXLogRecPtr) →
        ∀ last, (syncRepGetSyncStandbysInGroup ctl conf 0).getLast? = some last →
          last.ptrs.get mode = InvalidXLogRecPtr) := by
    intro mode
    rw [hget mode]
    refine (isGreatest_foldl_keepLeast_iff hmap reached_lower ⟨0, hreq.zero_mem⟩ fun p hp => hreached.1 hp).trans ?_
    rw [and_iff_left fun p hp => hreached.2 hp, List.mem_map, List.getLast_map]
    refine imp_congr Iff.rfl ?_
    rw [List.getLast?_eq_some_getLast hne]
    exact ⟨fun h last heq => Option.some.inj heq ▸ h, fun h => h _ rfl⟩
  have hprio : ∀ {i : ℕ} {c : SyncRepConfigData}, [conf][i]? = some c → c.syncrepMethod ≠ .quorum := by
    intro i c h hquorum
    rw [List.mem_singleton.1 (List.mem_of_getElem? h), hconf] at hquorum
    cases hquorum
  constructor
  · rintro ⟨out, hout, hgreatest⟩
    obtain rfl : ptrs = out := Option.some.inj (hptrs.symm.trans hout)
    refine ⟨fun i c h hc => absurd hc (hprio h), fun i c h hc => absurd hc (hprio h),
      fun mode p _ i c h hc => absurd hc (hprio h), fun hall => ?_, ?_⟩
    · exact absurd (hall conf List.mem_cons_self) (hprio (i := 0) rfl)
    · intro c hc _ mode
      obtain rfl : conf = c := List.singleton_inj.1 hc
      exact (hiff mode).1 (hgreatest mode)
  · intro h
    exact ⟨ptrs, hptrs, fun mode => (hiff mode).2 (h.unsetStandby conf rfl hconf mode)⟩

/-- The positions are the greatest that every group has reached exactly where no entry is read unwritten, no number is
cut to its byte, and the last value taken is unset where any is. -/
theorem quorum_exact_iff (hconfig : transformSynchronousStandbyNames pgStrcasecmp config = some config)
    (hmost : ctl.mostAvailableSync = false) :
    QuorumExact ctl config info ↔ (Requested ctl config → PositionsSettled ctl config) := by
  by_cases hreq : Requested ctl config
  · rw [forall_prop_of_true hreq]
    rcases transform_methods hconfig with hall | ⟨conf, rfl, hconf⟩
    · exact exact_quorum hmost hreq hall
    · exact exact_priority hconf hreq
  · exact iff_of_true (quorumExact_of_not_requested hmost hreq) fun h => absurd h hreq

end Exact

/-! ### A standby that reported nothing -/

/-- `2 (a, b)` with both standbys streaming, of which one has applied nothing or something yet. -/
def twoStandbys (applied : XLogRecPtr) : WalSndCtl :=
  { walsnds :=
      [⟨1, .streaming, .standby, ⟨100, 100, 100, applied⟩, 0, 1, false⟩,
        ⟨2, .streaming, .standby, ⟨100, 100, 100, 100⟩, 0, 2, false⟩]
    myWalSnd := ⟨0, Nat.two_pos⟩
    lsn := .ofMode fun _ => InvalidXLogRecPtr
    mostAvailableSync := false }

def twoOfTwo : List SyncRepConfigData := [⟨2, .priority, ["a", "b"]⟩]

lemma twoOfTwo_accepted : transformSynchronousStandbyNames (fun p q => p == q) twoOfTwo = some twoOfTwo := by
  decide

theorem quorum_exact_iff_ten :
    transformSynchronousStandbyNames (fun p q => p == q) twoOfTwo = some twoOfTwo ∧
      QuorumExact (twoStandbys 10) twoOfTwo ⟨false, 100, 100⟩ := by
  refine ⟨twoOfTwo_accepted, (quorum_exact_iff twoOfTwo_accepted rfl).2 fun _ => ?_⟩
  have hprio : ∀ {i : ℕ} {conf : SyncRepConfigData}, twoOfTwo[i]? = some conf → conf.syncrepMethod ≠ .quorum := by
    intro i conf h
    rw [List.mem_singleton.1 (List.mem_of_getElem? h)]
    decide
  refine ⟨fun i c h hc => absurd hc (hprio h), fun i c h hc => absurd hc (hprio h),
    fun mode p _ i c h hc => absurd hc (hprio h), fun hall => ?_, ?_⟩
  · exact absurd (hall _ List.mem_cons_self) (by decide)
  · intro conf hconf _ mode
    obtain rfl : ⟨2, .priority, ["a", "b"]⟩ = conf := List.singleton_inj.1 hconf
    rintro ⟨s, hs, hzero⟩
    exact absurd hzero (by revert s; cases mode <;> decide)

/-- The invalid position of the first standby is taken for "nothing yet", and the second standby's stays. -/
theorem quorum_unset :
    transformSynchronousStandbyNames (fun p q => p == q) twoOfTwo = some twoOfTwo ∧
      ¬ QuorumExact (twoStandbys 0) twoOfTwo ⟨false, 100, 100⟩ := by
  refine ⟨twoOfTwo_accepted, fun h => ?_⟩
  obtain ⟨lsn, hlsn, hraised⟩ := h.released
  obtain rfl : lsn = ⟨100, 100, 100, 100⟩ := by
    have heq : syncRepReleaseWaiters (twoStandbys 0) twoOfTwo ⟨false, 100, 100⟩ = some ⟨100, 100, 100, 100⟩ := by decide
    exact Option.some.inj (hlsn.symm.trans heq)
  have hmem := (hraised .apply (by decide)).2 0 _ rfl
  have hfirst : (100 : ℕ) ≤ 0 := hmem.2 ⟨⟨100, 100, 100, 0⟩, 0, 1, 0, true, false⟩ (by decide) (by decide)
  exact absurd hfirst (by decide)

end GaussKernel.Replication
