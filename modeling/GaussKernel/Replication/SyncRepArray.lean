import GaussKernel.Lib.Collect
import GaussKernel.Replication.SyncRep

/-!
# The array of the standbys

`SyncRepGetSyncStandbys` as it fills its array: every wal sender is copied to the next free place before it is looked
at, and each group goes on behind the ones before it. The positions of the quorum groups are then taken from arrays of
their own, at an index that comes from the configuration or, in the most available mode, from the standbys there are.
-/

namespace GaussKernel.Replication

open GaussKernel.Lib

/-- The wal senders as a caller sees them, which may be none of them. -/
structure WalSndView where
  walsnds : List WalSnd
  myWalSnd : Option ℕ
  mostAvailableSync : Bool

abbrev StandbyArray := Traced SyncRepStandbyData

/-! ## Filling the array -/

/-- The fields that are copied under the lock. -/
def copyWalSnd (stby : SyncRepStandbyData) (x : WalSnd × ℕ) : SyncRepStandbyData :=
  { stby with
    ptrs := x.1.ptrs
    syncStandbyGroup := x.1.syncStandbyGroup
    syncStandbyPriority := x.1.syncStandbyPriority
    isCrossCluster := x.1.isCrossCluster }

/-- The fields of a standby that is taken. -/
def takeWalSnd (v : WalSndView) (stby : SyncRepStandbyData) (x : WalSnd × ℕ) : SyncRepStandbyData :=
  { stby with walsndIndex := x.2, isMe := v.myWalSnd = some x.2 }

/-- `qsort` of `n` entries from `base` on with `standby_priority_comparator` -/
def sortStandbys (array : StandbyArray) (base n : ℕ) : StandbyArray where
  entry i :=
    let sorted := ((List.range n).map fun j => array.entry (base + j)).mergeSort fun sa sb => !priorityBefore sb sa
    if base ≤ i then sorted.getD (i - base) (array.entry i) else array.entry i
  written := (List.range n).map (base + ·) ++ array.written

/-- `SyncRepGetSyncStandbysInGroup` for the places from `base` on: the array and `num_sync`. -/
def getSyncStandbysInGroup (v : WalSndView) (conf : SyncRepConfigData) (groupid base : ℕ) (array : StandbyArray) :
    StandbyArray × ℕ :=
  let (array, numSync) := collect copyWalSnd (takeWalSnd v) (fun x => syncCandidate conf groupid x.1) base array
    v.walsnds.zipIdx
  if conf.syncrepMethod = .priority ∧ conf.numSync < numSync then (sortStandbys array base numSync, conf.numSync)
  else (array, numSync)

/-- `SyncRepGetSyncStandbys`; no group at all is the configuration that is not set. -/
def getSyncStandbys (v : WalSndView) (config : List SyncRepConfigData) (array : StandbyArray) : StandbyArray × ℕ :=
  config.zipIdx.foldl (fun s x =>
    let (array, numSync) := getSyncStandbysInGroup v x.1 x.2 s.2 s.1
    (array, s.2 + numSync)) (array, 0)

/-! ## Taking the positions -/

/-- A call of `SyncRepGetNthLatestSyncRecPtr` past the rewriting of `nth`: the standbys of its group, and `nth`. -/
structure NthCall where
  group : List SyncRepStandbyData
  nth : ℕ

/-- The calls of `SyncRepGetSyncRecPtr`. -/
def nthCalls (v : WalSndView) (config : List SyncRepConfigData) (info : LocalInfo) (checkAmSync : Bool)
    (array : StandbyArray) : List NthCall :=
  let (array, numStandbys) := getSyncStandbys v config array
  let standbys := (List.range numStandbys).map array.entry
  let amSync := standbys.any fun s => s.isMe
  let state := checkSyncStandbysNum config standbys
  let judge := state = .enough || (v.mostAvailableSync && !info.delayIntoMostAvaSync)
  if (!amSync && checkAmSync) ∨ config = [] ∨ !judge then []
  else if state = .empty then []
  else
    config.zipIdx.filterMap fun x =>
      match x.1.syncrepMethod with
      | .priority => none
      | .quorum =>
        let group := standbys.filter fun s => s.syncStandbyGroup = x.2
        -- a byte, of the configured number and of the group's length
        let nth := x.1.numSync % 256
        some ⟨group, if v.mostAvailableSync ∧ group.length < nth then group.length % 256 else nth⟩

/-- The index is one of the arrays, and every entry is the position of a standby of the group. -/
structure NthCall.Inside (call : NthCall) : Prop where
  index : 0 ≤ (call.nth : ℤ) - 1 ∧ (call.nth : ℤ) - 1 < call.group.length
  filled : ∀ mode, ∀ e ∈ lsnArray call.group mode, ∃ s ∈ call.group, e = some (s.ptrs.get mode)

/-- Every write and every read stays inside its array. The memory of the array comes with anything in it. -/
structure InsideArrays (v : WalSndView) (config : List SyncRepConfigData) (info : LocalInfo) (checkAmSync : Bool)
    (memory : ℕ → SyncRepStandbyData) : Prop where
  standbys : ∀ i ∈ (getSyncStandbys v config ⟨memory, []⟩).1.written, i < v.walsnds.length
  positions : ∀ call ∈ nthCalls v config info checkAmSync ⟨memory, []⟩, call.Inside

/-! ## When all stays inside -/

/-- The sender is a candidate of its group. -/
def taken (config : List SyncRepConfigData) (walsnd : WalSnd) : Bool :=
  config.zipIdx.any fun x => syncCandidate x.1 x.2 walsnd

/-- A place is free for the copies of rejected senders, or none comes when the array is full. -/
def PlaceLeft (v : WalSndView) (config : List SyncRepConfigData) : Prop :=
  (∀ walsnd ∈ v.walsnds, taken config walsnd = true) →
    ∀ last ∈ v.walsnds.getLast?, last.syncStandbyGroup = config.length - 1

/-- The positions are asked for: by a candidate or by anyone, with standbys, and enough of them or in the most available
mode. -/
structure Asked (v : WalSndView) (config : List SyncRepConfigData) (info : LocalInfo) (checkAmSync : Bool) : Prop where
  me : checkAmSync = true → ∃ i walsnd, v.myWalSnd = some i ∧ v.walsnds[i]? = some walsnd ∧ taken config walsnd = true
  some : ∃ walsnd ∈ v.walsnds, taken config walsnd = true
  enough : (∀ i conf, config[i]? = .some conf → conf.numSync ≤ v.walsnds.countP (syncCandidate conf i)) ∨
    v.mostAvailableSync = true ∧ info.delayIntoMostAvaSync = false

/-- The group asks for a position, has standbys, and none of them across clusters. -/
structure GroupRead (v : WalSndView) (conf : SyncRepConfigData) (groupid : ℕ) : Prop where
  counted : conf.numSync % 256 ≠ 0
  some : ∃ walsnd ∈ v.walsnds, syncCandidate conf groupid walsnd = true
  near : ∀ walsnd ∈ v.walsnds, syncCandidate conf groupid walsnd = true → walsnd.isCrossCluster = false

/-! ## The standbys in the array -/

section Standbys

variable {v : WalSndView} {config : List SyncRepConfigData} {conf : SyncRepConfigData} {groupid base : ℕ}
  {array : StandbyArray}

/-- The entry of a sender that is taken. -/
def standbyOf (v : WalSndView) (x : WalSnd × ℕ) : SyncRepStandbyData where
  ptrs := x.1.ptrs
  syncStandbyGroup := x.1.syncStandbyGroup
  syncStandbyPriority := x.1.syncStandbyPriority
  walsndIndex := x.2
  isMe := v.myWalSnd = some x.2
  isCrossCluster := x.1.isCrossCluster

def candidatesOf (v : WalSndView) (conf : SyncRepConfigData) (groupid : ℕ) : List SyncRepStandbyData :=
  (v.walsnds.zipIdx.filter fun x => syncCandidate conf groupid x.1).map (standbyOf v)

def standbysInGroup (v : WalSndView) (conf : SyncRepConfigData) (groupid : ℕ) : List SyncRepStandbyData :=
  let standbys := candidatesOf v conf groupid
  if conf.syncrepMethod = .priority ∧ conf.numSync < standbys.length then
    (standbys.mergeSort fun sa sb => !priorityBefore sb sa).take conf.numSync
  else standbys

lemma length_candidatesOf :
    (candidatesOf v conf groupid).length = v.walsnds.zipIdx.countP fun x => syncCandidate conf groupid x.1 := by
  rw [candidatesOf, List.length_map, List.countP_eq_length_filter]

lemma standbysInGroup_quorum (hconf : conf.syncrepMethod = .quorum) :
    standbysInGroup v conf groupid = candidatesOf v conf groupid :=
  if_neg fun h => by simp [hconf] at h

lemma collect_candidates (v : WalSndView) (conf : SyncRepConfigData) (groupid base : ℕ) (array : StandbyArray) :
    (List.range (candidatesOf v conf groupid).length).map (fun j =>
      (collect copyWalSnd (takeWalSnd v) (fun x => syncCandidate conf groupid x.1) base array
        v.walsnds.zipIdx).1.entry (base + j)) = candidatesOf v conf groupid := by
  rw [length_candidatesOf]
  exact collect_entries fun b x _ => rfl

/-- A group's standbys stand behind those of the groups before it. -/
lemma getSyncStandbysInGroup_entries (v : WalSndView) (conf : SyncRepConfigData) (groupid base : ℕ)
    (array : StandbyArray) :
    (getSyncStandbysInGroup v conf groupid base array).2 = (standbysInGroup v conf groupid).length ∧
      (List.range (standbysInGroup v conf groupid).length).map
        (fun j => (getSyncStandbysInGroup v conf groupid base array).1.entry (base + j)) =
          standbysInGroup v conf groupid ∧
      ∀ j < base, (getSyncStandbysInGroup v conf groupid base array).1.entry j = array.entry j := by
  have hentries := collect_candidates v conf groupid base array
  have hcount : (collect copyWalSnd (takeWalSnd v) (fun x => syncCandidate conf groupid x.1) base array
      v.walsnds.zipIdx).2 = (candidatesOf v conf groupid).length := by
    rw [collect_snd, length_candidatesOf]
  have hbefore : ∀ j < base, (collect copyWalSnd (takeWalSnd v) (fun x => syncCandidate conf groupid x.1) base array
      v.walsnds.zipIdx).1.entry j = array.entry j := fun j hj => collect_entry_before hj
  unfold getSyncStandbysInGroup standbysInGroup
  dsimp only
  rw [hcount]
  generalize (collect copyWalSnd (takeWalSnd v) (fun x => syncCandidate conf groupid x.1) base array
    v.walsnds.zipIdx).1 = array' at hentries hbefore
  split
  case isTrue h =>
    have hlen : ((candidatesOf v conf groupid).mergeSort fun sa sb => !priorityBefore sb sa).length =
        (candidatesOf v conf groupid).length := List.length_mergeSort _
    have htake : (((candidatesOf v conf groupid).mergeSort fun sa sb => !priorityBefore sb sa).take
        conf.numSync).length = conf.numSync := by
      rw [List.length_take, hlen]
      omega
    refine ⟨htake.symm, ?_, fun j hj => ?_⟩
    · rw [htake]
      apply List.ext_getElem
      · rw [List.length_map, List.length_range, htake]
      intro j hj hj'
      rw [List.length_map, List.length_range] at hj
      simp only [List.getElem_map, List.getElem_range, sortStandbys]
      rw [if_pos (Nat.le_add_right base j), Nat.add_sub_cancel_left, hentries, List.getElem_take,
        List.getD_eq_getElem _ _ (by omega)]
    · exact (if_neg (by omega)).trans (hbefore j hj)
  case isFalse h => exact ⟨rfl, hentries, hbefore⟩

lemma getSyncStandbys_append :
    getSyncStandbys v (config ++ [conf]) array =
      ((getSyncStandbysInGroup v conf config.length (getSyncStandbys v config array).2
          (getSyncStandbys v config array).1).1,
        (getSyncStandbys v config array).2 + (getSyncStandbysInGroup v conf config.length
          (getSyncStandbys v config array).2 (getSyncStandbys v config array).1).2) := by
  simp [getSyncStandbys, List.zipIdx_append]

/-- The array holds the standbys of all groups, as the list of `syncRepGetSyncStandbys` does. -/
lemma getSyncStandbys_entries :
    (List.range (getSyncStandbys v config array).2).map (getSyncStandbys v config array).1.entry =
      config.zipIdx.flatMap fun x => standbysInGroup v x.1 x.2 := by
  induction config using List.reverseRecOn with
  | nil => rfl
  | append_singleton config conf ih =>
    rw [getSyncStandbys_append]
    generalize getSyncStandbys v config array = s at ih
    obtain ⟨hlen, hentries, hbefore⟩ := getSyncStandbysInGroup_entries v conf config.length s.2 s.1
    dsimp only
    rw [hlen, List.range_add, List.map_append, List.map_map, List.zipIdx_append, List.flatMap_append, ← ih]
    congr 1
    · exact List.map_congr_left fun j hj => hbefore j (List.mem_range.1 hj)
    · simp only [List.zipIdx_cons, List.zipIdx_nil, Nat.zero_add, List.flatMap_singleton]
      exact hentries

/-- The view of a wal sender. -/
def WalSndCtl.view (ctl : WalSndCtl) : WalSndView := ⟨ctl.walsnds, some ctl.myWalSnd.val, ctl.mostAvailableSync⟩

/-- The standbys that the positions of a wal sender are computed from are those in the array. -/
lemma getSyncStandbys_view (ctl : WalSndCtl) :
    (List.range (getSyncStandbys ctl.view config array).2).map (getSyncStandbys ctl.view config array).1.entry =
      syncRepGetSyncStandbys ctl config := by
  have hentry : ∀ x : WalSnd × ℕ, standbyOf ctl.view x =
      { ptrs := x.1.ptrs
        syncStandbyGroup := x.1.syncStandbyGroup
        syncStandbyPriority := x.1.syncStandbyPriority
        walsndIndex := x.2
        isMe := x.2 = ctl.myWalSnd.val
        isCrossCluster := x.1.isCrossCluster } := by
    intro x
    simp [standbyOf, WalSndCtl.view, eq_comm]
  have hgroup : ∀ x : SyncRepConfigData × ℕ, standbysInGroup ctl.view x.1 x.2 =
      syncRepGetSyncStandbysInGroup ctl x.1 x.2 := by
    intro x
    have hcand : candidatesOf ctl.view x.1 x.2 = candidates ctl x.1 x.2 :=
      List.map_congr_left fun y _ => hentry y
    unfold standbysInGroup syncRepGetSyncStandbysInGroup
    rw [hcand]
  rw [getSyncStandbys_entries, syncRepGetSyncStandbys]
  exact List.flatMap_congr fun x _ => hgroup x

end Standbys

/-! ## Places written -/

section Places

variable {v : WalSndView} {config : List SyncRepConfigData} {conf : SyncRepConfigData} {array : StandbyArray}

/-- A candidate of group `g`, if there is one. -/
def groupCandidate (config : List SyncRepConfigData) (g : ℕ) (x : WalSnd × ℕ) : Bool :=
  match config[g]? with
  | some conf => syncCandidate conf g x.1
  | none => false

lemma syncCandidate_group {groupid : ℕ} {walsnd : WalSnd} (h : syncCandidate conf groupid walsnd = true) :
    walsnd.syncStandbyGroup = groupid := by
  simp only [syncCandidate, Bool.and_eq_true, decide_eq_true_eq] at h
  exact h.1.1.1.2

lemma groupCandidate_iff {g : ℕ} {x : WalSnd × ℕ} : groupCandidate config g x = true ↔
    ∃ conf, config[g]? = some conf ∧ syncCandidate conf g x.1 = true := by
  unfold groupCandidate
  cases config[g]? with
  | none => simp
  | some conf => simp

lemma groupCandidate_disjoint (x : WalSnd × ℕ) (g h : ℕ) (hg : groupCandidate config g x = true)
    (hh : groupCandidate config h x = true) : g = h := by
  obtain ⟨_, _, hg⟩ := groupCandidate_iff.1 hg
  obtain ⟨_, _, hh⟩ := groupCandidate_iff.1 hh
  exact (syncCandidate_group hg).symm.trans (syncCandidate_group hh)

lemma groupCandidate_append_of_lt {g : ℕ} (h : g < config.length) :
    groupCandidate (config ++ [conf]) g = groupCandidate config g := by
  funext x
  unfold groupCandidate
  rw [List.getElem?_append_left h]

lemma groupCandidate_append_last :
    groupCandidate (config ++ [conf]) config.length = fun x => syncCandidate conf config.length x.1 := by
  funext x
  unfold groupCandidate
  rw [List.getElem?_append_right le_rfl]
  simp

lemma takenBefore_append {g : ℕ} (h : g ≤ config.length) :
    takenBefore (groupCandidate (config ++ [conf])) g = takenBefore (groupCandidate config) g := by
  funext x
  refine Bool.eq_iff_iff.2 ?_
  rw [takenBefore_iff, takenBefore_iff]
  refine exists_congr fun k => and_congr_right fun hk => ?_
  rw [groupCandidate_append_of_lt (hk.trans_le h)]

lemma taken_iff {x : WalSnd × ℕ} :
    taken config x.1 = true ↔ takenBefore (groupCandidate config) config.length x = true := by
  rw [taken, List.any_eq_true, takenBefore_iff]
  constructor
  · rintro ⟨⟨conf, g⟩, hmem, hcand⟩
    have hget := List.mem_zipIdx_iff_getElem?.1 hmem
    exact ⟨g, List.getElem?_eq_some_iff.1 hget |>.1, groupCandidate_iff.2 ⟨conf, hget, hcand⟩⟩
  · rintro ⟨g, -, hg⟩
    obtain ⟨conf, hget, hcand⟩ := groupCandidate_iff.1 hg
    exact ⟨(conf, g), List.mem_zipIdx_iff_getElem?.2 hget, hcand⟩

lemma getSyncStandbysInGroup_quorum {groupid base : ℕ} (hconf : conf.syncrepMethod = .quorum) :
    getSyncStandbysInGroup v conf groupid base array =
      collect copyWalSnd (takeWalSnd v) (fun x => syncCandidate conf groupid x.1) base array v.walsnds.zipIdx :=
  if_neg fun h => by simp [hconf] at h

/-- Quorum groups take all their candidates: a sender is copied behind the candidates of the groups before and those of
its group before it. -/
lemma getSyncStandbys_written (v : WalSndView) (array : StandbyArray)
    (hall : ∀ conf ∈ config, conf.syncrepMethod = .quorum) :
    (getSyncStandbys v config array).2 = v.walsnds.zipIdx.countP (takenBefore (groupCandidate config) config.length) ∧
      ∀ w, w ∈ (getSyncStandbys v config array).1.written ↔ w ∈ array.written ∨
        ∃ g < config.length, ∃ i < v.walsnds.zipIdx.length,
          w = v.walsnds.zipIdx.countP (takenBefore (groupCandidate config) g) +
            (v.walsnds.zipIdx.take i).countP (groupCandidate config g) := by
  induction config using List.reverseRecOn with
  | nil =>
    constructor
    · exact (List.countP_eq_zero.2 fun x _ => by simp [takenBefore]).symm
    · intro w
      refine (or_iff_left ?_).symm
      rintro ⟨g, hg, -⟩
      exact Nat.not_lt_zero g hg
  | append_singleton config conf ih =>
    obtain ⟨hcount, hwritten⟩ := ih fun c hc => hall c (List.mem_append_left _ hc)
    rw [getSyncStandbys_append, getSyncStandbysInGroup_quorum (hall conf (by simp)), collect_snd, hcount,
      List.length_append, List.length_singleton]
    constructor
    · dsimp only
      rw [countP_takenBefore_succ groupCandidate_disjoint, takenBefore_append le_rfl, groupCandidate_append_last]
    · intro w
      rw [mem_collect_written, hwritten]
      constructor
      · rintro ((hw | ⟨g, hg, i, hi, rfl⟩) | ⟨i, hi, rfl⟩)
        · exact .inl hw
        · refine .inr ⟨g, by omega, i, hi, ?_⟩
          rw [takenBefore_append hg.le, groupCandidate_append_of_lt hg]
        · refine .inr ⟨config.length, by omega, i, hi, ?_⟩
          rw [takenBefore_append le_rfl, groupCandidate_append_last]
      · rintro (hw | ⟨g, hg, i, hi, rfl⟩)
        · exact .inl (.inl hw)
        · rcases Nat.lt_succ_iff_lt_or_eq.1 hg with hg | rfl
          · refine .inl (.inr ⟨g, hg, i, hi, ?_⟩)
            rw [takenBefore_append hg.le, groupCandidate_append_of_lt hg]
          · refine .inr ⟨i, hi, ?_⟩
            rw [takenBefore_append le_rfl, groupCandidate_append_last]

end Places

section Inside

variable {v : WalSndView} {config : List SyncRepConfigData} {conf : SyncRepConfigData} {info : LocalInfo}
  {checkAmSync : Bool} {memory : ℕ → SyncRepStandbyData} {i : ℕ}

lemma placeLeft_iff : PlaceLeft v config ↔
    ((∀ x ∈ v.walsnds.zipIdx, takenBefore (groupCandidate config) config.length x = true) →
      ∀ last ∈ v.walsnds.zipIdx.getLast?, groupCandidate config (config.length - 1) last = true) := by
  have hall : (∀ walsnd ∈ v.walsnds, taken config walsnd = true) ↔
      ∀ x ∈ v.walsnds.zipIdx, takenBefore (groupCandidate config) config.length x = true := by
    constructor
    · intro h x hx
      exact taken_iff.1 (h x.1 (List.fst_mem_of_mem_zipIdx hx))
    · intro h walsnd hw
      obtain ⟨j, hj⟩ := List.getElem?_of_mem hw
      exact taken_iff.2 (h (walsnd, j) (List.mem_zipIdx_iff_getElem?.2 hj))
  have hlast : v.walsnds.zipIdx.getLast?.map Prod.fst = v.walsnds.getLast? := by
    rw [← List.getLast?_map, List.zipIdx_map_fst]
  unfold PlaceLeft
  rw [hall, ← hlast]
  refine forall_congr' fun h => ?_
  constructor
  · intro hgroup last hl
    obtain ⟨g, -, hg⟩ := takenBefore_iff.1 (h last (List.mem_of_getLast? hl))
    obtain ⟨_, _, hcand⟩ := groupCandidate_iff.1 hg
    have heq := hgroup last.1 (by rw [Option.mem_def.1 hl]; rfl)
    rwa [← heq, syncCandidate_group hcand]
  · rintro hcand last hl
    obtain ⟨x, hx, rfl⟩ := Option.map_eq_some_iff.1 hl
    obtain ⟨_, _, hg⟩ := groupCandidate_iff.1 (hcand x hx)
    exact syncCandidate_group hg

lemma standbys_inside_quorum (hall : ∀ conf ∈ config, conf.syncrepMethod = .quorum) :
    (∀ i ∈ (getSyncStandbys v config ⟨memory, []⟩).1.written, i < v.walsnds.length) ↔ PlaceLeft v config := by
  rw [placeLeft_iff, ← collect_inside_iff groupCandidate_disjoint, List.length_zipIdx]
  have hwritten := (getSyncStandbys_written v ⟨memory, []⟩ hall).2
  rw [List.length_zipIdx] at hwritten
  constructor
  · intro h g hg j hj
    exact h _ ((hwritten _).2 (.inr ⟨g, hg, j, hj, rfl⟩))
  · rintro h w hw
    rcases (hwritten w).1 hw with hnil | ⟨g, hg, j, hj, rfl⟩
    · cases hnil
    · exact h g hg j hj

/-- A group alone never goes on behind a full array, and sorts only what it took. -/
lemma standbys_inside_single (v : WalSndView) (conf : SyncRepConfigData) (memory : ℕ → SyncRepStandbyData) :
    (∀ i ∈ (getSyncStandbys v [conf] ⟨memory, []⟩).1.written, i < v.walsnds.length) ∧ PlaceLeft v [conf] := by
  have hcollect : ∀ i ∈ (collect copyWalSnd (takeWalSnd v) (fun x => syncCandidate conf 0 x.1) 0 ⟨memory, []⟩
      v.walsnds.zipIdx).1.written, i < v.walsnds.length := by
    intro w hw
    rcases mem_collect_written.1 hw with hnil | ⟨j, hj, rfl⟩
    · cases hnil
    · rw [List.length_zipIdx] at hj
      have hle := List.countP_le_length (p := fun x => syncCandidate conf 0 x.1) (l := v.walsnds.zipIdx.take j)
      rw [List.length_take] at hle
      omega
  have hcount : v.walsnds.zipIdx.countP (fun x => syncCandidate conf 0 x.1) ≤ v.walsnds.length := by
    rw [← List.length_zipIdx]
    exact List.countP_le_length
  constructor
  · change ∀ i ∈ (getSyncStandbysInGroup v conf 0 0 ⟨memory, []⟩).1.written, i < v.walsnds.length
    unfold getSyncStandbysInGroup
    dsimp only
    split
    · intro w hw
      rcases List.mem_append.1 hw with hsort | hw
      · obtain ⟨j, hj, rfl⟩ := List.mem_map.1 hsort
        rw [List.mem_range, collect_snd] at hj
        omega
      · exact hcollect w hw
    · exact hcollect
  · intro hall last hlast
    obtain ⟨g, hg, hcand⟩ := takenBefore_iff.1 ((taken_iff (x := (last, 0))).1 (hall last (List.mem_of_getLast? hlast)))
    obtain ⟨_, _, hcand⟩ := groupCandidate_iff.1 hcand
    rw [syncCandidate_group hcand]
    exact Nat.lt_one_iff.1 hg

lemma countP_zipIdx {α : Type*} (q : α → Bool) (l : List α) : l.zipIdx.countP (fun x => q x.1) = l.countP q := by
  conv_rhs => rw [← List.zipIdx_map_fst 0 l, List.countP_map]
  rfl

lemma mem_candidatesOf {s : SyncRepStandbyData} (h : s ∈ candidatesOf v conf i) :
    ∃ x ∈ v.walsnds.zipIdx, syncCandidate conf i x.1 = true ∧ s = standbyOf v x := by
  obtain ⟨x, hx, rfl⟩ := List.mem_map.1 h
  exact ⟨x, (List.mem_filter.1 hx).1, (List.mem_filter.1 hx).2, rfl⟩

lemma mem_standbysInGroup {s : SyncRepStandbyData} (h : s ∈ standbysInGroup v conf i) : s ∈ candidatesOf v conf i := by
  unfold standbysInGroup at h
  dsimp only at h
  split at h
  · exact List.mem_mergeSort.1 (List.mem_of_mem_take h)
  · exact h

/-- The standbys of one group in the array that all groups share. -/
lemma filter_standbys (h : config[i]? = some conf) :
    (config.zipIdx.flatMap fun x => standbysInGroup v x.1 x.2).filter (fun s => s.syncStandbyGroup = i) =
      standbysInGroup v conf i := by
  have hgroup : ∀ {c : SyncRepConfigData} {g : ℕ} {s : SyncRepStandbyData}, s ∈ standbysInGroup v c g →
      s.syncStandbyGroup = g := by
    intro c g s hs
    obtain ⟨x, -, hcand, rfl⟩ := mem_candidatesOf (mem_standbysInGroup hs)
    exact syncCandidate_group hcand
  have hone : ∀ x : SyncRepConfigData × ℕ,
      (standbysInGroup v x.1 x.2).filter (fun s => s.syncStandbyGroup = i) =
        if x.2 = 0 + i then standbysInGroup v x.1 x.2 else [] := by
    intro x
    split
    case isTrue hx =>
      refine List.filter_eq_self.2 fun s hs => decide_eq_true ?_
      rw [hgroup hs, hx, Nat.zero_add]
    case isFalse hx =>
      refine List.filter_eq_nil_iff.2 fun s hs hg => hx ?_
      rw [← hgroup hs, of_decide_eq_true hg, Nat.zero_add]
  rw [List.filter_flatMap]
  simp only [hone]
  rw [flatMap_zipIdx_single h, Nat.zero_add]

lemma length_candidates : (candidatesOf v conf i).length = v.walsnds.countP (syncCandidate conf i) := by
  rw [length_candidatesOf]
  exact countP_zipIdx (syncCandidate conf i) v.walsnds

section

variable (hall : ∀ conf ∈ config, conf.syncrepMethod = .quorum)
include hall

/-- The standbys of quorum groups. -/
lemma mem_standbys {s : SyncRepStandbyData} :
    s ∈ (config.zipIdx.flatMap fun x => standbysInGroup v x.1 x.2) ↔
      ∃ x ∈ v.walsnds.zipIdx, taken config x.1 = true ∧ s = standbyOf v x := by
  rw [List.mem_flatMap]
  constructor
  · rintro ⟨⟨conf, g⟩, hmem, hs⟩
    obtain ⟨x, hx, hcand, rfl⟩ := mem_candidatesOf (mem_standbysInGroup hs)
    exact ⟨x, hx, List.any_eq_true.2 ⟨(conf, g), hmem, hcand⟩, rfl⟩
  · rintro ⟨x, hx, htaken, rfl⟩
    obtain ⟨⟨conf, g⟩, hmem, hcand⟩ := List.any_eq_true.1 htaken
    refine ⟨(conf, g), hmem, ?_⟩
    rw [standbysInGroup_quorum (hall conf (List.mem_of_getElem? (List.mem_zipIdx_iff_getElem?.1 hmem)))]
    exact List.mem_map_of_mem (List.mem_filter.2 ⟨hx, hcand⟩)

lemma asked_me :
    ((config.zipIdx.flatMap fun x => standbysInGroup v x.1 x.2).any fun s => s.isMe) = true ↔
      ∃ i walsnd, v.myWalSnd = some i ∧ v.walsnds[i]? = some walsnd ∧ taken config walsnd = true := by
  rw [List.any_eq_true]
  constructor
  · rintro ⟨s, hs, hme⟩
    obtain ⟨x, hx, htaken, rfl⟩ := (mem_standbys hall).1 hs
    exact ⟨x.2, x.1, of_decide_eq_true hme, List.mem_zipIdx_iff_getElem?.1 hx, htaken⟩
  · rintro ⟨i, walsnd, hme, hget, htaken⟩
    exact ⟨_, (mem_standbys hall).2 ⟨(walsnd, i), List.mem_zipIdx_iff_getElem?.2 hget, htaken, rfl⟩,
      decide_eq_true hme⟩

lemma asked_some : (config.zipIdx.flatMap fun x => standbysInGroup v x.1 x.2) ≠ [] ↔
      ∃ walsnd ∈ v.walsnds, taken config walsnd = true := by
  constructor
  · intro h
    obtain ⟨s, hs⟩ := List.exists_mem_of_ne_nil _ h
    obtain ⟨x, hx, htaken, -⟩ := (mem_standbys hall).1 hs
    exact ⟨x.1, List.fst_mem_of_mem_zipIdx hx, htaken⟩
  · rintro ⟨walsnd, hw, htaken⟩
    obtain ⟨j, hj⟩ := List.getElem?_of_mem hw
    exact List.ne_nil_of_mem ((mem_standbys hall).2 ⟨(walsnd, j), List.mem_zipIdx_iff_getElem?.2 hj, htaken, rfl⟩)

/-- The state of standbys that there are. -/
lemma asked_enough (hne : config ≠ []) (hsome : (config.zipIdx.flatMap fun x => standbysInGroup v x.1 x.2) ≠ []) :
    checkSyncStandbysNum config (config.zipIdx.flatMap fun x => standbysInGroup v x.1 x.2) ≠ .empty ∧
      (checkSyncStandbysNum config (config.zipIdx.flatMap fun x => standbysInGroup v x.1 x.2) = .enough ↔
        ∀ i conf, config[i]? = some conf → conf.numSync ≤ v.walsnds.countP (syncCandidate conf i)) := by
  have hfew : (config.zipIdx.any fun x => (config.zipIdx.flatMap fun x => standbysInGroup v x.1 x.2).countP
      (fun s => s.syncStandbyGroup = x.2) < x.1.numSync) = true ↔
      ¬ ∀ i conf, config[i]? = some conf → conf.numSync ≤ v.walsnds.countP (syncCandidate conf i) := by
    have hlen : ∀ {i : ℕ} {conf : SyncRepConfigData}, config[i]? = some conf →
        (config.zipIdx.flatMap fun x => standbysInGroup v x.1 x.2).countP (fun s => s.syncStandbyGroup = i) =
          v.walsnds.countP (syncCandidate conf i) := by
      intro i conf h
      rw [List.countP_eq_length_filter, filter_standbys h,
        standbysInGroup_quorum (hall conf (List.mem_of_getElem? h)), length_candidates]
    rw [List.any_eq_true]
    push Not
    constructor
    · rintro ⟨⟨conf, i⟩, hmem, hlt⟩
      have hget := List.mem_zipIdx_iff_getElem?.1 hmem
      exact ⟨i, conf, hget, hlen hget ▸ of_decide_eq_true hlt⟩
    · rintro ⟨i, conf, hget, hlt⟩
      exact ⟨(conf, i), List.mem_zipIdx_iff_getElem?.2 hget, decide_eq_true ((hlen hget).symm ▸ hlt)⟩
  unfold checkSyncStandbysNum
  rw [if_neg hne, if_neg hsome]
  split
  case isTrue h => exact ⟨nofun, nofun, fun henough => absurd henough (hfew.1 h)⟩
  case isFalse h => exact ⟨nofun, fun _ => not_not.1 fun henough => h (hfew.2 henough), fun _ => rfl⟩

end

/-- What `SyncRepGetSyncRecPtr` calls for a quorum group. -/
def nthCallOf (v : WalSndView) (x : SyncRepConfigData × ℕ) : NthCall :=
  let group := candidatesOf v x.1 x.2
  let nth := x.1.numSync % 256
  ⟨group, if v.mostAvailableSync ∧ group.length < nth then group.length % 256 else nth⟩

section

variable (hall : ∀ conf ∈ config, conf.syncrepMethod = .quorum)
include hall

/-- The call for a quorum group. -/
lemma quorum_call {x : SyncRepConfigData × ℕ} (hx : x ∈ config.zipIdx) :
    (match x.1.syncrepMethod with
      | .priority => none
      | .quorum =>
        let group := (config.zipIdx.flatMap fun x => standbysInGroup v x.1 x.2).filter fun s =>
          s.syncStandbyGroup = x.2
        let nth := x.1.numSync % 256
        some (⟨group, if v.mostAvailableSync ∧ group.length < nth then group.length % 256 else nth⟩ : NthCall)) =
      some (nthCallOf v x) := by
  obtain ⟨conf, i⟩ := x
  have hget := List.mem_zipIdx_iff_getElem?.1 hx
  have hconf := hall conf (List.mem_of_getElem? hget)
  dsimp only
  rw [hconf, filter_standbys hget, standbysInGroup_quorum hconf]
  rfl

/-- With standbys, positions are asked for unless `SyncRepGetSyncRecPtr` returns early. -/
lemma asked_iff_gate (hne : config ≠ []) (hsome : (config.zipIdx.flatMap fun x => standbysInGroup v x.1 x.2) ≠ []) :
    Asked v config info checkAmSync ↔
      ¬((!((config.zipIdx.flatMap fun x => standbysInGroup v x.1 x.2).any fun s => s.isMe) && checkAmSync) = true ∨
        config = [] ∨
        (!(decide (checkSyncStandbysNum config (config.zipIdx.flatMap fun x => standbysInGroup v x.1 x.2) = .enough) ||
          (v.mostAvailableSync && !info.delayIntoMostAvaSync))) = true) := by
  have henough := (asked_enough hall hne hsome).2
  have hme := asked_me (v := v) hall
  rw [not_or, not_or, Bool.and_eq_true, Bool.not_eq_true', Bool.not_eq_true', Bool.not_eq_false, Bool.or_eq_true,
    decide_eq_true_eq, henough, Bool.and_eq_true, Bool.not_eq_true']
  constructor
  · rintro ⟨hcheck, -, hjudge⟩
    refine ⟨fun hgate => ?_, hne, hjudge⟩
    exact ne_true_of_eq_false hgate.1 (hme.2 (hcheck hgate.2))
  · rintro ⟨hnot, -, hjudge⟩
    refine ⟨fun hcheck => hme.1 (not_not.1 fun hc => ?_), (asked_some hall).1 hsome, hjudge⟩
    exact hnot ⟨Bool.eq_false_of_not_eq_true hc, hcheck⟩

lemma mem_nthCalls {call : NthCall} :
    call ∈ nthCalls v config info checkAmSync ⟨memory, []⟩ ↔
      Asked v config info checkAmSync ∧ ∃ i conf, config[i]? = some conf ∧ call = nthCallOf v (conf, i) := by
  unfold nthCalls
  dsimp only
  rw [getSyncStandbys_entries]
  by_cases hsome : (config.zipIdx.flatMap fun x => standbysInGroup v x.1 x.2) = []
  · -- without standbys none is called
    have hnot : ¬ Asked v config info checkAmSync := fun h => (asked_some hall).2 h.some hsome
    have hempty : config ≠ [] → checkSyncStandbysNum config [] = .empty := fun hne => by
      rw [checkSyncStandbysNum, if_neg hne, if_pos rfl]
    rw [hsome]
    refine iff_of_false (fun hmem => ?_) fun h => hnot h.1
    split at hmem
    · cases hmem
    · rename_i hgate
      rw [if_pos (hempty fun hnil => hgate (.inr (.inl hnil)))] at hmem
      cases hmem
  have hne : config ≠ [] := by
    rintro rfl
    exact hsome rfl
  have hasked : Asked v config info checkAmSync ↔ _ := asked_iff_gate hall hne hsome
  rw [if_neg (asked_enough hall hne hsome).1]
  split
  case isTrue hgate => exact iff_of_false List.not_mem_nil fun hand => hasked.1 hand.1 hgate
  case isFalse hgate =>
    rw [and_iff_right (hasked.2 hgate), List.mem_filterMap]
    constructor
    · rintro ⟨x, hx, heq⟩
      rw [quorum_call hall hx] at heq
      exact ⟨x.2, x.1, List.mem_zipIdx_iff_getElem?.1 hx, (Option.some.inj heq).symm⟩
    · rintro ⟨i, conf, hget, rfl⟩
      have hx : (conf, i) ∈ config.zipIdx := List.mem_zipIdx_iff_getElem?.2 hget
      exact ⟨(conf, i), hx, quorum_call hall hx⟩

end

/-- Every entry of the arrays is written unless a standby is across clusters. -/
lemma lsnArray_filled {group : List SyncRepStandbyData} :
    (∀ mode, ∀ e ∈ lsnArray group mode, ∃ s ∈ group, e = some (s.ptrs.get mode)) ↔
      ∀ s ∈ group, s.isCrossCluster = false := by
  constructor
  · intro h s hs
    by_contra hcross
    have hfew : (group.filter fun s => !s.isCrossCluster).length < group.length :=
      List.length_filter_lt_length_iff_exists.2 ⟨s, hs, by simpa using hcross⟩
    have hnone : none ∈ lsnArray group .receive := by
      unfold lsnArray
      dsimp only
      rw [List.length_map]
      exact List.mem_append_right _ (List.mem_replicate.2 ⟨by omega, rfl⟩)
    obtain ⟨_, _, heq⟩ := h .receive none hnone
    cases heq
  · intro h mode e he
    have hfilter : (group.filter fun s => !s.isCrossCluster) = group :=
      List.filter_eq_self.2 fun s hs => by simp [h s hs]
    unfold lsnArray at he
    dsimp only at he
    rw [hfilter, List.length_map, Nat.sub_self, List.replicate_zero, List.append_nil] at he
    obtain ⟨s, hs, rfl⟩ := List.mem_map.1 he
    exact ⟨s, hs, rfl⟩

/-- A call that is made reads inside its arrays where its group asks for a position and has near standbys. -/
lemma candidatesOf_near_iff : (∀ s ∈ candidatesOf v conf i, s.isCrossCluster = false) ↔
    ∀ walsnd ∈ v.walsnds, syncCandidate conf i walsnd = true → walsnd.isCrossCluster = false := by
  constructor
  · intro hs walsnd hw hcand
    obtain ⟨j, hj⟩ := List.getElem?_of_mem hw
    have hmem : (walsnd, j) ∈ v.walsnds.zipIdx := List.mem_zipIdx_iff_getElem?.2 hj
    exact hs _ (List.mem_map_of_mem (f := standbyOf v) (List.mem_filter.2 ⟨hmem, hcand⟩))
  · intro hw s hs
    obtain ⟨x, hx, hcand, rfl⟩ := mem_candidatesOf hs
    exact hw x.1 (List.fst_mem_of_mem_zipIdx hx) hcand

lemma length_candidatesOf_pos_iff :
    0 < (candidatesOf v conf i).length ↔ ∃ walsnd ∈ v.walsnds, syncCandidate conf i walsnd = true := by
  have hlen : (candidatesOf v conf i).length = v.walsnds.countP (syncCandidate conf i) := length_candidates
  rw [hlen, List.countP_pos_iff]

lemma nthCallOf_inside (hasked : Asked v config info checkAmSync) (h : config[i]? = some conf) :
    (nthCallOf v (conf, i)).Inside ↔ GroupRead v conf i := by
  -- in the exact mode the group has the standbys it asks for
  have henough : v.mostAvailableSync = false → conf.numSync % 256 ≤ (candidatesOf v conf i).length := by
    intro hmost
    rcases hasked.enough with hcount | ⟨hon, _⟩
    · have hlen : (candidatesOf v conf i).length = v.walsnds.countP (syncCandidate conf i) := length_candidates
      exact (Nat.mod_le _ _).trans (hlen ▸ hcount i conf h)
    · exact absurd hon (ne_true_of_eq_false hmost)
  have hindex : (0 ≤ ((nthCallOf v (conf, i)).nth : ℤ) - 1 ∧
      ((nthCallOf v (conf, i)).nth : ℤ) - 1 < (nthCallOf v (conf, i)).group.length) ↔
        conf.numSync % 256 ≠ 0 ∧ 0 < (candidatesOf v conf i).length := by
    unfold nthCallOf
    dsimp only
    have hbyte := Nat.mod_lt conf.numSync (show 0 < 256 by decide)
    split
    case isTrue hmost => omega
    case isFalse hmost =>
      have hle : conf.numSync % 256 ≤ (candidatesOf v conf i).length := by
        cases hon : v.mostAvailableSync with
        | false => exact henough hon
        | true => exact not_lt.1 fun hlt => hmost ⟨hon, hlt⟩
      omega
  constructor
  · rintro ⟨hi, hfilled⟩
    obtain ⟨hne, hpos⟩ := hindex.1 hi
    exact ⟨hne, length_candidatesOf_pos_iff.1 hpos, candidatesOf_near_iff.1 (lsnArray_filled.1 hfilled)⟩
  · rintro ⟨hne, hpos, hn⟩
    have hi := hindex.2 ⟨hne, length_candidatesOf_pos_iff.2 hpos⟩
    exact ⟨hi, lsnArray_filled.2 (candidatesOf_near_iff.2 hn)⟩

end Inside

/-! ## The calls and the positions -/

lemma mapM_id_length {array : List (Option XLogRecPtr)} {lsns : List XLogRecPtr} (h : array.mapM id = some lsns) :
    lsns.length = array.length := by
  induction array generalizing lsns with
  | nil =>
    cases h
    rfl
  | cons e array ih =>
    rw [List.mapM_cons] at h
    obtain ⟨lsn, -, h⟩ := Option.bind_eq_some_iff.1 h
    obtain ⟨rest, hrest, h⟩ := Option.bind_eq_some_iff.1 h
    cases h
    rw [List.length_cons, List.length_cons, ih hrest]

lemma qsortLsn_isSome {array : List (Option XLogRecPtr)} :
    (qsortLsn array).isSome = true ↔ ∀ e ∈ array, e.isSome = true := by
  rw [qsortLsn, Option.isSome_map]
  induction array with
  | nil => simp
  | cons e array ih =>
    cases e with
    | none => simp
    | some lsn =>
      rw [List.forall_mem_cons, ← ih]
      cases h : array.mapM id <;> simp [h]

lemma nthLatestSyncRecPtr_isSome {acc : XLogRecPtr} {array : List (Option XLogRecPtr)} {nth : ℕ} :
    (nthLatestSyncRecPtr acc array nth).isSome = true ↔
      (∀ e ∈ array, e.isSome = true) ∧ 0 < nth ∧ nth ≤ array.length := by
  rw [← qsortLsn_isSome]
  unfold nthLatestSyncRecPtr
  cases hsort : qsortLsn array with
  | none => simp
  | some sorted =>
    have hlen : sorted.length = array.length := by
      obtain ⟨lsns, hlsns, rfl⟩ := Option.map_eq_some_iff.1 hsort
      rw [List.length_mergeSort, mapM_id_length hlsns]
    rw [Option.bind_eq_bind, Option.bind_some, ← hlen]
    cases nth with
    | zero => simp
    | succ n =>
      rw [if_neg (Nat.succ_ne_zero n), Nat.add_sub_cancel]
      cases hget : sorted[n]? with
      | none =>
        have hle := List.getElem?_eq_none_iff.1 hget
        simp
        omega
      | some ptr =>
        obtain ⟨hlt, -⟩ := List.getElem?_eq_some_iff.1 hget
        simp
        omega

lemma lsnArray_length (group : List SyncRepStandbyData) (mode : SyncRepWaitMode) :
    (lsnArray group mode).length = group.length := by
  have hle := List.length_filter_le (fun s : SyncRepStandbyData => !s.isCrossCluster) group
  unfold lsnArray
  dsimp only
  rw [List.length_append, List.length_replicate, List.length_map]
  omega

/-- The positions of a call are there exactly when it stays inside its arrays. -/
lemma nthLatest_isSome_iff {group : List SyncRepStandbyData} {nth : ℕ} (acc : SyncRepWaitMode → XLogRecPtr) :
    (∀ mode, (nthLatestSyncRecPtr (acc mode) (lsnArray group mode) nth).isSome = true) ↔
      NthCall.Inside ⟨group, nth⟩ := by
  simp only [nthLatestSyncRecPtr_isSome, lsnArray_length]
  constructor
  · intro h
    refine ⟨by have := (h .receive).2; dsimp only; omega, lsnArray_filled.2 fun s hs => ?_⟩
    by_contra hcross
    have hnone : qsortLsn (lsnArray group .receive) = none := lsnArray_unwritten hs (by simpa using hcross)
    have hsome := qsortLsn_isSome.2 (h .receive).1
    rw [hnone] at hsome
    cases hsome
  · rintro ⟨⟨hlow, hhigh⟩, hfilled⟩ mode
    dsimp only at hlow hhigh hfilled
    refine ⟨fun e he => ?_, by omega, by omega⟩
    obtain ⟨s, -, rfl⟩ := hfilled mode e he
    rfl

lemma syncRepGetNthLatestSyncRecPtr_isSome {most : Bool} {acc : RecPtrs} {standbys : List SyncRepStandbyData}
    {groupid nth : ℕ} :
    (syncRepGetNthLatestSyncRecPtr most acc standbys groupid nth).isSome = true ↔
      NthCall.Inside ⟨standbys.filter fun s => s.syncStandbyGroup = groupid,
        if most ∧ (standbys.filter fun s => s.syncStandbyGroup = groupid).length < nth then
          (standbys.filter fun s => s.syncStandbyGroup = groupid).length % 256 else nth⟩ := by
  rw [← nthLatest_isSome_iff acc.get]
  unfold syncRepGetNthLatestSyncRecPtr
  dsimp only
  generalize (if most ∧ (standbys.filter fun s => s.syncStandbyGroup = groupid).length < nth then
    (standbys.filter fun s => s.syncStandbyGroup = groupid).length % 256 else nth) = n
  generalize (standbys.filter fun s => s.syncStandbyGroup = groupid) = group
  constructor
  · intro h mode
    obtain ⟨ptrs, hptrs⟩ := Option.isSome_iff_exists.1 h
    obtain ⟨r, hr, hptrs⟩ := Option.bind_eq_some_iff.1 hptrs
    obtain ⟨w, hw, hptrs⟩ := Option.bind_eq_some_iff.1 hptrs
    obtain ⟨f, hf, hptrs⟩ := Option.bind_eq_some_iff.1 hptrs
    obtain ⟨a, ha, -⟩ := Option.bind_eq_some_iff.1 hptrs
    cases mode with
    | receive => exact Option.isSome_iff_exists.2 ⟨r, hr⟩
    | write => exact Option.isSome_iff_exists.2 ⟨w, hw⟩
    | flush => exact Option.isSome_iff_exists.2 ⟨f, hf⟩
    | apply => exact Option.isSome_iff_exists.2 ⟨a, ha⟩
  · intro h
    obtain ⟨r, hr⟩ := Option.isSome_iff_exists.1 (h .receive)
    obtain ⟨w, hw⟩ := Option.isSome_iff_exists.1 (h .write)
    obtain ⟨f, hf⟩ := Option.isSome_iff_exists.1 (h .flush)
    obtain ⟨a, ha⟩ := Option.isSome_iff_exists.1 (h .apply)
    dsimp only [RecPtrs.get] at hr hw hf ha
    rw [hr, hw, hf, ha]
    rfl

lemma foldlM_isSome_iff {α σ : Type*} {f : σ → α → Option σ} {P : α → Prop} {l : List α}
    (h : ∀ s, ∀ x ∈ l, (f s x).isSome = true ↔ P x) (s : σ) : (l.foldlM f s).isSome = true ↔ ∀ x ∈ l, P x := by
  induction l generalizing s with
  | nil => simp
  | cons x l ih =>
    rw [List.foldlM_cons, List.forall_mem_cons, ← h s x List.mem_cons_self]
    cases hx : f s x with
    | none => simp
    | some s' => simpa using ih (fun s y hy => h s y (List.mem_cons_of_mem x hy)) s'

/-- A wal sender gets positions exactly when every call for a quorum group stays inside its arrays. -/
theorem syncRepGetSyncRecPtr_isSome_iff (ctl : WalSndCtl) (config : List SyncRepConfigData) (info : LocalInfo)
    (checkAmSync : Bool) (memory : ℕ → SyncRepStandbyData) :
    (syncRepGetSyncRecPtr ctl config info checkAmSync).isSome = true ↔
      ∀ call ∈ nthCalls ctl.view config info checkAmSync ⟨memory, []⟩, call.Inside := by
  unfold syncRepGetSyncRecPtr nthCalls
  dsimp only
  rw [getSyncStandbys_view]
  generalize syncRepGetSyncStandbys ctl config = standbys
  change _ ↔ ∀ call ∈ (if (!(standbys.any fun s => s.isMe) && checkAmSync) = true ∨ config = [] ∨
    (!judgeSyncStandbysNum ctl info (checkSyncStandbysNum config standbys)) = true then [] else _), _
  split
  · simp
  split
  · simp
  rw [Option.isSome_map, syncPositions, foldlM_isSome_iff (P := fun x => x.1.syncrepMethod = .quorum →
    NthCall.Inside ⟨standbys.filter fun s => s.syncStandbyGroup = x.2,
      if ctl.mostAvailableSync ∧ (standbys.filter fun s => s.syncStandbyGroup = x.2).length < x.1.numSync % 256 then
        (standbys.filter fun s => s.syncStandbyGroup = x.2).length % 256 else x.1.numSync % 256⟩)]
  · constructor
    · intro h call hcall
      obtain ⟨x, hx, heq⟩ := List.mem_filterMap.1 hcall
      cases hm : x.1.syncrepMethod with
      | priority => rw [hm] at heq; cases heq
      | quorum =>
        rw [hm] at heq
        cases heq
        exact h x hx hm
    · intro h x hx hm
      exact h _ (List.mem_filterMap.2 ⟨x, hx, by rw [hm]; rfl⟩)
  · intro acc x _
    cases hm : x.1.syncrepMethod with
    | priority => simp
    | quorum => exact syncRepGetNthLatestSyncRecPtr_isSome.trans ⟨fun h _ => h, fun h => h rfl⟩

/-- The writes and reads stay inside their arrays exactly while a place is left for the copies, and every quorum group
whose position is taken asks for one and has standbys, all of them in the own cluster. -/
theorem quorum_arrays_iff {pgStrcasecmp : String → String → Bool} {config : List SyncRepConfigData}
    (hconfig : transformSynchronousStandbyNames pgStrcasecmp config = some config) (v : WalSndView) (info : LocalInfo)
    (checkAmSync : Bool) (memory : ℕ → SyncRepStandbyData) :
    InsideArrays v config info checkAmSync memory ↔
      PlaceLeft v config ∧
        (Asked v config info checkAmSync → ∀ i conf, config[i]? = some conf → conf.syncrepMethod = .quorum →
          GroupRead v conf i) := by
  rcases transform_methods hconfig with hall | ⟨conf, rfl, hconf⟩
  · constructor
    · rintro ⟨hstandbys, hpositions⟩
      refine ⟨(standbys_inside_quorum hall).1 hstandbys, fun hasked i conf h _ => ?_⟩
      exact (nthCallOf_inside hasked h).1 (hpositions _ ((mem_nthCalls hall).2 ⟨hasked, i, conf, h, rfl⟩))
    · rintro ⟨hplace, hgroups⟩
      refine ⟨(standbys_inside_quorum hall).2 hplace, fun call hcall => ?_⟩
      obtain ⟨hasked, i, conf, h, rfl⟩ := (mem_nthCalls hall).1 hcall
      exact (nthCallOf_inside hasked h).2 (hgroups hasked i conf h (hall conf (List.mem_of_getElem? h)))
  · -- a priority group takes no position by its index
    obtain ⟨hwritten, hplace⟩ := standbys_inside_single v conf memory
    refine iff_of_true ⟨hwritten, fun call hcall => ?_⟩ ⟨hplace, fun _ i c h hc => ?_⟩
    · unfold nthCalls at hcall
      dsimp only at hcall
      split at hcall
      · cases hcall
      · split at hcall
        · cases hcall
        · simp [hconf] at hcall
    · rw [List.mem_singleton.1 (List.mem_of_getElem? h), hconf] at hc
      cases hc

/-- `ANY 1 (a)` with its standby. -/
def anyOfOne : List SyncRepConfigData := [⟨1, .quorum, ["a"]⟩]

def streaming (pid group : ℕ) : WalSnd := ⟨pid, .streaming, .standby, ⟨100, 100, 100, 100⟩, group, 1, false⟩

lemma anyOfOne_accepted : transformSynchronousStandbyNames (fun p q => p == q) anyOfOne = some anyOfOne := by
  decide

theorem quorum_arrays_iff_one :
    InsideArrays ⟨[streaming 7 0], none, true⟩ anyOfOne ⟨false, 100, 100⟩ false
      (fun _ => ⟨⟨0, 0, 0, 0⟩, 0, 0, 0, false, false⟩) := by
  refine (quorum_arrays_iff anyOfOne_accepted _ _ _ _).2 ⟨fun _ last hlast => ?_, fun _ i conf h _ => ?_⟩
  · obtain rfl : streaming 7 0 = last := Option.some.inj hlast
    rfl
  · obtain ⟨rfl, rfl⟩ : i = 0 ∧ conf = ⟨1, .quorum, ["a"]⟩ := by
      cases i with
      | zero => exact ⟨rfl, (Option.some.inj h).symm⟩
      | succ i => cases h
    exact ⟨by decide, ⟨_, List.mem_cons_self, by decide⟩, by decide⟩

/-- `ANY 1 (a, b), ANY 1 (c)` -/
def anyOfTwoGroups : List SyncRepConfigData := [⟨1, .quorum, ["a", "b"]⟩, ⟨1, .quorum, ["c"]⟩]

/-- With both wal senders in the first group, the second group's copies go behind the array. -/
theorem not_quorum_arrays :
    transformSynchronousStandbyNames (fun p q => p == q) anyOfTwoGroups = some anyOfTwoGroups ∧
      ∀ memory, ¬ InsideArrays ⟨[streaming 7 0, streaming 8 0], none, false⟩ anyOfTwoGroups ⟨false, 100, 100⟩ false
        memory := by
  refine ⟨by decide, fun memory h => ?_⟩
  have hmem : 2 ∈ (getSyncStandbys ⟨[streaming 7 0, streaming 8 0], none, false⟩ anyOfTwoGroups
      ⟨memory, []⟩).1.written := by
    simp [getSyncStandbys, getSyncStandbysInGroup, anyOfTwoGroups, collect, collectStep, streaming, syncCandidate,
      InvalidXLogRecPtr, Traced.write]
  exact absurd (h.standbys 2 hmem) (by decide)

end GaussKernel.Replication
