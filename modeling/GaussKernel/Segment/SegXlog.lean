import GaussKernel.Segment.BlockMap

/-!
# Redo of a segment space

The redo functions of `segxlog.cpp` for metadata pages, the dispatch over all records of a segment space, and the
runs of a primary. In every run whose frees are logged in full (`FreeLogged`), redoing the log from the same start
state reproduces the pages of the primary, and no check of the redo functions fails.
-/

namespace GaussKernel.Segment

open Lib
open Function (update update_self update_of_ne)

/-! ## The redo functions -/

def redoUpdateSeghead (head : SegmentHead) (data : UpdateSegmentHeadData) : Option SegmentHead :=
  if data.nblocks ≠ head.nblocks then none
  else if data.totalBlocks = 0 ∧ data.nextents ≠ 0 then none
  else some { head with
    level0Slots := match data.level0Slot with
      | some slot => update head.level0Slots slot data.level0Value
      | none => head.level0Slots
    level1Slots := match data.level1Slot with
      | some slot => update head.level1Slots slot data.level1Value
      | none => head.level1Slots
    nextents := data.nextents
    totalBlocks := data.totalBlocks }

def redoShrinkSegheadUpdate (head : SegmentHead) (extentId newExtent oldExtent : ℕ) : Option SegmentHead :=
  if extentId < BMT_HEADER_LEVEL0_SLOTS then
    if head.level0Slots extentId = oldExtent then some (head.setLevel0 extentId newExtent) else none
  else some head

/-- The loop of `redo_move_buckets`. -/
def redoMoveBuckets (headBlock : ℕ → ℕ) : List (ℕ × ℕ) → ℕ → ℕ
  | [] => headBlock
  | (id, header) :: entries => redoMoveBuckets (update headBlock id header) entries

/-- A record on a metadata page. -/
def redoSegPage (block : ℕ) : SegPage → SegRecord → Option SegPage
  | _, .initSeghead lsn => some (.segmentHead (initSegmentHead block lsn))
  | .segmentHead head, .updateSeghead data => (redoUpdateSeghead head data).map .segmentHead
  | _, .newLevel0Page firstExtent => some (.level0 (initLevel0Page firstExtent))
  | .level0 page, .level0PageAddExtent slot extent => some (.level0 ⟨update page.slots slot extent⟩)
  | .segmentHead head, .segheadAddForkSegment forknum forkhead =>
    some (.segmentHead { head with forkHead := update head.forkHead forknum forkhead })
  | page, .unlinkSegheadPtr offset => page.unlink offset
  | _, .initBucketHead lsn => some (.bktMain (initBktMainHead lsn))
  | .bktMain head, .bucketFreeMapblock mapId =>
    some (.bktMain { head with bktMap := update head.bktMap mapId InvalidBlockNumber })
  | .bktMain head, .bucketAddMapblock blockid mapblock =>
    some (.bktMain { head with bktMap := update head.bktMap blockid mapblock })
  | _, .bucketInitMapblock lsn => some (.bktMap (initBktHeadMapBlock lsn))
  | .bktMap map, .bucketAddBkthead entry head =>
    some (.bktMap { map with headBlock := update map.headBlock entry head })
  | .bktMap map, .segMoveBuckets entries => some (.bktMap { map with headBlock := redoMoveBuckets map.headBlock entries })
  | .bktMain head, .bucketAddRedisinfo info => some (.bktMain { head with redisInfo := info })
  | .segmentHead head, .shrinkSegheadUpdate extentId newExtent oldExtent =>
    (redoShrinkSegheadUpdate head extentId newExtent oldExtent).map .segmentHead
  | .segmentHead head, .segmentExtend oldNblocks newNblocks =>
    if head.nblocks = oldNblocks then some (.segmentHead { head with nblocks := newNblocks }) else none
  | _, _ => none

/-- `redo_atomic_xlog_dispatch`, and the records that are not part of an atomic operation. -/
def redoSpace (space : SegSpace) : SpaceRecord → Option SegSpace
  | .eg extentSize forknum record =>
    (redoEg (space.extentGroup extentSize forknum) record).map (space.setGroup extentSize forknum)
  | .seg block record => (redoSegPage block (space.segPages block) record).map (space.setPage block)

/-! ## Replay on a space -/

/-- All pages are equal: map heads, map pages, inverse pointers and metadata pages. -/
structure SegSpace.SamePages (s t : SegSpace) : Prop where
  groups : ∀ n f, (s.extentGroup n f).SamePages (t.extentGroup n f)
  pages : s.segPages = t.segPages

lemma SegSpace.SamePages.setGroup {s t : SegSpace} (h : s.SamePages t) {n f : ℕ} {eg eg' : ExtentGroup}
    (he : eg.SamePages eg') : (s.setGroup n f eg).SamePages (t.setGroup n f eg') where
  groups n' f' := by
    by_cases hk : n' = n ∧ f' = f
    · obtain ⟨rfl, rfl⟩ := hk
      rw [setGroup_self, setGroup_self]
      exact he
    · rw [setGroup_of_ne hk, setGroup_of_ne hk]
      exact h.groups n' f'
  pages := h.pages

lemma redoSpace_same {s t s' : SegSpace} {r : SpaceRecord} (h : s.SamePages t) (hrun : redoSpace s r = some s') :
    ∃ t', redoSpace t r = some t' ∧ s'.SamePages t' := by
  cases r with
  | eg n f r =>
    obtain ⟨eg, heg, hres⟩ := Option.map_eq_some_iff.mp hrun
    cases hres
    obtain ⟨eg', heg', hsame⟩ := redoEg_same (h.groups n f) heg
    exact ⟨_, Option.map_eq_some_iff.mpr ⟨eg', heg', rfl⟩, h.setGroup hsame⟩
  | seg block r =>
    obtain ⟨page, hpage, hres⟩ := Option.map_eq_some_iff.mp hrun
    cases hres
    rw [h.pages] at hpage
    refine ⟨_, Option.map_eq_some_iff.mpr ⟨page, hpage, rfl⟩, h.groups, ?_⟩
    unfold SegSpace.setPage
    rw [h.pages]

def spaceReplay : Replay SegSpace SpaceRecord where
  redo := redoSpace
  Same := SegSpace.SamePages
  refl _ := ⟨fun _ _ => .refl _, rfl⟩
  trans h h' := ⟨fun n f => (h.groups n f).trans (h'.groups n f), h.pages.trans h'.pages⟩
  redo_same := redoSpace_same

/-- One extent group as a part of the space. -/
def groupPart (n f : ℕ) : egReplay.Part spaceReplay where
  get space := space.extentGroup n f
  set space := space.setGroup n f
  record := .eg n f
  get_set _ _ := setGroup_self
  set_set _ _ _ := setGroup_setGroup
  set_get _ := setGroup_get
  redo_record _ _ := rfl
  same_set h := (spaceReplay.refl _ : SegSpace.SamePages _ _).setGroup h

/-- The record is not about the group. -/
def SpaceRecord.Apart (n f : ℕ) : SpaceRecord → Prop
  | .eg n' f' _ => ¬ (n' = n ∧ f' = f)
  | .seg _ _ => True

/-- Records of a group can be redone before records about anything else. -/
lemma SpaceRecord.Apart.commutes {n f : ℕ} {r : SpaceRecord} (h : r.Apart n f) (r' : EgRecord) :
    spaceReplay.Commutes r (.eg n f r') := by
  cases r with
  | eg n₁ f₁ r =>
    have h' : ¬ (n = n₁ ∧ f = f₁) := fun hn => h ⟨hn.1.symm, hn.2.symm⟩
    refine .of_parts (fun _ => rfl) (fun _ => rfl) (fun _ _ => ?_) (fun _ _ => ?_) fun _ _ _ => setGroup_comm h'
    · rw [setGroup_of_ne h]
    · rw [setGroup_of_ne h']
  | seg block r =>
    exact .of_parts (fun _ => rfl) (fun _ => rfl) (fun _ _ => rfl) (fun _ _ => rfl) fun _ _ _ => rfl

/-! ## Logged operations -/

def SegPage.Ok : SegPage → Prop
  | .segmentHead head => head.Ok
  | _ => True

/-- What the primary keeps: files in whole steps, and segment heads that count their blocks. -/
structure SegSpace.Ok (space : SegSpace) : Prop where
  files : ∀ n f, IsExtentSize n → (space.extentGroup n f).FileOk
  pages : ∀ block, (space.segPages block).Ok

/-- The records of the operation so far reproduce what it did. -/
structure AtomicOp.Logged (s : SegSpace) (op : AtomicOp) : Prop where
  reproduces : spaceReplay.Reproduces s op.wal op.space
  ok : op.space.Ok

section Logged

variable {s : SegSpace} {op op' : AtomicOp} {n f : ℕ}

lemma AtomicOp.Logged.start (h : s.Ok) : AtomicOp.Logged s (.start s) :=
  ⟨.nil s, h⟩

variable {space : SegSpace} {block : ℕ}

lemma SegSpace.Ok.setGroup (h : space.Ok) {eg : ExtentGroup} (hfile : IsExtentSize n → eg.FileOk) :
    (space.setGroup n f eg).Ok where
  files n' f' hsize := by
    by_cases hk : n' = n ∧ f' = f
    · obtain ⟨rfl, rfl⟩ := hk
      rw [setGroup_self]
      exact hfile hsize
    · rw [setGroup_of_ne hk]
      exact h.files n' f' hsize
  pages := h.pages

lemma AtomicOp.Logged.registerPage (h : AtomicOp.Logged s op) {page : SegPage} {r : SegRecord}
    (hredo : redoSegPage block (op.space.segPages block) r = some page) (hok : page.Ok) :
    AtomicOp.Logged s (op.registerPage block page r) := by
  refine ⟨?_, h.ok.files, fun b => ?_⟩
  · have hstep : spaceReplay.Reproduces op.space [.seg block r] (op.space.setPage block page) :=
      .single (Option.map_eq_some_iff.mpr ⟨page, hredo, rfl⟩) (spaceReplay.refl _)
    have := h.reproduces.append hstep
    rwa [AtomicOp.wal, List.append_assoc] at this
  · unfold AtomicOp.registerPage SegSpace.setPage
    dsimp only
    rcases eq_or_ne b block with rfl | hb
    · rw [update_self]
      exact hok
    · rw [update_of_ne hb]
      exact h.ok.pages b

/-- The operation has only registered records of extent groups other than the given one. -/
def AtomicOp.Apart (op : AtomicOp) (n f : ℕ) : Prop := ∀ r ∈ op.pending, r.Apart n f

lemma AtomicOp.apart_start (s : SegSpace) (n f : ℕ) : (AtomicOp.start s).Apart n f := by
  intro r hr
  cases hr

/-- The records that `eg_alloc_extent` writes at once overtake the registered ones, which are about other
groups. -/
lemma AtomicOp.Logged.alloc (h : AtomicOp.Logged s op) (hsize : IsExtentSize n) (hapart : op.Apart n f) {fuel : ℕ}
    {preassigned : Option ℕ} {iptr : ExtentInversePointer}
    (hrun : spcAllocExtent fuel op n f preassigned iptr = some (block, op')) :
    AtomicOp.Logged s op' ∧ op'.space.segPages = op.space.segPages ∧
      ∀ n' f', ¬ (n' = n ∧ f' = f) → op.Apart n' f' → op'.Apart n' f' := by
  obtain ⟨⟨block', eg, log, pending⟩, halloc, hres⟩ := Option.bind_eq_some_iff.mp hrun
  cases hres
  have heg := egAllocExtent_logged (h.ok.files n f hsize) halloc
  refine ⟨⟨?_, h.ok.setGroup fun _ => heg.fileOk (h.ok.files n f hsize)⟩, rfl, ?_⟩
  · have hlift := h.reproduces.append (heg.reproduces.lift (groupPart n f))
    rw [List.map_append] at hlift
    refine hlift.swap fun r hr r' hr' => ?_
    obtain ⟨e, _, rfl⟩ := List.mem_map.mp hr'
    exact (hapart r hr).commutes e
  · intro n' f' hne hother r hr
    rcases List.mem_append.mp hr with hr | hr
    · exact hother r hr
    · obtain ⟨r', _, rfl⟩ := List.mem_map.mp hr
      exact fun hk => hne ⟨hk.1.symm, hk.2.symm⟩

lemma AtomicOp.Logged.free (h : AtomicOp.Logged s op) {blocknum : ℕ}
    (hfree : FreeLogged (op.space.extentGroup n f) blocknum)
    (hrun : spcFreeExtent op n f blocknum = some op') :
    AtomicOp.Logged s op' ∧ op'.space.segPages = op.space.segPages ∧
      ∀ n' f', ¬ (n' = n ∧ f' = f) → op'.space.extentGroup n' f' = op.space.extentGroup n' f' := by
  unfold spcFreeExtent at hrun
  split at hrun
  · cases hrun
  · obtain ⟨⟨eg, pending⟩, heg, hres⟩ := Option.bind_eq_some_iff.mp hrun
    cases hres
    have heg := egFreeExtent_logged hfree heg
    refine ⟨⟨?_, h.ok.setGroup fun hsize => heg.fileOk (h.ok.files n f hsize)⟩, rfl, ?_⟩
    · have := h.reproduces.append (heg.reproduces.lift (groupPart n f))
      rwa [AtomicOp.wal, List.append_assoc] at this
    · intro n' f' hne
      exact setGroup_of_ne hne

/-! ## Segment heads -/

variable {head head' : SegmentHead}

/-- The record of a head carries everything that changed: the counts, and one slot of each level at most. -/
lemma redoUpdateSeghead_eq {l0 l1 : Option ℕ} (hframe : head' = { head with
      nextents := head'.nextents
      totalBlocks := head'.totalBlocks
      level0Slots := head'.level0Slots
      level1Slots := head'.level1Slots })
    (h0 : ∀ i, l0 ≠ some i → head'.level0Slots i = head.level0Slots i)
    (h1 : ∀ i, l1 ≠ some i → head'.level1Slots i = head.level1Slots i) (hok : head'.Ok) :
    redoUpdateSeghead head ⟨l0, (l0.map head'.level0Slots).getD InvalidBlockNumber, l1,
      (l1.map head'.level1Slots).getD InvalidBlockNumber, head'.nblocks, head'.totalBlocks,
      head'.nextents⟩ = some head' := by
  have hslots : ∀ (a b : ℕ → ℕ) (l : Option ℕ), (∀ i, l ≠ some i → a i = b i) →
      (match l with
        | some slot => update b slot ((l.map a).getD InvalidBlockNumber)
        | none => b) = a := by
    intro a b l h
    cases l with
    | none =>
      funext i
      exact (h i nofun).symm
    | some j =>
      funext i
      change update b j (a j) i = a i
      rcases eq_or_ne i j with rfl | hi
      · rw [update_self]
      · rw [update_of_ne hi, h i fun he => hi (Option.some.inj he).symm]
  have hnblocks : head'.nblocks = head.nblocks := by rw [hframe]
  unfold redoUpdateSeghead
  dsimp only
  rw [if_neg (not_not.mpr hnblocks), if_neg fun hz => hz.2 (hok.eq_zero hz.1), hslots _ _ _ h0, hslots _ _ _ h1,
    ← hframe]

lemma segPages_of_segmentHead (h : space.segmentHead block = some head) : space.segPages block = .segmentHead head := by
  unfold SegSpace.segmentHead at h
  split at h
  case h_1 heq =>
    cases h
    exact heq
  case h_2 => cases h

lemma segPages_of_level0Page {page : BMTLevel0Page} (h : space.level0Page block = some page) :
    space.segPages block = .level0 page := by
  unfold SegSpace.level0Page at h
  split at h
  case h_1 heq =>
    cases h
    exact heq
  case h_2 => cases h

lemma segPages_of_bktMainHead {main : BktMainHead} (h : space.bktMainHead block = some main) :
    space.segPages block = .bktMain main := by
  unfold SegSpace.bktMainHead at h
  split at h
  case h_1 heq =>
    cases h
    exact heq
  case h_2 => cases h

lemma segPages_of_bktHeadMapBlock {map : BktHeadMapBlock} (h : space.bktHeadMapBlock block = some map) :
    space.segPages block = .bktMap map := by
  unfold SegSpace.bktHeadMapBlock at h
  split at h
  case h_1 heq =>
    cases h
    exact heq
  case h_2 => cases h

lemma SegSpace.Ok.headOk (h : space.Ok) (hpage : space.segPages block = .segmentHead head) : head.Ok := by
  have := h.pages block
  rwa [hpage] at this

lemma AtomicOp.Logged.segHeadUpdateXlog (h : AtomicOp.Logged s op) {block : ℕ}
    (hpage : op.space.segPages block = .segmentHead head) {l0 l1 : Option ℕ}
    (hframe : head' = { head with
      nextents := head'.nextents
      totalBlocks := head'.totalBlocks
      level0Slots := head'.level0Slots
      level1Slots := head'.level1Slots })
    (h0 : ∀ i, l0 ≠ some i → head'.level0Slots i = head.level0Slots i)
    (h1 : ∀ i, l1 ≠ some i → head'.level1Slots i = head.level1Slots i) (hok : head'.Ok) :
    AtomicOp.Logged s (segHeadUpdateXlog op block head' l0 l1) := by
  refine h.registerPage ?_ hok
  rw [hpage]
  exact Option.map_eq_some_iff.mpr ⟨head', redoUpdateSeghead_eq hframe h0 h1 hok, rfl⟩

lemma update_of_ne_some {a : ℕ → ℕ} {j b : ℕ} (i : ℕ) (h : some j ≠ some i) :
    update a j b i = a i :=
  update_of_ne (fun hi => h (congrArg some hi.symm)) _ _

/-! ## The operations -/

lemma AtomicOp.Logged.recordOnLevel0Page (h : AtomicOp.Logged s op) {id newExtent : ℕ}
    (hrun : segRecordNewExtentOnLevel0Page op head id newExtent = some op') :
    AtomicOp.Logged s op' ∧ ∀ block head₁, op.space.segPages block = .segmentHead head₁ →
      op'.space.segPages block = .segmentHead head₁ := by
  obtain ⟨page, hpage, hres⟩ := Option.bind_eq_some_iff.mp hrun
  cases hres
  have hpage := segPages_of_level0Page hpage
  refine ⟨h.registerPage ?_ trivial, ?_⟩
  · rw [hpage]
    rfl
  · intro block head₁ hhead
    have hne : block ≠ head.level1Slots (extentIdToLevel1Slot id) := by
      rintro rfl
      rw [hpage] at hhead
      cases hhead
    exact (update_of_ne hne _ _).trans hhead

lemma AtomicOp.Logged.initNewLevel0Page (h : AtomicOp.Logged s op) {headBlock level0Page firstExtent : ℕ}
    (hpage : op.space.segPages headBlock = .segmentHead head)
    (hrun : segInitNewLevel0Page op head.nextents headBlock level0Page firstExtent = some op') :
    AtomicOp.Logged s op' := by
  obtain ⟨head₁, hhead₁, hrun⟩ := Option.bind_eq_some_iff.mp hrun
  have hpage₁ := segPages_of_segmentHead hhead₁
  have hlog := h.registerPage (show redoSegPage level0Page _ (.newLevel0Page firstExtent)
    = some (.level0 (initLevel0Page firstExtent)) from rfl) trivial
  -- the head is not the page that was just initialised
  have hne : headBlock ≠ level0Page := by
    rintro rfl
    cases (update_self _ _ _).symm.trans hpage₁
  cases (hpage.symm.trans (update_of_ne hne _ _).symm).trans hpage₁
  dsimp only at hrun
  split at hrun
  case isFalse => cases hrun
  case isTrue hslot =>
    cases hrun
    have hlt : head.nextents < BMT_HEADER_LEVEL0_SLOTS + BMT_HEADER_LEVEL1_SLOTS * BMT_LEVEL0_SLOTS := by
      simp only [extentIdToLevel1Slot, BMT_HEADER_LEVEL0_SLOTS, BMT_HEADER_LEVEL1_SLOTS, BMT_LEVEL0_SLOTS] at *
      omega
    have hadd := (hlog.ok.headOk hpage₁).addExtent hlt
    exact hlog.segHeadUpdateXlog hpage₁ rfl (fun _ _ => rfl) (fun i hi => update_of_ne_some i hi)
      ⟨hadd.nextents, hadd.totalBlocks⟩

theorem segExtendSegment_logged (hok : s.Ok) {fuel forknum headBlock : ℕ}
    (hrun : segExtendSegment fuel s forknum headBlock = some op) : AtomicOp.Logged s op := by
  obtain ⟨head, hhead, hrun⟩ := Option.bind_eq_some_iff.mp hrun
  obtain ⟨⟨newExtent, op₁⟩, halloc, hrun⟩ := Option.bind_eq_some_iff.mp hrun
  obtain ⟨hlog, hpages, hother⟩ := (AtomicOp.Logged.start hok).alloc (isExtentSize_byCount _)
    (AtomicOp.apart_start s _ _) halloc
  have hpage : op₁.space.segPages headBlock = .segmentHead head := by
    rw [hpages]
    exact segPages_of_segmentHead hhead
  have hheadOk := hlog.ok.headOk hpage
  dsimp only at hrun
  split at hrun
  case isTrue hlt =>
    cases hrun
    have hadd := hheadOk.addExtent (hlt.trans_le (Nat.le_add_right _ _))
    exact hlog.segHeadUpdateXlog hpage rfl (fun i hi => update_of_ne_some i hi) (fun _ _ => rfl)
      ⟨hadd.nextents, hadd.totalBlocks⟩
  case isFalse hge =>
    split at hrun
    case isTrue hnew =>
      -- the new level-0 page is the only case with two extent groups
      obtain ⟨⟨level0Page, op₂⟩, halloc₂, hrun⟩ := Option.bind_eq_some_iff.mp hrun
      have hapart : op₁.Apart SEGMENT_HEAD_EXTENT_SIZE MAIN_FORKNUM :=
        hother _ _ (fun hk => extentSizeByCount_ne_one _ hk.1.symm) (AtomicOp.apart_start s _ _)
      obtain ⟨hlog₂, hpages₂, _⟩ := hlog.alloc isExtentSize_one hapart halloc₂
      exact hlog₂.initNewLevel0Page ((congrFun hpages₂ _).trans hpage) hrun
    case isFalse hnew =>
      obtain ⟨op₂, hrec, hrun⟩ := Option.bind_eq_some_iff.mp hrun
      cases hrun
      obtain ⟨hlog₂, hkeep⟩ := hlog.recordOnLevel0Page hrec
      refine hlog₂.segHeadUpdateXlog (hkeep _ _ hpage) rfl (fun _ _ => rfl) (fun _ _ => rfl) (hheadOk.addExtent ?_)
      refine lt_of_le_of_ne hheadOk.nextents fun hfull => hnew ⟨not_lt.mp hge, ?_⟩
      rw [hfull, Nat.add_sub_cancel_left, Nat.mul_mod_left]

theorem freeLastExtent_logged (hok : s.Ok) {forknum headBlock : ℕ} {head : SegmentHead}
    (hhead : s.segmentHead headBlock = some head)
    (hfree : ∀ block, segExtentLocation s head (head.nextents - 1) = some block →
      FreeLogged (s.extentGroup (extentSizeByCount (head.nextents - 1)) forknum) block)
    (hfree₀ : requireNewLevel0Page (head.nextents - 1) →
      FreeLogged (s.extentGroup SEGMENT_HEAD_EXTENT_SIZE MAIN_FORKNUM)
        (head.level1Slots (extentIdToLevel1Slot (head.nextents - 1))))
    (hrun : freeLastExtent s forknum headBlock = some op) : AtomicOp.Logged s op := by
  unfold freeLastExtent at hrun
  rw [hhead, Option.bind_eq_bind, Option.bind_some] at hrun
  split at hrun
  case isTrue => cases hrun
  case isFalse hpos =>
    obtain ⟨extBlk, hloc, hrun⟩ := Option.bind_eq_some_iff.mp hrun
    obtain ⟨op₁, hfree₁, hrun⟩ := Option.bind_eq_some_iff.mp hrun
    obtain ⟨hlog, hpages, hother⟩ := (AtomicOp.Logged.start hok).free (hfree extBlk hloc) hfree₁
    have hpage : op₁.space.segPages headBlock = .segmentHead head := by
      rw [hpages]
      exact segPages_of_segmentHead hhead
    have hdrop := (hlog.ok.headOk hpage).dropExtent hpos
    dsimp only at hrun
    split at hrun
    · cases hrun
    · split at hrun
      case isTrue hnew =>
        obtain ⟨op₂, hfree₂, hrun⟩ := Option.bind_eq_some_iff.mp hrun
        cases hrun
        have hgroup : op₁.space.extentGroup SEGMENT_HEAD_EXTENT_SIZE MAIN_FORKNUM
            = s.extentGroup SEGMENT_HEAD_EXTENT_SIZE MAIN_FORKNUM :=
          hother _ _ fun hk => extentSizeByCount_ne_one _ hk.1.symm
        obtain ⟨hlog₂, hpages₂, _⟩ := hlog.free (hgroup ▸ hfree₀ hnew) hfree₂
        exact hlog₂.segHeadUpdateXlog ((congrFun hpages₂ _).trans hpage) rfl (fun _ _ => rfl)
          (fun i hi => update_of_ne_some i hi) ⟨hdrop.nextents, hdrop.totalBlocks⟩
      case isFalse =>
        cases hrun
        exact hlog.segHeadUpdateXlog hpage rfl (fun _ _ => rfl) (fun _ _ => rfl) hdrop

theorem segExtend_logged (hok : s.Ok) {headBlock blocknum : ℕ}
    (hrun : segExtend s headBlock blocknum = some op) : AtomicOp.Logged s op := by
  obtain ⟨head, hhead, hrun⟩ := Option.bind_eq_some_iff.mp hrun
  have hpage := segPages_of_segmentHead hhead
  have hheadOk := hok.headOk hpage
  split at hrun
  case isTrue =>
    cases hrun
    refine (AtomicOp.Logged.start hok).registerPage ?_ ⟨hheadOk.nextents, hheadOk.totalBlocks⟩
    unfold AtomicOp.start
    rw [hpage]
    exact if_pos rfl
  case isFalse =>
    cases hrun
    exact .start hok

lemma AtomicOp.Logged.normalAllocSegment (h : AtomicOp.Logged s op)
    (hapart : op.Apart SEGMENT_HEAD_EXTENT_SIZE MAIN_FORKNUM) {fuel lsn : ℕ} {preassigned : Option ℕ}
    {iptr : ExtentInversePointer} (hrun : normalAllocSegment fuel op preassigned iptr lsn = some (block, op')) :
    AtomicOp.Logged s op' := by
  obtain ⟨⟨block', op₁⟩, halloc, hrun⟩ := Option.bind_eq_some_iff.mp hrun
  cases hrun
  obtain ⟨hlog, _, _⟩ := h.alloc isExtentSize_one hapart halloc
  exact hlog.registerPage rfl ⟨Nat.zero_le _, rfl⟩

theorem segAllocSegment_logged (hok : s.Ok) {fuel lsn block : ℕ} {preassigned : Option ℕ}
    (hrun : segAllocSegment fuel s preassigned lsn = some (block, op)) : AtomicOp.Logged s op :=
  (AtomicOp.Logged.start hok).normalAllocSegment (AtomicOp.apart_start s _ _) hrun

theorem normalOpenSegment_logged (hok : s.Ok) {fuel mainBlock forknum lsn : ℕ}
    (hrun : normalOpenSegment fuel s mainBlock forknum lsn = some op) : AtomicOp.Logged s op := by
  obtain ⟨main, _, hrun⟩ := Option.bind_eq_some_iff.mp hrun
  split at hrun
  · cases hrun
  · split at hrun
    · obtain ⟨⟨newHead, op₁⟩, halloc, hrun⟩ := Option.bind_eq_some_iff.mp hrun
      obtain ⟨main₁, hmain₁, hrun⟩ := Option.bind_eq_some_iff.mp hrun
      cases hrun
      have hlog := (AtomicOp.Logged.start hok).normalAllocSegment (AtomicOp.apart_start s _ _) halloc
      have hpage := segPages_of_segmentHead hmain₁
      have hmainOk := hlog.ok.headOk hpage
      refine hlog.registerPage ?_ ⟨hmainOk.nextents, hmainOk.totalBlocks⟩
      rw [hpage]
      rfl
    · cases hrun
      exact .start hok

lemma SegPage.Ok.unlink {page page' : SegPage} (h : page.Ok) {offset : OwnerPointer}
    (hrun : page.unlink offset = some page') : page'.Ok := by
  cases page with
  | segmentHead head =>
    cases offset with
    | forkHead i =>
      cases hrun
      have h : head.Ok := h
      exact ⟨h.nextents, h.totalBlocks⟩
    | headBlock k => cases hrun
  | bktMap map =>
    cases offset with
    | forkHead i => cases hrun
    | headBlock k =>
      cases hrun
      trivial
  | empty => cases hrun
  | level0 page => cases hrun
  | bktMain head => cases hrun

theorem unlinkSegment_logged (hok : s.Ok) {headBlock ownerBlock : ℕ} {offset : OwnerPointer}
    (hfree : FreeLogged (s.extentGroup SEGMENT_HEAD_EXTENT_SIZE MAIN_FORKNUM) headBlock)
    (hrun : unlinkSegment s headBlock ownerBlock offset = some op) : AtomicOp.Logged s op := by
  obtain ⟨op₁, hfree₁, hrun⟩ := Option.bind_eq_some_iff.mp hrun
  obtain ⟨page, hpage, hrun⟩ := Option.bind_eq_some_iff.mp hrun
  cases hrun
  obtain ⟨hlog, _, _⟩ := (AtomicOp.Logged.start hok).free hfree hfree₁
  refine hlog.registerPage ?_ ((hlog.ok.pages ownerBlock).unlink hpage)
  unfold redoSegPage
  exact hpage

theorem bucketAllocMainHead_logged (hok : s.Ok) {fuel lsn block : ℕ}
    (hrun : bucketAllocMainHead fuel s lsn = some (block, op)) : AtomicOp.Logged s op := by
  obtain ⟨⟨block', op₁⟩, halloc, hrun⟩ := Option.bind_eq_some_iff.mp hrun
  cases hrun
  obtain ⟨hlog, _, _⟩ := (AtomicOp.Logged.start hok).alloc isExtentSize_one (AtomicOp.apart_start s _ _) halloc
  exact hlog.registerPage rfl trivial

theorem bucketEnsureMapblock_logged (hok : s.Ok) {fuel mainBlock blockid lsn : ℕ}
    (hrun : bucketEnsureMapblock fuel s mainBlock blockid lsn = some op) : AtomicOp.Logged s op := by
  obtain ⟨main, _, hrun⟩ := Option.bind_eq_some_iff.mp hrun
  split at hrun
  · cases hrun
  · split at hrun
    · obtain ⟨⟨newmap, op₁⟩, halloc, hrun⟩ := Option.bind_eq_some_iff.mp hrun
      obtain ⟨main₁, hmain₁, hrun⟩ := Option.bind_eq_some_iff.mp hrun
      cases hrun
      obtain ⟨hlog, _, _⟩ := (AtomicOp.Logged.start hok).alloc isExtentSize_one (AtomicOp.apart_start s _ _) halloc
      have hlog₁ := hlog.registerPage (show redoSegPage newmap _ (.bucketInitMapblock lsn)
        = some (.bktMap (initBktHeadMapBlock lsn)) from rfl) trivial
      refine hlog₁.registerPage ?_ trivial
      rw [segPages_of_bktMainHead hmain₁]
      rfl
    · cases hrun
      exact .start hok

theorem bucketOpenSegment_logged (hok : s.Ok) {fuel mainBlock bucketid forknum lsn : ℕ}
    (hrun : bucketOpenSegment fuel s mainBlock bucketid forknum lsn = some op) : AtomicOp.Logged s op := by
  obtain ⟨main, _, hrun⟩ := Option.bind_eq_some_iff.mp hrun
  obtain ⟨⟨mapBlock, entry⟩, _, hrun⟩ := Option.bind_eq_some_iff.mp hrun
  dsimp only at hrun
  split at hrun
  · cases hrun
  · obtain ⟨map, _, hrun⟩ := Option.bind_eq_some_iff.mp hrun
    split at hrun
    · obtain ⟨⟨head, op₁⟩, halloc, hrun⟩ := Option.bind_eq_some_iff.mp hrun
      obtain ⟨map₁, hmap₁, hrun⟩ := Option.bind_eq_some_iff.mp hrun
      cases hrun
      have hlog := (AtomicOp.Logged.start hok).normalAllocSegment (AtomicOp.apart_start s _ _) halloc
      refine hlog.registerPage ?_ trivial
      rw [segPages_of_bktHeadMapBlock hmap₁]
      rfl
    · cases hrun
      exact .start hok

theorem bucketFreeOneMapblock_logged (hok : s.Ok) {mainBlock mapId : ℕ} {main : BktMainHead}
    (hmain : s.bktMainHead mainBlock = some main)
    (hfree : FreeLogged (s.extentGroup SEGMENT_HEAD_EXTENT_SIZE MAIN_FORKNUM) (main.bktMap mapId))
    (hrun : bucketFreeOneMapblock s mainBlock mapId = some op) : AtomicOp.Logged s op := by
  unfold bucketFreeOneMapblock at hrun
  rw [hmain, Option.bind_eq_bind, Option.bind_some] at hrun
  obtain ⟨op₁, hfree₁, hrun⟩ := Option.bind_eq_some_iff.mp hrun
  cases hrun
  obtain ⟨hlog, hpages, _⟩ := (AtomicOp.Logged.start hok).free hfree hfree₁
  refine hlog.registerPage ?_ trivial
  have hpage : op₁.space.segPages mainBlock = .bktMain main := by
    rw [hpages]
    exact segPages_of_bktMainHead hmain
  rw [hpage]
  rfl

theorem moveDataExtent_logged (hok : s.Ok) (hsize : IsExtentSize n) {fuel extent : ℕ}
    {iptr : ExtentInversePointer} (hrun : moveDataExtent fuel s n f extent iptr = some op) :
    AtomicOp.Logged s op := by
  obtain ⟨head, hhead, hrun⟩ := Option.bind_eq_some_iff.mp hrun
  dsimp only at hrun
  split at hrun
  · cases hrun
    exact .start hok
  · obtain ⟨curr, hcurr, hrun⟩ := Option.bind_eq_some_iff.mp hrun
    split at hrun
    · cases hrun
      exact .start hok
    · rename_i hmove
      obtain ⟨⟨newExtent, op₁⟩, halloc, hrun⟩ := Option.bind_eq_some_iff.mp hrun
      obtain ⟨hlog, hpages, _⟩ := (AtomicOp.Logged.start hok).alloc hsize (AtomicOp.apart_start s _ _) halloc
      have hpage : op₁.space.segPages iptr.owner = .segmentHead head := by
        rw [hpages]
        exact segPages_of_segmentHead hhead
      have hheadOk := hlog.ok.headOk hpage
      dsimp only at hrun
      split at hrun
      case isTrue hlevel0 =>
        cases hrun
        refine hlog.registerPage ?_ ⟨hheadOk.nextents, hheadOk.totalBlocks⟩
        -- the slot holds the extent that is moved, which is what redo checks
        have hold : head.level0Slots (iptr.flag % 2 ^ 18) = extent := by
          unfold segExtentLocation at hcurr
          rw [if_pos hlevel0] at hcurr
          exact (Option.some.inj hcurr).trans (not_not.mp hmove)
        rw [hpage]
        unfold redoSegPage redoShrinkSegheadUpdate
        dsimp only
        rw [if_pos hlevel0, if_pos hold, Option.map_some]
      case isFalse hlevel1 =>
        obtain ⟨op₂, hrec, hrun⟩ := Option.bind_eq_some_iff.mp hrun
        obtain ⟨head₂, hhead₂, hrun⟩ := Option.bind_eq_some_iff.mp hrun
        cases hrun
        obtain ⟨hlog₂, _⟩ := hlog.recordOnLevel0Page hrec
        have hpage₂ := segPages_of_segmentHead hhead₂
        refine hlog₂.registerPage ?_ (hlog₂.ok.headOk hpage₂)
        rw [hpage₂]
        unfold redoSegPage redoShrinkSegheadUpdate
        dsimp only
        rw [if_neg hlevel1, Option.map_some]

theorem spcShrinkHwm_logged (hok : s.Ok) {target : ℕ} (hrun : spcShrinkHwm s n f target = some op) :
    AtomicOp.Logged s op := by
  obtain ⟨⟨eg, pending⟩, heg, hrun⟩ := Option.bind_eq_some_iff.mp hrun
  cases hrun
  have heg := shrinkHwm_logged heg
  exact ⟨heg.reproduces.lift (groupPart n f), hok.setGroup fun hsize => heg.fileOk (hok.files n f hsize)⟩

end Logged

/-! ## Runs -/

/-- The atomic operations of a primary. -/
inductive SegOp where
  | segAllocSegment (fuel : ℕ) (preassigned : Option ℕ) (lsn : ℕ)
  | segExtendSegment (fuel forknum headBlock : ℕ)
  | freeLastExtent (forknum headBlock : ℕ)
  | segExtend (headBlock blocknum : ℕ)
  | normalOpenSegment (fuel mainBlock forknum lsn : ℕ)
  | unlinkSegment (headBlock ownerBlock : ℕ) (offset : OwnerPointer)
  | spcFreeExtent (extentSize forknum blocknum : ℕ)
  | bucketAllocMainHead (fuel lsn : ℕ)
  | bucketEnsureMapblock (fuel mainBlock blockid lsn : ℕ)
  | bucketOpenSegment (fuel mainBlock bucketid forknum lsn : ℕ)
  | bucketFreeOneMapblock (mainBlock mapId : ℕ)
  | moveDataExtent (fuel extentSize forknum extent : ℕ) (iptr : ExtentInversePointer)
      (hsize : IsExtentSize extentSize)
  | shrinkHwm (extentSize forknum target : ℕ)

def SegOp.exec (space : SegSpace) : SegOp → Option AtomicOp
  | .segAllocSegment fuel preassigned lsn => (Segment.segAllocSegment fuel space preassigned lsn).map Prod.snd
  | .segExtendSegment fuel forknum headBlock => Segment.segExtendSegment fuel space forknum headBlock
  | .freeLastExtent forknum headBlock => Segment.freeLastExtent space forknum headBlock
  | .segExtend headBlock blocknum => Segment.segExtend space headBlock blocknum
  | .normalOpenSegment fuel mainBlock forknum lsn => Segment.normalOpenSegment fuel space mainBlock forknum lsn
  | .unlinkSegment headBlock ownerBlock offset => Segment.unlinkSegment space headBlock ownerBlock offset
  | .spcFreeExtent extentSize forknum blocknum => Segment.spcFreeExtent (.start space) extentSize forknum blocknum
  | .bucketAllocMainHead fuel lsn => (Segment.bucketAllocMainHead fuel space lsn).map Prod.snd
  | .bucketEnsureMapblock fuel mainBlock blockid lsn =>
    Segment.bucketEnsureMapblock fuel space mainBlock blockid lsn
  | .bucketOpenSegment fuel mainBlock bucketid forknum lsn =>
    Segment.bucketOpenSegment fuel space mainBlock bucketid forknum lsn
  | .bucketFreeOneMapblock mainBlock mapId => Segment.bucketFreeOneMapblock space mainBlock mapId
  | .moveDataExtent fuel extentSize forknum extent iptr _ =>
    Segment.moveDataExtent fuel space extentSize forknum extent iptr
  | .shrinkHwm extentSize forknum target => spcShrinkHwm space extentSize forknum target

/-- `Frees space op n f block`: the operation frees the extent `block` of size `n` in the file of fork `f`. -/
def SegOp.Frees (space : SegSpace) : SegOp → ℕ → ℕ → ℕ → Prop
  | .freeLastExtent forknum headBlock, n, f, block => ∃ head, space.segmentHead headBlock = some head ∧
      ((n = extentSizeByCount (head.nextents - 1) ∧ f = forknum ∧
          segExtentLocation space head (head.nextents - 1) = some block) ∨
        (requireNewLevel0Page (head.nextents - 1) ∧ n = SEGMENT_HEAD_EXTENT_SIZE ∧ f = MAIN_FORKNUM ∧
          block = head.level1Slots (extentIdToLevel1Slot (head.nextents - 1))))
  | .unlinkSegment headBlock _ _, n, f, block => n = SEGMENT_HEAD_EXTENT_SIZE ∧ f = MAIN_FORKNUM ∧
      block = headBlock
  | .spcFreeExtent extentSize forknum blocknum, n, f, block => n = extentSize ∧ f = forknum ∧ block = blocknum
  | .bucketFreeOneMapblock mainBlock mapId, n, f, block => ∃ main, space.bktMainHead mainBlock = some main ∧
      n = SEGMENT_HEAD_EXTENT_SIZE ∧ f = MAIN_FORKNUM ∧ block = main.bktMap mapId
  | _, _, _, _ => False

/-- Every extent that the operation frees is logged in full. -/
def SegOp.FreesLogged (space : SegSpace) (op : SegOp) : Prop :=
  ∀ n f block, op.Frees space n f block → FreeLogged (space.extentGroup n f) block

/-- A step of the primary: one atomic operation, with the records it leaves in the log. -/
def SegStep (space : SegSpace) (log : List SpaceRecord) (space' : SegSpace) : Prop :=
  ∃ op res, SegOp.exec space op = some res ∧ op.FreesLogged space ∧ log = res.wal ∧ space' = res.space

lemma SegOp.exec_logged {s : SegSpace} (hok : s.Ok) {op : SegOp} {res : AtomicOp}
    (hrun : op.exec s = some res) (hfree : op.FreesLogged s) : AtomicOp.Logged s res := by
  cases op with
  | segAllocSegment fuel preassigned lsn =>
    obtain ⟨⟨block, res'⟩, halloc, rfl⟩ := Option.map_eq_some_iff.mp hrun
    exact segAllocSegment_logged hok halloc
  | segExtendSegment fuel forknum headBlock => exact segExtendSegment_logged hok hrun
  | freeLastExtent forknum headBlock =>
    obtain ⟨head, hhead, _⟩ := Option.bind_eq_some_iff.mp hrun
    refine freeLastExtent_logged hok hhead (fun block hblock => ?_) (fun hnew => ?_) hrun
    · exact hfree _ _ _ ⟨head, hhead, .inl ⟨rfl, rfl, hblock⟩⟩
    · exact hfree _ _ _ ⟨head, hhead, .inr ⟨hnew, rfl, rfl, rfl⟩⟩
  | segExtend headBlock blocknum => exact segExtend_logged hok hrun
  | normalOpenSegment fuel mainBlock forknum lsn => exact normalOpenSegment_logged hok hrun
  | unlinkSegment headBlock ownerBlock offset =>
    exact unlinkSegment_logged hok (hfree _ _ _ ⟨rfl, rfl, rfl⟩) hrun
  | spcFreeExtent extentSize forknum blocknum =>
    exact ((AtomicOp.Logged.start hok).free (hfree _ _ _ ⟨rfl, rfl, rfl⟩) hrun).1
  | bucketAllocMainHead fuel lsn =>
    obtain ⟨⟨block, res'⟩, halloc, rfl⟩ := Option.map_eq_some_iff.mp hrun
    exact bucketAllocMainHead_logged hok halloc
  | bucketEnsureMapblock fuel mainBlock blockid lsn => exact bucketEnsureMapblock_logged hok hrun
  | bucketOpenSegment fuel mainBlock bucketid forknum lsn => exact bucketOpenSegment_logged hok hrun
  | bucketFreeOneMapblock mainBlock mapId =>
    obtain ⟨main, hmain, _⟩ := Option.bind_eq_some_iff.mp hrun
    exact bucketFreeOneMapblock_logged hok hmain (hfree _ _ _ ⟨main, hmain, rfl, rfl, rfl⟩) hrun
  | moveDataExtent fuel extentSize forknum extent iptr hsize => exact moveDataExtent_logged hok hsize hrun
  | shrinkHwm extentSize forknum target => exact spcShrinkHwm_logged hok hrun

/-- Redoing the log of a run from its start state succeeds, and all pages are those of the primary. -/
theorem spaceReplay_run {s s' : SegSpace} {log : List SpaceRecord} (hok : s.Ok)
    (hrun : Replay.Run SegStep s log s') :
    ∃ t, spaceReplay.replay s log = some t ∧ s'.SamePages t := by
  refine (Replay.Run.reproduces (fun {s₁ log₁ s₂} (hok : SegSpace.Ok s₁) hstep => ?_) hok hrun).2
  obtain ⟨op, res, hexec, hfree, rfl, rfl⟩ := hstep
  have hlog := SegOp.exec_logged hok hexec hfree
  exact ⟨hlog.ok, hlog.reproduces⟩

/-- A space with one file, of extents of 8 blocks. -/
def oneFileSpace (eg : ExtentGroup) (pages : ℕ → SegPage) : SegSpace where
  extentGroup n f := if n = 8 ∧ f = MAIN_FORKNUM then eg else emptyGroup n
  segPages := pages

lemma oneFileSpace_ok {eg : ExtentGroup} {pages : ℕ → SegPage} (heg : eg.FileOk) (hpages : ∀ b, (pages b).Ok) :
    (oneFileSpace eg pages).Ok where
  files n f hn := by
    unfold oneFileSpace
    dsimp only
    split
    · exact heg
    · exact ⟨hn, rfl, Nat.two_pow_pos 32, fun h => (h rfl).elim⟩
  pages := hpages

/-- A file with one map group, in which the first extent is allocated. -/
def oneExtentGroup : ExtentGroup where
  extentSize := 8
  totalBlocks := 16384
  mapHead := ⟨8, 1, 0, 1, 4165, fun _ => ⟨3, 0, 64⟩⟩
  mapPages := fun _ => ⟨⟨4157, 1, 0, 65247⟩, {0}⟩
  ipPages := fun _ _ => ⟨0, 0⟩

/-- The head of a segment that has this extent. -/
def oneExtentHead : SegmentHead := ⟨0, 3, 1, 8, fun _ => 4157, fun _ => 0, fun _ => InvalidBlockNumber⟩

def oneExtentSpace : SegSpace :=
  oneFileSpace oneExtentGroup fun block => if block = 4157 then .segmentHead oneExtentHead else .empty

lemma oneExtentSpace_ok : oneExtentSpace.Ok := by
  refine oneFileSpace_ok ⟨.inr (.inl rfl), rfl, by decide, fun _ => rfl⟩ fun block => ?_
  split
  · exact ⟨by decide, by decide⟩
  · trivial

/-- The last extent of a segment is freed. -/
theorem spaceReplay_run_oneExtent : oneExtentSpace.Ok ∧ ∃ res,
    SegOp.exec oneExtentSpace (.freeLastExtent MAIN_FORKNUM 4157) = some res ∧
    ∃ t, spaceReplay.replay oneExtentSpace res.wal = some t ∧ res.space.SamePages t := by
  obtain ⟨res, hres⟩ : ∃ res, SegOp.exec oneExtentSpace (.freeLastExtent MAIN_FORKNUM 4157) = some res := ⟨_, rfl⟩
  have hfree : (SegOp.freeLastExtent MAIN_FORKNUM 4157).FreesLogged oneExtentSpace := by
    rintro n f block ⟨head, hhead, ⟨rfl, rfl, hblock⟩ | ⟨hnew, _⟩⟩
    · cases hhead
      cases hblock
      exact .inl (le_refl 0)
    · cases hhead
      exact absurd hnew (by decide)
  have hrun : Replay.Run SegStep oneExtentSpace ([] ++ res.wal) res.space :=
    .snoc .nil ⟨_, res, hres, hfree, rfl, rfl⟩
  exact ⟨oneExtentSpace_ok, res, hres, spaceReplay_run oneExtentSpace_ok hrun⟩

/-! ## A free that is not logged in full -/

/-- A map page with all its extents allocated. -/
def fullPage (firstPage : ℕ) : MapPage :=
  ⟨⟨firstPage, DF_MAP_BIT_CNT, DF_MAP_BIT_CNT - 1, 0⟩, Finset.range DF_MAP_BIT_CNT⟩

/-- Two map groups of extents of 8 blocks. In the first group all extents but the very first are allocated, in the
second the extents of the first page and one of the second page. -/
def twoMapGroups : ExtentGroup where
  extentSize := 8
  totalBlocks := 33947648
  mapHead := ⟨8, 2, 0, 4241120, 33937279, fun i => if i = 0 then ⟨3, 0, 64⟩ else ⟨33411133, 1, 64⟩⟩
  mapPages := fun block =>
    if block = 3 then ⟨⟨4157, 0, DF_MAP_BIT_CNT - 1, 1⟩, (Finset.range DF_MAP_BIT_CNT).erase 0⟩
    else if block < 67 then fullPage (4157 + (block - 3) * DF_MAP_BIT_CNT * 8)
    else if block = 33411133 then fullPage 33415287
    else if block = 33411134 then ⟨⟨33937271, 1, 0, DF_MAP_BIT_CNT - 1⟩, {0}⟩
    else egInitBitmapPageContent (33415287 + (block - 33411133) * DF_MAP_BIT_CNT * 8)
  ipPages := fun _ _ => ⟨6 * 2 ^ 28, 4157⟩

/-- The first extent of the second group is freed: the primary moves the free page of that group to its first page,
but the record carries the free page of the first group, so that the standby keeps the second page. -/
lemma twoMapGroups_free : ∃ eg log t, egFreeExtent twoMapGroups 33415287 = some (eg, log) ∧
    egReplay.replay twoMapGroups log = some t ∧ (eg.mapHead.groups 1).freePage = 0 ∧
    (t.mapHead.groups 1).freePage = 1 := by
  have hloc : egLocateMapByPageid 8 33415287 twoMapGroups.mapHead = ⟨⟨33411133, 1, 64⟩, 0, 0, 1⟩ := by
    decide +kernel
  have hpage : twoMapGroups.mapPages 33411133 = fullPage 33415287 := rfl
  have hbit : 0 ∈ (fullPage 33415287).bitmap := Finset.mem_range.mpr (by decide)
  obtain ⟨q, hq⟩ : ∃ q, egUnsetBitmapPage (fullPage 33415287) 0 = some q := ⟨_, if_pos hbit⟩
  have hfree : egFreeExtent twoMapGroups 33415287 = some (
      { twoMapGroups with
        mapHead := twoMapGroups.mapHead.free 1 0
        mapPages := update twoMapGroups.mapPages 33411133 q },
      [.freeBitmap 33411133 0 q.toDfMapPage 33415287,
        .mapheadAllocatedExtents ⟨33937279, 4241119, 0, 0⟩]) := by
    unfold egFreeExtent
    dsimp only
    rw [show twoMapGroups.extentSize = 8 from rfl, hloc, if_neg (by decide)]
    change (egUnsetBitmapPage (twoMapGroups.mapPages 33411133) 0).bind _ = _
    rw [hpage, hq]
    rfl
  have hredo : egReplay.replay twoMapGroups
      [.freeBitmap 33411133 0 q.toDfMapPage 33415287, .mapheadAllocatedExtents ⟨33937279, 4241119, 0, 0⟩]
      = some { twoMapGroups with
        mapHead := redoMapheadAllocatedExtents twoMapGroups.mapHead ⟨33937279, 4241119, 0, 0⟩
        mapPages := update twoMapGroups.mapPages 33411133 q } := by
    have hunset : redoEg twoMapGroups (.freeBitmap 33411133 0 q.toDfMapPage 33415287)
        = some { twoMapGroups with mapPages := update twoMapGroups.mapPages 33411133 q } :=
      Option.bind_eq_some_iff.mpr ⟨q, hpage ▸ redoUnsetBitmap_eq hq, rfl⟩
    exact Option.bind_eq_some_iff.mpr ⟨_, hunset, rfl⟩
  exact ⟨_, _, _, hfree, hredo, rfl, rfl⟩

def twoMapGroupsSpace : SegSpace := oneFileSpace twoMapGroups fun _ => .empty

/-- One free, after which the standby does not have the pages of the primary. -/
theorem free_page_not_replayed : twoMapGroupsSpace.Ok ∧ ∃ res t,
    SegOp.exec twoMapGroupsSpace (.spcFreeExtent 8 MAIN_FORKNUM 33415287) = some res ∧
    spaceReplay.replay twoMapGroupsSpace res.wal = some t ∧
    ((res.space.extentGroup 8 MAIN_FORKNUM).mapHead.groups 1).freePage = 0 ∧
    ((t.extentGroup 8 MAIN_FORKNUM).mapHead.groups 1).freePage = 1 ∧ ¬ res.space.SamePages t := by
  obtain ⟨eg, log, t, hfree, hredo, hprimary, hstandby⟩ := twoMapGroups_free
  have hexec : SegOp.exec twoMapGroupsSpace (.spcFreeExtent 8 MAIN_FORKNUM 33415287)
      = some ⟨twoMapGroupsSpace.setGroup 8 MAIN_FORKNUM eg, [], log.map (.eg 8 MAIN_FORKNUM)⟩ := by
    have hgroup : twoMapGroupsSpace.extentGroup 8 MAIN_FORKNUM = twoMapGroups := rfl
    have hfile : ¬ twoMapGroups.totalBlocks = 0 := by decide
    unfold SegOp.exec spcFreeExtent AtomicOp.start
    dsimp only
    rw [hgroup, if_neg hfile, hfree]
    rfl
  have hreplay : spaceReplay.replay twoMapGroupsSpace (log.map (.eg 8 MAIN_FORKNUM))
      = some (twoMapGroupsSpace.setGroup 8 MAIN_FORKNUM t) := by
    refine ((groupPart 8 MAIN_FORKNUM).replay_map twoMapGroupsSpace log).trans ?_
    exact Option.map_eq_some_iff.mpr ⟨t, hredo, rfl⟩
  refine ⟨oneFileSpace_ok ⟨.inr (.inl rfl), by decide, by decide, fun _ => rfl⟩ fun _ => trivial, _, _, hexec, hreplay,
    ?_, ?_, fun hsame => ?_⟩
  · rw [setGroup_self, hprimary]
  · rw [setGroup_self, hstandby]
  · obtain ⟨total, htotal⟩ := hsame.groups 8 MAIN_FORKNUM
    rw [setGroup_self, setGroup_self] at htotal
    rw [htotal] at hstandby
    exact absurd (hprimary.symm.trans hstandby) (by decide)

end GaussKernel.Segment
