import GaussKernel.Transam.CsnLog

/-!
# Extending the log of commit sequence numbers

Model of `ExtendCSNLOG` (`csnlog.cpp`) in the build with a transaction manager: pages are zeroed in batches from the
last one on, or from that of the recent global xmin on when it lies behind. The calls are serialized by a lock; a call
may end in an error of its own or in one of `SimpleLruZeroPage`.

No page is zeroed again for a transaction whose call returned. Each such transaction has a page unless a call jumped
over it (`Skips`): the page of the xmin is behind that of the transaction, but in the same batch.
-/

namespace GaussKernel.Transam

/-- `BATCH_SIZE` -/
abbrev BATCH_SIZE : ℕ := 32

/-- The marks `lastExtendCSNLogpage` and `startExtendCSNLogpage` of `ShmemVariableCache`. -/
structure ExtendMarks where
  lastExtendCSNLogpage : ℕ
  startExtendCSNLogpage : ℕ
  deriving DecidableEq

/-- A call, with `sn_recent_global_xmin` of its session and the pages that are zeroed without an error. -/
structure ExtendCall where
  newestXact : TransactionId
  recentGlobalXmin : TransactionId
  zeroes : ℕ → Bool

/-- `StartupCSNLOG` -/
def startupCSNLOG (nextXid : TransactionId) : ExtendMarks where
  lastExtendCSNLogpage := csnPage (nextXid - 1)
  startExtendCSNLogpage := 0

/-- Zeroing one page after the other up to the first error: the pages that are zeroed, and whether all are. -/
def zeroPages (zeroes : ℕ → Bool) : List ℕ → List ℕ × Bool
  | [] => ([], true)
  | pageno :: rest =>
    if zeroes pageno then
      let (zeroed, returned) := zeroPages zeroes rest
      (pageno :: zeroed, returned)
    else ([], false)

/-- The end of the batch: `(pageno + BATCH_SIZE) & ~(BATCH_SIZE - 1)`. -/
def newExtendPage (pageno : ℕ) : ℕ := (pageno + BATCH_SIZE) / BATCH_SIZE * BATCH_SIZE

/-- The last transaction of the last page. -/
def lastExtendTransactionId (lastExtendPage : ℕ) : TransactionId :=
  BitVec.ofNat 64 ((lastExtendPage + 1) * CSNLOG_XACTS_PER_PAGE - 1)

/-- The pages before the recent global xmin need not be extended. -/
def startsFromXmin (v : ExtendMarks) (c : ExtendCall) : Bool :=
  FirstNormalTransactionId ≤ c.recentGlobalXmin && v.lastExtendCSNLogpage < csnPage c.recentGlobalXmin

/-- The rest of the batch behind `lastExtendPage`. -/
def extendBatch (v : ExtendMarks) (c : ExtendCall) (lastExtendPage : ℕ) : ExtendMarks × List ℕ × Bool :=
  let newExtendPage := newExtendPage (csnPage c.newestXact)
  if newExtendPage ≤ lastExtendPage then (v, [], false)
  else
    let (zeroed, returned) := zeroPages c.zeroes
      (List.range' (lastExtendPage + 1) (newExtendPage - (lastExtendPage + 1)))
    if returned then ({ v with lastExtendCSNLogpage := newExtendPage - 1 }, zeroed, true) else (v, zeroed, false)

/-- `ExtendCSNLOG`: the marks, the pages that were zeroed, and whether it returned without an error. -/
def extendCSNLOG (v : ExtendMarks) (c : ExtendCall) : ExtendMarks × List ℕ × Bool :=
  if c.newestXact = InvalidTransactionId then (v, [], true)
  else if csnPage c.newestXact < v.startExtendCSNLogpage then (v, [], false)
  else if lastExtendTransactionId v.lastExtendCSNLogpage < c.newestXact then
    if startsFromXmin v c then
      let oldestUsedPage := csnPage c.recentGlobalXmin
      if c.zeroes oldestUsedPage then
        let (v, zeroed, returned) := extendBatch { v with startExtendCSNLogpage := oldestUsedPage } c oldestUsedPage
        (v, oldestUsedPage :: zeroed, returned)
      else (v, [], false)
    else extendBatch v c v.lastExtendCSNLogpage
  else (v, [], true)

/-! ## Runs -/

/-- The marks with the pages zeroed since startup and the transactions whose calls returned. -/
structure ExtendHistory where
  marks : ExtendMarks
  zeroed : List ℕ
  done : List TransactionId

namespace ExtendHistory

def startup (nextXid : TransactionId) : ExtendHistory := ⟨startupCSNLOG nextXid, [], []⟩

def call (h : ExtendHistory) (c : ExtendCall) : ExtendHistory :=
  let (marks, zeroed, returned) := extendCSNLOG h.marks c
  ⟨marks, zeroed ++ h.zeroed, if returned then c.newestXact :: h.done else h.done⟩

def run (h : ExtendHistory) (calls : List ExtendCall) : ExtendHistory := calls.foldl call h

end ExtendHistory

/-- Every transaction whose call returned has a page, and the last page is not before it. -/
structure Covered (startPage : ℕ) (h : ExtendHistory) : Prop where
  page : ∀ xid ∈ h.done, csnPage xid ≤ startPage ∨ csnPage xid ∈ h.zeroed
  last : ∀ xid ∈ h.done, csnPage xid ≤ h.marks.lastExtendCSNLogpage

/-- A call zeroes no page at or before that of a transaction whose call returned. -/
def ErasesNone (h : ExtendHistory) (c : ExtendCall) : Prop :=
  ∀ pageno ∈ (extendCSNLOG h.marks c).2.1, ∀ xid ∈ h.done, csnPage xid < pageno

/-- At every time of a run, the log covers what was extended, and the next call erases none of it. -/
def RunSound (nextXid : TransactionId) (calls : List ExtendCall) : Prop :=
  ∀ pre post, calls = pre ++ post →
    Covered (csnPage (nextXid - 1)) ((ExtendHistory.startup nextXid).run pre) ∧
      ∀ c rest, post = c :: rest → ErasesNone ((ExtendHistory.startup nextXid).run pre) c

/-- The call starts from the xmin's page, which is behind the transaction's page in the same batch, and gets to its end;
and the transaction's page was not zeroed before. -/
structure Skips (h : ExtendHistory) (c : ExtendCall) : Prop where
  normal : FirstNormalTransactionId ≤ c.recentGlobalXmin
  start : h.marks.startExtendCSNLogpage ≤ csnPage c.newestXact
  beyond : h.marks.lastExtendCSNLogpage < csnPage c.newestXact
  behind : csnPage c.newestXact < csnPage c.recentGlobalXmin
  batch : csnPage c.recentGlobalXmin < newExtendPage (csnPage c.newestXact)
  zeroes : ∀ q, csnPage c.recentGlobalXmin ≤ q → q < newExtendPage (csnPage c.newestXact) → c.zeroes q = true
  missing : csnPage c.newestXact ∉ h.zeroed

/-! ## One call -/

section

variable {v : ExtendMarks} {c : ExtendCall} {h : ExtendHistory} {zeroes : ℕ → Bool} {pages : List ℕ}

lemma zeroPages_subset : ∀ q ∈ (zeroPages zeroes pages).1, q ∈ pages := by
  induction pages with
  | nil => exact fun _ hq => hq
  | cons p pages ih =>
    rw [zeroPages]
    split
    · intro q hq
      cases List.mem_cons.mp hq with
      | inl hp => exact hp ▸ List.mem_cons_self
      | inr hq => exact List.mem_cons_of_mem _ (ih q hq)
    · exact nofun

lemma zeroPages_all (h : ∀ q ∈ pages, zeroes q = true) : zeroPages zeroes pages = (pages, true) := by
  induction pages with
  | nil => rfl
  | cons p pages ih =>
    obtain ⟨hp, hpages⟩ := List.forall_mem_cons.mp h
    rw [zeroPages, if_pos hp, ih hpages]

lemma zeroPages_returned (h : (zeroPages zeroes pages).2 = true) : ∀ q ∈ pages, zeroes q = true := by
  induction pages with
  | nil => exact nofun
  | cons p pages ih =>
    rw [zeroPages] at h
    split at h
    case isTrue hp => exact List.forall_mem_cons.mpr ⟨hp, ih h⟩
    case isFalse => cases h

lemma csnPage_lt (xid : TransactionId) : csnPage xid < 2 ^ 54 := by
  have hlt := xid.isLt
  rw [csnPage, CSNLOG_XACTS_PER_PAGE]
  omega

lemma newExtendPage_bounds {pageno : ℕ} (hlt : pageno < 2 ^ 54) :
    pageno < newExtendPage pageno ∧ newExtendPage pageno ≤ 2 ^ 54 := by
  rw [newExtendPage, BATCH_SIZE]
  omega

/-- Comparing with the last transaction of a page is comparing pages. -/
lemma lastExtendTransactionId_lt {lastExtendPage : ℕ} (hlt : lastExtendPage < 2 ^ 54) (xid : TransactionId) :
    lastExtendTransactionId lastExtendPage < xid ↔ lastExtendPage < csnPage xid := by
  have hfits : (lastExtendPage + 1) * CSNLOG_XACTS_PER_PAGE - 1 < 2 ^ 64 := by
    rw [CSNLOG_XACTS_PER_PAGE]
    omega
  rw [lastExtendTransactionId, BitVec.lt_def, BitVec.toNat_ofNat, Nat.mod_eq_of_lt hfits, csnPage,
    CSNLOG_XACTS_PER_PAGE]
  omega

lemma startsFromXmin_iff : startsFromXmin v c = true ↔
    FirstNormalTransactionId ≤ c.recentGlobalXmin ∧ v.lastExtendCSNLogpage < csnPage c.recentGlobalXmin := by
  rw [startsFromXmin, Bool.and_eq_true, decide_eq_true_eq, decide_eq_true_eq]

/-- The batch behind a page: an error, or all its pages. -/
lemma extendBatch_cases (v : ExtendMarks) (c : ExtendCall) (lastExtendPage : ℕ) :
    (∃ zeroed, extendBatch v c lastExtendPage = (v, zeroed, false) ∧ ∀ q ∈ zeroed, lastExtendPage < q) ∨
      ∃ zeroed, extendBatch v c lastExtendPage =
          ({ v with lastExtendCSNLogpage := newExtendPage (csnPage c.newestXact) - 1 }, zeroed, true) ∧
        lastExtendPage < newExtendPage (csnPage c.newestXact) ∧
        (∀ q, q ∈ zeroed ↔ lastExtendPage < q ∧ q < newExtendPage (csnPage c.newestXact)) ∧
        ∀ q ∈ zeroed, c.zeroes q = true := by
  rw [extendBatch]
  dsimp only
  split
  case isTrue => exact .inl ⟨[], rfl, nofun⟩
  case isFalse hlt =>
    have hrange : ∀ q,
        q ∈ List.range' (lastExtendPage + 1) (newExtendPage (csnPage c.newestXact) - (lastExtendPage + 1)) ↔
          lastExtendPage < q ∧ q < newExtendPage (csnPage c.newestXact) := by
      intro q
      rw [List.mem_range'_1]
      omega
    split
    case isTrue hall =>
      have hzeroes := zeroPages_returned hall
      rw [zeroPages_all hzeroes]
      exact .inr ⟨_, rfl, Nat.lt_of_not_le hlt, hrange, hzeroes⟩
    case isFalse => exact .inl ⟨_, rfl, fun q hq => ((hrange q).mp (zeroPages_subset q hq)).1⟩

/-- What a call does: nothing, an error before or after it zeroed pages, the pages from the last one on to the end of
the batch, or those from the xmin's page on. -/
inductive Extended (v : ExtendMarks) (c : ExtendCall) : ExtendMarks × List ℕ × Bool → Prop where
  | idle :
    c.newestXact = InvalidTransactionId ∨
      v.startExtendCSNLogpage ≤ csnPage c.newestXact ∧ csnPage c.newestXact ≤ v.lastExtendCSNLogpage →
    Extended v c (v, [], true)
  | failed {start : ℕ} {zeroed : List ℕ} :
    start = v.startExtendCSNLogpage ∨ v.lastExtendCSNLogpage < start →
    (∀ q ∈ zeroed, v.lastExtendCSNLogpage < q) →
    Extended v c (⟨v.lastExtendCSNLogpage, start⟩, zeroed, false)
  | batch {zeroed : List ℕ} :
    v.lastExtendCSNLogpage < csnPage c.newestXact →
    (∀ q, q ∈ zeroed ↔ v.lastExtendCSNLogpage < q ∧ q < newExtendPage (csnPage c.newestXact)) →
    Extended v c (⟨newExtendPage (csnPage c.newestXact) - 1, v.startExtendCSNLogpage⟩, zeroed, true)
  | fromXmin {zeroed : List ℕ} :
    FirstNormalTransactionId ≤ c.recentGlobalXmin →
    v.startExtendCSNLogpage ≤ csnPage c.newestXact →
    v.lastExtendCSNLogpage < csnPage c.newestXact →
    v.lastExtendCSNLogpage < csnPage c.recentGlobalXmin →
    csnPage c.recentGlobalXmin < newExtendPage (csnPage c.newestXact) →
    (∀ q, q ∈ zeroed ↔ csnPage c.recentGlobalXmin ≤ q ∧ q < newExtendPage (csnPage c.newestXact)) →
    (∀ q ∈ zeroed, c.zeroes q = true) →
    Extended v c (⟨newExtendPage (csnPage c.newestXact) - 1, csnPage c.recentGlobalXmin⟩, zeroed, true)

lemma extendCSNLOG_extended (hv : v.lastExtendCSNLogpage < 2 ^ 54) (c : ExtendCall) :
    Extended v c (extendCSNLOG v c) := by
  rw [extendCSNLOG]
  split
  case isTrue hinvalid => exact .idle (.inl hinvalid)
  case isFalse =>
    split
    case isTrue => exact .failed (.inl rfl) nofun
    case isFalse hstart =>
      have hstart := Nat.le_of_not_lt hstart
      have hlast := lastExtendTransactionId_lt hv c.newestXact
      split
      case isFalse hle => exact .idle (.inr ⟨hstart, Nat.le_of_not_lt fun h => hle (hlast.mpr h)⟩)
      case isTrue hbeyond =>
        have hbeyond := hlast.mp hbeyond
        split
        case isFalse =>
          obtain ⟨zeroed, heq, hzeroed⟩ | ⟨zeroed, heq, hlt, hzeroed, -⟩ := extendBatch_cases v c v.lastExtendCSNLogpage
          · rw [heq]
            exact .failed (.inl rfl) hzeroed
          · rw [heq]
            exact .batch hbeyond hzeroed
        case isTrue hxmin =>
          obtain ⟨hnormal, hbehind⟩ := startsFromXmin_iff.mp hxmin
          dsimp only
          split
          case isFalse => exact .failed (.inl rfl) nofun
          case isTrue hfirst =>
            obtain ⟨zeroed, heq, hzeroed⟩ | ⟨zeroed, heq, hlt, hzeroed, hzeroes⟩ :=
              extendBatch_cases { v with startExtendCSNLogpage := csnPage c.recentGlobalXmin } c
                (csnPage c.recentGlobalXmin)
            · rw [heq]
              refine .failed (.inr hbehind) (List.forall_mem_cons.mpr ⟨hbehind, fun q hq => ?_⟩)
              exact hbehind.trans (hzeroed q hq)
            · rw [heq]
              refine .fromXmin hnormal hstart hbeyond hbehind hlt (fun q => ?_)
                (List.forall_mem_cons.mpr ⟨hfirst, hzeroes⟩)
              rw [List.mem_cons, hzeroed]
              omega

/-- A call that starts from the xmin's page and meets no error. -/
lemma Skips.extendCSNLOG (h' : Skips h c) (hv : h.marks.lastExtendCSNLogpage < 2 ^ 54) :
    ∃ marks zeroed, extendCSNLOG h.marks c = (marks, zeroed, true) ∧
      ∀ q ∈ zeroed, csnPage c.recentGlobalXmin ≤ q := by
  have hbehind := h'.beyond.trans h'.behind
  have hvalid : c.newestXact ≠ InvalidTransactionId := by
    intro hinvalid
    have hbeyond := h'.beyond
    rw [hinvalid] at hbeyond
    exact absurd hbeyond (Nat.not_lt_zero _)
  have hall : zeroPages c.zeroes (List.range' (csnPage c.recentGlobalXmin + 1)
      (newExtendPage (csnPage c.newestXact) - (csnPage c.recentGlobalXmin + 1))) = (_, true) :=
    zeroPages_all fun q hq => by
      have hbounds := List.mem_range'_1.mp hq
      have hbatch := h'.batch
      exact h'.zeroes q (by omega) (by omega)
  rw [Transam.extendCSNLOG, if_neg hvalid, if_neg (Nat.not_lt.mpr h'.start),
    if_pos ((lastExtendTransactionId_lt hv _).mpr h'.beyond), if_pos (startsFromXmin_iff.mpr ⟨h'.normal, hbehind⟩)]
  dsimp only
  rw [if_pos (h'.zeroes _ le_rfl h'.batch), extendBatch]
  dsimp only
  rw [if_neg (Nat.not_le.mpr h'.batch), hall]
  refine ⟨_, _, rfl, List.forall_mem_cons.mpr ⟨le_rfl, fun q hq => ?_⟩⟩
  have hbounds := List.mem_range'_1.mp hq
  omega

/-! ## All calls -/

/-- What every call maintains: the pages between the marks are zeroed. -/
structure ExtendInv (startPage : ℕ) (h : ExtendHistory) : Prop where
  start : startPage ≤ h.marks.lastExtendCSNLogpage
  small : h.marks.lastExtendCSNLogpage < 2 ^ 54
  filled : ∀ q, h.marks.startExtendCSNLogpage ≤ q → startPage < q → q ≤ h.marks.lastExtendCSNLogpage → q ∈ h.zeroed
  last : ∀ xid ∈ h.done, csnPage xid ≤ h.marks.lastExtendCSNLogpage

variable {startPage : ℕ}

lemma ExtendInv.startup (nextXid : TransactionId) :
    ExtendInv (csnPage (nextXid - 1)) (ExtendHistory.startup nextXid) :=
  ⟨le_rfl, csnPage_lt _, fun _ _ hlt hle => absurd hlt (Nat.not_lt.mpr hle), nofun⟩

lemma csnPage_invalid : csnPage InvalidTransactionId = 0 := rfl

section

variable (hinv : ExtendInv startPage h)
include hinv

lemma ExtendInv.call (c : ExtendCall) : ExtendInv startPage (h.call c) := by
  obtain ⟨hstart, hsmall, hfilled, hlast⟩ := hinv
  have hpage := newExtendPage_bounds (csnPage_lt c.newestXact)
  -- where the last page moves, it moves to the end of the batch
  have hmoved : h.marks.lastExtendCSNLogpage < csnPage c.newestXact →
      h.marks.lastExtendCSNLogpage ≤ newExtendPage (csnPage c.newestXact) - 1 ∧
        newExtendPage (csnPage c.newestXact) - 1 < 2 ^ 54 ∧
        ∀ xid ∈ c.newestXact :: h.done, csnPage xid ≤ newExtendPage (csnPage c.newestXact) - 1 := by
    intro hbeyond
    refine ⟨by omega, by omega, List.forall_mem_cons.mpr ⟨by omega, fun xid hxid => ?_⟩⟩
    have hxid := hlast xid hxid
    omega
  have hcall := extendCSNLOG_extended hsmall c
  rw [ExtendHistory.call]
  generalize extendCSNLOG h.marks c = r at hcall
  cases hcall with
  | idle hidle =>
    refine ⟨hstart, hsmall, hfilled, List.forall_mem_cons.mpr ⟨?_, hlast⟩⟩
    cases hidle with
    | inl hinvalid =>
      rw [hinvalid, csnPage_invalid]
      exact Nat.zero_le _
    | inr hle => exact hle.2
  | failed hmark _ =>
    refine ⟨hstart, hsmall, fun q hq hbehind hle => List.mem_append_right _ ?_, hlast⟩
    cases hmark with
    | inl hsame => exact hfilled q (hsame ▸ hq) hbehind hle
    | inr hlt => exact absurd (hlt.trans_le hq) (Nat.not_lt.mpr hle)
  | batch hbeyond hzeroed =>
    obtain ⟨hle, hsmall', hdone⟩ := hmoved hbeyond
    refine ⟨hstart.trans hle, hsmall', fun q hq hbehind hle => ?_, hdone⟩
    cases Nat.lt_or_ge h.marks.lastExtendCSNLogpage q with
    | inl hlt => exact List.mem_append_left _ ((hzeroed q).mpr ⟨hlt, Nat.lt_of_le_pred hpage.1.pos hle⟩)
    | inr hge => exact List.mem_append_right _ (hfilled q hq hbehind hge)
  | fromXmin _ _ hbeyond _ hbatch hzeroed _ =>
    obtain ⟨hle, hsmall', hdone⟩ := hmoved hbeyond
    refine ⟨hstart.trans hle, hsmall', fun q hq hbehind hle => ?_, hdone⟩
    exact List.mem_append_left _ ((hzeroed q).mpr ⟨hq, Nat.lt_of_le_pred hpage.1.pos hle⟩)

lemma ExtendInv.run (calls : List ExtendCall) : ExtendInv startPage (h.run calls) := by
  induction calls generalizing h with
  | nil => exact hinv
  | cons c calls ih => exact ih (hinv.call c)

/-- Every page that a call zeroes lies behind the last one. -/
lemma ExtendInv.erasesNone (c : ExtendCall) : ErasesNone h c := by
  intro q hq xid hxid
  refine (hinv.last xid hxid).trans_lt ?_
  have hcall := extendCSNLOG_extended hinv.small c
  generalize extendCSNLOG h.marks c = r at hcall hq
  cases hcall with
  | idle => cases hq
  | failed _ hzeroed => exact hzeroed q hq
  | batch _ hzeroed => exact ((hzeroed q).mp hq).1
  | fromXmin _ _ _ hbehind _ hzeroed _ => exact hbehind.trans_le ((hzeroed q).mp hq).1

end

/-- A call that skips no page keeps the log covered. -/
lemma Covered.call (hcovered : Covered startPage h) (hinv : ExtendInv startPage h) (hskips : ¬ Skips h c) :
    Covered startPage (h.call c) := by
  refine ⟨?_, (hinv.call c).last⟩
  have hold := hcovered.page
  have hpage := newExtendPage_bounds (csnPage_lt c.newestXact)
  have hcall := extendCSNLOG_extended hinv.small c
  rw [ExtendHistory.call]
  generalize extendCSNLOG h.marks c = r at hcall
  have hkeep : ∀ zeroed : List ℕ, ∀ xid ∈ h.done, csnPage xid ≤ startPage ∨ csnPage xid ∈ zeroed ++ h.zeroed :=
    fun zeroed xid hxid => (hold xid hxid).imp id (List.mem_append_right _)
  cases hcall with
  | failed => exact hkeep _
  | idle hidle =>
    refine List.forall_mem_cons.mpr ⟨?_, hkeep _⟩
    cases hidle with
    | inl hinvalid =>
      rw [hinvalid, csnPage_invalid]
      exact .inl (Nat.zero_le _)
    | inr hbetween =>
      cases Nat.lt_or_ge startPage (csnPage c.newestXact) with
      | inl hlt => exact .inr (hinv.filled _ hbetween.1 hlt hbetween.2)
      | inr hge => exact .inl hge
  | batch hbeyond hzeroed =>
    exact List.forall_mem_cons.mpr ⟨.inr (List.mem_append_left _ ((hzeroed _).mpr ⟨hbeyond, hpage.1⟩)), hkeep _⟩
  | fromXmin hnormal hstart hbeyond hbehind hbatch hzeroed hzeroes =>
    refine List.forall_mem_cons.mpr ⟨.inr ?_, hkeep _⟩
    cases Nat.lt_or_ge (csnPage c.newestXact) (csnPage c.recentGlobalXmin) with
    | inr hge => exact List.mem_append_left _ ((hzeroed _).mpr ⟨hge, hpage.1⟩)
    | inl hlt =>
      refine List.mem_append_right _ (Classical.not_not.mp fun hmissing => hskips ?_)
      exact ⟨hnormal, hstart, hbeyond, hlt, hbatch, fun q h1 h2 => hzeroes q ((hzeroed q).mpr ⟨h1, h2⟩), hmissing⟩

/-- A call that skips its transaction's page returns without the page. -/
lemma Skips.not_covered (hskips : Skips h c) (hinv : ExtendInv startPage h) : ¬ Covered startPage (h.call c) := by
  intro hcovered
  obtain ⟨marks, zeroed, heq, hzeroed⟩ := hskips.extendCSNLOG hinv.small
  rw [ExtendHistory.call, heq] at hcovered
  cases hcovered.page c.newestXact List.mem_cons_self with
  | inl hle => exact absurd (hinv.start.trans_lt hskips.beyond) (Nat.not_lt.mpr hle)
  | inr hmem =>
    cases List.mem_append.mp hmem with
    | inl hnew => exact absurd (hzeroed _ hnew) (Nat.not_le.mpr hskips.behind)
    | inr hold => exact hskips.missing hold

end

/-- In every run from startup, the log covers what was extended and erases none of it exactly when no call skips the
page of its transaction. -/
theorem extend_run_iff (nextXid : TransactionId) (calls : List ExtendCall) :
    RunSound nextXid calls ↔
      ∀ pre c post, calls = pre ++ c :: post → ¬ Skips ((ExtendHistory.startup nextXid).run pre) c := by
  have hinv := fun pre => (ExtendInv.startup nextXid).run pre
  have hsnoc : ∀ pre c, (ExtendHistory.startup nextXid).run (pre ++ [c]) =
      ((ExtendHistory.startup nextXid).run pre).call c := fun pre c => by
    rw [ExtendHistory.run, List.foldl_append]
    rfl
  constructor
  · rintro hsound pre c post rfl hskips
    have hcovered := (hsound (pre ++ [c]) post (List.append_cons pre c post)).1
    rw [hsnoc] at hcovered
    exact hskips.not_covered (hinv pre) hcovered
  · intro hnone pre post heq
    refine ⟨?_, fun c _ _ => (hinv pre).erasesNone c⟩
    induction pre using List.reverseRecOn generalizing post with
    | nil => exact ⟨nofun, nofun⟩
    | append_singleton pre c ih =>
      have hsplit : calls = pre ++ c :: post := heq.trans (List.append_cons pre c post).symm
      rw [hsnoc]
      exact (ih (c :: post) hsplit).call (hinv pre) (hnone pre c post hsplit)

/-- After startup with the page 0, transaction 40000 is extended with the page of the recent global xmin 41000 as the
first one, which is the page behind its own in the same batch. -/
theorem extend_skips_page : ¬ ∀ (nextXid : TransactionId) (calls : List ExtendCall), RunSound nextXid calls := by
  intro h
  let c : ExtendCall := ⟨40000, 41000, fun _ => true⟩
  have hskips : Skips (ExtendHistory.startup 4) c :=
    ⟨by decide, by decide, by decide, by decide, by decide, fun _ _ _ => rfl, List.not_mem_nil⟩
  exact hskips.not_covered (ExtendInv.startup 4) (h 4 [c] [c] [] rfl).1

end GaussKernel.Transam
