import GaussKernel.Lib.Wildcard
import Mathlib.Data.Nat.Basic

/-!
# LIKE

Model of `MatchText` of `like_match.cpp`, which is compiled four times with other macros. A string is the list of its
characters, since the pointers of `MatchText` only come to the beginnings of characters.
-/

namespace GaussKernel.Adt

open Lib Wild

abbrev likeBackslash : UInt8 := 92
abbrev likePercent : UInt8 := 37
abbrev likeUnderscore : UInt8 := 95

inductive LikeResult
  | LIKE_TRUE
  | LIKE_FALSE
  | LIKE_ABORT
  deriving DecidableEq

inductive LikeError
  | endsWithEscape
  | invalidEscapeString
  deriving DecidableEq

def LikeError.errmsg : LikeError → String
  | .endsWithEscape => "LIKE pattern must not end with escape character"
  | .invalidEscapeString => "invalid escape string"

/-- The macros that `like_match.cpp` is compiled with -/
structure LikeMacros (α : Type*) where
  /-- the first byte of a character, `*p` -/
  byte : α → UInt8
  getchar : UInt8 → UInt8
  chareq : α → α → Bool
  /-- Equal characters have equal first bytes. -/
  chareq_getchar : ∀ a c, chareq a c = true → getchar (byte a) = getchar (byte c)

section matchText

variable {α : Type*} (m : LikeMacros α)

/-- The wildcards right after a `%`, each `_` with a character of the text. `none` if there is not enough text left. -/
def skipWildcards : List α → List α → Option (List α × List α)
  | t, [] => some (t, [])
  | t, c :: p =>
    if m.byte c = likePercent then skipWildcards t p
    else if m.byte c = likeUnderscore then
      match t with
      | [] => none
      | _ :: t => skipWildcards t p
    else some (t, c :: p)

/-- The search for a place of the text at which the rest of the pattern matches -/
def scanText (matchText : List α → Except LikeError LikeResult) (firstpat : UInt8) :
    List α → Except LikeError LikeResult
  | [] => .ok .LIKE_ABORT
  | c :: t =>
    if m.getchar (m.byte c) = firstpat then
      match matchText (c :: t) with
      | .ok .LIKE_FALSE => scanText matchText firstpat t
      | matched => matched
    else scanText matchText firstpat t

/-- The end of text or pattern -/
def afterLoop : List α → List α → Except LikeError LikeResult
  | _ :: _, _ => .ok .LIKE_FALSE
  | [], p => if (p.dropWhile (m.byte · = likePercent)).isEmpty then .ok .LIKE_TRUE else .ok .LIKE_ABORT

/-- The loop of `MatchText`. Each round takes a byte of the pattern or more, so the length of the pattern bounds it. -/
def matchLoop : ℕ → List α → List α → Except LikeError LikeResult
  | n + 1, c :: t, a :: p =>
    if m.byte a = likeBackslash then
      match p with
      | [] => .error .endsWithEscape
      | b :: p => if ¬m.getchar (m.byte b) = m.getchar (m.byte c) then .ok .LIKE_FALSE else matchLoop n t p
    else if m.byte a = likePercent then
      match skipWildcards m (c :: t) p with
      | none => .ok .LIKE_ABORT
      | some (_, []) => .ok .LIKE_TRUE
      | some (t, b :: p) =>
        let matchText t :=
          if (b :: p).map m.byte = [likePercent] then .ok .LIKE_TRUE else matchLoop n t (b :: p)
        if m.byte b = likeBackslash then
          match p with
          | [] => .error .endsWithEscape
          | d :: _ => scanText m matchText (m.getchar (m.byte d)) t
        else scanText m matchText (m.getchar (m.byte b)) t
    else if m.byte a = likeUnderscore then matchLoop n t p
    else if ¬m.chareq a c = true then .ok .LIKE_FALSE
    else matchLoop n t p
  | _, t, p => afterLoop m t p

def matchText (t p : List α) : Except LikeError LikeResult :=
  if p.map m.byte = [likePercent] then .ok .LIKE_TRUE else matchLoop m p.length t p

end matchText

/-! ## What a pattern means -/

/-- The pattern with its escapes resolved, for the tests that characters and escaped characters make. `none` if it ends
with the escape character. The flag says whether that came right before. -/
def likePattern {α : Type*} (byte : α → UInt8) (plain escaped : α → α → Prop) (esc : Option UInt8) :
    Bool → List α → Option (List (Wild α))
  | false, [] => some []
  | true, [] => none
  | true, b :: p => (likePattern byte plain escaped esc false p).map (.letter (escaped b) :: ·)
  | false, a :: p =>
    if esc = some (byte a) then likePattern byte plain escaped esc true p
    else if byte a = likePercent then (likePattern byte plain escaped esc false p).map (.many :: ·)
    else if byte a = likeUnderscore then (likePattern byte plain escaped esc false p).map (.one :: ·)
    else (likePattern byte plain escaped esc false p).map (.letter (plain a) :: ·)

/-- The pattern as `MatchText` compares it: of an escaped character only the first byte -/
abbrev LikeMacros.pattern {α : Type*} (m : LikeMacros α) : List α → Option (List (Wild α)) :=
  likePattern m.byte (fun a c => m.chareq a c = true) (fun a c => m.getchar (m.byte a) = m.getchar (m.byte c))
    (some likeBackslash) false

/-- What a result says of the text and the pattern: `LIKE_ABORT` says that no suffix of the text matches. -/
def Judges {α : Type*} (w : Option (List (Wild α))) (t : List α) : Except LikeError LikeResult → Prop
  | .error _ => w = none
  | .ok .LIKE_TRUE => ∃ v, w = some v ∧ Accepts v t
  | .ok .LIKE_FALSE => ∀ v, w = some v → ¬ Accepts v t
  | .ok .LIKE_ABORT => ∀ v, w = some v → ∀ s, s <:+ t → ¬ Accepts v s

section pattern

variable {α : Type*} {m : LikeMacros α} {p : List α} {a b : α}

lemma pattern_escape (ha : m.byte a = likeBackslash) : m.pattern (a :: b :: p) =
    (m.pattern p).map (.letter (fun c => m.getchar (m.byte b) = m.getchar (m.byte c)) :: ·) := by
  rw [LikeMacros.pattern, likePattern, if_pos (congrArg some ha.symm), likePattern]

lemma pattern_escape_nil (ha : m.byte a = likeBackslash) : m.pattern [a] = none := by
  rw [LikeMacros.pattern, likePattern, if_pos (congrArg some ha.symm), likePattern]

lemma pattern_percent (ha : m.byte a = likePercent) : m.pattern (a :: p) = (m.pattern p).map (.many :: ·) := by
  rw [LikeMacros.pattern, likePattern, ha, if_neg (by decide), if_pos rfl]

lemma pattern_underscore (ha : m.byte a = likeUnderscore) : m.pattern (a :: p) = (m.pattern p).map (.one :: ·) := by
  rw [LikeMacros.pattern, likePattern, ha, if_neg (by decide), if_neg (by decide), if_pos rfl]

lemma pattern_letter (hescape : m.byte a ≠ likeBackslash) (hpercent : m.byte a ≠ likePercent)
    (hunderscore : m.byte a ≠ likeUnderscore) :
    m.pattern (a :: p) = (m.pattern p).map (.letter (fun c => m.chareq a c = true) :: ·) := by
  rw [LikeMacros.pattern, likePattern, if_neg fun heq => hescape (Option.some.inj heq).symm, if_neg hpercent,
    if_neg hunderscore]

end pattern

/-! ## Matching -/

section matching

variable {α : Type*} {m : LikeMacros α} {w : Option (List (Wild α))} {s t t' p p' : List α} {a b c : α}
  {r : Except LikeError LikeResult} {f g : List (Wild α) → List (Wild α)} {test : α → Prop}

lemma suffix_tail (hs : a :: s <:+ c :: t) : s <:+ t := by
  cases List.suffix_cons_iff.mp hs with
  | inl heq =>
    cases heq
    exact List.suffix_rfl
  | inr hs => exact (List.suffix_cons a s).trans hs

/-- A result holds of another text and pattern that match in the same cases. -/
lemma Judges.map (h : Judges (w.map f) t r) (hto : ∀ v, Accepts (f v) t → Accepts (g v) t')
    (hfrom : ∀ v, Accepts (g v) t' → Accepts (f v) t)
    (hsuffix : ∀ v s, s <:+ t' → Accepts (g v) s → ∃ q, q <:+ t ∧ Accepts (f v) q) :
    Judges (w.map g) t' r := by
  cases w with
  | none =>
    cases r with
    | error => exact rfl
    | ok r =>
      cases r with
      | LIKE_TRUE =>
        obtain ⟨v, hv, _⟩ := h
        cases hv
      | LIKE_FALSE => exact nofun
      | LIKE_ABORT => exact nofun
  | some v =>
    cases r with
    | error => cases h
    | ok r =>
      cases r with
      | LIKE_TRUE =>
        obtain ⟨_, hv, h⟩ := h
        cases hv
        exact ⟨g v, rfl, hto v h⟩
      | LIKE_FALSE =>
        intro _ hv haccepts
        cases hv
        exact h _ rfl (hfrom v haccepts)
      | LIKE_ABORT =>
        intro _ hv s hs haccepts
        cases hv
        obtain ⟨q, hq, haccepts⟩ := hsuffix v s hs haccepts
        exact h _ rfl q hq haccepts

lemma Judges.mismatch (hne : ¬test c) :
    Judges (w.map (.letter test :: ·)) (c :: t) (.ok .LIKE_FALSE) := by
  intro v hv haccepts
  obtain ⟨v, -, rfl⟩ := Option.map_eq_some_iff.mp hv
  exact hne (accepts_letter.mp haccepts).1

/-- One item of the pattern and one byte of the text are taken together. -/
lemma Judges.cons {x : Wild α} (h : Judges w t r) (hto : ∀ v, Accepts v t → Accepts (x :: v) (c :: t))
    (hfrom : ∀ v s, Accepts (x :: v) s → ∃ d q, s = d :: q ∧ Accepts v q) :
    Judges (w.map (x :: ·)) (c :: t) r := by
  have hid : Judges (w.map id) t r := by rwa [Option.map_id, id]
  apply hid.map hto
  · intro v haccepts
    obtain ⟨d, q, heq, haccepts⟩ := hfrom v _ haccepts
    cases heq
    exact haccepts
  · intro v s hs haccepts
    obtain ⟨d, q, rfl, hrest⟩ := hfrom v s haccepts
    exact ⟨q, suffix_tail hs, hrest⟩

/-- A letter is compared. -/
lemma Judges.letter [Decidable (test c)] (h : Judges w t r) :
    Judges (w.map (.letter test :: ·)) (c :: t) (if ¬test c then .ok .LIKE_FALSE else r) := by
  split
  case isTrue hne => exact Judges.mismatch hne
  case isFalse heq =>
    apply h.cons
    · exact fun v haccepts => accepts_letter.mpr ⟨not_not.mp heq, haccepts⟩
    · exact fun v s ⟨d, q, hs, _, haccepts⟩ => ⟨d, q, hs, haccepts⟩

lemma Judges.one (h : Judges w t r) : Judges (w.map (.one :: ·)) (c :: t) r :=
  h.cons (fun _ => accepts_one.mpr) fun _ _ haccepts => haccepts

/-- One more `%` changes nothing. -/
lemma Judges.manyMany (h : Judges (w.map (.many :: ·)) t r) :
    Judges ((w.map (.many :: ·)).map (.many :: ·)) t r := by
  rw [Option.map_map]
  apply h.map
  · exact fun v => accepts_many_many.mpr
  · exact fun v => accepts_many_many.mp
  · exact fun v s hs haccepts => ⟨s, hs, accepts_many_many.mp haccepts⟩

/-- A `_` after a `%` takes a character of the text. -/
lemma Judges.manyOne (h : Judges (w.map (.many :: ·)) t r) :
    Judges ((w.map (.one :: ·)).map (.many :: ·)) (c :: t) r := by
  rw [Option.map_map]
  apply h.map
  · exact fun v haccepts => accepts_many_one.mpr (accepts_one.mpr haccepts)
  · exact fun v haccepts => accepts_one.mp (accepts_many_one.mp haccepts)
  · intro v s hs haccepts
    obtain ⟨c', q, rfl, hrest⟩ := accepts_many_one.mp haccepts
    exact ⟨q, suffix_tail hs, hrest⟩

/-- What skipping wildcards after a `%` keeps -/
def Skipped (m : LikeMacros α) (t p : List α) : Option (List α × List α) → Prop
  | none => Judges ((m.pattern p).map (.many :: ·)) t (.ok .LIKE_ABORT)
  | some (t', p') => p'.length ≤ p.length ∧
      (∀ b q, p' = b :: q → m.byte b ≠ likePercent ∧ m.byte b ≠ likeUnderscore) ∧
      ∀ r, Judges ((m.pattern p').map (.many :: ·)) t' r → Judges ((m.pattern p).map (.many :: ·)) t r

/-- One more wildcard is skipped. -/
lemma Skipped.cons {next : Option (List α × List α)} (h : Skipped m t p next)
    (hwild : ∀ r, Judges ((m.pattern p).map (.many :: ·)) t r →
      Judges ((m.pattern (a :: p)).map (.many :: ·)) t' r) : Skipped m t' (a :: p) next := by
  cases next with
  | none => exact hwild (.ok .LIKE_ABORT) h
  | some next => exact ⟨Nat.le_trans h.1 (Nat.le_succ _), h.2.1, fun r hr => hwild r (h.2.2 r hr)⟩

lemma skipWildcards_skipped (m : LikeMacros α) (t p : List α) : Skipped m t p (skipWildcards m t p) := by
  induction p generalizing t with
  | nil => exact ⟨le_rfl, nofun, fun _ => id⟩
  | cons c p ih =>
    unfold skipWildcards
    by_cases hpercent : m.byte c = likePercent
    · rw [if_pos hpercent]
      apply (ih t).cons
      intro r hr
      rw [pattern_percent hpercent]
      exact hr.manyMany
    rw [if_neg hpercent]
    by_cases hunderscore : m.byte c = likeUnderscore
    · rw [if_pos hunderscore]
      cases t with
      | nil =>
        intro v hv s hs haccepts
        cases List.suffix_nil.mp hs
        rw [pattern_underscore hunderscore, Option.map_map] at hv
        obtain ⟨v, -, rfl⟩ := Option.map_eq_some_iff.mp hv
        obtain ⟨c', q, hnil, -⟩ := accepts_many_one.mp haccepts
        cases hnil
      | cons x t =>
        apply (ih t).cons
        intro r hr
        rw [pattern_underscore hunderscore]
        exact hr.manyOne
    · rw [if_neg hunderscore]
      refine ⟨le_rfl, fun b q hbq => ?_, fun _ => id⟩
      cases hbq
      exact ⟨hpercent, hunderscore⟩

/-- A place where the rest of the pattern does not match is left behind. -/
lemma Judges.pass (hnot : ∀ v, w = some v → ¬ Accepts v (c :: t)) (h : Judges (w.map (.many :: ·)) t r) :
    Judges (w.map (.many :: ·)) (c :: t) r := by
  cases r with
  | error => exact h
  | ok r =>
    cases r with
    | LIKE_TRUE =>
      obtain ⟨_, hv, haccepts⟩ := h
      obtain ⟨v, -, rfl⟩ := Option.map_eq_some_iff.mp hv
      exact ⟨_, hv, accepts_many_cons.mpr (.inr haccepts)⟩
    | LIKE_FALSE =>
      intro _ hv haccepts
      obtain ⟨v, hw, rfl⟩ := Option.map_eq_some_iff.mp hv
      exact h _ hv ((accepts_many_cons.mp haccepts).resolve_left (hnot v hw))
    | LIKE_ABORT =>
      intro _ hv s hs haccepts
      obtain ⟨v, hw, rfl⟩ := Option.map_eq_some_iff.mp hv
      have hwhole := accepts_many_of_suffix hs haccepts
      exact h _ hv t List.suffix_rfl ((accepts_many_cons.mp hwhole).resolve_left (hnot v hw))

/-- What else the rest of the pattern gives is the result of the search. -/
lemma Judges.stop (h : Judges w t r) (hr : r ≠ .ok .LIKE_FALSE) : Judges (w.map (.many :: ·)) t r := by
  cases r with
  | error => exact Option.map_eq_none_iff.mpr h
  | ok r =>
    cases r with
    | LIKE_TRUE =>
      obtain ⟨v, hv, haccepts⟩ := h
      exact ⟨.many :: v, Option.map_eq_some_iff.mpr ⟨v, hv, rfl⟩, t, List.suffix_rfl, haccepts⟩
    | LIKE_FALSE => exact absurd rfl hr
    | LIKE_ABORT =>
      intro _ hv s hs hmany
      obtain ⟨v, hw, rfl⟩ := Option.map_eq_some_iff.mp hv
      obtain ⟨q, hq, haccepts⟩ := hmany
      exact h v hw q (hq.trans hs) haccepts

/-- The search finds the first place at which the rest of the pattern matches. The characters that pass the test of its
first letter have the byte that the search looks for. -/
lemma scanText_judges {matchText : List α → Except LikeError LikeResult} {firstpat : UInt8}
    (hfirst : ∀ c, test c → m.getchar (m.byte c) = firstpat)
    (hmatch : ∀ t, Judges (w.map (.letter test :: ·)) t (matchText t)) (t : List α) :
    Judges ((w.map (.letter test :: ·)).map (.many :: ·)) t (scanText m matchText firstpat t) := by
  induction t with
  | nil =>
    intro _ hv s hs haccepts
    cases List.suffix_nil.mp hs
    obtain ⟨_, hw, rfl⟩ := Option.map_eq_some_iff.mp hv
    obtain ⟨v, -, rfl⟩ := Option.map_eq_some_iff.mp hw
    obtain ⟨c, q, hnil, -⟩ := accepts_many_nil.mp haccepts
    cases hnil
  | cons c t ih =>
    have hhere := hmatch (c :: t)
    rw [scanText]
    split
    case isTrue =>
      split
      case h_1 hfalse =>
        rw [hfalse] at hhere
        exact ih.pass hhere
      case h_2 hother => exact hhere.stop hother
    case isFalse hne => exact ih.pass (Judges.mismatch fun htest => hne (hfirst c htest))

/-- The search looks for the first byte of the rest of the pattern, or for the one that this escapes. -/
lemma searchRest_judges {matchText : List α → Except LikeError LikeResult} (hpercent : m.byte b ≠ likePercent)
    (hunderscore : m.byte b ≠ likeUnderscore) : (∀ t, Judges (m.pattern (b :: p)) t (matchText t)) →
    Judges ((m.pattern (b :: p)).map (.many :: ·)) t
      (if m.byte b = likeBackslash then
        match p with
        | [] => .error .endsWithEscape
        | d :: _ => scanText m matchText (m.getchar (m.byte d)) t
      else scanText m matchText (m.getchar (m.byte b)) t) := by
  intro hmatch
  split
  case isTrue hescape =>
    cases p with
    | nil =>
      rw [pattern_escape_nil hescape]
      exact rfl
    | cons d p =>
      rw [pattern_escape hescape] at hmatch ⊢
      exact scanText_judges (fun _ => Eq.symm) hmatch t
  case isFalse hescape =>
    rw [pattern_letter hescape hpercent hunderscore] at hmatch ⊢
    exact scanText_judges (fun c heq => (m.chareq_getchar b c heq).symm) hmatch t

/-- A pattern that does not begin with `%` needs a character of the text. -/
lemma pattern_ne_nil {v : List (Wild α)} (hpercent : m.byte a ≠ likePercent) (hv : m.pattern (a :: p) = some v)
    (haccepts : Accepts v t) : t ≠ [] := by
  obtain ⟨x, v, rfl, hx⟩ : ∃ x v', v = x :: v' ∧ x ≠ .many := by
    by_cases hescape : m.byte a = likeBackslash
    · cases p with
      | nil =>
        rw [pattern_escape_nil hescape] at hv
        cases hv
      | cons b p =>
        rw [pattern_escape hescape] at hv
        obtain ⟨v, -, rfl⟩ := Option.map_eq_some_iff.mp hv
        exact ⟨_, v, rfl, nofun⟩
    by_cases hunderscore : m.byte a = likeUnderscore
    · rw [pattern_underscore hunderscore] at hv
      obtain ⟨v, -, rfl⟩ := Option.map_eq_some_iff.mp hv
      exact ⟨_, v, rfl, nofun⟩
    · rw [pattern_letter hescape hpercent hunderscore] at hv
      obtain ⟨v, -, rfl⟩ := Option.map_eq_some_iff.mp hv
      exact ⟨_, v, rfl, nofun⟩
  rintro rfl
  cases x with
  | many => exact hx rfl
  | one =>
    obtain ⟨c, q, hnil, -⟩ := haccepts
    cases hnil
  | letter test =>
    obtain ⟨c, q, hnil, -⟩ := haccepts
    cases hnil

/-- At the end of the text only wildcards for any number of characters may be left. -/
lemma afterLoop_nil (m : LikeMacros α) (p : List α) : Judges (m.pattern p) [] (afterLoop m [] p) := by
  induction p with
  | nil => exact ⟨[], rfl, rfl⟩
  | cons a p ih =>
    by_cases hpercent : m.byte a = likePercent
    · have hskip : afterLoop m [] (a :: p) = afterLoop m [] p := by
        have hdrop : (a :: p).dropWhile (m.byte · = likePercent) = p.dropWhile (m.byte · = likePercent) :=
          List.dropWhile_cons_of_pos (decide_eq_true hpercent)
        rw [afterLoop, afterLoop, hdrop]
      rw [hskip, pattern_percent hpercent]
      apply ih.stop
      rw [afterLoop]
      split
      all_goals nofun
    · have habort : afterLoop m [] (a :: p) = .ok .LIKE_ABORT := by
        have hdrop : (a :: p).dropWhile (m.byte · = likePercent) = a :: p :=
          List.dropWhile_cons_of_neg (by rwa [decide_eq_true_eq])
        rw [afterLoop, hdrop]
        rfl
      rw [habort]
      exact fun v hv s hs haccepts => pattern_ne_nil hpercent hv haccepts (List.suffix_nil.mp hs)

/-- A text of any length matches `%`. -/
lemma Judges.fastPath (h : Judges (m.pattern p) t r) :
    Judges (m.pattern p) t (if p.map m.byte = [likePercent] then .ok .LIKE_TRUE else r) := by
  split
  case isTrue heq =>
    obtain ⟨a, rfl, ha⟩ := List.map_eq_singleton_iff.mp heq
    rw [pattern_percent ha]
    exact ⟨[.many], rfl, accepts_many t⟩
  case isFalse => exact h

lemma matchLoop_judges (m : LikeMacros α) (n : ℕ) (t p : List α) (hn : p.length ≤ n) :
    Judges (m.pattern p) t (matchLoop m n t p) := by
  induction n generalizing t p with
  | zero =>
    cases List.length_eq_zero_iff.mp (Nat.le_zero.mp hn)
    cases t with
    | nil => exact ⟨[], rfl, rfl⟩
    | cons c t =>
      intro v hv haccepts
      cases hv
      cases haccepts
  | succ n ih =>
    cases t with
    | nil => exact afterLoop_nil m p
    | cons c t =>
      cases p with
      | nil =>
        intro v hv haccepts
        cases hv
        cases haccepts
      | cons a p =>
        have hlen : p.length ≤ n := Nat.le_of_succ_le_succ hn
        unfold matchLoop
        dsimp only
        by_cases hescape : m.byte a = likeBackslash
        · rw [if_pos hescape]
          cases p with
          | nil => exact pattern_escape_nil hescape
          | cons b p =>
            rw [pattern_escape hescape]
            exact (ih t p (Nat.le_of_succ_le hlen)).letter
        rw [if_neg hescape]
        by_cases hpercent : m.byte a = likePercent
        · rw [if_pos hpercent, pattern_percent hpercent]
          have hskip := skipWildcards_skipped m (c :: t) p
          cases hnext : skipWildcards m (c :: t) p with
          | none =>
            rw [hnext] at hskip
            exact hskip
          | some next =>
            obtain ⟨t', p'⟩ := next
            rw [hnext] at hskip
            obtain ⟨hle, hfirst, hjudges⟩ := hskip
            apply hjudges
            cases p' with
            | nil => exact ⟨[.many], rfl, accepts_many t'⟩
            | cons b p' =>
              obtain ⟨hbpercent, hbunderscore⟩ := hfirst b p' rfl
              exact searchRest_judges hbpercent hbunderscore
                fun t => (ih t (b :: p') (Nat.le_trans hle hlen)).fastPath
        rw [if_neg hpercent]
        by_cases hunderscore : m.byte a = likeUnderscore
        · rw [if_pos hunderscore, pattern_underscore hunderscore]
          exact (ih t p hlen).one
        · rw [if_neg hunderscore, pattern_letter hescape hpercent hunderscore]
          exact (ih t p hlen).letter

end matching

/-- Each result of `MatchText` is true of the text and the pattern: `LIKE_TRUE` that the pattern matches the text,
`LIKE_FALSE` that it does not, `LIKE_ABORT` that it matches no suffix of the text either, and an error that the pattern
ends with the escape character. -/
theorem matchText_judges {α : Type*} (m : LikeMacros α) (t p : List α) :
    Judges (m.pattern p) t (matchText m t p) :=
  (matchLoop_judges m p.length t p le_rfl).fastPath

end GaussKernel.Adt
