import GaussKernel.Adt.LikeMatch

/-!
# The compiled matchers

The macros that `like.cpp` compiles `like_match.cpp` with for single-byte encodings and for UTF-8, and `like_escape`.
-/

namespace GaussKernel.Adt

open Lib Wild

/-! ## Single-byte encodings -/

/-- The macros of `SB_MatchText` -/
def sb : LikeMacros UInt8 where
  byte c := c
  getchar c := c
  chareq a c := a == c
  chareq_getchar _ _ := beq_iff_eq.mp

/-- The macros of `SB_IMatchText`. `lower` is `SB_lower_char` in the locale. -/
def sbI (lower : UInt8 → UInt8) : LikeMacros UInt8 where
  byte c := c
  getchar := lower
  chareq a c := lower a == lower c
  chareq_getchar _ _ := beq_iff_eq.mp

/-- The loop of `do_like_escape` -/
def escapeLoop (e : UInt8) : Bool → List UInt8 → List UInt8
  | _, [] => []
  | afterescape, c :: p =>
    if c = e ∧ afterescape = false then likeBackslash :: escapeLoop e true p
    else if c = likeBackslash then
      if afterescape then likeBackslash :: escapeLoop e false p
      else likeBackslash :: likeBackslash :: escapeLoop e false p
    else c :: escapeLoop e false p

/-- Without an escape character, backslashes are doubled. -/
def doubleBackslashes : List UInt8 → List UInt8
  | [] => []
  | c :: p =>
    if c = likeBackslash then likeBackslash :: c :: doubleBackslashes p else c :: doubleBackslashes p

/-- `SB_do_like_escape` -/
def doLikeEscape (pat esc : List UInt8) : Except LikeError (List UInt8) :=
  match esc with
  | [] => .ok (doubleBackslashes pat)
  | [e] => if e = likeBackslash then .ok pat else .ok (escapeLoop e false pat)
  | _ => .error .invalidEscapeString

section escape

variable {lower : UInt8 → UInt8} {b c e : UInt8} {p pat esc : List UInt8}

/-- What a pattern means for a given escape character: letters are compared after `lower`. -/
def sbPattern (lower : UInt8 → UInt8) (esc : Option UInt8) : Bool → List UInt8 → Option (List (Wild UInt8)) :=
  likePattern (fun c => c) (fun a c => lower a = lower c) (fun a c => lower a = lower c) esc

lemma sbPattern_after {esc : Option UInt8} : sbPattern lower esc true (c :: p) =
    (sbPattern lower esc false p).map (.letter (fun d => lower c = lower d) :: ·) := rfl

lemma sbPattern_cons {esc : Option UInt8} : sbPattern lower esc false (c :: p) =
    if esc = some c then sbPattern lower esc true p
    else if c = likePercent then (sbPattern lower esc false p).map (.many :: ·)
    else if c = likeUnderscore then (sbPattern lower esc false p).map (.one :: ·)
    else (sbPattern lower esc false p).map (.letter (fun d => lower c = lower d) :: ·) := rfl

lemma sbI_pattern (lower : UInt8 → UInt8) (p : List UInt8) :
    (sbI lower).pattern p = sbPattern lower (some likeBackslash) false p := by
  have hchareq : (fun a c => (sbI lower).chareq a c = true) = fun a c => lower a = lower c :=
    funext₂ fun a c => propext beq_iff_eq
  rw [LikeMacros.pattern, hchareq]
  rfl

/-- A byte that is neither a backslash nor the escape character is read alike. -/
lemma sbPattern_copied {esc : Option UInt8} {p' : List UInt8} (hescape : c ≠ likeBackslash) (hesc : esc ≠ some c)
    (h : sbPattern lower (some likeBackslash) false p' = sbPattern lower esc false p) :
    sbPattern lower (some likeBackslash) false (c :: p') = sbPattern lower esc false (c :: p) := by
  rw [sbPattern_cons, sbPattern_cons, if_neg hesc, if_neg fun heq => hescape (Option.some.inj heq).symm, h]

/-- A doubled backslash is a letter, as a backslash that is not the escape character. -/
lemma sbPattern_backslash {esc : Option UInt8} {p' : List UInt8} (hesc : esc ≠ some likeBackslash)
    (h : sbPattern lower (some likeBackslash) false p' = sbPattern lower esc false p) :
    sbPattern lower (some likeBackslash) false (likeBackslash :: likeBackslash :: p') =
      sbPattern lower esc false (likeBackslash :: p) := by
  rw [sbPattern_cons, if_pos rfl, sbPattern_after, sbPattern_cons, if_neg hesc, if_neg (by decide),
    if_neg (by decide), h]

/-- What follows the escape character is copied. -/
lemma escapeLoop_after : escapeLoop e true (b :: p) = b :: escapeLoop e false p := by
  rw [escapeLoop, if_neg fun h => Bool.noConfusion h.2]
  split
  case isTrue heq => rw [heq, if_pos rfl]
  case isFalse => rfl

/-- Every escape character becomes a backslash that escapes the same byte. -/
lemma sbPattern_escapeLoop (e : UInt8) (afterescape : Bool) (p : List UInt8) :
    sbPattern lower (some likeBackslash) afterescape (escapeLoop e afterescape p) =
      sbPattern lower (some e) afterescape p := by
  induction p generalizing afterescape with
  | nil =>
    cases afterescape
    all_goals rfl
  | cons c p ih =>
    cases afterescape with
    | true => rw [escapeLoop_after, sbPattern_after, sbPattern_after, ih]
    | false =>
      rw [escapeLoop]
      by_cases he : c = e
      · rw [if_pos ⟨he, rfl⟩, sbPattern_cons, sbPattern_cons, if_pos rfl, if_pos (congrArg some he.symm), ih]
      have hesc : some e ≠ some c := fun heq => he (Option.some.inj heq).symm
      rw [if_neg fun h => he h.1]
      by_cases hbackslash : c = likeBackslash
      · rw [if_pos hbackslash, if_neg Bool.false_ne_true, hbackslash]
        exact sbPattern_backslash (hbackslash ▸ hesc) (ih false)
      · rw [if_neg hbackslash]
        exact sbPattern_copied hbackslash hesc (ih false)

lemma sbPattern_doubleBackslashes (lower : UInt8 → UInt8) (p : List UInt8) :
    sbPattern lower (some likeBackslash) false (doubleBackslashes p) = sbPattern lower none false p := by
  induction p with
  | nil => rfl
  | cons c p ih =>
    rw [doubleBackslashes]
    split
    case isTrue hbackslash =>
      rw [hbackslash]
      exact sbPattern_backslash (Option.some_ne_none _).symm ih
    case isFalse hbackslash => exact sbPattern_copied hbackslash (Option.some_ne_none _).symm ih

/-- `like_escape` keeps what a pattern means: to match what it returns is to match the given pattern, read with the
given escape character. -/
theorem likeEscape_match (lower : UInt8 → UInt8) (t : List UInt8) (h : doLikeEscape pat esc = .ok p) :
    Judges (sbPattern lower esc.head? false pat) t (matchText (sbI lower) t p) := by
  have hpattern : (sbI lower).pattern p = sbPattern lower esc.head? false pat := by
    rw [sbI_pattern]
    cases esc with
    | nil =>
      cases h
      exact sbPattern_doubleBackslashes lower pat
    | cons e rest =>
      cases rest with
      | cons => cases h
      | nil =>
        rw [doLikeEscape] at h
        split at h
        case isTrue hescape =>
          cases h
          rw [hescape]
          rfl
        case isFalse =>
          cases h
          exact sbPattern_escapeLoop e false pat
  rw [← hpattern]
  exact (matchLoop_judges (sbI lower) p.length t p le_rfl).fastPath

/-- With `!` as the escape character -/
theorem likeEscape_match_bang :
    doLikeEscape [97, 33, 37, 37] [33] = .ok [97, 92, 37, 37] ∧
      Judges (sbPattern id (some 33) false [97, 33, 37, 37]) [97, 37, 98]
        (matchText (sbI id) [97, 37, 98] [97, 92, 37, 37]) :=
  ⟨by decide, @likeEscape_match [97, 92, 37, 37] [97, 33, 37, 37] [33] id [97, 37, 98] (by decide)⟩

end escape

/-! ## UTF-8 -/

def pgUtfMblen (s : UInt8) : ℕ :=
  if s &&& 0x80 = 0 then 1
  else if s &&& 0xe0 = 0xc0 then 2
  else if s &&& 0xf0 = 0xe0 then 3
  else if s &&& 0xf8 = 0xf0 then 4
  else 1

def legalTail (a : UInt8) : Bool := 0x80 ≤ a && a ≤ 0xBF

/-- The bytes that may follow a first byte -/
def legalSecond (source a : UInt8) : Bool :=
  if source = 0xE0 then 0xA0 ≤ a && a ≤ 0xBF
  else if source = 0xED then 0x80 ≤ a && a ≤ 0x9F
  else if source = 0xF0 then 0x90 ≤ a && a ≤ 0xBF
  else if source = 0xF4 then 0x80 ≤ a && a ≤ 0x8F
  else legalTail a

def legalFirst (a : UInt8) : Bool := !(0x80 ≤ a && a < 0xC2) && !(0xF4 < a)

def pgUtf8Islegal : List UInt8 → Bool
  | [a, b, c, d] => legalTail d && (legalTail c && (legalSecond a b && legalFirst a))
  | [a, b, c] => legalTail c && (legalSecond a b && legalFirst a)
  | [a, b] => legalSecond a b && legalFirst a
  | [a] => legalFirst a
  | _ => false

/-- A character that `pg_utf8_verifier` has accepted -/
@[ext]
structure Utf8Char where
  lead : UInt8
  rest : List UInt8
  length_rest : rest.length + 1 = pgUtfMblen lead
  legal : pgUtf8Islegal (lead :: rest) = true

def Utf8Char.bytes (c : Utf8Char) : List UInt8 := c.lead :: c.rest

def utf8Bytes (t : List Utf8Char) : List UInt8 := t.flatMap Utf8Char.bytes

/-- The `NextChar` of `UTF8_MatchText` -/
def utf8NextChar : List UInt8 → List UInt8
  | [] => []
  | _ :: t => t.dropWhile (· &&& 0xC0 = 0x80)

/-- The bytes of two characters are compared over the length that the first byte gives. -/
def wchareq (p1 p2 : Utf8Char) : Bool :=
  p1.lead == p2.lead && pgUtfMblen p2.lead == pgUtfMblen p1.lead &&
    p1.bytes.take (pgUtfMblen p1.lead) == p2.bytes.take (pgUtfMblen p1.lead)

section utf8

variable {a c : Utf8Char} {t p : List Utf8Char}

lemma forall_byte {P : UInt8 → Prop} (h : ∀ n : Fin 256, P (UInt8.ofFin n)) (b : UInt8) : P b := h b.toFin

lemma and_of_legalTail : ∀ b, legalTail b = true → b &&& 0xC0 = 0x80 :=
  forall_byte (by decide +kernel)

lemma and_of_legalFirst : ∀ b, legalFirst b = true → b &&& 0xC0 ≠ 0x80 :=
  forall_byte (by decide +kernel)

lemma legalTail_of_legalSecond {source b : UInt8} (h : legalSecond source b = true) : legalTail b = true := by
  have hranges : ∀ b : UInt8, (0xA0 ≤ b && b ≤ 0xBF) || (0x80 ≤ b && b ≤ 0x9F) || (0x90 ≤ b && b ≤ 0xBF) ||
      (0x80 ≤ b && b ≤ 0x8F) → legalTail b = true := forall_byte (by decide +kernel)
  rw [legalSecond] at h
  split at h
  · exact hranges b (by rw [h]; rfl)
  split at h
  · exact hranges b (by rw [h, Bool.or_true]; rfl)
  split at h
  · exact hranges b (by rw [h, Bool.or_true]; rfl)
  split at h
  · exact hranges b (by rw [h, Bool.or_true])
  · exact h

/-- The first byte and the others of a legal character -/
lemma legal_bytes {lead : UInt8} {rest : List UInt8} (h : pgUtf8Islegal (lead :: rest) = true) :
    legalFirst lead = true ∧ ∀ b ∈ rest, legalTail b = true := by
  match rest with
  | [] => exact ⟨h, nofun⟩
  | [a] =>
    obtain ⟨ha, hlead⟩ := Bool.and_eq_true_iff.mp h
    refine ⟨hlead, fun b hb => ?_⟩
    exact List.mem_singleton.mp hb ▸ legalTail_of_legalSecond ha
  | [a, c] =>
    obtain ⟨hc, h⟩ := Bool.and_eq_true_iff.mp h
    obtain ⟨ha, hlead⟩ := Bool.and_eq_true_iff.mp h
    exact ⟨hlead, List.forall_mem_cons.mpr ⟨legalTail_of_legalSecond ha, List.forall_mem_singleton.mpr hc⟩⟩
  | [a, c, d] =>
    obtain ⟨hd, h⟩ := Bool.and_eq_true_iff.mp h
    obtain ⟨hc, h⟩ := Bool.and_eq_true_iff.mp h
    obtain ⟨ha, hlead⟩ := Bool.and_eq_true_iff.mp h
    exact ⟨hlead, List.forall_mem_cons.mpr ⟨legalTail_of_legalSecond ha,
      List.forall_mem_cons.mpr ⟨hc, List.forall_mem_singleton.mpr hd⟩⟩⟩
  | _ :: _ :: _ :: _ :: _ => cases h

/-- Of a character of more bytes the last one may be any that may follow. -/
lemma legal_last {lead last x : UInt8} {init : List UInt8} (hx : legalTail x = true)
    (hlength : (init ++ [last]).length + 1 = pgUtfMblen lead) (h : pgUtf8Islegal (lead :: (init ++ [last])) = true) :
    pgUtf8Islegal (lead :: (init ++ [x])) = true := by
  match init with
  | [] =>
    -- the first bytes with a range of their own begin longer characters
    have htwo : 2 = pgUtfMblen lead := hlength
    have hsecond : legalSecond lead x = legalTail x := by
      rw [legalSecond, if_neg, if_neg, if_neg, if_neg]
      all_goals
        rintro rfl
        exact absurd htwo (by decide)
    exact Bool.and_eq_true_iff.mpr ⟨hsecond.trans hx, (Bool.and_eq_true_iff.mp h).2⟩
  | [a] => exact Bool.and_eq_true_iff.mpr ⟨hx, (Bool.and_eq_true_iff.mp h).2⟩
  | [a, c] => exact Bool.and_eq_true_iff.mpr ⟨hx, (Bool.and_eq_true_iff.mp h).2⟩
  | a :: c :: d :: init =>
    cases init with
    | nil => cases h
    | cons => cases h

/-- `NextChar` comes from the beginning of a character to that of the next one. -/
lemma utf8NextChar_bytes (c : Utf8Char) (t : List Utf8Char) : utf8NextChar (utf8Bytes (c :: t)) = utf8Bytes t := by
  have hstop : (utf8Bytes t).dropWhile (· &&& 0xC0 = 0x80) = utf8Bytes t := by
    cases t with
    | nil => rfl
    | cons d t =>
      refine List.dropWhile_cons_of_neg ?_
      rw [decide_eq_true_eq]
      exact and_of_legalFirst _ (legal_bytes d.legal).1
  change (c.rest ++ utf8Bytes t).dropWhile _ = _
  rw [List.dropWhile_append_of_pos fun b hb => decide_eq_true (and_of_legalTail b ((legal_bytes c.legal).2 b hb)),
    hstop]

/-- A text is the bytes of one list of characters only. -/
lemma utf8Bytes_injective {s t : List Utf8Char} (h : utf8Bytes s = utf8Bytes t) : s = t := by
  induction s generalizing t with
  | nil =>
    cases t with
    | nil => rfl
    | cons d t => cases h
  | cons c s ih =>
    cases t with
    | nil => cases h
    | cons d t =>
      have htail : utf8Bytes s = utf8Bytes t := by rw [← utf8NextChar_bytes c s, h, utf8NextChar_bytes]
      have hbytes : c.bytes ++ utf8Bytes s = d.bytes ++ utf8Bytes t := h
      rw [htail] at hbytes
      obtain ⟨hlead, hrest⟩ := List.cons.inj (List.append_cancel_right hbytes)
      rw [ih htail, Utf8Char.ext hlead hrest]

lemma wchareq_iff : wchareq a c = true ↔ a = c := by
  have htake : ∀ d : Utf8Char, d.bytes.take (pgUtfMblen d.lead) = d.bytes := fun d =>
    List.take_of_length_le (Nat.le_of_eq d.length_rest)
  rw [wchareq, Bool.and_eq_true, Bool.and_eq_true, beq_iff_eq, beq_iff_eq, beq_iff_eq]
  constructor
  · intro ⟨⟨hlead, _⟩, hbytes⟩
    rw [htake, hlead, htake] at hbytes
    exact Utf8Char.ext hlead (List.cons.inj hbytes).2
  · rintro rfl
    exact ⟨⟨rfl, rfl⟩, rfl⟩

/-- The macros of `UTF8_MatchText` -/
def utf8 : LikeMacros Utf8Char where
  byte := Utf8Char.lead
  getchar c := c
  chareq := wchareq
  chareq_getchar _ _ h := congrArg Utf8Char.lead (wchareq_iff.mp h)

/-- What a pattern means where `escaped` is the test for escaped characters: `Eq`, since they must match literally,
whatever they are. -/
def utf8Pattern (escaped : Utf8Char → Utf8Char → Prop) : Bool → List Utf8Char → Option (List (Wild Utf8Char)) :=
  likePattern Utf8Char.lead Eq escaped (some likeBackslash)

/-- All escaped characters are one byte long. -/
def EscapesBytes : Bool → List Utf8Char → Prop
  | _, [] => True
  | true, b :: p => b.rest = [] ∧ EscapesBytes false p
  | false, a :: p => EscapesBytes (a.lead = likeBackslash) p

/-- The first byte tells characters of one byte apart. -/
lemma lead_eq_iff (ha : a.rest = []) : a.lead = c.lead ↔ a = c := by
  constructor
  · intro hlead
    have hlength : c.rest.length = a.rest.length :=
      Nat.succ.inj (c.length_rest.trans (hlead ▸ a.length_rest.symm))
    rw [ha] at hlength
    exact Utf8Char.ext hlead (ha.trans (List.length_eq_zero_iff.mp hlength).symm)
  · exact congrArg _

lemma utf8Pattern_after {escaped : Utf8Char → Utf8Char → Prop} :
    utf8Pattern escaped true (c :: p) = (utf8Pattern escaped false p).map (.letter (escaped c) :: ·) := rfl

lemma utf8Pattern_cons {escaped : Utf8Char → Utf8Char → Prop} : utf8Pattern escaped false (c :: p) =
    if some likeBackslash = some c.lead then utf8Pattern escaped true p
    else if c.lead = likePercent then (utf8Pattern escaped false p).map (.many :: ·)
    else if c.lead = likeUnderscore then (utf8Pattern escaped false p).map (.one :: ·)
    else (utf8Pattern escaped false p).map (.letter (c = ·) :: ·) := rfl

/-- `MatchText` compares the first bytes of escaped characters. -/
abbrev SameLead (a c : Utf8Char) : Prop := a.lead = c.lead

lemma utf8_pattern (p : List Utf8Char) : utf8.pattern p = utf8Pattern SameLead false p := by
  have hchareq : (fun a c => utf8.chareq a c = true) = Eq := funext₂ fun a c => propext wchareq_iff
  rw [LikeMacros.pattern, hchareq]
  rfl

lemma utf8Pattern_eq {afterescape : Bool} (h : EscapesBytes afterescape p) :
    utf8Pattern SameLead afterescape p = utf8Pattern Eq afterescape p := by
  induction p generalizing afterescape with
  | nil => cases afterescape <;> rfl
  | cons c p ih =>
    cases afterescape with
    | true =>
      have htest : SameLead c = Eq c := funext fun d => propext (lead_eq_iff h.1)
      rw [utf8Pattern_after, utf8Pattern_after, ih h.2, htest]
    | false =>
      rw [utf8Pattern_cons, utf8Pattern_cons]
      by_cases hescape : c.lead = likeBackslash
      · have hrest : EscapesBytes true p := decide_eq_true hescape ▸ h
        rw [ih hrest, hescape, if_pos rfl, if_pos rfl]
      · have hrest : EscapesBytes false p := decide_eq_false hescape ▸ h
        rw [ih hrest, if_neg fun heq => hescape (Option.some.inj heq).symm,
          if_neg fun heq => hescape (Option.some.inj heq).symm]

lemma utf8Pattern_isSome (escaped escaped' : Utf8Char → Utf8Char → Prop) (afterescape : Bool) (p : List Utf8Char) :
    (utf8Pattern escaped afterescape p).isSome = (utf8Pattern escaped' afterescape p).isSome := by
  induction p generalizing afterescape with
  | nil => cases afterescape <;> rfl
  | cons c p ih =>
    cases afterescape with
    | true => rw [utf8Pattern_after, utf8Pattern_after, Option.isSome_map, Option.isSome_map, ih]
    | false =>
      rw [utf8Pattern_cons, utf8Pattern_cons]
      split
      · exact ih true
      split
      · rw [Option.isSome_map, Option.isSome_map, ih]
      split
      all_goals rw [Option.isSome_map, Option.isSome_map, ih]

/-- A character of more bytes is not the only one with its first byte. -/
lemma exists_sameLead (ha : a.rest ≠ []) : ∃ c, SameLead a c ∧ a ≠ c := by
  obtain ⟨init, last, hrest⟩ := (List.eq_nil_or_concat' a.rest).resolve_left ha
  obtain ⟨x, hx, hne⟩ : ∃ x : UInt8, legalTail x = true ∧ x ≠ last := by
    by_cases hlast : last = 0x80
    · exact ⟨0x81, by decide, by rw [hlast]; decide⟩
    · exact ⟨0x80, by decide, Ne.symm hlast⟩
  refine ⟨⟨a.lead, init ++ [x], ?_, legal_last hx (hrest ▸ a.length_rest) (hrest ▸ a.legal)⟩, rfl, ?_⟩
  · rw [← a.length_rest, hrest, List.length_append, List.length_append]
    rfl
  · intro heq
    have hsame : init ++ [last] = init ++ [x] := hrest ▸ congrArg Utf8Char.rest heq
    exact hne (List.cons.inj (List.append_cancel_left hsame)).1.symm

/-- A shortest text that `MatchText` takes for a match. It is none if an escaped character has more bytes, since another
character with its first byte stands in the text then. -/
lemma exists_taken {afterescape : Bool} {v : List (Wild Utf8Char)} (h : utf8Pattern Eq afterescape p = some v) :
    ∃ v' t, utf8Pattern SameLead afterescape p = some v' ∧ Accepts v' t ∧ t.length = minLength v ∧
      (¬EscapesBytes afterescape p → ¬Accepts v t) := by
  induction p generalizing afterescape v with
  | nil =>
    cases afterescape with
    | true => cases h
    | false =>
      cases h
      exact ⟨[], [], rfl, rfl, rfl, fun hnot => absurd trivial hnot⟩
  | cons c p ih =>
    cases afterescape with
    | true =>
      rw [utf8Pattern_after] at h
      obtain ⟨v, hv, rfl⟩ := Option.map_eq_some_iff.mp h
      obtain ⟨v', t, hv', haccepts, hlen, hwrong⟩ := ih hv
      by_cases hc : c.rest = []
      · refine ⟨.letter (SameLead c) :: v', c :: t, ?_, ⟨c, t, rfl, rfl, haccepts⟩, congrArg Nat.succ hlen, ?_⟩
        · rw [utf8Pattern_after, hv', Option.map_some]
        · exact fun hnot hlit => hwrong (fun hbytes => hnot ⟨hc, hbytes⟩) (accepts_letter.mp hlit).2
      · obtain ⟨d, hlead, hne⟩ := exists_sameLead hc
        refine ⟨.letter (SameLead c) :: v', d :: t, ?_, ⟨d, t, rfl, hlead, haccepts⟩, congrArg Nat.succ hlen, ?_⟩
        · rw [utf8Pattern_after, hv', Option.map_some]
        · exact fun _ hlit => hne (accepts_letter.mp hlit).1
    | false =>
      rw [utf8Pattern_cons] at h
      rw [utf8Pattern_cons]
      by_cases hescape : c.lead = likeBackslash
      · have hbytes : EscapesBytes false (c :: p) = EscapesBytes true p := by
          rw [EscapesBytes, decide_eq_true hescape]
        rw [hescape, if_pos rfl] at h
        rw [hescape, if_pos rfl, hbytes]
        exact ih h
      have hbytes : EscapesBytes false (c :: p) = EscapesBytes false p := by
        rw [EscapesBytes, decide_eq_false hescape]
      rw [if_neg fun heq => hescape (Option.some.inj heq).symm] at h
      rw [if_neg fun heq => hescape (Option.some.inj heq).symm, hbytes]
      by_cases hpercent : c.lead = likePercent
      · rw [if_pos hpercent] at h
        obtain ⟨v, hv, rfl⟩ := Option.map_eq_some_iff.mp h
        obtain ⟨v', t, hv', haccepts, hlen, hwrong⟩ := ih hv
        refine ⟨.many :: v', t, ?_, ⟨t, List.suffix_rfl, haccepts⟩, hlen, ?_⟩
        · rw [if_pos hpercent, hv', Option.map_some]
        · exact fun hnot hmany => hwrong hnot ((accepts_many_shortest hlen).mp hmany)
      rw [if_neg hpercent] at h
      by_cases hunderscore : c.lead = likeUnderscore
      · rw [if_pos hunderscore] at h
        obtain ⟨v, hv, rfl⟩ := Option.map_eq_some_iff.mp h
        obtain ⟨v', t, hv', haccepts, hlen, hwrong⟩ := ih hv
        refine ⟨.one :: v', c :: t, ?_, ⟨c, t, rfl, haccepts⟩, congrArg Nat.succ hlen, ?_⟩
        · rw [if_neg hpercent, if_pos hunderscore, hv', Option.map_some]
        · exact fun hnot hone => hwrong hnot (accepts_one.mp hone)
      · rw [if_neg hunderscore] at h
        obtain ⟨v, hv, rfl⟩ := Option.map_eq_some_iff.mp h
        obtain ⟨v', t, hv', haccepts, hlen, hwrong⟩ := ih hv
        refine ⟨.letter (c = ·) :: v', c :: t, ?_, ⟨c, t, rfl, rfl, haccepts⟩, congrArg Nat.succ hlen, ?_⟩
        · rw [if_neg hpercent, if_neg hunderscore, hv', Option.map_some]
        · exact fun hnot hlit => hwrong hnot (accepts_letter.mp hlit).2

/-- What matches is found. -/
lemma Judges.of_accepts {w : List (Wild Utf8Char)} {r : Except LikeError LikeResult} (h : Judges (some w) t r)
    (haccepts : Accepts w t) : r = .ok .LIKE_TRUE := by
  cases r with
  | error => cases h
  | ok r =>
    cases r with
    | LIKE_TRUE => rfl
    | LIKE_FALSE => exact absurd haccepts (h w rfl)
    | LIKE_ABORT => exact absurd haccepts (h w rfl t List.suffix_rfl)

end utf8

/-- In UTF-8 the result of `MatchText` is true of every text only for patterns that escape characters of one byte, and
for those that end with the escape character: of an escaped character of more bytes only the first byte is compared. -/
theorem utf8MatchText_judges_iff (p : List Utf8Char) :
    (∀ t, Judges (utf8Pattern Eq false p) t (matchText utf8 t p)) ↔
      EscapesBytes false p ∨ utf8Pattern Eq false p = none := by
  have hjudges : ∀ t, Judges (utf8Pattern SameLead false p) t (matchText utf8 t p) := fun t =>
    utf8_pattern p ▸ (matchLoop_judges utf8 p.length t p le_rfl).fastPath
  constructor
  · intro h
    by_contra hnot
    obtain ⟨hbytes, hsome⟩ := not_or.mp hnot
    obtain ⟨v, hv⟩ := Option.ne_none_iff_exists'.mp hsome
    obtain ⟨v', t, hv', haccepts, -, hwrong⟩ := exists_taken hv
    have htaken : matchText utf8 t p = .ok .LIKE_TRUE := (hv' ▸ hjudges t).of_accepts haccepts
    have htrue := h t
    rw [htaken, hv] at htrue
    obtain ⟨_, heq, haccepts⟩ := htrue
    cases heq
    exact hwrong hbytes haccepts
  · intro h t
    cases h with
    | inl hbytes =>
      rw [← utf8Pattern_eq hbytes]
      exact hjudges t
    | inr hnone =>
      have hsame : utf8Pattern SameLead false p = none := by
        rw [← Option.isSome_eq_false_iff.trans Option.isNone_iff_eq_none, utf8Pattern_isSome SameLead Eq, hnone]
        rfl
      rw [hnone, ← hsame]
      exact hjudges t

/-- `è` is taken for an escaped `é`. -/
example : matchText utf8 [⟨0xC3, [0xA8], by decide, by decide⟩]
    [⟨0x5C, [], by decide, by decide⟩, ⟨0xC3, [0xA9], by decide, by decide⟩] =
      .ok .LIKE_TRUE := by decide

end GaussKernel.Adt
