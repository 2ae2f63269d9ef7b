import Mathlib
import GaussKernel.Adt.Format
import GaussKernel.Lib.Decimal

/-!
# Decimal text of big integers

`bi64_out`, `int128_to_string` and `bi128_out` (`biginteger.cpp`). A text that does not fit its buffer is an error of
`sprintf_s` or `memcpy_s`.
-/

namespace GaussKernel.Adt
open Lib

abbrev MAXBI64LEN : ℕ := 25
abbrev MAXBI128LEN : ℕ := 45
abbrev P10_INT64 : ℤ := 10 ^ 18

/-! ## The C library -/

/-- `%0*ld`; a width of 0 is `%ld`. -/
def formatLd (width : ℕ) (x : ℤ) : List Char :=
  if x < 0 then '-' :: zeroPadded (width - 1) x.natAbs else zeroPadded width x.natAbs

def sprintfS (len : ℕ) (text : List Char) : Run (List Char) :=
  StateT.lift (if text.length < len then some text else none)

/-- `memcpy_s` of the first `count` characters -/
def memcpyS (destMax : ℕ) (src : List Char) (count : ℕ) : Run (List Char) :=
  StateT.lift (if count ≤ destMax ∧ count ≤ src.length then some (src.take count) else none)

/-- `pstrdup` -/
def cString (buf : List Char) : List Char := buf.takeWhile (· ≠ '\x00')

/-! ## Printing -/

/-- The least value of a type, cut out of its text. -/
def minOut (bufLen : ℕ) (minStr : List Char) (scale : ℕ) : Run (List Char) := do
  if scale > 0 then
    let len := minStr.length - scale
    let head ← memcpyS bufLen minStr len
    let tail ← memcpyS (bufLen - len - 1) (minStr.drop len ++ ['\x00']) (scale + 1)
    pure (cString (head ++ '.' :: tail))
  else
    let buf ← memcpyS bufLen (minStr ++ ['\x00']) (minStr.length + 1)
    pure (cString buf)

def int64MinStr : List Char := "-9223372036854775808".toList

def int128MinStr : List Char := "-170141183460469231731687303715884105728".toList

/-- The branches of `bi64_out` for data that are not negative, and with a sign for those that are. -/
def bi64Print (displayLeadingZero : Bool) (sign : List Char) (valU64 : ℤ) (scale : ℕ) : Run (List Char) := do
  let multiplier ← getScaleMultiplier scale
  -- the multiplier as a `uint64`
  let preVal := toInt64 (valU64 / (multiplier % 2 ^ 64))
  let postVal := toInt64 (valU64 % (multiplier % 2 ^ 64))
  if scale > 0 then
    if preVal = 0 ∧ postVal ≠ 0 ∧ displayLeadingZero = false then
      sprintfS MAXBI64LEN (sign ++ '.' :: formatLd scale postVal)
    else sprintfS MAXBI64LEN (sign ++ formatLd 0 preVal ++ '.' :: formatLd scale postVal)
  else sprintfS MAXBI64LEN (sign ++ formatLd 0 preVal)

def bi64Out (displayLeadingZero : Bool) (data : ℤ) (scale : ℕ) : Run (List Char) := do
  if data = -2 ^ 63 then minOut MAXBI64LEN int64MinStr scale
  else if data ≥ 0 then bi64Print displayLeadingZero [] data scale
  else
    let valU64 ← signed 64 (-data)
    bi64Print displayLeadingZero ['-'] valU64 scale

/-- `int128_to_string` of data that are not negative, in one to three pieces -/
def int128ToString (precedingZero : Bool) (data : ℤ) (len scale : ℕ) : Run (List Char) :=
  if data = toInt64 data then sprintfS len (formatLd (if precedingZero then scale else 0) (toInt64 data))
  else
    let trailing := toInt64 (data % P10_INT64)
    let num := data / P10_INT64
    if num = toInt64 num then
      sprintfS len (formatLd (if precedingZero then scale - 18 else 0) (toInt64 num) ++ formatLd 18 trailing)
    else
      let middle := toInt64 (num % P10_INT64)
      let leading := toInt64 (num / P10_INT64)
      sprintfS len (formatLd (if precedingZero then scale - 36 else 0) leading ++ formatLd 18 middle ++
        formatLd 18 trailing)

/-- The branches of `bi128_out` -/
def bi128Print (displayLeadingZero : Bool) (sign : List Char) (data : ℤ) (scale : ℕ) : Run (List Char) := do
  let multiplier ← getScaleMultiplier scale
  let preVal := data / multiplier
  let postVal := data % multiplier
  if scale > 0 then
    if preVal = 0 ∧ postVal ≠ 0 ∧ displayLeadingZero = false then
      let buf := sign ++ ['.']
      let text ← int128ToString true postVal (MAXBI128LEN - buf.length) scale
      pure (buf ++ text)
    else
      let text ← int128ToString false preVal (MAXBI128LEN - sign.length) 0
      let buf := sign ++ text ++ ['.']
      let text ← int128ToString true postVal (MAXBI128LEN - buf.length) scale
      pure (buf ++ text)
  else
    let text ← int128ToString false preVal (MAXBI128LEN - sign.length) 0
    pure (sign ++ text)

def bi128Out (displayLeadingZero : Bool) (data : ℤ) (scale : ℕ) : Run (List Char) := do
  if data = -2 ^ 127 then minOut MAXBI128LEN int128MinStr scale
  else if data ≥ 0 then bi128Print displayLeadingZero [] data scale
  else
    let data ← signed 128 (-data)
    bi128Print displayLeadingZero ['-'] data scale

/-! ## The pieces -/

lemma formatLd_natCast (width n : ℕ) : formatLd width n = zeroPadded width n := if_neg (by omega)

lemma sprintfS_eq {len : ℕ} {text : List Char} (h : text.length < len) : sprintfS len text = pure text := by
  rw [sprintfS, if_pos h]
  rfl

lemma memcpyS_eq {destMax count : ℕ} {src : List Char} (hdest : count ≤ destMax) (hsrc : count ≤ src.length) :
    memcpyS destMax src count = pure (src.take count) := by
  rw [memcpyS, if_pos ⟨hdest, hsrc⟩]
  rfl

lemma zeroPadded_zero (n : ℕ) : zeroPadded 0 n = Nat.toDigits 10 n := by
  rw [zeroPadded, Nat.zero_sub]
  rfl

lemma toInt64_natCast {n : ℕ} (h : n < 2 ^ 63) : toInt64 n = n :=
  toInt64_of_inRange ⟨by omega, by norm_num; omega⟩

lemma toInt64_eq_iff {n : ℕ} : (n : ℤ) = toInt64 n ↔ n < 2 ^ 63 := by
  constructor
  · intro h
    have hlt : (n : ℤ).bmod (2 ^ 64) < 2 ^ 63 := Int.bmod_lt (show 0 < 2 ^ 64 by decide)
    rw [← wrap, ← toInt64, ← h] at hlt
    exact_mod_cast hlt
  · intro h
    exact (toInt64_natCast h).symm

variable {scale v : ℕ} {leadingZero : Bool}

/-- The pieces put together are the number, wherever it is cut. -/
lemma int128ToString_eq {n len : ℕ} (precedingZero : Bool) (hn : n < 2 ^ 127)
    (hlen : (zeroPadded (if precedingZero then scale else 0) n).length < len) :
    int128ToString precedingZero n len scale = pure (zeroPadded (if precedingZero then scale else 0) n) := by
  have hwidth : ∀ k, (if precedingZero then scale - k else 0) = (if precedingZero then scale else 0) - k := by
    intro k
    cases precedingZero with
    | true => rfl
    | false => exact (Nat.zero_sub k).symm
  have hcut : ∀ w m : ℕ, 10 ^ 18 ≤ m →
      zeroPadded w m = zeroPadded (w - 18) (m / 10 ^ 18) ++ zeroPadded 18 (m % 10 ^ 18) := by
    intro w m hm
    have h := zeroPadded_mul_add w (Nat.div_pos hm (by decide)) (Nat.mod_lt m (show 0 < 10 ^ 18 by decide)) (by decide)
    rwa [Nat.div_add_mod'] at h
  have hdiv : ∀ m : ℕ, (m : ℤ) / P10_INT64 = ((m / 10 ^ 18 : ℕ) : ℤ) := fun m => by push_cast; rfl
  have hmod : ∀ m : ℕ, toInt64 ((m : ℤ) % P10_INT64) = ((m % 10 ^ 18 : ℕ) : ℤ) := fun m => by
    rw [← toInt64_natCast (show m % 10 ^ 18 < 2 ^ 63 by omega)]
    push_cast
    rfl
  unfold int128ToString
  by_cases hone : n < 2 ^ 63
  · rw [if_pos (toInt64_eq_iff.mpr hone), toInt64_natCast hone, formatLd_natCast]
    exact sprintfS_eq hlen
  · rw [if_neg fun h => hone (toInt64_eq_iff.mp h)]
    have htwo := hcut (if precedingZero then scale else 0) n (by omega)
    dsimp only
    rw [hdiv, hmod]
    by_cases hfits : n / 10 ^ 18 < 2 ^ 63
    · rw [if_pos (toInt64_eq_iff.mpr hfits), toInt64_natCast hfits, hwidth, formatLd_natCast, formatLd_natCast, ← htwo]
      exact sprintfS_eq hlen
    · have hthree := hcut ((if precedingZero then scale else 0) - 18) (n / 10 ^ 18) (by omega)
      rw [if_neg fun h => hfits (toInt64_eq_iff.mp h), hmod, hdiv, toInt64_natCast (by omega), hwidth, formatLd_natCast,
        formatLd_natCast, formatLd_natCast, show (36 : ℕ) = 18 + 18 by rfl, ← Nat.sub_sub, ← hthree, ← htwo]
      exact sprintfS_eq hlen

/-! ## The text -/

/-- The digits printed of a value that is not the least. -/
def biDigits (leadingZero : Bool) (v scale : ℕ) : List Char :=
  (if v < 10 ^ scale ∧ v ≠ 0 ∧ leadingZero = false then [] else Nat.toDigits 10 (v / 10 ^ scale)) ++
    (if scale = 0 then [] else '.' :: zeroPadded scale (v % 10 ^ scale))

/-- The text of a value that is not the least. -/
def biText (leadingZero : Bool) (data : ℤ) (scale : ℕ) : List Char :=
  (if data < 0 then ['-'] else []) ++ biDigits leadingZero data.natAbs scale

lemma isDecimal_biText (leadingZero : Bool) (data : ℤ) (scale : ℕ) :
    IsDecimal leadingZero data scale (biText leadingZero data scale) := by
  have hne : data.natAbs ≠ 0 ↔ data ≠ 0 := Int.natAbs_ne_zero
  by_cases h : data.natAbs < 10 ^ scale ∧ data.natAbs ≠ 0 ∧ leadingZero = false
  · have h' := h
    obtain ⟨hlt, hne', rfl⟩ := h'
    have hpos : scale ≠ 0 := by
      rintro rfl
      exact hne' (Nat.lt_one_iff.mp hlt)
    refine ⟨_, _, ?_, decimalParts_omitted hlt (hne.mp hne')⟩
    rw [biText, biDigits, decimalText, if_pos h, if_neg hpos, List.append_assoc]
  · refine ⟨_, _, ?_, decimalParts_shown fun hc => h ⟨hc.1, hne.mpr hc.2.1, hc.2.2⟩⟩
    rw [biText, biDigits, decimalText, if_neg h, List.append_assoc]
    by_cases h0 : scale = 0
    · rw [if_pos h0, if_pos h0]
    · rw [if_neg h0, if_neg h0, if_neg h0]

lemma biDigits_length (leadingZero : Bool) {digits : ℕ} (hv : v < 10 ^ digits) (hscale : scale ≤ digits) :
    (biDigits leadingZero v scale).length ≤ digits + 2 := by
  have hwhole : (Nat.toDigits 10 (v / 10 ^ scale)).length ≤ digits - scale + 1 := by
    rw [Nat.length_toDigits_le_iff (by decide) (Nat.succ_pos _), Nat.div_lt_iff_lt_mul (Nat.pow_pos (by decide)),
      ← Nat.pow_add]
    exact lt_of_lt_of_le hv (Nat.pow_le_pow_right (by decide) (by omega))
  have hshown : (if v < 10 ^ scale ∧ v ≠ 0 ∧ leadingZero = false then [] else
      Nat.toDigits 10 (v / 10 ^ scale)).length ≤ digits - scale + 1 := by
    split
    · exact Nat.zero_le _
    · exact hwhole
  have hfrac : (if scale = 0 then [] else '.' :: zeroPadded scale (v % 10 ^ scale)).length ≤ scale + 1 := by
    split
    case isTrue => exact Nat.zero_le _
    case isFalse h0 =>
      rw [List.length_cons, zeroPadded_length (Nat.pos_of_ne_zero h0) (Nat.mod_lt _ (Nat.pow_pos (by decide)))]
  rw [biDigits, List.length_append]
  omega

/-- The test of the functions. -/
lemma omitted_iff (leadingZero : Bool) :
    (((v / 10 ^ scale : ℕ) : ℤ) = 0 ∧ ((v % 10 ^ scale : ℕ) : ℤ) ≠ 0 ∧ leadingZero = false) ↔
      v < 10 ^ scale ∧ v ≠ 0 ∧ leadingZero = false := by
  have hpow : 0 < 10 ^ scale := Nat.pow_pos (by decide)
  rw [Int.natCast_eq_zero, Nat.div_eq_zero_iff, or_iff_right hpow.ne', Int.natCast_ne_zero, ← and_assoc, ← and_assoc]
  exact and_congr_left fun _ => and_congr_right fun hlt => by rw [Nat.mod_eq_of_lt hlt]

lemma bi64Print_eq {sign : List Char} (hv : v < 2 ^ 63) (hscale : scale ≤ 19) (hsign : sign.length ≤ 1) :
    bi64Print leadingZero sign v scale = pure (sign ++ biDigits leadingZero v scale) := by
  have hlen := biDigits_length leadingZero (show v < 10 ^ 19 by omega) hscale
  have hmult : (10 ^ scale : ℤ) % 2 ^ 64 = ((10 ^ scale : ℕ) : ℤ) := by
    have hle : 10 ^ scale ≤ 10 ^ 19 := Nat.pow_le_pow_right (by decide) hscale
    rw [Int.emod_eq_of_lt (by positivity) (by zify at hle; omega)]
    push_cast
    rfl
  have hpre : toInt64 ((v : ℤ) / ((10 ^ scale : ℕ) : ℤ)) = ((v / 10 ^ scale : ℕ) : ℤ) := by
    rw [← Int.natCast_div, toInt64_natCast (lt_of_le_of_lt (Nat.div_le_self _ _) hv)]
  have hpost : toInt64 ((v : ℤ) % ((10 ^ scale : ℕ) : ℤ)) = ((v % 10 ^ scale : ℕ) : ℤ) := by
    rw [← Int.natCast_mod, toInt64_natCast (lt_of_le_of_lt (Nat.mod_le _ _) hv)]
  have hfits : (sign ++ biDigits leadingZero v scale).length < 25 := by
    rw [List.length_append]
    omega
  rw [← sprintfS_eq hfits, bi64Print, getScaleMultiplier_eq (by omega), pure_bind]
  dsimp only
  rw [hmult, hpre, hpost, formatLd_natCast, formatLd_natCast, zeroPadded_zero, biDigits]
  by_cases h0 : scale = 0
  · subst h0
    rw [if_neg (Nat.lt_irrefl 0), if_neg (by omega), if_pos rfl, List.append_nil]
  · rw [if_pos (Nat.pos_of_ne_zero h0), if_neg h0]
    by_cases h : v < 10 ^ scale ∧ v ≠ 0 ∧ leadingZero = false
    · rw [if_pos ((omitted_iff leadingZero).mpr h), if_pos h, List.nil_append]
    · rw [if_neg fun hc => h ((omitted_iff leadingZero).mp hc), if_neg h, List.append_assoc]

lemma bi128Print_eq {sign : List Char} (hv : v < 2 ^ 127) (hscale : scale ≤ 38) (hsign : sign.length ≤ 1) :
    bi128Print leadingZero sign v scale = pure (sign ++ biDigits leadingZero v scale) := by
  have hpre : (v : ℤ) / 10 ^ scale = ((v / 10 ^ scale : ℕ) : ℤ) := by push_cast; rfl
  have hpost : (v : ℤ) % 10 ^ scale = ((v % 10 ^ scale : ℕ) : ℤ) := by push_cast; rfl
  have hquot : v / 10 ^ scale < 2 ^ 127 := lt_of_le_of_lt (Nat.div_le_self _ _) hv
  have hrem : v % 10 ^ scale < 2 ^ 127 := lt_of_le_of_lt (Nat.mod_le _ _) hv
  -- the digits before the point are at most those that the scale leaves
  have hwhole : (zeroPadded 0 (v / 10 ^ scale)).length ≤ 39 - scale := by
    rw [zeroPadded_zero, Nat.length_toDigits_le_iff (by decide) (by omega),
      Nat.div_lt_iff_lt_mul (Nat.pow_pos (by decide)),
      ← Nat.pow_add, Nat.sub_add_cancel (by omega)]
    omega
  have hfrac : 0 < scale → (zeroPadded scale (v % 10 ^ scale)).length = scale := fun h =>
    zeroPadded_length h (Nat.mod_lt _ (Nat.pow_pos (by decide)))
  have hskip : int128ToString false ((v / 10 ^ scale : ℕ) : ℤ) (45 - sign.length) 0 =
      pure (zeroPadded 0 (v / 10 ^ scale)) :=
    int128ToString_eq false hquot (lt_of_le_of_lt hwhole (by omega))
  have hsuffix : ∀ len, 0 < scale → scale < len →
      int128ToString true ((v % 10 ^ scale : ℕ) : ℤ) len scale = pure (zeroPadded scale (v % 10 ^ scale)) :=
    fun len h0 hlen => int128ToString_eq true hrem (lt_of_eq_of_lt (hfrac h0) hlen)
  rw [bi128Print, getScaleMultiplier_eq (by omega), pure_bind]
  dsimp only
  rw [hpre, hpost, biDigits]
  by_cases h0 : scale = 0
  · subst h0
    rw [if_neg (Nat.lt_irrefl 0), if_neg (by omega), if_pos rfl, List.append_nil, hskip, pure_bind, zeroPadded_zero]
  · have hpos := Nat.pos_of_ne_zero h0
    rw [if_pos hpos, if_neg h0]
    by_cases h : v < 10 ^ scale ∧ v ≠ 0 ∧ leadingZero = false
    · have hroom : scale < 45 - (sign ++ ['.']).length := by simp; omega
      rw [if_pos ((omitted_iff leadingZero).mpr h), if_pos h, hsuffix _ hpos hroom, pure_bind, List.append_assoc]
      rfl
    · have hroom : scale < 45 - (sign ++ zeroPadded 0 (v / 10 ^ scale) ++ ['.']).length := by simp; omega
      rw [if_neg fun hc => h ((omitted_iff leadingZero).mp hc), if_neg h, hskip, pure_bind,
        hsuffix _ hpos hroom, pure_bind, zeroPadded_zero]
      simp

/-- What `bi64_out` and `bi128_out` have in common: the two branches behind the least value. -/
lemma branches_eq {w : ℕ} {data : ℤ} (print : List Char → ℤ → Run (List Char)) (hdata : InRange w data)
    (hmin : data ≠ -2 ^ (w - 1)) (hprint : ∀ sign v, v < 2 ^ (w - 1) → sign.length ≤ 1 →
      print sign ((v : ℕ) : ℤ) = pure (sign ++ biDigits leadingZero v scale)) :
    (if data ≥ 0 then print [] data else do let data ← signed w (-data); print ['-'] data) =
      pure (biText leadingZero data scale) := by
  obtain ⟨hlo, hhi⟩ := hdata
  have hlt : data.natAbs < 2 ^ (w - 1) := by
    zify
    exact abs_lt.mpr ⟨lt_of_le_of_ne hlo hmin.symm, hhi⟩
  by_cases h : data ≥ 0
  · have hpos := hprint [] data.natAbs hlt (by decide)
    rw [Int.natAbs_of_nonneg h] at hpos
    rw [if_pos h, hpos, biText, if_neg (by omega)]
  · have hneg := hprint ['-'] data.natAbs hlt (by decide)
    rw [Int.ofNat_natAbs_of_nonpos (by omega)] at hneg
    have hpow : (0 : ℤ) < 2 ^ (w - 1) := by positivity
    rw [if_neg h, signed_of_inRange ⟨by omega, by omega⟩, pure_bind, hneg, biText, if_pos (by omega)]

lemma bi64Out_eq {data : ℤ} (hdata : InRange 64 data) (hmin : data ≠ -2 ^ 63) (hscale : scale ≤ 19) :
    bi64Out leadingZero data scale = pure (biText leadingZero data scale) := by
  rw [bi64Out, if_neg hmin]
  exact branches_eq (fun sign v => bi64Print leadingZero sign v scale) hdata hmin
    fun sign v hv hsign => bi64Print_eq hv hscale hsign

lemma bi128Out_eq {data : ℤ} (hdata : InRange 128 data) (hmin : data ≠ -2 ^ 127) (hscale : scale ≤ 38) :
    bi128Out leadingZero data scale = pure (biText leadingZero data scale) := by
  rw [bi128Out, if_neg hmin]
  exact branches_eq (fun sign v => bi128Print leadingZero sign v scale) hdata hmin
    fun sign v hv hsign => bi128Print_eq hv hscale hsign

/-! ## The least values -/

lemma cString_append_nul {text : List Char} (h : ∀ c ∈ text, c ≠ '\x00') : cString (text ++ ['\x00']) = text := by
  rw [cString, List.takeWhile_append_of_pos fun c hc => by simpa using h c hc]
  simp

/-- The digits of the least value, cut before the last `scale`. -/
def minText (m scale : ℕ) : List Char :=
  decimalText (-m) scale ((Nat.toDigits 10 m).take ((Nat.toDigits 10 m).length - scale))
    ((Nat.toDigits 10 m).drop ((Nat.toDigits 10 m).length - scale))

lemma minOut_eq {bufLen m : ℕ} (hm : 0 < m) (hscale : scale ≤ (Nat.toDigits 10 m).length)
    (hroom : (Nat.toDigits 10 m).length + 3 ≤ bufLen) :
    minOut bufLen ('-' :: Nat.toDigits 10 m) scale = pure (minText m scale) := by
  have hdigit : ∀ c ∈ Nat.toDigits 10 m, c ≠ '\x00' := fun c hc h0 => by
    have h := isDigit_toDigits hc
    rw [h0] at h
    exact absurd h (by decide)
  have hneg : -(m : ℤ) < 0 := by omega
  unfold minOut minText decimalText
  generalize Nat.toDigits 10 m = ds at *
  rw [if_pos hneg]
  by_cases h0 : scale = 0
  · subst h0
    rw [if_neg (Nat.lt_irrefl 0), if_pos rfl, memcpyS_eq (by simp; omega) (by simp), pure_bind, List.append_nil,
      Nat.sub_zero, List.take_length, List.take_of_length_le (by simp), cString_append_nul]
    · rfl
    · intro c hc
      rcases List.mem_cons.mp hc with rfl | hc
      · decide
      · exact hdigit c hc
  · have hlen : ('-' :: ds).length - scale = ds.length - scale + 1 := by
      rw [List.length_cons]
      omega
    dsimp only
    rw [if_pos (Nat.pos_of_ne_zero h0), if_neg h0, hlen, memcpyS_eq (by omega) (by simp), pure_bind,
      memcpyS_eq (by omega) (by simp; omega), pure_bind, List.take_succ_cons, List.drop_succ_cons,
      List.take_of_length_le (show (ds.drop (ds.length - scale) ++ ['\x00']).length ≤ scale + 1 by simp; omega),
      ← List.cons_append, ← List.append_assoc, cString_append_nul]
    · rfl
    · intro c hc
      simp only [List.mem_append, List.mem_cons] at hc
      rcases hc with (rfl | hc) | rfl | hc
      · decide
      · exact hdigit c (List.mem_of_mem_take hc)
      · decide
      · exact hdigit c (List.mem_of_mem_drop hc)

lemma isDecimal_minText {m : ℕ} (hm : 0 < m) (hscale : scale ≤ (Nat.toDigits 10 m).length)
    (hzero : scale = (Nat.toDigits 10 m).length → leadingZero = false) :
    IsDecimal leadingZero (-m) scale (minText m scale) := by
  refine ⟨_, _, rfl, decimalParts_split ?_ ?_ (by omega) fun hnil => hzero ?_⟩
  · rw [Int.natAbs_neg, Int.natAbs_natCast, List.take_append_drop]
  · rw [List.length_drop]
    omega
  · have := List.length_pos_iff.mpr (Nat.toDigits_ne_nil (n := m) (b := 10))
    rcases List.take_eq_nil_iff.mp hnil with h | h
    · omega
    · exact absurd h Nat.toDigits_ne_nil

/-- Of the least `int64`, the zero before the point is left out whatever `DISPLAY_LEADING_ZERO` says. -/
lemma bi64Out_least (leadingZero : Bool) (hscale : scale ≤ 19) :
    bi64Out leadingZero (-2 ^ 63) scale = pure (minText (2 ^ 63) scale) ∧
      (IsDecimal leadingZero (-2 ^ 63) scale (minText (2 ^ 63) scale) ↔ ¬ (scale = 19 ∧ leadingZero = true)) := by
  have hlen : (Nat.toDigits 10 (2 ^ 63)).length = 19 := by decide +kernel
  have hstr : int64MinStr = '-' :: Nat.toDigits 10 (2 ^ 63) := by decide +kernel
  constructor
  · rw [bi64Out, if_pos rfl, hstr]
    exact minOut_eq (by decide) (by rw [hlen]; exact hscale) (by rw [hlen]; decide)
  · constructor
    · rintro h ⟨rfl, rfl⟩
      refine not_isDecimal_point (Nat.toDigits 10 (2 ^ 63)) ?_ h
      decide +kernel
    · intro h
      refine isDecimal_minText (by decide) (by rw [hlen]; exact hscale) fun hs => ?_
      rw [hlen] at hs
      exact Bool.eq_false_iff.mpr fun hl => h ⟨hs, hl⟩

lemma bi128Out_least (leadingZero : Bool) (hscale : scale ≤ 38) :
    bi128Out leadingZero (-2 ^ 127) scale = pure (minText (2 ^ 127) scale) ∧
      IsDecimal leadingZero (-2 ^ 127) scale (minText (2 ^ 127) scale) := by
  have hlen : (Nat.toDigits 10 (2 ^ 127)).length = 39 := by decide +kernel
  have hstr : int128MinStr = '-' :: Nat.toDigits 10 (2 ^ 127) := by decide +kernel
  constructor
  · rw [bi128Out, if_pos rfl, hstr]
    exact minOut_eq (by decide) (by rw [hlen]; omega) (by rw [hlen]; decide)
  · refine isDecimal_minText (by decide) (by rw [hlen]; omega) fun hs => ?_
    rw [hlen] at hs
    omega

/-! ## Both types -/

lemma run_pure_inj {α : Type} {a b : α} (h : (pure a : Run α) = pure b) : a = b :=
  congrArg Prod.fst (Option.some_inj.mp (congrFun h false))

/-- The function prints the decimal expansion, and it fits the buffer. -/
def PrintsDecimal (out : Bool → ℤ → ℕ → Run (List Char)) (leadingZero : Bool) (data : ℤ) (scale : ℕ) : Prop :=
  ∃ text, out leadingZero data scale = pure text ∧ IsDecimal leadingZero data scale text

/-- All but one `int64` and every `int128` are printed right. -/
theorem bi_out_decimal (leadingZero : Bool) :
    (∀ data, InRange 64 data → ∀ scale ≤ 19, (PrintsDecimal bi64Out leadingZero data scale ↔
      ¬ (data = -2 ^ 63 ∧ scale = 19 ∧ leadingZero = true))) ∧
    ∀ data, InRange 128 data → ∀ scale ≤ 38, PrintsDecimal bi128Out leadingZero data scale := by
  constructor
  · intro data hdata scale hscale
    by_cases hmin : data = -2 ^ 63
    · subst hmin
      obtain ⟨hout, hdec⟩ := bi64Out_least leadingZero hscale
      rw [eq_self, true_and, ← hdec]
      constructor
      · rintro ⟨text, htext, h⟩
        obtain rfl := run_pure_inj (htext.symm.trans hout)
        exact h
      · exact fun h => ⟨_, hout, h⟩
    · exact iff_of_true ⟨_, bi64Out_eq hdata hmin hscale, isDecimal_biText _ _ _⟩ fun h => hmin h.1
  · intro data hdata scale hscale
    by_cases hmin : data = -2 ^ 127
    · subst hmin
      obtain ⟨hout, hdec⟩ := bi128Out_least leadingZero hscale
      exact ⟨_, hout, hdec⟩
    · exact ⟨_, bi128Out_eq hdata hmin hscale, isDecimal_biText _ _ _⟩

theorem bi_out_decimal_cent : PrintsDecimal bi64Out false (-12) 2 ∧ PrintsDecimal bi128Out true (10 ^ 37) 38 :=
  ⟨((bi_out_decimal false).1 (-12) (by decide) 2 (by decide)).mpr (by decide),
    (bi_out_decimal true).2 (10 ^ 37) (by decide) 38 (by decide)⟩

/-- `-.9223372036854775808` with a zero wanted before the point -/
theorem bi64_out_least_no_zero : bi64Out true (-2 ^ 63) 19 = pure ("-.9223372036854775808".toList) ∧
    bi64Out true (-2 ^ 63 + 1) 19 = pure ("-0.9223372036854775807".toList) ∧
    ¬ PrintsDecimal bi64Out true (-2 ^ 63) 19 := by
  obtain ⟨hout, hdec⟩ := bi64Out_least true (show 19 ≤ 19 by decide)
  refine ⟨?_, ?_, ?_⟩
  · rw [hout]
    exact congrArg pure (by decide +kernel)
  · rw [bi64Out_eq (by decide) (by decide) (by decide)]
    exact congrArg pure (by decide +kernel)
  · rintro ⟨text, htext, h⟩
    obtain rfl := run_pure_inj (htext.symm.trans hout)
    exact hdec.mp h ⟨rfl, rfl⟩

end GaussKernel.Adt
