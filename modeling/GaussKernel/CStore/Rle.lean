import GaussKernel.Lib.Bytes

/-!
# Run-length coder of the column store

Model of `RleCoder` (`compress_kits.cpp`, `compress_kits.h`): `InnerCompress` with `WriteNonRuns` and
`WriteRuns`, `InnerDecompress`, and the bound `CompressGetBound`. The template parameter `eachValSize` is the
field `valSize`; both settings of the minimal run length are covered.

A run is written as marker, count and symbol, a short run plainly, and a short run of the marker value as marker and
count. `Encodes` says what a stream of such tokens stands for: the compressor produces one
(`innerCompress_encodes`), the decompressor inverts every one (`Encodes.decompress`), and every one stays below
the bound (`Encodes.length_le`).
-/

namespace GaussKernel.CStore

open Lib

abbrev rleMinRepeatsV1 : Nat := 4

def rleMinRepeatsV2 : List Nat := [0, 4, 3, 3, 3, 3, 3, 3, 3]

abbrev rleMaxRepeats : Nat := 0x7fff

def rleMarker : List Nat :=
  [0, 0xFE, 0xFEFE, 0xFEFEFE, 0xFEFEFEFE, 0xFEFEFEFEFE, 0xFEFEFEFEFEFE, 0xFEFEFEFEFEFEFE, 0xFEFEFEFEFEFEFEFE]

/-- `RleCoder` as its two constructors build it. -/
structure RleCoder where
  valSize : Nat
  minRepeats : Nat
  valSize_pos : 1 ≤ valSize
  valSize_le : valSize ≤ 8
  minRepeats_eq : minRepeats = rleMinRepeatsV1 ∨ minRepeats = rleMinRepeatsV2.getD valSize 0

/-- The state of `InnerCompress`: `inp` holds the values that have not been read, `out` the bytes written so far. -/
structure RleState where
  data1 : Nat
  data2 : Nat
  count : Nat
  inp : List Nat
  out : List UInt8
  deriving DecidableEq, Repr

/-- The loop that scans identical values. -/
def scanRun (data1 : Nat) : Nat → Nat → List Nat → Nat × Nat × List Nat
  | data2, count, [] => (data2, count, [])
  | data2, count, x :: inp =>
    if data1 = data2 ∧ count < rleMaxRepeats then scanRun data1 x (count + 1) inp else (data2, count, x :: inp)

namespace RleCoder

variable (c : RleCoder)

def marker : Nat := rleMarker.getD c.valSize 0

def writeData (symbol : Nat) : List UInt8 := toLE c.valSize symbol

def readData (inp : List UInt8) : Nat := ofLE (inp.take c.valSize)

/-- The values that `readData` returns one after the other. -/
def values (inbuf : List UInt8) : List Nat := wordsLE c.valSize inbuf

def copies (symbol n : Nat) : List UInt8 := (List.replicate n (c.writeData symbol)).flatten

def writeNonRuns (symbol repeats : Nat) : List UInt8 :=
  if c.marker ≠ symbol then c.copies symbol repeats
  else c.writeData symbol ++ [UInt8.ofNat repeats]

def writeRuns (symbol repeats : Nat) : List UInt8 :=
  c.writeData c.marker ++
    (if repeats ≥ 128 then [UInt8.ofNat ((repeats ||| 0x8000) >>> 8), UInt8.ofNat (repeats &&& 0xff)]
      else [UInt8.ofNat repeats]) ++
    c.writeData symbol

def writeRepeat (symbol count : Nat) : List UInt8 :=
  if count ≥ c.minRepeats then c.writeRuns symbol count else c.writeNonRuns symbol count

/-- The first half of the main loop's body: one run or one value is written. -/
def writeStep (s : RleState) : RleState :=
  if s.data1 = s.data2 then
    let r := scanRun s.data1 s.data2 s.count s.inp
    if s.data1 = r.1 then
      let out := s.out ++ c.writeRepeat s.data1 r.2.1
      match r.2.2 with
      | x :: inp => { data1 := x, data2 := r.1, count := 1, inp := inp, out := out }
      | [] => { data1 := s.data1, data2 := r.1, count := 0, inp := [], out := out }
    else
      { data1 := r.1, data2 := r.1, count := 1, inp := r.2.2, out := s.out ++ c.writeRepeat s.data1 (r.2.1 - 1) }
  else { s with data1 := s.data2, count := 1, out := s.out ++ c.writeNonRuns s.data1 1 }

/-- The second half: the next `data2` is read. -/
def readStep (s : RleState) : RleState :=
  match s.inp with
  | x :: inp => { s with data2 := x, count := 2, inp := inp }
  | [] => s

/-- At most `n` rounds of the main loop. -/
def compressLoop : Nat → RleState → RleState
  | 0, s => s
  | n + 1, s =>
    let s := readStep (c.writeStep s)
    if s.count ≥ 2 then compressLoop n s else s

/-- The state in front of the main loop. -/
def initState : List Nat → RleState
  | data1 :: data2 :: inp => { data1 := data1, data2 := data2, count := 2, inp := inp, out := [] }
  | [data1] => { data1 := data1, data2 := 0, count := 1, inp := [], out := [] }
  | [] => { data1 := 0, data2 := 0, count := 0, inp := [], out := [] }

/-- `InnerCompress` after `n` rounds of its main loop. -/
def roundState (inbuf : List UInt8) (n : Nat) : RleState :=
  let s := initState (c.values inbuf)
  if s.count ≥ 2 then c.compressLoop n s else s

/-- `InnerCompress`: the bytes written. The main loop makes at most one round per value. -/
def innerCompress (inbuf : List UInt8) : List UInt8 :=
  let s := c.roundState inbuf inbuf.length
  if s.count = 1 then s.out ++ c.writeNonRuns s.data1 1 else s.out

/-- `Compress`: the bytes written and their number as the `int` that is returned. -/
def compress (inbuf : List UInt8) : List UInt8 × Int :=
  let out := c.innerCompress inbuf
  (out, Int.bmod (out.length % 2 ^ 32) (2 ^ 32))

/-- `CompressGetBound`. -/
def compressGetBound (insize : Nat) : Nat := 1 + insize + (insize / c.valSize) / 2

/-- One round of `InnerDecompress`: the input that is left, the symbol and how often it is written. -/
def readToken (inp : List UInt8) : List UInt8 × Nat × Nat :=
  let symbol := c.readData inp
  let inp := inp.drop c.valSize
  if c.marker = symbol then
    let markerCount := (inp.getD 0 0).toNat
    if markerCount ≥ c.minRepeats then
      let wide : Bool := (inp.getD 0 0) &&& 0x80 ≠ 0
      -- the sum is masked with `0x7fff`
      let symbolCount := if wide then (markerCount * 256 % 2 ^ 16 + (inp.getD 1 0).toNat) % 2 ^ 15 else markerCount
      let inp := if wide then inp.drop 2 else inp.drop 1
      (inp.drop c.valSize, c.readData inp, symbolCount)
    else (inp.drop 1, symbol, markerCount)
  else (inp, symbol, 1)

/-- The main loop of `InnerDecompress`; `none` when `fuel` rounds do not end it. -/
def decompressLoop : Nat → List UInt8 → List UInt8 → Nat → Option (List UInt8 × Nat)
  | 0, _, _, _ => none
  | fuel + 1, inp, out, outcnt =>
    let t := c.readToken inp
    let out := out ++ c.copies t.2.1 t.2.2
    let outcnt := outcnt + t.2.2
    if c.valSize ≤ t.1.length then decompressLoop fuel t.1 out outcnt else some (out, outcnt)

/-- `Decompress`: the bytes written and the size that is returned. -/
def decompress (inbuf : List UInt8) : Option (List UInt8 × Nat) :=
  (c.decompressLoop inbuf.length inbuf [] 0).map fun r => (r.1, c.valSize * r.2)

/-! ## Values and tokens -/

lemma minRepeats_ge : 3 ≤ c.minRepeats := by
  have h1 := c.valSize_pos
  have h8 := c.valSize_le
  rcases c.minRepeats_eq with h | h
  · rw [h]
    decide
  · rw [h]
    interval_cases c.valSize <;> decide

lemma minRepeats_le : c.minRepeats ≤ 4 := by
  have h1 := c.valSize_pos
  have h8 := c.valSize_le
  rcases c.minRepeats_eq with h | h
  · rw [h]
  · rw [h]
    interval_cases c.valSize <;> decide

lemma minRepeats_of_valSize (h : c.valSize = 1) : c.minRepeats = 4 := by
  rcases c.minRepeats_eq with hm | hm
  · exact hm
  · rw [hm, h]
    rfl

lemma marker_lt : c.marker < 256 ^ c.valSize := by
  have h1 := c.valSize_pos
  have h8 := c.valSize_le
  rw [marker]
  interval_cases c.valSize <;> decide

@[simp]
lemma writeData_length (symbol : Nat) : (c.writeData symbol).length = c.valSize := toLE_length _ _

@[simp]
lemma copies_length (symbol n : Nat) : (c.copies symbol n).length = n * c.valSize := by
  simp [copies]

lemma copies_succ (symbol n : Nat) : c.copies symbol (n + 1) = c.writeData symbol ++ c.copies symbol n := rfl

/-- Reading a value back from the front of the input. -/
lemma readData_writeData {symbol : Nat} (h : symbol < 256 ^ c.valSize) (rest : List UInt8) :
    c.readData (c.writeData symbol ++ rest) = symbol := by
  rw [readData, List.take_left' (by simp), writeData, ofLE_toLE_of_lt h]

lemma drop_writeData (symbol : Nat) (rest : List UInt8) :
    (c.writeData symbol ++ rest).drop c.valSize = rest :=
  List.drop_left' (by simp)

lemma values_lt {inbuf : List UInt8} {v : Nat} (h : v ∈ c.values inbuf) : v < 256 ^ c.valSize := wordsLE_lt h

lemma values_length (inbuf : List UInt8) : (c.values inbuf).length = inbuf.length / c.valSize := wordsLE_length _ _

lemma flatten_values {inbuf : List UInt8} (h : inbuf.length % c.valSize = 0) :
    ((c.values inbuf).map c.writeData).flatten = inbuf :=
  flatten_wordsLE c.valSize_pos h

/-- `Encodes vs out`: the stream `out` consists of the tokens of a division of `vs` into runs. A single marker value
    is never followed by a marker value. -/
inductive Encodes : List Nat → List UInt8 → Prop where
  | nil : Encodes [] []
  | cons {v n vs out} :
    1 ≤ n → n ≤ rleMaxRepeats →
    (n = 1 → v = c.marker → vs.head? ≠ some c.marker) →
    Encodes vs out →
    Encodes (List.replicate n v ++ vs) (c.writeRepeat v n ++ out)

/-! ## The compressor produces a token stream -/

/-- What the scan leaves: either it stopped inside the run, or it has read the first value behind it. -/
lemma scanRun_spec (data1 count : Nat) (inp : List Nat) (hcount : count ≤ rleMaxRepeats) :
    ∃ k, (scanRun data1 data1 count inp).2.1 ≤ rleMaxRepeats ∧
      ((data1 = (scanRun data1 data1 count inp).1 ∧ (scanRun data1 data1 count inp).2.1 = count + k ∧
          inp = List.replicate k data1 ++ (scanRun data1 data1 count inp).2.2) ∨
        (data1 ≠ (scanRun data1 data1 count inp).1 ∧ (scanRun data1 data1 count inp).2.1 = count + k + 1 ∧
          inp = List.replicate k data1 ++
            (scanRun data1 data1 count inp).1 :: (scanRun data1 data1 count inp).2.2)) := by
  induction inp generalizing count with
  | nil => exact ⟨0, by simpa [scanRun] using hcount, .inl (by simp [scanRun])⟩
  | cons x inp ih =>
    by_cases hmax : count < rleMaxRepeats
    · have hstep : scanRun data1 data1 count (x :: inp) = scanRun data1 x (count + 1) inp := by
        simp [scanRun, hmax]
      rw [hstep]
      by_cases hx : data1 = x
      · subst hx
        obtain ⟨k, hle, h⟩ := ih (count + 1) (by omega)
        refine ⟨k + 1, hle, ?_⟩
        rcases h with ⟨h1, h2, h3⟩ | ⟨h1, h2, h3⟩
        · exact .inl ⟨h1, by omega, by rw [List.replicate_succ, List.cons_append, ← h3]⟩
        · exact .inr ⟨h1, by omega, by rw [List.replicate_succ, List.cons_append, ← h3]⟩
      · have hstop : scanRun data1 x (count + 1) inp = (x, count + 1, inp) := by
          cases inp <;> simp [scanRun, hx]
        rw [hstop]
        exact ⟨0, by dsimp only; omega, .inr ⟨hx, rfl, rfl⟩⟩
    · have hstop : scanRun data1 data1 count (x :: inp) = (data1, count, x :: inp) := by
        simp [scanRun, hmax]
      rw [hstop]
      exact ⟨0, hcount, .inl ⟨rfl, rfl, rfl⟩⟩

/-- The values that have been read but not written, and those that have not been read. -/
def pending (s : RleState) : List Nat :=
  match s.count with
  | 0 => s.inp
  | 1 => s.data1 :: s.inp
  | _ => s.data1 :: s.data2 :: s.inp

/-- One token: what `writeStep` does to a state in which both values have been read. -/
lemma writeStep_spec {s : RleState} (hs : s.count = 2) :
    ∃ v n, 1 ≤ n ∧ n ≤ rleMaxRepeats ∧ pending s = List.replicate n v ++ pending (c.writeStep s) ∧
      (c.writeStep s).out = s.out ++ c.writeRepeat v n ∧
      (n = 1 → v = c.marker → (pending (c.writeStep s)).head? ≠ some c.marker) ∧
      ((c.writeStep s).count = 1 ∨ (c.writeStep s).count = 0 ∧ (c.writeStep s).inp = []) := by
  have hmin := c.minRepeats_ge
  obtain ⟨data1, data2, count, inp, out⟩ := s
  obtain rfl : count = 2 := hs
  by_cases heq : data1 = data2
  · subst heq
    obtain ⟨k, hle, hstop | hpast⟩ := scanRun_spec data1 2 inp (by decide)
    · -- the scan stopped inside the run
      obtain ⟨h1, h2, h3⟩ := hstop
      have hn : (scanRun data1 data1 2 inp).2.1 ≠ 1 := by omega
      refine ⟨data1, (scanRun data1 data1 2 inp).2.1, by omega, hle, ?_⟩
      have hpend : data1 :: data1 :: inp = List.replicate (scanRun data1 data1 2 inp).2.1 data1 ++
          (scanRun data1 data1 2 inp).2.2 := by
        conv_lhs => rw [h3]
        rw [h2, Nat.add_comm, List.replicate_succ, List.replicate_succ]
        rfl
      cases hr : (scanRun data1 data1 2 inp).2.2 with
      | nil =>
        have hw : c.writeStep ⟨data1, data1, 2, inp, out⟩ = ⟨data1, (scanRun data1 data1 2 inp).1, 0, [],
            out ++ c.writeRepeat data1 (scanRun data1 data1 2 inp).2.1⟩ := by
          simp only [writeStep, if_true, if_pos h1, hr]
        rw [hr] at hpend
        rw [hw]
        exact ⟨hpend, rfl, fun h => absurd h hn, .inr ⟨rfl, rfl⟩⟩
      | cons x rest =>
        have hw : c.writeStep ⟨data1, data1, 2, inp, out⟩ = ⟨x, (scanRun data1 data1 2 inp).1, 1, rest,
            out ++ c.writeRepeat data1 (scanRun data1 data1 2 inp).2.1⟩ := by
          simp only [writeStep, if_true, if_pos h1, hr]
        rw [hr] at hpend
        rw [hw]
        exact ⟨hpend, rfl, fun h => absurd h hn, .inl rfl⟩
    · -- the scan has read the value behind the run
      obtain ⟨h1, h2, h3⟩ := hpast
      have hn : (scanRun data1 data1 2 inp).2.1 - 1 ≠ 1 := by omega
      refine ⟨data1, (scanRun data1 data1 2 inp).2.1 - 1, by omega, by omega, ?_⟩
      have hw : c.writeStep ⟨data1, data1, 2, inp, out⟩ = ⟨(scanRun data1 data1 2 inp).1,
          (scanRun data1 data1 2 inp).1, 1, (scanRun data1 data1 2 inp).2.2,
          out ++ c.writeRepeat data1 ((scanRun data1 data1 2 inp).2.1 - 1)⟩ := by
        simp only [writeStep, if_true, if_neg h1]
      rw [hw]
      refine ⟨?_, rfl, fun h => absurd h hn, .inl rfl⟩
      have hcount : (scanRun data1 data1 2 inp).2.1 - 1 = k + 1 + 1 := by omega
      simp only [pending]
      conv_lhs => rw [h3]
      rw [hcount, List.replicate_succ, List.replicate_succ]
      rfl
  · refine ⟨data1, 1, le_rfl, by decide, ?_⟩
    have hw : c.writeStep ⟨data1, data2, 2, inp, out⟩ =
        ⟨data2, data2, 1, inp, out ++ c.writeRepeat data1 1⟩ := by
      have hshort : c.writeRepeat data1 1 = c.writeNonRuns data1 1 := if_neg (by omega)
      simp only [writeStep, if_neg heq, hshort]
    rw [hw]
    refine ⟨rfl, rfl, ?_, .inl rfl⟩
    intro _ hv hd
    exact heq (hv.trans (Option.some.inj hd).symm)

lemma readStep_spec {s : RleState} (hs : s.count = 1 ∨ s.count = 0 ∧ s.inp = []) :
    pending (readStep s) = pending s ∧ (readStep s).out = s.out ∧
      ((readStep s).count = 2 ∨ (readStep s).count ≤ 1 ∧ (readStep s).inp = []) := by
  obtain ⟨data1, data2, count, inp, out⟩ := s
  cases inp with
  | nil =>
    refine ⟨rfl, rfl, .inr ⟨?_, rfl⟩⟩
    simp only [readStep] at hs ⊢
    omega
  | cons x inp =>
    obtain rfl : count = 1 := by simpa using hs
    exact ⟨rfl, rfl, .inl rfl⟩

/-- The rounds of the main loop add tokens in front of whatever encodes the pending values. -/
lemma compressLoop_spec (n : Nat) {s : RleState} (hs : s.count = 2) :
    ∃ w, (c.compressLoop n s).out = s.out ++ w ∧
      (∀ o, c.Encodes (pending (c.compressLoop n s)) o → c.Encodes (pending s) (w ++ o)) ∧
      ((c.compressLoop n s).count = 2 ∧ (pending (c.compressLoop n s)).length + n ≤ (pending s).length ∨
        (c.compressLoop n s).count ≤ 1 ∧ (c.compressLoop n s).inp = []) := by
  induction n generalizing s with
  | zero => exact ⟨[], by simp [compressLoop], fun o ho => ho, .inl ⟨hs, le_rfl⟩⟩
  | succ n ih =>
    obtain ⟨v, k, hk1, hk2, hpend, hout, hhead, hcount⟩ := c.writeStep_spec hs
    obtain ⟨hpend', hout', hcount'⟩ := readStep_spec hcount
    rw [← hpend'] at hpend hhead
    have hlen := congrArg List.length hpend
    rw [List.length_append, List.length_replicate] at hlen
    rcases hcount' with h2 | h1
    · have hloop : c.compressLoop (n + 1) s = c.compressLoop n (readStep (c.writeStep s)) := by
        rw [compressLoop, if_pos (by omega)]
      obtain ⟨w, hw, henc, hend⟩ := ih h2
      rw [hloop]
      refine ⟨c.writeRepeat v k ++ w, ?_, ?_, ?_⟩
      · rw [hw, hout', hout, List.append_assoc]
      · intro o ho
        rw [hpend, List.append_assoc]
        exact .cons hk1 hk2 hhead (henc o ho)
      · rcases hend with ⟨hc, hl⟩ | hc
        · exact .inl ⟨hc, by omega⟩
        · exact .inr hc
    · have hloop : c.compressLoop (n + 1) s = readStep (c.writeStep s) := by
        rw [compressLoop, if_neg (by omega)]
      rw [hloop]
      refine ⟨c.writeRepeat v k, hout'.trans hout, ?_, .inr h1⟩
      intro o ho
      rw [hpend]
      exact .cons hk1 hk2 hhead ho

/-- What is written at the end encodes what is left then. -/
lemma encodes_rest {s : RleState} (hcount : s.count ≤ 1) (hinp : s.inp = []) :
    c.Encodes (pending s) (if s.count = 1 then c.writeNonRuns s.data1 1 else []) := by
  have hmin := c.minRepeats_ge
  obtain ⟨data1, data2, count, inp, out⟩ := s
  obtain rfl : inp = [] := hinp
  obtain rfl | rfl : count = 0 ∨ count = 1 := by simpa using Nat.le_one_iff_eq_zero_or_eq_one.mp hcount
  · exact .nil
  · have h := Encodes.cons (c := c) (v := data1) le_rfl (by decide) (by simp) .nil
    rw [writeRepeat, if_neg (by omega), List.append_nil, List.append_nil] at h
    exact h

/-- Every sequence of values has a token stream. -/
lemma exists_encodes (vs : List Nat) : ∃ o, c.Encodes vs o := by
  match vs with
  | [] => exact ⟨[], .nil⟩
  | [v] => exact ⟨_, c.encodes_rest (s := initState [v]) le_rfl rfl⟩
  | v1 :: v2 :: vs =>
    obtain ⟨w, _, henc, hend⟩ := c.compressLoop_spec (vs.length + 3) (s := initState (v1 :: v2 :: vs)) rfl
    rcases hend with ⟨_, hlen⟩ | ⟨hcount, hinp⟩
    · have hp : (pending (initState (v1 :: v2 :: vs))).length = vs.length + 2 := rfl
      omega
    · exact ⟨_, henc _ (c.encodes_rest hcount hinp)⟩

lemma pending_initState (vs : List Nat) : pending (initState vs) = vs := by
  match vs with
  | [] => rfl
  | [_] => rfl
  | _ :: _ :: _ => rfl

/-- After any number of rounds, what has been written is the front of a token stream of the input. -/
lemma roundState_spec (inbuf : List UInt8) (n : Nat) :
    (∀ o, c.Encodes (pending (c.roundState inbuf n)) o →
        c.Encodes (c.values inbuf) ((c.roundState inbuf n).out ++ o)) ∧
      ((c.values inbuf).length ≤ n → (c.roundState inbuf n).count ≤ 1 ∧ (c.roundState inbuf n).inp = []) := by
  generalize hvs : c.values inbuf = vs
  match vs with
  | [] => simp [roundState, hvs, initState, pending]
  | [v] => simp [roundState, hvs, initState, pending]
  | v1 :: v2 :: vs =>
    have hround : c.roundState inbuf n = c.compressLoop n (initState (v1 :: v2 :: vs)) := by
      rw [roundState, hvs]
      exact if_pos le_rfl
    obtain ⟨w, hw, henc, hend⟩ := c.compressLoop_spec n (s := initState (v1 :: v2 :: vs)) rfl
    rw [hround, hw]
    rw [pending_initState] at henc hend
    refine ⟨henc, ?_⟩
    intro hn
    rcases hend with ⟨h2, hlen⟩ | h
    · -- a state in which the loop goes on has two pending values
      have hp : 0 < (pending (c.compressLoop n (initState (v1 :: v2 :: vs)))).length := by
        simp [pending, h2]
      omega
    · exact h

lemma innerCompress_encodes (inbuf : List UInt8) : c.Encodes (c.values inbuf) (c.innerCompress inbuf) := by
  obtain ⟨henc, hend⟩ := c.roundState_spec inbuf inbuf.length
  obtain ⟨hcount, hinp⟩ := hend (by rw [values_length]; exact Nat.div_le_self _ _)
  have h := henc _ (c.encodes_rest hcount hinp)
  rw [innerCompress]
  split at h
  next h1 => rwa [if_pos h1]
  next h1 => rwa [if_neg h1, ← List.append_nil (RleState.out _)]

/-! ## The bound -/

/-- Only a single marker value takes more room than plain storage. -/
lemma writeRepeat_length_le {v n : Nat} (hn : 1 ≤ n) :
    (c.writeRepeat v n).length ≤ n * c.valSize + if n = 1 ∧ v = c.marker then 1 else 0 := by
  have hpos := c.valSize_pos
  have hge := c.minRepeats_ge
  have hone := c.minRepeats_of_valSize
  by_cases hrun : n ≥ c.minRepeats
  · have hcnt : (if n ≥ 128 then [UInt8.ofNat ((n ||| 0x8000) >>> 8), UInt8.ofNat (n &&& 0xff)]
        else [UInt8.ofNat n]).length = if n ≥ 128 then 2 else 1 := by
      split <;> rfl
    rw [writeRepeat, if_pos hrun, writeRuns, List.length_append, List.length_append, writeData_length,
      writeData_length, hcnt, if_neg (by omega : ¬ (n = 1 ∧ v = c.marker))]
    have hsize : (if n ≥ 128 then 2 else 1) + 2 * c.valSize ≤ n * c.valSize := by
      by_cases h1 : c.valSize = 1
      · have h4 := hone h1
        rw [h1]
        split <;> omega
      · -- three values of two bytes or more hold a count and two values
        have hmul : 3 * c.valSize ≤ n * c.valSize := Nat.mul_le_mul_right _ (by omega)
        split <;> omega
    omega
  · rw [writeRepeat, if_neg hrun, writeNonRuns]
    split
    next h => simp
    next h =>
      have hv : v = c.marker := (not_not.mp h).symm
      rw [List.length_append, writeData_length, List.length_singleton]
      by_cases h1 : n = 1
      · rw [if_pos ⟨h1, hv⟩, h1, Nat.one_mul]
      · have hmul : 2 * c.valSize ≤ n * c.valSize := Nat.mul_le_mul_right _ (by omega)
        rw [if_neg (by tauto)]
        omega

/-- A token stream stays below the bound; it has half a byte to spare unless it begins with a marker. -/
lemma Encodes.length_le {vs : List Nat} {out : List UInt8} (h : c.Encodes vs out) :
    out.length ≤ vs.length * c.valSize + (vs.length + 1) / 2 ∧
      (vs.head? ≠ some c.marker → out.length ≤ vs.length * c.valSize + vs.length / 2) := by
  induction h with
  | nil => simp
  | @cons v n vs out h1 hmax hhead henc ih =>
    obtain ⟨ih1, ih2⟩ := ih
    have hw := c.writeRepeat_length_le (v := v) h1
    have hhd : (List.replicate n v ++ vs).head? = some v := by
      obtain ⟨k, rfl⟩ := Nat.exists_eq_succ_of_ne_zero (by omega : n ≠ 0)
      rfl
    simp only [List.length_append, List.length_replicate, Nat.add_mul, hhd, ne_eq, Option.some.injEq]
    by_cases hs : n = 1 ∧ v = c.marker
    · have hfree := ih2 (hhead hs.1 hs.2)
      rw [if_pos hs] at hw
      refine ⟨by omega, fun hne => absurd hs.2 hne⟩
    · rw [if_neg hs] at hw
      refine ⟨by omega, fun _ => by omega⟩

/-! ## The decompressor inverts a token stream -/

lemma or_shift_high {n : Nat} (h : n ≤ rleMaxRepeats) : (n ||| 0x8000) >>> 8 = 128 + n / 256 := by
  have hlt : n < 2 ^ 15 := by
    simp only [rleMaxRepeats] at h
    omega
  have hor : n ||| 0x8000 = 0x8000 + n := by
    rw [Nat.or_comm]
    exact (Nat.two_pow_add_eq_or_of_lt hlt 1).symm
  rw [hor, Nat.shiftRight_eq_div_pow]
  omega

lemma and_0x80_ne_zero_iff (b : UInt8) : b &&& 0x80 ≠ 0 ↔ 128 ≤ b.toNat := by
  have hlt := b.toNat_lt
  have hbits : ∀ n < 256, (n &&& 128 = 0 ↔ n < 128) := by decide +kernel
  have h := hbits b.toNat hlt
  rw [ne_eq, ← UInt8.toNat_inj, UInt8.toNat_and]
  change ¬ (b.toNat &&& 128 = 0) ↔ _
  omega

lemma readToken_writeRuns {v n : Nat} (hv : v < 256 ^ c.valSize) (hmin : c.minRepeats ≤ n) (hmax : n ≤ rleMaxRepeats)
    (rest : List UInt8) : c.readToken (c.writeRuns v n ++ rest) = (rest, v, n) := by
  have hge := c.minRepeats_ge
  have hle := c.minRepeats_le
  have hlt : n < 2 ^ 15 := by
    simp only [rleMaxRepeats] at hmax
    omega
  rw [writeRuns, List.append_assoc, List.append_assoc, readToken, readData_writeData c c.marker_lt, drop_writeData,
    if_pos rfl]
  by_cases h128 : n ≥ 128
  · have hhigh : (UInt8.ofNat ((n ||| 0x8000) >>> 8)).toNat = 128 + n / 256 := by
      rw [or_shift_high hmax, UInt8.toNat_ofNat']
      omega
    have hlow : (UInt8.ofNat (n &&& 0xff)).toNat = n % 256 := by
      rw [UInt8.toNat_ofNat', Nat.and_two_pow_sub_one_eq_mod n 8]
      omega
    have hwide : UInt8.ofNat ((n ||| 0x8000) >>> 8) &&& 0x80 ≠ 0 := by
      rw [and_0x80_ne_zero_iff, hhigh]
      omega
    rw [if_pos h128]
    simp only [List.cons_append, List.nil_append, List.getD_cons_zero, List.getD_cons_succ, hhigh, hlow, hwide,
      ne_eq, not_false_eq_true, decide_true, if_true, List.drop_succ_cons, List.drop_zero,
      readData_writeData c hv, drop_writeData]
    rw [if_pos (by omega)]
    congr 2
    omega
  · have hcnt : (UInt8.ofNat n).toNat = n := by
      rw [UInt8.toNat_ofNat']
      omega
    have hnarrow : ¬ (UInt8.ofNat n &&& 0x80 ≠ 0) := by
      rw [and_0x80_ne_zero_iff, hcnt]
      omega
    rw [if_neg h128]
    simp only [List.cons_append, List.nil_append, List.getD_cons_zero, hcnt, hnarrow, decide_false,
      Bool.false_eq_true, if_false, List.drop_succ_cons, List.drop_zero, readData_writeData c hv, drop_writeData]
    rw [if_pos hmin]

lemma readToken_marker {n : Nat} (hn : n < c.minRepeats) (rest : List UInt8) :
    c.readToken (c.writeData c.marker ++ [UInt8.ofNat n] ++ rest) = (rest, c.marker, n) := by
  have hle := c.minRepeats_le
  have hcnt : (UInt8.ofNat n).toNat = n := by
    rw [UInt8.toNat_ofNat']
    omega
  rw [List.append_assoc, readToken, readData_writeData c c.marker_lt, drop_writeData, if_pos rfl]
  simp only [List.cons_append, List.nil_append, List.getD_cons_zero, hcnt, List.drop_succ_cons, List.drop_zero]
  rw [if_neg (by omega)]

lemma readToken_plain {v : Nat} (hv : v < 256 ^ c.valSize) (hne : c.marker ≠ v) (rest : List UInt8) :
    c.readToken (c.writeData v ++ rest) = (rest, v, 1) := by
  rw [readToken, readData_writeData c hv, drop_writeData, if_neg hne]

/-- What the decompressor reads from a stream, token by token. -/
inductive Decodes : List UInt8 → List Nat → Prop where
  | nil : Decodes [] []
  | cons {inp rest v n vs} :
    c.readToken inp = (rest, v, n) →
    c.valSize ≤ inp.length → rest.length < inp.length →
    Decodes rest vs →
    Decodes inp (List.replicate n v ++ vs)

lemma Decodes.copies {v n : Nat} {rest : List UInt8} {vs : List Nat} (hv : v < 256 ^ c.valSize)
    (hne : c.marker ≠ v) (h : c.Decodes rest vs) :
    c.Decodes (c.copies v n ++ rest) (List.replicate n v ++ vs) := by
  have hpos := c.valSize_pos
  induction n with
  | zero => exact h
  | succ n ih =>
    rw [copies_succ, List.append_assoc, Nat.add_comm, List.replicate_add, List.append_assoc]
    refine .cons (c.readToken_plain hv hne _) ?_ ?_ ih
    · simp
    · simp
      omega

lemma Encodes.decodes {vs : List Nat} {out : List UInt8} (h : c.Encodes vs out)
    (hvs : ∀ v ∈ vs, v < 256 ^ c.valSize) : c.Decodes out vs := by
  have hpos := c.valSize_pos
  induction h with
  | nil => exact .nil
  | @cons v n vs out h1 hmax _ _ ih =>
    have hv : v < 256 ^ c.valSize := by
      apply hvs
      rw [List.mem_append, List.mem_replicate]
      exact .inl ⟨by omega, rfl⟩
    have hrest := ih fun w hw => hvs w (List.mem_append_right _ hw)
    by_cases hrun : n ≥ c.minRepeats
    · rw [writeRepeat, if_pos hrun]
      refine .cons (c.readToken_writeRuns hv hrun hmax out) ?_ ?_ hrest
      · simp [writeRuns]
      · simp [writeRuns]
        omega
    · rw [writeRepeat, if_neg hrun, writeNonRuns]
      by_cases hm : c.marker ≠ v
      · rw [if_pos hm]
        exact hrest.copies c hv hm
      · obtain rfl : c.marker = v := not_not.mp hm
        rw [if_neg hm]
        refine .cons (c.readToken_marker (by omega) out) ?_ ?_ hrest
        · simp
        · simp
          omega

lemma flatten_replicate_append (v n : Nat) (vs : List Nat) :
    ((List.replicate n v ++ vs).map c.writeData).flatten = c.copies v n ++ (vs.map c.writeData).flatten := by
  simp [RleCoder.copies]

lemma Decodes.decompressLoop {inp : List UInt8} {vs : List Nat} (h : c.Decodes inp vs) (hne : inp ≠ []) {fuel : Nat}
    (hfuel : inp.length ≤ fuel) (out : List UInt8) (outcnt : Nat) :
    c.decompressLoop fuel inp out outcnt =
      some (out ++ (vs.map c.writeData).flatten, outcnt + vs.length) := by
  have hpos := c.valSize_pos
  induction h generalizing fuel out outcnt with
  | nil => exact absurd rfl hne
  | @cons inp rest v n vs htok hlen hshort hrest ih =>
    obtain ⟨fuel, rfl⟩ := Nat.exists_eq_succ_of_ne_zero (by omega : fuel ≠ 0)
    rw [RleCoder.decompressLoop, htok]
    simp only [flatten_replicate_append, List.length_append, List.length_replicate, ← Nat.add_assoc]
    rw [← List.append_assoc]
    cases hrest with
    | nil =>
      rw [if_neg (by simp; omega)]
      simp
    | cons htok' hlen' hshort' hrest' =>
      rw [if_pos hlen']
      have hne' : rest ≠ [] := by
        rintro rfl
        simp at hlen'
        omega
      exact ih hne' (by omega) _ _

lemma Encodes.ne_nil {vs : List Nat} {out : List UInt8} (h : c.Encodes vs out) (hne : vs ≠ []) : out ≠ [] := by
  have hpos := c.valSize_pos
  have hmin := c.minRepeats_ge
  cases h with
  | nil => exact absurd rfl hne
  | @cons v n vs out h1 =>
    rw [writeRepeat, writeNonRuns]
    rintro hnil
    have hlen := congrArg List.length hnil
    split at hlen
    · simp [writeRuns] at hlen
      omega
    · split at hlen
      · rw [List.length_append, copies_length, List.length_nil] at hlen
        have hmul : 1 * c.valSize ≤ n * c.valSize := Nat.mul_le_mul_right _ h1
        omega
      · simp at hlen

lemma innerCompress_length_le (inbuf : List UInt8) (h : inbuf.length % c.valSize = 0) :
    (c.innerCompress inbuf).length ≤ c.compressGetBound inbuf.length := by
  have hlen := (c.innerCompress_encodes inbuf).length_le.1
  rw [values_length, Nat.div_mul_cancel (Nat.dvd_of_mod_eq_zero h)] at hlen
  rw [compressGetBound]
  omega

/-- The output position after any number of rounds. -/
lemma roundState_length_le (inbuf : List UInt8) (h : inbuf.length % c.valSize = 0) (n : Nat) :
    (c.roundState inbuf n).out.length ≤ c.compressGetBound inbuf.length := by
  obtain ⟨o, ho⟩ := c.exists_encodes (pending (c.roundState inbuf n))
  have hlen := ((c.roundState_spec inbuf n).1 o ho).length_le.1
  rw [values_length, Nat.div_mul_cancel (Nat.dvd_of_mod_eq_zero h), List.length_append] at hlen
  rw [compressGetBound]
  omega

/-- Decompressing what `Compress` reports to have written gives the input back, and the output position stays within
    the bound after every round and at the end. `insize` is an `int`. -/
theorem compress_roundTrip {inbuf : List UInt8} (hpos : 0 < inbuf.length) (hint : inbuf.length < 2 ^ 31)
    (hmul : inbuf.length % c.valSize = 0) : (0 < (c.compress inbuf).2 →
        c.decompress ((c.compress inbuf).1.take (c.compress inbuf).2.toNat) = some (inbuf, inbuf.length)) ∧
      (∀ n, (c.roundState inbuf n).out.length ≤ c.compressGetBound inbuf.length) ∧
      (c.compress inbuf).1.length ≤ c.compressGetBound inbuf.length := by
  have hle := c.innerCompress_length_le inbuf hmul
  refine ⟨?_, c.roundState_length_le inbuf hmul, hle⟩
  intro hret
  -- a positive result is the number of bytes written
  have hsize : (c.compress inbuf).2.toNat = (c.innerCompress inbuf).length := by
    have hdiv := Nat.div_le_self inbuf.length c.valSize
    have hbound : (c.innerCompress inbuf).length < 2 ^ 32 := by
      rw [compressGetBound] at hle
      omega
    simp only [compress, Int.bmod] at hret ⊢
    omega
  rw [hsize]
  have henc := c.innerCompress_encodes inbuf
  have hdec := henc.decodes c fun v hv => c.values_lt hv
  have hvs : c.values inbuf ≠ [] := by
    rw [← List.length_pos_iff, values_length]
    exact Nat.div_pos (Nat.le_of_dvd hpos (Nat.dvd_of_mod_eq_zero hmul)) c.valSize_pos
  have hloop := hdec.decompressLoop c (henc.ne_nil c hvs) le_rfl [] 0
  rw [flatten_values c hmul, List.nil_append, Nat.zero_add, values_length] at hloop
  simp only [compress, List.take_length, decompress, hloop, Option.map_some,
    Nat.mul_div_cancel' (Nat.dvd_of_mod_eq_zero hmul)]

/-- A coder for two-byte values with the second setting. -/
def sample : RleCoder := ⟨2, 3, by decide, by decide, by decide⟩

theorem compress_roundTrip_markers :
    (0 < (sample.compress [0xFE, 0xFE, 1, 0, 0xFE, 0xFE, 0xFE, 0xFE, 7, 7, 7, 7, 7, 7]).2 ∧
        sample.decompress ((sample.compress [0xFE, 0xFE, 1, 0, 0xFE, 0xFE, 0xFE, 0xFE, 7, 7, 7, 7, 7, 7]).1.take
          (sample.compress [0xFE, 0xFE, 1, 0, 0xFE, 0xFE, 0xFE, 0xFE, 7, 7, 7, 7, 7, 7]).2.toNat) =
          some ([0xFE, 0xFE, 1, 0, 0xFE, 0xFE, 0xFE, 0xFE, 7, 7, 7, 7, 7, 7], 14)) :=
  ⟨by decide, (sample.compress_roundTrip (by decide) (by decide) (by decide)).1 (by decide)⟩

end RleCoder

end GaussKernel.CStore
