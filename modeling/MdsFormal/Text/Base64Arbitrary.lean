import Mathlib.Algebra.Group.Nat.Defs
import MdsFormal.Text.Base64Transport

/-!
# Decoding arbitrary text

Any text is decoded up to its first character that is not of the alphabet.  The characters
before it stand for six bits each; the whole bytes of these bits are put out.  The loop is
followed here on the memory behind `src`, with the indices it reads.
-/

namespace MdsFormal.Text.Base64

open Library.Buffer

/-! ## Bits -/

/-- The number a character of the alphabet stands for. -/
def sextet (c : UInt8) : Nat :=
  if 65 ≤ c ∧ c ≤ 90 then c.toNat - 65
  else if 97 ≤ c ∧ c ≤ 122 then c.toNat - 71
  else if 48 ≤ c ∧ c ≤ 57 then c.toNat + 4
  else if c = 43 then 62
  else 63

/-- The characters before the first one that is not of the alphabet. -/
def leading (text : List UInt8) : List UInt8 := text.takeWhile isB64

/-- Six bits, the most significant one first. -/
def sextetBits (v : Nat) : List Bool := (List.range 6).map fun i => v.testBit (5 - i)

/-- The bit string that a text stands for. -/
def bitString (text : List UInt8) : List Bool :=
  ((leading text).map sextet).flatMap sextetBits

/-- The number with these binary digits. -/
def bitsValue : List Bool → Nat
  | [] => 0
  | bit :: rest => bit.toNat * 2 ^ rest.length + bitsValue rest

/-- The whole bytes of a bit string. -/
def packBytes : List Bool → List UInt8
  | b7 :: b6 :: b5 :: b4 :: b3 :: b2 :: b1 :: b0 :: rest =>
      UInt8.ofNat (bitsValue [b7, b6, b5, b4, b3, b2, b1, b0]) :: packBytes rest
  | _ => []

theorem length_packBytes : ∀ bits : List Bool, (packBytes bits).length = bits.length / 8
  | b7 :: b6 :: b5 :: b4 :: b3 :: b2 :: b1 :: b0 :: rest => by
      rw [packBytes, List.length_cons, length_packBytes rest]
      simp only [List.length_cons]
      omega
  | [] | [_] | [_, _] | [_, _, _] | [_, _, _, _] | [_, _, _, _, _] | [_, _, _, _, _, _]
  | [_, _, _, _, _, _, _] => by rw [packBytes] <;> simp

theorem length_bitString (text : List UInt8) :
    (bitString text).length = 6 * (leading text).length := by
  have hbits : ∀ values : List Nat, (values.flatMap sextetBits).length = 6 * values.length := by
    intro values
    induction values with
    | nil => rfl
    | cons v rest ih =>
        rw [List.flatMap_cons, List.length_append, ih, List.length_cons, sextetBits,
          List.length_map, List.length_range]
        omega
  rw [bitString, hbits, List.length_map]

theorem bitsValue_append (first second : List Bool) :
    bitsValue (first ++ second) = bitsValue first * 2 ^ second.length + bitsValue second := by
  induction first with
  | nil => exact ((congrArg (· + _) (Nat.zero_mul _)).trans (Nat.zero_add _)).symm
  | cons bit rest ih =>
      rw [List.cons_append, bitsValue, ih, bitsValue, List.length_append, Nat.pow_add,
        Nat.add_mul, Nat.mul_assoc, Nat.add_assoc]

/-- The parts of a sextet that fall into one byte. -/
theorem bitsValue_sextetBits : ∀ v < 64, bitsValue (sextetBits v) = v ∧
    bitsValue ((sextetBits v).take 2) = v / 16 ∧ bitsValue ((sextetBits v).drop 2) = v % 16 ∧
    bitsValue ((sextetBits v).take 4) = v / 4 ∧ bitsValue ((sextetBits v).drop 4) = v % 4 := by
  decide +kernel

theorem packBytes_group (s0 s1 s2 s3 : Nat) (rest : List Bool) :
    packBytes (sextetBits s0 ++ (sextetBits s1 ++ (sextetBits s2 ++ (sextetBits s3 ++ rest)))) =
      [UInt8.ofNat (bitsValue (sextetBits s0 ++ (sextetBits s1).take 2)),
        UInt8.ofNat (bitsValue ((sextetBits s1).drop 2 ++ (sextetBits s2).take 4)),
        UInt8.ofNat (bitsValue ((sextetBits s2).drop 4 ++ sextetBits s3))] ++ packBytes rest :=
  rfl

theorem bitsValue_first {s0 s1 : Nat} (h0 : s0 < 64) (h1 : s1 < 64) :
    bitsValue (sextetBits s0 ++ (sextetBits s1).take 2) = s0 * 4 + s1 / 16 := by
  rw [bitsValue_append, (bitsValue_sextetBits s0 h0).1, (bitsValue_sextetBits s1 h1).2.1]
  rfl

theorem bitsValue_second {s1 s2 : Nat} (h1 : s1 < 64) (h2 : s2 < 64) :
    bitsValue ((sextetBits s1).drop 2 ++ (sextetBits s2).take 4) = s1 % 16 * 16 + s2 / 4 := by
  rw [bitsValue_append, (bitsValue_sextetBits s1 h1).2.2.1, (bitsValue_sextetBits s2 h2).2.2.2.1]
  rfl

theorem bitsValue_third {s2 s3 : Nat} (h2 : s2 < 64) (h3 : s3 < 64) :
    bitsValue ((sextetBits s2).drop 4 ++ sextetBits s3) = s2 % 4 * 64 + s3 := by
  rw [bitsValue_append, (bitsValue_sextetBits s2 h2).2.2.2.2, (bitsValue_sextetBits s3 h3).1]
  rfl

/-- The bytes of six-bit numbers are those of their bits. -/
theorem packBytes_eq_bytesOf : ∀ values : List Nat, (∀ v ∈ values, v < 64) →
    packBytes (values.flatMap sextetBits) = bytesOf values
  | s0 :: s1 :: s2 :: s3 :: rest, hvalues => by
      obtain ⟨h0, hrest⟩ := List.forall_mem_cons.mp hvalues
      obtain ⟨h1, hrest⟩ := List.forall_mem_cons.mp hrest
      obtain ⟨h2, hrest⟩ := List.forall_mem_cons.mp hrest
      obtain ⟨h3, hrest⟩ := List.forall_mem_cons.mp hrest
      rw [List.flatMap_cons, List.flatMap_cons, List.flatMap_cons, List.flatMap_cons,
        packBytes_group, bitsValue_first h0 h1, bitsValue_second h1 h2, bitsValue_third h2 h3,
        packBytes_eq_bytesOf rest hrest]
      rfl
  | [s0, s1, s2], hvalues => by
      obtain ⟨h0, hrest⟩ := List.forall_mem_cons.mp hvalues
      obtain ⟨h1, hrest⟩ := List.forall_mem_cons.mp hrest
      obtain ⟨h2, _⟩ := List.forall_mem_cons.mp hrest
      change [UInt8.ofNat (bitsValue (sextetBits s0 ++ (sextetBits s1).take 2)),
        UInt8.ofNat (bitsValue ((sextetBits s1).drop 2 ++ (sextetBits s2).take 4))] = _
      rw [bitsValue_first h0 h1, bitsValue_second h1 h2]
      rfl
  | [s0, s1], hvalues => by
      obtain ⟨h0, hrest⟩ := List.forall_mem_cons.mp hvalues
      obtain ⟨h1, _⟩ := List.forall_mem_cons.mp hrest
      change [UInt8.ofNat (bitsValue (sextetBits s0 ++ (sextetBits s1).take 2))] = _
      rw [bitsValue_first h0 h1]
      rfl
  | [_], _ => by rfl
  | [], _ => rfl

/-! ## The text -/

theorem sextet_spec : ∀ c : UInt8, isB64 c = true → sextet c < 64 ∧ alphabet (sextet c) = c :=
  forall_byte _ (by decide +kernel)

theorem map_alphabet_leading (text : List UInt8) :
    ((leading text).map sextet).map alphabet = leading text := by
  rw [List.map_map]
  refine (List.map_congr_left fun c hc => ?_).trans (List.map_id _)
  exact (sextet_spec c (List.all_eq_true.mp List.all_takeWhile c hc)).2

theorem sextet_leading_lt {text : List UInt8} : ∀ v ∈ (leading text).map sextet, v < 64 := by
  intro v hv
  obtain ⟨c, hc, rfl⟩ := List.mem_map.mp hv
  exact (sextet_spec c (List.all_eq_true.mp List.all_takeWhile c hc)).1

theorem stops_behind (text : List UInt8) : Stops (text.dropWhile isB64) := by
  intro c hc
  have hnot := List.head?_dropWhile_not isB64 text
  rw [Option.mem_def.mp hc] at hnot
  exact hnot

/-- The loop puts out the whole bytes of the text's bits. -/
theorem decodeLoop_arbitrary (text : List UInt8) (out : Memory) (limit : Int) :
    Emits limit 0 out (packBytes (bitString text)) (decodeLoop limit text [] 0 out) := by
  have hemits : Emits limit 0 out (bytesOf ([] ++ (leading text).map sextet))
      (decodeLoop limit (((leading text).map sextet).map alphabet ++ text.dropWhile isB64)
        ([].map alphabet) 0 out) :=
    decodeLoop_emits sextet_leading_lt (by simp) (Nat.zero_lt_succ 3) (stops_behind text)
  have hwhole : leading text ++ text.dropWhile isB64 = text := List.takeWhile_append_dropWhile
  rw [map_alphabet_leading, hwhole, List.nil_append,
    ← packBytes_eq_bytesOf _ sextet_leading_lt] at hemits
  exact hemits

/-! ## Reading `src` -/

/-- The loop of `mds_api_b64_decode` on the memory behind `src`, with `src_size` characters left
from index `j` on: the indices it reads, and how it ends. -/
def decodeFrom (outBuffLen : Int) (src : Memory) :
    Nat → Nat → List UInt8 → Nat → Memory → List Nat × Int × Memory
  | 0, _, tmp, size, dec => ([], decodeRest outBuffLen tmp size dec)
  | srcSize + 1, j, tmp, size, dec =>
      if isB64 (src j) then
        match tmp with
        | [t0, t1, t2] =>
            if outBuffLen < size + 3 then ([j], -1, dec)
            else
              let (reads, result) := decodeFrom outBuffLen src srcSize (j + 1) [] (size + 3)
                (writeAt dec size
                  (decodeGroup (translate t0) (translate t1) (translate t2) (translate (src j))))
              (j :: reads, result)
        | _ =>
            let (reads, result) := decodeFrom outBuffLen src srcSize (j + 1) (tmp ++ [src j]) size dec
            (j :: reads, result)
      else ([j], decodeRest outBuffLen tmp size dec)

/-- `mds_api_b64_decode` with an output buffer, on the memory behind `src`. -/
def mdsApiB64DecodeMemory (src : Memory) (srcSize : Nat) (dec : Memory) (outBuffLen : Int) :
    List Nat × Int × Memory :=
  decodeFrom outBuffLen src srcSize 0 [] 0 dec

/-- The bytes from an index on. -/
def slice (src : Memory) (j n : Nat) : List UInt8 := (List.range' j n).map src

section

variable {limit : Int} {src : Memory} {srcSize j size : Nat} {dec : Memory}

theorem slice_succ : slice src j (srcSize + 1) = src j :: slice src (j + 1) srcSize := by
  rw [slice, List.range'_succ, List.map_cons]
  rfl

/-- A read at `j` and later ones. -/
theorem reads_cons {reads : List Nat} (hreads : ∀ i ∈ reads, i < j + 1 + srcSize) :
    ∀ i ∈ j :: reads, i < j + (srcSize + 1) := by
  intro i hi
  rcases List.mem_cons.mp hi with rfl | hi
  · omega
  · have hlt := hreads i hi
    omega

theorem decodeFrom_stops {tmp : List UInt8} (hc : ¬isB64 (src j) = true) :
    decodeFrom limit src (srcSize + 1) j tmp size dec =
      ([j], decodeRest limit tmp size dec) :=
  if_neg hc

theorem decodeFrom_collect {tmp : List UInt8} (hc : isB64 (src j) = true) (htmp : tmp.length < 3) :
    decodeFrom limit src (srcSize + 1) j tmp size dec =
      (j :: (decodeFrom limit src srcSize (j + 1) (tmp ++ [src j]) size dec).1,
        (decodeFrom limit src srcSize (j + 1) (tmp ++ [src j]) size dec).2) := by
  match tmp, htmp with
  | [], _ => exact if_pos hc
  | [_], _ => exact if_pos hc
  | [_, _], _ => exact if_pos hc

theorem decodeFrom_group {t0 t1 t2 : UInt8} (hc : isB64 (src j) = true) :
    decodeFrom limit src (srcSize + 1) j [t0, t1, t2] size dec =
      if limit < size + 3 then ([j], -1, dec)
      else
        let written := writeAt dec size
          (decodeGroup (translate t0) (translate t1) (translate t2) (translate (src j)))
        (j :: (decodeFrom limit src srcSize (j + 1) [] (size + 3) written).1,
          (decodeFrom limit src srcSize (j + 1) [] (size + 3) written).2) :=
  if_pos hc

end

/-- On memory the loop does what it does on the text there, and reads nothing behind it. -/
theorem decodeFrom_spec (limit : Int) (src : Memory) (srcSize : Nat) {tmp : List UInt8}
    (htmp : tmp.length < 4) (j size : Nat) (dec : Memory) :
    (decodeFrom limit src srcSize j tmp size dec).2 =
        decodeLoop limit (slice src j srcSize) tmp size dec ∧
      ∀ i ∈ (decodeFrom limit src srcSize j tmp size dec).1, i < j + srcSize := by
  induction srcSize generalizing j tmp size dec with
  | zero => exact ⟨rfl, fun i hi => nomatch hi⟩
  | succ srcSize ih =>
      have hnow : ∀ i ∈ [j], i < j + (srcSize + 1) :=
        reads_cons fun i hi => (List.not_mem_nil hi).elim
      rw [slice_succ]
      by_cases hc : isB64 (src j) = true
      · rcases Nat.lt_or_eq_of_le (Nat.le_of_lt_succ htmp) with hmore | hthree
        · have hlen : (tmp ++ [src j]).length < 4 := by
            rw [List.length_append, List.length_singleton]
            omega
          obtain ⟨hresult, hreads⟩ := ih hlen (j + 1) size dec
          rw [decodeFrom_collect hc hmore, decodeLoop_collect hc hmore]
          exact ⟨hresult, reads_cons hreads⟩
        · match tmp, hthree with
          | [t0, t1, t2], _ =>
              rw [decodeFrom_group hc, decodeLoop_group hc]
              split
              · exact ⟨rfl, hnow⟩
              · obtain ⟨hresult, hreads⟩ := @ih [] (Nat.zero_lt_succ 3) (j + 1) (size + 3)
                  (writeAt dec size _)
                exact ⟨hresult, reads_cons hreads⟩
      · rw [decodeFrom_stops hc]
        exact ⟨(if_neg hc).symm, hnow⟩

/--
Decoding any text delivers the whole bytes of the bits its leading characters stand for, if
these and a NUL fit, and reads nothing behind the text.
-/
theorem mdsApiB64DecodeMemory_delivers (src : Memory) (srcSize : Nat) (dec : Memory) (k : Int) :
    let text := slice src 0 srcSize
    let outcome := mdsApiB64DecodeMemory src srcSize dec k
    (packBytes (bitString text)).length = 6 * (leading text).length / 8 ∧
      Delivers k dec (packBytes (bitString text)) outcome.2.1 outcome.2.2 ∧
      (∀ i ∈ outcome.1, i < srcSize) ∧
      mdsApiB64Decode text (some dec) k = (outcome.2.1, some outcome.2.2) := by
  obtain ⟨hresult, hreads⟩ := @decodeFrom_spec k src srcSize [] (Nat.zero_lt_succ 3) 0 0 dec
  refine ⟨?_, ?_, ?_, ?_⟩
  · rw [length_packBytes, length_bitString]
  · rw [mdsApiB64DecodeMemory, hresult]
    exact (decodeLoop_arbitrary _ dec k).delivers
  · intro i hi
    have hlt := hreads i hi
    rwa [Nat.zero_add] at hlt
  · rw [mdsApiB64DecodeMemory, hresult]
    rfl

end MdsFormal.Text.Base64
