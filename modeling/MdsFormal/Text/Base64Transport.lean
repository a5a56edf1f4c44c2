import MdsFormal.Text.Base64

/-!
# Base64 transport

The encoding as RFC 4648 has it, on numbers: three bytes are a number of 24 bits, which is
cut into four of six bits.  Encoding puts out this text, decoding puts out the bytes it
stands for, and each succeeds exactly when its output and a NUL fit.
-/

namespace MdsFormal.Text.Base64

open Library.Buffer

/-! ## The encoding of RFC 4648 -/

/-- The standard alphabet. -/
def alphabet (v : Nat) : UInt8 :=
  if v < 26 then UInt8.ofNat (65 + v)
  else if v < 52 then UInt8.ofNat (97 + (v - 26))
  else if v < 62 then UInt8.ofNat (48 + (v - 52))
  else if v = 62 then 43
  else 47

/-- Four times six bits, the first from the most significant end. -/
def sextets24 (a b c : UInt8) : List Nat :=
  let v := a.toNat * 65536 + b.toNat * 256 + c.toNat
  [v / 262144, v / 4096 % 64, v / 64 % 64, v % 64]

/-- The six-bit numbers of the data, with zero bits behind its end. -/
def sextets : List UInt8 → List Nat
  | a :: b :: c :: rest => sextets24 a b c ++ sextets rest
  | [a, b] => (sextets24 a b 0).take 3
  | [a] => (sextets24 a 0 0).take 2
  | [] => []

/-- The text, padded to a multiple of four characters. -/
def rfcEncode (src : List UInt8) : List UInt8 :=
  (sextets src).map alphabet ++ List.replicate ((3 - src.length % 3) % 3) (byte '=')

/-- Three times eight bits of four times six. -/
def bytes24 (s0 s1 s2 s3 : Nat) : List UInt8 :=
  [UInt8.ofNat (s0 * 4 + s1 / 16), UInt8.ofNat (s1 % 16 * 16 + s2 / 4),
    UInt8.ofNat (s2 % 4 * 64 + s3)]

/-- The whole bytes of six-bit numbers. -/
def bytesOf : List Nat → List UInt8
  | s0 :: s1 :: s2 :: s3 :: rest => bytes24 s0 s1 s2 s3 ++ bytesOf rest
  | [s0, s1, s2] => (bytes24 s0 s1 s2 0).take 2
  | [s0, s1] => (bytes24 s0 s1 0 0).take 1
  | [_] => []
  | [] => []

/-! ## One group -/

theorem tableChar_eq : ∀ v : UInt8, v.toNat < 64 → tableChar v = alphabet v.toNat :=
  forall_byte _ (by decide +kernel)

theorem isB64_alphabet : ∀ v < 64, isB64 (alphabet v) = true := by decide +kernel

theorem translate_alphabet : ∀ v < 64, translate (alphabet v) = UInt8.ofNat v := by
  decide +kernel

theorem translate_zero : translate 0 = 0 := by decide

/-- The masks and shifts of the encoder, byte by byte. -/
theorem encode_bits : ∀ x : UInt8,
    ((x &&& 0xfc) >>> 2).toNat = x.toNat / 4 ∧ ((x &&& 0x03) <<< 4).toNat = x.toNat % 4 * 16 ∧
      ((x &&& 0xf0) >>> 4).toNat = x.toNat / 16 ∧ ((x &&& 0x0f) <<< 2).toNat = x.toNat % 16 * 4 ∧
      ((x &&& 0xc0) >>> 6).toNat = x.toNat / 64 ∧ (x &&& 0x3f).toNat = x.toNat % 64 :=
  forall_byte _ (by decide +kernel)

/-- The masks and shifts of the decoder. -/
theorem decode_bits : ∀ x : UInt8, x.toNat < 64 →
    (x <<< 2).toNat = x.toNat * 4 ∧ ((x &&& 0x30) >>> 4).toNat = x.toNat / 16 ∧
      ((x &&& 0xf) <<< 4).toNat = x.toNat % 16 * 16 ∧ ((x &&& 0x3c) >>> 2).toNat = x.toNat / 4 ∧
      ((x &&& 0x3) <<< 6).toNat = x.toNat % 4 * 64 :=
  forall_byte _ (by decide +kernel)

theorem encodeGroup_toNat (a b c : UInt8) :
    (encodeGroup a b c).map UInt8.toNat = sextets24 a b c := by
  obtain ⟨a0, a1, -⟩ := encode_bits a
  obtain ⟨-, -, b0, b1, -⟩ := encode_bits b
  obtain ⟨-, -, -, -, c0, c1⟩ := encode_bits c
  have hb := b.toNat_lt
  have hc := c.toNat_lt
  simp only [encodeGroup, sextets24, List.map_cons, List.map_nil, UInt8.toNat_add, a0, a1, b0, b1,
    c0, c1, List.cons.injEq, and_true]
  omega

theorem sextets24_lt {a b c : UInt8} {v : Nat} (hv : v ∈ sextets24 a b c) : v < 64 := by
  have ha := a.toNat_lt
  have hb := b.toNat_lt
  have hc := c.toNat_lt
  simp only [sextets24, List.mem_cons, List.not_mem_nil, or_false] at hv
  omega

theorem encodeGroup_chars (a b c : UInt8) :
    (encodeGroup a b c).map tableChar = (sextets24 a b c).map alphabet := by
  rw [← encodeGroup_toNat, List.map_map]
  refine List.map_congr_left fun v hv => tableChar_eq v ?_
  have hsextet : v.toNat ∈ sextets24 a b c := by
    rw [← encodeGroup_toNat]
    exact List.mem_map_of_mem hv
  exact sextets24_lt hsextet

/-- Four sextets below 64 are decoded to the bytes of their 24 bits. -/
theorem decodeGroup_eq {s0 s1 s2 s3 : Nat} (h0 : s0 < 64) (h1 : s1 < 64) (h2 : s2 < 64)
    (h3 : s3 < 64) :
    decodeGroup (UInt8.ofNat s0) (UInt8.ofNat s1) (UInt8.ofNat s2) (UInt8.ofNat s3) =
      bytes24 s0 s1 s2 s3 := by
  have hsmall : ∀ {v : Nat}, v < 64 → (UInt8.ofNat v).toNat = v := fun hv =>
    UInt8.toNat_ofNat_of_lt' (Nat.lt_trans hv (by decide))
  have hbits : ∀ {v : Nat}, v < 64 → _ := fun {v} hv =>
    decode_bits (UInt8.ofNat v) (by rw [hsmall hv]; exact hv)
  obtain ⟨a0, -⟩ := hbits h0
  obtain ⟨-, b0, b1, -⟩ := hbits h1
  obtain ⟨-, -, -, c0, c1⟩ := hbits h2
  simp only [hsmall h0, hsmall h1, hsmall h2] at a0 b0 b1 c0 c1
  simp only [decodeGroup, bytes24, List.cons.injEq, and_true, ← UInt8.toNat_inj, UInt8.toNat_add,
    UInt8.toNat_ofNat', a0, b0, b1, c0, c1, hsmall h3]

/-- Cutting into sextets and joining them again. -/
theorem bytes24_sextets24 (a b c : UInt8) :
    bytesOf (sextets24 a b c) = [a, b, c] := by
  have ha := a.toNat_lt
  have hb := b.toNat_lt
  have hc := c.toNat_lt
  simp only [bytesOf, sextets24, bytes24, List.append_nil, List.cons.injEq, and_true,
    ← UInt8.toNat_inj, UInt8.toNat_ofNat']
  omega

/-! ## Encoding -/

section

variable {limit : Int} {out : Memory} {size : Nat}

theorem rfcEncode_group (a b c : UInt8) (rest : List UInt8) :
    rfcEncode (a :: b :: c :: rest) = (sextets24 a b c).map alphabet ++ rfcEncode rest := by
  have hpad : (a :: b :: c :: rest).length % 3 = rest.length % 3 := by
    simp only [List.length_cons]
    omega
  rw [rfcEncode, hpad, sextets, List.map_append, List.append_assoc]
  rfl

/-- An incomplete group: as many characters as it has bits for, and the padding. -/
theorem rfcEncode_short {tmp : List UInt8} (hpos : 0 < tmp.length) (hlt : tmp.length < 3) :
    rfcEncode tmp =
      ((encodeGroup (tmp.getD 0 0) (tmp.getD 1 0) (tmp.getD 2 0)).take (tmp.length + 1)).map
          tableChar ++
        List.replicate (3 - tmp.length) (byte '=') := by
  rw [List.map_take, encodeGroup_chars, ← List.map_take]
  match tmp, hpos, hlt with
  | [_], _, _ => rfl
  | [_, _], _, _ => rfl

theorem encodeRest_emits {tmp : List UInt8} (htmp : tmp.length < 3) :
    Emits limit size out (rfcEncode tmp) (encodeRest limit tmp size out) := by
  unfold encodeRest
  rcases Nat.eq_zero_or_pos tmp.length with hnil | hpos
  · rw [List.length_eq_zero_iff.mp hnil]
    exact terminate_emits
  · rw [if_pos hpos, rfcEncode_short hpos htmp]
    exact putThen_emits fun _ _ => putThen_terminate_emits

/-- The loop puts out the encoding of what it has collected and what is to come. -/
theorem encodeLoop_emits {src tmp : List UInt8} (htmp : tmp.length < 3) :
    Emits limit size out (rfcEncode (tmp ++ src)) (encodeLoop limit src tmp size out) := by
  induction src generalizing tmp size out with
  | nil =>
      rw [List.append_nil]
      exact encodeRest_emits htmp
  | cons c src ih =>
      match tmp, htmp with
      | [], _ =>
          have hmore : Emits limit size out (rfcEncode ([c] ++ src))
              (encodeLoop limit src [c] size out) := ih (by simp)
          exact hmore
      | [a], _ =>
          have hmore : Emits limit size out (rfcEncode ([a, c] ++ src))
              (encodeLoop limit src [a, c] size out) := ih (by simp)
          exact hmore
      | [a, b], _ =>
          have htext : rfcEncode ([a, b] ++ c :: src) =
              (encodeGroup a b c).map tableChar ++ rfcEncode src := by
            rw [encodeGroup_chars]
            exact rfcEncode_group a b c src
          have hmore : ∀ out, Emits limit (size + 4) out (rfcEncode ([] ++ src))
              (encodeLoop limit src [] (size + 4) out) := fun _ => ih (Nat.zero_lt_succ 2)
          rw [htext, encodeLoop]
          exact (hmore _).tested rfl

end

/-! ## Decoding -/

section

variable {limit : Int} {out : Memory} {size : Nat}

theorem translate_getD {ts : List Nat} (hts : ∀ v ∈ ts, v < 64) (j : Nat) :
    translate ((ts.map alphabet).getD j 0) = UInt8.ofNat (ts.getD j 0) := by
  rw [List.getD_eq_getElem?_getD, List.getD_eq_getElem?_getD, List.getElem?_map]
  cases hget : ts[j]? with
  | none => exact translate_zero
  | some v => exact translate_alphabet v (hts v (List.mem_of_getElem? hget))

theorem getD_lt {ts : List Nat} (hts : ∀ v ∈ ts, v < 64) (j : Nat) : ts.getD j 0 < 64 := by
  rw [List.getD_eq_getElem?_getD]
  cases hget : ts[j]? with
  | none => exact Nat.zero_lt_succ 63
  | some v => exact hts v (List.mem_of_getElem? hget)

/-- The group that is decoded at the end: the characters collected, with zeros behind them. -/
theorem decodeGroup_rest {ts : List Nat} (hts : ∀ v ∈ ts, v < 64) :
    decodeGroup (translate ((ts.map alphabet).getD 0 0)) (translate ((ts.map alphabet).getD 1 0))
        (translate ((ts.map alphabet).getD 2 0)) (translate ((ts.map alphabet).getD 3 0)) =
      bytes24 (ts.getD 0 0) (ts.getD 1 0) (ts.getD 2 0) (ts.getD 3 0) := by
  simp only [translate_getD hts]
  exact decodeGroup_eq (getD_lt hts 0) (getD_lt hts 1) (getD_lt hts 2) (getD_lt hts 3)

theorem bytesOf_short {ts : List Nat} (hpos : 0 < ts.length) (hlt : ts.length < 4) :
    bytesOf ts =
      (bytes24 (ts.getD 0 0) (ts.getD 1 0) (ts.getD 2 0) (ts.getD 3 0)).take (ts.length - 1) := by
  match ts, hpos, hlt with
  | [_], _, _ => rfl
  | [_, _], _, _ => rfl
  | [_, _, _], _, _ => rfl

theorem decodeRest_emits {ts : List Nat} (hts : ∀ v ∈ ts, v < 64) (hlt : ts.length < 4) :
    Emits limit size out (bytesOf ts) (decodeRest limit (ts.map alphabet) size out) := by
  unfold decodeRest
  rw [List.length_map]
  rcases Nat.eq_zero_or_pos ts.length with hnil | hpos
  · rw [List.length_eq_zero_iff.mp hnil]
    exact terminate_emits
  · rw [if_pos hpos, decodeGroup_rest hts, bytesOf_short hpos hlt]
    have hlen : ((bytes24 (ts.getD 0 0) (ts.getD 1 0) (ts.getD 2 0) (ts.getD 3 0)).take
        (ts.length - 1)).length = ts.length - 1 := by
      rw [List.length_take]
      exact Nat.min_eq_left (Nat.le_of_lt_succ (by simp only [bytes24, List.length_cons]; omega))
    dsimp only
    generalize List.take _ _ = bytes at hlen ⊢
    have hput : Emits limit size out (bytes ++ []) _ := terminate_emits.tested hlen
    rwa [List.append_nil] at hput

/-- The text that follows does not go on with a character of the alphabet. -/
def Stops (tail : List UInt8) : Prop := ∀ c ∈ tail.head?, isB64 c = false

theorem decodeLoop_stops {tail tmp : List UInt8} (hstops : Stops tail) :
    decodeLoop limit tail tmp size out = decodeRest limit tmp size out := by
  cases tail with
  | nil => rfl
  | cons c rest =>
      have hc : ¬ isB64 c = true := by
        rw [hstops c rfl]
        exact Bool.false_ne_true
      exact if_neg hc

theorem decodeLoop_collect {c : UInt8} {src tmp : List UInt8} (hc : isB64 c = true)
    (htmp : tmp.length < 3) :
    decodeLoop limit (c :: src) tmp size out = decodeLoop limit src (tmp ++ [c]) size out := by
  match tmp, htmp with
  | [], _ => exact if_pos hc
  | [_], _ => exact if_pos hc
  | [_, _], _ => exact if_pos hc

theorem decodeLoop_group {c t0 t1 t2 : UInt8} {src : List UInt8} (hc : isB64 c = true) :
    decodeLoop limit (c :: src) [t0, t1, t2] size out =
      if limit < size + 3 then (-1, out)
      else
        decodeLoop limit src [] (size + 3)
          (writeAt out size
            (decodeGroup (translate t0) (translate t1) (translate t2) (translate c))) :=
  if_pos hc

/-- The loop puts out the bytes of the characters collected and of those to come, up to the
first one that is not of the alphabet. -/
theorem decodeLoop_emits {vs ts : List Nat} {tail : List UInt8} (hvs : ∀ v ∈ vs, v < 64)
    (hts : ∀ v ∈ ts, v < 64) (hlt : ts.length < 4) (hstops : Stops tail) :
    Emits limit size out (bytesOf (ts ++ vs))
      (decodeLoop limit (vs.map alphabet ++ tail) (ts.map alphabet) size out) := by
  induction vs generalizing ts size out with
  | nil =>
      rw [List.map_nil, List.nil_append, decodeLoop_stops hstops, List.append_nil]
      exact decodeRest_emits hts hlt
  | cons v vs ih =>
      obtain ⟨hv, hvs⟩ := List.forall_mem_cons.mp hvs
      rw [List.map_cons, List.cons_append]
      rcases Nat.lt_or_eq_of_le (Nat.le_of_lt_succ hlt) with hmore | hthree
      · have hcollected : ∀ w ∈ ts ++ [v], w < 64 :=
          List.forall_mem_append.mpr ⟨hts, List.forall_mem_singleton.mpr hv⟩
        have hlen : (ts ++ [v]).length < 4 := by
          rw [List.length_append, List.length_singleton]
          omega
        have hnext : Emits limit size out (bytesOf (ts ++ [v] ++ vs))
            (decodeLoop limit (vs.map alphabet ++ tail) ((ts ++ [v]).map alphabet) size out) :=
          ih hvs hcollected hlen
        rw [List.append_assoc, List.map_append] at hnext
        rw [decodeLoop_collect (isB64_alphabet v hv) (by rwa [List.length_map])]
        exact hnext
      · match ts, hthree with
        | [a, b, d], _ =>
            have ha : a < 64 := hts a (by simp)
            have hb : b < 64 := hts b (by simp)
            have hd : d < 64 := hts d (by simp)
            simp only [List.map_cons, List.map_nil]
            rw [decodeLoop_group (isB64_alphabet v hv), translate_alphabet a ha,
              translate_alphabet b hb, translate_alphabet d hd, translate_alphabet v hv,
              decodeGroup_eq ha hb hd hv]
            have hbytes : bytesOf ([a, b, d] ++ v :: vs) = bytes24 a b d v ++ bytesOf vs := rfl
            have hmore : ∀ out, Emits limit (size + 3) out (bytesOf ([] ++ vs))
                (decodeLoop limit (vs.map alphabet ++ tail) ([].map alphabet) (size + 3) out) :=
              fun _ => ih hvs (by simp) (Nat.zero_lt_succ 3)
            rw [hbytes]
            exact (hmore _).tested rfl

end

/-! ## There and back -/

theorem sextets_lt : ∀ {src : List UInt8}, ∀ v ∈ sextets src, v < 64
  | a :: b :: c :: rest, v, hv => by
      rcases List.mem_append.mp hv with hgroup | hrest
      · exact sextets24_lt hgroup
      · exact sextets_lt v hrest
  | [_, _], _, hv => sextets24_lt (List.mem_of_mem_take hv)
  | [_], _, hv => sextets24_lt (List.mem_of_mem_take hv)
  | [], _, hv => by cases hv

theorem bytesOf_sextets : ∀ src : List UInt8, bytesOf (sextets src) = src
  | a :: b :: c :: rest => by
      have hgroup : bytesOf (sextets (a :: b :: c :: rest)) =
          bytesOf (sextets24 a b c) ++ bytesOf (sextets rest) := rfl
      rw [hgroup, bytes24_sextets24, bytesOf_sextets rest]
      rfl
  | [a, b] => by
      have ha := a.toNat_lt
      have hb := b.toNat_lt
      simp only [sextets, sextets24, List.take_succ_cons, List.take_zero, bytesOf, bytes24,
        List.cons.injEq, and_true, ← UInt8.toNat_inj, UInt8.toNat_ofNat', UInt8.toNat_zero]
      omega
  | [a] => by
      have ha := a.toNat_lt
      simp only [sextets, sextets24, List.take_succ_cons, List.take_zero, bytesOf, bytes24,
        List.cons.injEq, and_true, ← UInt8.toNat_inj, UInt8.toNat_ofNat', UInt8.toNat_zero]
      omega
  | [] => rfl

theorem length_rfcEncode : ∀ src : List UInt8,
    (rfcEncode src).length = 4 * ((src.length + 2) / 3)
  | a :: b :: c :: rest => by
      have hgroup : ((sextets24 a b c).map alphabet).length = 4 := rfl
      rw [rfcEncode_group, List.length_append, hgroup, length_rfcEncode rest]
      simp only [List.length_cons]
      omega
  | [_, _] => by simp [rfcEncode, sextets, sextets24]
  | [_] => by simp [rfcEncode, sextets, sextets24]
  | [] => rfl

theorem stops_padding (n : Nat) : Stops (List.replicate n (byte '=')) := by
  cases n with
  | zero =>
      intro c hc
      cases hc
  | succ n =>
      intro c hc
      cases hc
      decide

theorem mdsApiB64Encode_emits (src : List UInt8) (out : Memory) (limit : Int) :
    Emits limit 0 out (rfcEncode src) (encodeLoop limit src [] 0 out) := by
  have hemits : Emits limit 0 out (rfcEncode ([] ++ src)) (encodeLoop limit src [] 0 out) :=
    encodeLoop_emits (Nat.zero_lt_succ 2)
  exact hemits

theorem mdsApiB64Decode_emits (src : List UInt8) (out : Memory) (limit : Int) :
    Emits limit 0 out src (decodeLoop limit (rfcEncode src) [] 0 out) := by
  have hemits : Emits limit 0 out (bytesOf ([] ++ sextets src))
      (decodeLoop limit (rfcEncode src) ([].map alphabet) 0 out) :=
    decodeLoop_emits sextets_lt (by simp) (Nat.zero_lt_succ 3) (stops_padding _)
  rwa [List.nil_append, bytesOf_sextets] at hemits

/-- A call with an output pointer delivers the bytes. -/
def CallDelivers (limit : Int) (out : Memory) (bytes : List UInt8)
    (result : Int × Option Memory) : Prop :=
  ∃ left, result.2 = some left ∧ Delivers limit out bytes result.1 left

/-- Encoding delivers the text of RFC 4648, decoding that text delivers the data, and each
succeeds exactly when its output and a NUL fit the buffer. -/
theorem base64_transport (src : List UInt8) (encBuff decBuff : Memory) (m k : Int) :
    (rfcEncode src).length = 4 * ((src.length + 2) / 3) ∧
      CallDelivers m encBuff (rfcEncode src) (mdsApiB64Encode src (some encBuff) m) ∧
      CallDelivers k decBuff src (mdsApiB64Decode (rfcEncode src) (some decBuff) k) :=
  ⟨length_rfcEncode src, ⟨_, rfl, (mdsApiB64Encode_emits src encBuff m).delivers⟩,
    ⟨_, rfl, (mdsApiB64Decode_emits src decBuff k).delivers⟩⟩

-- one of the test vectors of RFC 4648
example : rfcEncode ("foob".toList.map byte) = "Zm9vYg==".toList.map byte := by decide

end MdsFormal.Text.Base64
