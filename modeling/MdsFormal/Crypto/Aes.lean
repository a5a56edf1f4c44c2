import Mathlib.Data.List.Basic

/-!
# The block cipher

The AES functions on one block: the round steps, the key schedule, `Cipher` and
`InvCipher`.  The `state` is held by columns, as the source's `state[i][j]` is: column
`i`, byte `j` of it.  The schedule is held by words of four bytes.
-/

namespace MdsFormal.Crypto.Aes

/-! ## Tables -/

def sboxTable : List UInt8 :=
  [0x63, 0x7c, 0x77, 0x7b, 0xf2, 0x6b, 0x6f, 0xc5, 0x30, 0x01, 0x67, 0x2b, 0xfe, 0xd7, 0xab, 0x76,
    0xca, 0x82, 0xc9, 0x7d, 0xfa, 0x59, 0x47, 0xf0, 0xad, 0xd4, 0xa2, 0xaf, 0x9c, 0xa4, 0x72, 0xc0,
    0xb7, 0xfd, 0x93, 0x26, 0x36, 0x3f, 0xf7, 0xcc, 0x34, 0xa5, 0xe5, 0xf1, 0x71, 0xd8, 0x31, 0x15,
    0x04, 0xc7, 0x23, 0xc3, 0x18, 0x96, 0x05, 0x9a, 0x07, 0x12, 0x80, 0xe2, 0xeb, 0x27, 0xb2, 0x75,
    0x09, 0x83, 0x2c, 0x1a, 0x1b, 0x6e, 0x5a, 0xa0, 0x52, 0x3b, 0xd6, 0xb3, 0x29, 0xe3, 0x2f, 0x84,
    0x53, 0xd1, 0x00, 0xed, 0x20, 0xfc, 0xb1, 0x5b, 0x6a, 0xcb, 0xbe, 0x39, 0x4a, 0x4c, 0x58, 0xcf,
    0xd0, 0xef, 0xaa, 0xfb, 0x43, 0x4d, 0x33, 0x85, 0x45, 0xf9, 0x02, 0x7f, 0x50, 0x3c, 0x9f, 0xa8,
    0x51, 0xa3, 0x40, 0x8f, 0x92, 0x9d, 0x38, 0xf5, 0xbc, 0xb6, 0xda, 0x21, 0x10, 0xff, 0xf3, 0xd2,
    0xcd, 0x0c, 0x13, 0xec, 0x5f, 0x97, 0x44, 0x17, 0xc4, 0xa7, 0x7e, 0x3d, 0x64, 0x5d, 0x19, 0x73,
    0x60, 0x81, 0x4f, 0xdc, 0x22, 0x2a, 0x90, 0x88, 0x46, 0xee, 0xb8, 0x14, 0xde, 0x5e, 0x0b, 0xdb,
    0xe0, 0x32, 0x3a, 0x0a, 0x49, 0x06, 0x24, 0x5c, 0xc2, 0xd3, 0xac, 0x62, 0x91, 0x95, 0xe4, 0x79,
    0xe7, 0xc8, 0x37, 0x6d, 0x8d, 0xd5, 0x4e, 0xa9, 0x6c, 0x56, 0xf4, 0xea, 0x65, 0x7a, 0xae, 0x08,
    0xba, 0x78, 0x25, 0x2e, 0x1c, 0xa6, 0xb4, 0xc6, 0xe8, 0xdd, 0x74, 0x1f, 0x4b, 0xbd, 0x8b, 0x8a,
    0x70, 0x3e, 0xb5, 0x66, 0x48, 0x03, 0xf6, 0x0e, 0x61, 0x35, 0x57, 0xb9, 0x86, 0xc1, 0x1d, 0x9e,
    0xe1, 0xf8, 0x98, 0x11, 0x69, 0xd9, 0x8e, 0x94, 0x9b, 0x1e, 0x87, 0xe9, 0xce, 0x55, 0x28, 0xdf,
    0x8c, 0xa1, 0x89, 0x0d, 0xbf, 0xe6, 0x42, 0x68, 0x41, 0x99, 0x2d, 0x0f, 0xb0, 0x54, 0xbb, 0x16]

def rsboxTable : List UInt8 :=
  [0x52, 0x09, 0x6a, 0xd5, 0x30, 0x36, 0xa5, 0x38, 0xbf, 0x40, 0xa3, 0x9e, 0x81, 0xf3, 0xd7, 0xfb,
    0x7c, 0xe3, 0x39, 0x82, 0x9b, 0x2f, 0xff, 0x87, 0x34, 0x8e, 0x43, 0x44, 0xc4, 0xde, 0xe9, 0xcb,
    0x54, 0x7b, 0x94, 0x32, 0xa6, 0xc2, 0x23, 0x3d, 0xee, 0x4c, 0x95, 0x0b, 0x42, 0xfa, 0xc3, 0x4e,
    0x08, 0x2e, 0xa1, 0x66, 0x28, 0xd9, 0x24, 0xb2, 0x76, 0x5b, 0xa2, 0x49, 0x6d, 0x8b, 0xd1, 0x25,
    0x72, 0xf8, 0xf6, 0x64, 0x86, 0x68, 0x98, 0x16, 0xd4, 0xa4, 0x5c, 0xcc, 0x5d, 0x65, 0xb6, 0x92,
    0x6c, 0x70, 0x48, 0x50, 0xfd, 0xed, 0xb9, 0xda, 0x5e, 0x15, 0x46, 0x57, 0xa7, 0x8d, 0x9d, 0x84,
    0x90, 0xd8, 0xab, 0x00, 0x8c, 0xbc, 0xd3, 0x0a, 0xf7, 0xe4, 0x58, 0x05, 0xb8, 0xb3, 0x45, 0x06,
    0xd0, 0x2c, 0x1e, 0x8f, 0xca, 0x3f, 0x0f, 0x02, 0xc1, 0xaf, 0xbd, 0x03, 0x01, 0x13, 0x8a, 0x6b,
    0x3a, 0x91, 0x11, 0x41, 0x4f, 0x67, 0xdc, 0xea, 0x97, 0xf2, 0xcf, 0xce, 0xf0, 0xb4, 0xe6, 0x73,
    0x96, 0xac, 0x74, 0x22, 0xe7, 0xad, 0x35, 0x85, 0xe2, 0xf9, 0x37, 0xe8, 0x1c, 0x75, 0xdf, 0x6e,
    0x47, 0xf1, 0x1a, 0x71, 0x1d, 0x29, 0xc5, 0x89, 0x6f, 0xb7, 0x62, 0x0e, 0xaa, 0x18, 0xbe, 0x1b,
    0xfc, 0x56, 0x3e, 0x4b, 0xc6, 0xd2, 0x79, 0x20, 0x9a, 0xdb, 0xc0, 0xfe, 0x78, 0xcd, 0x5a, 0xf4,
    0x1f, 0xdd, 0xa8, 0x33, 0x88, 0x07, 0xc7, 0x31, 0xb1, 0x12, 0x10, 0x59, 0x27, 0x80, 0xec, 0x5f,
    0x60, 0x51, 0x7f, 0xa9, 0x19, 0xb5, 0x4a, 0x0d, 0x2d, 0xe5, 0x7a, 0x9f, 0x93, 0xc9, 0x9c, 0xef,
    0xa0, 0xe0, 0x3b, 0x4d, 0xae, 0x2a, 0xf5, 0xb0, 0xc8, 0xeb, 0xbb, 0x3c, 0x83, 0x53, 0x99, 0x61,
    0x17, 0x2b, 0x04, 0x7e, 0xba, 0x77, 0xd6, 0x26, 0xe1, 0x69, 0x14, 0x63, 0x55, 0x21, 0x0c, 0x7d]

def rconTable : List UInt8 :=
  [0x8d, 0x01, 0x02, 0x04, 0x08, 0x10, 0x20, 0x40, 0x80, 0x1b, 0x36]

def getSBoxValue (num : UInt8) : UInt8 := sboxTable.getD num.toNat 0

def getSBoxInvert (num : UInt8) : UInt8 := rsboxTable.getD num.toNat 0

def rcon (i : Nat) : UInt8 := rconTable.getD i 0

/-! ## Words and blocks -/

/-- Four bytes: a column of the state, or a word of the schedule. -/
structure Word where
  b0 : UInt8
  b1 : UInt8
  b2 : UInt8
  b3 : UInt8
  deriving DecidableEq

namespace Word

def map (f : UInt8 → UInt8) (w : Word) : Word := ⟨f w.b0, f w.b1, f w.b2, f w.b3⟩

instance : XorOp Word where
  xor v w := ⟨v.b0 ^^^ w.b0, v.b1 ^^^ w.b1, v.b2 ^^^ w.b2, v.b3 ^^^ w.b3⟩

instance : Inhabited Word := ⟨⟨0, 0, 0, 0⟩⟩

/-- The source's `RotWord`. -/
def rotWord (w : Word) : Word := ⟨w.b1, w.b2, w.b3, w.b0⟩

/-- The source's `Subword`. -/
def subWord (w : Word) : Word := w.map getSBoxValue

end Word

/-- The `state`. -/
structure Block where
  c0 : Word
  c1 : Word
  c2 : Word
  c3 : Word
  deriving DecidableEq

namespace Block

def map (f : Word → Word) (b : Block) : Block := ⟨f b.c0, f b.c1, f b.c2, f b.c3⟩

instance : XorOp Block where
  xor a b := ⟨a.c0 ^^^ b.c0, a.c1 ^^^ b.c1, a.c2 ^^^ b.c2, a.c3 ^^^ b.c3⟩

instance : Inhabited Block := ⟨⟨default, default, default, default⟩⟩

end Block

/-! ## The round steps -/

/-- `RoundKey`, by words; it has room for the largest schedule. -/
structure RoundKey where
  words : List Word
  length_words : words.length = 60

namespace RoundKey

def zero : RoundKey := ⟨List.replicate 60 default, List.length_replicate⟩

def word (roundKey : RoundKey) (i : Nat) : Word := roundKey.words.getD i default

def setWord (roundKey : RoundKey) (i : Nat) (w : Word) : RoundKey :=
  ⟨roundKey.words.set i w, List.length_set.trans roundKey.length_words⟩

/-- The four words that `AddRoundKey(round)` reads. -/
def block (roundKey : RoundKey) (round : Nat) : Block :=
  ⟨roundKey.word (4 * round), roundKey.word (4 * round + 1), roundKey.word (4 * round + 2),
    roundKey.word (4 * round + 3)⟩

theorem word_setWord (roundKey : RoundKey) (i j : Nat) (w : Word) :
    (roundKey.setWord i w).word j = if i = j ∧ i < 60 then w else roundKey.word j := by
  unfold word setWord
  rw [List.getD_eq_getElem?_getD, List.getElem?_set, roundKey.length_words]
  rcases eq_or_ne i j with rfl | hne
  · rcases Nat.lt_or_ge i 60 with hlt | hge
    · simp [hlt]
    · have hout : roundKey.words.length ≤ i := roundKey.length_words ▸ hge
      simp [Nat.not_lt.mpr hge, List.getD_eq_getElem?_getD, List.getElem?_eq_none hout]
  · simp [hne, List.getD_eq_getElem?_getD]

end RoundKey

def addRoundKey (roundKey : RoundKey) (round : Nat) (b : Block) : Block :=
  b ^^^ roundKey.block round

def subBytes (b : Block) : Block := b.map (Word.map getSBoxValue)

def invSubBytes (b : Block) : Block := b.map (Word.map getSBoxInvert)

/-- Row `j` is shifted `j` columns to the left. -/
def shiftRows (b : Block) : Block where
  c0 := ⟨b.c0.b0, b.c1.b1, b.c2.b2, b.c3.b3⟩
  c1 := ⟨b.c1.b0, b.c2.b1, b.c3.b2, b.c0.b3⟩
  c2 := ⟨b.c2.b0, b.c3.b1, b.c0.b2, b.c1.b3⟩
  c3 := ⟨b.c3.b0, b.c0.b1, b.c1.b2, b.c2.b3⟩

def invShiftRows (b : Block) : Block where
  c0 := ⟨b.c0.b0, b.c3.b1, b.c2.b2, b.c1.b3⟩
  c1 := ⟨b.c1.b0, b.c0.b1, b.c3.b2, b.c2.b3⟩
  c2 := ⟨b.c2.b0, b.c1.b1, b.c0.b2, b.c3.b3⟩
  c3 := ⟨b.c3.b0, b.c2.b1, b.c1.b2, b.c0.b3⟩

def xtime (x : UInt8) : UInt8 := (x <<< 1) ^^^ (((x >>> 7) &&& 1) * 0x1b)

/-- One column of `MixColumns`. -/
def mixColumn (w : Word) : Word :=
  let tmp := w.b0 ^^^ w.b1 ^^^ w.b2 ^^^ w.b3
  ⟨w.b0 ^^^ (xtime (w.b0 ^^^ w.b1) ^^^ tmp), w.b1 ^^^ (xtime (w.b1 ^^^ w.b2) ^^^ tmp),
    w.b2 ^^^ (xtime (w.b2 ^^^ w.b3) ^^^ tmp), w.b3 ^^^ (xtime (w.b3 ^^^ w.b0) ^^^ tmp)⟩

def mixColumns (b : Block) : Block := b.map mixColumn

/-- `x` where bit `k` of `y` is set, else 0. -/
def bitTimes (y k x : UInt8) : UInt8 := ((y >>> k) &&& 1) * x

/-- The source's `Multiply`. -/
def multiply (x y : UInt8) : UInt8 :=
  bitTimes y 0 x ^^^ bitTimes y 1 (xtime x) ^^^ bitTimes y 2 (xtime (xtime x)) ^^^
    bitTimes y 3 (xtime (xtime (xtime x))) ^^^ bitTimes y 4 (xtime (xtime (xtime (xtime x))))

/-- One column of `InvMixColumns`. -/
def invMixColumn (w : Word) : Word :=
  ⟨multiply w.b0 0x0e ^^^ multiply w.b1 0x0b ^^^ multiply w.b2 0x0d ^^^ multiply w.b3 0x09,
    multiply w.b0 0x09 ^^^ multiply w.b1 0x0e ^^^ multiply w.b2 0x0b ^^^ multiply w.b3 0x0d,
    multiply w.b0 0x0d ^^^ multiply w.b1 0x09 ^^^ multiply w.b2 0x0e ^^^ multiply w.b3 0x0b,
    multiply w.b0 0x0b ^^^ multiply w.b1 0x0d ^^^ multiply w.b2 0x09 ^^^ multiply w.b3 0x0e⟩

def invMixColumns (b : Block) : Block := b.map invMixColumn

/-! ## The cipher -/

/-- Rounds 1 to `n` of the loop in `Cipher`. -/
def rounds (roundKey : RoundKey) : Nat → Block → Block
  | 0, b => b
  | n + 1, b =>
      addRoundKey roundKey (n + 1) (mixColumns (shiftRows (subBytes (rounds roundKey n b))))

/-- `Cipher`. -/
def cipher (nr : Nat) (roundKey : RoundKey) (b : Block) : Block :=
  addRoundKey roundKey nr
    (shiftRows (subBytes (rounds roundKey (nr - 1) (addRoundKey roundKey 0 b))))

/-- Rounds `n` down to 1 of the loop in `InvCipher`. -/
def invRounds (roundKey : RoundKey) : Nat → Block → Block
  | 0, b => b
  | n + 1, b =>
      invRounds roundKey n
        (invMixColumns (addRoundKey roundKey (n + 1) (invSubBytes (invShiftRows b))))

/-- `InvCipher`. -/
def invCipher (nr : Nat) (roundKey : RoundKey) (b : Block) : Block :=
  addRoundKey roundKey 0
    (invSubBytes (invShiftRows (invRounds roundKey (nr - 1) (addRoundKey roundKey nr b))))

/-! ## The key schedule -/

/-- The key sizes; `AES_TYPE_AES128`, `AES_TYPE_AES192` and `AES_TYPE_AES256`. -/
inductive AesType where
  | aes128
  | aes192
  | aes256
  deriving DecidableEq

/-- Bytes from a pointer on. -/
abbrev Bytes := Nat → UInt8

def Bytes.word (bytes : Bytes) (i : Nat) : Word :=
  ⟨bytes (4 * i), bytes (4 * i + 1), bytes (4 * i + 2), bytes (4 * i + 3)⟩

/-- The first loop of `KeyExpansion`: the key's first `nk` words. -/
def copyKey (key : Bytes) : Nat → RoundKey → RoundKey
  | 0, roundKey => roundKey
  | nk + 1, roundKey => (copyKey key nk roundKey).setWord nk (key.word nk)

/-- What the second loop of `KeyExpansion` writes as word `i`. -/
def expandedWord (aesType : AesType) (nk : Nat) (roundKey : RoundKey) (i : Nat) : Word :=
  let tempa := roundKey.word (i - 1)
  let tempa :=
    if i % nk = 0 then
      let rotated := tempa.rotWord.subWord
      { rotated with b0 := rotated.b0 ^^^ rcon (i / nk) }
    else tempa
  let tempa := if aesType = .aes256 then if i % nk = 4 then tempa.subWord else tempa else tempa
  roundKey.word (i - nk) ^^^ tempa

/-- The second loop of `KeyExpansion`, with `count` words left to write from word `i` on. -/
def expandLoop (aesType : AesType) (nk : Nat) : Nat → Nat → RoundKey → RoundKey
  | 0, _, roundKey => roundKey
  | count + 1, i, roundKey =>
      expandLoop aesType nk count (i + 1)
        (roundKey.setWord i (expandedWord aesType nk roundKey i))

/-- `KeyExpansion`. -/
def keyExpansion (aesType : AesType) (nk nr : Nat) (key : Bytes) (roundKey : RoundKey) :
    RoundKey :=
  expandLoop aesType nk (4 * (nr + 1) - nk) nk (copyKey key nk roundKey)

end MdsFormal.Crypto.Aes
