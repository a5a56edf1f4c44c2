import MdsFormal.Library.Buffer

/-!
# Base64

The two loops of the source.  Both collect input in `tmp` until a group is complete, put
out the group, and treat what is left in `tmp` at the end on its own.  `tmp` is the list
of what has been collected, so that its length is the source's `i`.
-/

namespace MdsFormal.Text.Base64

open Library.Buffer

def byte (c : Char) : UInt8 := UInt8.ofNat c.toNat

def b64Table : List UInt8 :=
  ['A', 'B', 'C', 'D', 'E', 'F', 'G', 'H',
    'I', 'J', 'K', 'L', 'M', 'N', 'O', 'P',
    'Q', 'R', 'S', 'T', 'U', 'V', 'W', 'X',
    'Y', 'Z', 'a', 'b', 'c', 'd', 'e', 'f',
    'g', 'h', 'i', 'j', 'k', 'l', 'm', 'n',
    'o', 'p', 'q', 'r', 's', 't', 'u', 'v',
    'w', 'x', 'y', 'z', '0', '1', '2', '3',
    '4', '5', '6', '7', '8', '9', '+', '/'].map byte

/-! ## Encoding -/

/-- `buf`, from the three bytes of `tmp`. -/
def encodeGroup (t0 t1 t2 : UInt8) : List UInt8 :=
  [(t0 &&& 0xfc) >>> 2, ((t0 &&& 0x03) <<< 4) + ((t1 &&& 0xf0) >>> 4),
    ((t1 &&& 0x0f) <<< 2) + ((t2 &&& 0xc0) >>> 6), t2 &&& 0x3f]

/-- `b64_table[v]`. -/
def tableChar (v : UInt8) : UInt8 := b64Table.getD v.toNat 0

/-- What follows the loop: the incomplete group, its padding and the NUL. -/
def encodeRest (outBuffLen : Int) (tmp : List UInt8) : Nat → Memory → Int × Memory :=
  if tmp.length > 0 then
    let buf := encodeGroup (tmp.getD 0 0) (tmp.getD 1 0) (tmp.getD 2 0)
    putThen outBuffLen
      (putThen outBuffLen (terminate outBuffLen) (List.replicate (3 - tmp.length) (byte '=')))
      ((buf.take (tmp.length + 1)).map tableChar)
  else terminate outBuffLen

/-- The loop over the source, with the group collected so far. -/
def encodeLoop (outBuffLen : Int) : List UInt8 → List UInt8 → Nat → Memory → Int × Memory
  | [], tmp, size, enc => encodeRest outBuffLen tmp size enc
  | c :: src, tmp, size, enc =>
      match tmp with
      | [t0, t1] =>
          if outBuffLen < size + 4 then (-1, enc)
          else
            encodeLoop outBuffLen src [] (size + 4)
              (writeAt enc size ((encodeGroup t0 t1 c).map tableChar))
      | _ => encodeLoop outBuffLen src (tmp ++ [c]) size enc

/-- `mds_api_b64_encode`; a result of -1 for a null pointer as for a short buffer. -/
def mdsApiB64Encode (src : List UInt8) (outBuff : Option Memory) (outBuffLen : Int) :
    Int × Option Memory :=
  match outBuff with
  | none => (-1, none)
  | some enc =>
      let (ret, enc) := encodeLoop outBuffLen src [] 0 enc
      (ret, some enc)

/-! ## Decoding -/

/-- `isalnum` in the C locale. -/
def isAlnum (c : UInt8) : Bool :=
  (48 ≤ c ∧ c ≤ 57) ∨ (65 ≤ c ∧ c ≤ 90) ∨ (97 ≤ c ∧ c ≤ 122)

/-- The character does not end the loop. -/
def isB64 (c : UInt8) : Bool :=
  c ≠ byte '=' ∧ (isAlnum c ∨ c = byte '+' ∨ c = byte '/')

/-- The search in `b64_table`; a character that is not there stays as it is. -/
def translate (t : UInt8) : UInt8 :=
  match b64Table.findIdx? (· = t) with
  | some l => UInt8.ofNat l
  | none => t

/-- `buf`, from the four translated characters of `tmp`. -/
def decodeGroup (t0 t1 t2 t3 : UInt8) : List UInt8 :=
  [(t0 <<< 2) + ((t1 &&& 0x30) >>> 4), ((t1 &&& 0xf) <<< 4) + ((t2 &&& 0x3c) >>> 2),
    ((t2 &&& 0x3) <<< 6) + t3]

/-- What follows the loop: the incomplete group and the NUL. -/
def decodeRest (outBuffLen : Int) (tmp : List UInt8) (size : Nat) (dec : Memory) :
    Int × Memory :=
  if tmp.length > 0 then
    let buf := decodeGroup (translate (tmp.getD 0 0)) (translate (tmp.getD 1 0))
      (translate (tmp.getD 2 0)) (translate (tmp.getD 3 0))
    let more := tmp.length - 1
    if outBuffLen < size + more then (-1, dec)
    else terminate outBuffLen (size + more) (writeAt dec size (buf.take more))
  else terminate outBuffLen size dec

/-- The loop over the source, with the group collected so far. -/
def decodeLoop (outBuffLen : Int) : List UInt8 → List UInt8 → Nat → Memory → Int × Memory
  | [], tmp, size, dec => decodeRest outBuffLen tmp size dec
  | c :: src, tmp, size, dec =>
      if isB64 c then
        match tmp with
        | [t0, t1, t2] =>
            if outBuffLen < size + 3 then (-1, dec)
            else
              decodeLoop outBuffLen src [] (size + 3)
                (writeAt dec size
                  (decodeGroup (translate t0) (translate t1) (translate t2) (translate c)))
        | _ => decodeLoop outBuffLen src (tmp ++ [c]) size dec
      else decodeRest outBuffLen tmp size dec

/-- `mds_api_b64_decode`. -/
def mdsApiB64Decode (src : List UInt8) (outBuff : Option Memory) (outBuffLen : Int) :
    Int × Option Memory :=
  match outBuff with
  | none => (-1, none)
  | some dec =>
      let (ret, dec) := decodeLoop outBuffLen src [] 0 dec
      (ret, some dec)

end MdsFormal.Text.Base64
