import MdsFormal.Library.CString
import MdsFormal.Library.IntMemory
import MdsFormal.Storage.Crc16

/-!
# Log datagrams

A client fills a zeroed `struct log_message` and sends the front of it, cut off
behind the last byte of the text, without its NUL.  The daemon clears its own
structure before each `recvfrom`, which then overwrites the front of it.
-/

namespace MdsFormal.Logd.Message

open MdsFormal.Library.CString
open MdsFormal.Library.IntMemory
open MdsFormal.Storage.Crc16 (Endian)

/-! ## The structure and its memory -/

/-- `struct log_message`; the three integers are signed. -/
structure LogMessage where
  type : BitVec 32
  service : BitVec 32
  level : BitVec 32
  pname : Buf 32
  message : Buf 1024
  deriving DecidableEq

def LogMessage.zero : LogMessage := ⟨0, 0, 0, .zero 32, .zero 1024⟩

def storeInt : Endian → BitVec 32 → List UInt8
  | .little, value => leBytes 4 value.toNat
  | .big, value => (leBytes 4 value.toNat).reverse

def loadInt : Endian → List UInt8 → BitVec 32
  | .little, bytes => BitVec.ofNat 32 (leValue bytes)
  | .big, bytes => BitVec.ofNat 32 (leValue bytes.reverse)

/-- The fields behind one another: all of them are multiples of four bytes long. -/
def LogMessage.bytes (endian : Endian) (m : LogMessage) : List UInt8 :=
  storeInt endian m.type ++ storeInt endian m.service ++ storeInt endian m.level ++
    m.pname.bytes ++ m.message.bytes

/-- `sizeof(struct log_message)`. -/
def sizeofLogMessage : Nat := 1068

theorem length_field {size offset count : Nat} (memory : Buf size)
    (hfits : offset + count ≤ size) : ((memory.bytes.drop offset).take count).length = count := by
  rw [List.length_take, List.length_drop, memory.length_eq]
  omega

/-- A character array inside a block of memory. -/
def field {size : Nat} (memory : Buf size) (offset count : Nat) (hfits : offset + count ≤ size) :
    Buf count :=
  ⟨(memory.bytes.drop offset).take count, length_field memory hfits⟩

/-- The structure that lies in a block of memory. -/
def LogMessage.ofBytes (endian : Endian) (memory : Buf sizeofLogMessage) : LogMessage where
  type := loadInt endian (memory.bytes.take 4)
  service := loadInt endian ((memory.bytes.drop 4).take 4)
  level := loadInt endian ((memory.bytes.drop 8).take 4)
  pname := field memory 12 32 (Nat.le_of_ble_eq_true rfl)
  message := field memory 44 1024 (Nat.le_refl _)

/-! ## The client -/

/-- A process name that fits `pname`. -/
abbrev ProcessName := { name : List UInt8 // 0 ∉ name ∧ name.length ≤ 31 }

/-- A formatted text that fits `tmp`. -/
abbrev LogText := { text : List UInt8 // 0 ∉ text ∧ text.length ≤ 1023 }

/-- "none" -/
def noName : ProcessName := ⟨[110, 111, 110, 101], by decide⟩

/-- What `logd` has put into its structure when it sends it. -/
def logMessage (pname : Option ProcessName) (svc level : BitVec 32) (tmp : LogText) :
    LogMessage :=
  { LogMessage.zero with
    type := 0
    service := svc
    level := level
    pname := LogMessage.zero.pname.strcpy (pname.getD noName).1
    message := LogMessage.zero.message.strcpy tmp.1 }

/-- `logd`: the datagram it sends, if it has a socket. -/
def logd (endian : Endian) (pname : Option ProcessName) (socket : Bool) (svc level : BitVec 32)
    (tmp : LogText) : Option (List UInt8) :=
  if socket then
    let lMsgSize := tmp.1.length + 4 + 4 + 4 + 32
    some (((logMessage pname svc level tmp).bytes endian).take lMsgSize)
  else none

/-! ## The daemon -/

def memset (size : Nat) : Buf size := .zero size

/-- `recvfrom` into a block of memory; `none` is a call that fails. -/
def recvfrom {size : Nat} (memory : Buf size) : Option (List UInt8) → Buf size
  | none => memory
  | some datagram => memory.overwrite datagram

/-- The memory of the daemon's `l_msg` after the front of one turn of `while(1)`. -/
def turn (_lMsg : Buf sizeofLogMessage) (received : Option (List UInt8)) : Buf sizeofLogMessage :=
  recvfrom (memset sizeofLogMessage) received

/-- The memory of `l_msg` after all these turns. -/
def held (lMsg : Buf sizeofLogMessage) (received : List (Option (List UInt8))) :
    Buf sizeofLogMessage :=
  received.foldl turn lMsg

/-- The `-app` filter: whether the message is handled at all. -/
def passesFilter (applicationName : Option (List UInt8)) (m : LogMessage) : Bool :=
  match applicationName with
  | none => true
  | some name => strncmp 32 m.pname.bytes name = 0

/-! ## Layout -/

variable {endian : Endian}

@[simp]
theorem length_storeInt (endian : Endian) (value : BitVec 32) :
    (storeInt endian value).length = 4 := by
  cases endian with
  | little => exact length_leBytes 4 _
  | big => exact (List.length_reverse).trans (length_leBytes 4 _)

@[simp]
theorem loadInt_storeInt (endian : Endian) (value : BitVec 32) :
    loadInt endian (storeInt endian value) = value := by
  have hvalue : value.toNat % 256 ^ 4 = value.toNat := Nat.mod_eq_of_lt value.isLt
  cases endian with
  | little =>
      rw [storeInt, loadInt, leValue_leBytes, hvalue, BitVec.ofNat_toNat, BitVec.setWidth_eq]
  | big =>
      rw [storeInt, loadInt, List.reverse_reverse, leValue_leBytes, hvalue, BitVec.ofNat_toNat,
        BitVec.setWidth_eq]

theorem length_bytes (endian : Endian) (m : LogMessage) :
    (m.bytes endian).length = sizeofLogMessage := by
  simp only [LogMessage.bytes, List.length_append, length_storeInt, m.pname.length_eq,
    m.message.length_eq]
  rfl

/-- The memory a structure lies in. -/
def LogMessage.memory (endian : Endian) (m : LogMessage) : Buf sizeofLogMessage :=
  ⟨m.bytes endian, length_bytes endian m⟩

theorem take_drop_middle {front middle back : List UInt8} {offset count : Nat}
    (hfront : front.length = offset) (hmiddle : middle.length = count) :
    ((front ++ (middle ++ back)).drop offset).take count = middle := by
  rw [List.drop_left' hfront, List.take_left' hmiddle]

/-- A structure is read back from its memory. -/
theorem ofBytes_memory (endian : Endian) (m : LogMessage) :
    LogMessage.ofBytes endian (m.memory endian) = m := by
  obtain ⟨type, service, level, ⟨pname, hpname⟩, ⟨message, hmessage⟩⟩ := m
  have htype : (storeInt endian type ++ storeInt endian service ++ storeInt endian level ++
      pname ++ message).take 4 = storeInt endian type := by
    simp only [List.append_assoc]
    exact List.take_left' (length_storeInt endian type)
  have hservice : ((storeInt endian type ++ storeInt endian service ++ storeInt endian level ++
      pname ++ message).drop 4).take 4 = storeInt endian service := by
    simp only [List.append_assoc]
    exact take_drop_middle (length_storeInt endian type) (length_storeInt endian service)
  have hlevel : ((storeInt endian type ++ storeInt endian service ++ storeInt endian level ++
      pname ++ message).drop 8).take 4 = storeInt endian level := by
    rw [List.append_assoc, List.append_assoc _ _ (pname ++ message)]
    exact take_drop_middle (by simp) (length_storeInt endian level)
  have hname : ((storeInt endian type ++ storeInt endian service ++ storeInt endian level ++
      pname ++ message).drop 12).take 32 = pname := by
    rw [List.append_assoc]
    exact take_drop_middle (by simp) hpname
  have htext : ((storeInt endian type ++ storeInt endian service ++ storeInt endian level ++
      pname ++ message).drop 44).take 1024 = message := by
    rw [List.drop_left' (by simp [hpname])]
    exact List.take_of_length_le (Nat.le_of_eq hmessage)
  simp only [LogMessage.ofBytes, LogMessage.memory, LogMessage.bytes, field, htype, hservice,
    hlevel, hname, htext, loadInt_storeInt]

/-! ## What arrives -/

/-- The part of a block that is not sent is made up by the cleared memory. -/
theorem recvfrom_front {size : Nat} (whole : Buf size) {sent : Nat} (hsent : sent ≤ size)
    (hrest : whole.bytes.drop sent = List.replicate (size - sent) 0) :
    recvfrom (memset size) (some (whole.bytes.take sent)) = whole := by
  obtain ⟨bytes, hlength⟩ := whole
  dsimp only at hrest
  have hfront : (bytes.take sent).length = sent := by
    rw [List.length_take, hlength, Nat.min_eq_left hsent]
  have hback : (memset size).bytes.drop (bytes.take sent).length =
      List.replicate (size - sent) 0 := by
    rw [hfront]
    exact List.drop_replicate
  have hwhole : bytes.take sent ++ (memset size).bytes.drop (bytes.take sent).length = bytes := by
    rw [hback, ← hrest, List.take_append_drop]
  simp only [recvfrom, Buf.overwrite, hwhole, List.take_of_length_le (Nat.le_of_eq hlength)]

/-- What a client leaves unsent of its structure is zero. -/
theorem drop_logMessage (endian : Endian) (pname : Option ProcessName) (svc level : BitVec 32)
    (tmp : LogText) :
    ((logMessage pname svc level tmp).bytes endian).drop (tmp.1.length + 4 + 4 + 4 + 32) =
      List.replicate (sizeofLogMessage - (tmp.1.length + 4 + 4 + 4 + 32)) 0 := by
  have hfits : tmp.1.length < 1024 := Nat.lt_succ_of_le tmp.2.2
  have hmessage : (logMessage pname svc level tmp).message.bytes =
      tmp.1 ++ List.replicate (1024 - tmp.1.length) 0 :=
    bytes_strcpy_zero hfits
  rw [LogMessage.bytes, hmessage, ← List.append_assoc]
  rw [List.drop_left']
  · congr 1
    rw [sizeofLogMessage]
    omega
  · simp only [List.length_append, length_storeInt, Buf.length_eq]
    omega

/-- Earlier turns leave nothing behind. -/
theorem held_append (lMsg : Buf sizeofLogMessage) (earlier : List (Option (List UInt8)))
    (received : Option (List UInt8)) :
    held lMsg (earlier ++ [received]) = recvfrom (memset sizeofLogMessage) received := by
  rw [held, List.foldl_append]
  rfl

theorem held_logd (endian : Endian) (lMsg : Buf sizeofLogMessage)
    (earlier : List (Option (List UInt8))) (pname : Option ProcessName) (svc level : BitVec 32)
    (tmp : LogText) :
    held lMsg (earlier ++ [logd endian pname true svc level tmp]) =
      (logMessage pname svc level tmp).memory endian := by
  have htext := tmp.2.2
  rw [held_append]
  refine recvfrom_front ((logMessage pname svc level tmp).memory endian) ?_
    (drop_logMessage endian pname svc level tmp)
  rw [sizeofLogMessage]
  omega

/-! ## The strings of a received message -/

theorem str_pname (pname : Option ProcessName) (svc level : BitVec 32) (tmp : LogText) :
    (logMessage pname svc level tmp).pname.str = (pname.getD noName).1 :=
  str_strcpy _ (pname.getD noName).2.1 (Nat.lt_succ_of_le (pname.getD noName).2.2)

theorem str_message (pname : Option ProcessName) (svc level : BitVec 32) (tmp : LogText) :
    (logMessage pname svc level tmp).message.str = tmp.1 :=
  str_strcpy _ tmp.2.1 (Nat.lt_succ_of_le tmp.2.2)

/-- The text is followed by its NUL. -/
theorem zero_mem_message (pname : Option ProcessName) (svc level : BitVec 32) (tmp : LogText) :
    0 ∈ (logMessage pname svc level tmp).message.bytes := by
  have hfits : tmp.1.length < 1024 := Nat.lt_succ_of_le tmp.2.2
  have hmessage : (logMessage pname svc level tmp).message.bytes =
      tmp.1 ++ List.replicate (1024 - tmp.1.length) 0 :=
    bytes_strcpy_zero hfits
  rw [hmessage]
  apply List.mem_append_right
  rw [List.mem_replicate]
  exact ⟨by omega, rfl⟩

/-- A name that ends within `pname` passes the filter of exactly its own name. -/
theorem passesFilter_iff {m : LogMessage} (hfits : m.pname.str.length < 32)
    {application : List UInt8} (hnul : 0 ∉ application) :
    passesFilter (some application) m = true ↔ m.pname.str = application := by
  have hcompare := strncmp_eq_zero_iff 32 m.pname.bytes application
  rw [takeWhile_of_not_mem hnul] at hcompare
  have hstr : m.pname.str.take 32 = m.pname.str := List.take_of_length_le (Nat.le_of_lt hfits)
  rw [passesFilter, decide_eq_true_iff, hcompare]
  change m.pname.str.take 32 = _ ↔ _
  rw [hstr]
  constructor
  · intro heq
    have hlength := congrArg List.length heq
    rw [List.length_take] at hlength
    rw [heq, List.take_of_length_le (by omega)]
  · rintro rfl
    exact hstr.symm

/--
Whatever the daemon received before, after the datagram of a `logd` call it holds
the structure of that call, and filters it by the name of the sender.
-/
theorem logd_received (endian : Endian) (lMsg : Buf sizeofLogMessage)
    (earlier : List (Option (List UInt8))) (pname : Option ProcessName) (svc level : BitVec 32)
    (tmp : LogText) (application : { name : List UInt8 // 0 ∉ name }) :
    let received := LogMessage.ofBytes endian
      (held lMsg (earlier ++ [logd endian pname true svc level tmp]))
    received = logMessage pname svc level tmp ∧
      received.type = 0 ∧ received.service = svc ∧ received.level = level ∧
      received.pname.str = (pname.getD noName).1 ∧
      received.message.str = tmp.1 ∧ 0 ∈ received.message.bytes ∧
      (passesFilter (some application.1) received = true ↔
        (pname.getD noName).1 = application.1) := by
  rw [held_logd, ofBytes_memory]
  have hname := str_pname pname svc level tmp
  refine ⟨rfl, rfl, rfl, rfl, hname, str_message pname svc level tmp,
    zero_mem_message pname svc level tmp, ?_⟩
  rw [passesFilter_iff _ application.2, hname]
  rw [hname]
  exact Nat.lt_succ_of_le (pname.getD noName).2.2

end MdsFormal.Logd.Message
