import MdsFormal.Library.CrashDisk
import MdsFormal.Storage.Crc16

/-!
# The record store and the copy routine of `file.c`

The functions run against a `Kernel`: the disk, the answers the next system
calls get, and the effects performed so far.  Every call takes one answer; when
the list is used up each further call does all it was asked, so the empty list
is the run without faults.  Only `file` and `file.bak` are ever named, so these
two stand for the path strings.
-/

namespace MdsFormal.Storage.File

open MdsFormal.Library.CrashDisk
open MdsFormal.Storage.Crc16

abbrev Bytes := List UInt8

inductive FileName where
  | file
  | bak
  deriving DecidableEq

/-! ## Return codes of `mds_api.h` -/

def mdsApiOk : Int := 0
def mdsApiNok : Int := -1

def errNone : Int := 0
def errFileNotExist : Int := 1
def errFileOpen : Int := 2
def errMemAlloc : Int := 3
def errFileRead : Int := 4
def errDataCrc : Int := 5

/-! ## System calls -/

inductive Errno where
  | eintr
  | other
  deriving DecidableEq

/-- `count n` is the raw result `n`: descriptor `n` of an open, at most `n` bytes moved. -/
inductive Answer where
  | full
  | count (n : Nat)
  | interrupted
  | failed
  deriving DecidableEq

def Answer.descriptor : Answer → Except Errno Nat
  | .full => .ok 3
  | .count n => .ok n
  | .interrupted => .error .eintr
  | .failed => .error .other

def Answer.transfer (asked : Nat) : Answer → Except Errno Nat
  | .full => .ok asked
  | .count n => .ok (min n asked)
  | .interrupted => .error .eintr
  | .failed => .error .other

/-- For calls whose result is only tested for failure. -/
def Answer.succeeds : Answer → Bool
  | .full | .count _ => true
  | .interrupted | .failed => false

structure Kernel where
  disk : Disk FileName UInt8
  answers : List Answer
  effects : List (Effect FileName UInt8)

namespace Kernel

/-- The kernel a call starts on when nothing goes wrong during it. -/
def boot (disk : Disk FileName UInt8) : Kernel := ⟨disk, [], []⟩

def answer (kernel : Kernel) : Answer := kernel.answers.headD .full

def consume (kernel : Kernel) : Kernel := { kernel with answers := kernel.answers.tail }

def emit (kernel : Kernel) (effect : Effect FileName UInt8) : Kernel :=
  { kernel with
    disk := effect.apply kernel.disk
    effects := kernel.effects ++ [effect] }

def content (kernel : Kernel) (name : FileName) : Bytes := (kernel.disk name).getD []

def openRead (kernel : Kernel) (name : FileName) : Except Errno Nat × Kernel :=
  match kernel.disk name with
  | none => (.error .other, kernel.consume)
  | some _ => (kernel.answer.descriptor, kernel.consume)

def openWrite (kernel : Kernel) (name : FileName) (truncate : Bool) :
    Except Errno Nat × Kernel :=
  match kernel.answer.descriptor with
  | .error errno => (.error errno, kernel.consume)
  | .ok fd => (.ok fd, kernel.consume.emit (if truncate then .truncate name else .create name))

def read (kernel : Kernel) (name : FileName) (offset count : Nat) :
    Except Errno Bytes × Kernel :=
  let available := ((kernel.content name).drop offset).take count
  match kernel.answer.transfer available.length with
  | .error errno => (.error errno, kernel.consume)
  | .ok moved => (.ok (available.take moved), kernel.consume)

def write (kernel : Kernel) (name : FileName) (offset : Nat) (bytes : Bytes) :
    Except Errno Nat × Kernel :=
  match kernel.answer.transfer bytes.length with
  | .error errno => (.error errno, kernel.consume)
  | .ok moved => (.ok moved, kernel.consume.emit (.write name offset (bytes.take moved)))

/-- `close` and `malloc`, of which the code looks at success only. -/
def attempt (kernel : Kernel) : Bool × Kernel := (kernel.answer.succeeds, kernel.consume)

end Kernel

/-! ## `mds_api_cp` -/

/--
The inner `do .. while(nread > 0)`.  Each turn uses one answer, so the fuel the
caller gives is never used up; `false` is the jump to `out_error`.
-/
def writeLoop (target : FileName) : Nat → Nat → Bytes → Kernel → Bool × Kernel
  | 0, _, _, kernel => (false, kernel)
  | fuel + 1, offset, pending, kernel =>
      match kernel.write target offset pending with
      | (.ok nwritten, kernel) =>
          if pending.drop nwritten = [] then (true, kernel)
          else writeLoop target fuel (offset + nwritten) (pending.drop nwritten) kernel
      | (.error .eintr, kernel) => writeLoop target fuel offset pending kernel
      | (.error .other, kernel) => (false, kernel)

/-- The outer `while(nread = read(..), nread > 0)`; each turn moves on by a byte at least. -/
def copyLoop (source target : FileName) : Nat → Nat → Kernel → Bool × Kernel
  | 0, _, kernel => (false, kernel)
  | fuel + 1, offset, kernel =>
      match kernel.read source offset 4096 with
      | (.error _, kernel) => (false, kernel)
      | (.ok chunk, kernel) =>
          if chunk = [] then (true, kernel)
          else
            match writeLoop target (kernel.answers.length + 1) offset chunk kernel with
            | (true, kernel) => copyLoop source target fuel (offset + chunk.length) kernel
            | (false, kernel) => (false, kernel)

def mdsApiCp (source target : FileName) (overwrite : Bool) (kernel : Kernel) : Int × Kernel :=
  match kernel.openRead source with
  | (.error _, kernel) => (mdsApiNok, kernel)
  | (.ok _, kernel) =>
      match kernel.openWrite target overwrite with
      | (.error _, kernel) => (mdsApiNok, kernel)
      | (.ok _, kernel) =>
          match copyLoop source target ((kernel.content source).length + 1) 0 kernel with
          | (false, kernel) => (mdsApiNok, kernel)
          | (true, kernel) =>
              match kernel.attempt with
              | (true, kernel) => (mdsApiOk, kernel)
              | (false, kernel) => (mdsApiNok, kernel)

/-! ## The record store -/

def isExistFile (disk : Disk FileName UInt8) (name : FileName) : Nat → Int
  | 0 => -1
  | timeout + 1 => if (disk name).isSome then 0 else isExistFile disk name timeout

def fileRecovery (kernel : Kernel) : Int × Kernel :=
  match mdsApiCp .bak .file true kernel with
  | (ret, kernel) => (if ret < 0 then -errFileNotExist else errNone, kernel)

def fileBackup (kernel : Kernel) : Kernel :=
  if 0 ≤ isExistFile kernel.disk .file 1 then (mdsApiCp .file .bak true kernel).2 else kernel

/--
The retry loop of `_load_file`, counted by the tries left.  It gives the value
of `retry` the code tests afterwards: 4 when the loop ran out, the number of
the try that ended in `break` otherwise.
-/
def readLoop (name : FileName) (length : Nat) : Nat → Int → Kernel → Nat × Int × Bytes × Kernel
  | 0, err, kernel => (4, err, [], kernel)
  | left + 1, err, kernel =>
      match kernel.openRead name with
      | (.ok (_ + 1), kernel) =>
          match kernel.read name 0 (length + 2) with
          | (.ok pbuf, kernel) =>
              if pbuf.length = length + 2 then (3 - left, err, pbuf, kernel)
              else readLoop name length left (-errFileRead) kernel
          | (.error _, kernel) => readLoop name length left (-errFileRead) kernel
      -- `fd <= 0`: descriptor 0 counts as a failed open
      | (_, kernel) => readLoop name length left (-errFileOpen) kernel

/-- The result is the return code, what `pdata` then holds, and the kernel. -/
def loadFile (endian : Endian) (name : FileName) (length : Nat) (kernel : Kernel) :
    Int × Bytes × Kernel :=
  let zeroed := List.replicate length 0
  match kernel.attempt with
  | (false, kernel) => (-errMemAlloc, zeroed, kernel)
  | (true, kernel) =>
      match readLoop name length 3 errNone kernel with
      | (retry, err, pbuf, kernel) =>
          if 3 ≤ retry then (err, zeroed, kernel)
          else if loadU16 endian (pbuf.drop length) ≠ mdsApiCrc16Get (pbuf.take length) then
            (-errDataCrc, zeroed, kernel)
          else (errNone, pbuf.take length, kernel)

/-- The second half of `mds_api_storage_load_file`, once the file is there. -/
def loadOrRecover (endian : Endian) (length : Nat) (kernel : Kernel) : Int × Bytes × Kernel :=
  match loadFile endian .file length kernel with
  | (ret, pdata, kernel) =>
      if ret = -errDataCrc then
        match fileRecovery kernel with
        | (recovered, kernel) =>
            if recovered = errNone then loadFile endian .file length kernel
            else (ret, pdata, kernel)
      else (ret, pdata, kernel)

def mdsApiStorageLoadFile (endian : Endian) (pdata : Bytes) (length : Nat) (kernel : Kernel) :
    Int × Bytes × Kernel :=
  if isExistFile kernel.disk .file 3 < 0 then
    match fileRecovery kernel with
    | (recovered, kernel) =>
        if recovered ≠ errNone then (-errFileNotExist, pdata, kernel)
        else loadOrRecover endian length kernel
  else loadOrRecover endian length kernel

def mdsApiStorageSaveFile (endian : Endian) (pdata : Bytes) (kernel : Kernel) : Int × Kernel :=
  match (fileBackup kernel).openWrite .file true with
  | (.error _, kernel) => (-errFileOpen, kernel)
  | (.ok _, kernel) =>
      match kernel.write .file 0 pdata with
      | (written, kernel) =>
          -- the second write goes where the first one stopped, checked or not
          let offset := match written with
            | .ok nwritten => nwritten
            | .error _ => 0
          (0, (kernel.write .file offset (storeU16 endian (mdsApiCrc16Get pdata))).2)

end MdsFormal.Storage.File
