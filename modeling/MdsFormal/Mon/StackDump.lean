import Mathlib.Algebra.Group.Nat.Defs
import Mathlib.Data.List.Basic
import MdsFormal.Library.CString

/-!
# The log of the stack dumps

The handler that `mds_api_stackdump_init` installs appends its dump to one log, which it removes
before that once the log is too large.  The log is followed here over one crash after the other;
every `fopen` and the `remove` of a crash may fail.
-/

namespace MdsFormal.Mon.StackDump

open MdsFormal.Library.CString

/-! ## The code -/

/-- `SIZE_STACKDUMP` -/
def sizeStackdump : Nat := 100 * 1024

/-- A signal, what the handler is told about it, the stack, and the two callbacks that may be
set. -/
structure Crash where
  signum : Nat
  strsignal : Str
  siAddr : Nat
  callerAddress : Nat
  /-- `backtrace` fills `void* addrlist[100]`. -/
  addrlist : { addresses : List Nat // addresses.length ≤ 100 }
  baseCallback : Bool
  callback : Bool
  /-- Whether the log opens for its size, whether it is removed, and whether it opens for the
  dump. -/
  sizeOpens : Bool
  removes : Bool
  dumpOpens : Bool

/-- `"%p"` -/
def pointer (address : Nat) : List UInt8 :=
  if address = 0 then ascii "(nil)"
  else ascii "0x" ++ (Nat.toDigits 16 address).map fun c => UInt8.ofNat c.toNat

/-- The cases of `switch(signum)`. -/
def signalNames : List (Nat × String) :=
  [(6, "SIGABRT"), (11, "SIGSEGV"), (7, "SIGBUS"), (4, "SIGILL"), (8, "SIGFPE"), (13, "SIGPIPE")]

/-- `"signal %d (%s), address is %p from %p\n"` -/
def signalLine (crash : Crash) : List UInt8 :=
  ascii "signal " ++ ascii (toString crash.signum) ++ ascii " (" ++ crash.strsignal.1 ++
    ascii "), address is " ++ pointer crash.siAddr ++ ascii " from " ++
    pointer crash.callerAddress ++ ascii "\n"

/-- `"Caught signal %d (%s)\n"`, or `"Caught signal %d\n"` -/
def caughtLine (crash : Crash) : List UInt8 :=
  ascii "Caught signal " ++ ascii (toString crash.signum) ++
    match signalNames.lookup crash.signum with
    | some name => ascii " (" ++ ascii name ++ ascii ")\n"
    | none => ascii "\n"

/-- The loop over `symbollist`, which ends at a null pointer. -/
def symbolLines : List (Option Str) → List UInt8
  | [] => []
  | none :: _ => []
  | some symbol :: rest => symbol.1 ++ (ascii "\n" ++ symbolLines rest)

/-- `backtrace_symbols`; that it finds no memory is not modelled. -/
abbrev BacktraceSymbols := List Nat → List (Option Str)

/-- All that is printed to the log: the stack a second time, with the address of the caller. -/
def dump (backtraceSymbols : BacktraceSymbols) (crash : Crash) : List UInt8 :=
  signalLine crash ++ caughtLine crash ++
    if crash.addrlist.1 = [] then []
    else
      symbolLines (backtraceSymbols crash.addrlist.1) ++
        symbolLines (backtraceSymbols (crash.addrlist.1.set 1 crash.callerAddress)) ++
        ascii "\n\n"

/-- `get_log_file_size`, whose size is an `unsigned int`; `log` is the file, if there is one. -/
def getLogFileSize (opens : Bool) (log : Option (List UInt8)) : Nat :=
  match opens, log with
  | true, some content => content.length % 2 ^ 32
  | _, _ => 0

inductive Callback where
  /-- `stackdump_abort_base_callback` -/
  | base
  /-- `stackdump_abort_callback` -/
  | set
  deriving DecidableEq

/-- How the handler is left. -/
inductive Ending where
  | returns
  | exits (called : List Callback) (status : Nat)
  deriving DecidableEq

/-- The log in which the dump is printed. -/
def logBefore (crash : Crash) (log : Option (List UInt8)) : Option (List UInt8) :=
  if getLogFileSize crash.sizeOpens log > sizeStackdump ∧ crash.removes then none else log

/-- `stackdump_abortHandler` -/
def stackdumpAbortHandler (backtraceSymbols : BacktraceSymbols) (crash : Crash)
    (log : Option (List UInt8)) : Option (List UInt8) × Ending :=
  let log := logBefore crash log
  let log :=
    if crash.dumpOpens then some (log.getD [] ++ dump backtraceSymbols crash) else log
  if crash.addrlist.1 = [] then (log, .returns)
  else
    (log, .exits ((if crash.baseCallback then [.base] else []) ++
      if crash.callback then [.set] else []) crash.signum)

/-- The log after one crash after the other. -/
def logAfter (backtraceSymbols : BacktraceSymbols) (crashes : List Crash)
    (log : Option (List UInt8)) : Option (List UInt8) :=
  crashes.foldl (fun log crash => (stackdumpAbortHandler backtraceSymbols crash log).1) log

/-! ## What is kept -/

/-- The log holds what came in since it was removed last, and was removed only when it held more
than it should. -/
def Rotated (entries : List (List UInt8)) (content : List UInt8) : Prop :=
  ∃ (removed : List (List (List UInt8))) (kept : List (List UInt8)),
    entries = removed.flatten ++ kept ∧ content = kept.flatten ∧
      ∀ generation ∈ removed, sizeStackdump < generation.flatten.length

/-- The dumps that the crashes have printed. -/
def dumps (backtraceSymbols : BacktraceSymbols) (crashes : List Crash) : List (List UInt8) :=
  (crashes.filter Crash.dumpOpens).map (dump backtraceSymbols)

section

variable {backtraceSymbols : BacktraceSymbols} {crash : Crash} {crashes : List Crash}
  {log : Option (List UInt8)} {entries : List (List UInt8)} {content entry : List UInt8}
  {longest : Nat}

theorem Rotated.append (hrotated : Rotated entries content) (entry : List UInt8) :
    Rotated (entries ++ [entry]) (content ++ entry) := by
  obtain ⟨removed, kept, rfl, rfl, hlarge⟩ := hrotated
  refine ⟨removed, kept ++ [entry], List.append_assoc _ _ _, ?_, hlarge⟩
  rw [List.flatten_append, List.flatten_singleton]

theorem Rotated.remove (hrotated : Rotated entries content)
    (hsize : sizeStackdump < content.length) : Rotated entries [] := by
  obtain ⟨removed, kept, rfl, rfl, hlarge⟩ := hrotated
  refine ⟨removed ++ [kept], [], ?_, rfl, fun generation hmem => ?_⟩
  · rw [List.flatten_append, List.flatten_singleton, List.append_nil]
  · rcases List.mem_append.mp hmem with hold | hnew
    · exact hlarge generation hold
    · rwa [List.mem_singleton.mp hnew]

theorem lt_length_of_getLogFileSize {opens : Bool}
    (hsize : getLogFileSize opens log > sizeStackdump) : sizeStackdump < (log.getD []).length := by
  unfold getLogFileSize at hsize
  split at hsize
  · exact Nat.lt_of_lt_of_le hsize (Nat.mod_le _ _)
  · cases hsize

theorem Rotated.logBefore (hrotated : Rotated entries (log.getD [])) (crash : Crash) :
    Rotated entries ((logBefore crash log).getD []) := by
  unfold StackDump.logBefore
  split
  · rename_i hremoved
    exact hrotated.remove (lt_length_of_getLogFileSize hremoved.1)
  · exact hrotated

/-- The log that a crash leaves. -/
theorem handler_log (crash : Crash) (log : Option (List UInt8)) :
    (stackdumpAbortHandler backtraceSymbols crash log).1 =
      if crash.dumpOpens then some ((logBefore crash log).getD [] ++ dump backtraceSymbols crash)
      else logBefore crash log := by
  unfold stackdumpAbortHandler
  dsimp only
  split <;> rfl

theorem Rotated.handler (hrotated : Rotated entries (log.getD [])) (crash : Crash) :
    Rotated (entries ++ dumps backtraceSymbols [crash])
      ((stackdumpAbortHandler backtraceSymbols crash log).1.getD []) := by
  rw [handler_log, dumps]
  cases hopens : crash.dumpOpens with
  | false =>
      have hnone : [crash].filter Crash.dumpOpens = [] := by
        rw [List.filter_cons_of_neg (by rw [hopens]; decide), List.filter_nil]
      rw [hnone, List.map_nil, List.append_nil]
      exact hrotated.logBefore crash
  | true =>
      have hone : [crash].filter Crash.dumpOpens = [crash] := by
        rw [List.filter_cons_of_pos hopens, List.filter_nil]
      rw [hone]
      exact (hrotated.logBefore crash).append (dump backtraceSymbols crash)

theorem rotated_logAfter (hrotated : Rotated entries (log.getD [])) (crashes : List Crash) :
    Rotated (entries ++ dumps backtraceSymbols crashes)
      ((logAfter backtraceSymbols crashes log).getD []) := by
  induction crashes generalizing entries log with
  | nil =>
      rw [dumps, List.filter_nil, List.map_nil, List.append_nil]
      exact hrotated
  | cons crash crashes ih =>
      have hsplit : dumps backtraceSymbols (crash :: crashes) =
          dumps backtraceSymbols [crash] ++ dumps backtraceSymbols crashes := by
        rw [dumps, dumps, dumps, ← List.map_append, ← List.filter_append, List.singleton_append]
      rw [hsplit, ← List.append_assoc]
      exact ih (hrotated.handler crash)

/-! ## How large the log gets -/

/-- Crashes whose `fopen` and `remove` succeed, with dumps of up to `longest` bytes. -/
def Answered (backtraceSymbols : BacktraceSymbols) (longest : Nat) (crash : Crash) : Prop :=
  crash.sizeOpens = true ∧ crash.removes = true ∧
    (dump backtraceSymbols crash).length ≤ longest

theorem getLogFileSize_of_lt (hlog : (log.getD []).length < 2 ^ 32) :
    getLogFileSize true log = (log.getD []).length := by
  cases log with
  | none => rfl
  | some content => exact Nat.mod_eq_of_lt hlog

theorem length_logBefore_le (hsize : crash.sizeOpens = true) (hremoves : crash.removes = true)
    (hlog : (log.getD []).length < 2 ^ 32) :
    ((logBefore crash log).getD []).length ≤ sizeStackdump := by
  unfold logBefore
  rw [hsize, getLogFileSize_of_lt hlog]
  split
  · exact Nat.zero_le _
  · rename_i hkept
    exact Nat.le_of_not_lt fun hlarge => hkept ⟨hlarge, hremoves⟩

theorem length_handler_le (hcrash : Answered backtraceSymbols longest crash)
    (hlog : (log.getD []).length < 2 ^ 32) :
    ((stackdumpAbortHandler backtraceSymbols crash log).1.getD []).length ≤
      sizeStackdump + longest := by
  obtain ⟨hsize, hremoves, hdump⟩ := hcrash
  have hbefore := length_logBefore_le hsize hremoves hlog
  rw [handler_log]
  split
  · rw [Option.getD_some, List.length_append]
    exact Nat.add_le_add hbefore hdump
  · exact Nat.le_trans hbefore (Nat.le_add_right _ _)

theorem length_logAfter_le (hfits : sizeStackdump + longest < 2 ^ 32)
    (hcrashes : ∀ crash ∈ crashes, Answered backtraceSymbols longest crash)
    (hlog : (log.getD []).length ≤ sizeStackdump + longest) :
    ((logAfter backtraceSymbols crashes log).getD []).length ≤ sizeStackdump + longest := by
  induction crashes generalizing log with
  | nil => exact hlog
  | cons crash crashes ih =>
      obtain ⟨hcrash, hcrashes⟩ := List.forall_mem_cons.mp hcrashes
      exact ih hcrashes (length_handler_le hcrash (Nat.lt_of_le_of_lt hlog hfits))

end

/--
After any crashes the log holds the last dumps as a whole, and each time it was removed it held
more than `SIZE_STACKDUMP`.  Where the size is always found and the file then removed, the log is
never longer than that and one dump.
-/
theorem crashes_log (backtraceSymbols : BacktraceSymbols) (crashes : List Crash)
    (log : Option (List UInt8)) :
    Rotated (log.getD [] :: dumps backtraceSymbols crashes)
        ((logAfter backtraceSymbols crashes log).getD []) ∧
      ∀ longest, sizeStackdump + longest < 2 ^ 32 →
        (∀ crash ∈ crashes, Answered backtraceSymbols longest crash) →
        (log.getD []).length ≤ sizeStackdump + longest →
        ((logAfter backtraceSymbols crashes log).getD []).length ≤ sizeStackdump + longest := by
  have hstart : Rotated [log.getD []] (log.getD []) := by
    refine ⟨[], [log.getD []], rfl, List.flatten_singleton.symm, fun generation hmem => ?_⟩
    cases hmem
  exact ⟨rotated_logAfter hstart crashes, fun longest hfits hcrashes hlog =>
    length_logAfter_le hfits hcrashes hlog⟩

end MdsFormal.Mon.StackDump
