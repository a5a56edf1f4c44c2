import Mathlib.Data.List.Nodup
import MdsFormal.Process.ProcFind

/-!
# The process table and the search

What `_mds_api_proc_find` is for is stated over the process table itself: whether a
process with the name is a zombie, and otherwise how many processes have the name.
The search reads the table through the text of the stat files, and looks for what it
reads from an array that is gone.  It gives the answer about a name where the process
at which it is over allows for that.
-/

namespace MdsFormal.Process

open Library.Scan ProcFind

/-- A process as `/proc` shows it. -/
structure Proc where
  pid : Nat
  comm : List Char
  state : Char
  ppid : Nat
  /-- What follows the parent in the stat file. -/
  more : List Char
  pid_pos : 0 < pid
  comm_ne : comm ≠ []
  comm_le : comm.length ≤ maxProcessNameLen
  comm_string : '\x00' ∉ comm
  state_letter : state.isAlpha = true

/-- The process's stat file. -/
def Proc.stat (proc : Proc) : List Char :=
  statText proc.pid proc.comm proc.state proc.ppid proc.more

theorem Proc.pid_not_le (proc : Proc) : ¬ ((proc.pid : Int) ≤ 0) := by
  have := proc.pid_pos
  omega

/-- An entry of `/proc`: a process, or a name that does not start with a positive number. -/
inductive DirEntry where
  | process (proc : Proc)
  | other (name : List Char) (noPid : atol name ≤ 0)

namespace DirEntry

/-- The source's `ent->d_name`. -/
def dName : DirEntry → List Char
  | process proc => Nat.toDigits 10 proc.pid
  | other name _ => name

def proc? : DirEntry → Option Proc
  | process proc => some proc
  | other _ _ => none

end DirEntry

/-- `/proc` in the order in which `readdir` gives it; every process is there once. -/
structure ProcTable where
  entries : List DirEntry
  pids_nodup : ((entries.filterMap DirEntry.proc?).map Proc.pid).Nodup

/-! ## The answer -/

/-- A process with this name is a zombie. -/
def HasZombie (name : List Char) (processes : List Proc) : Prop :=
  ∃ proc ∈ processes, proc.comm = name ∧ proc.state = 'Z'

instance (name : List Char) (processes : List Proc) : Decidable (HasZombie name processes) :=
  inferInstanceAs (Decidable (∃ proc ∈ processes, proc.comm = name ∧ proc.state = 'Z'))

/-- How many processes have this name. -/
def named (name : List Char) (processes : List Proc) : Nat :=
  processes.countP fun proc => proc.comm = name

/-- The number of processes that were found, -1 for none. -/
def counted (n : Nat) : Int := if 0 < n then n else -1

/-- What the search is for: -2 when a process with the name is a zombie, else how many
there are, else -1. -/
def answerOn (name : List Char) (processes : List Proc) : Int :=
  if HasZombie name processes then -2 else counted (named name processes)

theorem counted_inj {m n : Nat} : counted m = counted n ↔ m = n := by
  unfold counted
  split <;> split <;> omega

theorem counted_ne (n : Nat) : counted n ≠ -2 := by
  unfold counted
  split <;> omega

section Answer

variable {name : List Char} {processes : List Proc}

theorem named_pos (hzombie : HasZombie name processes) : 0 < named name processes := by
  obtain ⟨proc, hproc, hname, -⟩ := hzombie
  exact List.countP_pos_iff.mpr ⟨proc, hproc, decide_eq_true hname⟩

theorem answerOn_zombie_iff : answerOn name processes = -2 ↔ HasZombie name processes := by
  unfold answerOn
  split
  · rename_i hzombie
    exact iff_of_true rfl hzombie
  · rename_i hnone
    exact iff_of_false (counted_ne _) hnone

theorem answerOn_counted_iff {n : Nat} :
    answerOn name processes = counted n ↔
      ¬ HasZombie name processes ∧ named name processes = n := by
  unfold answerOn
  split
  · rename_i hzombie
    exact iff_of_false (counted_ne n).symm fun hcount => hcount.1 hzombie
  · rename_i hnone
    rw [counted_inj, and_iff_right hnone]

/-- The answer is -1 for exactly the names that no process has. -/
theorem answerOn_missing_iff :
    answerOn name processes = -1 ↔ ∀ proc ∈ processes, proc.comm ≠ name := by
  have hzero : named name processes = 0 ↔ ∀ proc ∈ processes, proc.comm ≠ name := by
    simp only [named, List.countP_eq_zero, decide_eq_true_eq, ne_eq]
  have hmissing : counted 0 = -1 := rfl
  rw [← hmissing, answerOn_counted_iff, hzero]
  refine and_iff_right_of_imp fun hnone hzombie => ?_
  have hpos := named_pos hzombie
  rw [hzero.mpr hnone] at hpos
  exact absurd hpos (Nat.lt_irrefl 0)

end Answer

/-! ## What is read of a process -/

/-- The process counts as one with the name `fixName`. -/
def Proc.readAs (fixName : List Char) (proc : Proc) : Bool :=
  (scanStat proc.stat).any fun line => line.pname = fixName

/-- The search for `fixName` is over at this process: its line is not read, or it is read as
the line of a zombie with the name. -/
def Proc.ends (fixName : List Char) (proc : Proc) : Bool :=
  (scanStat proc.stat).all fun line => line.pname = fixName ∧ line.state = 'Z'

/-- What the search returns, by the first process at which it is over.  `seen` processes with
the name came before. -/
def searchFrom (fixName : List Char) (seen : Nat) (processes : List Proc) : Int :=
  match processes.find? (Proc.ends fixName) with
  | none => counted (seen + processes.countP (Proc.readAs fixName))
  | some proc => if (scanStat proc.stat).isSome then -2 else -1

/-- What makes a search for `fixName` right about `name`.  Where it is over at a line that is not
read, no process has the name; where it is over at the line of a zombie, a process with the name
is one; where it comes to the end, none is, and the lines that are read with `fixName` are as
many as the processes with the name. -/
def RightAbout (fixName name : List Char) (processes : List Proc) : Prop :=
  match processes.find? (Proc.ends fixName) with
  | none =>
      ¬ HasZombie name processes ∧
        named name processes = processes.countP (Proc.readAs fixName)
  | some proc =>
      if (scanStat proc.stat).isSome then HasZombie name processes
      else ∀ proc ∈ processes, proc.comm ≠ name

theorem searchFrom_answer_iff (fixName name : List Char) (processes : List Proc) :
    searchFrom fixName 0 processes = answerOn name processes ↔
      RightAbout fixName name processes := by
  rw [eq_comm, searchFrom, RightAbout]
  cases processes.find? (Proc.ends fixName) with
  | none =>
      dsimp only
      rw [answerOn_counted_iff, Nat.zero_add]
  | some proc =>
      dsimp only
      split
      · exact answerOn_zombie_iff
      · exact answerOn_missing_iff

section Step

variable {fixName : List Char} {proc : Proc} {seen : Nat} {rest : List Proc}

theorem searchFrom_unread (hscan : scanStat proc.stat = none) :
    searchFrom fixName seen (proc :: rest) = -1 := by
  have hends : proc.ends fixName = true := by rw [Proc.ends, hscan, Option.all_none]
  rw [searchFrom, List.find?_cons_of_pos hends]
  dsimp only
  rw [hscan]
  rfl

variable {line : StatLine}

theorem searchFrom_zombie (hscan : scanStat proc.stat = some line) (hname : line.pname = fixName)
    (hzombie : line.state = 'Z') : searchFrom fixName seen (proc :: rest) = -2 := by
  have hends : proc.ends fixName = true := by
    rw [Proc.ends, hscan, Option.all_some]
    exact decide_eq_true ⟨hname, hzombie⟩
  rw [searchFrom, List.find?_cons_of_pos hends]
  dsimp only
  rw [hscan]
  rfl

theorem searchFrom_named (hscan : scanStat proc.stat = some line) (hname : line.pname = fixName)
    (halive : line.state ≠ 'Z') :
    searchFrom fixName seen (proc :: rest) = searchFrom fixName (seen + 1) rest := by
  have hends : ¬ proc.ends fixName = true := by
    rw [Proc.ends, hscan, Option.all_some]
    exact fun hboth => halive (of_decide_eq_true hboth).2
  have hread : proc.readAs fixName = true := by
    rw [Proc.readAs, hscan, Option.any_some]
    exact decide_eq_true hname
  rw [searchFrom, searchFrom, List.find?_cons_of_neg hends, List.countP_cons_of_pos hread,
    Nat.add_assoc, Nat.add_comm 1]

theorem searchFrom_unnamed (hscan : scanStat proc.stat = some line)
    (hname : line.pname ≠ fixName) :
    searchFrom fixName seen (proc :: rest) = searchFrom fixName seen rest := by
  have hends : ¬ proc.ends fixName = true := by
    rw [Proc.ends, hscan, Option.all_some]
    exact fun hboth => hname (of_decide_eq_true hboth).1
  have hread : ¬ proc.readAs fixName = true := by
    rw [Proc.readAs, hscan, Option.any_some]
    exact fun hsame => hname (of_decide_eq_true hsame)
  rw [searchFrom, searchFrom, List.find?_cons_of_neg hends, List.countP_cons_of_neg hread]

end Step

namespace ProcTable

def processes (table : ProcTable) : List Proc := table.entries.filterMap DirEntry.proc?

def directory (table : ProcTable) : List (List Char) := table.entries.map DirEntry.dName

def statFiles (table : ProcTable) : StatFiles := fun pid =>
  (table.processes.find? fun proc => (proc.pid : Int) = pid).map Proc.stat

/-- What a search for `name` should say about the table. -/
def answer (table : ProcTable) (name : List Char) : Int :=
  answerOn (processNameFix name) table.processes

/-- The search on the table, by what the build reads from the dead array, the zombie counter
and the caller's own number. -/
def search (table : ProcTable) (readDead : ReadDead) (name : List Char) (zombiecnt pidMon : Int) :
    Int :=
  (mdsApiProcFind readDead name (some table.directory) table.statFiles zombiecnt pidMon).1

/-- The stat file under a process's number is that process's. -/
theorem statFiles_pid (table : ProcTable) {proc : Proc} (hproc : proc ∈ table.processes) :
    table.statFiles proc.pid = some proc.stat := by
  have hfound : (table.processes.find? fun p => (p.pid : Int) = proc.pid).isSome :=
    List.find?_isSome.mpr ⟨proc, hproc, decide_eq_true rfl⟩
  obtain ⟨found, hfind⟩ := Option.isSome_iff_exists.mp hfound
  have hpid : found.pid = proc.pid :=
    Int.ofNat_inj.mp (by simpa only [decide_eq_true_eq] using List.find?_some hfind)
  have hsame : found = proc :=
    List.inj_on_of_nodup_map table.pids_nodup (List.mem_of_find?_eq_some hfind) hproc hpid
  rw [statFiles, hfind, hsame]
  rfl

end ProcTable

/-! ## The run of the loop -/

/-- A letter is not white space. -/
theorem isSpace_of_isAlpha {c : Char} (hletter : c.isAlpha = true) : isSpace c = false := by
  have hlow : 65 ≤ c.toNat := by
    rcases Bool.or_eq_true_iff.mp hletter with hupper | hlower
    · exact UInt32.le_iff_toNat_le.mp (of_decide_eq_true hupper).1
    · have hrange := Bool.and_eq_true_iff.mp hlower
      exact Nat.le_trans (by decide) (UInt32.le_iff_toNat_le.mp (of_decide_eq_true hrange.1))
  have hblank : c ≠ ' ' := by
    rintro rfl
    exact absurd hlow (by decide)
  simp only [isSpace, hblank, decide_false, Bool.false_or, Bool.and_eq_false_iff,
    decide_eq_false_iff_not]
  omega

/-- A process whose name has no closing parenthesis is read as it is. -/
theorem Proc.scanStat_stat (proc : Proc) (hparen : ')' ∉ proc.comm) :
    scanStat proc.stat = some ⟨proc.pid, proc.comm, proc.state, proc.ppid⟩ :=
  scanStat_statText proc.pid proc.ppid proc.comm_ne hparen
    (isSpace_of_isAlpha proc.state_letter) proc.more

theorem Proc.readAs_plain {proc : Proc} (hparen : ')' ∉ proc.comm) (fixName : List Char) :
    proc.readAs fixName = decide (proc.comm = fixName) := by
  rw [Proc.readAs, proc.scanStat_stat hparen, Option.any_some]

theorem Proc.ends_plain {proc : Proc} (hparen : ')' ∉ proc.comm) (fixName : List Char) :
    proc.ends fixName = decide (proc.comm = fixName ∧ proc.state = 'Z') := by
  rw [Proc.ends, proc.scanStat_stat hparen, Option.all_some]

/-- A search for a name is right about it where every process is read as it is. -/
theorem rightAbout_plain {processes : List Proc} (hparen : ∀ proc ∈ processes, ')' ∉ proc.comm)
    (name : List Char) : RightAbout name name processes := by
  unfold RightAbout
  cases hfind : processes.find? (Proc.ends name) with
  | none =>
      refine ⟨?_, List.countP_congr fun proc hproc => ?_⟩
      · rintro ⟨proc, hproc, hzombie⟩
        refine List.find?_eq_none.mp hfind proc hproc ?_
        rw [Proc.ends_plain (hparen proc hproc)]
        exact decide_eq_true hzombie
      · rw [Proc.readAs_plain (hparen proc hproc)]
  | some proc =>
      have hproc : proc ∈ processes := List.mem_of_find?_eq_some hfind
      have hends : proc.ends name = true := List.find?_some hfind
      dsimp only
      rw [proc.scanStat_stat (hparen proc hproc), Option.isSome_some, if_pos rfl]
      rw [Proc.ends_plain (hparen proc hproc)] at hends
      exact ⟨proc, hproc, of_decide_eq_true hends⟩

section Loop

variable (fixName : List Char) (statFiles : StatFiles) (zombiecnt pidMon : Int)

/-- One turn of the loop at an entry that is no process. -/
theorem findLoop_other {name : List Char} (noPid : atol name ≤ 0) (rest : List (List Char))
    (numThread : Int) (isfounded : Bool) :
    findLoop fixName statFiles zombiecnt pidMon (name :: rest) numThread isfounded =
      findLoop fixName statFiles zombiecnt pidMon rest numThread isfounded := by
  rw [findLoop, if_pos noPid]

/-- One turn of the loop at a process whose line is not read. -/
theorem findLoop_unread {statFiles : StatFiles} {proc : Proc}
    (hstat : statFiles proc.pid = some proc.stat) (hscan : scanStat proc.stat = none)
    (rest : List (List Char)) (numThread : Int) (isfounded : Bool) :
    findLoop fixName statFiles zombiecnt pidMon (Nat.toDigits 10 proc.pid :: rest)
      numThread isfounded = (-1, []) := by
  rw [findLoop, atol_toDigits, if_neg proc.pid_not_le, hstat]
  dsimp only
  rw [hscan]

/-- One turn of the loop at a process whose line is read. -/
theorem findLoop_read {statFiles : StatFiles} {proc : Proc} {line : StatLine}
    (hstat : statFiles proc.pid = some proc.stat) (hscan : scanStat proc.stat = some line)
    (rest : List (List Char)) (numThread : Int) (isfounded : Bool) :
    findLoop fixName statFiles zombiecnt pidMon (Nat.toDigits 10 proc.pid :: rest)
        numThread isfounded =
      if line.pname = fixName then
        if line.state = 'Z' then (-2, reap zombiecnt pidMon line)
        else findLoop fixName statFiles zombiecnt pidMon rest (numThread + 1) true
      else findLoop fixName statFiles zombiecnt pidMon rest numThread isfounded := by
  rw [findLoop, atol_toDigits, if_neg proc.pid_not_le, hstat]
  dsimp only
  rw [hscan]

/-- The loop over entries returns what the first process says at which the search is over. -/
theorem findLoop_entries {statFiles : StatFiles} (entries : List DirEntry)
    (hstat : ∀ proc ∈ entries.filterMap DirEntry.proc?, statFiles proc.pid = some proc.stat)
    (seen : Nat) :
    (findLoop fixName statFiles zombiecnt pidMon (entries.map DirEntry.dName) seen
        (decide (0 < seen))).1 =
      searchFrom fixName seen (entries.filterMap DirEntry.proc?) := by
  induction entries generalizing seen with
  | nil =>
      rcases Nat.eq_zero_or_pos seen with rfl | hpos
      · rfl
      · simp [findLoop, searchFrom, counted, hpos]
  | cons entry rest ih =>
      cases entry with
      | other name noPid =>
          simp only [List.map_cons, DirEntry.dName, findLoop_other _ _ _ _ noPid]
          exact ih hstat seen
      | process proc =>
          have hcons : (DirEntry.process proc :: rest).filterMap DirEntry.proc? =
              proc :: rest.filterMap DirEntry.proc? := rfl
          rw [hcons] at hstat ⊢
          obtain ⟨hread, hstat⟩ := List.forall_mem_cons.mp hstat
          rw [List.map_cons, DirEntry.dName]
          cases hscan : scanStat proc.stat with
          | none => rw [findLoop_unread _ _ _ hread hscan, searchFrom_unread hscan]
          | some line =>
              rw [findLoop_read _ _ _ hread hscan]
              rcases eq_or_ne line.pname fixName with hname | hname
              · rw [if_pos hname]
                rcases eq_or_ne line.state 'Z' with hzombie | halive
                · rw [if_pos hzombie, searchFrom_zombie hscan hname hzombie]
                · rw [if_neg halive, searchFrom_named hscan hname halive,
                    ← ih hstat (seen + 1), decide_eq_true (Nat.succ_pos seen), Int.natCast_succ]
              · rw [if_neg hname, searchFrom_unnamed hscan hname]
                exact ih hstat seen

/-- A name with a closing parenthesis is never found, whatever the stat files say. -/
theorem findLoop_paren (hparen : ')' ∈ fixName) (entries : List (List Char))
    (numThread : Int) :
    findLoop fixName statFiles zombiecnt pidMon entries numThread false = (-1, []) := by
  induction entries with
  | nil => rfl
  | cons entry rest ih =>
      rw [findLoop, ih]
      split
      · rfl
      · split
        · rfl
        · split
          · rfl
          · rename_i line hscan
            have hname : line.pname ≠ fixName := by
              rintro rfl
              exact notMem_of_scanStat hscan hparen
            rw [if_neg hname]

end Loop

namespace ProcTable

theorem search_eq (table : ProcTable) (readDead : ReadDead) (name : List Char)
    (zombiecnt pidMon : Int) :
    table.search readDead name zombiecnt pidMon =
      searchFrom (readDead (processNameFix name)) 0 table.processes :=
  findLoop_entries _ zombiecnt pidMon table.entries (fun _ => table.statFiles_pid) 0

/-- The search gives the answer, for this table and this name, exactly when what is read from
the dead array makes it right about the name that was written there. -/
theorem search_answer_iff (table : ProcTable) (readDead : ReadDead) (name : List Char)
    (zombiecnt pidMon : Int) :
    table.search readDead name zombiecnt pidMon = table.answer name ↔
      RightAbout (readDead (processNameFix name)) (processNameFix name) table.processes := by
  rw [search_eq, answer, searchFrom_answer_iff]

/-- Its stat line is not read to the end. -/
def parenProc : Proc :=
  ⟨5, ['a', ')', 'b'], 'S', 1, [], by decide, by decide, by decide, by decide, by decide⟩

def logdProc : Proc :=
  ⟨12, ['l', 'o', 'g', 'd'], 'S', 1, [], by decide, by decide, by decide, by decide, by decide⟩

/-- Two processes, `a)b` before `logd`. -/
def parenTable : ProcTable := ⟨[.process parenProc, .process logdProc], by decide⟩

/-- `logd` runs, but the search for it stops at the stat line of `a)b`, whatever is read from
the dead array. -/
theorem parenTable_not_answered :
    (∀ readDead, ¬ ∀ (table : ProcTable) (name : List Char) (zombiecnt pidMon : Int),
      table.search readDead name zombiecnt pidMon = table.answer name) ∧
    (∀ readDead, parenTable.search readDead ['l', 'o', 'g', 'd'] 0 1 = -1) ∧
    parenTable.answer ['l', 'o', 'g', 'd'] = 1 := by
  have hscan : scanStat parenProc.stat = none := by decide +kernel
  have hsearch (readDead : ReadDead) : parenTable.search readDead ['l', 'o', 'g', 'd'] 0 1 = -1 :=
    (parenTable.search_eq readDead _ 0 1).trans (searchFrom_unread hscan)
  have hanswer : parenTable.answer ['l', 'o', 'g', 'd'] = 1 := by decide +kernel
  refine ⟨fun readDead hclaim => ?_, hsearch, hanswer⟩
  have hequal := hclaim parenTable ['l', 'o', 'g', 'd'] 0 1
  rw [hsearch, hanswer] at hequal
  exact absurd hequal (by decide)

/-! ## Two builds -/

/-- The text that is printed for no address. -/
def nullText : List Char := ['(', 'n', 'u', 'l', 'l', ')']

/-- Where the cut name is read back, the search is right for every name on exactly the tables
in which no command name has a closing parenthesis. -/
theorem search_back_iff (table : ProcTable) (zombiecnt pidMon : Int) :
    (∀ name, table.search id name zombiecnt pidMon = table.answer name) ↔
      ∀ proc ∈ table.processes, ')' ∉ proc.comm := by
  constructor
  · intro hright proc hproc hparen
    have hfix : processNameFix proc.comm = proc.comm := List.take_of_length_le proc.comm_le
    -- The search for this very process fails, though the process is there.
    have hsearch : table.search id proc.comm zombiecnt pidMon = -1 := by
      rw [search, mdsApiProcFind, hfix]
      exact congrArg Prod.fst (findLoop_paren _ _ _ _ hparen _ _)
    have hanswer : table.answer proc.comm = -1 := (hright proc.comm).symm.trans hsearch
    rw [answer, hfix] at hanswer
    exact answerOn_missing_iff.mp hanswer proc hproc rfl
  · intro hparen name
    rw [search_answer_iff]
    exact rightAbout_plain hparen _

/-- Where the compiler returns no address, the search is right about exactly the names that no
process has. -/
theorem search_null_iff (table : ProcTable) (name : List Char) (zombiecnt pidMon : Int) :
    table.search (fun _ => nullText) name zombiecnt pidMon = table.answer name ↔
      ∀ proc ∈ table.processes, proc.comm ≠ processNameFix name := by
  have hparen : ')' ∈ nullText := by decide
  have hsearch : table.search (fun _ => nullText) name zombiecnt pidMon = -1 :=
    congrArg Prod.fst (findLoop_paren _ _ _ _ hparen _ _)
  rw [hsearch, eq_comm]
  exact answerOn_missing_iff

/-- What the two builds make of a table: one answers every name until a command name has a
closing parenthesis, the other no name that a process has. -/
theorem search_builds_iff (table : ProcTable) (zombiecnt pidMon : Int) :
    ((∀ name, table.search id name zombiecnt pidMon = table.answer name) ↔
        ∀ proc ∈ table.processes, ')' ∉ proc.comm) ∧
      ∀ name, table.search (fun _ => nullText) name zombiecnt pidMon = table.answer name ↔
        ∀ proc ∈ table.processes, proc.comm ≠ processNameFix name :=
  ⟨table.search_back_iff zombiecnt pidMon,
    fun name => table.search_null_iff name zombiecnt pidMon⟩

end ProcTable

end MdsFormal.Process
