import MdsFormal.Library.Scan

/-!
# Looking for a process by name

The scan of `/proc` in `_mds_api_proc_find`.  The directory is the list of its
entries' names in the order in which `readdir` gives them; a stat file is what
`fopen` finds under the number of an entry.
-/

namespace MdsFormal.Process.ProcFind

open Library.Scan

/-- The source's `MAX_PROCESS_NAME_LEN`. -/
def maxProcessNameLen : Nat := 15

/-- `_process_name_fix`: what is written to the array whose address is returned.  The array
is local, so that the address is of no use to the caller. -/
def processNameFix (srcName : List Char) : List Char := srcName.take maxProcessNameLen

/-- What the caller reads through that address after the call, given what was written there.
The language says nothing about it: the name may still be there, or some other text, and the
text "(null)" is what `sprintf` prints where the compiler returns no address at all. -/
abbrev ReadDead := List Char → List Char

/-- What the four conversions of the stat line store. -/
structure StatLine where
  pid : Int
  pname : List Char
  state : Char
  ppid : Int
  deriving DecidableEq

/-- `fscanf` with "%ld (%[^)]) %c %ld", when it makes all four conversions. -/
def scanStat (content : List Char) : Option StatLine := do
  let (pid, rest) ← scanLong content
  let rest ← scanLiteral '(' (skipSpace rest)
  let (pname, rest) ← scanUntil ')' rest
  let rest ← scanLiteral ')' rest
  let (state, rest) ← scanChar (skipSpace rest)
  let (ppid, _) ← scanLong (skipSpace rest)
  return ⟨pid, pname, state, ppid⟩

/-- What the search does to other processes. -/
inductive Action where
  | waitpid (pid : Int)
  | kill (pid : Int)
  deriving DecidableEq

/-- What is done about a zombie before the search gives up. -/
def reap (zombiecnt pidMon : Int) (line : StatLine) : List Action :=
  if zombiecnt ≥ 3 ∧ pidMon ≠ line.ppid ∧ 1 ≠ line.ppid then
    [.waitpid line.pid, .kill line.ppid, .waitpid line.ppid]
  else [.waitpid line.pid]

/-- The stat file of each process number; `none` when it cannot be opened. -/
abbrev StatFiles := Int → Option (List Char)

/-- The loop over the directory, with `num_thread` and `isfounded` as they stand. -/
def findLoop (fixName : List Char) (statFiles : StatFiles) (zombiecnt pidMon : Int) :
    List (List Char) → Int → Bool → Int × List Action
  | [], numThread, isfounded => (if isfounded then numThread else -1, [])
  | entry :: rest, numThread, isfounded =>
      if atol entry ≤ 0 then
        findLoop fixName statFiles zombiecnt pidMon rest numThread isfounded
      else
        match statFiles (atol entry) with
        | none => findLoop fixName statFiles zombiecnt pidMon rest numThread isfounded
        | some content =>
            match scanStat content with
            | none => (-1, [])
            | some line =>
                if line.pname = fixName then
                  if line.state = 'Z' then (-2, reap zombiecnt pidMon line)
                  else findLoop fixName statFiles zombiecnt pidMon rest (numThread + 1) true
                else findLoop fixName statFiles zombiecnt pidMon rest numThread isfounded

/-- `_mds_api_proc_find`; `none` for the directory when `/proc` cannot be opened. -/
def mdsApiProcFind (readDead : ReadDead) (name : List Char)
    (procDir : Option (List (List Char))) (statFiles : StatFiles) (zombiecnt pidMon : Int) :
    Int × List Action :=
  let fixName := readDead (processNameFix name)
  match procDir with
  | none => (-1, [])
  | some entries => findLoop fixName statFiles zombiecnt pidMon entries 0 false

/-! ## The stat line -/

/-- No name that the pattern reads has a closing parenthesis in it. -/
theorem notMem_of_scanStat {content : List Char} {line : StatLine}
    (hscan : scanStat content = some line) : ')' ∉ line.pname := by
  simp only [scanStat, Option.bind_eq_bind, Option.bind_eq_some_iff, Option.pure_def] at hscan
  obtain ⟨_, _, _, _, ⟨pname, rest⟩, hname, _, _, _, _, _, _, hline⟩ := hscan
  cases hline
  exact notMem_of_scanUntil hname

/-- The line `pid (comm) state ppid ...`. -/
def statText (pid : Nat) (comm : List Char) (state : Char) (ppid : Nat) (more : List Char) :
    List Char :=
  Nat.toDigits 10 pid ++ (' ' :: '(' :: (comm ++
    (')' :: ' ' :: state :: ' ' :: (Nat.toDigits 10 ppid ++ ' ' :: more))))

/-- White space in the format takes the one blank before a character that is none. -/
theorem skipSpace_blank {c : Char} (hc : isSpace c = false) (rest : List Char) :
    skipSpace (' ' :: c :: rest) = c :: rest := by
  have hblank : isSpace ' ' = true := by decide
  simp [skipSpace, hc, hblank]

theorem skipSpace_toDigits (n : Nat) (rest : List Char) :
    skipSpace (' ' :: (Nat.toDigits 10 n ++ rest)) = Nat.toDigits 10 n ++ rest := by
  cases hcons : Nat.toDigits 10 n with
  | nil => exact absurd hcons Nat.toDigits_ne_nil
  | cons digit more =>
      have hdigit : digit.isDigit = true :=
        Nat.isDigit_of_mem_toDigits (by decide) (Nat.le_refl 10) (hcons ▸ List.mem_cons_self)
      exact skipSpace_blank (isDigit_plain hdigit).1 (more ++ rest)

/-- The line of a command without a closing parenthesis is read back. -/
theorem scanStat_statText (pid ppid : Nat) {comm : List Char} (hne : comm ≠ [])
    (hparen : ')' ∉ comm) {state : Char} (hstate : isSpace state = false) (more : List Char) :
    scanStat (statText pid comm state ppid more) = some ⟨pid, comm, state, ppid⟩ := by
  have hblank : ∀ rest : List Char, ∀ c ∈ (' ' :: rest).head?, c.isDigit = false := by
    rintro rest _ ⟨⟩
    decide
  have hopen : isSpace '(' = false := by decide
  simp only [scanStat, statText, scanLong_toDigits pid (hblank _), skipSpace_blank hopen,
    scanLiteral, if_true, scanUntil_append hne hparen, skipSpace_blank hstate, scanChar,
    skipSpace_toDigits, scanLong_toDigits ppid (hblank _), Option.bind_eq_bind, Option.bind_some,
    Option.pure_def]

end MdsFormal.Process.ProcFind
