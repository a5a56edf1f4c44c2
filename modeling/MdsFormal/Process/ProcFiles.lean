import MdsFormal.Library.Lines
import MdsFormal.Library.Scan

/-!
# Reading `/proc/modules` and `/proc/meminfo`

Both functions of `proc.c` read a file through an array of 256 characters.  Lines that do not
fit are read in pieces, and a name across two of them is missed.
-/

namespace MdsFormal.Process.ProcFiles

open MdsFormal.Library.Lines
open MdsFormal.Library.Scan

/-! ## The code -/

/-- A text without NULs: the content of a file under `/proc`, or a string. -/
abbrev Text := { text : List Char // Char.ofNat 0 ∉ text }

/-- `fgets(line, sizeof(line), file)` with `char line[256]`: the line, and what is left. -/
def fgets (file : List Char) : Option (List Char × List Char) :=
  if file = [] then none
  else
    let line := piece '\n' 255 file
    some (line, file.drop line.length)

/-- The `while(fgets(...))` of both functions until one line gives the result; each line takes a
character at least. -/
def lineLoop {β : Type} (found : List Char → Option β) : Nat → List Char → Option β
  | 0, _ => none
  | fuel + 1, file =>
      match fgets file with
      | none => none
      | some (line, rest) =>
          match found line with
          | some result => some result
          | none => lineLoop found fuel rest

/-- `sscanf(line, "MemFree: %d kB", &ram) == 1`; numbers outside the range of an `int` are not
modelled. -/
def scanMemFree (line : List Char) : Option Int := do
  let rest ← scanLiterals "MemFree:".toList line
  let (ram, _) ← scanLong (skipSpace rest)
  return ram

/-- `mds_api_get_available_memory`; `none` when the file cannot be opened. -/
def mdsApiGetAvailableMemory (meminfo : Option Text) : Int :=
  match meminfo with
  | none => -1
  | some file => (lineLoop scanMemFree file.1.length file.1).getD (-1)

/-- `strstr(line, module_name) != NULL` -/
def strstrFound (moduleName line : List Char) : Option Unit :=
  if moduleName <:+: line then some () else none

/-- `mds_api_get_module_list` -/
def mdsApiGetModuleList (moduleName : Text) (moduleinfo : Option Text) : Int :=
  match moduleinfo with
  | none => -1
  | some file =>
      match lineLoop (strstrFound moduleName.1) file.1.length file.1 with
      | some () => 0
      | none => -1

/-! ## The loop -/

theorem lineLoop_eq {β : Type} (found : List Char → Option β) (fuel : Nat) (file : List Char) :
    lineLoop found fuel file = (piecesFrom '\n' 255 fuel file).findSome? found := by
  induction fuel generalizing file with
  | zero => rfl
  | succ fuel ih =>
      rw [lineLoop, fgets, piecesFrom]
      by_cases hend : file = []
      · rw [if_pos hend, if_pos hend]
        rfl
      · rw [if_neg hend, if_neg hend, List.findSome?_cons]
        dsimp only
        rw [ih]
        cases found (piece '\n' 255 file) <;> rfl

/-- The first piece of the file that gives a result. -/
theorem lineLoop_pieces {β : Type} (found : List Char → Option β) (file : List Char) :
    lineLoop found file.length file = (pieces '\n' 255 file).findSome? found :=
  lineLoop_eq found file.length file

/-! ## The list of the modules -/

theorem getModuleList_iff_piece (moduleName file : Text) :
    mdsApiGetModuleList moduleName (some file) = 0 ↔
      ∃ line ∈ pieces '\n' 255 file.1, moduleName.1 <:+: line := by
  rw [mdsApiGetModuleList, lineLoop_pieces]
  cases hfound : (pieces '\n' 255 file.1).findSome? (strstrFound moduleName.1) with
  | none =>
      refine iff_of_false (by decide) ?_
      rintro ⟨line, hline, hin⟩
      have hnone := List.findSome?_eq_none_iff.mp hfound line hline
      rw [strstrFound, if_pos hin] at hnone
      cases hnone
  | some found =>
      refine iff_of_true rfl ?_
      obtain ⟨line, hline, hsome⟩ := List.exists_of_findSome?_eq_some hfound
      refine ⟨line, hline, ?_⟩
      by_contra hnot
      rw [strstrFound, if_neg hnot] at hsome
      cases hsome

/--
A module is said to be listed exactly when its name stands in the file, with no newline before
its last character, and does not go over a multiple of 255 columns of its line.
-/
theorem getModuleList_iff (moduleName file : Text) :
    mdsApiGetModuleList moduleName (some file) = 0 ↔
      file.1 ≠ [] ∧ '\n' ∉ moduleName.1.dropLast ∧
        StandsWithin '\n' 255 moduleName.1 file.1 := by
  rw [getModuleList_iff_piece]
  rcases List.eq_nil_or_concat moduleName.1 with hname | ⟨name, c, hname⟩
  · rw [hname]
    constructor
    · rintro ⟨line, hline, -⟩
      refine ⟨?_, List.not_mem_nil, [], file.1, rfl, by decide⟩
      rintro hempty
      rw [hempty] at hline
      cases hline
    · rintro ⟨hne, -⟩
      obtain ⟨front, last, rest, hfile, hcut⟩ :=
        exists_cut '\n' (by decide : 0 < 255) hne
      rw [hfile, hcut.pieces_eq]
      exact ⟨_, List.mem_cons_self, List.nil_infix⟩
  · rw [List.concat_eq_append] at hname
    rw [hname, infix_piece_iff (by decide), List.dropLast_concat]
    refine (and_iff_right_of_imp ?_).symm
    rintro ⟨-, before, after, hfile, -⟩ hempty
    rw [hempty] at hfile
    simp at hfile

/-- A file of lines of up to 254 characters lists the names in its lines. -/
theorem getModuleList_lines {lines : List (List Char)} {moduleName file : Text}
    (hfile : file.1 = lines.flatMap (· ++ ['\n'])) (hlines : ∀ line ∈ lines, '\n' ∉ line)
    (hshort : ∀ line ∈ lines, line.length ≤ 254) (hname : '\n' ∉ moduleName.1) :
    mdsApiGetModuleList moduleName (some file) = 0 ↔
      ∃ line ∈ lines, moduleName.1 <:+: line := by
  have hroom : ∀ line ∈ lines, line.length < 255 := fun line hline =>
    Nat.lt_succ_of_le (hshort line hline)
  rw [getModuleList_iff_piece, hfile, pieces_lines hlines hroom]
  simp only [List.mem_map, exists_exists_and_eq_and, infix_append_stop_iff hname]

/-! ## The free memory -/

def memFree : List Char := "MemFree".toList

/-- A number under its name, as the kernel prints it. -/
structure Field where
  name : List Char
  blanks : Nat
  value : Nat
  inKb : Bool
  name_plain : ':' ∉ name ∧ '\n' ∉ name
  /-- The one number that is read fits an `int`. -/
  value_lt : name = memFree → value < 2 ^ 31

namespace Field

/-- What comes behind the digits. -/
def unit (field : Field) : List Char := if field.inKb then " kB".toList else []

def line (field : Field) : List Char :=
  field.name ++ ':' :: (List.replicate field.blanks ' ' ++
    (Nat.toDigits 10 field.value ++ field.unit))

variable (field : Field)

theorem newline_not_mem_unit : '\n' ∉ field.unit := by
  unfold unit
  split
  · decide
  · exact List.not_mem_nil

/-- The digits end where the number does. -/
theorem head_unit_not_digit : ∀ c ∈ (field.unit ++ ['\n']).head?, c.isDigit = false := by
  intro c hc
  unfold unit at hc
  split at hc
  · cases hc
    rfl
  · cases hc
    rfl

theorem newline_not_mem_line : '\n' ∉ field.line := by
  unfold line
  rw [List.mem_append, List.mem_cons, List.mem_append, List.mem_append]
  rintro (hname | hcolon | hblank | hdigit | hunit)
  · exact field.name_plain.2 hname
  · cases hcolon
  · cases List.eq_of_mem_replicate hblank
  · have hnewline := Nat.isDigit_of_mem_toDigits (by decide) (by decide) hdigit
    cases hnewline
  · exact field.newline_not_mem_unit hunit

theorem line_append (more : List Char) :
    field.line ++ more = field.name ++ ':' :: (List.replicate field.blanks ' ' ++
      (Nat.toDigits 10 field.value ++ (field.unit ++ more))) := by
  simp [line]

/-- A name ends at the first colon. -/
theorem name_inj {name name' rest rest' : List Char} (hname : ':' ∉ name) (hname' : ':' ∉ name')
    (htext : name ++ ':' :: rest = name' ++ ':' :: rest') : name = name' := by
  have htake {name : List Char} (hname : ':' ∉ name) (rest : List Char) :
      (name ++ ':' :: rest).takeWhile (· ≠ ':') = name := by
    refine (takeWhile_append_stop (fun c hc => decide_eq_true ?_) fun c hc => ?_).1
    · rintro rfl
      exact hname hc
    · cases hc
      rfl
  rw [← htake hname rest, htext, htake hname' rest']

/-- The line gives the number if it has the name. -/
theorem scanMemFree_line :
    scanMemFree (field.line ++ ['\n']) =
      if field.name = memFree then some (field.value : Int) else none := by
  have hcolon : "MemFree:".toList = memFree ++ [':'] := rfl
  have hnumber := scanLong_toDigits field.value field.head_unit_not_digit
  rw [← scanLong_skipSpace, ← skipSpace_blanks field.blanks] at hnumber
  rw [line_append, scanMemFree, hcolon]
  generalize List.replicate field.blanks ' ' ++ _ = rest at hnumber ⊢
  by_cases hname : field.name = memFree
  · have hread : scanLiterals (memFree ++ [':']) (memFree ++ ':' :: rest) = some rest :=
      (scanLiterals_eq_some_iff _).mpr (List.append_cons memFree ':' rest)
    rw [if_pos hname, hname, hread, Option.bind_eq_bind, Option.bind_some, hnumber]
    rfl
  · have hnone : scanLiterals (memFree ++ [':']) (field.name ++ ':' :: rest) = none := by
      refine Option.eq_none_iff_forall_ne_some.mpr fun left hsome => hname ?_
      have hline := (scanLiterals_eq_some_iff _).mp hsome
      rw [List.append_assoc, List.singleton_append] at hline
      exact name_inj field.name_plain.1 (by decide) hline
    rw [if_neg hname, hnone]
    rfl

end Field

/--
Of a file as the kernel prints it the function gives the number under `MemFree`, or -1 if there
is none.
-/
theorem getAvailableMemory_printed {fields : List Field} {file : Text}
    (hfile : file.1 = fields.flatMap fun field => field.line ++ ['\n'])
    (hshort : ∀ field ∈ fields, field.line.length ≤ 254) :
    mdsApiGetAvailableMemory (some file) =
      ((fields.find? fun field => field.name = memFree).map fun field => (field.value : Int)).getD
        (-1) := by
  have hlines : ∀ line ∈ fields.map Field.line, '\n' ∉ line :=
    List.forall_mem_map.mpr fun field _ => field.newline_not_mem_line
  have hroom : ∀ line ∈ fields.map Field.line, line.length < 255 :=
    List.forall_mem_map.mpr fun field hfield => Nat.lt_succ_of_le (hshort field hfield)
  have hpieces := pieces_lines hlines hroom
  rw [List.flatMap_map] at hpieces
  rw [mdsApiGetAvailableMemory, lineLoop_pieces, hfile, hpieces, List.map_map, List.findSome?_map]
  congr 1
  clear hfile hshort hlines hroom hpieces
  induction fields with
  | nil => rfl
  | cons field fields ih =>
      rw [List.findSome?_cons, List.find?_cons, ih]
      simp only [Function.comp_apply, Field.scanMemFree_line]
      by_cases hname : field.name = memFree
      · simp [hname]
      · simp [hname]

/-- Two lines of a kernel, the first with a number that no `int` holds. -/
theorem getAvailableMemory_printed_two :
    mdsApiGetAvailableMemory
      (some ⟨"VmallocTotal:  34359738367 kB\nMemFree:  512 kB\n".toList, by decide⟩) = 512 := by
  let fields : List Field :=
    [⟨"VmallocTotal".toList, 2, 34359738367, true, by decide, by decide⟩,
      ⟨memFree, 2, 512, true, by decide, by decide⟩]
  let file : Text := ⟨"VmallocTotal:  34359738367 kB\nMemFree:  512 kB\n".toList, by decide⟩
  have hfile : file.1 = fields.flatMap fun field => field.line ++ ['\n'] := by decide
  have hshort : ∀ field ∈ fields, field.line.length ≤ 254 := by decide
  exact (getAvailableMemory_printed hfile hshort).trans (by decide)

end MdsFormal.Process.ProcFiles
