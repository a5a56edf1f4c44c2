import Mathlib.Logic.Function.Basic

/-!
# Named files, effects on them, and cuts

A disk maps names to contents, `none` for a file that is not there.  A program
touches it through `Effect`s; a write may carry many cells, and a power cut may
fall between any two of them, so every effect is broken into `atoms` and a cut
keeps some prefix of the atoms of the whole program.
-/

namespace MdsFormal.Library.CrashDisk

universe u v

abbrev Disk (Name : Type u) (Cell : Type v) := Name → Option (List Cell)

inductive Effect (Name : Type u) (Cell : Type v) where
  | truncate (name : Name)
  | create (name : Name)
  | write (name : Name) (offset : Nat) (cells : List Cell)
  deriving DecidableEq

variable {Name : Type u} {Cell : Type v}

/-- Replace the cells from `offset` on, extending the content where it ends. -/
def splice (content : List Cell) (offset : Nat) (cells : List Cell) : List Cell :=
  content.take offset ++ cells ++ content.drop (offset + cells.length)

@[simp]
theorem splice_nil (content : List Cell) (offset : Nat) : splice content offset [] = content := by
  rw [splice, List.append_nil, List.length_nil, Nat.add_zero, List.take_append_drop]

theorem splice_zero (content cells : List Cell) :
    splice content 0 cells = cells ++ content.drop cells.length := by
  rw [splice, List.take_zero, List.nil_append, Nat.zero_add]

theorem le_length_splice {content : List Cell} {offset : Nat} (hoffset : offset ≤ content.length)
    (cells : List Cell) : offset + cells.length ≤ (splice content offset cells).length := by
  rw [splice, List.length_append, List.length_append, List.length_take,
    Nat.min_eq_left hoffset]
  exact Nat.le_add_right _ _

/-- Two writes, the second where the first one ends. -/
theorem splice_append {content : List Cell} {offset : Nat} (hoffset : offset ≤ content.length)
    (first second : List Cell) :
    splice (splice content offset first) (offset + first.length) second =
      splice content offset (first ++ second) := by
  have hhead : (content.take offset ++ first).length = offset + first.length := by
    rw [List.length_append, List.length_take, Nat.min_eq_left hoffset]
  unfold splice
  rw [List.take_left' hhead, ← hhead, List.drop_length_add_append, hhead, List.drop_drop,
    List.append_assoc (content.take offset) first second, List.length_append, Nat.add_assoc]

/-- Single-cell writes of `cells` to consecutive offsets. -/
def pokes (name : Name) : Nat → List Cell → List (Effect Name Cell)
  | _, [] => []
  | offset, cell :: rest => .write name offset [cell] :: pokes name (offset + 1) rest

def Effect.atoms : Effect Name Cell → List (Effect Name Cell)
  | .write name offset cells => pokes name offset cells
  | other => [other]

/-- The atoms of a whole program, in program order. -/
def atomsOf (effects : List (Effect Name Cell)) : List (Effect Name Cell) :=
  effects.flatMap Effect.atoms

@[simp]
theorem length_pokes (name : Name) (offset : Nat) (cells : List Cell) :
    (pokes name offset cells).length = cells.length := by
  induction cells generalizing offset with
  | nil => rfl
  | cons cell rest ih => exact congrArg Nat.succ (ih (offset + 1))

/-- Consecutive writes have the atoms of one long write. -/
theorem pokes_append (name : Name) (offset : Nat) (first second : List Cell) :
    pokes name offset (first ++ second) =
      pokes name offset first ++ pokes name (offset + first.length) second := by
  induction first generalizing offset with
  | nil => rfl
  | cons cell rest ih =>
      simp only [List.cons_append, pokes, ih (offset + 1), List.length_cons]
      rw [show offset + 1 + rest.length = offset + (rest.length + 1) by omega]

theorem take_pokes (name : Name) (offset count : Nat) (cells : List Cell) :
    (pokes name offset cells).take count = pokes name offset (cells.take count) := by
  induction cells generalizing offset count with
  | nil => simp [pokes]
  | cons cell rest ih =>
      cases count with
      | zero => rfl
      | succ count => simp only [pokes, List.take_succ_cons, ih]

variable [DecidableEq Name]

def Effect.apply : Effect Name Cell → Disk Name Cell → Disk Name Cell
  | .truncate name, disk => Function.update disk name (some [])
  | .create name, disk => Function.update disk name (some ((disk name).getD []))
  | .write name offset cells, disk =>
      Function.update disk name ((disk name).map fun content => splice content offset cells)

def applyAll (effects : List (Effect Name Cell)) (disk : Disk Name Cell) : Disk Name Cell :=
  effects.foldl (fun disk effect => effect.apply disk) disk

/-- The disk when power fails after the first `count` atoms of the program. -/
def cut (disk : Disk Name Cell) (effects : List (Effect Name Cell)) (count : Nat) :
    Disk Name Cell :=
  applyAll ((atomsOf effects).take count) disk

@[simp]
theorem applyAll_nil (disk : Disk Name Cell) : applyAll [] disk = disk := rfl

@[simp]
theorem applyAll_cons (effect : Effect Name Cell) (rest : List (Effect Name Cell))
    (disk : Disk Name Cell) :
    applyAll (effect :: rest) disk = applyAll rest (effect.apply disk) := rfl

theorem applyAll_append (first second : List (Effect Name Cell)) (disk : Disk Name Cell) :
    applyAll (first ++ second) disk = applyAll second (applyAll first disk) :=
  List.foldl_append

/-- A write where the file ends. -/
theorem apply_append {disk : Disk Name Cell} {name : Name} {content : List Cell}
    (hcontent : disk name = some content) (cells : List Cell) :
    (Effect.write name content.length cells).apply disk =
      Function.update disk name (some (content ++ cells)) := by
  have hsplice : splice content content.length cells = content ++ cells := by
    simp [splice, List.drop_of_length_le]
  rw [Effect.apply, hcontent, Option.map_some, hsplice]

/-- Appending cell by cell to a file that ends at the first offset. -/
theorem applyAll_pokes {disk : Disk Name Cell} {name : Name} {content : List Cell}
    (hcontent : disk name = some content) (cells : List Cell) :
    applyAll (pokes name content.length cells) disk =
      Function.update disk name (some (content ++ cells)) := by
  induction cells generalizing disk content with
  | nil => simp [pokes, ← hcontent]
  | cons cell rest ih =>
      have hsplice : splice content content.length [cell] = content ++ [cell] := by
        simp [splice]
      have hnext : (Effect.write name content.length [cell]).apply disk =
          Function.update disk name (some (content ++ [cell])) := by
        simp [Effect.apply, hcontent, hsplice]
      have htail : applyAll (pokes name (content ++ [cell]).length rest)
          (Function.update disk name (some (content ++ [cell]))) =
            Function.update (Function.update disk name (some (content ++ [cell]))) name
              (some (content ++ [cell] ++ rest)) :=
        ih (by simp)
      rw [List.length_append, List.length_singleton] at htail
      rw [pokes, applyAll_cons, hnext, htail, Function.update_idem, List.append_assoc]
      rfl

/-- Truncating a file and filling it again, stopped after `count` of the cells. -/
theorem applyAll_take_refill (disk : Disk Name Cell) (name : Name) (content : List Cell)
    (count : Nat) :
    applyAll ((.truncate name :: pokes name 0 content).take (count + 1)) disk =
      Function.update disk name (some (content.take count)) := by
  have hempty : Function.update disk name (some []) name = some ([] : List Cell) := by simp
  rw [List.take_succ_cons, applyAll_cons, take_pokes]
  exact (applyAll_pokes hempty (content.take count)).trans (by simp)

@[simp]
theorem cut_zero (disk : Disk Name Cell) (effects : List (Effect Name Cell)) :
    cut disk effects 0 = disk := by
  simp [cut]

/-! ## Invariants of every cut -/

/-- The effects lead from `start` to `disk`, and `inv` holds wherever they are cut. -/
structure Kept (inv : Disk Name Cell → Prop) (start : Disk Name Cell)
    (effects : List (Effect Name Cell)) (disk : Disk Name Cell) : Prop where
  reached : applyAll (atomsOf effects) start = disk
  cuts : ∀ count, inv (cut start effects count)

section

variable {inv : Disk Name Cell → Prop} {start disk : Disk Name Cell}
  {effects : List (Effect Name Cell)} {name : Name}

theorem Kept.nil (hinv : inv start) : Kept inv start [] start := by
  refine ⟨rfl, fun count => ?_⟩
  rw [cut, atomsOf, List.flatMap_nil, List.take_nil]
  exact hinv

theorem Kept.holds (hk : Kept inv start effects disk) : inv disk := by
  have hlast := hk.cuts (atomsOf effects).length
  rwa [cut, List.take_length, hk.reached] at hlast

/-- One more effect, of which every part keeps the invariant. -/
theorem Kept.snoc (hk : Kept inv start effects disk) (effect : Effect Name Cell)
    (hinv : ∀ count, inv (applyAll (effect.atoms.take count) disk)) :
    Kept inv start (effects ++ [effect]) (applyAll effect.atoms disk) := by
  have hatoms : atomsOf (effects ++ [effect]) = atomsOf effects ++ effect.atoms := by
    rw [atomsOf, List.flatMap_append, List.flatMap_singleton, atomsOf]
  refine ⟨?_, fun count => ?_⟩
  · rw [hatoms, applyAll_append, hk.reached]
  · rw [cut, hatoms, List.take_append, applyAll_append]
    rcases Nat.le_total count (atomsOf effects).length with hbefore | hafter
    · rw [Nat.sub_eq_zero_of_le hbefore, List.take_zero]
      exact hk.cuts count
    · rw [List.take_of_length_le hafter, hk.reached]
      exact hinv _

theorem Kept.truncate (hk : Kept inv start effects disk)
    (hinv : inv (Function.update disk name (some []))) :
    Kept inv start (effects ++ [.truncate name]) (Function.update disk name (some [])) := by
  refine hk.snoc (.truncate name) fun count => ?_
  cases count with
  | zero => exact hk.holds
  | succ count =>
      have hatoms : (Effect.truncate name : Effect Name Cell).atoms = [.truncate name] := rfl
      rw [hatoms, List.take_succ_cons, List.take_nil]
      exact hinv

/-- A write at the end of a file, cell by cell. -/
theorem Kept.append (hk : Kept inv start effects disk) {content : List Cell}
    (hcontent : disk name = some content) (cells : List Cell)
    (hinv : ∀ count, inv (Function.update disk name (some (content ++ cells.take count)))) :
    Kept inv start (effects ++ [.write name content.length cells])
      (Function.update disk name (some (content ++ cells))) := by
  rw [← applyAll_pokes hcontent]
  refine hk.snoc (.write name content.length cells) fun count => ?_
  rw [Effect.atoms, take_pokes, applyAll_pokes hcontent]
  exact hinv count

end

end MdsFormal.Library.CrashDisk
