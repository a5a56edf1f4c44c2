import Mathlib.Logic.Function.Basic
import MdsFormal.Gpio.GpioEvt
import MdsFormal.Library.Faults
import MdsFormal.Process.SystemFork
import MdsFormal.Text.Itoa

/-!
# The pins in sysfs

The calls of `gpio.c` make a path of the number of a pin in an array of 32 characters, and so
they do with the command that exports a pin which is not there yet.  The command is always
too long, and the paths are from some number on.
-/

namespace MdsFormal.Gpio.Sysfs

open Library.Faults Library.Scan
open GpioEvt Process.SystemFork Text.Itoa

/-! ## The files -/

/-- The attributes of a pin. -/
inductive File where
  | value
  | direction
  | edge
  deriving DecidableEq

/-- What follows the directory of a pin: in `GPIO_VALUE`, `GPIO_DIRECTION` and `GPIO_EDGE`. -/
def File.name : File → List Char
  | .value => "/value".toList
  | .direction => "/direction".toList
  | .edge => "/edge".toList

/-- Which pins have a directory, and what was last written to an attribute of a pin. -/
structure Pins where
  exported : Int32 → Bool
  content : Int32 → File → List Char

def Pins.write (pins : Pins) (gpio : Int32) (file : File) (text : List Char) : Pins :=
  { pins with
    content := Function.update pins.content gpio
      (Function.update (pins.content gpio) file text) }

/-- A write behind the end of an array. -/
inductive Fault where
  | outside
  deriving DecidableEq

/-- What the system does in one call: whether the export command has made the directory by the
time it is looked for, and whether the attribute can be opened. -/
structure Answer where
  exports : Bool
  opens : Bool

/-! ## The code -/

/-- The text of `sprintf(buf, GPIO_VALUE, gpio)` and its like. -/
def path (gpio : Int32) (file : File) : List Char :=
  "/sys/class/gpio/gpio".toList ++ decimal gpio ++ file.name

/-- The text of `"echo %d > %s &"`. -/
def exportCommand (gpio : Int32) : List Char :=
  "echo ".toList ++ decimal gpio ++ " > ".toList ++ "/sys/class/gpio/export".toList ++ " &".toList

/-- `sprintf` into a `char [32]`. -/
def sprintf32 (text : List Char) : Except Fault Unit := require (text.length < 32) .outside

/-- `export_chk_gpio_num` -/
def exportChkGpioNum (gpio : Int32) (answer : Answer) (pins : Pins) :
    Except Fault (Int × Pins) :=
  if gpio.toInt ≤ 0 then pure (-1, pins)
  else do
    sprintf32 (path gpio .value)
    if mdsApiCheckExistFile (fun _ => pins.exported gpio) 0 then pure (0, pins)
    else do
      sprintf32 (exportCommand gpio)
      let exported := Function.update pins.exported gpio answer.exports
      let pins := { pins with exported := exported }
      if mdsApiCheckExistFile (fun _ => pins.exported gpio) 1 then pure (0, pins)
      else pure (-1, pins)

/-- What the calls share: the pin is exported, and its attribute opened and used. -/
def onFile (file : File) (use : Pins → Int × Pins) (gpio : Int32)
    (answer : Answer) (pins : Pins) : Except Fault (Int × Pins) := do
  let (ret, pins) ← exportChkGpioNum gpio answer pins
  if ret = -1 then pure (-1, pins)
  else do
    sprintf32 (path gpio file)
    pure (if answer.opens then use pins else (-1, pins))

/-- `mds_api_gpio_get_value`; one character is read. -/
def mdsApiGpioGetValue (gpio : Int32) : Answer → Pins → Except Fault (Int × Pins) :=
  onFile .value (fun pins => (atol ((pins.content gpio .value).take 1), pins)) gpio

/-- `mds_api_gpio_set_value` -/
def mdsApiGpioSetValue (gpio value : Int32) : Answer → Pins → Except Fault (Int × Pins) :=
  onFile .value
    (fun pins => (0, pins.write gpio .value (if value ≠ 0 then ['1'] else ['0']))) gpio

/-- `mds_api_gpio_set_direction`; `sizeof` counts the NUL. -/
def mdsApiGpioSetDirection (gpio direction : Int32) :
    Answer → Pins → Except Fault (Int × Pins) :=
  onFile .direction
    (fun pins => (0, pins.write gpio .direction
      (if direction ≠ 0 then "out\x00".toList else "in\x00".toList))) gpio

/-- `mds_api_gpio_set_edge` -/
def mdsApiGpioSetEdge (gpio : Int32) (edge : GpioEdge) :
    Answer → Pins → Except Fault (Int × Pins) :=
  onFile .edge
    (fun pins => (0, pins.write gpio .edge (match edge with
      | .none => "none\x00".toList
      | .rising => "rising\x00".toList
      | .falling => "falling\x00".toList
      | .both => "both\x00".toList))) gpio

/-- `_get_gpio_val_fd`, where a descriptor counts as 0. -/
def getGpioValFd (gpio : Int32) : Answer → Pins → Except Fault (Int × Pins) :=
  onFile .value (fun pins => (0, pins)) gpio

/-- The beginning of `_gpio_procfs_read_thread`, with the calls for each pin of `gpio_mgr`. -/
def startThread (answers : Nat → Answer) : Nat → List Int32 → Pins → Except Fault Pins
  | _, [], pins => pure pins
  | k, gpio :: rest, pins => do
      let (_, pins) ← mdsApiGpioSetDirection gpio 0 (answers k) pins
      let (_, pins) ← mdsApiGpioSetEdge gpio .both (answers (k + 1)) pins
      let (_, pins) ← getGpioValFd gpio (answers (k + 2)) pins
      startThread answers (k + 3) rest pins

/-! ## Runs -/

/-- What a program does with pins. -/
inductive Call where
  | getValue (gpio : Int32)
  | setValue (gpio value : Int32)
  | setDirection (gpio direction : Int32)
  | setEdge (gpio : Int32) (edge : GpioEdge)
  | startThread (gpios : List Int32)

/-- One call, and what the system does in it. -/
def Call.run (answers : Nat → Answer) (pins : Pins) : Call → Except Fault Pins
  | .getValue gpio => Prod.snd <$> mdsApiGpioGetValue gpio (answers 0) pins
  | .setValue gpio value => Prod.snd <$> mdsApiGpioSetValue gpio value (answers 0) pins
  | .setDirection gpio direction =>
      Prod.snd <$> mdsApiGpioSetDirection gpio direction (answers 0) pins
  | .setEdge gpio edge => Prod.snd <$> mdsApiGpioSetEdge gpio edge (answers 0) pins
  | .startThread gpios => Sysfs.startThread answers 0 gpios pins

def runAll : List (Call × (Nat → Answer)) → Pins → Except Fault Pins
  | [], pins => pure pins
  | (call, answers) :: rest, pins => call.run answers pins >>= runAll rest

/-! ## Lengths -/

/-- The first number that is too long for the path or the path of the value. -/
def File.limit : File → Nat
  | .value => 100000
  | .direction => 10
  | .edge => 100000

/-- The pin is refused, or it is there and its number is short enough. -/
def Harmless (exported : Int32 → Bool) (file : File) (gpio : Int32) : Prop :=
  gpio.toInt ≤ 0 ∨ exported gpio = true ∧ gpio.toInt < file.limit

def Call.Harmless (exported : Int32 → Bool) : Call → Prop
  | .getValue gpio => Sysfs.Harmless exported .value gpio
  | .setValue gpio _ => Sysfs.Harmless exported .value gpio
  | .setDirection gpio _ => Sysfs.Harmless exported .direction gpio
  | .setEdge gpio _ => Sysfs.Harmless exported .edge gpio
  | .startThread gpios => ∀ gpio ∈ gpios, Sysfs.Harmless exported .direction gpio

section

variable {gpio : Int32} {file : File} {answer : Answer} {answers : Nat → Answer} {pins : Pins}
  {use : Pins → Int × Pins}

theorem decimal_of_pos (hpos : 0 < gpio.toInt) :
    decimal gpio = Nat.toDigits 10 gpio.toInt.toNat := by
  have hsign : ¬ gpio.toInt < 0 := Int.not_lt.mpr (Int.le_of_lt hpos)
  have habs : gpio.toInt.natAbs = gpio.toInt.toNat := by omega
  rw [decimal, if_neg hsign, habs]

theorem length_decimal_pos (hpos : 0 < gpio.toInt) : 0 < (decimal gpio).length := by
  rw [decimal_of_pos hpos]
  exact Nat.length_toDigits_pos

/-- The command that exports a pin is always too long. -/
theorem not_fits_exportCommand (hpos : 0 < gpio.toInt) : ¬ (exportCommand gpio).length < 32 := by
  have hdigit := length_decimal_pos hpos
  have hecho : "echo ".toList.length = 5 := rfl
  have hinto : " > ".toList.length = 3 := rfl
  have hexport : "/sys/class/gpio/export".toList.length = 22 := rfl
  have hend : " &".toList.length = 2 := rfl
  unfold exportCommand
  simp only [List.length_append, hecho, hinto, hexport, hend]
  omega

theorem length_path (gpio : Int32) (file : File) :
    (path gpio file).length = 20 + (decimal gpio).length + file.name.length := by
  have hroot : "/sys/class/gpio/gpio".toList.length = 20 := rfl
  unfold path
  rw [List.length_append, List.length_append, hroot]

/-- Both paths that are made fit exactly below the limit. -/
theorem path_fits_iff (hpos : 0 < gpio.toInt) :
    (path gpio .value).length < 32 ∧ (path gpio file).length < 32 ↔ gpio.toInt < file.limit := by
  have hdigits : ∀ k, 0 < k → ((decimal gpio).length ≤ k ↔ gpio.toInt.toNat < 10 ^ k) :=
    fun k hk => by
      rw [decimal_of_pos hpos]
      exact Nat.length_toDigits_le_iff (by decide) hk
  have hone := hdigits 1 (by decide)
  have hfive := hdigits 5 (by decide)
  have hvalue : File.value.name.length = 6 := rfl
  have hdirection : File.direction.name.length = 10 := rfl
  have hedge : File.edge.name.length = 5 := rfl
  rw [length_path, length_path, hvalue]
  cases file with
  | value =>
      rw [hvalue, File.limit]
      omega
  | direction =>
      rw [hdirection, File.limit]
      omega
  | edge =>
      rw [hedge, File.limit]
      omega

/-- The check passes exactly a pin that is there and whose value has a short path. -/
theorem guarded_exportChkGpioNum (hpos : 0 < gpio.toInt) :
    Guarded ((path gpio .value).length < 32 ∧ pins.exported gpio = true)
      (exportChkGpioNum gpio answer pins) (· = (0, pins)) := by
  unfold exportChkGpioNum
  rw [if_neg (Int.not_le.mpr hpos)]
  refine guarded_require.bind fun _ _ _ => ?_
  cases hthere : pins.exported gpio with
  | true =>
      refine (guarded_ok ?_).congr (iff_of_true trivial rfl)
      rfl
  | false =>
      have hfull : sprintf32 (exportCommand gpio) = .error .outside :=
        if_neg (not_fits_exportCommand hpos)
      have hmissing : mdsApiCheckExistFile (fun _ => false) 0 = false := rfl
      rw [hmissing, if_neg Bool.false_ne_true, hfull]
      exact ⟨fun hthere => absurd hthere Bool.false_ne_true,
        fun hruns => absurd hruns (not_runs_error _)⟩

/-- A call stays within its arrays exactly when it is harmless, and exports nothing. -/
theorem guarded_onFile (hkeeps : ∀ pins, (use pins).2.exported = pins.exported) :
    Guarded (Harmless pins.exported file gpio) (onFile file use gpio answer pins)
      (fun result => result.2.exported = pins.exported) := by
  rcases Int.lt_or_le 0 gpio.toInt with hpos | hneg
  · have hharmless : ((path gpio .value).length < 32 ∧ pins.exported gpio = true) ∧
        (path gpio file).length < 32 ↔ Harmless pins.exported file gpio := by
      rw [Harmless, ← path_fits_iff hpos, or_iff_right (Int.not_le.mpr hpos), and_assoc,
        and_left_comm]
    unfold onFile
    refine Guarded.congr hharmless ((guarded_exportChkGpioNum hpos).bind ?_)
    rintro _ _ rfl
    refine guarded_require.bind_free fun _ _ _ => ?_
    cases answer.opens with
    | true => exact guarded_ok (hkeeps pins)
    | false => exact guarded_ok rfl
  · have hrefused : exportChkGpioNum gpio answer pins = .ok (-1, pins) := if_pos hneg
    have hcall : onFile file use gpio answer pins = .ok (-1, pins) := by
      unfold onFile
      rw [hrefused]
      rfl
    rw [hcall]
    refine (guarded_ok ?_).congr (iff_of_true trivial (Or.inl hneg))
    rfl

theorem harmless_value_of_direction {exported : Int32 → Bool}
    (hharmless : Harmless exported .direction gpio) : Harmless exported .value gpio := by
  rcases hharmless with hneg | ⟨hthere, hshort⟩
  · exact Or.inl hneg
  · have hlimit : (File.direction.limit : Int) ≤ File.value.limit := by decide
    exact Or.inr ⟨hthere, Int.lt_of_lt_of_le hshort hlimit⟩

/-- A part of a program that needs a condition on the exported pins and exports none. -/
def Needs (need : Prop) (pins : Pins) (part : Except Fault Pins) : Prop :=
  Guarded need part (·.exported = pins.exported)

theorem needs_onFile (hkeeps : ∀ pins, (use pins).2.exported = pins.exported) :
    Needs (Harmless pins.exported file gpio) pins
      (Prod.snd <$> onFile file use gpio answer pins) := by
  rw [map_eq_pure_bind]
  exact (guarded_onFile hkeeps).bind_free fun _ _ hsame => guarded_ok hsame

/-- The thread needs the directions of all pins. -/
theorem needs_startThread (gpios : List Int32) (k : Nat) :
    Needs (∀ gpio ∈ gpios, Harmless pins.exported .direction gpio) pins
      (startThread answers k gpios pins) := by
  induction gpios generalizing k pins with
  | nil =>
      refine (guarded_ok ?_).congr (iff_of_true trivial fun gpio hgpio => by cases hgpio)
      rfl
  | cons first rest ih =>
      have hneed : Harmless pins.exported .direction first ∧ Harmless pins.exported .edge first ∧
          Harmless pins.exported .value first ∧
            (∀ gpio ∈ rest, Harmless pins.exported .direction gpio) ↔
          ∀ gpio ∈ first :: rest, Harmless pins.exported .direction gpio := by
        rw [List.forall_mem_cons]
        refine and_congr_right fun hdirection => ?_
        have hvalue := harmless_value_of_direction hdirection
        -- the path of the edge is shorter than that of the value, which is made first
        exact ⟨fun hall => hall.2.2, fun hrest => ⟨hvalue, hvalue, hrest⟩⟩
      refine Guarded.congr hneed ((guarded_onFile fun _ => rfl).bind ?_)
      rintro - ⟨_, pins₁⟩ hdirected
      change pins₁.exported = pins.exported at hdirected
      rw [← hdirected]
      refine (guarded_onFile fun _ => rfl).bind ?_
      rintro - ⟨_, pins₂⟩ hedged
      change pins₂.exported = pins₁.exported at hedged
      rw [← hedged]
      refine (guarded_onFile fun _ => rfl).bind ?_
      rintro - ⟨_, pins₃⟩ hopened
      change pins₃.exported = pins₂.exported at hopened
      rw [← hopened]
      exact ih (k + 3)

theorem needs_call (call : Call) :
    Needs (call.Harmless pins.exported) pins (call.run answers pins) := by
  cases call with
  | getValue gpio => exact needs_onFile fun _ => rfl
  | setValue gpio value => exact needs_onFile fun _ => rfl
  | setDirection gpio direction => exact needs_onFile fun _ => rfl
  | setEdge gpio edge => exact needs_onFile fun _ => rfl
  | startThread gpios => exact needs_startThread gpios 0

theorem needs_runAll (calls : List (Call × (Nat → Answer))) :
    Needs (∀ call ∈ calls, call.1.Harmless pins.exported) pins (runAll calls pins) := by
  induction calls generalizing pins with
  | nil =>
      refine (guarded_ok ?_).congr (iff_of_true trivial fun call hcall => by cases hcall)
      rfl
  | cons first rest ih =>
      have hneed : first.1.Harmless pins.exported ∧
          (∀ call ∈ rest, call.1.Harmless pins.exported) ↔
          ∀ call ∈ first :: rest, call.1.Harmless pins.exported := by
        rw [List.forall_mem_cons]
      refine Guarded.congr hneed ((needs_call first.1).bind fun _ pins' hsame => ?_)
      have hrest := @ih pins'
      rw [Needs, hsame] at hrest
      exact hrest

end

/-- A program stays within the arrays exactly when all its calls are harmless for the pins that
were exported before it. -/
theorem runAll_iff (calls : List (Call × (Nat → Answer))) (pins : Pins) :
    Runs (runAll calls pins) ↔ ∀ call ∈ calls, call.1.Harmless pins.exported :=
  ⟨(needs_runAll calls).of_runs, fun hall =>
    let ⟨pins', hrun, _⟩ := (needs_runAll calls).ends hall
    ⟨pins', hrun⟩⟩

-- the pin of the test application, exported
example : ¬ Harmless (fun _ => true) .direction 13 := by
  unfold Harmless
  decide

end MdsFormal.Gpio.Sysfs
