import Mathlib.Logic.Function.Basic
import MdsFormal.Text.Itoa

/-!
# The lights

Every branch of `mds_api_led_on`, `mds_api_led_off` and `mds_api_led_blink` writes the trigger
and the brightness of both channels of its light, except for the one that lets `pwr` blink red,
which writes one trigger twice.
-/

namespace MdsFormal.Lights.LastCommand

open MdsFormal.Text.Itoa

/-! ## The attributes -/

/-- The files of a channel that are written. -/
inductive Attribute where
  | trigger
  | delayOn
  | delayOff
  | brightness
  deriving DecidableEq

/-- What was last written to an attribute of a channel. -/
abbrev Sysfs := String × Attribute → String

/-! ## The code -/

def ledNameGpsRedNumberName : String := "led1_red_28"
def ledNameGpsGreenNumberName : String := "led1_green_59"
def ledNamePwrRedNumberName : String := "led2_red_17"
def ledNamePwrGreenNumberName : String := "led2_green_29"
def ledNameWcdmaRedNumberName : String := "led3_red_27"
def ledNameWcdmaGreenNumberName : String := "led3_green_16"

/-- `_led_set_trigger` -/
def ledSetTrigger (name trigger : String) (leds : Sysfs) : Sysfs :=
  Function.update leds (name, .trigger) trigger

/-- `_led_trigger_timer`; `sizeof("timer")` counts the NUL. -/
def ledTriggerTimer (name : String) (delayOn delayOff : Int32) (leds : Sysfs) : Sysfs :=
  let leds := Function.update leds (name, .trigger) "timer\x00"
  let leds := Function.update leds (name, .delayOn) (String.ofList (decimal delayOn))
  Function.update leds (name, .delayOff) (String.ofList (decimal delayOff))

/-- `_led_set_brightness` -/
def ledSetBrightness (name : String) (value : UInt8) (leds : Sysfs) : Sysfs :=
  Function.update leds (name, .brightness) (if value ≠ 0 then "255" else "0")

/-- The trigger of a channel: `"none"`, or the timer with its two delays. -/
def writeTrigger (name : String) (timer : Option (Int32 × Int32)) (leds : Sysfs) : Sysfs :=
  match timer with
  | none => ledSetTrigger name "none" leds
  | some (delayOn, delayOff) => ledTriggerTimer name delayOn delayOff leds

/-- The four writes of a branch, in their order. -/
def writeBoth (green red : String) (greenTimer redTimer : Option (Int32 × Int32))
    (greenValue redValue : UInt8) (leds : Sysfs) : Sysfs :=
  let leds := writeTrigger green greenTimer leds
  let leds := writeTrigger red redTimer leds
  let leds := ledSetBrightness green greenValue leds
  ledSetBrightness red redValue leds

/-- `mds_api_led_on` -/
def mdsApiLedOn (ledName colorName : String) (leds : Sysfs) : Int × Sysfs :=
  if ledName = "wcdma" ∧ colorName = "red" then
    (1, writeBoth ledNameWcdmaGreenNumberName ledNameWcdmaRedNumberName none none 0 255 leds)
  else if ledName = "wcdma" ∧ colorName = "green" then
    (1, writeBoth ledNameWcdmaGreenNumberName ledNameWcdmaRedNumberName none none 255 0 leds)
  else if ledName = "wcdma" ∧ colorName = "yellow" then
    (1, writeBoth ledNameWcdmaGreenNumberName ledNameWcdmaRedNumberName none none 255 255 leds)
  else if ledName = "wcdma" ∧ colorName = "off" then
    (1, writeBoth ledNameWcdmaGreenNumberName ledNameWcdmaRedNumberName none none 0 0 leds)
  else if ledName = "gps" ∧ colorName = "red" then
    (1, writeBoth ledNameGpsGreenNumberName ledNameGpsRedNumberName none none 0 255 leds)
  else if ledName = "gps" ∧ colorName = "green" then
    (1, writeBoth ledNameGpsGreenNumberName ledNameGpsRedNumberName none none 255 0 leds)
  else if ledName = "gps" ∧ colorName = "yellow" then
    (1, writeBoth ledNameGpsGreenNumberName ledNameGpsRedNumberName none none 255 255 leds)
  else if ledName = "gps" ∧ colorName = "off" then
    (1, writeBoth ledNameGpsGreenNumberName ledNameGpsRedNumberName none none 0 0 leds)
  else if ledName = "pwr" ∧ colorName = "red" then
    (1, writeBoth ledNamePwrGreenNumberName ledNamePwrRedNumberName none none 0 255 leds)
  else if ledName = "pwr" ∧ colorName = "green" then
    (1, writeBoth ledNamePwrGreenNumberName ledNamePwrRedNumberName none none 255 0 leds)
  else if ledName = "pwr" ∧ colorName = "yellow" then
    (1, writeBoth ledNamePwrGreenNumberName ledNamePwrRedNumberName none none 255 255 leds)
  else if ledName = "pwr" ∧ colorName = "off" then
    (1, writeBoth ledNamePwrGreenNumberName ledNamePwrRedNumberName none none 0 0 leds)
  else (-1, leds)

/-- `mds_api_led_off` -/
def mdsApiLedOff (ledName : String) (leds : Sysfs) : Int × Sysfs :=
  if ledName = "wcdma" then
    (0, writeBoth ledNameWcdmaGreenNumberName ledNameWcdmaRedNumberName none none 0 0 leds)
  else if ledName = "gps" then
    (0, writeBoth ledNameGpsGreenNumberName ledNameGpsRedNumberName none none 0 0 leds)
  else if ledName = "pwr" then
    (0, writeBoth ledNamePwrGreenNumberName ledNamePwrRedNumberName none none 0 0 leds)
  else (-1, leds)

/-- The branch that lets `pwr` blink red. -/
def blinkPwrRed (delayOn delayOff : Int32) (leds : Sysfs) : Sysfs :=
  let leds := ledSetTrigger ledNamePwrRedNumberName "none" leds
  let leds := ledTriggerTimer ledNamePwrRedNumberName delayOn delayOff leds
  let leds := ledSetBrightness ledNamePwrGreenNumberName 0 leds
  ledSetBrightness ledNamePwrRedNumberName 255 leds

/-- `mds_api_led_blink`, which has a `return` only for names and colours it does not know. -/
def mdsApiLedBlink (ledName colorName : String) (delayOn delayOff : Int32) (leds : Sysfs) :
    Option Int × Sysfs :=
  let timer := some (delayOn, delayOff)
  if ledName = "wcdma" ∧ colorName = "red" then
    (none, writeBoth ledNameWcdmaGreenNumberName ledNameWcdmaRedNumberName none timer 0 255 leds)
  else if ledName = "wcdma" ∧ colorName = "green" then
    (none, writeBoth ledNameWcdmaGreenNumberName ledNameWcdmaRedNumberName timer none 255 0 leds)
  else if ledName = "wcdma" ∧ colorName = "yellow" then
    (none,
      writeBoth ledNameWcdmaGreenNumberName ledNameWcdmaRedNumberName timer timer 255 255 leds)
  else if ledName = "wcdma" ∧ colorName = "off" then
    (none, writeBoth ledNameWcdmaGreenNumberName ledNameWcdmaRedNumberName none none 0 0 leds)
  else if ledName = "gps" ∧ colorName = "red" then
    (none, writeBoth ledNameGpsGreenNumberName ledNameGpsRedNumberName none timer 0 255 leds)
  else if ledName = "gps" ∧ colorName = "green" then
    (none, writeBoth ledNameGpsGreenNumberName ledNameGpsRedNumberName timer none 255 0 leds)
  else if ledName = "gps" ∧ colorName = "yellow" then
    (none, writeBoth ledNameGpsGreenNumberName ledNameGpsRedNumberName timer timer 255 255 leds)
  else if ledName = "gps" ∧ colorName = "off" then
    (none, writeBoth ledNameGpsGreenNumberName ledNameGpsRedNumberName none none 0 0 leds)
  else if ledName = "pwr" ∧ colorName = "red" then (none, blinkPwrRed delayOn delayOff leds)
  else if ledName = "pwr" ∧ colorName = "green" then
    (none, writeBoth ledNamePwrGreenNumberName ledNamePwrRedNumberName timer none 255 0 leds)
  else if ledName = "pwr" ∧ colorName = "yellow" then
    (none, writeBoth ledNamePwrGreenNumberName ledNamePwrRedNumberName timer timer 255 255 leds)
  else if ledName = "pwr" ∧ colorName = "off" then
    (none, writeBoth ledNamePwrGreenNumberName ledNamePwrRedNumberName none none 0 0 leds)
  else (some (-1), leds)

/-! ## Commands -/

inductive Led where
  | wcdma
  | gps
  | pwr
  deriving DecidableEq

def Led.name : Led → String
  | .wcdma => "wcdma"
  | .gps => "gps"
  | .pwr => "pwr"

def Led.green : Led → String
  | .wcdma => ledNameWcdmaGreenNumberName
  | .gps => ledNameGpsGreenNumberName
  | .pwr => ledNamePwrGreenNumberName

def Led.red : Led → String
  | .wcdma => ledNameWcdmaRedNumberName
  | .gps => ledNameGpsRedNumberName
  | .pwr => ledNamePwrRedNumberName

inductive Color where
  | red
  | green
  | yellow
  | off
  deriving DecidableEq

def Color.name : Color → String
  | .red => "red"
  | .green => "green"
  | .yellow => "yellow"
  | .off => "off"

def Color.lightsGreen (color : Color) : Prop := color = .green ∨ color = .yellow

instance decidableLightsGreen (color : Color) : Decidable color.lightsGreen :=
  inferInstanceAs (Decidable (_ ∨ _))

def Color.lightsRed (color : Color) : Prop := color = .red ∨ color = .yellow

instance decidableLightsRed (color : Color) : Decidable color.lightsRed :=
  inferInstanceAs (Decidable (_ ∨ _))

inductive Command where
  | ledOn (ledName colorName : String)
  | ledOff (ledName : String)
  | ledBlink (ledName colorName : String) (delayOn delayOff : Int32)

def Command.run : Command → Sysfs → Sysfs
  | .ledOn ledName colorName, leds => (mdsApiLedOn ledName colorName leds).2
  | .ledOff ledName, leds => (mdsApiLedOff ledName leds).2
  | .ledBlink ledName colorName delayOn delayOff, leds =>
      (mdsApiLedBlink ledName colorName delayOn delayOff leds).2

/-- The command is one the functions know, for this light. -/
def Command.IsFor (led : Led) : Command → Prop
  | .ledOn ledName colorName => ledName = led.name ∧ ∃ color : Color, colorName = color.name
  | .ledOff ledName => ledName = led.name
  | .ledBlink ledName colorName _ _ => ledName = led.name ∧ ∃ color : Color, colorName = color.name

/-- The attributes after a history of commands. -/
def runAll (history : List Command) (leds : Sysfs) : Sysfs :=
  history.foldl (fun leds command => command.run leds) leds

/-! ## What the branches have in common -/

/-- The brightness of a channel that is lit or not. -/
def value (lit : Prop) [Decidable lit] : UInt8 := if lit then 255 else 0

/-- The timer of a channel that blinks or not. -/
def timer (lit : Prop) [Decidable lit] (delayOn delayOff : Int32) : Option (Int32 × Int32) :=
  if lit then some (delayOn, delayOff) else none

theorem ledOn_known (led : Led) (color : Color) (leds : Sysfs) :
    mdsApiLedOn led.name color.name leds =
      (1, writeBoth led.green led.red none none (value color.lightsGreen) (value color.lightsRed)
        leds) := by
  cases led <;> cases color <;> rfl

theorem ledOff_known (led : Led) (leds : Sysfs) :
    mdsApiLedOff led.name leds = (0, writeBoth led.green led.red none none 0 0 leds) := by
  cases led <;> rfl

theorem ledBlink_known {led : Led} {color : Color} (hbranch : led ≠ .pwr ∨ color ≠ .red)
    (delayOn delayOff : Int32) (leds : Sysfs) :
    mdsApiLedBlink led.name color.name delayOn delayOff leds =
      (none, writeBoth led.green led.red (timer color.lightsGreen delayOn delayOff)
        (timer color.lightsRed delayOn delayOff) (value color.lightsGreen) (value color.lightsRed)
        leds) := by
  cases led with
  | wcdma => cases color <;> rfl
  | gps => cases color <;> rfl
  | pwr =>
      cases color with
      | red => exact absurd hbranch (by decide)
      | green => rfl
      | yellow => rfl
      | off => rfl

section

variable {ledName colorName : String} (leds : Sysfs)

theorem ledOn_unknown
    (hnot : ∀ (led : Led) (color : Color), ¬(ledName = led.name ∧ colorName = color.name)) :
    mdsApiLedOn ledName colorName leds = (-1, leds) :=
  (if_neg (hnot .wcdma .red)).trans <| (if_neg (hnot .wcdma .green)).trans <|
    (if_neg (hnot .wcdma .yellow)).trans <| (if_neg (hnot .wcdma .off)).trans <|
    (if_neg (hnot .gps .red)).trans <| (if_neg (hnot .gps .green)).trans <|
    (if_neg (hnot .gps .yellow)).trans <| (if_neg (hnot .gps .off)).trans <|
    (if_neg (hnot .pwr .red)).trans <| (if_neg (hnot .pwr .green)).trans <|
    (if_neg (hnot .pwr .yellow)).trans <| if_neg (hnot .pwr .off)

theorem ledOff_unknown (hnot : ∀ led : Led, ledName ≠ led.name) :
    mdsApiLedOff ledName leds = (-1, leds) :=
  (if_neg (hnot .wcdma)).trans <| (if_neg (hnot .gps)).trans <| if_neg (hnot .pwr)

theorem ledBlink_unknown (delayOn delayOff : Int32)
    (hnot : ∀ (led : Led) (color : Color), ¬(ledName = led.name ∧ colorName = color.name)) :
    mdsApiLedBlink ledName colorName delayOn delayOff leds = (some (-1), leds) :=
  (if_neg (hnot .wcdma .red)).trans <| (if_neg (hnot .wcdma .green)).trans <|
    (if_neg (hnot .wcdma .yellow)).trans <| (if_neg (hnot .wcdma .off)).trans <|
    (if_neg (hnot .gps .red)).trans <| (if_neg (hnot .gps .green)).trans <|
    (if_neg (hnot .gps .yellow)).trans <| (if_neg (hnot .gps .off)).trans <|
    (if_neg (hnot .pwr .red)).trans <| (if_neg (hnot .pwr .green)).trans <|
    (if_neg (hnot .pwr .yellow)).trans <| if_neg (hnot .pwr .off)

end

/-! ## Writes -/

section

variable {name green red : String} {file : Attribute}
  (greenTimer redTimer : Option (Int32 × Int32)) (greenValue redValue : UInt8) (leds : Sysfs)

/-- What the trigger shows of a timer. -/
def shownTrigger : Option (Int32 × Int32) → String
  | none => "none"
  | some _ => "timer\x00"

theorem writeTrigger_trigger (name : String) :
    writeTrigger name greenTimer leds (name, .trigger) = shownTrigger greenTimer := by
  cases greenTimer with
  | none => exact Function.update_self _ _ _
  | some delays =>
      have hoff : ((name, .trigger) : String × Attribute) ≠ (name, .delayOff) := by simp
      have hon : ((name, .trigger) : String × Attribute) ≠ (name, .delayOn) := by simp
      exact (Function.update_of_ne hoff _ _).trans
        ((Function.update_of_ne hon _ _).trans (Function.update_self _ _ _))

theorem writeTrigger_other {other : String} (hother : name ≠ other ∨ file = .brightness) :
    writeTrigger other greenTimer leds (name, file) = leds (name, file) := by
  have hkey : ∀ written : Attribute, written ≠ .brightness →
      (name, file) ≠ (other, written) := by
    rintro written hwritten heq
    cases heq
    rcases hother with hname | rfl
    · exact hname rfl
    · exact hwritten rfl
  cases greenTimer with
  | none => exact Function.update_of_ne (hkey .trigger (by decide)) _ _
  | some delays =>
      exact (Function.update_of_ne (hkey .delayOff (by decide)) _ _).trans
        ((Function.update_of_ne (hkey .delayOn (by decide)) _ _).trans
          (Function.update_of_ne (hkey .trigger (by decide)) _ _))

theorem ledSetBrightness_other {other : String} (value : UInt8)
    (hother : name ≠ other ∨ file ≠ .brightness) :
    ledSetBrightness other value leds (name, file) = leds (name, file) := by
  refine Function.update_of_ne ?_ _ _
  intro heq
  cases heq
  rcases hother with hname | hfile
  · exact hname rfl
  · exact hfile rfl

/-- A branch leaves the other channels alone. -/
theorem writeBoth_other (hgreen : name ≠ green) (hred : name ≠ red) :
    writeBoth green red greenTimer redTimer greenValue redValue leds (name, file) =
      leds (name, file) := by
  rw [writeBoth, ledSetBrightness_other _ _ (Or.inl hred), ledSetBrightness_other _ _ (Or.inl hgreen),
    writeTrigger_other _ _ (Or.inl hred), writeTrigger_other _ _ (Or.inl hgreen)]

/-- The triggers and the brightness of both channels are what the branch writes. -/
theorem writeBoth_written (hne : green ≠ red) :
    writeBoth green red greenTimer redTimer greenValue redValue leds (green, .trigger) =
        shownTrigger greenTimer ∧
      writeBoth green red greenTimer redTimer greenValue redValue leds (red, .trigger) =
        shownTrigger redTimer ∧
      writeBoth green red greenTimer redTimer greenValue redValue leds (green, .brightness) =
        (if greenValue ≠ 0 then "255" else "0") ∧
      writeBoth green red greenTimer redTimer greenValue redValue leds (red, .brightness) =
        (if redValue ≠ 0 then "255" else "0") := by
  have htrigger : Attribute.trigger ≠ .brightness := by decide
  refine ⟨?_, ?_, ?_, ?_⟩
  · rw [writeBoth, ledSetBrightness_other _ _ (Or.inr htrigger),
      ledSetBrightness_other _ _ (Or.inr htrigger), writeTrigger_other _ _ (Or.inl hne),
      writeTrigger_trigger]
  · rw [writeBoth, ledSetBrightness_other _ _ (Or.inr htrigger),
      ledSetBrightness_other _ _ (Or.inr htrigger), writeTrigger_trigger]
  · rw [writeBoth, ledSetBrightness_other _ _ (Or.inl hne)]
    exact Function.update_self _ _ _
  · exact Function.update_self _ _ _

end

/-! ## One command -/

theorem green_ne_red (led : Led) : led.green ≠ led.red := by
  cases led <;> decide

/-- A channel of one light is none of another. -/
theorem channel_ne {led other : Led} (hne : led ≠ other) {channel : String}
    (hchannel : channel = led.green ∨ channel = led.red) :
    channel ≠ other.green ∧ channel ≠ other.red := by
  rcases hchannel with rfl | rfl <;> revert hne <;> cases led <;> cases other <;> decide

/-- A known command is a branch that writes both channels, or lets `pwr` blink red. -/
theorem run_known {command : Command} {led : Led} (hfor : command.IsFor led)
    (hbranch : ∀ delayOn delayOff, command ≠ .ledBlink "pwr" "red" delayOn delayOff) :
    ∃ greenTimer redTimer greenValue redValue, ∀ leds, command.run leds =
      writeBoth led.green led.red greenTimer redTimer greenValue redValue leds := by
  cases command with
  | ledOn ledName colorName =>
      obtain ⟨rfl, color, rfl⟩ := hfor
      exact ⟨_, _, _, _, fun leds => congrArg Prod.snd (ledOn_known led color leds)⟩
  | ledOff ledName =>
      cases (hfor : ledName = led.name)
      exact ⟨_, _, _, _, fun leds => congrArg Prod.snd (ledOff_known led leds)⟩
  | ledBlink ledName colorName delayOn delayOff =>
      obtain ⟨rfl, color, rfl⟩ := hfor
      have hother : led ≠ .pwr ∨ color ≠ .red := by
        rcases Decidable.em (led = .pwr) with rfl | hled
        · refine Or.inr ?_
          rintro rfl
          exact hbranch delayOn delayOff rfl
        · exact Or.inl hled
      exact ⟨_, _, _, _, fun leds =>
        congrArg Prod.snd (ledBlink_known hother delayOn delayOff leds)⟩

/-- A command that is for no light changes nothing. -/
theorem run_unknown {command : Command} (hnot : ∀ led, ¬command.IsFor led) (leds : Sysfs) :
    command.run leds = leds := by
  cases command with
  | ledOn ledName colorName =>
      exact congrArg Prod.snd (ledOn_unknown leds fun led color hboth =>
        hnot led ⟨hboth.1, color, hboth.2⟩)
  | ledOff ledName => exact congrArg Prod.snd (ledOff_unknown leds hnot)
  | ledBlink ledName colorName delayOn delayOff =>
      exact congrArg Prod.snd (ledBlink_unknown leds delayOn delayOff fun led color hboth =>
        hnot led ⟨hboth.1, color, hboth.2⟩)

theorem blinkPwrRed_other {name : String} (file : Attribute) (delayOn delayOff : Int32)
    (leds : Sysfs) (hgreen : name ≠ ledNamePwrGreenNumberName)
    (hred : name ≠ ledNamePwrRedNumberName) :
    blinkPwrRed delayOn delayOff leds (name, file) = leds (name, file) := by
  rw [blinkPwrRed, ledSetBrightness_other _ _ (Or.inl hred),
    ledSetBrightness_other _ _ (Or.inl hgreen)]
  exact (writeTrigger_other (some (delayOn, delayOff)) _ (Or.inl hred)).trans
    (writeTrigger_other none leds (Or.inl hred))

/-- The green trigger stays what it was when `pwr` begins to blink red. -/
theorem blinkPwrRed_green_trigger (delayOn delayOff : Int32) (leds : Sysfs) :
    blinkPwrRed delayOn delayOff leds (ledNamePwrGreenNumberName, .trigger) =
      leds (ledNamePwrGreenNumberName, .trigger) := by
  have hne : ledNamePwrGreenNumberName ≠ ledNamePwrRedNumberName := by decide
  rw [blinkPwrRed, ledSetBrightness_other _ _ (Or.inl hne),
    ledSetBrightness_other _ _ (Or.inr (by decide))]
  exact (writeTrigger_other (some (delayOn, delayOff)) _ (Or.inl hne)).trans
    (writeTrigger_other none leds (Or.inl hne))

/-! ## Histories -/

/-- The trigger and the brightness of both channels are the same after the command, whatever
was commanded before. -/
def LastDecides (command : Command) : Prop :=
  ∀ led : Led, command.IsFor led → ∀ channel, channel = led.green ∨ channel = led.red →
    ∀ file, file = .trigger ∨ file = .brightness → ∀ leds history others,
      runAll (history ++ [command]) leds (channel, file) =
        runAll (others ++ [command]) leds (channel, file)

/-- The command changes no channel of another light. -/
def KeepsOthers (command : Command) : Prop :=
  ∀ led : Led, ¬command.IsFor led → ∀ channel, channel = led.green ∨ channel = led.red →
    ∀ file leds, command.run leds (channel, file) = leds (channel, file)

theorem runAll_concat (history : List Command) (command : Command) (leds : Sysfs) :
    runAll (history ++ [command]) leds = command.run (runAll history leds) := by
  rw [runAll, List.foldl_append]
  rfl

theorem keepsOthers (command : Command) : KeepsOthers command := by
  intro led hnot channel hchannel file leds
  rcases Classical.em (∃ other, command.IsFor other) with ⟨other, hfor⟩ | hnone
  · have hne : led ≠ other := by
      rintro rfl
      exact hnot hfor
    obtain ⟨hgreen, hred⟩ := channel_ne hne hchannel
    rcases Classical.em (∃ delayOn delayOff, command = .ledBlink "pwr" "red" delayOn delayOff)
      with ⟨delayOn, delayOff, rfl⟩ | hbranch
    · cases other with
      | pwr => exact blinkPwrRed_other file delayOn delayOff leds hgreen hred
      | wcdma => exact absurd hfor.1 (by decide)
      | gps => exact absurd hfor.1 (by decide)
    · obtain ⟨greenTimer, redTimer, greenValue, redValue, hrun⟩ :=
        run_known hfor fun delayOn delayOff heq => hbranch ⟨delayOn, delayOff, heq⟩
      rw [hrun, writeBoth_other _ _ _ _ _ hgreen hred]
  · rw [run_unknown fun other hfor => hnone ⟨other, hfor⟩]

/-- A branch that writes both channels decides what they show. -/
theorem lastDecides_of_writes {command : Command}
    (hbranch : ∀ delayOn delayOff, command ≠ .ledBlink "pwr" "red" delayOn delayOff) :
    LastDecides command := by
  intro led hfor channel hchannel file hfile leds history others
  obtain ⟨greenTimer, redTimer, greenValue, redValue, hrun⟩ := run_known hfor hbranch
  have hwritten := fun leds => writeBoth_written greenTimer redTimer greenValue redValue leds
    (green_ne_red led)
  rw [runAll_concat, runAll_concat, hrun, hrun]
  rcases hchannel with rfl | rfl
  · rcases hfile with rfl | rfl
    · exact (hwritten _).1.trans (hwritten _).1.symm
    · exact (hwritten _).2.2.1.trans (hwritten _).2.2.1.symm
  · rcases hfile with rfl | rfl
    · exact (hwritten _).2.1.trans (hwritten _).2.1.symm
    · exact (hwritten _).2.2.2.trans (hwritten _).2.2.2.symm

/-- Red that begins to blink leaves green as it was: switched on, or blinking. -/
theorem not_lastDecides_pwr_red (delayOn delayOff : Int32) :
    ¬LastDecides (.ledBlink "pwr" "red" delayOn delayOff) := by
  intro hdecides
  have hsame := hdecides .pwr ⟨rfl, .red, rfl⟩ ledNamePwrGreenNumberName (Or.inl rfl) .trigger
    (Or.inl rfl) (fun _ => "") [.ledOn "pwr" "green"] [.ledBlink "pwr" "green" 1 1]
  rw [runAll_concat, runAll_concat] at hsame
  have hkept := fun leds => blinkPwrRed_green_trigger delayOn delayOff leds
  have hshown := ((hkept _).symm.trans hsame).trans (hkept _)
  have hsteady := (writeBoth_written none none 255 0 (fun _ => "") (green_ne_red .pwr)).1
  have hblinking :=
    (writeBoth_written (some (1, 1)) none 255 0 (fun _ => "") (green_ne_red .pwr)).1
  exact absurd (hsteady.symm.trans (hshown.trans hblinking)) (by decide)

/-- The last command alone decides what its light shows exactly when it does not let `pwr`
blink red, and no command changes another light. -/
theorem command_decides_iff (command : Command) :
    (LastDecides command ↔
        ∀ delayOn delayOff, command ≠ .ledBlink "pwr" "red" delayOn delayOff) ∧
      KeepsOthers command := by
  refine ⟨⟨fun hdecides delayOn delayOff heq => ?_, lastDecides_of_writes⟩, keepsOthers command⟩
  subst heq
  exact not_lastDecides_pwr_red delayOn delayOff hdecides

/-- Blinking red for half a second does not hide what was commanded before. -/
theorem pwr_red_shows_history : ¬∀ command, LastDecides command ∧ KeepsOthers command :=
  fun hall => not_lastDecides_pwr_red 500 500 (hall (.ledBlink "pwr" "red" 500 500)).1

end MdsFormal.Lights.LastCommand
