import MdsFormal.Mon.ReadIni

/-!
# When the configuration is what the file says

A reading that ends has filled in the programs as the dictionary has them, apart
from three things: a negative number of programs is accepted, and of a program a
number of arguments that leaves no room for the NULL behind them or is negative,
and a part of `yes` that is not all of it.
-/

namespace MdsFormal.Mon.IniFaithful

open MdsFormal.Library.CString
open MdsFormal.Library.Faults
open MdsFormal.Mon.ReadIni

variable {ini : Dictionary} {i : Nat}

/-! ## One program -/

/-- Path and name fit their arrays. -/
def NamesFit (ini : Dictionary) (i : Nat) : Prop :=
  i < 32 ∧ ∃ path name, ini.string (programKey i "path") = some path ∧
    ini.string (programKey i "name") = some name ∧ name.1.length ≤ 128 ∧
    path.1.length + 1 + name.1.length < 256

/-- All keys of the program are there, and what they hold fits. -/
structure Complete (ini : Dictionary) (i : Nat) : Prop where
  names : NamesFit ini i
  args : ArgsFit ini i
  deamon : ∃ s, ini.string (programKey i "make_deamon") = some s
  chkProcess : ∃ s, ini.string (programKey i "check_process") = some s

/-- A key of the program is missing, and what is read before it fits. -/
def Missing (ini : Dictionary) (i : Nat) : Prop :=
  ini.string (programKey i "path") = none ∨
    PathFits ini i ∧ ini.string (programKey i "name") = none ∨
    NamesFit ini i ∧ ArgsMissing ini i ∨
    NamesFit ini i ∧ ArgsFit ini i ∧ (ini.string (programKey i "make_deamon") = none ∨
      (∃ s, ini.string (programKey i "make_deamon") = some s) ∧
        ini.string (programKey i "check_process") = none)

theorem runs_readName_iff_namesFit {cmdLine : Buf 256} (hpath : readPath ini i = .ok cmdLine) :
    Runs (readName ini i cmdLine) ↔ NamesFit ini i := by
  have hi : i < 32 := (runs_readPath_iff.mp ⟨cmdLine, hpath⟩).1
  obtain ⟨path, hpath, hcmdLine⟩ := readPath_spec hpath
  have hused : cmdLine.str.length = path.1.length + 1 := by
    rw [hcmdLine, List.length_append]
    rfl
  rw [runs_readName_iff, hused]
  constructor
  · rintro ⟨name, hname, hlength, hfits⟩
    exact ⟨hi, path, name, hpath, hname, hlength, hfits⟩
  · rintro ⟨_, path', name, hpath', hname, hlength, hfits⟩
    rw [hpath] at hpath'
    cases hpath'
    exact ⟨name, hname, hlength, hfits⟩

theorem NamesFit.path (hnames : NamesFit ini i) : PathFits ini i := by
  obtain ⟨hi, path, name, hpath, _, _, hfits⟩ := hnames
  exact ⟨hi, path, hpath, by omega⟩

theorem runs_readProgram_iff : Runs (readProgram ini i) ↔ Complete ini i := by
  rw [readProgram, runs_bind_iff]
  constructor
  · rintro ⟨cmdLine, hpath, hrest⟩
    obtain ⟨⟨name, cmdLine'⟩, hname, hrest⟩ := runs_bind_iff.mp hrest
    obtain ⟨argv, hargv, hrest⟩ := runs_bind_iff.mp hrest
    obtain ⟨deamon, hdeamon, hrest⟩ := runs_bind_iff.mp hrest
    obtain ⟨chkProcess, hchk, _⟩ := runs_bind_iff.mp hrest
    exact ⟨(runs_readName_iff_namesFit hpath).mp ⟨_, hname⟩,
      (runs_readArgv_iff _).mp ⟨argv, hargv⟩, (runs_readFlag_iff _).mp ⟨deamon, hdeamon⟩,
      (runs_readFlag_iff _).mp ⟨chkProcess, hchk⟩⟩
  · rintro ⟨hnames, hargs, hdeamon, hchk⟩
    obtain ⟨cmdLine, hpath⟩ := runs_readPath_iff.mpr hnames.path
    obtain ⟨⟨name, cmdLine'⟩, hname⟩ := (runs_readName_iff_namesFit hpath).mpr hnames
    obtain ⟨argv, hargv⟩ := (runs_readArgv_iff cmdLine').mpr hargs
    obtain ⟨deamon, hdeamon⟩ := (runs_readFlag_iff _).mpr hdeamon
    obtain ⟨chkProcess, hchk⟩ := (runs_readFlag_iff _).mpr hchk
    refine ⟨cmdLine, hpath, runs_bind_iff.mpr ⟨(name, cmdLine'), hname, ?_⟩⟩
    refine runs_bind_iff.mpr ⟨argv, hargv, runs_bind_iff.mpr ⟨deamon, hdeamon, ?_⟩⟩
    exact runs_bind_iff.mpr ⟨chkProcess, hchk, runs_ok _⟩

theorem fails_readProgram_iff : Fails (readProgram ini i) ↔ Missing ini i := by
  rw [readProgram, fails_bind_iff, fails_readPath_iff]
  constructor
  · rintro (hpath | ⟨cmdLine, hpath, hrest⟩)
    · exact .inl hpath
    rcases fails_bind_iff.mp hrest with hname | ⟨⟨name, cmdLine'⟩, hname, hrest⟩
    · exact .inr (.inl ⟨runs_readPath_iff.mp ⟨_, hpath⟩, (fails_readName_iff _).mp hname⟩)
    have hnames : NamesFit ini i := (runs_readName_iff_namesFit hpath).mp ⟨_, hname⟩
    rcases fails_bind_iff.mp hrest with hargv | ⟨argv, hargv, hrest⟩
    · exact .inr (.inr (.inl ⟨hnames, (fails_readArgv_iff _).mp hargv⟩))
    have hargs : ArgsFit ini i := (runs_readArgv_iff _).mp ⟨_, hargv⟩
    refine .inr (.inr (.inr ⟨hnames, hargs, ?_⟩))
    rcases fails_bind_iff.mp hrest with hdeamon | ⟨deamon, hdeamon, hrest⟩
    · exact .inl ((fails_readFlag_iff _).mp hdeamon)
    rcases fails_bind_iff.mp hrest with hchk | ⟨chkProcess, _, hrest⟩
    · exact .inr ⟨(runs_readFlag_iff _).mp ⟨_, hdeamon⟩, (fails_readFlag_iff _).mp hchk⟩
    · exact absurd hrest (not_fails_ok _)
  · rintro (hpath | ⟨hfits, hname⟩ | ⟨hnames, hargs⟩ | ⟨hnames, hargs, hflags⟩)
    · exact .inl hpath
    · obtain ⟨cmdLine, hpath⟩ := runs_readPath_iff.mpr hfits
      exact .inr ⟨cmdLine, hpath, fails_bind_iff.mpr (.inl ((fails_readName_iff _).mpr hname))⟩
    · obtain ⟨cmdLine, hpath⟩ := runs_readPath_iff.mpr hnames.path
      obtain ⟨⟨name, cmdLine'⟩, hname⟩ := (runs_readName_iff_namesFit hpath).mpr hnames
      refine .inr ⟨cmdLine, hpath, fails_bind_iff.mpr (.inr ⟨(name, cmdLine'), hname, ?_⟩)⟩
      exact fails_bind_iff.mpr (.inl ((fails_readArgv_iff _).mpr hargs))
    · obtain ⟨cmdLine, hpath⟩ := runs_readPath_iff.mpr hnames.path
      obtain ⟨⟨name, cmdLine'⟩, hname⟩ := (runs_readName_iff_namesFit hpath).mpr hnames
      obtain ⟨argv, hargv⟩ := (runs_readArgv_iff cmdLine').mpr hargs
      refine .inr ⟨cmdLine, hpath, fails_bind_iff.mpr (.inr ⟨(name, cmdLine'), hname, ?_⟩)⟩
      refine fails_bind_iff.mpr (.inr ⟨argv, hargv, fails_bind_iff.mpr ?_⟩)
      rcases hflags with hdeamon | ⟨hdeamon, hchk⟩
      · exact .inl ((fails_readFlag_iff _).mpr hdeamon)
      · obtain ⟨deamon, hdeamon⟩ := (runs_readFlag_iff _).mpr hdeamon
        refine .inr ⟨deamon, hdeamon, fails_bind_iff.mpr (.inl ?_)⟩
        exact (fails_readFlag_iff _).mpr hchk

/-- What a program that is read to its end holds. -/
structure Filled (ini : Dictionary) (i : Nat) (p : ProgInfo) : Prop where
  cmdLine : ∃ path name, ini.string (programKey i "path") = some path ∧
    ini.string (programKey i "name") = some name ∧
    p.cmdLine.str = path.1 ++ ascii "/" ++ name.1
  argv : ArgvUpTo ini i p.cmdLine.str (1 + (cmdArgc ini i).toNat) p.argv
  deamon : ∃ s, ini.string (programKey i "make_deamon") = some s ∧
    (p.deamon = true ↔ s.1 <+: ascii "yes")
  chkProcess : ∃ s, ini.string (programKey i "check_process") = some s ∧
    (p.chkProcess = true ↔ s.1 <+: ascii "yes")

theorem readProgram_spec {p : ProgInfo} (hok : readProgram ini i = .ok p) : Filled ini i p := by
  obtain ⟨cmdLine, hpath, hrest⟩ := bind_eq_ok_iff.mp hok
  obtain ⟨⟨name, cmdLine'⟩, hname, hrest⟩ := bind_eq_ok_iff.mp hrest
  obtain ⟨argv, hargv, hrest⟩ := bind_eq_ok_iff.mp hrest
  obtain ⟨deamon, hdeamon, hrest⟩ := bind_eq_ok_iff.mp hrest
  obtain ⟨chkProcess, hchk, hrest⟩ := bind_eq_ok_iff.mp hrest
  cases hrest
  obtain ⟨path, hpath, hcmdLine⟩ := readPath_spec hpath
  obtain ⟨s, hs, hcmdLine'⟩ := readName_spec hname
  refine ⟨⟨path, s, hpath, hs, ?_⟩, readArgv_spec hargv, readFlag_spec hdeamon,
    readFlag_spec hchk⟩
  change cmdLine'.str = _
  rw [hcmdLine', hcmdLine]

/-- The program holds what the dictionary has for it. -/
structure AsConfigured (ini : Dictionary) (i : Nat) (p : ProgInfo) : Prop where
  cmdLine : ∃ path name, ini.string (programKey i "path") = some path ∧
    ini.string (programKey i "name") = some name ∧
    p.cmdLine.str = path.1 ++ ascii "/" ++ name.1
  argv_zero : p.argv[0]? = some (some p.cmdLine.str)
  args : ∃ argc : Nat, cmdArgc ini i = argc ∧
    (∀ j, 1 ≤ j → j ≤ argc →
      ∃ s, ini.string (argKey i j) = some s ∧ p.argv[j]? = some (some s.1)) ∧
    p.argv[argc + 1]? = some none
  deamon : ∃ s, ini.string (programKey i "make_deamon") = some s ∧
    (p.deamon = true ↔ s.1 = ascii "yes")
  chkProcess : ∃ s, ini.string (programKey i "check_process") = some s ∧
    (p.chkProcess = true ↔ s.1 = ascii "yes")

/-- The text is `yes`, or does not begin as it does. -/
def YesOrNo (text : Option Str) : Prop := ∀ s ∈ text, s.1 <+: ascii "yes" → s.1 = ascii "yes"

structure Regular (ini : Dictionary) (i : Nat) : Prop where
  argc : 0 ≤ cmdArgc ini i ∧ cmdArgc ini i + 1 < 64
  deamon : YesOrNo (ini.string (programKey i "make_deamon"))
  chkProcess : YesOrNo (ini.string (programKey i "check_process"))

theorem flag_iff {flag : Bool} {text : Option Str}
    (hread : ∃ s, text = some s ∧ (flag = true ↔ s.1 <+: ascii "yes")) :
    (∃ s, text = some s ∧ (flag = true ↔ s.1 = ascii "yes")) ↔ YesOrNo text := by
  obtain ⟨s, rfl, hflag⟩ := hread
  constructor
  · rintro ⟨s', hs', hexact⟩ s'' hs'' hprefix
    cases hs'
    cases hs''
    exact hexact.mp (hflag.mpr hprefix)
  · intro hyes
    refine ⟨s, rfl, fun hset => hyes s rfl (hflag.mp hset), fun hexact => hflag.mpr ⟨[], ?_⟩⟩
    rw [List.append_nil, hexact]

theorem args_iff {p : ProgInfo}
    (hargv : ArgvUpTo ini i p.cmdLine.str (1 + (cmdArgc ini i).toNat) p.argv) :
    (∃ argc : Nat, cmdArgc ini i = argc ∧
      (∀ j, 1 ≤ j → j ≤ argc →
        ∃ s, ini.string (argKey i j) = some s ∧ p.argv[j]? = some (some s.1)) ∧
      p.argv[argc + 1]? = some none) ↔ 0 ≤ cmdArgc ini i ∧ cmdArgc ini i + 1 < 64 := by
  constructor
  · rintro ⟨argc, hargc, _, hnull⟩
    have hinside : argc + 1 < 64 := (Vector.getElem?_eq_some_iff.mp hnull).1
    omega
  · rintro ⟨hlow, hhigh⟩
    obtain ⟨argc, hargc⟩ : ∃ argc : Nat, cmdArgc ini i = argc := ⟨(cmdArgc ini i).toNat, by omega⟩
    rw [hargc, Int.toNat_natCast] at hargv
    refine ⟨argc, hargc, fun j hj hjargc => hargv.filled j hj (by omega), ?_⟩
    exact hargv.empty (argc + 1) (by omega) (by omega)

theorem Filled.asConfigured_iff {p : ProgInfo} (hfilled : Filled ini i p) :
    AsConfigured ini i p ↔ Regular ini i := by
  constructor
  · rintro ⟨_, _, hargs, hdeamon, hchk⟩
    exact ⟨(args_iff hfilled.argv).mp hargs, (flag_iff hfilled.deamon).mp hdeamon,
      (flag_iff hfilled.chkProcess).mp hchk⟩
  · rintro ⟨hargs, hdeamon, hchk⟩
    exact ⟨hfilled.cmdLine, hfilled.argv.zero, (args_iff hfilled.argv).mpr hargs,
      (flag_iff hfilled.deamon).mpr hdeamon, (flag_iff hfilled.chkProcess).mpr hchk⟩

/-! ## The whole reading -/

theorem runs_storeProgram_iff (i : Nat) (progInfo : Vector ProgInfo 32) :
    Runs (storeProgram ini i progInfo) ↔ Complete ini i := by
  rw [storeProgram, runs_bind_iff, ← runs_readProgram_iff]
  constructor
  · rintro ⟨p, hp, _⟩
    exact ⟨p, hp⟩
  · rintro ⟨p, hp⟩
    exact ⟨p, hp, runs_ok _⟩

theorem fails_storeProgram_iff (i : Nat) (progInfo : Vector ProgInfo 32) :
    Fails (storeProgram ini i progInfo) ↔ Missing ini i := by
  rw [storeProgram, fails_bind_iff, fails_readProgram_iff]
  refine or_iff_left ?_
  rintro ⟨p, _, hrest⟩
  exact not_fails_ok _ hrest

/-- The programs before `k` are read. -/
def FilledUpTo (ini : Dictionary) (k : Nat) (progInfo : Vector ProgInfo 32) : Prop :=
  ∀ i < k, ∃ p, progInfo[i]? = some p ∧ Filled ini i p

theorem filledUpTo_succ {k : Nat} {progInfo progInfo' : Vector ProgInfo 32}
    (hfilled : FilledUpTo ini k progInfo) (hok : storeProgram ini k progInfo = .ok progInfo') :
    FilledUpTo ini (k + 1) progInfo' := by
  have hk : k < 32 := ((runs_storeProgram_iff k progInfo).mp ⟨_, hok⟩).names.1
  obtain ⟨p, hp, hrest⟩ := bind_eq_ok_iff.mp hok
  cases hrest
  intro i hi
  rcases Nat.lt_or_eq_of_le (Nat.le_of_lt_succ hi) with hbefore | rfl
  · rw [Vector.getElem?_setIfInBounds_ne (by omega)]
    exact hfilled i hbefore
  · exact ⟨p, Vector.getElem?_setIfInBounds_self_of_lt hk, readProgram_spec hp⟩

/-- The reading fails, or `prog_info` holds what the dictionary has; nothing is written
outside of an array. -/
def Faithful (ini : Option Dictionary) : Prop :=
  match readIni ini with
  | .error .returnFail => True
  | .error .outside => False
  | .ok globals => 0 ≤ globals.prgCnt ∧ globals.prgCnt ≤ 32 ∧ ∃ dict, ini = some dict ∧
      ∀ i : Nat, i < globals.prgCnt → ∃ p, globals.progInfo[i]? = some p ∧ AsConfigured dict i p

def prgCnt (ini : Dictionary) : Int := iniparserGetint ini "main_info:prg_cnt" (-1)

def MainMissing (ini : Dictionary) : Prop :=
  prgCnt ini = -1 ∨ iniparserGetint ini "main_info:run_retry" (-1) = -1 ∨
    iniparserGetint ini "main_info:check_process_interval" (-1) = -1

/-- Some key is missing, and the programs before it fit; or all programs fit, and hold
nothing that is read as something else. -/
def Sound (ini : Dictionary) : Prop :=
  MainMissing ini ∨
    (∃ k < (prgCnt ini).toNat, Missing ini k ∧ ∀ i < k, Complete ini i) ∨
    0 ≤ prgCnt ini ∧ ∀ i < (prgCnt ini).toNat, Complete ini i ∧ Regular ini i

theorem fails_readIni_of_mainMissing (hmissing : MainMissing ini) :
    readIni (some ini) = .error .returnFail := by
  have hfirst := @fails_getint_iff ini "main_info:prg_cnt"
  have hsecond := @fails_getint_iff ini "main_info:run_retry"
  have hthird := @fails_getint_iff ini "main_info:check_process_interval"
  change Fails (readIni (some ini))
  by_cases hcnt : prgCnt ini = -1
  · exact fails_bind_iff.mpr (.inl (hfirst.mpr hcnt))
  refine fails_bind_iff.mpr (.inr ⟨prgCnt ini, getint_eq_ok_iff.mpr ⟨hcnt, rfl⟩, ?_⟩)
  by_cases hretry : iniparserGetint ini "main_info:run_retry" (-1) = -1
  · exact fails_bind_iff.mpr (.inl (hsecond.mpr hretry))
  refine fails_bind_iff.mpr (.inr ⟨_, getint_eq_ok_iff.mpr ⟨hretry, rfl⟩, ?_⟩)
  rcases hmissing with hmissing | hmissing | hmissing
  · exact absurd hmissing hcnt
  · exact absurd hmissing hretry
  · exact fails_bind_iff.mpr (.inl (hthird.mpr hmissing))

theorem readIni_of_not_mainMissing (hmain : ¬MainMissing ini) :
    readIni (some ini) =
      (loop (storeProgram ini) (prgCnt ini).toNat 0 (.replicate 32 .zero) >>= fun progInfo =>
        pure ⟨progInfo, prgCnt ini, iniparserGetint ini "main_info:run_retry" (-1),
          iniparserGetint ini "main_info:check_process_interval" (-1)⟩) := by
  rw [MainMissing, not_or, not_or] at hmain
  have hfirst := getint_eq_ok_iff.mpr ⟨hmain.1, rfl⟩
  have hsecond := getint_eq_ok_iff.mpr ⟨hmain.2.1, rfl⟩
  have hthird := getint_eq_ok_iff.mpr ⟨hmain.2.2, rfl⟩
  exact (bind_of_eq_ok hfirst).trans ((bind_of_eq_ok hsecond).trans (bind_of_eq_ok hthird))

theorem runs_programs_iff (count : Nat) (progInfo : Vector ProgInfo 32) :
    Runs (loop (storeProgram ini) count 0 progInfo) ↔ ∀ i < count, Complete ini i := by
  rw [runs_loop_iff runs_storeProgram_iff, Nat.zero_add]
  exact ⟨fun hall i hi => hall i (Nat.zero_le i) hi, fun hall i _ hi => hall i hi⟩

theorem fails_programs_iff (count : Nat) (progInfo : Vector ProgInfo 32) :
    Fails (loop (storeProgram ini) count 0 progInfo) ↔
      ∃ k < count, Missing ini k ∧ ∀ i < k, Complete ini i := by
  refine (loop_eq_error_iff runs_storeProgram_iff fails_storeProgram_iff count 0
    progInfo).trans ?_
  constructor
  · rintro ⟨k, _, hk, hmissing, hbefore⟩
    exact ⟨k, by omega, hmissing, fun i hi => hbefore i (Nat.zero_le i) hi⟩
  · rintro ⟨k, hk, hmissing, hbefore⟩
    exact ⟨k, Nat.zero_le k, by omega, hmissing, fun i _ hi => hbefore i hi⟩

theorem programs_spec {count : Nat} {progInfo progInfo' : Vector ProgInfo 32}
    (hok : loop (storeProgram ini) count 0 progInfo = .ok progInfo') :
    FilledUpTo ini count progInfo' := by
  rw [← Nat.zero_add count]
  refine loop_invariant (fun k s s' _ _ => filledUpTo_succ) ?_ hok
  intro i hi
  omega

/-- At its end, a reading is faithful exactly if each program is regular. -/
theorem asConfigured_programs_iff {progInfo : Vector ProgInfo 32}
    (hok : loop (storeProgram ini) (prgCnt ini).toNat 0 (.replicate 32 .zero) = .ok progInfo) :
    (∀ i : Nat, i < prgCnt ini → ∃ p, progInfo[i]? = some p ∧ AsConfigured ini i p) ↔
      ∀ i < (prgCnt ini).toNat, Complete ini i ∧ Regular ini i := by
  have hcomplete := (runs_programs_iff _ _).mp ⟨progInfo, hok⟩
  constructor
  · intro hall i hi
    obtain ⟨p, hp, hfilled⟩ := programs_spec hok i hi
    obtain ⟨p', hp', hconfigured⟩ := hall i (by omega)
    rw [hp] at hp'
    cases hp'
    exact ⟨hcomplete i hi, hfilled.asConfigured_iff.mp hconfigured⟩
  · intro hall i hi
    obtain ⟨p, hp, hfilled⟩ := programs_spec hok i (by omega)
    exact ⟨p, hp, hfilled.asConfigured_iff.mpr (hall i (by omega)).2⟩

theorem prgCnt_le (hall : ∀ i < (prgCnt ini).toNat, Complete ini i) : prgCnt ini ≤ 32 := by
  refine Int.not_lt.mp fun hmany => ?_
  have hlast := (hall 32 (by omega)).names.1
  omega

theorem faithful_iff_of_not_mainMissing (hmain : ¬MainMissing ini) :
    Faithful (some ini) ↔
      (∃ k < (prgCnt ini).toNat, Missing ini k ∧ ∀ i < k, Complete ini i) ∨
        0 ≤ prgCnt ini ∧ ∀ i < (prgCnt ini).toNat, Complete ini i ∧ Regular ini i := by
  rw [Faithful, readIni_of_not_mainMissing hmain, ← fails_programs_iff _ (.replicate 32 .zero)]
  cases hrun : loop (storeProgram ini) (prgCnt ini).toNat 0 (.replicate 32 .zero) with
  | ok progInfo =>
      have hcomplete := (runs_programs_iff _ _).mp ⟨progInfo, hrun⟩
      rw [or_iff_right (not_fails_ok progInfo), ← asConfigured_programs_iff hrun]
      change (0 ≤ prgCnt ini ∧ prgCnt ini ≤ 32 ∧ ∃ dict, some ini = some dict ∧ _) ↔ _
      constructor
      · rintro ⟨hlow, _, dict, hdict, hall⟩
        cases hdict
        exact ⟨hlow, hall⟩
      · rintro ⟨hlow, hall⟩
        exact ⟨hlow, prgCnt_le hcomplete, ini, rfl, hall⟩
  | error stop =>
      have hincomplete : ¬∀ i < (prgCnt ini).toNat, Complete ini i ∧ Regular ini i := by
        intro hall
        apply not_runs_error stop
        rw [← hrun, runs_programs_iff]
        exact fun i hi => (hall i hi).1
      rw [or_iff_left fun hregular => hincomplete hregular.2]
      cases stop with
      | returnFail => exact iff_of_true trivial rfl
      | outside =>
          refine iff_of_false id fun hfails => ?_
          cases hfails

/--
Whatever the ini file holds, `read_ini` fills in what it says or fails, without a write
outside of an array, exactly if the dictionary is sound.
-/
theorem readIni_faithful_iff (ini : Option Dictionary) :
    Faithful ini ↔ ∀ dict, ini = some dict → Sound dict := by
  cases ini with
  | none =>
      refine iff_of_true trivial fun dict hdict => ?_
      cases hdict
  | some dict =>
      have hsound : (∀ dict', some dict = some dict' → Sound dict') ↔ Sound dict := by
        constructor
        · intro hall
          exact hall dict rfl
        · rintro hsound dict' hdict
          cases hdict
          exact hsound
      rw [hsound, Sound]
      by_cases hmain : MainMissing dict
      · refine iff_of_true ?_ (.inl hmain)
        rw [Faithful, fails_readIni_of_mainMissing hmain]
        trivial
      · rw [or_iff_right hmain, faithful_iff_of_not_mainMissing hmain]

/-- One program, with a path of 255 bytes and nothing else. -/
def longPath : Dictionary where
  int key := if key = "main_info:prg_cnt" then some 1 else some 5
  string key :=
    if key = "program_0:path" then some ⟨List.replicate 255 120, by decide +kernel⟩ else none

/-- The NUL behind the slash is written outside of `cmd_line`. -/
theorem not_faithful_longPath : ¬Faithful (some longPath) := by
  have houtside : readIni (some longPath) = .error .outside := by
    decide +kernel
  rw [Faithful, houtside]
  exact id

end MdsFormal.Mon.IniFaithful
