/-!
# Starting a command

`mds_api_system_fork` as its caller sees it, and `mds_api_check_exist_file`, which
the callers ask first.  What the system calls return is given with the call, and so is
the value that the local `status` holds before anything is assigned to it.
-/

namespace MdsFormal.Process.SystemFork

inductive ForkReturn where
  | failed
  | child
  | parent (pid : Nat)
  deriving DecidableEq

/-- A wait status has 16 bits, so it is never negative. -/
inductive WaitReturn where
  | interrupted
  | failed
  | reaped (status : UInt16)
  deriving DecidableEq

/-- What one call gets from the system: the result of `system(":")`, of `fork` and of each
`waitpid`, and what the local `status` holds when the call starts. -/
structure ForkRun where
  shell : Int
  fork : ForkReturn
  waits : List WaitReturn
  status : Int

/-- The loop around `waitpid`; `none` while the wait is not over. -/
def waitLoop : List WaitReturn → Option Int
  | [] => none
  | .interrupted :: rest => waitLoop rest
  | .failed :: _ => some (-1)
  | .reaped status :: _ => some status.toNat

/-- `mds_api_system_fork`; `none` when it does not return to its caller: the child's branch
ends in `execv` or `exit(127)`, and a wait may never be over. -/
def mdsApiSystemFork (command : Option (List UInt8)) (deamon : Bool) (run : ForkRun) :
    Option Int :=
  match command with
  | none => some (if run.shell = 0 then 1 else 0)
  | some _ =>
      match run.fork with
      | .failed => some (-1)
      | .child => none
      | .parent _ =>
          -- only a wait assigns to `status` here
          if deamon = false then waitLoop run.waits else some run.status

/-- The `while(timeout-- > 0)` loop; the k-th `access` finds the file or not. -/
def existLoop (access : Nat → Bool) : Nat → Nat → Bool
  | 0, _ => false
  | timeout + 1, k => if access k then true else existLoop access timeout (k + 1)

/-- `mds_api_check_exist_file`; `true` is `DEFINES_MDS_API_OK`. -/
def mdsApiCheckExistFile (access : Nat → Bool) (timeout : Nat) : Bool :=
  if timeout = 0 then access 0 else existLoop access timeout 0

/-! ## When the result is -1 -/

/-- The wait ends with an error other than an interruption. -/
def WaitFails : List WaitReturn → Prop
  | .interrupted :: rest => WaitFails rest
  | .failed :: _ => True
  | _ => False

def ForkRun.Forked (run : ForkRun) : Prop := ∃ pid, run.fork = .parent pid

theorem waitLoop_eq_neg_one_iff (waits : List WaitReturn) :
    waitLoop waits = some (-1) ↔ WaitFails waits := by
  induction waits with
  | nil => exact iff_of_false (by simp [waitLoop]) id
  | cons first rest ih =>
      cases first with
      | interrupted => exact ih
      | failed => exact iff_of_true rfl trivial
      | reaped status =>
          refine iff_of_false (fun hret => ?_) id
          have hstatus : (status.toNat : Int) = -1 := Option.some.inj hret
          omega

/-- The three ways to -1; the last one is the value nobody assigned. -/
theorem mdsApiSystemFork_eq_neg_one_iff (command : List UInt8) (deamon : Bool) (run : ForkRun) :
    mdsApiSystemFork (some command) deamon run = some (-1) ↔
      run.fork = .failed ∨
        run.Forked ∧ (deamon = false ∧ WaitFails run.waits ∨ deamon = true ∧ run.status = -1) := by
  obtain ⟨shell, fork, waits, status⟩ := run
  unfold mdsApiSystemFork ForkRun.Forked
  cases fork with
  | failed => simp
  | child => simp
  | parent pid =>
      cases deamon with
      | false => simp [waitLoop_eq_neg_one_iff]
      | true => simp

end MdsFormal.Process.SystemFork
