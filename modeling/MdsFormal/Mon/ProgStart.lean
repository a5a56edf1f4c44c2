import MdsFormal.Process.SystemFork

/-!
# Starting the configured programs

`prog_start` of the monitor.  Each program is launched until a launch does not return
-1 or the retries are used up; the counter `f_tmp` is what is left of them.
-/

namespace MdsFormal.Mon.ProgStart

open Process.SystemFork

/-- `PROG_INFO_T`, without the arguments that only `execv` reads.  The two flags are
`TRUE` or `FALSE`, which is all that `read_ini` stores. -/
structure ProgInfo where
  name : List Char
  cmdLine : List UInt8
  deamon : Bool
  chkProcess : Bool
  numThread : Int
  curNumThread : Int

/-- What one pass of the launch loop gets from the system. -/
structure Attempt where
  access : Nat → Bool
  run : ForkRun

/-- The value of `ret` after one pass; a missing file counts as launched. -/
def launch (prog : ProgInfo) (attempt : Attempt) : Option Int :=
  if mdsApiCheckExistFile attempt.access 3 then
    mdsApiSystemFork (some prog.cmdLine) prog.deamon attempt.run
  else some 0

/-- What the launch loop leaves: the values of `ret` in order, and `f_tmp`.  A launch that
has not returned is the last entry, and there is no `f_tmp` then. -/
structure Tried where
  attempts : List (Option Int)
  fTmp : Option Int
  deriving DecidableEq

def Tried.prepend (ret : Int) (tried : Tried) : Tried := ⟨some ret :: tried.attempts, tried.fTmp⟩

/-- The `do .. while((ret == -1) && (f_tmp--))`; `k` passes have been made. -/
def tryLoop (launch : Nat → Option Int) : Nat → Nat → Tried
  | fTmp, k =>
      match launch k with
      | none => ⟨[none], none⟩
      | some ret =>
          if ret = -1 then
            match fTmp with
            | 0 => ⟨[some ret], some (-1)⟩
            | fTmp + 1 => (tryLoop launch fTmp (k + 1)).prepend ret
          else ⟨[some ret], some fTmp⟩

inductive Ending where
  | exited
  | alive
  | waiting
  deriving DecidableEq

/-- What `prog_start` has done: the attempts for each program it came to, and how it ended:
in `exit(1)`, in the alive command, or in a launch that does not return. -/
structure Started where
  tried : List (List (Option Int))
  ending : Ending
  deriving DecidableEq

def Started.prepend (attempts : List (Option Int)) (started : Started) : Started :=
  ⟨attempts :: started.tried, started.ending⟩

/-- The loop over the programs from number `i` on, with `count` of them left. -/
def startFrom (forkRetryCnt : Nat) (launch : Nat → Nat → Option Int) : Nat → Nat → Started
  | 0, _ => ⟨[], .alive⟩
  | count + 1, i =>
      let tried := tryLoop (launch i) forkRetryCnt 0
      match tried.fTmp with
      | none => ⟨[tried.attempts], .waiting⟩
      | some fTmp =>
          if fTmp = 0 then ⟨[tried.attempts], .exited⟩
          else (startFrom forkRetryCnt launch count (i + 1)).prepend tried.attempts

/-- `prog_start`; `launch i k` is what the k-th launch of program `i` returns. -/
def progStart (prgCnt forkRetryCnt : Nat) (launch : Nat → Nat → Option Int) : Started :=
  startFrom forkRetryCnt launch prgCnt 0

/-- The launches of the configured programs. -/
def launches (progInfo : List ProgInfo) (attempts : Nat → Nat → Attempt) (i k : Nat) :
    Option Int :=
  progInfo[i]?.bind fun prog => launch prog (attempts i k)

end MdsFormal.Mon.ProgStart
