import Mathlib.Data.List.Forall2
import MdsFormal.Library.LabelledRun
import MdsFormal.Library.Tokens
import MdsFormal.Logd.Selection

/-!
# From the processes to the lines of the daemon

A process takes its name from its command line and sends what it logs to the socket of the
daemon, which may refuse it.  The daemon may be stopped and started with other arguments.  In
every order of these steps the lines are those of a queue of messages between the processes
and a reader that selects some of them.
-/

namespace MdsFormal.Logd.Delivery

open MdsFormal.Library.CString
open MdsFormal.Library.Faults
open MdsFormal.Library.LabelledRun
open MdsFormal.Library.Tokens
open MdsFormal.Logd.Message
open MdsFormal.Logd.PrintLog
open MdsFormal.Logd.Selection
open MdsFormal.Storage.Crc16 (Endian)

/-! ## The processes -/

/-- The globals of `logd_clnt.c`: the name, whether `_logfd` is a socket, and whether
`logd_addr` has been filled in. -/
structure Client where
  pname : Option ProcessName
  logfd : Bool
  logdAddr : Bool

/-- The globals of a program that starts. -/
def Client.fresh : Client := ⟨none, false, false⟩

/-- The bytes up to the first newline, which is one of them. -/
def firstLine : List UInt8 → List UInt8
  | [] => []
  | byte :: rest => if byte = 10 then [byte] else byte :: firstLine rest

/-- `fgets` at the front of a file. -/
def fgets (size : Nat) (content : List UInt8) : Option (List UInt8) :=
  if content = [] then none else some (firstLine (content.take (size - 1)))

def isSlash (byte : UInt8) : Bool := byte = 47

/-- `for(;;)` over the tokens that are left; each of them takes a character at least. -/
def lastToken : Nat → List UInt8 → List UInt8 → List UInt8
  | 0, trPrev, _ => trPrev
  | fuel + 1, trPrev, text =>
      match strtokR isSlash text with
      | none => trPrev
      | some (tr, rest) => lastToken fuel tr rest

namespace Client

/-- `logd_init`; `cmdline` is what the file holds, if it can be opened.  `none` is a copy from
`NULL`, or one that does not fit `process_name`. -/
def logdInit (client : Client) (cmdline : Option (List UInt8)) : Option Client :=
  match cmdline.bind (fgets 128) with
  | none => some { client with logdAddr := true }
  | some tmp =>
      match strtokR isSlash (tmp.takeWhile (· ≠ 0)) with
      | none => none
      | some (tr, rest) =>
          let trPrev := lastToken (rest.length + 1) tr rest
          if hfits : 0 ∉ trPrev ∧ trPrev.length ≤ 31 then
            some ⟨some ⟨trPrev, hfits⟩, client.logfd, true⟩
          else none

/-- `logd_open`; `socket` says whether there is one to be had. -/
def logdOpen (client : Client) (socket : Bool) : Client := { client with logfd := socket }

/-- `logd`, with the text that the format gives: what it sends to the daemon, where it has a
socket and knows the address.  `none` is a text that does not fit `tmp`. -/
def logd (endian : Endian) (client : Client) (socket : Bool) (service : Service) (level : Level)
    (text : Str) : Option (Client × Option (List UInt8)) :=
  if client.logfd = false ∧ socket = false then some (client, none)
  else if hfits : text.1.length ≤ 1023 then
    let datagram := Message.logd endian client.pname true (BitVec.ofNat 32 service.code)
      (BitVec.ofNat 32 level.code) ⟨text.1, text.2, hfits⟩
    some ({ client with logfd := true }, if client.logdAddr then datagram else none)
  else none

end Client

/-! ## The system -/

/-- A daemon in its loop, and the datagrams that wait at its socket. -/
structure Daemon where
  cfg : Config
  lMsg : Buf sizeofLogMessage
  queue : List (List UInt8)

structure System (Pid : Type) where
  clients : Pid → Client
  daemon : Option Daemon
  written : List UInt8

inductive Action (Pid : Type) where
  /-- A program starts in a process. -/
  | exec (pid : Pid)
  | logdInit (pid : Pid) (cmdline : Option (List UInt8))
  | logdOpen (pid : Pid) (socket : Bool)
  /-- `room` says whether the queue of the daemon takes the message. -/
  | logd (pid : Pid) (socket room : Bool) (service : Service) (level : Level) (text : Str)
  /-- `SIGINT` to the daemon. -/
  | terminate
  /-- `main` of a daemon, after the one before was stopped; `bound` says whether it gets its
  socket. -/
  | main (argv : List Str) (bound : Bool) (lMsg : Buf sizeofLogMessage)
  /-- A turn of `while(1)`, whose `recvfrom` may be interrupted. -/
  | turn (clock : Clock) (interrupted : Bool)

section

variable {Pid : Type} [DecidableEq Pid]

def System.boot : System Pid := ⟨fun _ => .fresh, none, []⟩

def System.setClient (system : System Pid) (pid : Pid) (client : Client) : System Pid :=
  { system with clients := Function.update system.clients pid client }

/-- `sendto` with `MSG_DONTWAIT`. -/
def Daemon.sendto (daemon : Daemon) (room : Bool) (datagram : Option (List UInt8)) : Daemon :=
  match datagram with
  | none => daemon
  | some bytes => if room then { daemon with queue := daemon.queue ++ [bytes] } else daemon

/-- What `recvfrom` takes from the queue; `none` waits. -/
def recvfromQueue {α : Type} (interrupted : Bool) (queue : List α) : Option (Option α × List α) :=
  match interrupted, queue with
  | true, queue => some (none, queue)
  | false, [] => none
  | false, first :: rest => some (some first, rest)

/-- What a turn of the daemon writes, and the daemon behind it. -/
def Daemon.turn (endian : Endian) (daemon : Daemon) (clock : Clock) (interrupted : Bool) :
    Option (List UInt8 × Daemon) :=
  match recvfromQueue interrupted daemon.queue with
  | none => some ([], daemon)
  | some (received, queue) =>
      match serve endian daemon.cfg clock daemon.lMsg received with
      | .error _ => none
      | .ok (written, lMsg) => some (written, ⟨daemon.cfg, lMsg, queue⟩)

/-- A step of the system; `none` is undefined behaviour. -/
def step (endian : Endian) (system : System Pid) : Action Pid → Option (System Pid)
  | .exec pid => some (system.setClient pid .fresh)
  | .logdInit pid cmdline =>
      ((system.clients pid).logdInit cmdline).map fun client => system.setClient pid client
  | .logdOpen pid socket => some (system.setClient pid ((system.clients pid).logdOpen socket))
  | .logd pid socket room service level text =>
      ((system.clients pid).logd endian socket service level text).map fun (client, datagram) =>
        { system.setClient pid client with
          daemon := system.daemon.map fun daemon => daemon.sendto room datagram }
  | .terminate => some { system with daemon := none }
  | .main argv bound lMsg =>
      let daemon := if bound then (configure argv).map fun cfg => ⟨cfg, lMsg, []⟩ else none
      some { system with daemon := daemon }
  | .turn clock interrupted =>
      match system.daemon with
      | none => some system
      | some daemon =>
          (daemon.turn endian clock interrupted).map fun (written, daemon) =>
            ⟨system.clients, some daemon, system.written ++ written⟩

/-! ## What it is for -/

/-- A process as its messages show it. -/
structure Sender where
  name : Option (List UInt8)
  socket : Bool
  initialised : Bool

/-- The arguments of a reader, and the messages that wait for it. -/
structure Reader where
  argv : List Str
  waiting : List Entry

structure Spec (Pid : Type) where
  senders : Pid → Sender
  reader : Option Reader
  shown : List (Clock × Entry)

/-- The last component of the path that a command line starts with. -/
def componentOf (cmdline : List UInt8) : Option (List UInt8) :=
  (tokens isSlash ((firstLine (cmdline.take 127)).takeWhile (· ≠ 0))).getLast?

/-- `logd_init` for the sender: a name must have a component, which must be short. -/
def Sender.init (sender : Sender) (cmdline : Option (List UInt8)) : Option Sender :=
  match cmdline.getD [] with
  | [] => some { sender with initialised := true }
  | content =>
      match componentOf content with
      | none => none
      | some name => if name.length < 32 then some ⟨some name, sender.socket, true⟩ else none

/-- `logd` for the sender: the text must be short, and only an initialised sender is heard. -/
def Sender.log (sender : Sender) (socket : Bool) (service : Service) (level : Level)
    (text : Str) : Option (Sender × Option Entry) :=
  if sender.socket || socket then
    if text.1.length < 1024 then
      let entry := ⟨sender.name.getD noName.1, level, service, text.1⟩
      some ({ sender with socket := true }, if sender.initialised then some entry else none)
    else none
  else some (sender, none)

/-- The arguments neither ask for help nor end in an `-app` without a name. -/
def Starts (argv : List Str) : Prop :=
  (∀ first ∈ argv[1]?, ¬ascii "--help" <+: first.1) ∧
    ∀ last ∈ argv.getLast?, last.1 ≠ ascii "-app"

instance decidableStarts (argv : List Str) : Decidable (Starts argv) :=
  inferInstanceAs (Decidable ((∀ first ∈ argv[1]?, ¬ascii "--help" <+: first.1) ∧
    ∀ last ∈ argv.getLast?, last.1 ≠ ascii "-app"))

/-- An empty message is what an interrupted turn has. -/
def noEntry : Entry := ⟨[], .debug, .common, []⟩

namespace Spec

def boot : Spec Pid := ⟨fun _ => ⟨none, false, false⟩, none, []⟩

def setSender (spec : Spec Pid) (pid : Pid) (sender : Sender) : Spec Pid :=
  { spec with senders := Function.update spec.senders pid sender }

/-- What a turn of the reader shows, and the reader behind it. -/
def readerTurn (reader : Reader) (clock : Clock) (interrupted : Bool) :
    List (Clock × Entry) × Reader :=
  match recvfromQueue interrupted reader.waiting with
  | none => ([], reader)
  | some (received, waiting) =>
      let entry := received.getD noEntry
      (if Selects reader.argv entry then [(clock, entry)] else [], ⟨reader.argv, waiting⟩)

def step (spec : Spec Pid) : Action Pid → Option (Spec Pid)
  | .exec pid => some (spec.setSender pid ⟨none, false, false⟩)
  | .logdInit pid cmdline =>
      ((spec.senders pid).init cmdline).map fun sender => spec.setSender pid sender
  | .logdOpen pid socket =>
      some (spec.setSender pid { spec.senders pid with socket := socket })
  | .logd pid socket room service level text =>
      ((spec.senders pid).log socket service level text).map fun (sender, entry) =>
        let heard := if room then entry.toList else []
        { spec.setSender pid sender with
          reader := spec.reader.map fun reader => ⟨reader.argv, reader.waiting ++ heard⟩ }
  | .terminate => some { spec with reader := none }
  | .main argv bound _ =>
      let reader := if bound ∧ Starts argv then some ⟨argv, []⟩ else none
      some { spec with reader := reader }
  | .turn clock interrupted =>
      match spec.reader with
      | none => some spec
      | some reader =>
          let (shown, reader) := readerTurn reader clock interrupted
          some ⟨spec.senders, some reader, spec.shown ++ shown⟩

/-- The lines of what was shown. -/
def lines (spec : Spec Pid) : List UInt8 :=
  spec.shown.flatMap fun (clock, entry) => entry.line clock

end Spec

/-! ## The name of a process -/

theorem lastToken_eq {fuel : Nat} {trPrev text : List UInt8} (hfuel : text.length < fuel) :
    lastToken fuel trPrev text = (tokens isSlash text).getLastD trPrev := by
  induction fuel generalizing trPrev text with
  | zero => exact absurd hfuel (Nat.not_lt_zero _)
  | succ fuel ih =>
      have hspec := @strtokR_spec UInt8 isSlash text
      rw [lastToken]
      cases hnext : strtokR isSlash text with
      | none =>
          rw [hnext] at hspec
          dsimp only at hspec ⊢
          rw [hspec]
          rfl
      | some next =>
          obtain ⟨tr, rest⟩ := next
          rw [hnext] at hspec
          obtain ⟨htokens, hshort⟩ := hspec
          dsimp only
          rw [ih (by omega), htokens, List.getLastD_cons]

/-- A process as its globals show it. -/
def Client.sender (client : Client) : Sender :=
  ⟨client.pname.map Subtype.val, client.logfd, client.logdAddr⟩

/-- The loop ends with the last component, which has no NUL. -/
theorem component_of_first {text tr rest : List UInt8}
    (hfirst : strtokR isSlash (text.takeWhile (· ≠ 0)) = some (tr, rest)) :
    (tokens isSlash (text.takeWhile (· ≠ 0))).getLast? =
        some (lastToken (rest.length + 1) tr rest) ∧
      0 ∉ lastToken (rest.length + 1) tr rest := by
  have hspec := @strtokR_spec UInt8 isSlash (text.takeWhile (· ≠ 0))
  rw [hfirst] at hspec
  have hlast : (tokens isSlash (text.takeWhile (· ≠ 0))).getLast? =
      some (lastToken (rest.length + 1) tr rest) := by
    rw [hspec.1, lastToken_eq (Nat.lt_succ_self _), List.getLast?_cons, List.getLastD_eq_getLast?]
  refine ⟨hlast, fun hnul => ?_⟩
  have hmem := subset_of_mem_tokens (List.mem_of_getLast? hlast) hnul
  have hpos := List.mem_takeWhile_imp hmem
  exact of_decide_eq_true hpos rfl

theorem logdInit_sender (client : Client) (cmdline : Option (List UInt8)) :
    (client.logdInit cmdline).map Client.sender = client.sender.init cmdline := by
  match cmdline with
  | none => rfl
  | some [] => rfl
  | some (byte :: more) =>
      have hfgets : (some (byte :: more)).bind (fgets 128) =
          some (firstLine ((byte :: more).take 127)) := by
        rw [Option.bind_some, fgets, if_neg (List.cons_ne_nil byte more)]
      simp only [Client.logdInit, hfgets, Sender.init, Option.getD_some, componentOf]
      generalize firstLine ((byte :: more).take 127) = line
      cases hfirst : strtokR isSlash (line.takeWhile (· ≠ 0)) with
      | none =>
          have hspec := @strtokR_spec UInt8 isSlash (line.takeWhile (· ≠ 0))
          rw [hfirst] at hspec
          dsimp only at hspec
          rw [hspec]
          rfl
      | some first =>
          obtain ⟨tr, rest⟩ := first
          obtain ⟨hlast, hnul⟩ := component_of_first hfirst
          rw [hlast]
          dsimp only
          by_cases hlength : (lastToken (rest.length + 1) tr rest).length ≤ 31
          · rw [dif_pos ⟨hnul, hlength⟩, if_pos (Nat.lt_succ_of_le hlength)]
            rfl
          · rw [dif_neg fun hfits => hlength hfits.2,
              if_neg fun hshort => hlength (Nat.le_of_lt_succ hshort)]
            rfl

/-! ## Messages on their way -/

/-- The bytes of a datagram show the daemon this message, whatever it received before. -/
def Carries (endian : Endian) (datagram : List UInt8) (entry : Entry) : Prop :=
  ∀ lMsg : Buf sizeofLogMessage,
    Shows (LogMessage.ofBytes endian (Message.turn lMsg (some datagram))) entry

theorem carries_logd (endian : Endian) (pname : Option ProcessName) (service : Service)
    (level : Level) (tmp : LogText) :
    Option.Rel (Carries endian)
      (Message.logd endian pname true (BitVec.ofNat 32 service.code)
        (BitVec.ofNat 32 level.code) tmp)
      (some ⟨(pname.getD noName).1, level, service, tmp.1⟩) := by
  refine .some fun lMsg => ?_
  exact shows_turn endian lMsg (.logged pname service level tmp)

theorem logd_sender (endian : Endian) (client : Client) (socket : Bool) (service : Service)
    (level : Level) (text : Str) :
    Option.Rel
      (fun sent heard => sent.1.sender = heard.1 ∧ Option.Rel (Carries endian) sent.2 heard.2)
      (client.logd endian socket service level text)
      (client.sender.log socket service level text) := by
  obtain ⟨pname, logfd, logdAddr⟩ := client
  have hname : (pname.map Subtype.val).getD noName.1 = (pname.getD noName).1 := by
    cases pname <;> rfl
  rw [Client.logd, Sender.log]
  by_cases hsocket : logfd = false ∧ socket = false
  · obtain ⟨rfl, rfl⟩ := hsocket
    exact .some ⟨rfl, .none⟩
  · have hhas : (logfd || socket) = true := by
      revert hsocket
      cases logfd <;> cases socket <;> decide
    have hsender : ((Client.mk pname logfd logdAddr).sender.socket || socket) = true := hhas
    rw [if_neg hsocket, if_pos hsender]
    by_cases hshort : text.1.length ≤ 1023
    · rw [dif_pos hshort, if_pos (Nat.lt_succ_of_le hshort)]
      refine .some ⟨rfl, ?_⟩
      cases logdAddr with
      | false => exact .none
      | true =>
          have hcarries := carries_logd endian pname service level ⟨text.1, text.2, hshort⟩
          rw [← hname] at hcarries
          exact hcarries
    · rw [dif_neg hshort, if_neg fun hlt => hshort (Nat.le_of_lt_succ hlt)]
      exact .none

/-! ## The daemon as a reader -/

theorem levelArguments_isSome {argv : List Str} {name : Option Str} {mask : BitVec 32} :
    (levelArguments argv name mask).isSome ↔ ∀ last ∈ argv.getLast?, last.1 ≠ ascii "-app" := by
  induction argv generalizing name mask with
  | nil => exact iff_of_true rfl fun last hlast => nomatch hlast
  | cons argument rest ih =>
      rw [levelArguments]
      cases rest with
      | nil =>
          split
          · next happ =>
              refine iff_of_false Bool.false_ne_true fun hlast => ?_
              exact hlast argument rfl happ
          · next hother =>
              refine iff_of_true rfl ?_
              rintro last ⟨⟩
              exact hother
      | cons next more =>
          rw [List.getLast?_cons_cons]
          split
          · exact ih
          · exact ih

theorem asksForHelp_iff {argv : List Str} :
    asksForHelp argv = true ↔ ¬∀ first ∈ argv[1]?, ¬ascii "--help" <+: first.1 := by
  rw [asksForHelp]
  cases argv[1]? with
  | none =>
      refine iff_of_false Bool.false_ne_true fun hsome => hsome ?_
      rintro first ⟨⟩
  | some first =>
      have hnul : 0 ∉ ascii "--help" := by decide
      have hcompare : strncmp (ascii "--help").length first.1 (ascii "--help") = 0 ↔ _ :=
        strncmp_cmd hnul first
      dsimp only
      rw [decide_eq_true_iff, hcompare]
      constructor
      · intro hhelp hnone
        exact hnone first rfl hhelp
      · intro hsome
        by_contra hother
        refine hsome ?_
        rintro other ⟨⟩
        exact hother

theorem configure_isSome (argv : List Str) : (configure argv).isSome ↔ Starts argv := by
  rw [configure, Starts]
  split
  · next hhelp =>
      exact iff_of_false Bool.false_ne_true fun hstarts => asksForHelp_iff.mp hhelp hstarts.1
  · next hother =>
      have hfirst : ∀ first ∈ argv[1]?, ¬ascii "--help" <+: first.1 := by
        by_contra hsome
        exact hother (asksForHelp_iff.mpr hsome)
      rw [and_iff_right hfirst, ← @levelArguments_isSome argv none 0]
      cases levelArguments argv none 0 with
      | none => rfl
      | some found => rfl

/-- The daemon is configured by the arguments and holds the waiting messages. -/
structure Serves (endian : Endian) (daemon : Daemon) (reader : Reader) : Prop where
  configured : Configured reader.argv daemon.cfg
  waiting : List.Forall₂ (Carries endian) daemon.queue reader.waiting

theorem Serves.sendto {endian : Endian} {daemon : Daemon} {reader : Reader}
    {datagram : Option (List UInt8)} {entry : Option Entry} (hserves : Serves endian daemon reader)
    (hsent : Option.Rel (Carries endian) datagram entry) (room : Bool) :
    Serves endian (daemon.sendto room datagram)
      ⟨reader.argv, reader.waiting ++ if room then entry.toList else []⟩ := by
  cases hsent with
  | none =>
      have hnothing : (if room then (none : Option Entry).toList else []) = [] := by
        cases room <;> rfl
      rw [hnothing, List.append_nil]
      exact hserves
  | some hcarries =>
      cases room with
      | false =>
          rw [if_neg Bool.false_ne_true, List.append_nil]
          exact hserves
      | true =>
          refine ⟨hserves.configured, List.rel_append hserves.waiting ?_⟩
          exact .cons hcarries .nil

theorem recvfromQueue_rel {α β : Type} {rel : α → β → Prop} {queue : List α} {waiting : List β}
    (hqueue : List.Forall₂ rel queue waiting) (interrupted : Bool) :
    Option.Rel (fun first second => Option.Rel rel first.1 second.1 ∧
        List.Forall₂ rel first.2 second.2)
      (recvfromQueue interrupted queue) (recvfromQueue interrupted waiting) := by
  cases interrupted with
  | true => exact .some ⟨.none, hqueue⟩
  | false =>
      cases hqueue with
      | nil => exact .none
      | cons hfirst hrest => exact .some ⟨.some hfirst, hrest⟩

/-- Whatever a turn receives, it holds the message or, when it was interrupted, an empty one. -/
theorem shows_received {endian : Endian} {received : Option (List UInt8)} {entry : Option Entry}
    (hreceived : Option.Rel (Carries endian) received entry) (lMsg : Buf sizeofLogMessage) :
    Shows (LogMessage.ofBytes endian (Message.turn lMsg received)) (entry.getD noEntry) := by
  cases hreceived with
  | none => exact shows_turn endian lMsg .failed
  | some hcarries => exact hcarries lMsg

theorem Serves.turn {endian : Endian} {daemon : Daemon} {reader : Reader}
    (hserves : Serves endian daemon reader) (clock : Clock) (interrupted : Bool) :
    ∃ written daemon', daemon.turn endian clock interrupted = some (written, daemon') ∧
      written = (Spec.readerTurn reader clock interrupted).1.flatMap
        (fun (clock, entry) => entry.line clock) ∧
      Serves endian daemon' (Spec.readerTurn reader clock interrupted).2 := by
  have hnext := recvfromQueue_rel hserves.waiting interrupted
  rw [Daemon.turn, Spec.readerTurn]
  generalize recvfromQueue interrupted daemon.queue = first at hnext
  generalize recvfromQueue interrupted reader.waiting = second at hnext
  cases hnext with
  | none => exact ⟨[], daemon, rfl, rfl, hserves⟩
  | @some first second hboth =>
      obtain ⟨received, queue⟩ := first
      obtain ⟨entry, waiting⟩ := second
      obtain ⟨hreceived, hwaiting⟩ := hboth
      have hhandle :
          handle daemon.cfg clock (LogMessage.ofBytes endian (Message.turn daemon.lMsg received)) =
            _ := (shows_received hreceived daemon.lMsg).handle hserves.configured
      have hserve : serve endian daemon.cfg clock daemon.lMsg received =
          .ok (_, Message.turn daemon.lMsg received) := bind_of_eq_ok hhandle
      dsimp only
      rw [hserve]
      refine ⟨_, _, rfl, ?_, hserves.configured, hwaiting⟩
      split
      · exact (List.append_nil _).symm
      · rfl

/-! ## The whole system -/

/-- Processes and senders, daemon and reader, and what was printed agree. -/
structure Agrees (endian : Endian) (system : System Pid) (spec : Spec Pid) : Prop where
  senders : ∀ pid, (system.clients pid).sender = spec.senders pid
  reader : Option.Rel (Serves endian) system.daemon spec.reader
  written : system.written = spec.lines

theorem Agrees.setClient {endian : Endian} {system : System Pid} {spec : Spec Pid}
    (hagrees : Agrees endian system spec) (pid : Pid) {client : Client} {sender : Sender}
    (hsender : client.sender = sender) :
    Agrees endian (system.setClient pid client) (spec.setSender pid sender) where
  senders other := by
    change (Function.update system.clients pid client other).sender =
      Function.update spec.senders pid sender other
    by_cases hother : other = pid
    · rw [hother, Function.update_self, Function.update_self, hsender]
    · rw [Function.update_of_ne hother, Function.update_of_ne hother, hagrees.senders other]
  reader := hagrees.reader
  written := hagrees.written

theorem Agrees.step {endian : Endian} {system : System Pid} {spec : Spec Pid}
    (hagrees : Agrees endian system spec) (action : Action Pid) :
    Option.Rel (Agrees endian) (step endian system action) (spec.step action) := by
  cases action with
  | exec pid => exact .some (hagrees.setClient pid rfl)
  | logdInit pid cmdline =>
      have hinit := logdInit_sender (system.clients pid) cmdline
      rw [hagrees.senders pid] at hinit
      rw [Delivery.step, Spec.step, ← hinit]
      cases (system.clients pid).logdInit cmdline with
      | none => exact .none
      | some client => exact .some (hagrees.setClient pid rfl)
  | logdOpen pid socket =>
      refine .some (hagrees.setClient pid ?_)
      rw [← hagrees.senders pid]
      rfl
  | logd pid socket room service level text =>
      have hlog := logd_sender endian (system.clients pid) socket service level text
      rw [hagrees.senders pid] at hlog
      rw [Delivery.step, Spec.step]
      generalize (system.clients pid).logd endian socket service level text = sent at hlog
      generalize (spec.senders pid).log socket service level text = heard at hlog
      cases hlog with
      | none => exact .none
      | @some sent heard hboth =>
          obtain ⟨hsender, hcarries⟩ := hboth
          have hset := hagrees.setClient pid hsender
          refine .some ⟨hset.senders, ?_, hset.written⟩
          have hreader := hagrees.reader
          change Option.Rel (Serves endian)
            (system.daemon.map fun daemon => daemon.sendto room sent.2)
            (spec.reader.map fun reader =>
              ⟨reader.argv, reader.waiting ++ if room then heard.2.toList else []⟩)
          generalize system.daemon = daemon at hreader
          generalize spec.reader = reader at hreader
          cases hreader with
          | none => exact .none
          | some hserves => exact .some (hserves.sendto hcarries room)
  | terminate => exact .some ⟨hagrees.senders, .none, hagrees.written⟩
  | main argv bound lMsg =>
      refine .some ⟨hagrees.senders, ?_, hagrees.written⟩
      dsimp only
      cases bound with
      | false => exact .none
      | true =>
          have hstarts := configure_isSome argv
          rw [if_pos rfl]
          cases hconfigure : configure argv with
          | none =>
              rw [hconfigure] at hstarts
              rw [if_neg fun hboth => Bool.false_ne_true (hstarts.mpr hboth.2)]
              exact .none
          | some cfg =>
              rw [hconfigure] at hstarts
              rw [if_pos ⟨rfl, hstarts.mp rfl⟩]
              exact .some ⟨configured hconfigure, .nil⟩
  | turn clock interrupted =>
      have hreader := hagrees.reader
      rw [Delivery.step, Spec.step]
      generalize system.daemon = daemon at hreader
      generalize spec.reader = reader at hreader
      cases hreader with
      | none => exact .some hagrees
      | @some daemon reader hserves =>
          obtain ⟨written, daemon', hturn, hwritten, hserves'⟩ := hserves.turn clock interrupted
          dsimp only
          rw [hturn]
          refine .some ⟨hagrees.senders, .some hserves', ?_⟩
          dsimp only
          rw [hagrees.written, hwritten, Spec.lines, Spec.lines, List.flatMap_append]

omit [DecidableEq Pid] in
theorem agrees_boot (endian : Endian) : Agrees endian (.boot : System Pid) .boot :=
  ⟨fun _ => rfl, .none, rfl⟩

/--
In every order of programs that start, give themselves names and log, of daemons that are
stopped and started with other arguments, and of their turns, undefined behaviour is met
exactly where a name or a text is too long or a name has no component, and otherwise the lines
are those of the queue between the senders and the reader.
-/
theorem run_written (endian : Endian) (actions : List (Action Pid)) :
    (run (step endian) .boot actions).map System.written =
      (run Spec.step .boot actions).map Spec.lines := by
  have hrun := run_rel (fun _ _ action hagrees => hagrees.step action) (agrees_boot endian) actions
  generalize run (step endian) .boot actions = first at hrun
  generalize run Spec.step .boot actions = second at hrun
  cases hrun with
  | none => rfl
  | some hagrees => exact congrArg some hagrees.written

/-! ## No message is made up, doubled or overtaken -/

/-- The message that an action sends. -/
def sentBy (spec : Spec Pid) : Action Pid → Option Entry
  | .logd pid socket _ service level text =>
      ((spec.senders pid).log socket service level text).bind Prod.snd
  | _ => none

/-- The messages that the processes send, each under the name its sender has by then. -/
def sent (spec : Spec Pid) : List (Action Pid) → List Entry
  | [] => []
  | action :: rest =>
      match spec.step action with
      | none => []
      | some next => (sentBy spec action).toList ++ sent next rest

def Action.Interrupted : Action Pid → Prop
  | .turn _ interrupted => interrupted = true
  | _ => False

def Spec.waiting (spec : Spec Pid) : List Entry := (spec.reader.map Reader.waiting).getD []

omit [DecidableEq Pid] in
theorem readerTurn_shown (reader : Reader) (clock : Clock) {interrupted : Bool}
    (hwhole : interrupted = false) :
    List.Sublist
      ((Spec.readerTurn reader clock interrupted).1.map Prod.snd ++
        (Spec.readerTurn reader clock interrupted).2.waiting)
      reader.waiting := by
  obtain ⟨argv, waiting⟩ := reader
  rw [hwhole]
  cases waiting with
  | nil => exact List.Sublist.refl _
  | cons entry waiting =>
      by_cases hselects : Selects argv entry
      · have hturn : Spec.readerTurn ⟨argv, entry :: waiting⟩ clock false =
            ([(clock, entry)], ⟨argv, waiting⟩) := Prod.ext (if_pos hselects) rfl
        rw [hturn]
        exact List.Sublist.refl _
      · have hturn : Spec.readerTurn ⟨argv, entry :: waiting⟩ clock false =
            ([], ⟨argv, waiting⟩) := Prod.ext (if_neg hselects) rfl
        rw [hturn]
        exact List.sublist_cons_self entry waiting

/-- What a step shows, and what waits behind it, comes from what waited and what is sent. -/
theorem Spec.step_shown {spec next : Spec Pid} {action : Action Pid}
    (hstep : spec.step action = some next) (haction : ¬action.Interrupted) :
    ∃ more, next.shown = spec.shown ++ more ∧
      List.Sublist (more.map Prod.snd ++ next.waiting)
        (spec.waiting ++ (sentBy spec action).toList) := by
  have hkept : next.shown = spec.shown → next.waiting = spec.waiting →
      ∃ more, next.shown = spec.shown ++ more ∧
        List.Sublist (more.map Prod.snd ++ next.waiting)
          (spec.waiting ++ (sentBy spec action).toList) := fun hshown hwaiting =>
    ⟨[], hshown.trans (List.append_nil _).symm, hwaiting ▸ List.sublist_append_left _ _⟩
  cases action with
  | exec pid =>
      cases hstep
      exact hkept rfl rfl
  | logdInit pid cmdline =>
      obtain ⟨sender, _, rfl⟩ := Option.map_eq_some_iff.mp hstep
      exact hkept rfl rfl
  | logdOpen pid socket =>
      cases hstep
      exact hkept rfl rfl
  | logd pid socket room service level text =>
      obtain ⟨⟨sender, entry⟩, hlog, rfl⟩ := Option.map_eq_some_iff.mp hstep
      have hsent : sentBy spec (.logd pid socket room service level text) = entry := by
        rw [sentBy, hlog]
        rfl
      refine ⟨[], (List.append_nil _).symm, ?_⟩
      rw [hsent]
      obtain ⟨senders, reader, shown⟩ := spec
      cases reader with
      | none => exact List.nil_sublist _
      | some reader =>
          refine (List.Sublist.refl reader.waiting).append ?_
          cases room with
          | false => exact List.nil_sublist _
          | true => exact List.Sublist.refl _
  | terminate =>
      cases hstep
      exact ⟨[], (List.append_nil _).symm, List.nil_sublist _⟩
  | main argv bound lMsg =>
      cases hstep
      refine ⟨[], (List.append_nil _).symm, ?_⟩
      rw [Spec.waiting]
      dsimp only
      split <;> exact List.nil_sublist _
  | turn clock interrupted =>
      have hwhole : interrupted = false := Bool.eq_false_iff.mpr haction
      rw [Spec.step] at hstep
      cases hreader : spec.reader with
      | none =>
          rw [hreader] at hstep
          cases hstep
          exact hkept rfl rfl
      | some reader =>
          rw [hreader] at hstep
          cases hstep
          have hwaiting : spec.waiting = reader.waiting := by
            rw [Spec.waiting, hreader]
            rfl
          have hnone : sentBy spec (.turn clock interrupted) = none := rfl
          refine ⟨_, rfl, ?_⟩
          rw [hnone, hwaiting, Option.toList_none, List.append_nil]
          exact readerTurn_shown reader clock hwhole

theorem Spec.run_shown {spec final : Spec Pid} {actions : List (Action Pid)}
    (hrun : run Spec.step spec actions = some final)
    (hactions : ∀ action ∈ actions, ¬action.Interrupted) :
    ∃ more, final.shown = spec.shown ++ more ∧
      List.Sublist (more.map Prod.snd) (spec.waiting ++ sent spec actions) := by
  induction actions generalizing spec with
  | nil =>
      cases hrun
      exact ⟨[], (List.append_nil _).symm, List.nil_sublist _⟩
  | cons action rest ih =>
      obtain ⟨haction, hrest⟩ := List.forall_mem_cons.mp hactions
      obtain ⟨next, hstep, hlater⟩ := Option.bind_eq_some_iff.mp hrun
      obtain ⟨first, hfirst, hfirstFrom⟩ := Spec.step_shown hstep haction
      obtain ⟨more, hmore, hmoreFrom⟩ := ih hlater hrest
      refine ⟨first ++ more, ?_, ?_⟩
      · rw [hmore, hfirst, List.append_assoc]
      · rw [List.map_append, sent, hstep, ← List.append_assoc]
        refine ((List.Sublist.refl _).append hmoreFrom).trans ?_
        rw [← List.append_assoc]
        exact hfirstFrom.append (List.Sublist.refl _)

/--
When no turn is interrupted, the lines of the daemons are those of messages that processes
sent, in the order in which they sent them and each at most once.
-/
theorem run_in_order (endian : Endian) (actions : List (Action Pid)) (system : System Pid)
    (hrun : run (step endian) .boot actions = some system)
    (hactions : ∀ action ∈ actions, ¬action.Interrupted) :
    ∃ shown : List (Clock × Entry),
      system.written = shown.flatMap (fun (clock, entry) => entry.line clock) ∧
        List.Sublist (shown.map Prod.snd) (sent .boot actions) := by
  have hagree := run_rel (fun _ _ action hagrees => hagrees.step action) (agrees_boot endian)
    actions
  rw [hrun] at hagree
  generalize hspec : run Spec.step .boot actions = outcome at hagree
  cases hagree with
  | @some _ spec hagrees =>
      obtain ⟨more, hmore, hfrom⟩ := Spec.run_shown hspec hactions
      refine ⟨more, ?_, hfrom⟩
      rw [hagrees.written, Spec.lines, hmore]
      rfl

end

/-- A daemon, and a process that gives itself a name, logs and is heard. -/
def heardOnce : List (Action Unit) :=
  [.main [⟨ascii "logd", by decide⟩] true (memset sizeofLogMessage),
   .logdInit () (some (ascii "/bin/gtrack" ++ [0])),
   .logd () true true .gps .info ⟨ascii "fixed", by decide⟩,
   .turn ⟨12, 30, 0⟩ false]

theorem run_in_order_heardOnce :
    ∃ system, run (step .little) .boot heardOnce = some system ∧
      ∃ shown : List (Clock × Entry),
        system.written = shown.flatMap (fun (clock, entry) => entry.line clock) ∧
          List.Sublist (shown.map Prod.snd) (sent .boot heardOnce) := by
  have hsome : (run (step .little) .boot heardOnce).isSome = true := by decide +kernel
  obtain ⟨system, hsystem⟩ := Option.isSome_iff_exists.mp hsome
  have hwhole : ∀ action ∈ heardOnce, ¬action.Interrupted := by
    simp [heardOnce, Action.Interrupted]
  exact ⟨system, hsystem, run_in_order .little heardOnce system hsystem hwhole⟩

/-- The line has the last component of the path as its name. -/
example : (run (step .little) .boot heardOnce).map System.written =
    some (Entry.line ⟨12, 30, 0⟩ ⟨ascii "gtrack", .info, .gps, ascii "fixed"⟩) := by
  decide +kernel

end MdsFormal.Logd.Delivery
