/-
The runner of an adapter that takes control messages by resuming its session.

One task holds the child process, one pending envelope, and one envelope whose child was
started and has not yet shown that it applied it.  Each turn of its loop takes one of five
branches: a line of stdout, a line of stderr, an envelope, a kill signal, or the exit of
the child, which drains what the pipes still hold and hands over to the next child.
-/
import RatKingdom.Supervisor.Events

namespace RatKingdom.Harness

open Steer (ControlEnvelope)
open Supervisor (TokenUsage TransportOutcome)

abbrev HarnessEvent := Supervisor.HarnessEvent Float

inductive KillSignal where
  | interrupt | kill | hard

inductive Signal where
  | sigint | sigterm | sigkill

/-- What the task takes in and does, in order.  `output` is an event parsed from the stdout
of the current child, with whether it was forwarded to the session; `sent` is one of the
runner's own. -/
inductive Entry where
  | received (envelope : ControlEnvelope)
  | signalled (signal : Signal)
  | child (session : String) (envelope : ControlEnvelope)
  | output (event : HarnessEvent) (forwarded : Bool)
  | sent (event : HarnessEvent)

/-- The variables of the task.  `stdout` and `stderr` say whether the pipe is still read. -/
structure Runner where
  sessionId : Option String := none
  pending : Option ControlEnvelope := none
  awaitingAck : Option ControlEnvelope := none
  awaitingAckStarted : Bool := false
  interruptSent : Bool := false
  delivered : List String := []
  stdout : Bool := true
  stderr : Bool := true
  exited : Bool := false
  log : List Entry := []

/-- What one event does to the slot of the awaiting envelope: the slot and the flag after
it, and the envelope it confirms. -/
def confirmAwaitingAck (event : HarnessEvent) (awaitingAck : Option ControlEnvelope)
    (awaitingAckStarted : Bool) : Option ControlEnvelope × Bool × Option ControlEnvelope :=
  match event with
  | .started (some _) => (awaitingAck, awaitingAckStarted || awaitingAck.isSome, none)
  | .assistantText _ =>
    if awaitingAckStarted && awaitingAck.isSome then (none, false, awaitingAck)
    else (awaitingAck, awaitingAckStarted, none)
  | _ => (awaitingAck, awaitingAckStarted, none)

namespace Runner

def note (s : Runner) (entries : List Entry) : Runner := { s with log := s.log ++ entries }

def confirmed (s : Runner) (event : HarnessEvent) : Runner :=
  { s with
    awaitingAck := (confirmAwaitingAck event s.awaitingAck s.awaitingAckStarted).1
    awaitingAckStarted := (confirmAwaitingAck event s.awaitingAck s.awaitingAckStarted).2.1 }

def confirmation (s : Runner) (event : HarnessEvent) : Option ControlEnvelope :=
  (confirmAwaitingAck event s.awaitingAck s.awaitingAckStarted).2.2

def forward (s : Runner) (event : HarnessEvent) : Runner :=
  match s.confirmation event with
  | none => (s.confirmed event).note [.output event true]
  | some envelope =>
    { (s.confirmed event).note [.output event true, .sent (.controlDelivered envelope)] with
      delivered := envelope.messageId :: s.delivered }

def interrupt (s : Runner) : Runner :=
  { s.note [.signalled .sigint] with interruptSent := true }

def named (s : Runner) (event : HarnessEvent) : Runner :=
  match event with
  | .started (some id) => { s with sessionId := some id }
  | _ => s

def isStarted : HarnessEvent → Bool
  | .started _ => true
  | _ => false

/-- An event read while the child runs: it may name the session, and a pending envelope
interrupts a child that has started. -/
def read (s : Runner) (event : HarnessEvent) : Runner :=
  let s := s.named event
  if isStarted event && s.pending.isSome && !s.interruptSent then s.interrupt.forward event
  else s.forward event

def knows (s : Runner) (id : String) : Bool :=
  s.delivered.any (fun d => d = id) || s.pending.any (fun e => e.messageId = id) ||
    s.awaitingAck.any fun e => e.messageId = id

def steer (s : Runner) (msg : ControlEnvelope) : Runner :=
  let heard := s.note [.received msg]
  if heard.knows msg.messageId then heard
  else
    let held := { heard with pending := some msg }
    if held.sessionId.isSome && !held.interruptSent then held.interrupt else held

def signalOf : KillSignal → Signal
  | .interrupt => .sigint
  | .kill => .sigterm
  | .hard => .sigkill

def kill (s : Runner) (k : KillSignal) : Runner :=
  { s.note [.signalled (signalOf k)] with pending := none }

end Runner

/-- Where the drain of stdout ends: at the end of the pipe, at a read error, or cut by its
time limit while it waits for a line, sends an event, or sends the acknowledgement the
event gave. -/
inductive Stop where
  | eof
  | readError (error : String)
  | waiting
  | sending (event : HarnessEvent)
  | delivering (event : HarnessEvent)

/-- What a drain gets through before it stops, and the lines of stderr it then sends. -/
structure Drain where
  events : List HarnessEvent
  stop : Stop
  stderr : List String

/-- Why a message is given up when its child has exited. -/
inductive Failing where
  | unconfirmed | noSession | notStarted | withoutStdout

def Failing.what : Failing → String
  | unconfirmed => " could not resume: resumed session did not confirm control application"
  | noSession => " could not resume: no session id was established"
  | notStarted => " could not resume the session"
  | withoutStdout => " resumed without stdout"

def Failing.error : Failing → String
  | unconfirmed => "Codex resumed session exited before confirming control application"
  | noSession => "Codex session could not resume because no session id was established"
  | notStarted => "Codex session resume process could not be started"
  | withoutStdout => "Codex session resume stdout was unavailable"

inductive Resume where
  | started (stderr : Bool)
  | notStarted | withoutStdout

namespace Runner

/-- `drain_stdout`, under its time limit. -/
def drainStdout (s : Runner) (d : Drain) : Runner :=
  if s.stdout then
    let drained := d.events.foldl forward s
    match d.stop with
    | .eof => { drained with stdout := false }
    | .readError error =>
      { drained.note [.sent (.stderr ("Codex control stdout drain failed: " ++ error))] with
        stdout := false }
    | .waiting => drained
    | .sending event => (drained.confirmed event).note [.output event false]
    | .delivering event =>
      match drained.confirmation event with
      | none => drained.forward event
      | some envelope =>
        { (drained.confirmed event).note [.output event true] with
          delivered := envelope.messageId :: drained.delivered }
  else s

def drainStderr (s : Runner) (d : Drain) : Runner :=
  if s.stderr then s.note (d.stderr.map fun text => .sent (.stderr text)) else s

def drain (s : Runner) (d : Drain) : Runner :=
  let drained := s.drainStdout d
  if drained.stdout then drained else drained.drainStderr d

/-- The last messages, and `Exited`: the task returns, and its slots are gone. -/
def finish (s : Runner) (code : Option Int) (events : List HarnessEvent) : Runner :=
  { s.note ((events ++ [Supervisor.HarnessEvent.exited code]).map Entry.sent) with
    pending := none, awaitingAck := none, exited := true }

def failure (envelope : ControlEnvelope) (why : Failing) : List HarnessEvent :=
  [.stderr ("Codex control " ++ envelope.messageId ++ why.what), .retry 0 why.error]

def finishTurn (s : Runner) (code : Option Int) : Runner :=
  match s.awaitingAck with
  | none => s.finish code []
  | some envelope => s.finish code (failure envelope .unconfirmed)

def handOver (s : Runner) (session : Option String) (envelope : ControlEnvelope)
    (resume : Resume) (code : Option Int) : Runner :=
  match session with
  | none => s.finish code (failure envelope .noSession)
  | some session =>
    match resume with
    | .notStarted => s.finish code (failure envelope .notStarted)
    | .withoutStdout =>
      (s.note [.child session envelope]).finish code (failure envelope .withoutStdout)
    | .started stderr =>
      { s.note [.child session envelope] with
        stdout := true
        stderr := stderr
        interruptSent := false
        awaitingAck := some envelope
        awaitingAckStarted := false }

def told (s : Runner) (waited : Except String (Option Int)) : Runner :=
  match waited with
  | .ok _ => s
  | .error error => s.note [.sent (.stderr ("Codex child wait failed: " ++ error))]

def exitCode (waited : Except String (Option Int)) : Option Int :=
  match waited with
  | .ok code => code
  | .error _ => none

/-- The exit of the child: `waited` is what `wait` gave, its code or an error. -/
def childExits (s : Runner) (waited : Except String (Option Int)) (d : Drain) (resume : Resume) :
    Runner :=
  match s.pending with
  | none => ((s.told waited).drain d).finishTurn (exitCode waited)
  | some envelope =>
    (({ s with pending := none }.told waited).drain d).handOver s.sessionId envelope resume
      (exitCode waited)

end Runner

inductive Label where
  | stdoutLine (events : List HarnessEvent)
  | stdoutEnd
  | stdoutError (error : String)
  | stderrLine (text : String)
  | stderrEnd
  | stderrError (error : String)
  | steer (msg : ControlEnvelope)
  | kill (k : KillSignal)
  | childExits (waited : Except String (Option Int)) (d : Drain) (resume : Resume)

/-- One turn of the loop. -/
def step (s : Runner) (l : Label) : Option Runner :=
  if s.exited then none
  else
    match l with
    | .stdoutLine events => if s.stdout then some (events.foldl Runner.read s) else none
    | .stdoutEnd => if s.stdout then some { s with stdout := false } else none
    | .stdoutError error =>
      if s.stdout then
        some (s.note [.sent (.stderr ("Codex control stdout read failed: " ++ error))])
      else none
    | .stderrLine text => if s.stderr then some (s.note [.sent (.stderr text)]) else none
    | .stderrEnd => if s.stderr then some { s with stderr := false } else none
    | .stderrError error =>
      if s.stderr then
        some { s.note [.sent (.stderr ("Codex stderr read failed: " ++ error))] with
          stderr := false }
      else none
    | .steer msg => some (s.steer msg)
    | .kill k => some (s.kill k)
    | .childExits waited d resume => some (s.childExits waited d resume)

def launched (stderr : Bool) : Runner := { stderr := stderr }

end RatKingdom.Harness
