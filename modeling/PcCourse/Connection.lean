import PcCourse.ByteSearch
import PcCourse.Transition

/-! The asynchronous operations of a connection of the server and their completion handlers
(`Connection.cpp`). What has completed is queued until some worker thread runs its handler,
and a handler runs as one step. -/
namespace PcCourse

inductive ErrorCode where
  | success
  | eof
  | operationAborted
  | failed
  deriving DecidableEq, Repr

inductive Operation where
  | accept
  | read
  | write
  deriving DecidableEq, Repr

/-- The operation on the socket, with the number of the `ReadRequest` call that it follows.
Each is started by the handler of the one before it, so at most one is under way. -/
inductive Activity where
  | idle
  | pending (operation : Operation) (round : Nat)
  | queued (operation : Operation) (round : Nat) (code : ErrorCode)
  deriving DecidableEq, Repr

/-- A peer that has closed its side is still there until the connection is torn down. -/
inductive Peer where
  | connected
  | closed
  | gone
  deriving DecidableEq, Repr

/-- What a connection is given: the delimiter, and the response to a request. -/
structure Service where
  endOfMessage : List UInt8
  response : List UInt8 → List UInt8

def Service.silent : Service := ⟨[13, 10], fun _ => []⟩

structure Connection where
  activity : Activity
  inputBuf : List UInt8
  outputStr : List UInt8
  isTimeout : Bool
  /-- how often `ReadRequest` has been called -/
  round : Nat
  /-- the pending wait of the timer, by its round -/
  wait : Option Nat
  /-- the completed waits, whose handlers are queued -/
  timers : List (Nat × ErrorCode)
  peer : Peer
  /-- the chunks received so far -/
  arrived : List (List UInt8)
  /-- the strings passed to `ProcessRequest` so far -/
  processed : List (List UInt8)
  /-- an exception has left a handler -/
  escaped : Bool
  deriving DecidableEq, Repr

namespace Connection

def accepted : Connection where
  activity := .queued .accept 0 .success
  inputBuf := []
  outputStr := []
  isTimeout := false
  round := 0
  wait := none
  timers := []
  peer := .connected
  arrived := []
  processed := []
  escaped := false

/-- `timer.cancel()`: a wait that has already completed stays as it is. -/
def cancelTimer (s : Connection) : Connection :=
  match s.wait with
  | some k => { s with wait := none, timers := s.timers ++ [(k, .operationAborted)] }
  | none => s

theorem cancelTimer_eq (s : Connection) :
    s.cancelTimer = { s with
      wait := none
      timers := s.timers ++ s.wait.toList.map fun k => (k, .operationAborted) } := by
  obtain ⟨activity,inputBuf,outputStr,isTimeout,round,wait,timers,rest⟩ := s
  cases wait with
  | none => simp [cancelTimer]
  | some k => rfl

def NoneExpired (s : Connection) : Prop := ∀ w ∈ s.timers, w.2 ≠ .success

theorem NoneExpired.cancelTimer {s : Connection} (none_ : NoneExpired s) :
    NoneExpired s.cancelTimer := by
  intro w member
  rw [cancelTimer_eq, List.mem_append, List.mem_map] at member
  rcases member with old | ⟨k,-,rfl⟩
  · exact none_ w old
  · exact ErrorCode.noConfusion

def cancelSocket (s : Connection) : Connection :=
  match s.activity with
  | .pending operation k => { s with activity := .queued operation k .operationAborted }
  | _ => s

/-- A new expiry cancels the wait for the old one. -/
def readRequest (s : Connection) : Connection :=
  { s.cancelTimer with
    inputBuf := []
    isTimeout := false
    activity := .pending .read (s.round + 1)
    round := s.round + 1
    wait := some (s.round + 1) }

def writeRespone (c : Service) (s : Connection) : Connection :=
  { s with
    outputStr := s.outputStr ++ c.endOfMessage
    activity := .pending .write s.round }

def processRequest (c : Service) (request : List UInt8) (s : Connection) : Connection :=
  writeRespone c { s with
    outputStr := c.response request
    processed := s.processed ++ [request] }

def line (buf : List UInt8) : List UInt8 := buf.takeWhile (· ≠ 13)

/-- The peer is printed first: `remote_endpoint()` throws when it is no longer there. -/
def afterPeer (s : Connection) (next : Connection → Connection) : Connection :=
  if s.peer = .gone then { s with escaped := true } else next s

def acceptHandler (code : ErrorCode) (s : Connection) : Connection :=
  match code with
  | .success => afterPeer s readRequest
  | _ => s

def readHandler (c : Service) (code : ErrorCode) (s : Connection) : Connection :=
  if s.isTimeout then afterPeer s id
  else
    let s := { s with isTimeout := true }
    match code with
    | .success =>
      let s := s.cancelTimer
      processRequest c (line s.inputBuf)
        { s with inputBuf := (s.inputBuf.dropWhile (· ≠ 13)).drop 1 }
    | .eof => afterPeer s cancelTimer
    | .operationAborted => afterPeer s id
    | .failed => s.cancelTimer

def writeHandler (code : ErrorCode) (s : Connection) : Connection :=
  match code with
  | .success => s.readRequest
  | .eof => afterPeer s id
  | _ => s

def timerHandler (code : ErrorCode) (s : Connection) : Connection :=
  if code = .success ∧ s.isTimeout = false then { s.cancelSocket with isTimeout := true } else s

def receive (c : Service) (chunk : List UInt8) (s : Connection) : Connection :=
  match s.activity with
  | .pending .read k =>
    let input := s.inputBuf ++ chunk
    { s with
      inputBuf := input
      arrived := s.arrived ++ [chunk]
      activity := if (ByteSearch.find c.endOfMessage input 0).isSome then .queued .read k .success
        else .pending .read k }
  | _ => s

def written (s : Connection) : Connection :=
  match s.activity with
  | .pending .write k => { s with activity := .queued .write k .success }
  | _ => s

/-- The end of the stream is seen only after the peer has closed it. -/
def fail (code : ErrorCode) (s : Connection) : Connection :=
  match s.activity with
  | .pending operation k =>
    if (code = .eof ∧ s.peer ≠ .connected) ∨ code = .failed then
      { s with activity := .queued operation k code }
    else s
  | _ => s

def expire (s : Connection) : Connection :=
  match s.wait with
  | some k => { s with wait := none, timers := s.timers ++ [(k, .success)] }
  | none => s

def runSocket (c : Service) (s : Connection) : Connection :=
  match s.activity with
  | .queued .accept _ code => acceptHandler code { s with activity := .idle }
  | .queued .read _ code => readHandler c code { s with activity := .idle }
  | .queued .write _ code => writeHandler code { s with activity := .idle }
  | _ => s

def runTimer (i : Nat) (s : Connection) : Connection :=
  match s.timers[i]? with
  | some (_, code) => timerHandler code { s with timers := s.timers.eraseIdx i }
  | none => s

/-- What can happen next: the network, the peer and the clock complete operations, and
the worker threads run handlers. -/
inductive Event where
  | receive (chunk : List UInt8)
  | written
  | fail (code : ErrorCode)
  | close
  | reset
  | expire
  | runSocket
  | runTimer (i : Nat)
  deriving DecidableEq, Repr

def happen (c : Service) (event : Event) (s : Connection) : Connection :=
  match event with
  | .receive chunk => s.receive c chunk
  | .written => s.written
  | .fail code => s.fail code
  | .close => if s.peer = .connected then { s with peer := .closed } else s
  | .reset => { s with peer := .gone }
  | .expire => s.expire
  | .runSocket => s.runSocket c
  | .runTimer i => s.runTimer i

/-- An exception out of a handler ends the process. -/
def step (c : Service) (event : Event) (s : Connection) : Connection :=
  if s.escaped then s else happen c event s

theorem step_running {c : Service} {event : Event} {s : Connection} (running : s.escaped = false) :
    step c event s = happen c event s := by
  simp only [step, running, Bool.false_eq_true, if_false]

end Connection
end PcCourse
