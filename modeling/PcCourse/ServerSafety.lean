import PcCourse.Connection

/-! The server with all its connections: which behaviour of the peers makes an exception leave
a completion handler and end the process. -/
namespace PcCourse

/-- One accept is started at a time, by `Server::Start` and by the handler of the last. -/
structure Server where
  accepting : Bool
  connections : List Connection
  deriving DecidableEq, Repr

namespace Server

open Connection

def start : Server := ⟨true, []⟩

inductive Event where
  | connect
  | acceptFails
  | client (i : Nat) (event : Connection.Event)
  deriving DecidableEq, Repr

def Escaped (s : Server) : Prop := ∃ connection ∈ s.connections, connection.escaped = true

instance (s : Server) : Decidable s.Escaped :=
  inferInstanceAs (Decidable (∃ connection ∈ s.connections, _))

def acceptsAgain (event : Connection.Event) (before after : Connection) : Bool :=
  match event, before.activity with
  | .runSocket, .queued .accept _ .success => !after.escaped
  | _, _ => false

def step (c : Service) (event : Event) (s : Server) : Server :=
  if s.Escaped then s
  else
    match event with
    | .connect => if s.accepting then ⟨false, s.connections ++ [accepted]⟩ else s
    | .acceptFails => { s with accepting := false }
    | .client i event =>
      match s.connections[i]? with
      | none => s
      | some connection =>
        let next := connection.step c event
        ⟨s.accepting || acceptsAgain event connection next, s.connections.set i next⟩

def printsPeer (s : Connection) : Bool :=
  match s.activity with
  | .queued .accept _ .success | .queued .write _ .eof => true
  | .queued .read _ code => s.isTimeout || code = .eof || code = .operationAborted
  | _ => false

/-- A handler that prints the peer runs only while the peer is there. -/
def Safe (s : Server) : Event → Prop
  | .client i .runSocket =>
    ∀ connection, s.connections[i]? = some connection → printsPeer connection = true →
      connection.peer ≠ .gone
  | _ => True

section
variable {c : Service} {s : Connection}

@[simp] theorem cancelTimer_escaped : s.cancelTimer.escaped = s.escaped := by rw [cancelTimer_eq]

@[simp] theorem cancelSocket_escaped : s.cancelSocket.escaped = s.escaped := by
  unfold cancelSocket
  split <;> rfl

@[simp] theorem readRequest_escaped : s.readRequest.escaped = s.escaped := by
  rw [readRequest, cancelTimer_eq]

theorem afterPeer_escaped (next : Connection → Connection) (quiet : (next s).escaped = false) :
    (s.afterPeer next).escaped = true ↔ s.peer = .gone := by
  unfold afterPeer
  split
  next gone => simp [gone]
  next there => simp [quiet, there]

theorem readHandler_escaped {code : ErrorCode} (running : s.escaped = false) :
    (s.readHandler c code).escaped = true ↔
      (s.isTimeout || code = .eof || code = .operationAborted) = true ∧ s.peer = .gone := by
  unfold readHandler
  split
  next timedOut => simp [timedOut, afterPeer_escaped id running]
  next inTime =>
    have quiet : ({ s with isTimeout := true } : Connection).escaped = false := running
    cases code with
    | success => simp [processRequest, writeRespone, inTime, running]
    | eof => simp [inTime, afterPeer_escaped cancelTimer (cancelTimer_escaped.trans quiet)]
    | operationAborted => simp [inTime, afterPeer_escaped id quiet]
    | failed => simp [inTime, running]

/-- An exception leaves the handler that runs exactly when it prints a peer that is gone. -/
theorem runSocket_escaped (running : s.escaped = false) :
    (s.runSocket c).escaped = true ↔ printsPeer s = true ∧ s.peer = .gone := by
  have idle : ({ s with activity := .idle } : Connection).escaped = false := running
  unfold runSocket printsPeer
  split
  next k code queued =>
    cases code with
    | success => simp [queued, acceptHandler, afterPeer_escaped readRequest (readRequest_escaped.trans idle)]
    | _ => simp [queued, acceptHandler, running]
  next k code queued => simp [queued, readHandler_escaped idle]
  next k code queued =>
    cases code with
    | success => simp [queued, writeHandler, running]
    | eof => simp [queued, writeHandler, afterPeer_escaped id idle]
    | _ => simp [queued, writeHandler, running]
  next other => simp_all

theorem happen_escaped {event : Connection.Event} (running : s.escaped = false)
    (other : event ≠ .runSocket) : (happen c event s).escaped = false := by
  cases event with
  | receive chunk =>
    rw [happen, receive]
    split <;> exact running
  | written =>
    rw [happen, written]
    split <;> exact running
  | fail code =>
    rw [happen, fail]
    split
    · split <;> exact running
    · exact running
  | close =>
    rw [happen]
    split <;> exact running
  | reset => exact running
  | expire =>
    rw [happen, expire]
    split <;> exact running
  | runSocket => exact absurd rfl other
  | runTimer i =>
    rw [happen, runTimer]
    split
    · unfold timerHandler
      split
      · exact cancelSocket_escaped.trans running
      · exact running
    · exact running

end

section
variable {c : Service} {s : Server}

theorem escaped_set {i : Nat} {accepting : Bool} {connection next : Connection} (running : ¬s.Escaped)
    (found : s.connections[i]? = some connection) :
    Escaped ⟨accepting, s.connections.set i next⟩ ↔ next.escaped = true := by
  constructor
  · rintro ⟨other,member,escaped⟩
    rcases List.mem_or_eq_of_mem_set member with old | rfl
    · exact absurd ⟨other, old, escaped⟩ running
    · exact escaped
  · intro escaped
    obtain ⟨bound,-⟩ := List.getElem?_eq_some_iff.mp found
    exact ⟨next, List.mem_set bound next, escaped⟩

/-- A step of a running server ends the process exactly when it is not safe. -/
theorem step_escaped_iff (running : ¬s.Escaped) (event : Event) :
    (step c event s).Escaped ↔ ¬Safe s event := by
  unfold step
  rw [if_neg running]
  cases event with
  | connect =>
    simp only [Safe, not_true_eq_false, iff_false]
    split
    · rintro ⟨connection,member,escaped⟩
      rcases List.mem_append.mp member with old | new
      · exact running ⟨connection, old, escaped⟩
      · cases List.mem_singleton.mp new
        cases escaped
    · exact running
  | acceptFails =>
    simp only [Safe, not_true_eq_false, iff_false]
    exact running
  | client i event =>
    cases found : s.connections[i]? with
    | none =>
      have safe : Safe s (.client i event) := by
        cases event with
        | runSocket =>
          intro connection among
          rw [found] at among
          cases among
        | _ => trivial
      simpa only [found, safe, not_true_eq_false, iff_false] using running
    | some connection =>
      have quiet : connection.escaped = false := by
        by_contra escaped
        exact running ⟨connection, List.mem_of_getElem? found, by simpa using escaped⟩
      simp only [found]
      rw [escaped_set running found, Connection.step_running quiet]
      by_cases handles : event = .runSocket
      · subst handles
        change (connection.runSocket c).escaped = true ↔ _
        rw [runSocket_escaped quiet]
        constructor
        · rintro ⟨prints,gone⟩ safe
          exact safe connection found prints gone
        · intro unsafe_
          by_contra safe
          refine unsafe_ fun other among prints gone => safe ?_
          rw [found] at among
          cases among
          exact ⟨prints, gone⟩
      · have safe : Safe s (.client i event) := by
          cases event with
          | runSocket => exact absurd rfl handles
          | _ => trivial
        simp only [happen_escaped quiet handles, safe, Bool.false_eq_true, not_true_eq_false]

theorem execute_escaped (escaped : s.Escaped) (events : List Event) :
    (Transition.execute (step c) events s).Escaped := by
  apply Transition.execute_preserves Escaped ?_ events s escaped
  intro s event escaped
  unfold step
  rwa [if_pos escaped]

/-- A run of a running server. The induction is on the events; the first step that is not
safe ends the process. -/
theorem run_escaped_iff (running : ¬s.Escaped) (events : List Event) :
    ¬(Transition.execute (step c) events s).Escaped ↔ Transition.Along (step c) Safe events s := by
  induction events generalizing s with
  | nil => exact iff_of_true running trivial
  | cons event rest ih =>
    by_cases safe : Safe s event
    · have next : ¬(step c event s).Escaped := by
        rw [step_escaped_iff running]
        exact not_not_intro safe
      rw [Transition.execute, ih next, Transition.Along, and_iff_right safe]
    · have next : (step c event s).Escaped := (step_escaped_iff running event).mpr safe
      exact iff_of_false (not_not_intro (execute_escaped next rest)) fun along => safe along.1

/-- No exception ends the server in a run exactly when every handler that prints a peer runs
while the peer is there. -/
theorem serves_iff (c : Service) (events : List Event) :
    ¬(Transition.execute (step c) events start).Escaped ↔
      Transition.Along (step c) Safe events start := by
  apply run_escaped_iff
  rintro ⟨connection,member,-⟩
  cases member

/-- A client that resets its connection before the handler of the accept has run. -/
theorem early_reset_escapes : (Transition.execute (step .silent)
    [.connect, .client 0 .reset, .client 0 .runSocket] start).Escaped := by
  decide

end

end Server
end PcCourse
