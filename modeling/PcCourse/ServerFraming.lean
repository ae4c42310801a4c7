import PcCourse.Connection
import Mathlib.Data.List.TakeWhile
import Mathlib.Data.List.Induction

/-! Which requests the server makes out of the chunks it receives: `ReadRequest` clears what a
chunk brought behind the end of a request. -/
namespace PcCourse.ServerFraming

open ByteSearch Connection

def crLf : List UInt8 := [13, 10]

/-- What a client sends: every text with its end of message. -/
def stream (texts : List (List UInt8)) : List UInt8 := texts.flatMap (· ++ crLf)

abbrev Complete (buf : List UInt8) : Prop := (find crLf buf 0).isSome = true

/-- The requests made of what the buffer holds and the chunks that arrive. -/
def requests : List UInt8 → List (List UInt8) → List (List UInt8)
  | _, [] => []
  | buf, chunk :: rest =>
    if Complete (buf ++ chunk) then line (buf ++ chunk) :: requests [] rest
    else requests (buf ++ chunk) rest

/-- The end of every message is the end of a chunk. -/
def MessagesEndChunks (texts chunks : List (List UInt8)) : Prop :=
  ∀ k ≤ texts.length, ∃ j ≤ chunks.length, (chunks.take j).flatten = stream (texts.take k)

instance (texts chunks : List (List UInt8)) : Decidable (MessagesEndChunks texts chunks) :=
  inferInstanceAs (Decidable (∀ k ≤ texts.length, ∃ j ≤ chunks.length, _))

section
variable {buf t more : List UInt8} {texts chunks : List (List UInt8)}

@[simp] theorem stream_nil : stream [] = [] := rfl

@[simp] theorem stream_cons : stream (t :: texts) = t ++ crLf ++ stream texts := rfl

theorem complete_iff : Complete buf ↔ ∃ i, OccursAt crLf buf i := by
  constructor
  · intro complete
    obtain ⟨i,found⟩ := Option.isSome_iff_exists.mp complete
    exact ⟨i, (find_sound found).2⟩
  · rintro ⟨i,occurs⟩
    cases found : find crLf buf 0 with
    | some _ => rw [Complete, found, Option.isSome_some]
    | none => exact absurd occurs (find_eq_none_iff.mp found i (Nat.zero_le i))

theorem complete_message : Complete (t ++ crLf ++ more) := by
  refine complete_iff.mpr ⟨t.length, ?_, ?_⟩
  · simp
  · rw [List.append_assoc, List.drop_left]
    exact List.prefix_append _ _

theorem occurs_return {i : Nat} (occurs : OccursAt crLf buf i) :
    buf[i]? = some 13 ∧ i + 2 ≤ buf.length := by
  obtain ⟨inside,rest,shape⟩ := occurs
  constructor
  · have first := congrArg List.head? shape
    rw [List.head?_drop] at first
    exact first.symm
  · exact inside

theorem message_prefix (plain : 13 ∉ t) (begins : buf <+: t ++ crLf ++ more)
    (complete : Complete buf) : t ++ crLf <+: buf := by
  obtain ⟨i,occurs⟩ := complete_iff.mp complete
  obtain ⟨byte,inside⟩ := occurs_return occurs
  have whole : (t ++ crLf ++ more)[i]? = some 13 := by
    obtain ⟨rest,shape⟩ := begins
    rw [← shape, List.getElem?_append_left (by omega), byte]
  have behind : t.length ≤ i := by
    by_contra before
    rw [List.append_assoc, List.getElem?_append_left (by omega)] at whole
    exact plain (List.mem_of_getElem? whole)
  apply List.prefix_of_prefix_length_le (List.prefix_append _ more) begins
  rw [List.length_append]
  exact Nat.le_trans (Nat.add_le_add_right behind 2) inside

theorem line_message (plain : 13 ∉ t) : line (t ++ crLf ++ more) = t := by
  have free : ∀ b ∈ t, decide (b ≠ 13) = true := by
    intro b member
    apply decide_eq_true
    rintro rfl
    exact plain member
  rw [line, List.append_assoc, List.takeWhile_append_of_pos free]
  exact List.append_nil t

theorem line_le (complete : Complete buf) : (line buf).length + 2 ≤ buf.length := by
  obtain ⟨i,occurs⟩ := complete_iff.mp complete
  obtain ⟨byte,inside⟩ := occurs_return occurs
  have bound : (line buf).length ≤ i := by
    by_contra longer
    have same : (line buf)[i]? = some 13 := by
      obtain ⟨rest,shape⟩ : line buf <+: buf := List.takeWhile_prefix _
      have inside_ : i < (line buf).length := Nat.lt_of_not_le longer
      rw [← List.getElem?_append_left inside_, shape, byte]
    have member := List.mem_takeWhile_imp (List.mem_of_getElem? same)
    simp at member
  omega

theorem stream_requests_le (buf : List UInt8) (chunks : List (List UInt8)) :
    (stream (requests buf chunks)).length ≤ buf.length + chunks.flatten.length := by
  induction chunks generalizing buf with
  | nil => exact Nat.zero_le _
  | cons chunk rest ih =>
    rw [requests]
    split
    next complete =>
      have first := line_le complete
      have others := ih []
      simp only [stream_cons, List.length_append, List.flatten_cons, List.length_nil] at *
      have two : crLf.length = 2 := rfl
      omega
    next =>
      have others := ih (buf ++ chunk)
      simp only [List.length_append, List.flatten_cons] at *
      omega

def EndsBehind (buf : List UInt8) (texts chunks : List (List UInt8)) : Prop :=
  ∀ k < texts.length, ∃ j ≤ chunks.length,
    buf ++ (chunks.take j).flatten = stream (texts.take (k + 1))

theorem endsBehind_nil : EndsBehind [] texts chunks ↔ MessagesEndChunks texts chunks := by
  constructor
  · intro ends k bound
    cases k with
    | zero => exact ⟨0, Nat.zero_le _, rfl⟩
    | succ k => exact ends k bound
  · intro ends k bound
    exact ends (k + 1) bound

theorem endsBehind_cons {chunk : List UInt8} (incomplete : ¬Complete buf) :
    EndsBehind buf texts (chunk :: chunks) ↔ EndsBehind (buf ++ chunk) texts chunks := by
  constructor
  · intro ends k bound
    obtain ⟨j,inside,shape⟩ := ends k bound
    cases j with
    | zero =>
      obtain ⟨t,rest,rfl⟩ := List.exists_cons_of_length_pos (Nat.zero_lt_of_lt bound)
      rw [List.take_zero, List.flatten_nil, List.append_nil] at shape
      rw [shape] at incomplete
      exact absurd complete_message incomplete
    | succ j =>
      refine ⟨j, Nat.le_of_succ_le_succ inside, ?_⟩
      rwa [List.take_succ_cons, List.flatten_cons, ← List.append_assoc] at shape
  · intro ends k bound
    obtain ⟨j,inside,shape⟩ := ends k bound
    refine ⟨j + 1, Nat.succ_le_succ inside, ?_⟩
    rwa [List.take_succ_cons, List.flatten_cons, ← List.append_assoc]

theorem endsBehind_message : EndsBehind (t ++ crLf) (t :: texts) chunks ↔ EndsBehind [] texts chunks := by
  constructor
  · intro ends k bound
    obtain ⟨j,inside,shape⟩ := ends (k + 1) (Nat.succ_lt_succ bound)
    exact ⟨j, inside, List.append_cancel_left shape⟩
  · intro ends k bound
    cases k with
    | zero => exact ⟨0, Nat.zero_le _, rfl⟩
    | succ k =>
      obtain ⟨j,inside,shape⟩ := ends k (Nat.lt_of_succ_lt_succ bound)
      refine ⟨j, inside, ?_⟩
      rw [List.take_succ_cons, stream_cons]
      exact congrArg (t ++ crLf ++ ·) shape

/-- The requests are the texts exactly when no chunk goes on behind the end of a message.
The induction is on the chunks; a chunk that goes on takes bytes that no request has. -/
theorem requests_eq_iff (plain : ∀ t ∈ texts, 13 ∉ t) (incomplete : ¬Complete buf)
    (sent : buf ++ chunks.flatten = stream texts) :
    requests buf chunks = texts ↔ EndsBehind buf texts chunks := by
  induction chunks generalizing buf texts with
  | nil =>
    cases texts with
    | nil => simp [requests, EndsBehind]
    | cons t texts =>
      rw [List.flatten_nil, List.append_nil] at sent
      rw [sent] at incomplete
      exact absurd complete_message incomplete
  | cons chunk rest ih =>
    rw [List.flatten_cons, ← List.append_assoc] at sent
    rw [endsBehind_cons incomplete, requests]
    split
    next complete =>
      cases texts with
      | nil =>
        have empty : buf ++ chunk = [] := (List.append_eq_nil_iff.mp sent).1
        rw [empty] at complete
        exact absurd complete (by decide)
      | cons t texts =>
        have begins : buf ++ chunk <+: t ++ crLf ++ stream texts := ⟨_, sent⟩
        obtain ⟨extra,shape⟩ := message_prefix (plain t List.mem_cons_self) begins complete
        rw [← shape, stream_cons, List.append_assoc (t ++ crLf)] at sent
        have left : extra ++ rest.flatten = stream texts := List.append_cancel_left sent
        have others : ∀ t ∈ texts, 13 ∉ t := fun t member => plain t (List.mem_cons_of_mem _ member)
        rw [← shape, line_message (plain t List.mem_cons_self), List.cons.injEq]
        simp only [true_and]
        by_cases whole : extra = []
        · subst whole
          rw [List.append_nil, endsBehind_message]
          exact ih others (by decide) left
        · have bytes := congrArg List.length left
          have some_ := List.length_pos_iff.mpr whole
          rw [List.length_append] at bytes
          constructor
          · intro same
            have bound := stream_requests_le [] rest
            rw [same, List.length_nil] at bound
            omega
          · intro ends
            obtain ⟨j,-,first⟩ := ends 0 (Nat.succ_pos _)
            have longer := congrArg List.length first
            simp only [List.length_append, List.take_succ_cons, stream_cons, List.take_zero, stream_nil,
              List.length_nil] at longer
            omega
    next incomplete => exact ih plain incomplete sent

end

/-- What one more chunk adds to the requests so far and the buffer. -/
def take (framed : List (List UInt8) × List UInt8) (chunk : List UInt8) :
    List (List UInt8) × List UInt8 :=
  if Complete (framed.2 ++ chunk) then (framed.1 ++ [line (framed.2 ++ chunk)], [])
  else (framed.1, framed.2 ++ chunk)

theorem foldl_take (chunks : List (List UInt8)) (done : List (List UInt8)) (buf : List UInt8) :
    (chunks.foldl take (done, buf)).1 = done ++ requests buf chunks := by
  induction chunks generalizing done buf with
  | nil => exact (List.append_nil done).symm
  | cons chunk rest ih =>
    rw [List.foldl_cons, requests, take]
    split
    · rw [ih, List.append_assoc, List.singleton_append]
    · exact ih done (buf ++ chunk)

/-- The events of a run without a timeout and without a disconnection. -/
def InTime : Event → Prop
  | .receive _ | .written | .runSocket | .runTimer _ => True
  | _ => False

/-- How the requests so far come from the chunks so far, by what the connection is at. -/
def Framed (s : Connection) : Prop :=
  match s.activity with
  | .pending .read _ =>
    s.isTimeout = false ∧ s.arrived.foldl take ([], []) = (s.processed, s.inputBuf)
  | .queued .read _ .success => s.isTimeout = false ∧
    s.arrived.foldl take ([], []) = (s.processed ++ [line s.inputBuf], [])
  | .queued .accept _ .success | .pending .write _ | .queued .write _ .success =>
    s.arrived.foldl take ([], []) = (s.processed, [])
  | _ => False

structure InService (s : Connection) : Prop where
  framed : Framed s
  connected : s.peer = .connected
  running : s.escaped = false
  cancelled : NoneExpired s

section
variable {s : Connection}

/-- The handlers that read the next request leave nothing of the last one. -/
theorem inService_readRequest (framed : s.arrived.foldl take ([], []) = (s.processed, []))
    (connected : s.peer = .connected) (running : s.escaped = false)
    (cancelled : NoneExpired s) : InService s.readRequest := by
  have timers := cancelled.cancelTimer
  rw [cancelTimer_eq] at timers
  rw [readRequest, cancelTimer_eq]
  exact ⟨⟨rfl, framed⟩, connected, running, timers⟩

theorem inService_receive {c : Service} (delim : c.endOfMessage = crLf) (chunk : List UInt8)
    (served : InService s) : InService (s.receive c chunk) := by
  obtain ⟨framed,connected,running,cancelled⟩ := served
  unfold receive
  split
  next k reading =>
    rw [Framed, reading] at framed
    obtain ⟨inTime,frames⟩ := framed
    refine ⟨?_, connected, running, cancelled⟩
    by_cases complete : Complete (s.inputBuf ++ chunk)
    · simp only [Framed, delim, if_pos complete]
      refine ⟨inTime, ?_⟩
      rw [List.foldl_append, frames, List.foldl_cons, List.foldl_nil, take, if_pos complete]
    · simp only [Framed, delim, if_neg complete]
      refine ⟨inTime, ?_⟩
      rw [List.foldl_append, frames, List.foldl_cons, List.foldl_nil, take, if_neg complete]
  next => exact ⟨framed, connected, running, cancelled⟩

theorem inService_written (served : InService s) : InService s.written := by
  obtain ⟨framed,connected,running,cancelled⟩ := served
  unfold written
  split
  next k writing =>
    rw [Framed, writing] at framed
    exact ⟨framed, connected, running, cancelled⟩
  next => exact ⟨framed, connected, running, cancelled⟩

theorem inService_runSocket {c : Service} (served : InService s) : InService (s.runSocket c) := by
  obtain ⟨framed,connected,running,cancelled⟩ := served
  have there : s.peer ≠ .gone := by
    rw [connected]
    exact Peer.noConfusion
  unfold runSocket
  split
  next k code queued =>
    cases code with
    | success =>
      rw [Framed, queued] at framed
      rw [acceptHandler, afterPeer, if_neg there]
      exact inService_readRequest framed connected running cancelled
    | _ =>
      rw [Framed, queued] at framed
      exact framed.elim
  next k code queued =>
    cases code with
    | success =>
      rw [Framed, queued] at framed
      obtain ⟨inTime,frames⟩ := framed
      have timers := cancelled.cancelTimer
      rw [cancelTimer_eq] at timers
      rw [readHandler, inTime]
      simp only [Bool.false_eq_true, if_false, cancelTimer_eq]
      exact ⟨frames, connected, running, timers⟩
    | _ =>
      rw [Framed, queued] at framed
      exact framed.elim
  next k code queued =>
    cases code with
    | success =>
      rw [Framed, queued] at framed
      exact inService_readRequest framed connected running cancelled
    | _ =>
      rw [Framed, queued] at framed
      exact framed.elim
  next => exact ⟨framed, connected, running, cancelled⟩

theorem inService_runTimer (i : Nat) (served : InService s) : InService (s.runTimer i) := by
  obtain ⟨framed,connected,running,cancelled⟩ := served
  unfold runTimer
  split
  next k code found =>
    have cancelledWait : code ≠ .success := cancelled _ (List.mem_of_getElem? found)
    rw [timerHandler, if_neg fun expired => cancelledWait expired.1]
    exact ⟨framed, connected, running, fun w member => cancelled w (List.mem_of_mem_eraseIdx member)⟩
  next => exact ⟨framed, connected, running, cancelled⟩

theorem step_inService {c : Service} (delim : c.endOfMessage = crLf) {event : Event}
    (inTime : InTime event) (served : InService s) : InService (step c event s) := by
  rw [step_running served.running]
  cases event with
  | receive chunk => exact inService_receive delim chunk served
  | written => exact inService_written served
  | runSocket => exact inService_runSocket served
  | runTimer i => exact inService_runTimer i served
  | _ => exact inTime.elim

theorem run_inService {c : Service} (delim : c.endOfMessage = crLf) {events : List Event}
    (inTime : ∀ event ∈ events, InTime event) :
    InService (Transition.execute (step c) events accepted) := by
  have admitted : Transition.Along (step c) (fun _ event => InTime event) events accepted :=
    .of_forall events accepted fun event member _ => inTime event member
  apply Transition.execute_invariant InService (fun _ _ inTime served => step_inService delim inTime served)
    events accepted admitted
  exact ⟨rfl, rfl, rfl, fun w member => absurd member List.not_mem_nil⟩

end

def Waiting (s : Connection) : Prop := ∃ k, s.activity = .pending .read k

def serving (chunk : List UInt8) : List Event := [.receive chunk, .runSocket, .written, .runSocket]

theorem serving_waiting {c : Service} (delim : c.endOfMessage = crLf) {s : Connection}
    (served : InService s) (waiting : Waiting s) (chunk : List UInt8) :
    Waiting (Transition.execute (step c) (serving chunk) s) ∧
      (Transition.execute (step c) (serving chunk) s).arrived = s.arrived ++ [chunk] := by
  obtain ⟨framed,-,running,-⟩ := served
  obtain ⟨k,reading⟩ := waiting
  rw [Framed, reading] at framed
  by_cases complete : Complete (s.inputBuf ++ chunk)
  · simp [serving, Transition.execute, step, happen, receive, runSocket, readHandler, processRequest,
      writeRespone, Connection.written, writeHandler, readRequest, cancelTimer_eq, Waiting, running,
      reading, framed.1, delim, complete]
  · simp [serving, Transition.execute, step, happen, receive, runSocket, Connection.written, Waiting,
      running, reading, delim, complete]

def receiving (chunks : List (List UInt8)) : List Event := .runSocket :: chunks.flatMap serving

theorem receiving_inTime (chunks : List (List UInt8)) : ∀ event ∈ receiving chunks, InTime event := by
  intro event member
  rcases List.mem_cons.mp member with rfl | member
  · trivial
  · obtain ⟨chunk,-,among⟩ := List.mem_flatMap.mp member
    simp only [serving, List.mem_cons, List.not_mem_nil, or_false] at among
    rcases among with rfl | rfl | rfl | rfl <;> trivial

/-- Every cut of what a client sends occurs in a run. -/
theorem receiving_waiting {c : Service} (delim : c.endOfMessage = crLf) (chunks : List (List UInt8)) :
    Waiting (Transition.execute (step c) (receiving chunks) accepted) ∧
      (Transition.execute (step c) (receiving chunks) accepted).arrived = chunks := by
  induction chunks using List.reverseRecOn with
  | nil => exact ⟨⟨1, rfl⟩, rfl⟩
  | append_singleton chunks chunk ih =>
    have one : receiving (chunks ++ [chunk]) = receiving chunks ++ serving chunk := by
      simp [receiving]
    have next := serving_waiting delim (run_inService delim (receiving_inTime chunks)) ih.1 chunk
    rwa [← Transition.execute_append, ← one, ih.2] at next

/-- In a run without a timeout, the strings passed to `ProcessRequest` are the texts of the
requests exactly when no chunk goes on behind the end of a request. -/
theorem processed_eq_iff {c : Service} (delim : c.endOfMessage = crLf) {texts : List (List UInt8)}
    (plain : ∀ t ∈ texts, 13 ∉ t) {events : List Event} (inTime : ∀ event ∈ events, InTime event) :
    let s := Transition.execute (step c) events accepted
    Waiting s → s.arrived.flatten = stream texts →
      (s.processed = texts ↔ MessagesEndChunks texts s.arrived) := by
  intro s waiting sent
  obtain ⟨k,reading⟩ := waiting
  have framed : Framed s := (run_inService delim inTime).framed
  rw [Framed, reading] at framed
  have made : s.processed = requests [] s.arrived := by
    simpa only [framed.2, List.nil_append] using foldl_take s.arrived [] []
  rw [made, ← endsBehind_nil]
  exact requests_eq_iff plain (by decide) sent

theorem separate_chunks_processed :
    (Transition.execute (step .silent) (receiving [[97, 13, 10], [98, 13, 10]])
      accepted).processed = [[97], [98]] := by
  have run := receiving_waiting (c := .silent) rfl [[97, 13, 10], [98, 13, 10]]
  refine (processed_eq_iff rfl (by decide) (receiving_inTime _) run.1 ?_).mpr ?_
  · rw [run.2]
    rfl
  · rw [run.2]
    decide

/-- Of two requests in one chunk, the second is lost. -/
theorem second_request_lost :
    let s := Transition.execute (step .silent) (receiving [[97, 13, 10, 98, 13, 10]]) accepted
    s.activity = .pending .read 2 ∧ s.arrived.flatten = stream [[97], [98]] ∧
      s.processed = [[97]] := by
  decide

end PcCourse.ServerFraming
