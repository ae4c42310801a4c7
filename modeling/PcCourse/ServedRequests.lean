import PcCourse.ServerFraming
import PcCourse.ServerSafety

/-! The server with the store that its handlers work on, one handler at a time as with one
worker thread: which requests are handled in a run of all its connections, in which order,
and what is written to whom. -/
namespace PcCourse.ServedRequests

open Transition Connection

/-- The delimiter, and what handling a request under these conditions gives: a response, unless
an assertion fails, and the store behind it. -/
structure Backend (κ σ : Type) where
  endOfMessage : List UInt8
  handle : κ × List UInt8 → σ → Option (List UInt8) × σ

/-- A request that a connection has passed on, and its response. -/
structure Exchange (κ : Type) where
  connection : Nat
  conditions : κ
  request : List UInt8
  response : Option (List UInt8)

structure System (κ σ : Type) where
  server : Server
  store : σ
  /-- the requests in the order of their handling -/
  log : List (Exchange κ)
  /-- the completed writes, with their connections -/
  carried : List (Nat × List UInt8)

/-- The string that the handler run by an event passes to `ProcessRequest`. -/
def asked (event : Connection.Event) (s : Connection) : Option (List UInt8) :=
  match event, s.activity with
  | .runSocket, .queued .read _ .success => if s.isTimeout then none else some (line s.inputBuf)
  | _, _ => none

/-- The string that an event has handed over to the network. -/
def wrote (event : Connection.Event) (s : Connection) : Option (List UInt8) :=
  match event, s.activity with
  | .written, .pending .write _ => some s.outputStr
  | _, _ => none

def atClient {β : Type} (f : Connection.Event → Connection → Option β) (event : Server.Event)
    (s : Server) : Option (Nat × β) :=
  match event with
  | .client i event => (s.connections[i]?.bind (f event)).map fun value => (i, value)
  | _ => none

section
variable {κ σ : Type}

def start (store : σ) : System κ σ := ⟨.start, store, [], []⟩

def Backend.service (b : Backend κ σ) (conditions : κ) (store : σ) : Service :=
  ⟨b.endOfMessage, fun request => (b.handle (conditions, request) store).1.getD []⟩

def Aborted (s : System κ σ) : Prop := ∃ x ∈ s.log, x.response = none

instance (s : System κ σ) : Decidable (Aborted s) :=
  inferInstanceAs (Decidable (∃ x ∈ s.log, _))

/-- An exception out of a handler or a failed assertion ends the process. -/
def step (b : Backend κ σ) (event : κ × Server.Event) (s : System κ σ) : System κ σ :=
  if s.server.Escaped ∨ Aborted s then s
  else
    match atClient asked event.2 s.server with
    | some (i, request) =>
      let (response, store) := b.handle (event.1, request) s.store
      { s with
        server := match response with
          | some _ => s.server.step (b.service event.1 s.store) event.2
          | none => s.server
        store := store
        log := s.log ++ [⟨i, event.1, request, response⟩] }
    | none =>
      { s with
        server := s.server.step (b.service event.1 s.store) event.2
        carried := s.carried ++ (atClient wrote event.2 s.server).toList }

end

/-- How what has been written to a connection comes from the responses to its requests. -/
def Delivered (s : Connection) (responses sent : List (List UInt8)) : Prop :=
  match s.activity with
  | .pending .write _ => responses = sent ++ [s.outputStr]
  | .queued .write _ .success => responses = sent
  | .queued .write _ _ | .idle => ∃ unsent : List (List UInt8),
    unsent.length ≤ 1 ∧ responses = sent ++ unsent
  | _ => responses = sent

section
variable {c : Service} {s after : Connection} {responses sent : List (List UInt8)}

theorem Delivered.unsent (delivered : Delivered s responses sent) :
    ∃ unsent : List (List UInt8), unsent.length ≤ 1 ∧ responses = sent ++ unsent := by
  unfold Delivered at delivered
  split at delivered
  · exact ⟨[s.outputStr], Nat.le_refl 1, delivered⟩
  · exact ⟨[], Nat.zero_le 1, by rw [delivered, List.append_nil]⟩
  · exact delivered
  · exact delivered
  · exact ⟨[], Nat.zero_le 1, by rw [delivered, List.append_nil]⟩

theorem Delivered.idle (idle : s.activity = .idle)
    (unsent : ∃ unsent : List (List UInt8), unsent.length ≤ 1 ∧ responses = sent ++ unsent) :
    Delivered s responses sent := by
  rw [Delivered, idle]
  exact unsent

theorem Delivered.reading (reading : ∃ k, s.activity = .pending .read k) :
    Delivered s responses sent ↔ responses = sent := by
  obtain ⟨k,reading⟩ := reading
  rw [Delivered, reading]

theorem Delivered.same (delivered : Delivered s responses sent) (activity : after.activity = s.activity)
    (outputStr : after.outputStr = s.outputStr) : Delivered after responses sent := by
  rw [Delivered, activity, outputStr]
  exact delivered

theorem Delivered.unfinished {operation : Operation} {k : Nat} {code : ErrorCode}
    (delivered : Delivered s responses sent) (pending : s.activity = .pending operation k)
    (unfinished : after.activity = .queued operation k code) (failed : code ≠ .success) :
    Delivered after responses sent := by
  have left := delivered.unsent
  rw [Delivered, pending] at delivered
  rw [Delivered, unfinished]
  cases operation with
  | write =>
    cases code with
    | success => exact absurd rfl failed
    | _ => exact left
  | _ => exact delivered

theorem Delivered.readRequest (settled : responses = sent) : Delivered s.readRequest responses sent := by
  rw [Delivered, Connection.readRequest]
  exact settled

theorem Delivered.afterPeer {next : Connection → Connection} (delivered : Delivered s responses sent)
    (followed : Delivered (next s) responses sent) : Delivered (s.afterPeer next) responses sent := by
  unfold Connection.afterPeer
  split
  · exact delivered.same rfl rfl
  · exact followed

theorem processed_cancelTimer : s.cancelTimer.processed = s.processed := by rw [cancelTimer_eq]

theorem processed_readRequest : s.readRequest.processed = s.processed := processed_cancelTimer

theorem processed_afterPeer {next : Connection → Connection} (kept : (next s).processed = s.processed) :
    (s.afterPeer next).processed = s.processed := by
  unfold Connection.afterPeer
  split
  · rfl
  · exact kept

theorem activity_cancelTimer : s.cancelTimer.activity = s.activity := by rw [cancelTimer_eq]

theorem activity_afterPeer {next : Connection → Connection} {activity : Activity}
    (here : s.activity = activity) (there : (next s).activity = activity) :
    (s.afterPeer next).activity = activity := by
  unfold Connection.afterPeer
  split
  · exact here
  · exact there

theorem readHandler_in_time (inTime : s.isTimeout = false) :
    (readHandler c .success s).processed = s.processed ++ [line s.inputBuf] ∧
      ∃ k, (readHandler c .success s).activity = .pending .write k ∧
        (readHandler c .success s).outputStr = c.response (line s.inputBuf) ++ c.endOfMessage := by
  rw [readHandler, inTime]
  simp only [Bool.false_eq_true, if_false, cancelTimer_eq]
  exact ⟨rfl, _, rfl, rfl⟩

theorem readHandler_otherwise {code : ErrorCode} (otherwise : code ≠ .success ∨ s.isTimeout = true)
    (idle : s.activity = .idle) : (readHandler c code s).processed = s.processed ∧
      (readHandler c code s).activity = .idle := by
  unfold readHandler
  split
  · exact ⟨processed_afterPeer rfl, activity_afterPeer idle idle⟩
  next inTime =>
    cases code with
    | success =>
      rcases otherwise with other | timedOut
      · exact absurd rfl other
      · exact absurd timedOut inTime
    | eof => exact ⟨processed_afterPeer processed_cancelTimer,
        activity_afterPeer idle (activity_cancelTimer.trans idle)⟩
    | operationAborted => exact ⟨processed_afterPeer rfl, activity_afterPeer idle idle⟩
    | failed => exact ⟨processed_cancelTimer, activity_cancelTimer.trans idle⟩

theorem runSocket_delivered (delivered : Delivered s responses sent) :
    (s.runSocket c).processed = s.processed ++ (asked .runSocket s).toList ∧
    Delivered (s.runSocket c)
      (responses ++ (asked .runSocket s).toList.map fun request => c.response request ++ c.endOfMessage)
      sent := by
  have left := delivered.unsent
  have idle : Delivered { s with activity := .idle } responses sent := .idle rfl left
  unfold runSocket
  split
  next k code queued =>
    have settled : responses = sent := by
      rw [Delivered, queued] at delivered
      exact delivered
    simp only [asked, queued, Option.toList_none, List.append_nil, List.map_nil]
    cases code with
    | success => exact ⟨processed_afterPeer processed_readRequest, idle.afterPeer (.readRequest settled)⟩
    | _ => exact ⟨rfl, idle⟩
  next k code queued =>
    have settled : responses = sent := by
      rw [Delivered, queued] at delivered
      exact delivered
    by_cases passes : code = .success ∧ s.isTimeout = false
    · obtain ⟨rfl,inTime⟩ := passes
      obtain ⟨processed,k',writing,output⟩ :=
        readHandler_in_time (c := c) (s := { s with activity := .idle }) inTime
      have asks : asked .runSocket s = some (line s.inputBuf) := by
        simp only [asked, queued, inTime, Bool.false_eq_true, if_false]
      rw [asks]
      refine ⟨processed, ?_⟩
      rw [Delivered, writing, settled]
      exact congrArg (fun text => sent ++ [text]) output.symm
    · have otherwise : code ≠ .success ∨ s.isTimeout = true := by
        rw [not_and_or, Bool.not_eq_false] at passes
        exact passes
      obtain ⟨processed,rests⟩ :=
        readHandler_otherwise (c := c) (s := { s with activity := .idle }) otherwise rfl
      have nothing : asked .runSocket s = none := by
        rcases otherwise with other | timedOut
        · cases code with
          | success => exact absurd rfl other
          | _ => simp only [asked, queued]
        · cases code <;> simp [asked, queued, timedOut]
      simp only [nothing, Option.toList_none, List.append_nil, List.map_nil]
      exact ⟨processed, .idle rests left⟩
  next k code queued =>
    simp only [asked, queued, Option.toList_none, List.append_nil, List.map_nil]
    cases code with
    | success =>
      rw [Delivered, queued] at delivered
      exact ⟨processed_readRequest, .readRequest delivered⟩
    | eof => exact ⟨processed_afterPeer rfl, idle.afterPeer idle⟩
    | _ => exact ⟨rfl, idle⟩
  next other =>
    have nothing : asked .runSocket s = none := by
      cases activity : s.activity with
      | queued operation k code => cases operation <;> simp_all
      | _ => simp only [asked, activity]
    simp only [nothing, Option.toList_none, List.append_nil, List.map_nil]
    exact ⟨trivial, delivered⟩

theorem runTimer_delivered (i : Nat) (delivered : Delivered s responses sent) :
    (s.runTimer i).processed = s.processed ∧ Delivered (s.runTimer i) responses sent := by
  unfold runTimer
  split
  next k code _ =>
    unfold timerHandler cancelSocket
    split
    · dsimp only
      split
      next pending => exact ⟨rfl, delivered.unfinished pending rfl ErrorCode.noConfusion⟩
      next => exact ⟨rfl, delivered.same rfl rfl⟩
    · exact ⟨rfl, delivered.same rfl rfl⟩
  next => exact ⟨rfl, delivered⟩

theorem receive_delivered (chunk : List UInt8) (delivered : Delivered s responses sent) :
    (s.receive c chunk).processed = s.processed ∧ Delivered (s.receive c chunk) responses sent := by
  unfold receive
  split
  next k reading =>
    refine ⟨rfl, ?_⟩
    rw [Delivered.reading ⟨k, reading⟩] at delivered
    unfold Delivered
    dsimp only
    split_ifs <;> exact delivered
  next => exact ⟨rfl, delivered⟩

theorem written_delivered (delivered : Delivered s responses sent) :
    s.written.processed = s.processed ∧
      Delivered s.written responses (sent ++ (wrote .written s).toList) := by
  unfold written
  split
  next k writing =>
    have writes : wrote .written s = some s.outputStr := by simp only [wrote, writing]
    rw [Delivered, writing] at delivered
    rw [writes]
    exact ⟨rfl, delivered⟩
  next other =>
    have nothing : wrote .written s = none := by
      cases activity : s.activity with
      | pending operation k => cases operation <;> simp_all [wrote]
      | _ => simp only [wrote, activity]
    rw [nothing, Option.toList_none, List.append_nil]
    exact ⟨rfl, delivered⟩

theorem fail_delivered (code : ErrorCode) (delivered : Delivered s responses sent) :
    (s.fail code).processed = s.processed ∧ Delivered (s.fail code) responses sent := by
  unfold fail
  split
  next operation k pending =>
    split
    next fails =>
      refine ⟨rfl, delivered.unfinished pending rfl ?_⟩
      rintro rfl
      rcases fails with ⟨same,-⟩ | same <;> cases same
    next => exact ⟨rfl, delivered⟩
  next => exact ⟨rfl, delivered⟩

/-- One step of a connection passes on what it asks, and hands over what it writes. -/
theorem step_delivered (event : Connection.Event) (running : s.escaped = false)
    (delivered : Delivered s responses sent) :
    (s.step c event).processed = s.processed ++ (asked event s).toList ∧
    Delivered (s.step c event)
      (responses ++ (asked event s).toList.map fun request => c.response request ++ c.endOfMessage)
      (sent ++ (wrote event s).toList) := by
  rw [step_running running]
  cases event with
  | runSocket => simpa [wrote, happen] using runSocket_delivered delivered
  | receive chunk => simpa [asked, wrote, happen] using receive_delivered chunk delivered
  | written => simpa [asked, happen] using written_delivered delivered
  | fail code => simpa [asked, wrote, happen] using fail_delivered code delivered
  | close =>
    simp only [asked, wrote, happen, Option.toList_none, List.append_nil, List.map_nil]
    split <;> exact ⟨rfl, delivered.same rfl rfl⟩
  | reset =>
    simp only [asked, wrote, happen, Option.toList_none, List.append_nil, List.map_nil]
    exact ⟨trivial, delivered.same rfl rfl⟩
  | expire =>
    simp only [asked, wrote, happen, Option.toList_none, List.append_nil, List.map_nil, expire]
    split <;> exact ⟨rfl, delivered.same rfl rfl⟩
  | runTimer i => simpa [asked, wrote, happen] using runTimer_delivered i delivered

end

section
variable {κ σ : Type}

def Exchange.call (x : Exchange κ) : κ × List UInt8 := (x.conditions, x.request)

def answered (i : Nat) (log : List (Exchange κ)) : List (List UInt8 × List UInt8) :=
  log.filterMap fun x => if x.connection = i then x.response.map fun response => (x.request, response)
    else none

def sent (i : Nat) (carried : List (Nat × List UInt8)) : List (List UInt8) :=
  carried.filterMap fun x => if x.1 = i then some x.2 else none

/-- A connection has passed on its requests, and got their responses. -/
structure Follows (b : Backend κ σ) (s : System κ σ) (i : Nat) (connection : Connection) : Prop where
  processed : connection.processed = (answered i s.log).map Prod.fst
  delivered : Delivered connection ((answered i s.log).map fun x => x.2 ++ b.endOfMessage)
    (sent i s.carried)

/-- The log is a history of the store, and every connection follows its part of it. -/
structure Served (b : Backend κ σ) (first : σ) (s : System κ σ) : Prop where
  responses : s.log.map Exchange.response = outputs b.handle (s.log.map Exchange.call) first
  store : s.store = execute (fun call store => (b.handle call store).2) (s.log.map Exchange.call) first
  logged : ∀ x ∈ s.log, x.connection < s.server.connections.length
  carried : ∀ x ∈ s.carried, x.1 < s.server.connections.length
  connections : ∀ i connection, s.server.connections[i]? = some connection → Follows b s i connection

variable {b : Backend κ σ} {c : Service} {s : Server} {i : Nat} {x : Exchange κ} {log : List (Exchange κ)}
  {carried : List (Nat × List UInt8)}

theorem step_connection {event : Server.Event} (running : ¬s.Escaped) {after : Connection}
    (found : (s.step c event).connections[i]? = some after) :
    (∃ own before, event = .client i own ∧ s.connections[i]? = some before ∧
      after = before.step c own) ∨
    ((∀ own, event ≠ .client i own) ∧ s.connections[i]? = some after) ∨
    event = .connect ∧ i = s.connections.length ∧ after = accepted := by
  unfold Server.step at found
  rw [if_neg running] at found
  cases event with
  | connect =>
    dsimp only at found
    split at found
    · rw [List.getElem?_append, List.getElem?_singleton] at found
      split_ifs at found with old new
      · exact .inr (.inl ⟨fun _ => Server.Event.noConfusion, found⟩)
      · exact .inr (.inr ⟨rfl, by omega, (Option.some.inj found).symm⟩)
    · exact .inr (.inl ⟨fun _ => Server.Event.noConfusion, found⟩)
  | acceptFails => exact .inr (.inl ⟨fun _ => Server.Event.noConfusion, found⟩)
  | client j own =>
    dsimp only at found
    by_cases same : j = i
    · subst same
      cases there : s.connections[j]? with
      | none =>
        simp only [there] at found
        cases found
      | some before =>
        obtain ⟨bound,-⟩ := List.getElem?_eq_some_iff.mp there
        simp only [there, List.getElem?_set_self bound, Option.some.injEq] at found
        exact .inl ⟨own, before, rfl, rfl, found.symm⟩
    · refine .inr (.inl ⟨fun _ eq => same (Server.Event.client.inj eq).1, ?_⟩)
      split at found
      · exact found
      · rwa [List.getElem?_set_ne same] at found

theorem step_length (event : Server.Event) :
    s.connections.length ≤ (s.step c event).connections.length := by
  unfold Server.step
  split
  · exact Nat.le_refl _
  cases event with
  | connect =>
    dsimp only
    split
    · simp
    · exact Nat.le_refl _
  | acceptFails => exact Nat.le_refl _
  | client j own =>
    dsimp only
    split
    · exact Nat.le_refl _
    · simp

theorem answered_snoc (x : Exchange κ) : answered i (log ++ [x]) = answered i log ++
    if x.connection = i then (x.response.map fun response => (x.request, response)).toList else [] := by
  rw [answered, List.filterMap_append]
  congr 1
  split_ifs with same
  · cases response : x.response <;> simp [same, response]
  · simp [same]

theorem answered_fresh (logged : ∀ x ∈ log, x.connection < i) : answered i log = [] := by
  rw [answered, List.filterMap_eq_nil_iff]
  intro x member
  exact if_neg (Nat.ne_of_lt (logged x member))

theorem sent_append (more : List (Nat × List UInt8)) :
    sent i (carried ++ more) = sent i carried ++ sent i more := List.filterMap_append

theorem sent_fresh (known : ∀ x ∈ carried, x.1 < i) : sent i carried = [] := by
  rw [sent, List.filterMap_eq_nil_iff]
  intro x member
  exact if_neg (Nat.ne_of_lt (known x member))

theorem atClient_eq_some {β : Type} {f : Connection.Event → Connection → Option β} {event : Server.Event}
    {value : β} : atClient f event s = some (i, value) ↔ ∃ own before, event = .client i own ∧
      s.connections[i]? = some before ∧ f own before = some value := by
  cases event with
  | client j own =>
    simp only [atClient, Option.map_eq_some_iff, Option.bind_eq_some_iff, Prod.mk.injEq]
    constructor
    · rintro ⟨_,⟨before,there,gives⟩,rfl,rfl⟩
      exact ⟨own, before, rfl, there, gives⟩
    · rintro ⟨_,before,same,there,gives⟩
      cases same
      exact ⟨value, ⟨before, there, gives⟩, rfl, rfl⟩
  | _ => simp [atClient]

theorem atClient_own {β : Type} {f : Connection.Event → Connection → Option β} {own : Connection.Event}
    {before : Connection} (there : s.connections[i]? = some before) :
    atClient f (.client i own) s = (f own before).map fun value => (i, value) := by
  rw [atClient, there, Option.bind_some]

/-- What is asked is not written at the same time. -/
theorem wrote_of_asked {own : Connection.Event} {before : Connection} {request : List UInt8}
    (asks : asked own before = some request) : wrote own before = none := by
  unfold asked at asks
  split at asks
  · rfl
  · cases asks

end

section
variable {κ σ : Type} {b : Backend κ σ} {first : σ} {s : System κ σ} {event : κ × Server.Event}

theorem start_served (b : Backend κ σ) (first : σ) : Served b first (start first) where
  responses := rfl
  store := rfl
  logged := fun _ member => absurd member List.not_mem_nil
  carried := fun _ member => absurd member List.not_mem_nil
  connections := fun _ _ found => by cases found

theorem connection_running {server : Server} (running : ¬server.Escaped) {i : Nat} {connection : Connection}
    (found : server.connections[i]? = some connection) : connection.escaped = false := by
  by_contra escaped
  exact running ⟨connection, List.mem_of_getElem? found, by simpa using escaped⟩

theorem Served.unasked (served : Served b first s) (running : ¬s.server.Escaped)
    (unasked : atClient asked event.2 s.server = none) :
    Served b first { s with
      server := s.server.step (b.service event.1 s.store) event.2
      carried := s.carried ++ (atClient wrote event.2 s.server).toList } := by
  have longer : s.server.connections.length ≤
      (s.server.step (b.service event.1 s.store) event.2).connections.length := step_length event.2
  have writers : ∀ x ∈ atClient wrote event.2 s.server, x.1 < s.server.connections.length := by
    rintro ⟨i,text⟩ member
    obtain ⟨own,before,-,there,-⟩ := atClient_eq_some.mp member
    obtain ⟨bound,-⟩ := List.getElem?_eq_some_iff.mp there
    exact bound
  refine ⟨served.responses, served.store, fun x member => Nat.lt_of_lt_of_le (served.logged x member) longer,
    fun x member => ?_, fun i after found => ?_⟩
  · rcases List.mem_append.mp member with old | new
    · exact Nat.lt_of_lt_of_le (served.carried x old) longer
    · exact Nat.lt_of_lt_of_le (writers x (Option.mem_toList.mp new)) longer
  · rcases step_connection running found with
      ⟨own,before,same,there,rfl⟩ | ⟨other,there⟩ | ⟨same,rfl,rfl⟩
    · obtain ⟨processed,delivered⟩ := served.connections i before there
      have quiet : asked own before = none := by
        rw [same, atClient_own there, Option.map_eq_none_iff] at unasked
        exact unasked
      have moved := step_delivered (c := b.service event.1 s.store) own (connection_running running there) delivered
      rw [quiet, Option.toList_none, List.map_nil, List.append_nil, List.append_nil] at moved
      refine ⟨moved.1.trans processed, ?_⟩
      have writes : sent i (atClient wrote event.2 s.server).toList = (wrote own before).toList := by
        rw [same, atClient_own there]
        cases wrote own before <;> simp [sent]
      rw [sent_append, writes]
      exact moved.2
    · obtain ⟨processed,delivered⟩ := served.connections i after there
      refine ⟨processed, ?_⟩
      have nothing : sent i (atClient wrote event.2 s.server).toList = [] := by
        rw [sent, List.filterMap_eq_nil_iff]
        rintro ⟨j,text⟩ member
        obtain ⟨own,before,same,-⟩ := atClient_eq_some.mp (Option.mem_toList.mp member)
        refine if_neg ?_
        rintro rfl
        exact other own same
      rw [sent_append, nothing, List.append_nil]
      exact delivered
    · have nothing : atClient wrote event.2 s.server = none := by
        rw [same]
        rfl
      refine ⟨?_, ?_⟩
      · rw [answered_fresh served.logged]
        rfl
      · rw [answered_fresh served.logged, nothing, Option.toList_none, List.append_nil,
          sent_fresh served.carried]
        rfl

theorem Served.handled (served : Served b first s) (running : ¬s.server.Escaped) {i : Nat}
    {request : List UInt8} (asks : atClient asked event.2 s.server = some (i, request)) :
    Served b first { s with
      server := match (b.handle (event.1, request) s.store).1 with
        | some _ => s.server.step (b.service event.1 s.store) event.2
        | none => s.server
      store := (b.handle (event.1, request) s.store).2
      log := s.log ++ [⟨i, event.1, request, (b.handle (event.1, request) s.store).1⟩] } := by
  obtain ⟨own,before,same,there,passes⟩ := atClient_eq_some.mp asks
  obtain ⟨bound,-⟩ := List.getElem?_eq_some_iff.mp there
  have longer : s.server.connections.length ≤
      (s.server.step (b.service event.1 s.store) event.2).connections.length := step_length event.2
  have logged : ∀ x ∈ s.log ++ [⟨i, event.1, request, (b.handle (event.1, request) s.store).1⟩],
      x.connection < s.server.connections.length := by
    rw [List.forall_mem_append, List.forall_mem_singleton]
    exact ⟨served.logged, bound⟩
  refine ⟨?_, ?_, ?_, ?_, ?_⟩
  · rw [List.map_append, List.map_append, outputs_append, ← served.store, served.responses]
    rfl
  · rw [List.map_append, execute_append, ← served.store]
    rfl
  · intro x member
    dsimp only
    split
    · exact Nat.lt_of_lt_of_le (logged x member) longer
    · exact logged x member
  · intro x member
    dsimp only
    split
    · exact Nat.lt_of_lt_of_le (served.carried x member) longer
    · exact served.carried x member
  · intro j after found
    cases handled : (b.handle (event.1, request) s.store).1 with
    | none =>
      -- the process ends inside the handler
      simp only [handled] at found
      obtain ⟨processed,delivered⟩ := served.connections j after found
      have unanswered : answered j (s.log ++ [⟨i, event.1, request, none⟩]) = answered j s.log := by
        rw [answered_snoc]
        split <;> simp
      exact ⟨by rw [unanswered]; exact processed, by rw [unanswered]; exact delivered⟩
    | some response =>
      simp only [handled] at found
      rcases step_connection running found with
        ⟨own',before',same',there',rfl⟩ | ⟨other,there'⟩ | ⟨connects,-⟩
      · cases same.symm.trans same'
        cases there.symm.trans there'
        obtain ⟨processed,delivered⟩ := served.connections i before there
        have moved := step_delivered (c := b.service event.1 s.store) own (connection_running running there) delivered
        rw [passes, wrote_of_asked passes, Option.toList_none, List.append_nil] at moved
        have answers : answered i (s.log ++ [⟨i, event.1, request, some response⟩]) =
            answered i s.log ++ [(request, response)] := by
          rw [answered_snoc, if_pos rfl]
          rfl
        have given : (b.service event.1 s.store).response request = response := by
          simp only [Backend.service, handled, Option.getD_some]
        refine ⟨?_, ?_⟩
        · rw [answers, List.map_append, ← processed]
          exact moved.1
        · simp only [List.map_cons, List.map_nil, Option.toList_some, given] at moved
          rw [answers, List.map_append]
          exact moved.2
      · obtain ⟨processed,delivered⟩ := served.connections j after there'
        have others : answered j (s.log ++ [⟨i, event.1, request, some response⟩]) = answered j s.log := by
          rw [answered_snoc, if_neg, List.append_nil]
          rintro rfl
          exact other own same
        exact ⟨by rw [others]; exact processed, by rw [others]; exact delivered⟩
      · rw [same] at connects
        cases connects

theorem step_served (served : Served b first s) : Served b first (step b event s) := by
  unfold step
  split
  · exact served
  next running =>
    rw [not_or] at running
    split
    next i request asks => exact served.handled running.1 asks
    next unasked => exact served.unasked running.1 unasked

/-- Every run of the server is a history of the store, and every connection follows it. -/
theorem run_served (b : Backend κ σ) (first : σ) (events : List (κ × Server.Event)) :
    Served b first (execute (step b) events (start first)) :=
  execute_preserves (Served b first) (fun _ _ served => step_served served) events _
    (start_served b first)

theorem outputs_length {α σ ω : Type} {machine : α → σ → ω × σ} (labels : List α) (s : σ) :
    (outputs machine labels s).length = labels.length := by
  induction labels generalizing s with
  | nil => rfl
  | cons a rest ih => exact congrArg Nat.succ (ih _)

/-- The response of one request is that of the store that the requests before it leave. -/
theorem Served.response_at (served : Served b first s) {before after : List (Exchange κ)} {x : Exchange κ}
    (split : s.log = before ++ x :: after) : x.response =
      (b.handle x.call (execute (fun call store => (b.handle call store).2)
        (before.map Exchange.call) first)).1 := by
  have responses := served.responses
  rw [split, List.map_append, List.map_append, outputs_append] at responses
  have lengths : (before.map Exchange.response).length =
      (outputs b.handle (before.map Exchange.call) first).length := by
    rw [outputs_length, List.length_map, List.length_map]
  have tails := (List.append_inj responses lengths).2
  exact (List.cons.inj tails).1

/-- In every run of the server, with any number of connections, timers, disconnections and
errors, the responses are those of the requests handled in turn from the first store on. What
a connection has passed on is its part of them in order, and what has been written to it are
the responses to its part in order, but for at most the last one; while it waits for a
request none is left. -/
theorem exchanges_in_order (b : Backend κ σ) (first : σ) (events : List (κ × Server.Event)) :
    let s := execute (step b) events (start first)
    s.log.map Exchange.response = outputs b.handle (s.log.map Exchange.call) first ∧
    s.store = execute (fun call store => (b.handle call store).2) (s.log.map Exchange.call) first ∧
    ∀ i connection, s.server.connections[i]? = some connection →
      connection.processed = (answered i s.log).map Prod.fst ∧
      ∃ unsent : List (List UInt8), unsent.length ≤ 1 ∧
        (answered i s.log).map (fun x => x.2 ++ b.endOfMessage) = sent i s.carried ++ unsent ∧
        (ServerFraming.Waiting connection → unsent = []) := by
  intro s
  have served : Served b first s := run_served b first events
  refine ⟨served.responses, served.store, fun i connection there => ?_⟩
  obtain ⟨processed,delivered⟩ := served.connections i connection there
  obtain ⟨unsent,few,split⟩ := delivered.unsent
  refine ⟨processed, unsent, few, split, fun waiting => ?_⟩
  rw [(Delivered.reading waiting).mp delivered] at split
  exact List.self_eq_append_right.mp split

def own (i : Nat) (events : List (κ × Server.Event)) : List Connection.Event :=
  events.filterMap fun event => match event.2 with
    | .client j own => if j = i then some own else none
    | _ => none

/-- What its own events keep of a connection, whatever the service answers, no run of the
server takes from it. -/
theorem run_connection {holds : Connection → Prop} {admits : Connection.Event → Prop}
    (fresh : holds accepted)
    (kept : ∀ c : Service, c.endOfMessage = b.endOfMessage → ∀ event connection, admits event →
      holds connection → holds (connection.step c event))
    (events : List (κ × Server.Event)) {i : Nat} (admitted : ∀ event ∈ own i events, admits event)
    (first : σ) : ∀ connection,
      (execute (step b) events (start first)).server.connections[i]? = some connection → holds connection := by
  have along : Along (step b) (fun _ event => ∀ at_, event.2 = .client i at_ → admits at_) events
      (start first) := by
    refine .of_forall events _ fun event member _ at_ same => admitted at_ ?_
    refine List.mem_filterMap.mpr ⟨event, member, ?_⟩
    simp only [same, if_true]
  refine execute_invariant
    (fun s => ∀ connection, s.server.connections[i]? = some connection → holds connection)
    (fun s event admitted valid => ?_) events _ along fun _ found => by cases found
  have moved : ∀ connection, (s.server.step (b.service event.1 s.store) event.2).connections[i]? =
      some connection → ¬s.server.Escaped → holds connection := by
    intro connection found running
    rcases step_connection running found with ⟨own',before,same,there,rfl⟩ | ⟨-,there⟩ | ⟨-,-,rfl⟩
    · exact kept _ rfl own' before (admitted own' same) (valid before there)
    · exact valid connection there
    · exact fresh
  intro connection found
  unfold step at found
  split at found
  · exact valid connection found
  next running =>
    rw [not_or] at running
    split at found
    · dsimp only at found
      split at found
      · exact moved connection found running.1
      · exact valid connection found
    · exact moved connection found running.1

end
end PcCourse.ServedRequests
