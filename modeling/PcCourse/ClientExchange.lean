import PcCourse.ServedRequests
import PcCourse.ClientFraming

/-! One request of a client from `ServerConnection::Write` to `ServerConnection::Read`, with the
server and its other clients in between. -/
namespace PcCourse.ClientExchange

open ServedRequests ServerFraming ClientFraming Transition

/-- The loop of `ServerConnection::Write`, by what each call of `write` accepts, which is
nothing for an error: the bytes handed over, and whether `MessageCarried` is emitted. -/
def writeLoop (message : List UInt8) : List (Option Nat) → Nat → Nat → List UInt8 × Bool
  | _, _, 0 => ([], true)
  | [], _, _ | none :: _, _, _ => ([], false)
  | some accepts :: rest, startInd, targetSize =>
    let res := min accepts targetSize
    let (handed, carried) := writeLoop message rest (startInd + res) (targetSize - res)
    ((message.drop startInd).take res ++ handed, carried)

def write (message : List UInt8) (results : List (Option Nat)) : List UInt8 × Bool :=
  writeLoop message results 0 message.length

section
variable {message : List UInt8} {results : List (Option Nat)}

theorem writeLoop_spec {startInd targetSize : Nat} (left : startInd + targetSize = message.length) :
    (writeLoop message results startInd targetSize).1 <+: message.drop startInd ∧
      ((writeLoop message results startInd targetSize).2 = true ↔
        (writeLoop message results startInd targetSize).1 = message.drop startInd) := by
  induction results generalizing startInd targetSize with
  | nil =>
    cases targetSize with
    | zero => simp [writeLoop, show message.length ≤ startInd by omega]
    | succ n => simp [writeLoop, show ¬message.length ≤ startInd by omega]
  | cons result rest ih =>
    cases targetSize with
    | zero => simp [writeLoop, show message.length ≤ startInd by omega]
    | succ n =>
      cases result with
      | none => simp [writeLoop, show ¬message.length ≤ startInd by omega]
      | some accepts =>
        have inside : min accepts (n + 1) ≤ n + 1 := Nat.min_le_right ..
        have rest : startInd + min accepts (n + 1) + (n + 1 - min accepts (n + 1)) = message.length := by
          omega
        obtain ⟨begins,whole⟩ := ih rest
        rw [← List.drop_drop] at begins whole
        have split := List.take_append_drop (min accepts (n + 1)) (message.drop startInd)
        simp only [writeLoop]
        constructor
        · nth_rewrite 2 [← split]
          exact (List.prefix_append_right_inj _).mpr begins
        · nth_rewrite 2 [← split]
          rw [List.append_cancel_left_eq]
          exact whole

theorem write_prefix : (write message results).1 <+: message :=
  (writeLoop_spec (Nat.zero_add _)).1

theorem write_carried : (write message results).2 = true ↔ (write message results).1 = message :=
  (writeLoop_spec (Nat.zero_add _)).2

end

section
variable {request : List UInt8} {buf : List UInt8} {chunks : List (List UInt8)}

theorem requests_incomplete (incomplete : ¬ServerFraming.Complete (buf ++ chunks.flatten)) : requests buf chunks = [] := by
  induction chunks generalizing buf with
  | nil => rfl
  | cons chunk rest ih =>
    rw [List.flatten_cons, ← List.append_assoc] at incomplete
    have early : ¬ServerFraming.Complete (buf ++ chunk) := fun complete => by
      obtain ⟨i,occurs⟩ := complete_iff.mp complete
      exact incomplete (complete_iff.mpr ⟨i, occurs.append _⟩)
    rw [requests, if_neg early]
    exact ih incomplete

theorem requests_write (plain : 13 ∉ request) {results : List (Option Nat)}
    (arrived : chunks.flatten = (write (request ++ crLf) results).1) :
    requests [] chunks = if (write (request ++ crLf) results).2 then [request] else [] := by
  split
  next carried =>
    rw [write_carried.mp carried] at arrived
    refine (requests_eq_iff (by simpa using plain) (by decide) (by simpa using arrived)).mpr ?_
    intro k bound
    cases Nat.lt_one_iff.mp bound
    exact ⟨chunks.length, Nat.le_refl _, by simpa using arrived⟩
  next lost =>
    apply requests_incomplete
    rw [List.nil_append, arrived]
    intro complete
    have begins : (write (request ++ crLf) results).1 <+: request ++ crLf ++ [] := by
      rw [List.append_nil]
      exact write_prefix
    have message := message_prefix plain begins complete
    exact lost (write_carried.mpr (message.eq_of_length_le write_prefix.length_le).symm)

theorem processed_waiting {s : Connection} (served : InService s) (waiting : Waiting s) :
    s.processed = requests [] s.arrived := by
  obtain ⟨k,reading⟩ := waiting
  have framed := served.framed
  rw [Framed, reading] at framed
  simpa only [framed.2, List.nil_append] using foldl_take s.arrived [] []

/-- Whether a response that ends with the delimiter of two bytes arrives is decided by the size
of what precedes its last block. -/
theorem response_emitted_iff {response : List UInt8} {blocks : List (List UInt8)}
    (first : FirstAtEnd crLf response) (stream : blocks.flatten = response ++ crLf) (filled : [] ∉ blocks)
    (fits : (response ++ crLf).length < 2 ^ 63) :
    emitted crLf ⟨[], true⟩ blocks = deliveredLast response blocks ↔
      blocks.dropLast.flatten.length ≠ 2 := by
  have any : blocks ≠ [] := by
    rintro rfl
    simp [crLf] at stream
  have shown := shownAtEnd_of_plain (by decide) first [] filled (by simpa using stream)
  have inside : blocks.dropLast.flatten.length < response.length + crLf.length := by
    have sizes := congrArg (List.length ∘ List.flatten) (List.dropLast_append_getLast any)
    simp only [Function.comp_apply, stream, List.flatten_append, List.flatten_singleton,
      List.length_append] at sizes
    have last := List.length_pos_iff.mpr fun empty => filled (empty ▸ List.getLast_mem any)
    omega
  rw [List.length_append] at fits
  rw [emitted_eq_iff [] any stream, List.nil_append, List.length_append,
    startIndex_le_iff (by decide) fits inside]
  exact ⟨fun h => h.2.1, fun h => ⟨shown, h, fun _ => rfl⟩⟩

end

section
variable {κ σ : Type}

/-- In a run in which a connection sees neither a timeout nor a disconnection, once the server
waits for more on it: the requests answered on it are those that were handed over whole, and
their responses are what has been written to it. -/
theorem answered_waiting (b : Backend κ σ) (delim : b.endOfMessage = crLf) (first : σ)
    (events : List (κ × Server.Event)) {i : Nat} (inTime : ∀ event ∈ own i events, InTime event)
    {request : List UInt8} (plain : 13 ∉ request) {results : List (Option Nat)} {connection : Connection}
    (there : (execute (step b) events (start first)).server.connections[i]? = some connection)
    (waiting : Waiting connection)
    (arrived : connection.arrived.flatten = (write (request ++ crLf) results).1) :
    (answered i (execute (step b) events (start first)).log).map Prod.fst =
        (if (write (request ++ crLf) results).2 then [request] else []) ∧
      (answered i (execute (step b) events (start first)).log).map (fun x => x.2 ++ crLf) =
        sent i (execute (step b) events (start first)).carried := by
  have inService : InService connection :=
    run_connection ⟨rfl, rfl, rfl, fun w member => absurd member List.not_mem_nil⟩
      (fun c same event connection inTime served => step_inService (same.trans delim) inTime served)
      events inTime first connection there
  obtain ⟨processed,delivered⟩ := (run_served b first events).connections i connection there
  rw [processed_waiting inService waiting, requests_write plain arrived] at processed
  rw [Delivered.reading waiting, delim] at delivered
  exact ⟨processed.symm, delivered⟩

/-- A client writes one request, whatever its socket accepts of it; in a run of the server with
any other clients its connection sees neither a timeout nor a disconnection. Once the server
waits for more, the request has been handled exactly when `MessageCarried` was emitted,
and then once: the one response is written, and where its first delimiter is its end the client
reads it exactly unless just two bytes of it arrive ahead of the last block. -/
theorem request_exchanged (b : Backend κ σ) (delim : b.endOfMessage = crLf) (first : σ)
    (events : List (κ × Server.Event)) (i : Nat) (inTime : ∀ event ∈ own i events, InTime event)
    (request : List UInt8) (plain : 13 ∉ request) (results : List (Option Nat)) :
    let s := execute (step b) events (start first)
    ∀ connection, s.server.connections[i]? = some connection → Waiting connection →
      connection.arrived.flatten = (write (request ++ crLf) results).1 →
      ((write (request ++ crLf) results).2 = false → answered i s.log = [] ∧ sent i s.carried = []) ∧
      ((write (request ++ crLf) results).2 = true → ∃ response,
        answered i s.log = [(request, response)] ∧ sent i s.carried = [response ++ crLf] ∧
        ∀ blocks, [] ∉ blocks → blocks.flatten = response ++ crLf → FirstAtEnd crLf response →
          (response ++ crLf).length < 2 ^ 63 →
          (emitted crLf ⟨[], true⟩ blocks = deliveredLast response blocks ↔
            blocks.dropLast.flatten.length ≠ 2)) := by
  intro s connection there waiting arrived
  obtain ⟨asked,delivered⟩ := answered_waiting b delim first events inTime plain there waiting arrived
  change (answered i s.log).map Prod.fst = _ at asked
  change (answered i s.log).map _ = sent i s.carried at delivered
  constructor
  · intro lost
    rw [lost, if_neg Bool.false_ne_true] at asked
    have none_ : answered i s.log = [] := List.map_eq_nil_iff.mp asked
    rw [none_] at delivered
    exact ⟨none_, delivered.symm⟩
  · intro carried
    rw [carried, if_pos rfl] at asked
    obtain ⟨⟨asked,response⟩,one,rfl⟩ := List.map_eq_singleton_iff.mp asked
    rw [one] at delivered
    exact ⟨response, one, delivered.symm, fun blocks filled stream firstAtEnd fits =>
      response_emitted_iff firstAtEnd stream filled fits⟩

/-- Every request is its own response; the store counts them. -/
def echo : Backend Unit Nat := ⟨crLf, fun call count => (some call.2, count + 1)⟩

def overlapping : List (Unit × Server.Event) :=
  [.connect, .client 0 .runSocket, .connect, .client 0 (.receive [97]), .client 1 .runSocket,
    .client 1 (.receive [98, 13, 10]), .client 0 (.receive [13, 10]), .client 1 .runSocket,
    .client 0 .runSocket, .client 0 .written, .client 0 .runSocket].map ((), ·)

theorem overlapping_exchanged :
    let s := execute (step echo) overlapping (start 0)
    answered 0 s.log = [([97], [97])] ∧ sent 0 s.carried = [[97, 13, 10]] ∧
      emitted crLf ⟨[], true⟩ [[97], [13, 10]] = [none, some [97]] := by
  have inTime : ∀ event ∈ own 0 overlapping, InTime event := by
    simp only [own, overlapping, List.map_cons, List.map_nil, List.filterMap_cons, List.filterMap_nil]
    simp [InTime]
  obtain ⟨-,handled⟩ := request_exchanged echo rfl 0 overlapping 0 inTime [97] (by decide) [some 1, some 2]
    _ rfl ⟨2, rfl⟩ rfl
  obtain ⟨response,one,written,reads⟩ := handled rfl
  have echoed : answered 0 (execute (step echo) overlapping (start 0)).log = [([97], [97])] := by decide
  rw [one] at echoed
  simp only [List.cons.injEq, Prod.mk.injEq, true_and, and_true] at echoed
  subst echoed
  refine ⟨one, written, (reads [[97], [13, 10]] (by decide) rfl ?_ (by decide)).mpr (by decide)⟩
  unfold FirstAtEnd
  decide

end
end PcCourse.ClientExchange
