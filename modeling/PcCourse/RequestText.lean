import PcCourse.Connection
import PcCourse.Transition
import Mathlib.Data.List.TakeWhile

/-! Which text of a request `ReadRequest` passes on: the read stops at the configured
delimiter, the text at the first carriage return. -/
namespace PcCourse.RequestText

open Connection

def Reading (s : Connection) : Prop :=
  (∃ k, s.activity = .pending .read k) ∨ ∃ k, s.activity = .queued .read k .success

/-- While the read is the one that has begun in a state, the buffer holds what has arrived
since then. -/
structure Collects (start s : Connection) : Prop where
  round : start.round ≤ s.round
  collected : s.round = start.round → ∃ chunks, s.arrived = start.arrived ++ chunks ∧
    (Reading s → s.inputBuf = chunks.flatten)

section
variable {c : Service} {start s : Connection}

theorem Collects.still {after : Connection} (collects : Collects start s)
    (round : after.round = s.round) (arrived : after.arrived = s.arrived)
    (reading : Reading after → Reading s ∧ after.inputBuf = s.inputBuf) : Collects start after := by
  refine ⟨round ▸ collects.round, fun same => ?_⟩
  obtain ⟨chunks,split,buffer⟩ := collects.collected (round ▸ same)
  refine ⟨chunks, arrived ▸ split, fun reads => ?_⟩
  obtain ⟨before,kept⟩ := reading reads
  rw [kept, buffer before]

theorem Collects.cancelTimer (collects : Collects start s) : Collects start s.cancelTimer := by
  rw [cancelTimer_eq]
  exact collects.still rfl rfl fun reads => ⟨reads, rfl⟩

/-- The next read is another one. -/
theorem Collects.readRequest (collects : Collects start s) : Collects start s.readRequest := by
  have bound := collects.round
  have next : s.readRequest.round = s.round + 1 := rfl
  exact ⟨by omega, fun same => absurd same (by omega)⟩

theorem Collects.afterPeer {next : Connection → Connection} (collects : Collects start s)
    (followed : Collects start (next s)) : Collects start (afterPeer s next) := by
  unfold Connection.afterPeer
  split
  · exact collects.still rfl rfl fun reads => ⟨reads, rfl⟩
  · exact followed

theorem not_reading_idle {s : Connection} (idle : s.activity = .idle) : ¬Reading s := by
  rintro (⟨k,reads⟩ | ⟨k,reads⟩) <;> rw [idle] at reads <;> cases reads

theorem Collects.runSocket (collects : Collects start s) : Collects start (s.runSocket c) := by
  have idle : Collects start { s with activity := .idle } :=
    collects.still rfl rfl fun reads => absurd reads (not_reading_idle rfl)
  unfold Connection.runSocket
  split
  next k code _ =>
    cases code with
    | success => exact idle.afterPeer idle.readRequest
    | _ => exact idle
  next k code _ =>
    unfold readHandler
    split
    · exact idle.afterPeer idle
    · have timedOut : Collects start { s with activity := .idle, isTimeout := true } :=
        collects.still rfl rfl fun reads => absurd reads (not_reading_idle rfl)
      cases code with
      | success =>
        refine timedOut.cancelTimer.still rfl rfl ?_
        rintro (⟨k,reads⟩ | ⟨k,reads⟩) <;> cases reads
      | eof => exact timedOut.afterPeer timedOut.cancelTimer
      | operationAborted => exact timedOut.afterPeer timedOut
      | failed => exact timedOut.cancelTimer
  next k code _ =>
    cases code with
    | success => exact idle.readRequest
    | eof => exact idle.afterPeer idle
    | _ => exact idle
  next => exact collects

theorem Collects.receive (collects : Collects start s) (chunk : List UInt8) :
    Collects start (s.receive c chunk) := by
  unfold Connection.receive
  split
  next k reading =>
    refine ⟨collects.round, fun same => ?_⟩
    obtain ⟨chunks,split,buffer⟩ := collects.collected same
    refine ⟨chunks ++ [chunk], ?_, fun _ => ?_⟩
    · rw [split, List.append_assoc]
    · rw [List.flatten_append, List.flatten_singleton, ← buffer (.inl ⟨k, reading⟩)]
  next => exact collects

theorem Collects.runTimer (collects : Collects start s) (i : Nat) : Collects start (s.runTimer i) := by
  unfold Connection.runTimer
  split
  next k code _ =>
    unfold timerHandler cancelSocket
    split
    · dsimp only
      split
      next operation round pending =>
        refine collects.still rfl rfl ?_
        rintro (⟨k,reads⟩ | ⟨k,reads⟩) <;> cases reads
      next => exact collects.still rfl rfl fun reads => ⟨reads, rfl⟩
    · exact collects.still rfl rfl fun reads => ⟨reads, rfl⟩
  next => exact collects

theorem Collects.fail (collects : Collects start s) (code : ErrorCode) : Collects start (s.fail code) := by
  unfold Connection.fail
  split
  next operation k pending =>
    split
    next fails =>
      refine collects.still rfl rfl ?_
      rintro (⟨j,reads⟩ | ⟨j,reads⟩)
      · cases reads
      · cases reads
        rcases fails with ⟨ends,-⟩ | ends <;> cases ends
    next => exact collects
  next => exact collects

theorem step_collects (event : Event) (collects : Collects start s) :
    Collects start (step c event s) := by
  unfold step happen
  split
  · exact collects
  cases event with
  | receive chunk => exact collects.receive chunk
  | written =>
    dsimp only
    unfold written
    split
    · refine collects.still rfl rfl ?_
      rintro (⟨k,reads⟩ | ⟨k,reads⟩) <;> cases reads
    · exact collects
  | fail code => exact collects.fail code
  | close =>
    dsimp only
    split
    · exact collects.still rfl rfl fun reads => ⟨reads, rfl⟩
    · exact collects
  | reset => exact collects.still rfl rfl fun reads => ⟨reads, rfl⟩
  | expire =>
    dsimp only
    unfold expire
    split
    · exact collects.still rfl rfl fun reads => ⟨reads, rfl⟩
    · exact collects
  | runSocket => exact collects.runSocket
  | runTimer i => exact collects.runTimer i

theorem run_collects (events : List Event) (empty : start.inputBuf = []) :
    Collects start (Transition.execute (step c) events start) := by
  apply Transition.execute_preserves (Collects start) (fun _ event => step_collects event)
  exact ⟨Nat.le_refl _, fun _ => ⟨[], (List.append_nil _).symm, fun _ => empty⟩⟩

/-- The handler of a read in time passes the text ahead of the first carriage return. -/
theorem processed_of_completed {k : Nat} (completed : s.activity = .queued .read k .success)
    (inTime : s.isTimeout = false) (running : s.escaped = false) :
    (step c .runSocket s).processed = s.processed ++ [line s.inputBuf] := by
  simp only [step_running running, happen, runSocket, completed, readHandler, inTime,
    Bool.false_eq_true, if_false, cancelTimer_eq]
  rfl

theorem line_eq_iff {t d more : List UInt8} (some_ : d ≠ []) :
    line (t ++ d ++ more) = t ↔ 13 ∉ t ∧ d.head? = some 13 := by
  obtain ⟨b,rest,rfl⟩ := List.exists_cons_of_ne_nil some_
  have plain : (∀ x ∈ t, decide (x ≠ 13) = true) ↔ 13 ∉ t := by
    simp only [decide_eq_true_eq]
    exact ⟨fun all member => all 13 member rfl, fun free x member same => free (same ▸ member)⟩
  unfold line
  rw [List.append_assoc]
  constructor
  · intro taken
    have free : 13 ∉ t := by
      apply plain.mp
      intro x member
      rw [← taken] at member
      exact List.mem_takeWhile_imp (p := fun x => decide (x ≠ 13)) member
    rw [List.takeWhile_append_of_pos (plain.mpr free)] at taken
    have ends : List.takeWhile (fun x => decide (x ≠ 13)) (b :: rest ++ more) = [] :=
      List.append_right_eq_self.mp taken
    refine ⟨free, ?_⟩
    by_contra other
    rw [List.cons_append, List.takeWhile_cons_of_pos (by simpa using other)] at ends
    cases ends
  · rintro ⟨free,first⟩
    rw [List.head?_cons, Option.some.injEq] at first
    rw [List.takeWhile_append_of_pos (plain.mpr free), List.cons_append,
      List.takeWhile_cons_of_neg (by simp [first]), List.append_nil]

end

/-- When a read that began with an empty buffer has completed, and what has arrived since, in
whatever chunks, is a text with the delimiter behind it, that text is passed on exactly when it
has no carriage return and the delimiter begins with one. -/
theorem passed_iff {c : Service} (some_ : c.endOfMessage ≠ []) {start : Connection}
    (empty : start.inputBuf = []) (events : List Event) {k : Nat} {chunks : List (List UInt8)}
    {t more : List UInt8} :
    let s := Transition.execute (step c) events start
    s.activity = .queued .read k .success → s.round = start.round → s.isTimeout = false →
      s.escaped = false → s.arrived = start.arrived ++ chunks →
      chunks.flatten = t ++ c.endOfMessage ++ more →
        ((step c .runSocket s).processed = s.processed ++ [t] ↔
          13 ∉ t ∧ c.endOfMessage.head? = some 13) := by
  intro s completed same inTime running arrived sent
  obtain ⟨_,split,buffer⟩ := (run_collects events empty).collected same
  cases List.append_cancel_left (split.symm.trans arrived)
  have bytes : s.inputBuf = t ++ c.endOfMessage ++ more := (buffer (.inr ⟨k, completed⟩)).trans sent
  rw [processed_of_completed completed inTime running, bytes, ← line_eq_iff some_]
  constructor
  · intro passed
    exact List.singleton_inj.mp (List.append_cancel_left passed)
  · intro passed
    rw [passed]

/-- The delimiter of the default settings. -/
def luaReturn : List UInt8 := [108, 117, 97, 13]

def firstRead : Connection := accepted.readRequest

theorem crLf_request_passed :
    (step .silent .runSocket (Transition.execute (step .silent) [.receive [97], .receive [13, 10, 98]]
      firstRead)).processed = [] ++ [[97]] := by
  apply (passed_iff (t := [97]) (by decide) rfl [.receive [97], .receive [13, 10, 98]] rfl rfl rfl rfl
    rfl rfl).mpr
  decide

/-- With the default delimiter, what stands in it before its carriage return is passed on with
the text. -/
theorem default_delimiter_passed :
    let c : Service := ⟨luaReturn, fun _ => []⟩
    let s := Transition.execute (step c) [.receive [97, 108], .receive [117, 97, 13]] firstRead
    s.activity = .queued .read 1 .success ∧ s.arrived.flatten = [97] ++ luaReturn ∧
      ByteSearch.find luaReturn ([97] ++ luaReturn) 0 = some 1 ∧
      (step c .runSocket s).processed = [[97, 108, 117, 97]] := by
  decide

end PcCourse.RequestText
