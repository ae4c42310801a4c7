import PcCourse.Connection
import Mathlib.Data.List.Nodup

/-! What a timer handler cancels. The flag `is_timeout` is cleared with every new read, while
handlers of earlier rounds may still be queued. -/
namespace PcCourse.TimerRounds

open Connection

/-- A timer handler that is about to call `socket.cancel()` finds the read of its own round
pending. -/
def CancelsOwnRead (s : Connection) : Prop :=
  ∀ w ∈ s.timers, w.2 = .success → s.isTimeout = false → s.activity = .pending .read w.1

def CompletesRead (c : Service) (s : Connection) (event : Event) : Prop :=
  ∃ k, s.activity = .pending .read k ∧
    match event with
    | .receive chunk => (ByteSearch.find c.endOfMessage (s.inputBuf ++ chunk) 0).isSome = true
    | .fail code => (code = .eof ∧ s.peer ≠ .connected) ∨ code = .failed
    | _ => False

/-- A read does not complete while an expired wait awaits its handler, and a wait does not
expire once the read of its round has completed. -/
structure NoCoincidence (c : Service) (s : Connection) (event : Event) : Prop where
  completion : CompletesRead c s event → NoneExpired s
  expiry : event = .expire → ∀ k, s.wait = some k → s.activity = .pending .read k

def rounds (s : Connection) : List Nat := s.wait.toList ++ s.timers.map Prod.fst

structure Invariant (s : Connection) : Prop where
  own : ∀ w ∈ s.timers, w.2 = .success → s.activity = .pending .read w.1
  distinct : (rounds s).Nodup
  past : ∀ k ∈ rounds s, k ≤ s.round

section
variable {s : Connection} {c : Service}

theorem Invariant.noneExpired (valid : Invariant s) (other : ∀ k, s.activity ≠ .pending .read k) :
    NoneExpired s := fun w member success => other w.1 (valid.own w member success)

theorem rounds_cancelTimer : (rounds s.cancelTimer).Perm (rounds s) := by
  rw [cancelTimer_eq]
  simp only [rounds, Option.toList_none, List.nil_append, List.map_append, List.map_map]
  have rounds_ : s.wait.toList.map (Prod.fst ∘ fun k => (k, ErrorCode.operationAborted)) =
      s.wait.toList := List.map_id _
  rw [rounds_]
  exact List.perm_append_comm

/-- No wait is expired, and the waits are of different rounds so far. -/
structure Settled (s : Connection) : Prop where
  none_ : NoneExpired s
  distinct : (rounds s).Nodup
  past : ∀ k ∈ rounds s, k ≤ s.round

theorem Settled.invariant (settled : Settled s) : Invariant s :=
  ⟨fun w member success => absurd success (settled.none_ w member), settled.distinct, settled.past⟩

theorem Settled.cancelTimer (settled : Settled s) : Settled s.cancelTimer := by
  refine ⟨settled.none_.cancelTimer, ?_, ?_⟩
  · exact rounds_cancelTimer.nodup_iff.mpr settled.distinct
  · intro k member
    have bound := settled.past k (rounds_cancelTimer.mem_iff.mp member)
    rwa [cancelTimer_eq]

theorem Settled.readRequest (settled : Settled s) : Settled s.readRequest := by
  obtain ⟨none_,distinct,past⟩ := settled.cancelTimer
  have round : s.cancelTimer.round = s.round := by rw [cancelTimer_eq]
  have shape : rounds s.readRequest = (s.round + 1) :: rounds s.cancelTimer := by
    rw [Connection.readRequest, cancelTimer_eq]
    rfl
  refine ⟨none_, ?_, ?_⟩
  · rw [shape, List.nodup_cons]
    refine ⟨fun member => ?_, distinct⟩
    have bound := past _ member
    omega
  · intro k member
    rw [shape, List.mem_cons] at member
    rcases member with rfl | member
    · exact Nat.le_refl _
    · have bound := past k member
      exact Nat.le_trans bound (by rw [round]; exact Nat.le_succ _)

theorem Settled.afterPeer {next : Connection → Connection} (settled : Settled s)
    (followed : Settled (next s)) : Settled (afterPeer s next) := by
  unfold Connection.afterPeer
  split
  · exact ⟨settled.none_, settled.distinct, settled.past⟩
  · exact followed

theorem Settled.runSocket (settled : Settled s) : Settled (s.runSocket c) := by
  have idle : Settled { s with activity := .idle } := ⟨settled.none_, settled.distinct, settled.past⟩
  unfold Connection.runSocket
  split
  next k code _ =>
    cases code with
    | success => exact idle.afterPeer idle.readRequest
    | _ => exact idle
  next k code _ =>
    unfold readHandler
    split
    · exact idle.afterPeer idle
    · have timedOut : Settled { s with activity := .idle, isTimeout := true } :=
        ⟨settled.none_, settled.distinct, settled.past⟩
      cases code with
      | success =>
        obtain ⟨none_,distinct,past⟩ := timedOut.cancelTimer
        exact ⟨none_, distinct, past⟩
      | eof => exact timedOut.afterPeer timedOut.cancelTimer
      | operationAborted => exact timedOut.afterPeer timedOut
      | failed => exact timedOut.cancelTimer
  next k code _ =>
    cases code with
    | success => exact idle.readRequest
    | eof => exact idle.afterPeer idle
    | _ => exact idle
  next => exact settled

theorem Invariant.receive (valid : Invariant s) {chunk : List UInt8}
    (apart : CompletesRead c s (.receive chunk) → NoneExpired s) : Invariant (s.receive c chunk) := by
  obtain ⟨own,distinct,past⟩ := valid
  unfold Connection.receive
  split
  next k reading =>
    by_cases complete : (ByteSearch.find c.endOfMessage (s.inputBuf ++ chunk) 0).isSome = true
    · have none_ := apart ⟨k, reading, complete⟩
      exact ⟨fun w member success => absurd success (none_ w member), distinct, past⟩
    · refine ⟨fun w member success => ?_, distinct, past⟩
      exact (if_neg complete).trans (reading.symm.trans (own w member success))
  next => exact ⟨own, distinct, past⟩

theorem Invariant.written (valid : Invariant s) : Invariant s.written := by
  unfold Connection.written
  split
  next k writing =>
    have none_ : NoneExpired s := valid.noneExpired fun k reading => by
      rw [writing] at reading
      cases reading
    exact ⟨fun w member success => absurd success (none_ w member), valid.distinct, valid.past⟩
  next => exact valid

theorem Invariant.fail (valid : Invariant s) {code : ErrorCode}
    (apart : CompletesRead c s (.fail code) → NoneExpired s) : Invariant (s.fail code) := by
  unfold Connection.fail
  split
  next operation k pending =>
    split
    next fails =>
      have none_ : NoneExpired s := by
        by_cases reading : operation = .read
        · exact apart ⟨k, by rw [pending, reading], fails⟩
        · apply valid.noneExpired
          rintro j same
          rw [pending] at same
          cases same
          exact reading rfl
      exact ⟨fun w member success => absurd success (none_ w member), valid.distinct, valid.past⟩
    next => exact valid
  next => exact valid

theorem Invariant.expire (valid : Invariant s)
    (expiry : ∀ k, s.wait = some k → s.activity = .pending .read k) : Invariant s.expire := by
  unfold Connection.expire
  split
  next k waiting =>
    have moved : (rounds { s with wait := none, timers := s.timers ++ [(k, .success)] }).Perm
        (rounds s) := by
      simp only [rounds, waiting, Option.toList_none, Option.toList_some, List.nil_append,
        List.map_append, List.map_cons, List.map_nil]
      exact List.perm_append_comm
    refine ⟨?_, moved.nodup_iff.mpr valid.distinct, fun j member => valid.past j (moved.mem_iff.mp member)⟩
    intro w member success
    rcases List.mem_append.mp member with old | new
    · exact valid.own w old success
    · cases List.mem_singleton.mp new
      exact expiry k waiting
  next => exact valid

theorem eraseIdx_split {α : Type} {xs : List α} {i : Nat} {x : α} (found : xs[i]? = some x) :
    ∃ a b, xs = a ++ x :: b ∧ xs.eraseIdx i = a ++ b := by
  obtain ⟨bound,rfl⟩ := List.getElem?_eq_some_iff.mp found
  refine ⟨xs.take i, xs.drop (i + 1), ?_, List.eraseIdx_eq_take_drop_succ xs i⟩
  rw [← List.drop_eq_getElem_cons bound, List.take_append_drop]

/-- The handler of the one expired wait of the round cancels the read of the round. -/
theorem Invariant.runTimer (valid : Invariant s) (i : Nat) : Invariant (s.runTimer i) := by
  obtain ⟨own,distinct,past⟩ := valid
  unfold Connection.runTimer
  split
  next k code found =>
    obtain ⟨before,behind,shape,erased⟩ := eraseIdx_split found
    have fewer : (s.wait.toList ++ (s.timers.eraseIdx i).map Prod.fst).Sublist (rounds s) :=
      ((List.eraseIdx_sublist s.timers i).map Prod.fst).append_left _
    have kept : ∀ w ∈ s.timers.eraseIdx i, w ∈ s.timers := fun w => List.mem_of_mem_eraseIdx
    have bounds : ∀ j ∈ s.wait.toList ++ (s.timers.eraseIdx i).map Prod.fst, j ≤ s.round :=
      fun j member => past j (fewer.subset member)
    unfold timerHandler
    split
    next acts =>
      obtain ⟨rfl,-⟩ := acts
      have reading : s.activity = .pending .read k := own _ (List.mem_of_getElem? found) rfl
      -- another expired wait would be of the same round
      have none_ : ∀ w ∈ s.timers.eraseIdx i, w.2 ≠ .success := by
        intro w member success
        have same := (own w (kept w member) success).symm.trans reading
        have round : w.1 = k := by
          cases same
          rfl
        have apart := (List.nodup_append.mp distinct).2.1
        rw [shape, List.map_append, List.map_cons, List.nodup_middle, List.nodup_cons] at apart
        rw [erased] at member
        apply apart.1
        rw [← List.map_append]
        exact List.mem_map.mpr ⟨w, member, round⟩
      simp only [cancelSocket, reading]
      exact ⟨fun w member success => absurd success (none_ w member), distinct.sublist fewer, bounds⟩
    next => exact ⟨fun w member => own w (kept w member), distinct.sublist fewer, bounds⟩
  next => exact ⟨own, distinct, past⟩

theorem Invariant.runSocket (valid : Invariant s) : Invariant (s.runSocket c) := by
  by_cases reading : ∃ k, s.activity = .pending .read k
  · obtain ⟨k,reading⟩ := reading
    have same : s.runSocket c = s := by simp only [Connection.runSocket, reading]
    rwa [same]
  · have settled : Settled s :=
      ⟨valid.noneExpired fun k pending => reading ⟨k, pending⟩, valid.distinct, valid.past⟩
    exact settled.runSocket.invariant

theorem step_invariant {event : Event} (apart : NoCoincidence c s event) (valid : Invariant s) :
    Invariant (step c event s) := by
  unfold step
  split
  · exact valid
  · cases event with
    | receive chunk => exact valid.receive apart.completion
    | written => exact valid.written
    | fail code => exact valid.fail apart.completion
    | close =>
      rw [happen]
      split
      · exact ⟨valid.own, valid.distinct, valid.past⟩
      · exact valid
    | reset => exact ⟨valid.own, valid.distinct, valid.past⟩
    | expire => exact valid.expire (apart.expiry rfl)
    | runSocket => exact valid.runSocket
    | runTimer i => exact valid.runTimer i

/-- A timer handler cancels the read of its own round, in every run in which no expiry
coincides with the completion of a read. -/
theorem run_cancels_own_read (events : List Event)
    (apart : Transition.Along (step c) (NoCoincidence c) events accepted) :
    CancelsOwnRead (Transition.execute (step c) events accepted) := by
  have start : Invariant accepted := by
    refine ⟨?_, List.nodup_nil, ?_⟩
    · exact fun w member => absurd member List.not_mem_nil
    · exact fun k member => absurd member List.not_mem_nil
  have valid := Transition.execute_invariant Invariant (fun _ _ apart valid => step_invariant apart valid)
    events accepted apart
  exact fun w member success _ => (valid start).own w member success

end

/-- A round whose request arrives in time, and another that times out. -/
def quietRound : List Event := [.runSocket, .receive [97, 13, 10], .runSocket, .written, .runSocket, .expire]

/-- A round whose request arrives while its timer expires: the read is handled first. -/
def coincidence : List Event := [.runSocket, .expire, .receive [97, 13, 10], .runSocket, .written, .runSocket]

theorem quietRound_cancels_own_read :
    CancelsOwnRead (Transition.execute (step .silent) quietRound accepted) := by
  apply run_cancels_own_read
  have others : ∀ {s : Connection} {event : Event}, event ≠ .expire →
      (CompletesRead .silent s event → NoneExpired s) → NoCoincidence .silent s event :=
    fun other completion => ⟨completion, fun same => absurd same other⟩
  have none_ : NoneExpired (Transition.execute (step .silent) [.runSocket] accepted) :=
    fun w member => absurd member List.not_mem_nil
  have handling : ∀ s, NoCoincidence .silent s .runSocket :=
    fun s => others Event.noConfusion fun ⟨_,_,no⟩ => no.elim
  have writing : ∀ s, NoCoincidence .silent s .written :=
    fun s => others Event.noConfusion fun ⟨_,_,no⟩ => no.elim
  refine ⟨handling _, others Event.noConfusion fun _ => none_, handling _, writing _, handling _, ?_, trivial⟩
  refine ⟨fun ⟨_,_,no⟩ => no.elim, fun _ k waiting => ?_⟩
  cases waiting
  rfl

/-- The handler of the first round's timer cancels the read of the second round. -/
theorem late_timer_cancels_next_read :
    let s := Transition.execute (step .silent) coincidence accepted
    ¬CancelsOwnRead s ∧ (step .silent (.runTimer 0) s).activity =
      .queued .read 2 .operationAborted := by
  have state : Transition.execute (step .silent) coincidence accepted =
      { accepted with
        activity := .pending .read 2
        round := 2
        wait := some 2
        timers := [(1, .success)]
        outputStr := [13, 10]
        arrived := [[97, 13, 10]]
        processed := [[97]] } := by decide
  intro s
  have same : s = _ := state
  rw [same]
  refine ⟨fun own => ?_, rfl⟩
  cases own (1, .success) (List.mem_singleton_self _) rfl rfl

end PcCourse.TimerRounds
