import PcCourse.Transition
import Mathlib.Data.List.Count

/-! The start of the worker threads. `Server::Start` makes one thread after another, each
with an entry of its own in `threads_props`, while the threads wait for a local flag of it;
then it sets the flag and waits until they have counted themselves. Every interleaving of
atomic steps is a run. -/
namespace PcCourse.StartUp

open Transition

/-- A `ThreadProperty`: the connection and the VM opened in a turn of the loop, or what
`operator[]` makes for a key it does not find. -/
inductive ThreadProperty where
  | opened (turn : Nat)
  | default
  deriving DecidableEq, Repr

/-- Where `Server::Start` stands, with the turn of its loop. -/
inductive Main where
  | reserving
  | creating (i : Nat)
  | connecting (i : Nat)
  | inserting (i : Nat)
  | pushing (i : Nat)
  | storing
  | waiting
  | returned
  | threw
  | aborted
  deriving DecidableEq, Repr

/-- Where a worker stands: in front of the loads of `start`, of the increment, in the context
without a request, or in front of an access to `props` in `ProcessRequest`. -/
inductive Worker where
  | spinning
  | counting
  | running
  | parsing
  | takingVm
  | takingConnection
  deriving DecidableEq, Repr

structure State (Id : Type) where
  main : Main
  start : Bool
  countExecs : Nat
  /-- The size of `threads`. -/
  threads : Nat
  threadsProps : List (Id × ThreadProperty)
  /-- The threads made so far, in order. -/
  workers : List Worker
  deriving DecidableEq, Repr

/-- What a thread does: a load of `start`, with what it finds there after the end of the
variable, the increment, the beginning of a request, an access to `props`, with whether a
handler is called next. -/
inductive Action where
  | load (garbage : Bool)
  | fetchAdd
  | receive
  | access (called : Bool)
  deriving DecidableEq, Repr

inductive Event where
  | main (succeeds : Bool)
  | worker (i : Nat) (action : Action)
  deriving DecidableEq, Repr

def Main.leaves : Main → Bool
  | .returned | .threw => true
  | _ => false

def Worker.handles : Worker → Bool
  | .parsing | .takingVm | .takingConnection => true
  | _ => false

def Worker.counted : Worker → Bool
  | .spinning | .counting => false
  | _ => true

def Worker.accessed (called : Bool) : Worker → Worker
  | .parsing => if called then .takingVm else .running
  | .takingVm => .takingConnection
  | _ => .running

section
variable {workers : List Worker} {i : Nat} {w : Worker} (at_ : workers[i]? = some w) (w' : Worker)

include at_

theorem countP_set_same (same : w'.counted = w.counted) :
    (workers.set i w').countP Worker.counted = workers.countP Worker.counted := by
  obtain ⟨bound,found⟩ := List.getElem?_eq_some_iff.mp at_
  rw [List.countP_set bound, found, same]
  cases counted : w.counted with
  | false => rfl
  | true =>
    have positive : 0 < workers.countP Worker.counted :=
      List.countP_pos_iff.mpr ⟨w, List.mem_of_getElem? at_, counted⟩
    simp only [if_true]
    omega

theorem countP_set_counted (before : w.counted = false) (after : w'.counted = true) :
    (workers.set i w').countP Worker.counted = workers.countP Worker.counted + 1 := by
  obtain ⟨bound,found⟩ := List.getElem?_eq_some_iff.mp at_
  rw [List.countP_set bound, found, before, after]
  rfl

end

section
variable {Id : Type} [DecidableEq Id]

/-- `insert` keeps an entry that exists. -/
def insert (props : List (Id × ThreadProperty)) (key : Id) (value : ThreadProperty) :
    List (Id × ThreadProperty) :=
  if (props.lookup key).isSome then props else props ++ [(key, value)]

/-- What `operator[]` leaves behind. -/
def bracket (props : List (Id × ThreadProperty)) (key : Id) : List (Id × ThreadProperty) :=
  insert props key .default

namespace State

def initial : State Id := ⟨.reserving, false, 0, 0, [], []⟩

/-- One step of `Server::Start`. A thread that cannot be made raises an exception, and a
connection that is not made fails an assertion. -/
def advance (capacity : Nat) (id : Nat → Id) (succeeds : Bool) (s : State Id) : State Id :=
  match s.main with
  | .reserving => { s with main := .creating 0 }
  | .creating i =>
    if i < capacity then
      if succeeds then { s with main := .connecting i, workers := s.workers ++ [.spinning] }
      else { s with main := .threw }
    else { s with main := .storing }
  | .connecting i => { s with main := if succeeds then .inserting i else .aborted }
  | .inserting i =>
    { s with main := .pushing i, threadsProps := insert s.threadsProps (id i) (.opened i) }
  | .pushing i => { s with main := .creating (i + 1), threads := s.threads + 1 }
  | .storing => { s with main := .waiting, start := true }
  | .waiting => if s.countExecs = s.threads then { s with main := .returned } else s
  | .returned | .threw | .aborted => s

def become (i : Nat) (w : Worker) (s : State Id) : State Id := { s with workers := s.workers.set i w }

def work (id : Nat → Id) (i : Nat) (action : Action) (w : Worker) (s : State Id) : State Id :=
  match action, w with
  | .load garbage, .spinning =>
    if (if s.main.leaves then garbage else s.start) then s.become i .counting else s
  | .fetchAdd, .counting => { s.become i .running with countExecs := s.countExecs + 1 }
  | .receive, .running => s.become i .parsing
  | .access called, w =>
    if w.handles then
      { s.become i (w.accessed called) with threadsProps := bracket s.threadsProps (id i) }
    else s
  | _, _ => s

/-- Nothing happens behind a failed assertion. -/
def step (capacity : Nat) (id : Nat → Id) (event : Event) (s : State Id) : State Id :=
  if s.main = .aborted then s
  else
    match event with
    | .main succeeds => s.advance capacity id succeeds
    | .worker i action =>
      match s.workers[i]? with
      | none => s
      | some w => s.work id i action w

end State

/-- The loop of `Server::Start` is not over: the map may still be changed. -/
def Main.fills : Main → Bool
  | .reserving | .creating _ | .connecting _ | .inserting _ | .pushing _ => true
  | _ => false

def Main.opens : Main → Bool
  | .waiting | .returned | .threw => true
  | _ => false

/-- The workers whose entries are in the map, by the turn of the loop. -/
def State.entered (s : State Id) : Nat :=
  match s.main with
  | .creating i | .connecting i | .inserting i => i
  | .pushing i => i + 1
  | .reserving | .aborted => 0
  | .storing | .waiting | .returned | .threw => s.workers.length

def Phase (capacity : Nat) (s : State Id) : Prop :=
  match s.main with
  | .reserving => s.workers.length = 0 ∧ s.threads = 0 ∧ s.start = false
  | .creating i => s.workers.length = i ∧ s.threads = i ∧ i ≤ capacity ∧ s.start = false
  | .connecting i | .inserting i | .pushing i =>
    s.workers.length = i + 1 ∧ s.threads = i ∧ i < capacity ∧ s.start = false
  | .storing => s.workers.length = capacity ∧ s.threads = capacity ∧ s.start = false
  | .waiting | .returned => s.workers.length = capacity ∧ s.threads = capacity
  | .threw | .aborted => True

structure Invariant (capacity : Nat) (id : Nat → Id) (s : State Id) : Prop where
  phase : Phase capacity s
  held : s.main.opens = false → ∀ w ∈ s.workers, w = .spinning
  entries : ∀ j < s.entered, (s.threadsProps.lookup (id j)).isSome = true
  opened : ∀ key value, s.threadsProps.lookup key = some value →
    ∃ turn, value = .opened turn ∧ key = id turn
  count : s.main.leaves = false → s.countExecs = s.workers.countP Worker.counted
  returned : s.main = .returned → ∀ w ∈ s.workers, w.counted = true

section
variable {capacity : Nat} {id : Nat → Id} {s : State Id}

theorem initial_invariant : Invariant capacity id (State.initial : State Id) where
  phase := ⟨rfl, rfl, rfl⟩
  held _ w member := absurd member List.not_mem_nil
  entries j entered := absurd entered (Nat.not_lt_zero j)
  opened key value found := by cases found
  count _ := rfl
  returned same := by cases same

theorem bracket_of_isSome {props : List (Id × ThreadProperty)} {key : Id}
    (present : (props.lookup key).isSome = true) : bracket props key = props :=
  if_pos present

theorem lookup_insert_self (props : List (Id × ThreadProperty)) (key : Id) (value : ThreadProperty) :
    ((insert props key value).lookup key).isSome = true := by
  unfold insert
  split
  · assumption
  · simp [List.lookup_append]

theorem lookup_insert (props : List (Id × ThreadProperty)) (key other : Id) (value : ThreadProperty) :
    (insert props key value).lookup other = props.lookup other ∨
      props.lookup other = none ∧ other = key ∧ (insert props key value).lookup other = some value := by
  unfold insert
  split
  · exact .inl rfl
  · rw [List.lookup_append]
    cases props.lookup other with
    | some _ => exact .inl rfl
    | none =>
      by_cases same : other = key
      · exact .inr ⟨rfl, same, by simp [same]⟩
      · have other_ : (other == key) = false := by simpa using same
        exact .inl (by simp [List.lookup_cons, other_])

theorem isSome_insert {props : List (Id × ThreadProperty)} {key other : Id} {value : ThreadProperty}
    (present : (props.lookup other).isSome = true) :
    ((insert props key value).lookup other).isSome = true := by
  rcases lookup_insert props key other value with same | ⟨missing,-⟩
  · rwa [same]
  · rw [missing] at present
    cases present

/-- Each step of `Server::Start` on its own: the flag is down and nobody is past it until the
loop is over, and the last loop ends when everybody is counted. -/
theorem Invariant.advance (valid : Invariant capacity id s) (succeeds : Bool) :
    Invariant capacity id (s.advance capacity id succeeds) := by
  obtain ⟨phase,held,entries,opened,count,returned⟩ := valid
  obtain ⟨main,start,countExecs,threads,props,workers⟩ := s
  cases main with
  | reserving =>
    obtain ⟨none_,zero,down⟩ := phase
    exact ⟨⟨none_, zero, Nat.zero_le _, down⟩, held,
      fun j entered => absurd entered (Nat.not_lt_zero j), opened, count, nofun⟩
  | creating i =>
    obtain ⟨made,pushed,bound,down⟩ := phase
    unfold State.advance
    by_cases more : i < capacity
    · simp only [more, if_true]
      cases succeeds with
      | false =>
        exact ⟨trivial, nofun, fun j entered => entries j (made ▸ entered), opened, nofun, nofun⟩
      | true =>
        refine ⟨⟨by simp [made], pushed, more, down⟩, fun _ w member => ?_, entries, opened,
          fun _ => ?_, nofun⟩
        · rcases List.mem_append.mp member with old | new
          · exact held rfl w old
          · exact List.mem_singleton.mp new
        · rw [if_pos rfl, List.countP_append]
          exact count rfl
    · simp only [more, if_false]
      have whole : i = capacity := Nat.le_antisymm bound (Nat.not_lt.mp more)
      exact ⟨⟨made.trans whole, pushed.trans whole, down⟩, held,
        fun j entered => entries j (made ▸ entered), opened, count, nofun⟩
  | connecting i =>
    cases succeeds with
    | false =>
      exact ⟨trivial, held, fun j entered => absurd entered (Nat.not_lt_zero j), opened, count, nofun⟩
    | true => exact ⟨phase, held, entries, opened, count, nofun⟩
  | inserting i =>
    refine ⟨phase, held, fun j entered => ?_, fun key value found => ?_, count, nofun⟩
    · rcases Nat.lt_succ_iff_lt_or_eq.mp entered with before | rfl
      · exact isSome_insert (entries j before)
      · exact lookup_insert_self _ _ _
    · rcases lookup_insert props (id i) key (.opened i) with same | ⟨-,own,new⟩
      · exact opened key value (same.symm.trans found)
      · exact ⟨i, Option.some.inj (found.symm.trans new), own⟩
  | pushing i =>
    obtain ⟨made,pushed,bound,down⟩ := phase
    exact ⟨⟨made, congrArg Nat.succ pushed, bound, down⟩, held, entries, opened, count, nofun⟩
  | storing =>
    obtain ⟨made,pushed,-⟩ := phase
    exact ⟨⟨made, pushed⟩, nofun, entries, opened, count, nofun⟩
  | waiting =>
    obtain ⟨made,pushed⟩ := phase
    unfold State.advance
    by_cases all : countExecs = threads
    · simp only [all, if_true]
      refine ⟨⟨made, pushed⟩, nofun, entries, opened, nofun, fun _ => ?_⟩
      exact List.countP_eq_length.mp ((count rfl).symm.trans (all.trans (pushed.trans made.symm)))
    · simp only [all, if_false]
      exact ⟨⟨made, pushed⟩, held, entries, opened, count, nofun⟩
  | returned => exact ⟨phase, held, entries, opened, count, returned⟩
  | threw => exact ⟨phase, held, entries, opened, count, returned⟩
  | aborted => exact ⟨phase, held, entries, opened, count, returned⟩

theorem Invariant.down (valid : Invariant capacity id s) (closed : s.main.opens = false)
    (alive : s.main ≠ .aborted) : s.start = false := by
  have phase := valid.phase
  unfold Phase at phase
  split at phase
  next => exact phase.2.2
  next => exact phase.2.2.2
  next => exact phase.2.2.2
  next => exact phase.2.2.2
  next => exact phase.2.2.2
  next => exact phase.2.2
  all_goals simp_all [Main.opens]

section
variable {i : Nat} {w w' : Worker} (at_ : s.workers[i]? = some w)

include at_

theorem Invariant.opens (valid : Invariant capacity id s) (past : w ≠ .spinning) :
    s.main.opens = true := by
  by_contra closed
  exact past (valid.held (Bool.eq_false_iff.mpr closed) w (List.mem_of_getElem? at_))

theorem Invariant.entry (valid : Invariant capacity id s) (opens : s.main.opens = true) :
    (s.threadsProps.lookup (id i)).isSome = true := by
  refine valid.entries i ?_
  obtain ⟨bound,-⟩ := List.getElem?_eq_some_iff.mp at_
  unfold State.entered
  revert opens
  cases s.main <;> simp [Main.opens, bound]

omit at_ in
theorem Invariant.become (valid : Invariant capacity id s) (opens : s.main.opens = true) (n : Nat)
    (count : s.main.leaves = false → n = (s.workers.set i w').countP Worker.counted)
    (past : s.main = .returned → w'.counted = true) :
    Invariant capacity id { s.become i w' with countExecs := n } := by
  obtain ⟨phase,held,entries,opened,-,returned⟩ := valid
  have counted : s.main = .returned → ∀ v ∈ s.workers.set i w', v.counted = true := by
    intro left v member
    rcases List.mem_or_eq_of_mem_set member with old | rfl
    · exact returned left v old
    · exact past left
  obtain ⟨main,start,countExecs,threads,props,workers⟩ := s
  have length : (workers.set i w').length = workers.length := List.length_set
  refine ⟨?_,fun closed => ?_,?_,opened,count,counted⟩
  · cases main with
    | waiting => exact ⟨length.trans phase.1, phase.2⟩
    | returned => exact ⟨length.trans phase.1, phase.2⟩
    | threw => trivial
    | _ => cases opens
  · exact absurd (opens.symm.trans closed) (by decide)
  · cases main with
    | waiting | returned | threw => exact fun j entered => entries j (Nat.lt_of_lt_of_eq entered length)
    | _ => cases opens

end

theorem Invariant.work {i : Nat} {w : Worker} (valid : Invariant capacity id s)
    (at_ : s.workers[i]? = some w) (alive : s.main ≠ .aborted) (action : Action) :
    Invariant capacity id (s.work id i action w) := by
  have inside : w.counted = false → s.main ≠ .returned := by
    intro uncounted left
    exact absurd (uncounted.symm.trans (valid.returned left w (List.mem_of_getElem? at_))) (by decide)
  unfold State.work
  split
  next garbage =>
    by_cases passes : (if s.main.leaves then garbage else s.start) = true
    · rw [if_pos passes]
      -- while the loop runs the flag is down, and its lifetime is not over
      have opens : s.main.opens = true := by
        by_contra closed
        have shut := Bool.eq_false_iff.mpr closed
        rw [valid.down shut alive] at passes
        revert shut passes
        cases s.main <;> simp [Main.opens, Main.leaves]
      exact valid.become opens s.countExecs
        (fun lives => (valid.count lives).trans (countP_set_same at_ .counting rfl).symm)
        fun left => absurd left (inside rfl)
    · rw [if_neg passes]
      exact valid
  next =>
    have opens := valid.opens at_ nofun
    refine valid.become opens _ (fun lives => ?_) fun _ => rfl
    rw [countP_set_counted at_ _ rfl rfl, valid.count lives]
  next =>
    have opens := valid.opens at_ nofun
    exact valid.become opens s.countExecs
      (fun lives => (valid.count lives).trans (countP_set_same at_ .parsing rfl).symm) fun _ => rfl
  next called =>
    split
    next handles =>
      have opens := valid.opens at_ (by rintro rfl; cases handles)
      have same : (w.accessed called).counted = w.counted := by
        revert handles
        cases w <;> cases called <;> simp [Worker.handles, Worker.accessed, Worker.counted]
      rw [bracket_of_isSome (valid.entry at_ opens)]
      refine valid.become opens s.countExecs (fun lives => ?_) fun _ => ?_
      · exact (valid.count lives).trans (countP_set_same at_ _ same).symm
      · revert handles same
        cases w <;> simp [Worker.handles, Worker.counted]
    next => exact valid
  next => exact valid

theorem step_invariant (event : Event) (valid : Invariant capacity id s) :
    Invariant capacity id (s.step capacity id event) := by
  unfold State.step
  split
  · exact valid
  next alive =>
    cases event with
    | main succeeds => exact valid.advance succeeds
    | worker i action =>
      simp only
      split
      · exact valid
      next w at_ => exact valid.work at_ alive action

theorem reachable_invariant (events : List Event) :
    Invariant capacity id (execute (State.step capacity id) events (State.initial : State Id)) :=
  execute_preserves (Invariant capacity id) (fun _ event => step_invariant event) events _
    initial_invariant

theorem Invariant.found {i : Nat} {w : Worker} (valid : Invariant capacity id s)
    (at_ : s.workers[i]? = some w) (handles : w.handles = true) :
    ∃ turn, s.threadsProps.lookup (id i) = some (.opened turn) ∧ id i = id turn := by
  have opens := valid.opens at_ (by rintro rfl; cases handles)
  obtain ⟨value,found⟩ := Option.isSome_iff_exists.mp (valid.entry at_ opens)
  obtain ⟨turn,rfl,own⟩ := valid.opened _ _ found
  exact ⟨turn, found, own⟩

/-- Threads that have different ids have their own connections. -/
theorem own_connection (distinct : Function.Injective id) (events : List Event) {i : Nat} {w : Worker} :
    let s := execute (State.step capacity id) events (State.initial : State Id)
    s.workers[i]? = some w → w.handles = true → s.threadsProps.lookup (id i) = some (.opened i) := by
  intro s at_ handles
  obtain ⟨turn,found,own⟩ := (reachable_invariant events).found at_ handles
  obtain rfl : i = turn := distinct own
  exact found

theorem work_main (id : Nat → Id) (i : Nat) (action : Action) (w : Worker) (s : State Id) :
    (s.work id i action w).main = s.main := by
  unfold State.work
  split
  · split_ifs <;> rfl
  · rfl
  · rfl
  · split_ifs <;> rfl
  · rfl

theorem work_threadsProps {i : Nat} (present : (s.threadsProps.lookup (id i)).isSome = true)
    (action : Action) (w : Worker) : (s.work id i action w).threadsProps = s.threadsProps := by
  unfold State.work
  split
  · split_ifs <;> rfl
  · rfl
  · rfl
  · split_ifs
    · exact bracket_of_isSome present
    · rfl
  · rfl

/-- Once a worker may pass, `Server::Start` stays behind its loop, and `operator[]` finds
what it looks for. -/
theorem step_settled (valid : Invariant capacity id s) (opens : s.main.opens = true) (event : Event) :
    (s.step capacity id event).main.opens = true ∧
      (s.step capacity id event).threadsProps = s.threadsProps := by
  unfold State.step
  split
  · exact ⟨opens, rfl⟩
  cases event with
  | main succeeds =>
    obtain ⟨main,start,countExecs,threads,props,workers⟩ := s
    cases main with
    | waiting =>
      simp only [State.advance]
      split
      · exact ⟨rfl, rfl⟩
      · exact ⟨rfl, rfl⟩
    | returned | threw => exact ⟨rfl, rfl⟩
    | _ => cases opens
  | worker i action =>
    simp only
    split
    · exact ⟨opens, rfl⟩
    next w at_ =>
      refine ⟨?_, work_threadsProps (valid.entry at_ opens) action w⟩
      rw [work_main]
      exact opens

theorem execute_settled (valid : Invariant capacity id s) (opens : s.main.opens = true)
    (later : List Event) :
    (execute (State.step capacity id) later s).threadsProps = s.threadsProps := by
  have kept : ∀ t event, Invariant capacity id t ∧ t.main.opens = true ∧ t.threadsProps = s.threadsProps →
      Invariant capacity id (t.step capacity id event) ∧ (t.step capacity id event).main.opens = true ∧
        (t.step capacity id event).threadsProps = s.threadsProps := by
    rintro t event ⟨valid,opens,same⟩
    obtain ⟨open_,unchanged⟩ := step_settled valid opens event
    exact ⟨step_invariant event valid, open_, unchanged.trans same⟩
  exact (execute_preserves _ kept later s ⟨valid, opens, rfl⟩).2.2

theorem step_returned (left : s.main = .returned) (event : Event) :
    (s.step capacity id event).main = .returned := by
  unfold State.step
  split
  · exact left
  cases event with
  | main succeeds => simp only [State.advance, left]
  | worker i action =>
    simp only
    split
    · exact left
    next w _ =>
      rw [work_main]
      exact left

end

/-- Whatever the number of threads and the order of their steps: a request is handled with
the entry made for the thread, the map is complete and stays as it is, and behind the return
of `Server::Start` no worker is in front of a load of `start` or of the increment. -/
theorem start_up_barrier (capacity : Nat) (id : Nat → Id) (events : List Event) :
    let s := execute (State.step capacity id) events (State.initial : State Id)
    (∀ i w, s.workers[i]? = some w → w.handles = true →
      (∃ turn, s.threadsProps.lookup (id i) = some (.opened turn) ∧ id i = id turn) ∧
      s.main.fills = false ∧
      ∀ later, (execute (State.step capacity id) later s).threadsProps = s.threadsProps) ∧
    (s.main = .returned → s.workers.length = capacity ∧ ∀ later, ∀ w ∈
      (execute (State.step capacity id) later s).workers, w ≠ .spinning ∧ w ≠ .counting) := by
  intro s
  have valid : Invariant capacity id s := reachable_invariant events
  refine ⟨fun i w at_ handles => ?_, fun left => ⟨?_, fun later w member => ?_⟩⟩
  · have opens := valid.opens at_ (by rintro rfl; cases handles)
    refine ⟨valid.found at_ handles, ?_, execute_settled valid opens⟩
    revert opens
    cases s.main <;> simp [Main.opens, Main.fills]
  · have phase := valid.phase
    rw [Phase, left] at phase
    exact phase.1
  · have still : (execute (State.step capacity id) later s).main = .returned :=
      execute_preserves (fun t => t.main = .returned) (fun _ event left => step_returned left event)
        later s left
    have later_valid := execute_preserves (Invariant capacity id) (fun _ event => step_invariant event)
      later s valid
    have counted := later_valid.returned still w member
    constructor <;> rintro rfl <;> cases counted

/-- Two threads, of which the first handles a request while the second still loads the flag. -/
example :
    let s := execute (State.step 2 fun i => i)
      ((List.replicate 11 (Event.main true)) ++ [.worker 0 (.load false), .worker 0 .fetchAdd,
        .worker 0 .receive, .worker 0 (.access true), .main true, .worker 1 (.load false),
        .worker 1 .fetchAdd, .main true]) (State.initial : State Nat)
    s.main = .returned ∧ s.workers = [.takingVm, .running] := by
  decide

end
end PcCourse.StartUp
