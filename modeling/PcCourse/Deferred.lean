import Mathlib.Algebra.BigOperators.Group.List.Basic
import Mathlib.Tactic.Abel

/-! A copy of a value that is kept up to date by effects, each noted when the value changes
and applied to the copy later, in any order. A shift adds what was added to the value; a
reset replaces the copy by the value as it was when the reset was noted. -/
namespace PcCourse.Deferred

universe u
variable {A : Type u} [AddCommGroup A]

inductive Effect (A : Type u) where
  | shift (change : A)
  | reset (value : A)

namespace Effect

def change : Effect A → A
  | .shift change => change
  | .reset _ => 0

def IsReset : Effect A → Prop
  | .shift _ => False
  | .reset _ => True

end Effect

/-- What the effects add to the copy, resets apart. -/
def total (pending : List (Effect A)) : A := (pending.map Effect.change).sum

theorem total_cons (e : Effect A) (rest : List (Effect A)) :
    total (e :: rest) = e.change + total rest := by
  rw [total, List.map_cons, List.sum_cons, total]

theorem total_append (first second : List (Effect A)) :
    total (first ++ second) = total first + total second := by
  rw [total, List.map_append, List.sum_append, total, total]

/-- Every reset, with the shifts noted after it, gives the value. -/
def Tracks (value : A) : List (Effect A) → Prop
  | [] => True
  | e :: rest => (∀ old, e = .reset old → old + total rest = value) ∧ Tracks value rest

/-- An effect is noted together with the change of the value; a reset holds the value. -/
theorem Tracks.note {value : A} {pending : List (Effect A)} (tracks : Tracks value pending)
    {e : Effect A} (current : ∀ old, e = .reset old → old = value + e.change) :
    Tracks (value + e.change) (pending ++ [e]) := by
  induction pending with
  | nil =>
    refine ⟨fun old reset => ?_, trivial⟩
    rw [current old reset, total, List.map_nil, List.sum_nil, add_zero]
  | cons q rest ih =>
    refine ⟨fun old reset => ?_, ih tracks.2⟩
    change old + total (rest ++ [e]) = value + e.change
    rw [total_append, ← add_assoc, tracks.1 old reset, total_cons, total, List.map_nil,
      List.sum_nil, add_zero]

/-- An effect that no noted reset precedes, or that shifts nothing, can be taken out. -/
theorem Tracks.take_out {value : A} {e : Effect A} {before after : List (Effect A)}
    (tracks : Tracks value (before ++ e :: after))
    (free : e.change = 0 ∨ ∀ q ∈ before, ¬q.IsReset) : Tracks value (before ++ after) := by
  induction before with
  | nil => exact tracks.2
  | cons q rest ih =>
    obtain ⟨here,later⟩ := tracks
    refine ⟨fun old reset => ?_, ih later ?_⟩
    · rcases free with still | none_
      · have sum : old + total (rest ++ e :: after) = value := here old reset
        rw [total_append, total_cons, still, zero_add, ← total_append] at sum
        exact sum
      · subst reset
        exact absurd trivial (none_ _ List.mem_cons_self)
    · exact free.imp_right fun none_ q member => none_ q (List.mem_cons_of_mem _ member)

/-- The copy will be the value once the pending effects are applied as they were noted. -/
structure Consistent (copy value : A) (pending : List (Effect A)) : Prop where
  resets : Tracks value pending
  shifts : (∀ e ∈ pending, ¬e.IsReset) → copy + total pending = value

variable {copy value : A} {pending before after : List (Effect A)}

theorem Consistent.refl (value : A) : Consistent value value [] :=
  ⟨trivial, fun _ => by simp [total]⟩

theorem Consistent.settled (consistent : Consistent copy value []) : copy = value := by
  have same := consistent.shifts fun e member => absurd member List.not_mem_nil
  rwa [total, List.map_nil, List.sum_nil, add_zero] at same

theorem Consistent.note_shift (consistent : Consistent copy value pending) (change : A) :
    Consistent copy (value + change) (pending ++ [.shift change]) := by
  constructor
  · apply consistent.resets.note (e := .shift change)
    intro old reset
    cases reset
  · intro none_
    have sum := consistent.shifts fun e member => none_ e (List.mem_append_left _ member)
    rw [total_append, ← add_assoc, sum, total_cons, total, List.map_nil, List.sum_nil, add_zero]
    rfl

theorem Consistent.note_reset (consistent : Consistent copy value pending) :
    Consistent copy value (pending ++ [.reset value]) := by
  have noted : Tracks (value + 0) (pending ++ [.reset value]) := by
    apply consistent.resets.note (e := .reset value)
    intro old reset
    cases reset
    exact (add_zero value).symm
  rw [add_zero] at noted
  refine ⟨noted, fun none_ => ?_⟩
  exact absurd trivial (none_ (.reset value) (List.mem_append_right _ (List.mem_singleton_self _)))

/-- A shift may overtake shifts. -/
theorem Consistent.apply_shift {change : A}
    (consistent : Consistent copy value (before ++ .shift change :: after))
    (free : change = 0 ∨ ∀ e ∈ before, ¬e.IsReset) :
    Consistent (copy + change) value (before ++ after) := by
  refine ⟨consistent.resets.take_out free, fun none_ => ?_⟩
  have sum := consistent.shifts fun e member => by
    rcases List.mem_append.mp member with earlier | later
    · exact none_ e (List.mem_append_left _ earlier)
    · rcases List.mem_cons.mp later with rfl | later
      · exact id
      · exact none_ e (List.mem_append_right _ later)
  rw [total_append, total_cons, Effect.change] at sum
  rw [total_append, ← sum]
  abel

/-- A reset may overtake what shifts nothing. -/
theorem Consistent.apply_reset {old : A}
    (consistent : Consistent copy value (before ++ .reset old :: after))
    (free : ∀ e ∈ before, e.change = 0) : Consistent old value (before ++ after) := by
  refine ⟨consistent.resets.take_out (.inl rfl), fun none_ => ?_⟩
  have still : total before = 0 := by
    apply List.sum_eq_zero
    intro change member
    obtain ⟨e,inside,rfl⟩ := List.mem_map.mp member
    exact free e inside
  have here : old + total after = value := by
    have tracks := consistent.resets
    clear still free none_ consistent
    induction before with
    | nil => exact tracks.1 old rfl
    | cons q rest ih => exact ih tracks.2
  rw [total_append, still, zero_add]
  exact here

end PcCourse.Deferred
