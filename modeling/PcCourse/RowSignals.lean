import Mathlib.Data.List.Basic
import Mathlib.Data.List.Infix

/-! Rows of a model, the ranges it announces when they change, and a view that keeps a copy of
the rows and reads again what is announced. -/
namespace PcCourse.RowSignals

variable {α : Type}

/-- A range of rows, from its first to its last. -/
inductive RowSignal where
  | inserted (first last : Nat)
  | removed (first last : Nat)
  | changed (first last : Nat)
  deriving DecidableEq, Repr

/-- The rows of a range. -/
def range (rows : List α) (first last : Nat) : List α := (rows.drop first).take (last + 1 - first)

/-- The copy of a view behind a signal; announced rows are read from the model's rows. -/
def follow (rows view : List α) : RowSignal → List α
  | .inserted first last => view.take first ++ range rows first last ++ view.drop first
  | .removed first last => view.take first ++ view.drop (last + 1)
  | .changed first last => view.take first ++ range rows first last ++ view.drop (last + 1)

def followAll (rows view : List α) (signals : List RowSignal) : List α :=
  signals.foldl (follow rows) view

/-- What announces that the end of the list has grown or shrunk to another size. -/
def resized (before after : Nat) : List RowSignal :=
  if before < after then [.inserted before (after - 1)]
  else if after < before then [.removed after (before - 1)]
  else []

section
variable {old new : List α}

theorem follow_grown (longer : old.length < new.length) :
    followAll new old (resized old.length new.length) = old ++ new.drop old.length := by
  have rest : range new old.length (new.length - 1) = new.drop old.length := by
    apply List.take_of_length_le
    rw [List.length_drop]
    omega
  rw [resized, if_pos longer, followAll, List.foldl_cons, List.foldl_nil, follow, rest,
    List.take_length, List.drop_length, List.append_nil]

theorem follow_shrunk (shorter : new.length < old.length) :
    followAll new old (resized old.length new.length) = old.take new.length := by
  have last : old.length - 1 + 1 = old.length := by omega
  rw [resized, if_neg (by omega), if_pos shorter, followAll, List.foldl_cons, List.foldl_nil, follow,
    last, List.drop_length, List.append_nil]

theorem follow_equal (same : old.length = new.length) :
    followAll new old (resized old.length new.length) = old := by
  rw [resized, if_neg (by omega), if_neg (by omega)]
  rfl

/-- A view that hears of the size only ends with the new rows exactly when one list begins
the other. -/
theorem follow_resized_iff :
    followAll new old (resized old.length new.length) = new ↔ old <+: new ∨ new <+: old := by
  rcases lt_trichotomy old.length new.length with longer | same | shorter
  · rw [follow_grown longer]
    constructor
    · intro follows
      exact .inl ⟨_, follows⟩
    · rintro (begins | begins)
      · obtain ⟨rest,rfl⟩ := begins
        rw [List.drop_left]
      · exact absurd begins.length_le (by omega)
  · rw [follow_equal same]
    constructor
    · rintro rfl
      exact .inl (List.prefix_refl _)
    · rintro (begins | begins)
      · exact begins.eq_of_length same
      · exact (begins.eq_of_length same.symm).symm
  · rw [follow_shrunk shorter]
    constructor
    · intro follows
      exact .inr (follows ▸ List.take_prefix _ _)
    · rintro (begins | begins)
      · exact absurd begins.length_le (by omega)
      · exact (List.prefix_iff_eq_take.mp begins).symm

end

end PcCourse.RowSignals
