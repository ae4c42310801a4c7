import Mathlib.Data.List.Basic

/-! The first occurrence of one byte string in another from a start position on. -/
namespace PcCourse.ByteSearch

variable {α : Type}

/-- The needle stands in the buffer at this index. -/
def OccursAt (needle buffer : List α) (i : Nat) : Prop :=
  i + needle.length ≤ buffer.length ∧ needle <+: buffer.drop i

instance [DecidableEq α] (needle buffer : List α) (i : Nat) :
    Decidable (OccursAt needle buffer i) :=
  inferInstanceAs (Decidable (_ ∧ _))

def find [DecidableEq α] (needle buffer : List α) (start : Nat) : Option Nat :=
  (List.range' start (buffer.length + 1 - start)).find? fun i => decide (OccursAt needle buffer i)

section
variable {needle buffer : List α} {start i : Nat}

theorem OccursAt.le_length (occurs : OccursAt needle buffer i) : i ≤ buffer.length :=
  Nat.le_trans (Nat.le_add_right _ _) occurs.1

/-- An occurrence stays where it is when the buffer grows. -/
theorem OccursAt.append (occurs : OccursAt needle buffer i) (more : List α) :
    OccursAt needle (buffer ++ more) i := by
  obtain ⟨inside, stands⟩ := occurs
  constructor
  · rw [List.length_append]
    omega
  · rw [List.drop_append_of_le_length (by omega)]
    exact stands.trans (List.prefix_append _ _)

variable [DecidableEq α]

theorem find_eq_none_iff :
    find needle buffer start = none ↔ ∀ i, start ≤ i → ¬OccursAt needle buffer i := by
  simp only [find, List.find?_eq_none, List.mem_range'_1, decide_eq_true_eq]
  constructor
  · intro none i behind occurs
    exact none i ⟨behind, by have := occurs.le_length; omega⟩ occurs
  · intro none i range
    exact none i range.1

theorem find_sound (found : find needle buffer start = some i) :
    start ≤ i ∧ OccursAt needle buffer i := by
  have range := List.mem_range'_1.mp (List.mem_of_find?_eq_some found)
  exact ⟨range.1, by simpa using List.find?_some found⟩

/-- An occurrence is the one found exactly when the search starts no later and no other
lies between. -/
theorem find_eq_some_iff (occurs : OccursAt needle buffer i) :
    find needle buffer start = some i ↔
      (∀ j < i, start ≤ j → ¬OccursAt needle buffer j) ∧ start ≤ i := by
  rw [find, List.find?_range'_eq_some]
  constructor
  · rintro ⟨-, range, before⟩
    refine ⟨fun j earlier behind => ?_, (List.mem_range'_1.mp range).1⟩
    simpa using before j behind earlier
  · rintro ⟨before, behind⟩
    have inside := occurs.le_length
    refine ⟨by simpa using occurs, List.mem_range'_1.mpr ⟨behind, by omega⟩, ?_⟩
    intro j later earlier
    simpa using before j earlier later

end

end PcCourse.ByteSearch
