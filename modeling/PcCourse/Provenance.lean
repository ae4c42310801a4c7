import PcCourse.Transition
import Mathlib.Data.List.Induction

/-! Where the things that a system holds come from: in a run each was held at first, or was
brought in by a step for something that was held by then and has such an origin itself. -/
namespace PcCourse.Provenance

open Transition

universe u v w
variable {σ : Type u} {α : Type v} {β : Type w}

/-- An origin of what is held after a run. `brings s a parent b` is the step `a` from `s` that
brings in `b` for `parent`. -/
inductive Descends (step : α → σ → σ) (holds : σ → β → Prop) (brings : σ → α → β → β → Prop) (first : σ) :
    List α → β → Prop
  | held {labels : List α} {b : β} : holds first b → Descends step holds brings first labels b
  | brought {before : List α} {a : α} {after : List α} {parent b : β} :
    holds (execute step before first) parent → brings (execute step before first) a parent b →
    Descends step holds brings first before parent →
    Descends step holds brings first (before ++ a :: after) b

variable {step : α → σ → σ} {holds : σ → β → Prop} {brings : σ → α → β → β → Prop} {first : σ}

/-- An origin stays one as the run goes on. -/
theorem Descends.append {labels : List α} {b : β} (descends : Descends step holds brings first labels b)
    (later : List α) : Descends step holds brings first (labels ++ later) b := by
  cases descends with
  | held there => exact .held there
  | brought there brings parent =>
    rw [List.append_assoc, List.cons_append]
    exact .brought there brings parent

/-- Where every step holds only what was held before or what it brings in, all has an origin. -/
theorem execute_descends {labels : List α}
    (origin : ∀ s, ∀ a ∈ labels, ∀ b, holds (step a s) b → holds s b ∨ ∃ parent, holds s parent ∧ brings s a parent b)
    {b : β} (there : holds (execute step labels first) b) : Descends step holds brings first labels b := by
  induction labels using List.reverseRecOn generalizing b with
  | nil => exact .held there
  | append_singleton before a ih =>
    have earlier {b : β} := @ih (fun s a member => origin s a (List.mem_append_left _ member)) b
    rw [execute_append] at there
    rcases origin _ a (List.mem_append_right _ List.mem_cons_self) b there with before_ | ⟨parent,held,brought⟩
    · exact (earlier before_).append [a]
    · exact .brought held brought (earlier held)

end PcCourse.Provenance
