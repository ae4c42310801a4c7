/-! Finite runs of a deterministic labelled system. A run is a list of labels; a
predicate on a state and the label taken from it restricts which runs count. -/
namespace PcCourse.Transition

universe u u' v w
variable {σ : Type u} {α : Type v}

def execute (step : α → σ → σ) : List α → σ → σ
  | [], s => s
  | a :: rest, s => execute step rest (step a s)

theorem execute_append (step : α → σ → σ) (first second : List α) (s : σ) :
    execute step (first ++ second) s = execute step second (execute step first s) := by
  induction first generalizing s with
  | nil => rfl
  | cons a rest ih => exact ih (step a s)

/-- Labels that are read as labels of another system, whose steps do the same. -/
theorem execute_map {β : Type w} {other : β → σ → σ} {step : α → σ → σ} {f : α → β} (labels : List α)
    (same : ∀ a ∈ labels, ∀ s, other (f a) s = step a s) (s : σ) :
    execute other (labels.map f) s = execute step labels s := by
  induction labels generalizing s with
  | nil => rfl
  | cons a rest ih =>
    rw [List.forall_mem_cons] at same
    rw [List.map_cons, execute, execute, same.1, ih same.2]

def Along (step : α → σ → σ) (admits : σ → α → Prop) : List α → σ → Prop
  | [], _ => True
  | a :: rest, s => admits s a ∧ Along step admits rest (step a s)

variable {step : α → σ → σ} {admits : σ → α → Prop}

/-- What every admitted step preserves, every admitted run preserves. -/
theorem execute_invariant (invariant : σ → Prop)
    (preserved : ∀ s a, admits s a → invariant s → invariant (step a s))
    (labels : List α) (s : σ) (admitted : Along step admits labels s) (valid : invariant s) :
    invariant (execute step labels s) := by
  induction labels generalizing s with
  | nil => exact valid
  | cons a rest ih => exact ih _ admitted.2 (preserved s a admitted.1 valid)

theorem execute_preserves (invariant : σ → Prop)
    (preserved : ∀ s a, invariant s → invariant (step a s))
    (labels : List α) (s : σ) (valid : invariant s) : invariant (execute step labels s) := by
  induction labels generalizing s with
  | nil => exact valid
  | cons a rest ih => exact ih _ (preserved s a valid)

/-- A simulation of admitted steps is one of admitted runs. -/
theorem execute_related {τ : Type u'} {β : Type w} {other : β → τ → τ} {f : α → β} (related : σ → τ → Prop)
    (simulates : ∀ s t a, admits s a → related s t → related (step a s) (other (f a) t))
    (labels : List α) (s : σ) (t : τ) (admitted : Along step admits labels s) (start : related s t) :
    related (execute step labels s) (execute other (labels.map f) t) := by
  induction labels generalizing s t with
  | nil => exact start
  | cons a rest ih => exact ih _ _ admitted.2 (simulates s t a admitted.1 start)

theorem Along.of_forall (labels : List α) (s : σ) (all : ∀ a ∈ labels, ∀ t, admits t a) :
    Along step admits labels s := by
  induction labels generalizing s with
  | nil => trivial
  | cons a rest ih =>
    exact ⟨all a List.mem_cons_self s, ih _ fun b member => all b (List.mem_cons_of_mem _ member)⟩

theorem Along.and_forall {p : α → Prop} (labels : List α) (s : σ) (all : ∀ a ∈ labels, p a)
    (admitted : Along step admits labels s) : Along step (fun s a => p a ∧ admits s a) labels s := by
  induction labels generalizing s with
  | nil => trivial
  | cons a rest ih =>
    exact ⟨⟨all a List.mem_cons_self, admitted.1⟩,
      ih _ (fun b member => all b (List.mem_cons_of_mem _ member)) admitted.2⟩

theorem Along.mono {weaker : σ → α → Prop} (implies : ∀ s a, admits s a → weaker s a)
    (labels : List α) (s : σ) (admitted : Along step admits labels s) :
    Along step weaker labels s := by
  induction labels generalizing s with
  | nil => trivial
  | cons a rest ih => exact ⟨implies s a admitted.1, ih _ admitted.2⟩

/-- The form of `Along.mono` in which the states of the run meet an invariant. -/
theorem Along.mono_invariant {weaker : σ → α → Prop} (invariant : σ → Prop)
    (preserved : ∀ s a, admits s a → invariant s → invariant (step a s))
    (implies : ∀ s a, admits s a → invariant s → weaker s a)
    (labels : List α) (s : σ) (admitted : Along step admits labels s) (valid : invariant s) :
    Along step weaker labels s := by
  induction labels generalizing s with
  | nil => trivial
  | cons a rest ih =>
    have next := preserved s a admitted.1 valid
    exact ⟨implies s a admitted.1 valid, ih _ admitted.2 next⟩

/-- Something that steps add and remove is there at the end of a run exactly when it was there at
first or some step added it, and no step has removed it since. -/
theorem execute_iff (holds : σ → Prop) {adds removes : σ → α → Prop}
    (step_iff : ∀ s a, holds (step a s) ↔ holds s ∧ ¬removes s a ∨ adds s a) (labels : List α) (s : σ) :
    holds (execute step labels s) ↔
      holds s ∧ Along step (fun s a => ¬removes s a) labels s ∨
        ∃ before a after, labels = before ++ a :: after ∧ adds (execute step before s) a ∧
          Along step (fun s a => ¬removes s a) after (execute step (before ++ [a]) s) := by
  induction labels generalizing s with
  | nil => simp [execute, Along]
  | cons a rest ih =>
    rw [execute, ih, step_iff]
    constructor
    · rintro (⟨⟨there,kept⟩ | added,later⟩ | ⟨before,b,after,rfl,added,later⟩)
      · exact .inl ⟨there, kept, later⟩
      · exact .inr ⟨[], a, rest, rfl, added, later⟩
      · exact .inr ⟨a :: before, b, after, rfl, added, later⟩
    · rintro (⟨there,kept,later⟩ | ⟨before,b,after,split,added,later⟩)
      · exact .inl ⟨.inl ⟨there, kept⟩, later⟩
      · cases before with
        | nil =>
          obtain ⟨rfl,rfl⟩ := List.cons.inj split
          exact .inl ⟨.inr added, later⟩
        | cons c before =>
          obtain ⟨rfl,rfl⟩ := List.cons.inj split
          exact .inr ⟨before, b, after, rfl, added, later⟩

section
variable {α : Type v} {ω : Type w} {machine : α → σ → ω × σ}

def outputs (machine : α → σ → ω × σ) : List α → σ → List ω
  | [], _ => []
  | a :: rest, s => (machine a s).1 :: outputs machine rest (machine a s).2

theorem outputs_append (first second : List α) (s : σ) : outputs machine (first ++ second) s =
    outputs machine first s ++ outputs machine second (execute (fun a s => (machine a s).2) first s) := by
  induction first generalizing s with
  | nil => rfl
  | cons a rest ih => exact congrArg ((machine a s).1 :: ·) (ih _)

theorem outputs_map {β : Type u'} {other : β → σ → ω × σ} {f : α → β} (labels : List α)
    (same : ∀ a ∈ labels, ∀ s, other (f a) s = machine a s) (s : σ) :
    outputs other (labels.map f) s = outputs machine labels s := by
  induction labels generalizing s with
  | nil => rfl
  | cons a rest ih =>
    rw [List.forall_mem_cons] at same
    rw [List.map_cons, outputs, outputs, same.1, ih same.2]

/-- A table that every step extends by what its output tells is known from the outputs of a run. -/
theorem execute_extends {β : Type u'} (table : σ → List β) (told : α → ω → Option β)
    (extends_ : ∀ a s, table (machine a s).2 = table s ++ (told a (machine a s).1).toList) (labels : List α) (s : σ) :
    table (execute (fun a s => (machine a s).2) labels s) =
      table s ++ (labels.zip (outputs machine labels s)).filterMap fun pair => told pair.1 pair.2 := by
  induction labels generalizing s with
  | nil => simp [execute]
  | cons a rest ih =>
    rw [execute, ih, extends_, outputs, List.zip_cons_cons, List.append_assoc]
    refine congrArg (table s ++ ·) ?_
    cases said : told a (machine a s).1 with
    | none => simp [said]
    | some b => simp [said]

end

end PcCourse.Transition
