import Mathlib.Data.List.Forall2

/-! Computations that can fail: when a sequence of them succeeds. -/
namespace PcCourse.Outcome

@[simp] theorem bind_eq_ok {ε α β : Type} {first : Except ε α} {next : α → Except ε β} {result : β} :
    (first >>= next) = .ok result ↔ ∃ value, first = .ok value ∧ next value = .ok result := by
  cases first <;> simp [bind, Except.bind]

@[simp] theorem pure_eq_ok {ε α : Type} {value result : α} :
    (pure value : Except ε α) = .ok result ↔ value = result := by
  simp [pure, Except.pure]

theorem bind_eq_error {ε α β : Type} {first : Except ε α} {next : α → Except ε β} {fault : ε} :
    (first >>= next) = .error fault ↔
      first = .error fault ∨ ∃ value, first = .ok value ∧ next value = .error fault := by
  cases first <;> simp [bind, Except.bind]

/-- An update of all rows that fails as soon as one row fails. -/
theorem mapM_eq_ok {ε α β : Type} {f : α → Except ε β} {xs : List α} {ys : List β} :
    xs.mapM f = .ok ys ↔ List.Forall₂ (fun x y => f x = .ok y) xs ys := by
  induction xs generalizing ys with
  | nil => simp [pure, Except.pure, eq_comm]
  | cons x rest ih =>
    rw [List.mapM_cons, List.forall₂_cons_left_iff]
    cases head : f x with
    | error e => simp [bind, Except.bind]
    | ok y =>
      cases tail : rest.mapM f with
      | error e =>
        have none : ∀ zs, ¬List.Forall₂ (fun a b => f a = .ok b) rest zs := by
          intro zs all
          rw [← ih, tail] at all
          cases all
        simp [bind, Except.bind, none]
      | ok zs =>
        have only : ∀ ws, List.Forall₂ (fun a b => f a = .ok b) rest ws ↔ zs = ws := by
          intro ws
          rw [← ih, tail]
          simp
        simp [bind, Except.bind, pure, Except.pure, only, eq_comm]

theorem mapM_eq_some {α β : Type} {f : α → Option β} {xs : List α} {ys : List β} :
    xs.mapM f = some ys ↔ List.Forall₂ (fun x y => f x = some y) xs ys := by
  induction xs generalizing ys with
  | nil => simp [eq_comm]
  | cons x rest ih =>
    simp only [List.mapM_cons, List.forall₂_cons_left_iff, Option.bind_eq_bind,
      Option.bind_eq_some_iff, Option.pure_def, Option.some.injEq, ih]
    constructor
    · rintro ⟨y,head,zs,tail,rfl⟩
      exact ⟨y, zs, head, tail, rfl⟩
    · rintro ⟨y,zs,head,tail,rfl⟩
      exact ⟨y, head, zs, tail, rfl⟩

end PcCourse.Outcome
