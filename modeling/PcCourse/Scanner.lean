/-! Scanners that read one character at a time. What a scanner does on a text is the
composition of what it does on its parts, so fixed parts are evaluated and only the
variable ones need a lemma. -/
namespace PcCourse

/-- A state, the tokens completed by each character, and those completed by the end. -/
structure Scanner (σ τ : Type) where
  step : σ → Char → Option (List τ × σ)
  finish : σ → Option (List τ)

namespace Scanner

variable {σ τ : Type} {m : Scanner σ τ}

def feed (m : Scanner σ τ) : σ → List Char → Option (List τ × σ)
  | s, [] => some ([], s)
  | s, c :: cs =>
    match m.step s c with
    | none => none
    | some (now, next) =>
      match m.feed next cs with
      | none => none
      | some (later, final) => some (now ++ later, final)

def run (m : Scanner σ τ) (s : σ) (cs : List Char) : Option (List τ) :=
  match m.feed s cs with
  | none => none
  | some (tokens, final) => (m.finish final).map (tokens ++ ·)

theorem feed_cons_eq_some {s final : σ} {c : Char} {cs : List Char} {tokens : List τ} :
    m.feed s (c :: cs) = some (tokens, final) ↔ ∃ now next later, m.step s c = some (now, next) ∧
      m.feed next cs = some (later, final) ∧ tokens = now ++ later := by
  rw [feed]
  constructor
  · intro fed
    split at fed
    · cases fed
    next now next one =>
      split at fed
      · cases fed
      next later last rest =>
        cases fed
        exact ⟨now, next, later, one, rest, rfl⟩
  · rintro ⟨now,next,later,one,rest,rfl⟩
    simp only [one, rest]

/-- After a part whose reading is known, the rest is read from the state it leaves. -/
theorem feed_after {s middle : σ} {xs : List Char} {ts : List τ}
    (first : m.feed s xs = some (ts, middle)) (ys : List Char) :
    m.feed s (xs ++ ys) = (m.feed middle ys).map fun rest => (ts ++ rest.1, rest.2) := by
  induction xs generalizing s ts with
  | nil =>
    simp only [feed, Option.some.injEq, Prod.mk.injEq] at first
    obtain ⟨rfl,rfl⟩ := first
    simp
  | cons c cs ih =>
    simp only [List.cons_append, feed] at first ⊢
    cases one : m.step s c with
    | none => simp [one] at first
    | some result =>
      obtain ⟨now,next⟩ := result
      cases rest : m.feed next cs with
      | none => simp [one, rest] at first
      | some result =>
        obtain ⟨later,last⟩ := result
        simp only [one, rest, Option.some.injEq, Prod.mk.injEq] at first
        obtain ⟨rfl,rfl⟩ := first
        cases tail : m.feed last ys <;> simp [ih rest, tail]

theorem run_append {s middle : σ} {xs ys : List Char} {ts : List τ}
    (first : m.feed s xs = some (ts, middle)) :
    m.run s (xs ++ ys) = (m.run middle ys).map (ts ++ ·) := by
  cases second : m.feed middle ys with
  | none => simp [run, feed_after first, second]
  | some result =>
    cases ended : m.finish result.2 <;> simp [run, feed_after first, second, ended]

theorem feed_fails {s : σ} {xs : List Char} (fails : m.feed s xs = none) (ys : List Char) :
    m.feed s (xs ++ ys) = none := by
  induction xs generalizing s with
  | nil => simp [feed] at fails
  | cons c cs ih =>
    simp only [List.cons_append, feed] at fails ⊢
    cases one : m.step s c with
    | none => rfl
    | some result =>
      obtain ⟨now,next⟩ := result
      cases rest : m.feed next cs with
      | some result => simp [one, rest] at fails
      | none => simp [ih rest]

/-- A text that is read was read part by part. -/
theorem run_split {s : σ} {xs ys : List Char} {tokens : List τ} (ran : m.run s (xs ++ ys) = some tokens) :
    ∃ first middle rest, m.feed s xs = some (first, middle) ∧ m.run middle ys = some rest ∧
      tokens = first ++ rest := by
  cases fed : m.feed s xs with
  | none =>
    rw [run, feed_fails fed] at ran
    cases ran
  | some result =>
    obtain ⟨first,middle⟩ := result
    rw [run_append fed, Option.map_eq_some_iff] at ran
    obtain ⟨rest,behind,same⟩ := ran
    exact ⟨first, middle, rest, rfl, behind, same.symm⟩

theorem run_cons {s next : σ} {c : Char} {cs : List Char} {now : List τ}
    (one : m.step s c = some (now, next)) :
    m.run s (c :: cs) = (m.run next cs).map (now ++ ·) := by
  have first : m.feed s [c] = some (now, next) := by simp [feed, one]
  exact run_append first

/-- A text that is read was read from its first character on. -/
theorem run_cons_eq_some {s : σ} {c : Char} {cs : List Char} {tokens : List τ} :
    m.run s (c :: cs) = some tokens ↔ ∃ now next later, m.step s c = some (now, next) ∧
      m.run next cs = some later ∧ tokens = now ++ later := by
  constructor
  · intro ran
    obtain ⟨first,middle,later,fed,behind,rfl⟩ := run_split (show m.run s ([c] ++ cs) = some tokens from ran)
    obtain ⟨now,_,_,one,nothing,rfl⟩ := feed_cons_eq_some.mp fed
    cases nothing
    exact ⟨now, middle, later, one, behind, by rw [List.append_nil]⟩
  · rintro ⟨now,next,later,one,behind,rfl⟩
    rw [run_cons one, behind, Option.map_some]

/-- A character that completes no token only changes the state. -/
theorem run_silent {s next : σ} {c : Char} {cs : List Char} (one : m.step s c = some ([], next)) :
    m.run s (c :: cs) = m.run next cs := by
  rw [run_cons one]
  cases m.run next cs <;> rfl

end Scanner
end PcCourse
