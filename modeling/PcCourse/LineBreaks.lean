import PcCourse.ByteSearch

/-! Where a line break stands in a text that is put together from parts. -/
namespace PcCourse.LineBreaks

open ByteSearch

def crLfChars : List Char := ['\r', '\n']

def Broken (cs : List Char) : Prop := crLfChars <:+: cs

/-- Behind the text, a line break stands at its end and nowhere else. -/
def BreaksAtEnd (cs : List Char) : Prop :=
  ∀ i, OccursAt crLfChars (cs ++ crLfChars) i ↔ i = cs.length

/-- A part of a text that does not end inside a line break, broken under this condition. -/
structure BreaksWhen (cs : List Char) (p : Prop) : Prop where
  last : cs.getLast? ≠ some '\r'
  iff : Broken cs ↔ p

section
variable {a b cs : List Char} {p q : Prop}

theorem broken_cons (c : Char) (cs : List Char) :
    Broken (c :: cs) ↔ (c = '\r' ∧ cs.head? = some '\n') ∨ Broken cs := by
  have front : crLfChars <+: c :: cs ↔ c = '\r' ∧ cs.head? = some '\n' := by
    cases cs with
    | nil => simp [crLfChars]
    | cons d ds => simp [crLfChars, List.cons_prefix_cons, eq_comm]
  exact List.infix_cons_iff.trans (or_congr front Iff.rfl)

theorem broken_nil : ¬Broken [] := by
  simp [Broken, crLfChars]

/-- A part that does not end with the return is broken by itself or not at all. -/
theorem broken_append (last : a.getLast? ≠ some '\r') :
    Broken (a ++ b) ↔ Broken a ∨ Broken b := by
  induction a with
  | nil => simp [broken_nil]
  | cons c cs ih =>
    rw [List.cons_append, broken_cons, broken_cons]
    cases cs with
    | nil =>
      have other : c ≠ '\r' := fun same => last (by rw [same]; rfl)
      simp [other, broken_nil]
    | cons d ds =>
      rw [ih (by simpa [List.getLast?_cons_cons] using last)]
      simp [or_assoc]

theorem broken_concat {c : Char} (other : c ≠ '\n') : Broken (cs ++ [c]) ↔ Broken cs := by
  induction cs with
  | nil => simp [broken_cons, broken_nil]
  | cons d ds ih =>
    have next : (ds ++ [c]).head? = some '\n' ↔ ds.head? = some '\n' := by
      cases ds <;> simp [other]
    rw [List.cons_append, broken_cons, broken_cons, ih, next]

theorem broken_of_not_mem (free : '\r' ∉ cs) : ¬Broken cs := by
  rintro ⟨before,after,rfl⟩
  exact free (by simp [crLfChars])

theorem BreaksWhen.cast (part : BreaksWhen cs p) (same : p ↔ q) : BreaksWhen cs q :=
  ⟨part.last, part.iff.trans same⟩

theorem BreaksWhen.append (first : BreaksWhen a p) (second : BreaksWhen b q) :
    BreaksWhen (a ++ b) (p ∨ q) := by
  constructor
  · rw [List.getLast?_append]
    cases final : b.getLast? with
    | none => exact first.last
    | some c =>
      rw [Option.some_or, ← final]
      exact second.last
  · rw [broken_append first.last, first.iff, second.iff]

theorem breaksWhen_free (free : '\r' ∉ cs) : BreaksWhen cs False := by
  refine ⟨fun final => free (List.mem_of_getLast? final), ?_⟩
  exact iff_false_intro (broken_of_not_mem free)

theorem BreaksWhen.after (second : BreaksWhen b q) (free : '\r' ∉ a) : BreaksWhen (a ++ b) q :=
  ((breaksWhen_free free).append second).cast (by simp)

theorem BreaksWhen.before (first : BreaksWhen a p) (free : '\r' ∉ b) : BreaksWhen (a ++ b) p :=
  (first.append (breaksWhen_free free)).cast (by simp)

/-- Parts joined by text without a carriage return. -/
theorem breaksWhen_joined (texts : List String) {separator : String}
    (free : '\r' ∉ separator.toList) (parts : ∀ text ∈ texts, text.toList.getLast? ≠ some '\r') :
    BreaksWhen (separator.intercalate texts).toList (∃ text ∈ texts, Broken text.toList) := by
  induction texts with
  | nil => exact (breaksWhen_free (by simp)).cast (by simp)
  | cons text rest ih =>
    obtain ⟨last,others⟩ := List.forall_mem_cons.mp parts
    have first : BreaksWhen text.toList (Broken text.toList) := ⟨last, Iff.rfl⟩
    cases rest with
    | nil =>
      rw [String.intercalate_singleton]
      exact first.cast (by simp)
    | cons next rest =>
      rw [String.intercalate_cons_cons, String.toList_append, String.toList_append]
      exact ((first.before free).append (ih others)).cast (by simp)

/-- A text breaks at its end alone when it is not broken. -/
theorem breaksAtEnd_iff : BreaksAtEnd cs ↔ ¬Broken cs := by
  constructor
  · rintro alone ⟨before,after,rfl⟩
    have occurs : OccursAt crLfChars (before ++ crLfChars ++ after ++ crLfChars) before.length := by
      refine ⟨by simp [crLfChars], ?_⟩
      rw [List.append_assoc, List.append_assoc, List.drop_left]
      exact List.prefix_append _ _
    have same := (alone _).mp occurs
    simp [crLfChars] at same
  · intro unbroken i
    constructor
    · rintro ⟨inside,stands⟩
      by_contra other
      have before : i < cs.length := by
        simp only [List.length_append] at inside
        omega
      refine unbroken ?_
      rw [List.drop_append_of_le_length (by omega)] at stands
      -- the return stands in the text, so the line feed does as well
      cases behind : cs.drop i with
      | nil =>
        have short := List.drop_eq_nil_iff.mp behind
        omega
      | cons c rest =>
        rw [behind] at stands
        cases rest with
        | nil => simp [crLfChars, List.cons_prefix_cons] at stands
        | cons d ds =>
          have whole : crLfChars <+: cs.drop i := by
            rw [behind]
            simp only [crLfChars, List.cons_append, List.cons_prefix_cons] at stands ⊢
            exact ⟨stands.1, stands.2.1, List.nil_prefix⟩
          exact whole.isInfix.trans (List.drop_suffix i cs).isInfix
    · rintro rfl
      have behind : (cs ++ crLfChars).drop cs.length = crLfChars := List.drop_left
      exact ⟨by simp, [], by rw [List.append_nil, behind]⟩

end

end PcCourse.LineBreaks
