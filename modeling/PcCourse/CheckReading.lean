import PcCourse.Authentication
import PcCourse.Privilege

/-! What the statement of the check is read as when its strings are pasted into it: whether
reading it needs the rows, and whether it asks for the row that the strings name. -/
namespace PcCourse.UserRequest

open SqlCall SqlText Outcome

def isEvaluated : List (List Token) → Bool
  | [] => false
  | expr :: rest =>
    match literal? expr with
    | none => expr ≠ []
    | some .null => isEvaluated rest
    | some _ => isStorable expr && isEvaluated rest

/-- The strings make the server evaluate an expression. -/
def Evaluates (login password rank : String) : Prop :=
  ∃ name x₁ x₂ x₃, parse (checkText login password rank) = some ⟨name, [x₁, x₂, x₃]⟩ ∧
    isEvaluated [x₁, x₂, x₃] = true

/-- Whatever is equal to what the argument stands for is equal to the stored string. -/
def Names (c : Collation) (cut : String → String) (stored : Except SqlError String)
    (expr : List Token) : Prop :=
  ∀ y : String, y.toList.length ≤ 64 → ∀ other, c.same other (cut (standsFor y expr)) = true →
    ∃ text, stored = .ok text ∧ c.same other (cut text) = true

/-- An accepted statement asks for the row that the strings name. -/
def Meant (c : Collation) (login password rank : String) : Prop :=
  ∀ name x₁ x₂ x₃, parse (checkText login password rank) = some ⟨name, [x₁, x₂, x₃]⟩ →
    isAccepted login password rank = true →
      Names c id (storeText 64 "_login" login) x₁ ∧
      Names c trimBlanks (storeText 64 "_sha256_pwd" password) x₂ ∧
      Names c id (storeText 64 "rank_name" rank) x₃

section
variable {e : Engine} {c : Collation} {expr : List Token} {rest : List (List Token)} {column : String}
  {login password rank : String}

theorem toChar_eq_ok {v : SqlValue} {t : Option String} (stored : e.toChar 64 column v = .ok t) :
    ∃ text, e.toVarchar 64 column v = .ok text ∧ t = text.map trimBlanks := by
  unfold Engine.toChar at stored
  cases inner : e.toVarchar 64 column v with
  | error fault => simp [inner, Except.map] at stored
  | ok text =>
    simp only [inner, Except.map, Except.ok.injEq] at stored
    exact ⟨text, rfl, stored.symm⟩

end

section
variable {e : Engine} {k : Conditions} {c : Collation} {config : LuaValue} {ranks : List String}
  {s : Session} {login password rank : String}

end

end PcCourse.UserRequest
