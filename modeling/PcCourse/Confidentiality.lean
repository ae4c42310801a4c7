import PcCourse.OpenListings

/-! What a request without an account can learn: the handlers behind the check, and from all
handlers together which requests are answered alike in all states. -/
namespace PcCourse.UserRequest

open SqlCall SqlText Outcome Grouping

/-- The check of a handler answers by more than the accounts, or it lets a request pass for a
row that its strings do not name, and what is behind it, with its fields read, answers. -/
def CheckDiscloses (c : Collation) (config : LuaValue) (ranks : List String) (reads : Prop) : Prop :=
  ∃ login password rank, credentials config = some (login, password, rank) ∧ rank ∈ ranks ∧
    (Evaluates login password rank ∨ (reads ∧ ¬Meant c login password rank))

section
variable {e : Engine} {k : Conditions} {c : Collation} {config : LuaValue} {ranks : List String}
  {db : Db} {login password rank : String}

end

/-- Strings without quotes and backslashes get no further than the check. -/
theorem not_checkDiscloses_of_plain {c : Collation} {config : LuaValue} {ranks : List String}
    {reads : Prop} (plain : hasPlainCredentials config = true) :
    ¬CheckDiscloses c config ranks reads := by
  rintro ⟨login,password,rank,strings,-,discloses⟩
  simp only [hasPlainCredentials, strings, Option.all_some, Bool.and_eq_true] at plain
  have read := parse_quoted (Procedure.isName_name .checkUserExists) (verbatim_of_plain plain) (by simp)
  simp only [List.map_cons, List.map_nil] at read
  rw [← checkText_eq] at read
  rcases discloses with ⟨name,x₁,x₂,x₃,parsed,evaluated⟩ | ⟨-,notMeant⟩
  · rw [read] at parsed
    cases parsed
    simp [isEvaluated, literal?] at evaluated
  · refine notMeant fun name x₁ x₂ x₃ parsed accepted => ?_
    rw [read] at parsed
    cases parsed
    simp only [isAccepted, read, isStorable, literal?, Bool.and_eq_true] at accepted
    have stored : ∀ {column text : String}, (text.toList.drop 64).all (· == ' ') = true →
        storeText 64 column text = .ok (String.ofList (text.toList.take 64)) :=
      fun blank => storeText_eq_ok.mpr ⟨blank, rfl⟩
    exact ⟨fun _ _ _ same => ⟨_, stored accepted.1.1, same⟩,
      fun _ _ _ same => ⟨_, stored accepted.1.2, same⟩, fun _ _ _ same => ⟨_, stored accepted.2, same⟩⟩

/-- The response is another one than a refusal. -/
def Answered (reply : Reply) : Prop := reply.response ≠ some (makeResponseStr "bad_config")

section
variable {e : Engine} {k : Conditions} {c : Collation} {config : LuaValue} {ranks : List String}
  {s : Session}

end

section
variable {c : Collation} {config : LuaValue} {name : String}

end

end PcCourse.UserRequest
