import PcCourse.CheckReading
import PcCourse.NumberCalls
import PcCourse.RowConversion

/-! Handlers without a check: which of them answer alike in all states with the same ranks,
distributors and types, whoever asks. -/
namespace PcCourse.UserRequest

open SqlCall SqlText Outcome Grouping

section
variable {c : Collation} {config : LuaValue} {e : Engine} {k : Conditions} {db : Db} {sql : String}

theorem makeResponseStr_inj {m m' : String} (same : makeResponseStr m = makeResponseStr m') : m = m' := by
  simp only [makeResponseStr] at same
  have chars := congrArg String.toList same
  simp only [String.toList_append, List.append_assoc, List.append_cancel_left_eq,
    List.append_cancel_right_eq] at chars
  exact String.toList_inj.mp chars

end

section
variable {e : Engine} {it : Iteration} {tableName : String} {fields : List FieldAndType}
  {names : List String}

end

section
variable {c : Collation} {config : LuaValue} {p : Procedure} {q : Query} {tableName : String}
  {fields : List FieldAndType} {names : List String}

end

section
variable {c : Collation} {config : LuaValue} {start end_ : Option Int}

end

end PcCourse.UserRequest
