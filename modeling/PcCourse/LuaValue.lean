import PcCourse.Decimal

/-! Lua values as the server and the client exchange them: the fields of a table under
string keys, in the order an iteration yields them, and its array part. -/
namespace PcCourse

inductive LuaValue where
  | nil
  | bool (b : Bool)
  | int (n : Int)
  | number (d : Decimal)
  | str (s : String)
  | function
  | table (named : List (String × LuaValue)) (array : List LuaValue)
  deriving Repr, BEq

/-- The range of `DataType::Int`. -/
def int64Min : Int := -9223372036854775808
def int64Max : Int := 9223372036854775807

abbrev LuaFields := List (String × LuaValue)

/-- Assignment to a field: nil removes it, a field that exists keeps its place. -/
def LuaFields.set (named : LuaFields) (key : String) (value : LuaValue) : LuaFields :=
  match value with
  | .nil => named.filter fun field => field.1 ≠ key
  | value =>
    if named.any (fun field => field.1 = key) then
      named.map fun field => if field.1 = key then (key, value) else field
    else named ++ [(key, value)]

namespace LuaValue

/-- A field of a table. Anything but a table has no fields to read, which raises. -/
def getRawRef (key : String) : LuaValue → Option LuaValue
  | .table named _ => some ((named.lookup key).getD .nil)
  | _ => none

def getRawRefAt (i : Nat) : LuaValue → Option LuaValue
  | .table _ array => some (array[i - 1]?.getD .nil)
  | _ => none

def getLength : LuaValue → Option Nat
  | .table _ array => some array.length
  | _ => none

/-- `GetRaw<std::string>(key).value()`, with `none` for its exception. -/
def getRawString (key : String) (ref : LuaValue) : Option String :=
  match ref.getRawRef key with
  | some (.str s) => some s
  | _ => none

def getRawInt (key : String) (ref : LuaValue) : Option Int :=
  match ref.getRawRef key with
  | some (.int n) => some n
  | _ => none

/-- A number; an integer is one as well. -/
def getRawNumber (key : String) (ref : LuaValue) : Option Decimal :=
  match ref.getRawRef key with
  | some (.number d) => some d
  | some (.int n) => some (.ofInt n)
  | _ => none

end LuaValue
end PcCourse
