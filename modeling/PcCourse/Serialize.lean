import PcCourse.Engine
import PcCourse.LuaValue

/-! The texts the server answers with: `make_response_str`, `LuaConfSerialize` and the
conversion of result sets. A failed assertion is `none`. -/
namespace PcCourse

def makeResponseStr (responseMsg : String) : String := "response = '" ++ responseMsg ++ "'\n"

def quotedChars : List Char → List Char
  | [] => []
  | c :: cs => if c = '"' ∨ c = '\\' then '\\' :: c :: quotedChars cs else c :: quotedChars cs

def quotedStr (s : String) : String := String.ofList ('"' :: quotedChars s.toList ++ ['"'])

def writeTabs (tabs : Nat) : String := String.ofList (List.replicate tabs '\t')

def LuaValue.leafText : LuaValue → String
  | .bool b => if b then "true" else "false"
  | .int n => toString n
  | .number d => d.ostream
  | .str s => quotedStr s
  | _ => "nil"

/-- `LuaConfSerialize` writes no functions. -/
def LuaValue.isWritten : LuaValue → Bool
  | .function => false
  | _ => true

mutual
def luaConfSerialize : LuaValue → String → Nat → String
  | .function, _, _ => ""
  | .table named array, name, tabs =>
    (if name = "" then "" else writeTabs tabs ++ name ++ " =\n") ++ writeTabs tabs ++ "\x7b\n" ++
      ",\n".intercalate (serializeNamed named (tabs + 1) ++ serializeArray array (tabs + 1)) ++
      "\n" ++ writeTabs tabs ++ "\x7d"
  | leaf, name, tabs => writeTabs tabs ++ (if name = "" then "" else name ++ " = ") ++ leaf.leafText
termination_by structural ref => ref

def serializeNamed : List (String × LuaValue) → Nat → List String
  | [], _ => []
  | field :: rest, tabs => serializeField field tabs ++ serializeNamed rest tabs
termination_by structural fields => fields

def serializeField : String × LuaValue → Nat → List String
  | (key, value), tabs => if value.isWritten then [luaConfSerialize value key tabs] else []
termination_by structural field => field

def serializeArray : List LuaValue → Nat → List String
  | [], _ => []
  | value :: rest, tabs =>
    (if value.isWritten then [luaConfSerialize value "" tabs] else []) ++ serializeArray rest tabs
termination_by structural values => values
end

inductive VMType where
  | bool | int | number | string
  deriving DecidableEq, Repr

structure FieldAndType where
  fieldName : String
  type : VMType
  denyNull : Bool := true
  deriving DecidableEq, Repr

def fromCharsInt (text : String) : Option Int :=
  (Numeral.signed? text.toList).filter fun n => int64Min ≤ n ∧ n ≤ int64Max

/-- The value of a cell, by the type of its field. -/
def VMType.read : VMType → String → Option LuaValue
  | .bool, text => (fromCharsInt text).map fun n => .bool (n ≠ 0)
  | .int, text => (fromCharsInt text).map .int
  | .number, text => (Numeral.signedDecimal? text.toList).map .number
  | .string, text => some (.str text)

/-- The order in which iterating over a table yields its fields. -/
structure Iteration where
  order : LuaFields → LuaFields
  perm : ∀ fields, (order fields).Perm fields

def Iteration.insertion : Iteration := ⟨id, fun _ => .refl _⟩

/-- `field_num`: a failed query has no fields. -/
def fieldNum (res : Option ResultSet) (name : String) : Option Nat :=
  res.bind fun set => set.fields.findIdx? (· == name)

/-- The fields of the table a row becomes. -/
def rowFields (e : Engine) (row : List SqlValue) : LuaFields → List (FieldAndType × Nat) → Option LuaFields
  | item, [] => some item
  | item, (field, index) :: rest =>
    match row[index]? with
    | none => none
    | some cell =>
      match e.text cell with
      | none => if field.denyNull then none else rowFields e row item rest
      | some text =>
        match field.type.read text with
        | none => none
        | some value => rowFields e row (item.set field.fieldName value) rest

def serializeQueryResult (e : Engine) (it : Iteration) (res : Option ResultSet) (tableName : String)
    (fields : List FieldAndType) : Option String := do
  let indices ← fields.mapM fun field => fieldNum res field.fieldName
  let set ← res
  let items ← set.rows.mapM fun row => rowFields e row [] (fields.zip indices)
  return luaConfSerialize (.table [] (items.map fun item => .table (it.order item) [])) tableName 0

/-- `serialize_one_query_result`. `nullData` is what the database library keeps as the data
of a NULL cell. -/
def serializeOneQueryResult (e : Engine) (res : Option ResultSet) (field : FieldAndType)
    (nullData : String := "NULL") : Option String := do
  let index ← fieldNum res field.fieldName
  let row ← res.bind fun set => set.rows.head?
  let cell ← row[index]?
  let text ←
    match e.text cell with
    | none => if field.denyNull then none else some nullData
    | some text => some text
  let ref ← field.type.read text
  return luaConfSerialize ref field.fieldName 0

example : luaConfSerialize (.table [("a", .int 1), ("f", .function)] [.bool true]) "t" 0 =
    "t =\n\x7b\n\ta = 1,\n\ttrue\n\x7d" := by decide

end PcCourse
