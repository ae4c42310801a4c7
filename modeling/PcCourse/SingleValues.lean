import PcCourse.StoredText

/-! The two serializers of query results: what the single value of a row is written as, and
what the table of that row holds for it. -/
namespace PcCourse

open RoundTrip StoredText

def rowTables (e : Engine) (res : Option ResultSet) (fields : List FieldAndType) :
    Option (List LuaFields) := do
  let indices ← fields.mapM fun field => fieldNum res field.fieldName
  let set ← res
  set.rows.mapM fun row => rowFields e row [] (fields.zip indices)

theorem serializeQueryResult_eq_map (e : Engine) (it : Iteration) (res : Option ResultSet)
    (tableName : String) (fields : List FieldAndType) :
    serializeQueryResult e it res tableName fields = (rowTables e res fields).map fun items =>
      luaConfSerialize (.table [] (items.map fun item => .table (it.order item) [])) tableName 0 := by
  unfold serializeQueryResult rowTables
  cases fields.mapM fun field => fieldNum res field.fieldName with
  | none => rfl
  | some indices =>
    cases res with
    | none => rfl
    | some set =>
      simp only [Option.bind_eq_bind, Option.bind_some]
      cases set.rows.mapM fun row => rowFields e row [] (fields.zip indices) <;> rfl

/-- The text for a field of a table; a field it does not have has none. -/
def fieldAssignment (name : String) : Option LuaValue → String
  | none => ""
  | some value => luaConfSerialize value name 0

/-- The single-value serializer writes what the table serializer put into the row it
wrote. -/
def SerializersAgree (e : Engine) (it : Iteration) (set : ResultSet) (fields : List FieldAndType)
    (field : FieldAndType) (nullData tableName text : String) : Prop :=
  ∃ item, rowTables e (some set) fields = some [item] ∧
    text = luaConfSerialize (.table [] [.table (it.order item) []]) tableName 0 ∧
    serializeOneQueryResult e (some set) field nullData =
      some (fieldAssignment field.fieldName (item.lookup field.fieldName))

def IsNull (e : Engine) (set : ResultSet) (row : List SqlValue) (field : FieldAndType) : Prop :=
  ∃ index cell, fieldNum (some set) field.fieldName = some index ∧ row[index]? = some cell ∧
    e.text cell = none

section
variable {e : Engine} {row : List SqlValue} {field : FieldAndType} {index : Nat}
  {item result : LuaFields} {others : List (FieldAndType × Nat)}

theorem lookup_set_other {named : LuaFields} {key name : String} {value : LuaValue}
    (other : name ≠ key) (some_ : value ≠ .nil) :
    (named.set key value).lookup name = named.lookup name := by
  have unequal : (name == key) = false := by simpa using other
  have replaced : ∀ fields : LuaFields,
      (fields.map fun field => if field.1 = key then (key, value) else field).lookup name =
        fields.lookup name := by
    intro fields
    induction fields with
    | nil => rfl
    | cons field rest ih =>
      by_cases same : field.1 = key
      · have skipped : (name == field.1) = false := same ▸ unequal
        rw [List.map_cons, if_pos same, List.lookup_cons, List.lookup_cons, unequal, skipped]
        exact ih
      · rw [List.map_cons, if_neg same, List.lookup_cons, List.lookup_cons, ih]
  unfold LuaFields.set
  split
  · exact absurd rfl some_
  · split
    · exact replaced named
    · simp [List.lookup_append, List.lookup_cons, unequal]

theorem ostream_ne_nil (d : Decimal) : d.ostream.toList ≠ [] := by
  intro empty
  obtain ⟨number,read,-⟩ := DecimalText.ostream_denotes d
  rw [empty] at read
  cases read

theorem leafText_ne_nil {type : VMType} {text : String} {value : LuaValue}
    (read : type.read text = some value) : value.leafText.toList ≠ [] := by
  cases type with
  | bool =>
    obtain ⟨n,-,rfl⟩ := Option.map_eq_some_iff.mp read
    cases decide (n ≠ 0) <;> simp [LuaValue.leafText]
  | int =>
    obtain ⟨n,-,rfl⟩ := Option.map_eq_some_iff.mp read
    intro empty
    have numeral := Numeral.signed?_ofInt n
    rw [← Numeral.toList_toString, show (toString n).toList = [] from empty] at numeral
    cases numeral
  | number =>
    obtain ⟨d,-,rfl⟩ := Option.map_eq_some_iff.mp read
    exact ostream_ne_nil d
  | string =>
    cases read
    simp [LuaValue.leafText, quotedStr]

theorem read_written {type : VMType} {text : String} {value : LuaValue} (name : String)
    (read : type.read text = some value) : luaConfSerialize value name 0 ≠ "" := by
  intro empty
  have chars := congrArg String.toList (((isLeaf_read read).2 name 0).symm.trans empty)
  simp only [String.toList_append, String.toList_empty, List.append_eq_nil_iff] at chars
  exact leafText_ne_nil read chars.2

theorem cellOf_eq_some {cell : String × LuaValue} : cellOf e row (field, index) = some cell ↔
    ∃ value text, row[index]? = some value ∧ e.text value = some text ∧
      field.type.read text = some cell.2 ∧ cell.1 = field.fieldName := by
  obtain ⟨name,value⟩ := cell
  simp only [cellOf, Option.bind_eq_bind, Option.bind_eq_some_iff, Option.pure_def, Option.some.injEq,
    Prod.mk.injEq]
  constructor
  · rintro ⟨cell,found,text,isText,value',read,rfl,rfl⟩
    exact ⟨cell, text, found, isText, read, rfl⟩
  · rintro ⟨cell,text,found,isText,read,rfl⟩
    exact ⟨cell, found, text, isText, value, read, rfl, rfl⟩

theorem cellOf_ne_nil {name : String} {value : LuaValue}
    (cell : cellOf e row (field, index) = some (name, value)) : value ≠ .nil := by
  obtain ⟨_,_,-,-,read,-⟩ := cellOf_eq_some.mp cell
  exact read_ne_nil read

theorem rowFields_cons (done : rowFields e row item ((field, index) :: others) = some result) :
    (∃ cell, row[index]? = some cell ∧ e.text cell = none ∧ field.denyNull = false ∧
      rowFields e row item others = some result) ∨
    ∃ value, cellOf e row (field, index) = some (field.fieldName, value) ∧
      rowFields e row (item.set field.fieldName value) others = some result := by
  rw [rowFields] at done
  split at done
  · cases done
  next cell found =>
    split at done
    next isNull =>
      split at done
      · cases done
      next allowed => exact .inl ⟨cell, found, isNull, Bool.eq_false_iff.mpr allowed, done⟩
    next text isText =>
      split at done
      · cases done
      next value read =>
        exact .inr ⟨value, cellOf_eq_some.mpr ⟨cell, text, found, isText, read, rfl⟩, done⟩

theorem rowFields_omits (done : rowFields e row item others = some result)
    (mine : ∀ p ∈ others, p.1.fieldName = field.fieldName → p = (field, index))
    (empty : cellOf e row (field, index) = none) :
    result.lookup field.fieldName = item.lookup field.fieldName := by
  induction others generalizing item with
  | nil => cases done; rfl
  | cons other rest ih =>
    obtain ⟨f,i⟩ := other
    rw [List.forall_mem_cons] at mine
    rcases rowFields_cons done with ⟨-,-,-,-,later⟩ | ⟨value,cell,later⟩
    · exact ih later mine.2
    · rw [ih later mine.2, lookup_set_other ?_ (cellOf_ne_nil cell)]
      intro same
      cases mine.1 same.symm
      rw [empty] at cell
      cases cell

theorem rowFields_keeps {value : LuaValue} (done : rowFields e row item others = some result)
    (mine : ∀ p ∈ others, p.1.fieldName = field.fieldName → p = (field, index))
    (cell : cellOf e row (field, index) = some (field.fieldName, value))
    (given : (field, index) ∈ others ∨ item.lookup field.fieldName = some value) :
    result.lookup field.fieldName = some value := by
  induction others generalizing item with
  | nil =>
    cases done
    exact given.resolve_left List.not_mem_nil
  | cons other rest ih =>
    obtain ⟨f,i⟩ := other
    rw [List.forall_mem_cons] at mine
    rcases rowFields_cons done with ⟨cell',found,isNull,-,later⟩ | ⟨value',assigned,later⟩
    · refine ih later mine.2 (given.imp_left fun member => ?_)
      rcases List.mem_cons.mp member with same | member
      · cases same
        simp [cellOf, found, isNull] at cell
      · exact member
    · refine ih later mine.2 ?_
      by_cases same : f.fieldName = field.fieldName
      · cases mine.1 same
        cases assigned.symm.trans cell
        exact .inr (lookup_set (cellOf_ne_nil cell))
      · rw [lookup_set_other (Ne.symm same) (cellOf_ne_nil assigned)]
        refine given.imp_left fun member => ?_
        rcases List.mem_cons.mp member with head | member
        · cases head
          exact absurd rfl same
        · exact member

/-- A field whose row was converted has a cell, NULL only where that is allowed, with a text
of its type. -/
theorem rowFields_reads (done : rowFields e row item others = some result)
    (member : (field, index) ∈ others) : ∃ cell, row[index]? = some cell ∧
      ((e.text cell = none ∧ field.denyNull = false) ∨
        ∃ text value, e.text cell = some text ∧ field.type.read text = some value) := by
  induction others generalizing item with
  | nil => cases member
  | cons other rest ih =>
    obtain ⟨f,i⟩ := other
    rcases rowFields_cons done with ⟨cell,found,isNull,allowed,later⟩ | ⟨value,assigned,later⟩
    · rcases List.mem_cons.mp member with head | member
      · cases head
        exact ⟨cell, found, .inl ⟨isNull, allowed⟩⟩
      · exact ih later member
    · rcases List.mem_cons.mp member with head | member
      · cases head
        obtain ⟨cell,text,found,isText,read,-⟩ := cellOf_eq_some.mp assigned
        exact ⟨cell, found, .inr ⟨text, value, isText, read⟩⟩
      · exact ih later member

end

section
variable {e : Engine} {it : Iteration} {names : List String} {row : List SqlValue}
  {fields : List FieldAndType} {field : FieldAndType} {tableName text nullData : String}

theorem one_row (member : field ∈ fields)
    (ran : serializeQueryResult e it (some ⟨names, [row]⟩) tableName fields = some text) :
    ∃ item indices index, rowTables e (some ⟨names, [row]⟩) fields = some [item] ∧
      rowFields e row [] (fields.zip indices) = some item ∧
      text = luaConfSerialize (.table [] [.table (it.order item) []]) tableName 0 ∧
      fieldNum (some ⟨names, [row]⟩) field.fieldName = some index ∧ (field, index) ∈ fields.zip indices ∧
      ∀ p ∈ fields.zip indices, p.1 ∈ fields ∧
        fieldNum (some ⟨names, [row]⟩) p.1.fieldName = some p.2 := by
  rw [serializeQueryResult_eq_map] at ran
  obtain ⟨items,tables,rfl⟩ := Option.map_eq_some_iff.mp ran
  have filled := tables
  simp only [rowTables, Option.bind_eq_bind, Option.bind_some, Option.bind_eq_some_iff,
    Outcome.mapM_eq_some] at filled
  obtain ⟨indices,found,rows⟩ := filled
  cases rows with
  | cons converted none_ =>
    cases none_
    have places := List.forall₂_iff_zip.mp found
    have listed : (fields.zip indices).map Prod.fst = fields := List.map_fst_zip found.length_eq.le
    obtain ⟨⟨_,index⟩,inside,rfl⟩ := List.mem_map.mp (listed.symm ▸ member)
    refine ⟨_, indices, index, tables, converted, rfl, places.2 inside, inside,
      fun p at_ => ⟨?_, places.2 at_⟩⟩
    exact listed ▸ List.mem_map_of_mem at_

section
variable {index : Nat} {cell : SqlValue}
  (found : fieldNum (some ⟨names, [row]⟩) field.fieldName = some index) (at_ : row[index]? = some cell)

include found at_

/-- The guard for NULL lets a nullable cell through to the conversion. -/
theorem single_null (isNull : e.text cell = none) (allowed : field.denyNull = false) :
    serializeOneQueryResult e (some ⟨names, [row]⟩) field nullData =
      (field.type.read nullData).map fun value => luaConfSerialize value field.fieldName 0 := by
  simp only [serializeOneQueryResult, found, at_, isNull, allowed, Option.bind_eq_bind, Option.bind_some,
    List.head?_cons, Bool.false_eq_true, if_false]
  cases field.type.read nullData <;> rfl

theorem single_text {value : LuaValue} (isText : e.text cell = some text)
    (read : field.type.read text = some value) :
    serializeOneQueryResult e (some ⟨names, [row]⟩) field nullData =
      some (luaConfSerialize value field.fieldName 0) := by
  simp only [serializeOneQueryResult, found, at_, isText, read, Option.bind_eq_bind, Option.bind_some,
    List.head?_cons, Option.pure_def]

end

theorem serializers_agree_iff (member : field ∈ fields)
    (single : ∀ other ∈ fields, other.fieldName = field.fieldName → other = field)
    (ran : serializeQueryResult e it (some ⟨names, [row]⟩) tableName fields = some text) :
    SerializersAgree e it ⟨names, [row]⟩ fields field nullData tableName text ↔
      ¬(IsNull e ⟨names, [row]⟩ row field ∧ field.denyNull = false) := by
  obtain ⟨item,indices,index,tables,converted,written,found,inside,places⟩ := one_row member ran
  have mine : ∀ p ∈ fields.zip indices, p.1.fieldName = field.fieldName → p = (field, index) := by
    intro p listed same
    obtain ⟨other,at_⟩ := places p listed
    have this := single p.1 other same
    rw [this, found] at at_
    exact Prod.ext this (Option.some.inj at_).symm
  have agree : SerializersAgree e it ⟨names, [row]⟩ fields field nullData tableName text ↔
      serializeOneQueryResult e (some ⟨names, [row]⟩) field nullData =
        some (fieldAssignment field.fieldName (item.lookup field.fieldName)) := by
    constructor
    · rintro ⟨item',tables',-,same⟩
      cases tables.symm.trans tables'
      exact same
    · exact fun same => ⟨item, tables, written, same⟩
  rw [agree]
  obtain ⟨cell,at_,⟨isNull,allowed⟩ | ⟨text',value,isText,read⟩⟩ := rowFields_reads converted inside
  · -- the row omits the field, while the other serializer writes the data of its cell
    have omitted : item.lookup field.fieldName = none :=
      rowFields_omits converted mine (by simp [cellOf, at_, isNull])
    have nulls : IsNull e ⟨names, [row]⟩ row field := ⟨index, cell, found, at_, isNull⟩
    rw [single_null found at_ isNull allowed, omitted]
    refine iff_of_false (fun same => ?_) (not_not_intro ⟨nulls, allowed⟩)
    obtain ⟨value,read,empty⟩ := Option.map_eq_some_iff.mp same
    exact read_written field.fieldName read empty
  · have kept : item.lookup field.fieldName = some value :=
      rowFields_keeps converted mine (cellOf_eq_some.mpr ⟨cell, text', at_, isText, read, rfl⟩)
        (.inl inside)
    have filled : ¬IsNull e ⟨names, [row]⟩ row field := by
      rintro ⟨index',cell',found',at',isNull⟩
      cases found.symm.trans found'
      cases at_.symm.trans at'
      rw [isText] at isNull
      cases isNull
    rw [single_text found at_ isText read, kept]
    exact iff_of_true rfl fun both => filled both.1

end

/-- The income of a report, next to a column that is not asked for. -/
theorem income_serialized_alike :
    let set : ResultSet := ⟨["period", "income"], [[.int 7, .double ⟨25009, -2⟩]]⟩
    serializeQueryResult .standard .insertion (some set) "report" [⟨"income", .number, true⟩] =
      some "report =\n\x7b\n\t\x7b\n\t\tincome = 250.09\n\t\x7d\n\x7d" ∧
    SerializersAgree .standard .insertion set [⟨"income", .number, true⟩] ⟨"income", .number, true⟩
      "NULL" "report" "report =\n\x7b\n\t\x7b\n\t\tincome = 250.09\n\t\x7d\n\x7d" := by
  have ran : serializeQueryResult .standard .insertion
      (some ⟨["period", "income"], [[.int 7, .double ⟨25009, -2⟩]]⟩) "report" [⟨"income", .number, true⟩] =
        some "report =\n\x7b\n\t\x7b\n\t\tincome = 250.09\n\t\x7d\n\x7d" := by
    decide +kernel
  exact ⟨ran, (serializers_agree_iff List.mem_cons_self (by simp) ran).mpr (by simp)⟩

/-- A NULL that is allowed: the table omits the field, the single value of a number fails
an assertion, and that of a text is the data of the cell. -/
theorem null_serialized_differently :
    let set : ResultSet := ⟨["income"], [[.null]]⟩
    let empty := "report =\n\x7b\n\t\x7b\n\n\t\x7d\n\x7d"
    (serializeQueryResult .standard .insertion (some set) "report" [⟨"income", .number, false⟩] = some empty ∧
      serializeOneQueryResult .standard (some set) ⟨"income", .number, false⟩ "NULL" = none ∧
      ¬SerializersAgree .standard .insertion set [⟨"income", .number, false⟩] ⟨"income", .number, false⟩
        "NULL" "report" empty) ∧
    serializeQueryResult .standard .insertion (some set) "report" [⟨"income", .string, false⟩] = some empty ∧
      serializeOneQueryResult .standard (some set) ⟨"income", .string, false⟩ "NULL" =
        some "income = \"NULL\"" ∧
      ¬SerializersAgree .standard .insertion set [⟨"income", .string, false⟩] ⟨"income", .string, false⟩
        "NULL" "report" empty := by
  refine ⟨⟨by decide, by decide, ?_⟩, by decide, by decide, ?_⟩
  all_goals
    rintro ⟨item,tables,-,same⟩
    cases tables
    revert same
    decide

end PcCourse
