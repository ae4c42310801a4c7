import PcCourse.RowConversion
import PcCourse.RoundTrip

/-! What a listing handler answers: an error line, or the table of a query's result. -/
namespace PcCourse.UserRequest

open SqlCall RoundTrip

def resultTree (e : Engine) (it : Iteration) (set : ResultSet) (fields : List FieldAndType) : LuaValue :=
  .table [] (set.rows.map fun row => .table (it.order (selectedCells e set fields row)) [])

theorem selected_cell {e : Engine} {set : ResultSet} {fields : List FieldAndType}
    {row : List SqlValue} {field : FieldAndType} {index : Nat} {cell : SqlValue} {text : String}
    {value : LuaValue} (asked : field ∈ fields)
    (column : fieldNum (some set) field.fieldName = some index) (found : row[index]? = some cell)
    (written : e.text cell = some text) (read : field.type.read text = some value) :
    (field.fieldName, value) ∈ selectedCells e set fields row := by
  refine List.mem_filterMap.mpr ⟨field, asked, ?_⟩
  simp [column, cellOf, found, written, read]

section
variable {e : Engine} {k : Conditions} {config : LuaValue} {s : Session} {text : String}

theorem ran_query {p : Procedure} {args : List String} {db : Db} {effect : Engine.Effect}
    {set : ResultSet} (ran : Ran e p args db effect) (result : effect.result = some set) :
    ∃ q now, (Statement.query q).procedure = p ∧ set = q.run e.collation now db := by
  obtain ⟨at_,done⟩ := ran
  unfold Engine.exec at done
  split at done
  · cases done
  next q compiled =>
    cases done
    exact ⟨q, at_.now, Engine.compile_procedure compiled, (Option.some.inj result).symm⟩
  next u compiled =>
    split at done
    · cases done
    · cases done
      cases result

/-- A listing that answers has written the result of a query. -/
theorem listing_written {l : Listing} (distinct : (l.fields.map FieldAndType.fieldName).Nodup)
    {args : List String}
    (answered : (listing e k (callText l.procedure.name args) l.tableName l.fields s).response =
      some text) :
    ∃ q now, (Statement.query q).procedure = l.procedure ∧
      text = makeResponseStr "success" ++ luaConfSerialize
        (resultTree e k.iteration (q.run e.collation now s.db) l.fields) l.tableName 0 := by
  unfold listing invokeStoredProcedure at answered
  cases outcome : s.issue e k (callText l.procedure.name args) with
  | error fault => simp [outcome, Except.toOption, serializeQueryResult] at answered
  | ok effect =>
    simp only [outcome, Except.toOption, Option.bind_some, Option.map_eq_some_iff] at answered
    obtain ⟨table,written,rfl⟩ := answered
    cases result : effect.result with
    | none => simp [result, serializeQueryResult] at written
    | some set =>
      obtain ⟨q,now,named,rfl⟩ := ran_query (ran_of_issue outcome) result
      rw [result] at written
      refine ⟨q, now, named, ?_⟩
      rw [serializeQueryResult_eq distinct written]
      rfl

variable (e k config s) in
theorem check_line (ranks : List String) :
    (checkUserExistance e k config ranks s).1 = "" ∨
      ∃ message, (checkUserExistance e k config ranks s).1 = makeResponseStr message := by
  unfold checkUserExistance invokeStoredProcedure
  cases credentials config with
  | none => exact .inr ⟨_, rfl⟩
  | some user =>
    dsimp only
    split
    next => exact .inr ⟨_, rfl⟩
    next =>
      split
      next => exact .inr ⟨_, rfl⟩
      next effect _ =>
        cases effect.result.bind fun res => res.rows.head?.bind List.head? with
        | none => exact .inr ⟨_, rfl⟩
        | some cell =>
          dsimp only
          split
          next => exact .inr ⟨_, rfl⟩
          next => exact .inl rfl

theorem guarded_written {ranks : List String} {body : Session → Reply}
    (answered : (guarded e k ranks config s body).response = some text) :
    (∃ message, text = makeResponseStr message) ∨
      ∃ s', s'.db = s.db ∧ (body s').response = some text := by
  rcases guarded_cases e k config ranks s body with ⟨str,some_,check,same⟩ | ⟨-,same⟩
  · rw [same] at answered
    cases answered
    rcases check_line e k config s ranks with empty | line
    · exact absurd (check.trans empty) some_
    · exact .inl (check ▸ line)
  · rw [same] at answered
    exact .inr ⟨_, check_db, answered⟩

theorem reading_written {α : Type} {fields : Option α} {body : α → Reply}
    (answered : (reading fields s body).response = some text) :
    (∃ message, text = makeResponseStr message) ∨ ∃ values, (body values).response = some text := by
  cases fields with
  | none => exact .inl ⟨_, (Option.some.inj answered).symm⟩
  | some values => exact .inr ⟨values, answered⟩

theorem handler_listing {l : Listing} (registered : l ∈ listings) {func : LuaValue → Session → Reply}
    (found : (requests e k).lookup l.request = some func)
    (answered : (func config s).response = some text) :
    (∃ message, text = makeResponseStr message) ∨ ∃ s' args, s'.db = s.db ∧
      (listing e k (callText l.procedure.name args) l.tableName l.fields s').response = some text := by
  simp only [listings, List.mem_cons, List.not_mem_nil, or_false] at registered
  rcases registered with rfl | rfl | rfl | rfl | rfl | rfl | rfl | rfl | rfl | rfl | rfl
  all_goals cases found
  · rcases guarded_written answered with line | ⟨s',same,behind⟩
    · exact .inl line
    · exact .inr ⟨s', [], same, behind⟩
  · exact .inr ⟨s, [], rfl, answered⟩
  · exact .inr ⟨s, [], rfl, answered⟩
  · exact .inr ⟨s, [], rfl, answered⟩
  · rcases reading_written answered with line | ⟨id,behind⟩
    · exact .inl line
    · exact .inr ⟨s, [toString id], rfl, behind⟩
  · exact .inr ⟨s, [], rfl, answered⟩
  · exact .inr ⟨s, [], rfl, answered⟩
  · exact .inr ⟨s, [], rfl, answered⟩
  · rcases guarded_written answered with line | ⟨s',same,behind⟩
    · exact .inl line
    · exact .inr ⟨s', [], same, behind⟩
  · rcases reading_written answered with line | ⟨dates,behind⟩
    · exact .inl line
    · exact .inr ⟨s, dates, rfl, behind⟩
  · rcases reading_written answered with line | ⟨dates,behind⟩
    · exact .inl line
    · exact .inr ⟨s, dates, rfl, behind⟩

/-- What a listing handler answers is an error line, or the table of a result. -/
theorem handler_answered {l : Listing} (registered : l ∈ listings)
    {func : LuaValue → Session → Reply} (found : (requests e k).lookup l.request = some func)
    (answered : (func config s).response = some text) :
    (∃ message, text = makeResponseStr message) ∨
      ∃ q now, (Statement.query q).procedure = l.procedure ∧
        text = makeResponseStr "success" ++ luaConfSerialize
          (resultTree e k.iteration (q.run e.collation now s.db) l.fields) l.tableName 0 := by
  have distinct : ∀ l ∈ listings, (l.fields.map FieldAndType.fieldName).Nodup := by decide
  rcases handler_listing registered found answered with line | ⟨s',args,same,listed⟩
  · exact .inl line
  · rw [← same]
    exact .inr (listing_written (distinct l registered) listed)

/-- A table is no error line: it ends with its bracket. -/
theorem table_ne_line (named : LuaFields) (array : List LuaValue) (name : String) (tabs : Nat)
    (before message : String) :
    before ++ luaConfSerialize (.table named array) name tabs ≠ makeResponseStr message := by
  intro same
  have last := congrArg (fun text => text.toList.getLast?) same
  rw [luaConfSerialize, makeResponseStr] at last
  have bracket : "\x7d".toList.getLast? = some '\x7d' := rfl
  have newline : "'\n".toList.getLast? = some '\n' := rfl
  simp only [String.toList_append, List.getLast?_append, bracket, newline, Option.some_or] at last
  exact absurd last (by decide)

theorem listing_ne_line {l : Listing} (distinct : (l.fields.map FieldAndType.fieldName).Nodup)
    {args : List String}
    (answered : (listing e k (callText l.procedure.name args) l.tableName l.fields s).response =
      some text) (message : String) : text ≠ makeResponseStr message := by
  obtain ⟨q,now,-,rfl⟩ := listing_written distinct answered
  exact table_ne_line _ _ _ _ _ _

end

def itemListing : Listing :=
  ⟨"get_items", .getItems, "items", [⟨"id", .int, true⟩, ⟨"name", .string, true⟩,
    ⟨"cost", .number, true⟩, ⟨"count_on_warehouse", .int, true⟩, ⟨"distributor", .string, true⟩,
    ⟨"type", .string, true⟩, ⟨"description", .string, true⟩]⟩

theorem itemListing_registered : itemListing ∈ listings := by
  simp [itemListing, listings]

end PcCourse.UserRequest
