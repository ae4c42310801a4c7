import PcCourse.ListingTexts
import PcCourse.DecimalText
import Mathlib.Tactic.NormNum

/-! Money in the responses: what `LuaConfSerialize` writes for the doubles of a report. -/
namespace PcCourse.UserRequest

open SqlCall DecimalText RoundTrip

/-- The texts of doubles from the database are exact up to 15 significant digits. -/
def ExactTexts (e : Engine) : Prop :=
  ∀ d : Decimal, HasDigits 15 d.value → Denotes (e.doubleText d).toList d.value

def moneyRequests : List String := ["get_order_items", "get_items", "get_statistics"]

/-- What is written for a number denotes the value if and only if the value has at most six
significant digits. -/
def WrittenWithinSix (number : Decimal) (x : ℚ) : Prop :=
  Denotes (LuaValue.number number).leafText.toList x ↔ HasDigits 6 x

section
variable {e : Engine}

theorem number_written (exact : ExactTexts e) {d : Decimal} (small : HasDigits 15 d.value) :
    ∃ number, VMType.number.read (e.doubleText d) = some (.number number) ∧
      WrittenWithinSix number d.value := by
  obtain ⟨number,read,same⟩ := exact d small
  refine ⟨number, by rw [VMType.read, read]; rfl, ?_⟩
  rw [WrittenWithinSix, ← same]
  exact ostream_exact_iff number

structure ListsDoubles (set : ResultSet) (fields : List FieldAndType) : Prop where
  columns : ∀ field ∈ fields, field.type = .number → field.fieldName ∈ set.fields
  cells : ∀ row ∈ set.rows, ∀ field ∈ fields, field.type = .number →
    ∃ d, row[set.fields.idxOf field.fieldName]? = some (.double d)

theorem ListsDoubles.of_map {α : Type} {xs : List α} {row : α → List SqlValue} {names : List String}
    {fields : List FieldAndType}
    (columns : ∀ field ∈ fields, field.type = .number → field.fieldName ∈ names)
    (cells : ∀ x, ∀ field ∈ fields, field.type = .number →
      ∃ d, (row x)[names.idxOf field.fieldName]? = some (.double d)) :
    ListsDoubles ⟨names, xs.map row⟩ fields := by
  refine ⟨columns, fun cellsOf member => ?_⟩
  obtain ⟨x,-,rfl⟩ := List.mem_map.mp member
  exact cells x

theorem query_doubles {l : Listing} (registered : l ∈ listings) (money : l.request ∈ moneyRequests)
    {q : Query} (named : (Statement.query q).procedure = l.procedure) (c : Collation) (now : Int)
    (db : Db) : ListsDoubles (q.run c now db) l.fields := by
  simp only [listings, List.mem_cons, List.not_mem_nil, or_false] at registered
  rcases registered with rfl | rfl | rfl | rfl | rfl | rfl | rfl | rfl | rfl | rfl | rfl
  case inr.inr.inr.inr.inl =>
    cases q with
    | getOrderItems id =>
      refine .of_map (by decide) fun line => ?_
      simp only [List.forall_mem_cons]
      exact ⟨VMType.noConfusion, VMType.noConfusion, VMType.noConfusion, fun _ => ⟨_, rfl⟩,
        VMType.noConfusion, VMType.noConfusion, fun _ => ⟨_, rfl⟩, List.forall_mem_nil _⟩
    | _ => cases named
  case inr.inr.inr.inr.inr.inl =>
    cases q with
    | getItems =>
      refine .of_map (by decide) fun line => ?_
      simp only [List.forall_mem_cons]
      exact ⟨VMType.noConfusion, VMType.noConfusion, fun _ => ⟨_, rfl⟩, VMType.noConfusion,
        VMType.noConfusion, VMType.noConfusion, VMType.noConfusion, List.forall_mem_nil _⟩
    | _ => cases named
  case inr.inr.inr.inr.inr.inr.inr.inr.inr.inr =>
    cases q with
    | getSellsStatiscticsByDistributors start end_ =>
      refine .of_map (by decide) fun group => ?_
      simp only [List.forall_mem_cons]
      exact ⟨fun _ => ⟨_, rfl⟩, VMType.noConfusion, VMType.noConfusion, List.forall_mem_nil _⟩
    | _ => cases named
  all_goals exact absurd money (by decide)

end

section
variable {e : Engine} {k : Conditions} {config : LuaValue} {s : Session} {text : String}

/-- The cells of a row with money are doubles, and those of at most 15 digits are written
as they are if and only if they have at most six. -/
def MoneyWritten (e : Engine) (set : ResultSet) (fields : List FieldAndType) (row : List SqlValue) :
    Prop :=
  ∀ field ∈ fields, field.type = .number → ∃ d,
    row[set.fields.idxOf field.fieldName]? = some (.double d) ∧
    (HasDigits 15 d.value → ∃ number,
      (field.fieldName, .number number) ∈ selectedCells e set fields row ∧
      WrittenWithinSix number d.value)

theorem rows_money (exact : ExactTexts e) {l : Listing} (registered : l ∈ listings)
    (money : l.request ∈ moneyRequests) {q : Query}
    (named : (Statement.query q).procedure = l.procedure) {c : Collation} {now : Int} {db : Db}
    {row : List SqlValue} (member : row ∈ (q.run c now db).rows) :
    MoneyWritten e (q.run c now db) l.fields row := by
  have doubles := query_doubles registered money named c now db
  intro field asked isNumber
  obtain ⟨d,cell⟩ := doubles.cells row member field asked isNumber
  refine ⟨d, cell, fun small => ?_⟩
  obtain ⟨number,read,exactly⟩ := number_written exact small
  rw [← isNumber] at read
  exact ⟨number, selected_cell asked (fieldNum_eq (doubles.columns field asked isNumber)) cell rfl read,
    exactly⟩

theorem income_money (exact : ExactTexts e) {args : List String}
    (answered : (invokeStoredProcedure e k (callText "GetIncome" args) (fun outcome s =>
      (⟨(serializeOneQueryResult e (outcome.toOption.bind Engine.Effect.result)
        ⟨"income", .number, true⟩).map (makeResponseStr "success" ++ ·), s⟩ : Reply)) s).response =
      some text) :
    ∃ start end_ d, PcCourse.getIncome start end_ s.db = ⟨["income"], [[.double d]]⟩ ∧
      (HasDigits 15 d.value → ∃ number,
        text = makeResponseStr "success" ++ luaConfSerialize (.number number) "income" 0 ∧
        WrittenWithinSix number d.value) := by
  unfold invokeStoredProcedure at answered
  cases outcome : s.issue e k (callText "GetIncome" args) with
  | error fault =>
    simp [outcome, Except.toOption, serializeOneQueryResult, fieldNum] at answered
  | ok effect =>
    simp only [outcome, Except.toOption, Option.bind_some, Option.map_eq_some_iff] at answered
    obtain ⟨line,written,rfl⟩ := answered
    cases result : effect.result with
    | none => simp [result, serializeOneQueryResult, fieldNum] at written
    | some set =>
      obtain ⟨q,now,named,rfl⟩ := ran_query (p := .getIncome) (ran_of_issue outcome) result
      cases q with
      | getIncome start end_ =>
        refine ⟨start, end_, _, rfl, fun small => ?_⟩
        obtain ⟨number,read,exactly⟩ := number_written exact small
        refine ⟨number, ?_, exactly⟩
        rw [result] at written
        simp [serializeOneQueryResult, Query.run, PcCourse.getIncome, fieldNum, Engine.text, read] at written
        rw [written]
      | _ => cases named

end

/-- In every response with money, a value of at most 15 significant digits is written as it
is if and only if it has at most six. -/
theorem money_exact_iff (e : Engine) (exact : ExactTexts e) (k : Conditions) (config : LuaValue)
    (s : Session) (text : String) :
    (∀ l ∈ listings, l.request ∈ moneyRequests → ∀ func, (requests e k).lookup l.request = some func →
      (func config s).response = some text →
      (∃ message, text = makeResponseStr message) ∨
      ∃ q now, (Statement.query q).procedure = l.procedure ∧
        text = makeResponseStr "success" ++ luaConfSerialize
          (resultTree e k.iteration (q.run e.collation now s.db) l.fields) l.tableName 0 ∧
        ∀ row ∈ (q.run e.collation now s.db).rows,
          MoneyWritten e (q.run e.collation now s.db) l.fields row) ∧
    ((getIncome e k config s).response = some text →
      (∃ message, text = makeResponseStr message) ∨
      ∃ start end_ d, PcCourse.getIncome start end_ s.db = ⟨["income"], [[.double d]]⟩ ∧
        (HasDigits 15 d.value → ∃ number,
          text = makeResponseStr "success" ++ luaConfSerialize (.number number) "income" 0 ∧
          WrittenWithinSix number d.value)) := by
  constructor
  · intro l registered money func found answered
    rcases handler_answered registered found answered with line | ⟨q,now,named,written⟩
    · exact .inl line
    · exact .inr ⟨q, now, named, written, fun row member =>
        rows_money exact registered money named member⟩
  · intro answered
    rcases reading_written answered with line | ⟨dates,behind⟩
    · exact .inl line
    · exact .inr (income_money exact behind)

theorem standard_exact : ExactTexts .standard := fun d _ => format_denotes d

theorem seeded_items_exact : ∃ text now,
    (getItems .standard (.calm 1700000000) (.table [] []) (.opening seeded)).response = some text ∧
    text = makeResponseStr "success" ++ luaConfSerialize (resultTree .standard .insertion
      (Query.getItems.run .binary now seeded) itemListing.fields) "items" 0 ∧
    ∀ row ∈ (Query.getItems.run .binary now seeded).rows,
      MoneyWritten .standard (Query.getItems.run .binary now seeded) itemListing.fields row := by
  cases answered : (getItems .standard (.calm 1700000000) (.table [] []) (.opening seeded)).response with
  | none => exact absurd answered (by decide)
  | some text =>
    rcases (money_exact_iff .standard standard_exact (.calm 1700000000) (.table [] [])
      (.opening seeded) text).1 itemListing (by simp [itemListing, listings]) (by decide) _ rfl
      answered with ⟨message,line⟩ | ⟨q,now,named,written,cells⟩
    · have listed : (listing .standard (.calm 1700000000) (callText itemListing.procedure.name [])
          itemListing.tableName itemListing.fields (.opening seeded)).response = some text := answered
      exact absurd line (listing_ne_line (by decide) listed message)
    · cases q with
      | getItems => exact ⟨text, now, rfl, written, cells⟩
      | _ => cases named

def costlyItem : Incoming :=
  ⟨.calm 1700000000, some (.table [("request", .str "add_item"), ("user", employee),
    ("new_item", .table [("name", .str "Server"), ("cost", .number ⟨123456789, -2⟩), ("count", .int 1),
      ("distributor_id", .int 1), ("type_id", .int 1), ("description", .str "Rack server")] [])] [])⟩

def costlyRows : Db :=
  { seeded with
    item := seeded.item ++ [⟨4, "Server", ⟨123456789, -2⟩, 1, 1, 1, "Rack server"⟩]
    next := { seeded.next with item := 5 } }

theorem costly_added :
    run .standard [costlyItem] (installed .binary (19675 * 86400) 20041) = costlyRows := by
  rw [installed_seeded, run_one, serve, costlyItem, processRequest_employee _ seeded rfl (by decide) rfl
    rfl (by decide) rfl rfl]
  decide

/-- Its cost is listed as 1.23457e+06. -/
theorem costly_item_rounded :
    let db := run .standard [costlyItem] (installed .binary (19675 * 86400) 20041)
    let set := PcCourse.getItems db
    let text := makeResponseStr "success" ++ luaConfSerialize
      (resultTree .standard .insertion set itemListing.fields) "items" 0
    ∃ row ∈ set.rows, ∃ d number : Decimal,
      (processRequest .standard (.calm 1700000000) (some (.table [("request", .str "get_items")] []))
        (.opening db)).response = some text ∧
      row[set.fields.idxOf "cost"]? = some (.double d) ∧ HasDigits 15 d.value ∧
      ("cost", .number number) ∈ selectedCells .standard set itemListing.fields row ∧
      (LuaValue.number number).leafText = "1.23457e+06" ∧
      ¬Denotes (LuaValue.number number).leafText.toList d.value := by
  intro db set text
  have added : db = costlyRows := costly_added
  clear_value db
  subst added
  have answered : ∃ text, (getItems .standard (.calm 1700000000)
      (.table [("request", .str "get_items")] []) (.opening costlyRows)).response = some text :=
    Option.isSome_iff_exists.mp (by decide)
  refine ⟨[.int 4, .text "Server", .double ⟨123456789, -2⟩, .int 1, .text "AMD", .text "CPU",
    .text "Rack server"], by decide, ⟨123456789, -2⟩, ⟨123456789, -2⟩, ?_,
    by decide, ⟨123456789, -2, by decide, rfl⟩, ?_, by decide, ?_⟩
  · obtain ⟨found,answered⟩ := answered
    have listed : (listing .standard (.calm 1700000000) (callText itemListing.procedure.name [])
        itemListing.tableName itemListing.fields (.opening costlyRows)).response = some found := answered
    obtain ⟨q,now,named,written⟩ := listing_written (by decide) listed
    cases q with
    | getItems => exact answered.trans (congrArg some written)
    | _ => cases named
  · have digits : Numeral.signedDecimal? (Decimal.format ⟨123456789, -2⟩).toList =
        some ⟨123456789, -2⟩ := by decide
    have read : VMType.number.read (Engine.standard.doubleText ⟨123456789, -2⟩) =
        some (.number ⟨123456789, -2⟩) := congrArg (Option.map LuaValue.number) digits
    have asked : (⟨"cost", .number, true⟩ : FieldAndType) ∈ itemListing.fields := by decide
    have written : Engine.standard.text (.double ⟨123456789, -2⟩) =
        some (Engine.standard.doubleText ⟨123456789, -2⟩) := rfl
    exact selected_cell asked (fieldNum_eq (by decide)) (by decide) written read
  · have text : (LuaValue.number ⟨123456789, -2⟩).leafText.toList = "1.23457e+06".toList := by
      decide
    have read : Denotes "1.23457e+06".toList 1234570 :=
      ⟨⟨123457, 1⟩, by decide, by norm_num [Decimal.value]⟩
    intro exact
    rw [text] at exact
    have same := denotes_unique read exact
    norm_num [Decimal.value] at same

end PcCourse.UserRequest
