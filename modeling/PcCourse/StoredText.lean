import PcCourse.ListingTexts
import PcCourse.DecimalText
import PcCourse.LineBreaks

/-! Texts of the database in the responses: which of them a response carries as they are. -/
namespace PcCourse.StoredText

open UserRequest RoundTrip LuaText LineBreaks SqlCall

/-- What is written of a text is one literal that denotes it, whatever stands behind. -/
def IsLiteral (s : String) : Prop :=
  ∀ rest, scanner.run .code ((quotedStr s).toList ++ rest) =
    (scanner.run .code rest).map (.str s :: ·)

section
variable {s : String} {cs : List Char}

theorem isLine_iff : isLine s = true ↔ ∀ c ∈ s.toList, c ≠ '\n' ∧ c ≠ '\r' ∧ c ≠ '\x00' := by
  simp [isLine, and_assoc]

theorem run_quotedChars_none {c : Char} (member : c ∈ cs) (breaks : c = '\n' ∨ c = '\r' ∨ c = '\x00')
    (read rest : List Char) : scanner.run (.str '"' read) (quotedChars cs ++ rest) = none := by
  induction cs generalizing read with
  | nil => cases member
  | cons d ds ih =>
    by_cases stops : d = '\n' ∨ d = '\r' ∨ d = '\x00'
    · have plain : ¬(d = '"' ∨ d = '\\') := by
        rcases stops with rfl | rfl | rfl <;> decide
      have fails : scanner.step (.str '"' read) d = none := by
        rcases stops with rfl | rfl | rfl <;> rfl
      rw [quotedChars, if_neg plain, List.cons_append, Scanner.run, Scanner.feed, fails]
    · have behind : c ∈ ds := by
        rcases List.mem_cons.mp member with rfl | behind
        · exact absurd breaks stops
        · exact behind
      have later (after : List Char) := ih behind after
      rw [quotedChars]
      by_cases special : d = '"' ∨ d = '\\'
      · have opens : scanner.step (.str '"' read) '\\' = some ([], .escape '"' read) := rfl
        have escaped : scanner.step (.escape '"' read) d = some ([], .str '"' (read ++ [d])) := by
          rcases special with rfl | rfl <;> rfl
        rw [if_pos special, List.cons_append, List.cons_append, Scanner.run_silent opens,
          Scanner.run_silent escaped, later]
      · obtain ⟨quote,backslash⟩ := not_or.mp special
        obtain ⟨feed,others⟩ := not_or.mp stops
        obtain ⟨ret,nul⟩ := not_or.mp others
        have one : scanner.step (.str '"' read) d = some ([], .str '"' (read ++ [d])) := by
          simp [step, quote, backslash, feed, ret, nul]
        rw [if_neg special, List.cons_append, Scanner.run_silent one, later]

/-- The literal denotes its text exactly when the text stays on its line. -/
theorem isLiteral_iff : IsLiteral s ↔ isLine s = true := by
  have opens : scanner.step .code '"' = some ([], .str '"' []) := rfl
  have shape (rest : List Char) :
      (quotedStr s).toList ++ rest = '"' :: (quotedChars s.toList ++ '"' :: rest) := by
    simp [quotedStr]
  constructor
  · intro literal
    by_contra broken
    refine broken (isLine_iff.mpr fun c member => ?_)
    have stays : ¬(c = '\n' ∨ c = '\r' ∨ c = '\x00') := by
      intro stops
      have read := literal []
      rw [shape, Scanner.run_silent opens, run_quotedChars_none member stops] at read
      cases read
    exact ⟨fun same => stays (.inl same), fun same => stays (.inr (.inl same)),
      fun same => stays (.inr (.inr same))⟩
  · intro line rest
    rw [shape, Scanner.run_silent opens, run_quotedChars _ _ _ (isLine_iff.mp line), List.nil_append,
      String.ofList_toList]

theorem broken_quotedChars : Broken (quotedChars cs) ↔ Broken cs := by
  induction cs with
  | nil => rfl
  | cons c cs ih =>
    rw [quotedChars]
    by_cases special : c = '"' ∨ c = '\\'
    · have other : c ≠ '\r' := by
        rcases special with rfl | rfl <;> decide
      rw [if_pos special, broken_cons, broken_cons, broken_cons, ih]
      simp [other]
    · have next : (quotedChars cs).head? = some '\n' ↔ cs.head? = some '\n' := by
        cases cs with
        | nil => rfl
        | cons d ds =>
          rw [quotedChars]
          split
          next quoted => rcases quoted with rfl | rfl <;> simp
          next => rfl
      rw [if_neg special, broken_cons, broken_cons, ih, next]

theorem breaksWhen_quotedStr (s : String) : BreaksWhen (quotedStr s).toList (Broken s.toList) := by
  have shape : (quotedStr s).toList = ('"' :: quotedChars s.toList) ++ ['"'] := by simp [quotedStr]
  constructor
  · rw [shape, List.getLast?_concat]
    decide
  · rw [shape, broken_concat (by decide), broken_cons, broken_quotedChars]
    simp

def leafTexts : LuaValue → List String
  | .str t => [t]
  | _ => []

theorem breaksWhen_leaf (v : LuaValue) :
    BreaksWhen v.leafText.toList (∃ t ∈ leafTexts v, Broken t.toList) := by
  have free {text : List Char} (none : '\r' ∉ text) (texts : leafTexts v = []) :
      BreaksWhen text (∃ t ∈ leafTexts v, Broken t.toList) :=
    (breaksWhen_free none).cast (by simp [texts])
  have digit : '\r'.isDigit = false := rfl
  cases v with
  | bool b => cases b <;> exact free (by decide) rfl
  | int n =>
    refine free (fun member => ?_) rfl
    rw [LuaValue.leafText, Numeral.toList_toString] at member
    rcases Numeral.mem_ofInt member with dash | number
    · exact absurd dash (by decide)
    · exact absurd number (by decide)
  | number d =>
    refine free (fun member => ?_) rfl
    rcases DecimalText.ostream_chars member with number | mark
    · exact absurd number (by decide)
    · exact absurd mark (by decide)
  | str t => exact (breaksWhen_quotedStr t).cast (by simp [leafTexts])
  | nil => exact free (by decide) rfl
  | function => exact free (by decide) rfl
  | table named array => exact free (show '\r' ∉ "nil".toList by decide) rfl

end

theorem tabs_free (tabs : Nat) : '\r' ∉ (writeTabs tabs).toList := by
  rw [writeTabs, String.toList_ofList]
  exact fun member => absurd (List.eq_of_mem_replicate member) (by decide)

def IsLeaf (v : LuaValue) : Prop := v.isWritten = true ∧ ∀ name tabs, luaConfSerialize v name tabs =
  writeTabs tabs ++ (if name = "" then "" else name ++ " = ") ++ v.leafText

theorem isLeaf_read {type : VMType} {text : String} {v : LuaValue} (read : type.read text = some v) :
    IsLeaf v := by
  cases type with
  | string =>
    cases read
    exact ⟨rfl, fun _ _ => rfl⟩
  | _ =>
    obtain ⟨n,-,rfl⟩ := Option.map_eq_some_iff.mp read
    exact ⟨rfl, fun _ _ => rfl⟩

theorem breaksWhen_field {v : LuaValue} (leaf : IsLeaf v) {name : String} (free : '\r' ∉ name.toList)
    (tabs : Nat) :
    BreaksWhen (luaConfSerialize v name tabs).toList (∃ t ∈ leafTexts v, Broken t.toList) := by
  rw [leaf.2, String.toList_append, String.toList_append]
  refine (breaksWhen_leaf v).after fun member => ?_
  rcases List.mem_append.mp member with inTabs | inName
  · exact tabs_free tabs inTabs
  · split at inName
    · cases inName
    · rw [String.toList_append] at inName
      exact (List.mem_append.mp inName).elim free (by decide)

/-- A value of a table that is written, broken under this condition. -/
structure Part (condition : LuaValue → Prop) (name : String) (v : LuaValue) : Prop where
  written : v.isWritten = true
  breaks : ∀ tabs, BreaksWhen (luaConfSerialize v name tabs).toList (condition v)

theorem breaksWhen_table {condition : LuaValue → Prop} {named : LuaFields} {array : List LuaValue}
    (fields : ∀ field ∈ named, Part condition field.1 field.2)
    (items : ∀ value ∈ array, Part condition "" value)
    {name : String} (free : '\r' ∉ name.toList) (tabs : Nat) :
    BreaksWhen (luaConfSerialize (.table named array) name tabs).toList
      (∃ v ∈ named.map Prod.snd ++ array, condition v) := by
  have texts : serializeNamed named (tabs + 1) ++ serializeArray array (tabs + 1) =
      named.map (fun field => luaConfSerialize field.2 field.1 (tabs + 1)) ++
        array.map (luaConfSerialize · "" (tabs + 1)) := by
    rw [serializeNamed_eq fun field member => (fields field member).written,
      serializeArray_eq fun value member => (items value member).written]
  have separator : '\r' ∉ ",\n".toList := by decide
  have joined := breaksWhen_joined
    (serializeNamed named (tabs + 1) ++ serializeArray array (tabs + 1)) separator (by
      rw [texts, List.forall_mem_append, List.forall_mem_map, List.forall_mem_map]
      exact ⟨fun field member => ((fields field member).breaks (tabs + 1)).last,
        fun value member => ((items value member).breaks (tabs + 1)).last⟩)
  have front : '\r' ∉ ((if name = "" then "" else writeTabs tabs ++ name ++ " =\n") ++ writeTabs tabs ++
      "\x7b\n").toList := by
    simp only [String.toList_append, List.mem_append, not_or]
    refine ⟨⟨?_, tabs_free tabs⟩, by decide⟩
    split
    next => exact List.not_mem_nil
    next =>
      simp only [String.toList_append, List.mem_append, not_or]
      exact ⟨⟨tabs_free tabs, free⟩, by decide⟩
  have whole := (((joined.after front).before (by decide : '\r' ∉ "\n".toList)).before
    (tabs_free tabs)).before (by decide : '\r' ∉ "\x7d".toList)
  simp only [← String.toList_append] at whole
  rw [luaConfSerialize]
  refine whole.cast ?_
  rw [texts]
  simp only [List.mem_append, List.mem_map]
  constructor
  · rintro ⟨text,⟨field,member,rfl⟩ | ⟨value,member,rfl⟩,broken⟩
    · exact ⟨_, .inl ⟨field, member, rfl⟩, ((fields field member).breaks (tabs + 1)).iff.mp broken⟩
    · exact ⟨_, .inr member, ((items value member).breaks (tabs + 1)).iff.mp broken⟩
  · rintro ⟨v,⟨field,member,rfl⟩ | member,holds⟩
    · exact ⟨_, .inl ⟨field, member, rfl⟩, ((fields field member).breaks (tabs + 1)).iff.mpr holds⟩
    · exact ⟨_, .inr ⟨v, member, rfl⟩, ((items v member).breaks (tabs + 1)).iff.mpr holds⟩

def writtenTexts (e : Engine) (set : ResultSet) (fields : List FieldAndType) : List String :=
  set.rows.flatMap fun row => (selectedCells e set fields row).flatMap fun cell => leafTexts cell.2

section
variable {e : Engine} {set : ResultSet} {fields : List FieldAndType} {row : List SqlValue}

theorem mem_selectedCells {cell : String × LuaValue} (member : cell ∈ selectedCells e set fields row) :
    cell.1 ∈ fields.map FieldAndType.fieldName ∧ IsLeaf cell.2 := by
  refine ⟨(selected_names e set fields row).mem (List.mem_map_of_mem member), ?_⟩
  obtain ⟨field,-,found⟩ := List.mem_filterMap.mp member
  simp only [cellOf, Option.bind_eq_bind, Option.pure_def, Option.bind_eq_some_iff,
    Option.some.injEq] at found
  obtain ⟨_,_,_,_,_,_,value,read,rfl⟩ := found
  exact isLeaf_read read

/-- The texts of a table's leaves, two levels deep. -/
def HasBroken : LuaValue → Prop
  | .table named _ => ∃ v ∈ named.map Prod.snd, ∃ t ∈ leafTexts v, Broken t.toList
  | _ => False

theorem part_row (it : Iteration) (names : ∀ field ∈ fields, '\r' ∉ field.fieldName.toList) :
    Part HasBroken "" (.table (it.order (selectedCells e set fields row)) []) := by
  refine ⟨rfl, fun tabs => ?_⟩
  have cells : ∀ cell ∈ it.order (selectedCells e set fields row),
      Part (fun v => ∃ t ∈ leafTexts v, Broken t.toList) cell.1 cell.2 := by
    intro cell member
    obtain ⟨named,leaf⟩ := mem_selectedCells ((it.perm _).mem_iff.mp member)
    obtain ⟨field,asked,same⟩ := List.mem_map.mp named
    exact ⟨leaf.1, breaksWhen_field leaf (same ▸ names field asked)⟩
  refine (breaksWhen_table cells (List.forall_mem_nil _) (by decide) tabs).cast ?_
  rw [List.append_nil]
  rfl

variable (e set) in
/-- The table of a result is broken where one of its texts is. -/
theorem breaksWhen_result (it : Iteration) (names : ∀ field ∈ fields, '\r' ∉ field.fieldName.toList)
    {tableName : String} (free : '\r' ∉ tableName.toList) :
    BreaksWhen (luaConfSerialize (resultTree e it set fields) tableName 0).toList
      (∃ t ∈ writtenTexts e set fields, Broken t.toList) := by
  refine (breaksWhen_table (List.forall_mem_nil _)
    (List.forall_mem_map.mpr fun row _ => part_row it names) free 0).cast ?_
  simp only [List.map_nil, List.nil_append, List.mem_map, writtenTexts, List.mem_flatMap]
  constructor
  · rintro ⟨_,⟨row,member,rfl⟩,v,inside,t,leaf,broken⟩
    obtain ⟨cell,inOrder,rfl⟩ := List.mem_map.mp inside
    exact ⟨t, ⟨row, member, cell, (it.perm _).mem_iff.mp inOrder, leaf⟩, broken⟩
  · rintro ⟨t,⟨row,member,cell,inside,leaf⟩,broken⟩
    exact ⟨_, ⟨row, member, rfl⟩, cell.2,
      List.mem_map_of_mem ((it.perm _).mem_iff.mpr inside), t, leaf, broken⟩

end

/-- A text stored in a column that a listing asks for is written in the response. The delimiter
stands at the end of the response alone and the literal of the text denotes it exactly when the
text has no carriage return and no line feed and no text listed with it has a line break. -/
theorem stored_text_survives_iff (e : Engine) (k : Conditions) (config : LuaValue) (s : Session)
    {l : Listing} (registered : l ∈ listings) {func : LuaValue → Session → Reply}
    (found : (requests e k).lookup l.request = some func) {text : String}
    (answered : (func config s).response = some text) :
    (∃ message, text = makeResponseStr message) ∨
    ∃ q now set, (Statement.query q).procedure = l.procedure ∧ set = q.run e.collation now s.db ∧
      text = makeResponseStr "success" ++
        luaConfSerialize (resultTree e k.iteration set l.fields) l.tableName 0 ∧
      ∀ row ∈ set.rows, ∀ field ∈ l.fields, field.type = .string → ∀ index t,
        fieldNum (some set) field.fieldName = some index → row[index]? = some (.text t) →
        '\x00' ∉ t.toList →
        (field.fieldName, .str t) ∈ selectedCells e set l.fields row ∧
        (BreaksAtEnd text.toList ∧ IsLiteral t ↔
          ('\r' ∉ t.toList ∧ '\n' ∉ t.toList) ∧
            ∀ other ∈ writtenTexts e set l.fields, ¬Broken other.toList) := by
  have names : ∀ l ∈ listings, '\r' ∉ l.tableName.toList ∧
      ∀ field ∈ l.fields, '\r' ∉ field.fieldName.toList := by decide
  have line : '\r' ∉ (makeResponseStr "success").toList := by decide
  rcases handler_answered registered found answered with refused | ⟨q,now,named,rfl⟩
  · exact .inl refused
  · refine .inr ⟨q, now, _, named, rfl, rfl, ?_⟩
    intro row member field asked isText index t column cell nul
    have breaks := (breaksWhen_result e (q.run e.collation now s.db) k.iteration
      (names l registered).2 (names l registered).1).after line
    have read : field.type.read t = some (.str t) := by rw [isText, VMType.read]
    refine ⟨selected_cell asked column cell rfl read, ?_⟩
    rw [String.toList_append, breaksAtEnd_iff, breaks.iff, isLiteral_iff, isLine_iff]
    constructor
    · rintro ⟨unbroken,stays⟩
      refine ⟨⟨fun ret => (stays _ ret).2.1 rfl, fun feed => (stays _ feed).1 rfl⟩, ?_⟩
      exact fun other listed broken => unbroken ⟨other, listed, broken⟩
    · rintro ⟨⟨ret,feed⟩,others⟩
      refine ⟨?_, fun c inside => ⟨?_, ?_, ?_⟩⟩
      · rintro ⟨other,listed,broken⟩
        exact others other listed broken
      · rintro rfl
        exact feed inside
      · rintro rfl
        exact ret inside
      · rintro rfl
        exact nul inside

theorem seeded_text_survives : ∃ text,
    (UserRequest.getItems .standard (.calm 1700000000) (.table [] []) (.opening seeded)).response = some text ∧
    (BreaksAtEnd text.toList ∧ IsLiteral "GPU NVIDIA GTX1080Ti" ↔
      ('\r' ∉ "GPU NVIDIA GTX1080Ti".toList ∧ '\n' ∉ "GPU NVIDIA GTX1080Ti".toList) ∧
        ∀ other ∈ writtenTexts .standard (PcCourse.getItems seeded) itemListing.fields,
          ¬Broken other.toList) := by
  cases answered : (UserRequest.getItems .standard (.calm 1700000000) (.table [] []) (.opening seeded)).response with
  | none => exact absurd answered (by decide)
  | some text =>
    refine ⟨text, rfl, ?_⟩
    rcases stored_text_survives_iff .standard (.calm 1700000000) (.table [] []) (.opening seeded)
      itemListing_registered rfl answered with ⟨message,line⟩ | ⟨q,now,set,named,result,-,stored⟩
    · have listed : (listing .standard (.calm 1700000000) (callText itemListing.procedure.name [])
          itemListing.tableName itemListing.fields (.opening seeded)).response = some text := answered
      exact absurd line (listing_ne_line (by decide) listed message)
    · cases q with
      | getItems =>
        have rows : set = PcCourse.getItems seeded := result
        rw [rows] at stored
        exact (stored [.int 2, .text "NVIDIA GTX 1080Ti", .double ⟨10584, -1⟩, .int 53, .text "NVIDIA",
          .text "GPU", .text "GPU NVIDIA GTX1080Ti"] (by decide) ⟨"description", .string, true⟩
          (by decide) rfl 6 _ (by decide) rfl (by decide)).2
      | _ => cases named

def brokenItem : Incoming :=
  ⟨.calm 1700000000, some (.table [("request", .str "add_item"), ("user", employee),
    ("new_item", .table [("name", .str "Server"), ("cost", .int 1), ("count", .int 1),
      ("distributor_id", .int 1), ("type_id", .int 1), ("description", .str "Rack\r\nserver")] [])] [])⟩

def brokenRows : Db :=
  { seeded with
    item := seeded.item ++ [⟨4, "Server", ⟨1, 0⟩, 1, 1, 1, "Rack\r\nserver"⟩]
    next := { seeded.next with item := 5 } }

theorem broken_added :
    run .standard [brokenItem] (installed .binary (19675 * 86400) 20041) = brokenRows := by
  rw [installed_seeded, run_one, serve, brokenItem, processRequest_employee _ seeded rfl (by decide) rfl
    rfl (by decide) rfl rfl]
  decide

/-- Its listing ends early, and its literal is not closed. -/
theorem broken_item_lost :
    let db := run .standard [brokenItem] (installed .binary (19675 * 86400) 20041)
    ∃ text, (processRequest .standard (.calm 1700000000)
        (some (.table [("request", .str "get_items")] [])) (.opening db)).response = some text ∧
      (∃ row ∈ db.item, row.description = "Rack\r\nserver") ∧
      ¬BreaksAtEnd text.toList ∧ ¬IsLiteral "Rack\r\nserver" := by
  intro db
  have added : db = brokenRows := broken_added
  clear_value db
  subst added
  have lost : ¬IsLiteral "Rack\r\nserver" := by
    rw [isLiteral_iff]
    decide
  have answered : (UserRequest.getItems .standard (.calm 1700000000) (.table [("request", .str "get_items")] [])
      (.opening brokenRows)).response.isSome = true := by decide
  obtain ⟨text,answered⟩ := Option.isSome_iff_exists.mp answered
  refine ⟨text, answered, by decide, ?_, lost⟩
  have listed : (listing .standard (.calm 1700000000) (callText itemListing.procedure.name [])
      itemListing.tableName itemListing.fields (.opening brokenRows)).response = some text := answered
  obtain ⟨q,now,named,rfl⟩ := listing_written (by decide) listed
  cases q with
  | getItems =>
    have line : '\r' ∉ (makeResponseStr "success").toList := by decide
    have names : (∀ field ∈ itemListing.fields, '\r' ∉ field.fieldName.toList) ∧
        '\r' ∉ itemListing.tableName.toList := by decide
    have breaks := (breaksWhen_result .standard (PcCourse.getItems brokenRows)
      (Conditions.calm 1700000000).iteration names.1 names.2).after line
    rw [String.toList_append, breaksAtEnd_iff, not_not]
    refine breaks.iff.mpr ⟨"Rack\r\nserver", ?_, ?_⟩
    · decide
    · exact ⟨"Rack".toList, "server".toList, by decide⟩
  | _ => cases named

end PcCourse.StoredText
