import PcCourse.LuaChunk
import PcCourse.Serialize

/-! What `LuaConfSerialize` writes is read back by Lua as the value it was written from. -/
namespace PcCourse.RoundTrip

open LuaText LuaChunk

/-- The trees that are written: tables whose keys are identifiers, with booleans, integers
whose magnitude is below 2^63 and texts of one line at their leaves. The fields of a table
stand in the order in which an iteration yields them, whichever that is. -/
inductive Storable : LuaValue → Prop where
  | bool (b : Bool) : Storable (.bool b)
  | int {n : Int} (range : -int64Max ≤ n ∧ n ≤ int64Max) : Storable (.int n)
  | str {s : String} (line : isLine s = true) : Storable (.str s)
  | table {named : LuaFields} {array : List LuaValue}
      (keys : ∀ field ∈ named, isIdentifier field.1 = true)
      (distinct : (named.map Prod.fst).Nodup)
      (fields : ∀ field ∈ named, Storable field.2)
      (items : ∀ value ∈ array, Storable value) : Storable (.table named array)

section
variable {v : LuaValue}

theorem Storable.isWritten (storable : Storable v) : v.isWritten = true := by
  cases storable <;> rfl

theorem isIdentifier_iff {name : String} :
    isIdentifier name = true ↔ isName name = true ∧ name ∉ keywords := by
  simp [isIdentifier]

theorem Storable.ne_nil (storable : Storable v) : v ≠ .nil := by
  cases storable <;> exact fun same => nomatch same

end

theorem serializeNamed_eq {named : LuaFields} (written : ∀ field ∈ named, field.2.isWritten = true)
    (tabs : Nat) :
    serializeNamed named tabs = named.map fun field => luaConfSerialize field.2 field.1 tabs := by
  induction named with
  | nil => rfl
  | cons field rest ih =>
    rw [serializeNamed, ih fun other member => written other (List.mem_cons_of_mem _ member),
      serializeField, if_pos (written field List.mem_cons_self)]
    rfl

theorem serializeArray_eq {array : List LuaValue} (written : ∀ value ∈ array, value.isWritten = true)
    (tabs : Nat) :
    serializeArray array tabs = array.map fun value => luaConfSerialize value "" tabs := by
  induction array with
  | nil => rfl
  | cons value rest ih =>
    rw [serializeArray, ih fun other member => written other (List.mem_cons_of_mem _ member),
      if_pos (written value List.mem_cons_self)]
    rfl

theorem feed_tabs (tabs : Nat) : scanner.feed .code (writeTabs tabs).toList = some ([], .code) := by
  rw [writeTabs, String.toList_ofList]
  induction tabs with
  | zero => rfl
  | succ tabs ih =>
    have tab : scanner.step .code '\t' = some ([], .code) := rfl
    simp only [List.replicate_succ, Scanner.feed, tab, ih, List.append_nil]

theorem reads_joined {texts : List String} {tokens : List (List Token)}
    (each : List.Forall₂ (fun text tokens => Reads text.toList tokens) texts tokens) :
    Reads (",\n".intercalate texts).toList ([.sym ','].intercalate tokens) := by
  induction each with
  | nil => exact reads_of_feed rfl
  | @cons text first texts tokens reads others ih =>
    cases others with
    | nil => simpa using reads
    | @cons second _ texts tokens _ _ =>
      have comma : scanner.feed .code ",\n".toList = some ([.sym ','], .code) := rfl
      rw [String.intercalate_cons_cons, List.intercalate_cons_cons, String.toList_append,
        String.toList_append, List.append_assoc, List.append_assoc]
      apply reads.append (ih.after comma)
      exact fun rest _ => apart_cons (by decide) _

theorem run_quotedChars (read cs rest : List Char)
    (line : ∀ c ∈ cs, c ≠ '\n' ∧ c ≠ '\r' ∧ c ≠ '\x00') :
    scanner.run (.str '"' read) (quotedChars cs ++ '"' :: rest) =
      (scanner.run .code rest).map (.str (String.ofList (read ++ cs)) :: ·) := by
  induction cs generalizing read with
  | nil =>
    have closes : scanner.step (.str '"' read) '"' = some ([.str (String.ofList read)], .code) := rfl
    rw [quotedChars, List.nil_append, Scanner.run_cons closes, List.append_nil]
    rfl
  | cons c cs ih =>
    have later := ih (read ++ [c]) fun d member => line d (List.mem_cons_of_mem _ member)
    rw [List.append_assoc, List.singleton_append] at later
    rw [quotedChars]
    split
    next special =>
      have opens : scanner.step (.str '"' read) '\\' = some ([], .escape '"' read) := rfl
      have escaped : scanner.step (.escape '"' read) c = some ([], .str '"' (read ++ [c])) := by
        rcases special with rfl | rfl <;> rfl
      rw [List.cons_append, List.cons_append, Scanner.run_silent opens, Scanner.run_silent escaped,
        later]
    next plain =>
      obtain ⟨quote,backslash⟩ := not_or.mp plain
      obtain ⟨feed,ret,nul⟩ := line c List.mem_cons_self
      have one : scanner.step (.str '"' read) c = some ([], .str '"' (read ++ [c])) := by
        simp [step, quote, backslash, feed, ret, nul]
      rw [List.cons_append, Scanner.run_silent one, later]

theorem reads_quotedStr {s : String} (line : isLine s = true) : Reads (quotedStr s).toList [.str s] := by
  intro rest _
  have opens : scanner.step .code '"' = some ([], .str '"' []) := rfl
  have shape : (quotedStr s).toList ++ rest = '"' :: (quotedChars s.toList ++ '"' :: rest) := by
    simp [quotedStr]
  rw [shape, Scanner.run_silent opens, run_quotedChars, List.nil_append, String.ofList_toList]
  · rfl
  · intro c member
    simp only [isLine, List.all_eq_true, Bool.and_eq_true, bne_iff_ne] at line
    exact ⟨(line c member).1.1, (line c member).1.2, (line c member).2⟩

def header (name : String) : List Token := if name = "" then [] else [.name name, .sym '=']

/-- A name, what separates it from its value, and the value. -/
theorem reads_header {name : String} (named : isName name = true) {gap text : List Char}
    {tokens : List Token} (reads : Reads text tokens)
    (fed : scanner.feed .code (' ' :: gap) = some ([.sym '='], .code)) :
    Reads (name.toList ++ (' ' :: gap ++ text)) (header name ++ tokens) := by
  have filled : name ≠ "" := by
    rintro rfl
    exact absurd named (by decide)
  have split : header name ++ tokens = [.name name] ++ ([.sym '='] ++ tokens) := by
    simp [header, filled]
  rw [split]
  apply (reads_name named).append (reads.after fed)
  exact fun rest _ => apart_cons (by decide) _

theorem reads_leaf {v : LuaValue} {tokens : List Token} (reads : Reads v.leafText.toList tokens)
    (leaf : ∀ name tabs, luaConfSerialize v name tabs =
      writeTabs tabs ++ (if name = "" then "" else name ++ " = ") ++ v.leafText)
    {name : String} (named : name = "" ∨ isName name = true) (tabs : Nat) :
    Reads (luaConfSerialize v name tabs).toList (header name ++ tokens) := by
  rw [leaf, String.toList_append, String.toList_append, List.append_assoc]
  apply Reads.after _ (feed_tabs tabs)
  rcases named with rfl | named
  · exact reads
  · have filled : name ≠ "" := by
      rintro rfl
      exact absurd named (by decide)
    rw [if_neg filled, String.toList_append, List.append_assoc]
    exact reads_header named reads rfl

theorem exists_tokens {α β : Type} {r : α → β → Prop} {xs : List α}
    (each : ∀ x ∈ xs, ∃ y, r x y) : ∃ ys, List.Forall₂ r xs ys := by
  induction xs with
  | nil => exact ⟨[], .nil⟩
  | cons x xs ih =>
    obtain ⟨y,first⟩ := each x List.mem_cons_self
    obtain ⟨ys,others⟩ := ih fun z member => each z (List.mem_cons_of_mem _ member)
    exact ⟨y :: ys, .cons first others⟩

def sources (named : LuaFields) (array : List LuaValue) : List (Option String × LuaValue) :=
  named.map (fun field => (some field.1, field.2)) ++ array.map (none, ·)

theorem serialized_fields {named : LuaFields} {array : List LuaValue}
    (fields : ∀ field ∈ named, field.2.isWritten = true)
    (items : ∀ value ∈ array, value.isWritten = true) (tabs : Nat) :
    serializeNamed named tabs ++ serializeArray array tabs =
      (sources named array).map fun source => luaConfSerialize source.2 (source.1.getD "") tabs := by
  rw [serializeNamed_eq fields, serializeArray_eq items, sources, List.map_append, List.map_map,
    List.map_map]
  rfl

theorem fill_sources {named : LuaFields} {array : List LuaValue}
    (distinct : (named.map Prod.fst).Nodup) (fields : ∀ field ∈ named, field.2 ≠ .nil)
    (items : ∀ value ∈ array, value ≠ .nil) :
    Frame.fill ⟨[], [], none⟩ (sources named array) = some ⟨named, array, none⟩ := by
  rw [sources, fill_named _ _ _ (by simpa using distinct) fields, fill_array _ _ _ items]
  rfl

/-- A constructor with its brackets on lines of their own. -/
theorem reads_table {texts : List String} {tokens : List (List Token)} {name : String}
    (each : List.Forall₂ (fun text tokens => Reads text.toList tokens) texts tokens)
    (named : name = "" ∨ isName name = true) (tabs : Nat) :
    Reads ((if name = "" then "" else writeTabs tabs ++ name ++ " =\n") ++ writeTabs tabs ++
        "\x7b\n" ++ ",\n".intercalate texts ++ "\n" ++ writeTabs tabs ++ "\x7d").toList
      (header name ++ .sym '\x7b' :: ([.sym ','].intercalate tokens ++ [.sym '\x7d'])) := by
  have opens : scanner.feed .code ['\x7b', '\n'] = some ([.sym '\x7b'], .code) := rfl
  have newline : scanner.feed .code ['\n'] = some ([], .code) := rfl
  have closing : Reads ['\x7d'] [.sym '\x7d'] := reads_of_feed rfl
  have last : Reads (['\n'] ++ ((writeTabs tabs).toList ++ ['\x7d'])) [.sym '\x7d'] :=
    (closing.after (feed_tabs tabs)).after newline
  have inner : Reads ((",\n".intercalate texts).toList ++
      (['\n'] ++ ((writeTabs tabs).toList ++ ['\x7d'])))
      ([.sym ','].intercalate tokens ++ [.sym '\x7d']) := by
    apply (reads_joined each).append last
    exact fun rest _ => apart_cons (by decide) _
  have body := (inner.after opens).after (feed_tabs tabs)
  rcases named with rfl | named
  · simpa [header] using body
  · have filled : name ≠ "" := by
      rintro rfl
      exact absurd named (by decide)
    have gap : scanner.feed .code [' ', '=', '\n'] = some ([.sym '='], .code) := rfl
    simpa [filled] using (reads_header named body gap).after (feed_tabs tabs)

/-- What is written of a tree is read as its name and its value. The induction is on the
tree; a table is read from what is read of its fields. -/
theorem Storable.reads {v : LuaValue} (storable : Storable v) :
    ∃ tokens, Evaluates tokens v ∧ ∀ name tabs, name = "" ∨ isName name = true →
      Reads (luaConfSerialize v name tabs).toList (header name ++ tokens) := by
  induction storable with
  | bool b =>
    refine ⟨_, evaluates_bool b, fun name tabs named => reads_leaf ?_ (fun _ _ => rfl) named tabs⟩
    cases b <;> exact reads_name (by decide)
  | @int n range =>
    refine ⟨_, evaluates_int range, fun name tabs named => reads_leaf ?_ (fun _ _ => rfl) named tabs⟩
    rw [LuaValue.leafText, Numeral.toList_toString]
    exact reads_int n
  | @str s line =>
    refine ⟨_, evaluates_str s, fun name tabs named => reads_leaf ?_ (fun _ _ => rfl) named tabs⟩
    exact reads_quotedStr line
  | @table named array keys distinct fields items fieldReads itemReads =>
    have each : ∀ source ∈ sources named array, ∃ tokens, Fills tokens source.1 source.2 ∧
        ∀ tabs, Reads (luaConfSerialize source.2 (source.1.getD "") tabs).toList tokens := by
      intro source member
      rcases List.mem_append.mp member with inNamed | inArray
      · obtain ⟨field,inside,rfl⟩ := List.mem_map.mp inNamed
        obtain ⟨tokens,evaluates,reads⟩ := fieldReads field inside
        obtain ⟨isName_,word⟩ := isIdentifier_iff.mp (keys field inside)
        have filled : field.1 ≠ "" := by
          intro empty
          rw [empty] at isName_
          exact absurd isName_ (by decide)
        have head : header field.1 = [.name field.1, .sym '='] := if_neg filled
        refine ⟨_, evaluates.fills_named word, fun tabs => ?_⟩
        have named := reads field.1 tabs (.inr isName_)
        rw [head] at named
        exact named
      · obtain ⟨value,inside,rfl⟩ := List.mem_map.mp inArray
        obtain ⟨tokens,evaluates,reads⟩ := itemReads value inside
        exact ⟨tokens, evaluates.fills, fun tabs => reads "" tabs (.inl rfl)⟩
    obtain ⟨tokens,both⟩ := exists_tokens each
    have filled := fill_sources distinct (fun field inside => (fields field inside).ne_nil)
      fun value inside => (items value inside).ne_nil
    refine ⟨_, evaluates_table (both.imp fun _ _ one => one.1) filled, fun name tabs nameOk => ?_⟩
    rw [luaConfSerialize, serialized_fields (fun field inside => (fields field inside).isWritten)
      fun value inside => (items value inside).isWritten]
    apply reads_table _ nameOk
    rw [List.forall₂_map_left_iff]
    exact both.imp fun _ _ one => one.2 (tabs + 1)

theorem execute_of_run {text : String} {tokens : List Token} {s : State}
    (reads : Reads text.toList tokens)
    (runs : State.run tokens ⟨[], "", [], .statement⟩ = some s) (ends : s.expects = .statement) :
    execute text = some s.globals := by
  simp only [execute, reads.lex, Option.bind_eq_bind, Option.bind_some, runs, ends, if_true]

theorem lookup_set {named : LuaFields} {key : String} {value : LuaValue} (some_ : value ≠ .nil) :
    (named.set key value).lookup key = some value := by
  have unset : ∀ fields : LuaFields, fields.any (fun field => field.1 = key) = false →
      (fields ++ [(key, value)]).lookup key = some value := by
    intro fields missing
    induction fields with
    | nil => simp
    | cons field rest ih =>
      simp only [List.any_cons, Bool.or_eq_false_iff, decide_eq_false_iff_not] at missing
      have other : (key == field.1) = false := by simpa using Ne.symm missing.1
      rw [List.cons_append, List.lookup_cons, other]
      exact ih missing.2
  unfold LuaFields.set
  split
  · exact absurd rfl some_
  · split
    next present =>
      induction named with
      | nil => simp at present
      | cons field rest ih =>
        by_cases same : field.1 = key
        · simp [same]
        · have other : (key == field.1) = false := by simpa using Ne.symm same
          have later : rest.any (fun field => field.1 = key) = true := by
            simpa [same] using present
          rw [List.map_cons, if_neg same, List.lookup_cons, other]
          exact ih later
    next missing => exact unset named (Bool.eq_false_iff.mpr missing)

/-- The line of `make_response_str` in front of a text. -/
theorem reads_response {message : String} (plain : isPlain message = true) {text : String}
    {tokens : List Token} (reads : Reads text.toList tokens) :
    Reads (makeResponseStr message ++ text).toList
      (.name "response" :: .sym '=' :: .str message :: tokens) := by
  have opening : scanner.feed .code "response = ".toList =
      some ([.name "response", .sym '='], .code) := rfl
  have newline : scanner.feed .code ['\n'] = some ([], .code) := rfl
  have shape : (makeResponseStr message ++ text).toList =
      "response = ".toList ++ (('\'' :: message.toList ++ ['\'']) ++ (['\n'] ++ text.toList)) := by
    simp [makeResponseStr]
  have quoted : Reads (('\'' :: message.toList ++ ['\'']) ++ (['\n'] ++ text.toList))
      ([.str message] ++ ([] ++ tokens)) := by
    apply (reads_single plain).append (reads.after newline)
    exact fun rest _ => apart_cons (by decide) _
  rw [shape]
  exact quoted.after opening

theorem set_nil {key : String} {value : LuaValue} (some_ : value ≠ .nil) :
    LuaFields.set [] key value = [(key, value)] := by
  unfold LuaFields.set
  split
  · exact absurd rfl some_
  · rfl

/-- A written tree is executed to itself, also behind the line of `make_response_str`. -/
theorem Storable.executes {v : LuaValue} (storable : Storable v) {name : String}
    (named : isIdentifier name = true) :
    execute (luaConfSerialize v name 0) = some [(name, v)] ∧
    ∀ message, isPlain message = true → ∃ globals,
      execute (makeResponseStr message ++ luaConfSerialize v name 0) = some globals ∧
      globals.lookup name = some v := by
  obtain ⟨isName_,word⟩ := isIdentifier_iff.mp named
  obtain ⟨tokens,evaluates,readsAs⟩ := storable.reads
  have filled : name ≠ "" := by
    rintro rfl
    exact absurd isName_ (by decide)
  have text := readsAs name 0 (.inr isName_)
  rw [header, if_neg filled] at text
  constructor
  · rw [execute_of_run text (run_assignment evaluates word [] "") rfl, set_nil storable.ne_nil]
  · intro message plain
    have reserved : "response" ∉ keywords := by decide
    have first := run_assignment (evaluates_str message) reserved [] ""
    have second := run_assignment evaluates word (LuaFields.set [] "response" (.str message)) "response"
    have both : State.run (.name "response" :: .sym '=' :: .str message ::
        ([.name name, .sym '='] ++ tokens)) ⟨[], "", [], .statement⟩ =
          some ⟨(LuaFields.set [] "response" (.str message)).set name v, name, [], .statement⟩ :=
      (State.run_append [.name "response", .sym '=', .str message] _ _).trans (by rw [first]; exact second)
    exact ⟨_, execute_of_run (reads_response plain text) both rfl, lookup_set storable.ne_nil⟩

def cellOf (e : Engine) (row : List SqlValue) (field : FieldAndType × Nat) :
    Option (String × LuaValue) := do
  let cell ← row[field.2]?
  let text ← e.text cell
  let value ← field.1.type.read text
  return (field.1.fieldName, value)

def selectedCells (e : Engine) (set : ResultSet) (fields : List FieldAndType)
    (row : List SqlValue) : LuaFields :=
  fields.filterMap fun field => do
    let index ← fieldNum (some set) field.fieldName
    cellOf e row (field, index)

theorem read_ne_nil {type : VMType} {text : String} {value : LuaValue}
    (done : type.read text = some value) : value ≠ .nil := by
  rintro rfl
  cases type <;> simp [VMType.read] at done

theorem set_fresh {named : LuaFields} {key : String} {value : LuaValue} (some_ : value ≠ .nil)
    (fresh : key ∉ named.map Prod.fst) : named.set key value = named ++ [(key, value)] := by
  have missing : named.any (fun field => field.1 = key) = false := by
    rw [List.any_eq_false]
    intro field member same
    exact fresh (List.mem_map.mpr ⟨field, member, of_decide_eq_true same⟩)
  unfold LuaFields.set
  split
  · exact absurd rfl some_
  · simp [missing]

/-- A row that is converted becomes the table of its cells. The induction is on the fields
still to be converted. -/
theorem rowFields_eq {e : Engine} {row : List SqlValue} {item result : LuaFields}
    {fields : List (FieldAndType × Nat)} (done : rowFields e row item fields = some result)
    (distinct : (item.map Prod.fst ++ fields.map fun field => field.1.fieldName).Nodup) :
    result = item ++ fields.filterMap (cellOf e row) := by
  induction fields generalizing item with
  | nil =>
    cases done
    simp
  | cons field rest ih =>
    obtain ⟨field,index⟩ := field
    have fresh : field.fieldName ∉ item.map Prod.fst := by
      rw [List.map_cons, List.nodup_middle, List.nodup_cons] at distinct
      exact fun member => distinct.1 (List.mem_append_left _ member)
    rw [rowFields] at done
    split at done
    · cases done
    next cell found =>
      split at done
      next isNull =>
        split at done
        · cases done
        · have later := ih done (distinct.sublist (by simp))
          simp [later, cellOf, found, isNull]
      next text isText =>
        split at done
        · cases done
        next value read =>
          rw [set_fresh (read_ne_nil read) fresh] at done
          have later := ih done (by simpa using distinct)
          simp [later, cellOf, found, isText, read]

theorem filterMap_zip {e : Engine} {set : ResultSet} {row : List SqlValue}
    {fields : List FieldAndType} {indices : List Nat}
    (found : List.Forall₂ (fun field index => fieldNum (some set) field.fieldName = some index)
      fields indices) :
    (fields.zip indices).filterMap (cellOf e row) = selectedCells e set fields row := by
  induction found with
  | nil => rfl
  | cons first _ ih =>
    rw [selectedCells] at ih ⊢
    simp only [List.zip_cons_cons, List.filterMap_cons, ih, first, Option.bind_eq_bind,
      Option.bind_some]

theorem selected_names (e : Engine) (set : ResultSet) (fields : List FieldAndType)
    (row : List SqlValue) :
    ((selectedCells e set fields row).map Prod.fst).Sublist (fields.map FieldAndType.fieldName) := by
  have name {field : FieldAndType} {cell : String × LuaValue}
      (kept : ((fieldNum (some set) field.fieldName).bind fun index => cellOf e row (field, index)) =
        some cell) : cell.1 = field.fieldName := by
    simp only [cellOf, Option.bind_eq_bind, Option.pure_def, Option.bind_eq_some_iff,
      Option.some.injEq] at kept
    obtain ⟨_,_,_,_,_,_,_,_,rfl⟩ := kept
    rfl
  induction fields with
  | nil => exact .slnil
  | cons field rest ih =>
    rw [selectedCells] at ih ⊢
    rw [List.filterMap_cons]
    split
    · exact ih.cons _
    next cell kept =>
      rw [List.map_cons, List.map_cons, name kept]
      exact ih.cons_cons _

/-- The rows a result set is converted to, when no assertion fails. -/
theorem serializeQueryResult_eq {e : Engine} {it : Iteration} {set : ResultSet}
    {tableName text : String} {fields : List FieldAndType}
    (distinct : (fields.map FieldAndType.fieldName).Nodup)
    (done : serializeQueryResult e it (some set) tableName fields = some text) :
    text = luaConfSerialize (.table [] (set.rows.map fun row =>
      .table (it.order (selectedCells e set fields row)) [])) tableName 0 := by
  simp only [serializeQueryResult, Option.bind_eq_bind, Option.bind_some, Option.bind_eq_some_iff,
    Option.pure_def, Option.some.injEq, Outcome.mapM_eq_some] at done
  obtain ⟨indices,found,items,converted,rfl⟩ := done
  have names : (fields.zip indices).map (fun field => field.1.fieldName) =
      fields.map FieldAndType.fieldName := by
    have firsts := congrArg (List.map FieldAndType.fieldName) (List.map_fst_zip found.length_eq.le)
    rw [List.map_map] at firsts
    exact firsts
  have rows : items = set.rows.map (selectedCells e set fields) := by
    have same : List.Forall₂ (flip fun item row => item = selectedCells e set fields row)
        set.rows items := converted.imp fun row item made =>
      (rowFields_eq made (by simpa [names] using distinct)).trans (filterMap_zip found)
    rw [← List.forall₂_eq_eq_eq, List.forall₂_map_right_iff]
    exact same.flip
  rw [rows, List.map_map]
  rfl

end PcCourse.RoundTrip
