import PcCourse.RemoteCalls
import PcCourse.ErrorTexts
import PcCourse.StoredText

/-! The tables of the server in the lists of a client: from the rows of the database through the
response of a listing to the rows that `ReceiveRemoteData` keeps. -/
namespace PcCourse.RemoteTables

open ClientRequests UserRequest RemoteCalls RemoteRows RoundTrip LuaText Grouping Transition
open LuaChunk (isIdentifier)
open LineBreaks ByteSearch
open RowSignals (resized)
open ErrorTexts (RunsLua)

section
variable {c : Char} {v : LuaValue}

/-- Characters that end a response or its script: no text that is written of a line has one. -/
def Ends (c : Char) : Prop := c = '\r' ∨ c = '\x00'

theorem free_intercalate {sep : String} {texts : List String} (apart : c ∉ sep.toList)
    (each : ∀ text ∈ texts, c ∉ text.toList) : c ∉ (sep.intercalate texts).toList := by
  induction texts with
  | nil => simp
  | cons text rest ih =>
    rw [List.forall_mem_cons] at each
    cases rest with
    | nil =>
      rw [String.intercalate_singleton]
      exact each.1
    | cons next rest =>
      rw [String.intercalate_cons_cons, String.toList_append, String.toList_append,
        List.mem_append, List.mem_append, not_or, not_or]
      exact ⟨⟨each.1, apart⟩, ih each.2⟩

theorem free_quotedStr (ends : Ends c) {s : String} (line : isLine s = true) :
    c ∉ (quotedStr s).toList := by
  have absent : c ∉ s.toList := by
    intro member
    have := StoredText.isLine_iff.mp line c member
    rcases ends with rfl | rfl
    · exact this.2.1 rfl
    · exact this.2.2 rfl
  have other : c ≠ '"' ∧ c ≠ '\\' := by
    rcases ends with rfl | rfl <;> decide
  have chars : c ∉ quotedChars s.toList := by
    generalize s.toList = cs at absent
    induction cs with
    | nil => exact List.not_mem_nil
    | cons d ds ih =>
      rw [List.mem_cons, not_or] at absent
      rw [quotedChars]
      split <;> simp [absent.1, ih absent.2, other.2]
  simp [quotedStr, chars, other.1]

theorem free_name (ends : Ends c) {name : String} (named : isName name = true) : c ∉ name.toList := by
  intro member
  have word : isNameChar c = true := by
    unfold isName at named
    split at named
    · cases named
    next d ds chars =>
      rw [Bool.and_eq_true, List.all_eq_true] at named
      exact named.2 c (chars ▸ member)
  rcases ends with rfl | rfl <;> exact absurd word (by decide)

theorem free_written (ends : Ends c) (storable : Storable v) : ∀ name tabs, c ∉ name.toList →
    c ∉ (luaConfSerialize v name tabs).toList := by
  have tabs_ (tabs : Nat) : c ∉ (writeTabs tabs).toList := by
    rw [writeTabs, String.toList_ofList]
    intro member
    have same := List.eq_of_mem_replicate member
    rcases ends with rfl | rfl <;> cases same
  have fixed {text : String} (both : '\r' ∉ text.toList ∧ '\x00' ∉ text.toList) : c ∉ text.toList := by
    rcases ends with rfl | rfl
    · exact both.1
    · exact both.2
  have leaf {v : LuaValue} (free : c ∉ v.leafText.toList) (written : ∀ name tabs, luaConfSerialize v name tabs =
      writeTabs tabs ++ (if name = "" then "" else name ++ " = ") ++ v.leafText) (name : String) (tabs : Nat)
      (outside : c ∉ name.toList) : c ∉ (luaConfSerialize v name tabs).toList := by
    rw [written, String.toList_append, String.toList_append, List.mem_append, List.mem_append, not_or,
      not_or]
    refine ⟨⟨tabs_ tabs, ?_⟩, free⟩
    split
    · exact fixed (by decide)
    · rw [String.toList_append, List.mem_append, not_or]
      exact ⟨outside, fixed (by decide)⟩
  induction storable with
  | bool b => exact leaf (by cases b <;> exact fixed (by decide)) fun _ _ => rfl
  | @int n range =>
    refine leaf ?_ fun _ _ => rfl
    rw [LuaValue.leafText, Numeral.toList_toString]
    intro member
    rcases Numeral.mem_ofInt member with dash | digit
    · rcases ends with rfl | rfl <;> cases dash
    · rcases ends with rfl | rfl <;> exact absurd digit (by decide)
  | @str s line => exact leaf (free_quotedStr ends line) fun _ _ => rfl
  | @table named array keys distinct fields items fieldFree itemFree =>
    intro name tabs outside
    have texts : ∀ text ∈ serializeNamed named (tabs + 1) ++ serializeArray array (tabs + 1),
        c ∉ text.toList := by
      rw [serializeNamed_eq fun field inside => (fields field inside).isWritten,
        serializeArray_eq fun value inside => (items value inside).isWritten, List.forall_mem_append,
        List.forall_mem_map, List.forall_mem_map]
      refine ⟨fun field inside => fieldFree field inside _ _ ?_,
        fun value inside => itemFree value inside _ _ (fixed (by decide))⟩
      exact free_name ends (isIdentifier_iff.mp (keys field inside)).1
    rw [luaConfSerialize]
    simp only [String.toList_append, List.mem_append, not_or]
    refine ⟨⟨⟨⟨⟨⟨?_, tabs_ tabs⟩, fixed (by decide)⟩, free_intercalate (fixed (by decide)) texts⟩,
      fixed (by decide)⟩, tabs_ tabs⟩, fixed (by decide)⟩
    split
    · exact fixed (by decide)
    · simp only [String.toList_append, List.mem_append, not_or]
      exact ⟨⟨tabs_ tabs, outside⟩, fixed (by decide)⟩

end

/-- What a response with a written tree leaves in its environment. -/
theorem execute_written {v : LuaValue} (storable : Storable v) {name message : String}
    (named : isIdentifier name = true) (other : name ≠ "response") (plain : LuaText.isPlain message = true) :
    LuaChunk.execute (makeResponseStr message ++ luaConfSerialize v name 0) =
      some [("response", .str message), (name, v)] := by
  obtain ⟨isName_,word⟩ := isIdentifier_iff.mp named
  obtain ⟨tokens,evaluates,readsAs⟩ := storable.reads
  have filled : name ≠ "" := by
    rintro rfl
    exact absurd isName_ (by decide)
  have text := readsAs name 0 (.inr isName_)
  rw [header, if_neg filled] at text
  have reserved : "response" ∉ LuaChunk.keywords := by decide
  have first := LuaChunk.run_assignment (LuaChunk.evaluates_str message) reserved [] ""
  have second := LuaChunk.run_assignment evaluates word (LuaFields.set [] "response" (.str message)) "response"
  have both : LuaChunk.State.run (.name "response" :: .sym '=' :: .str message ::
      ([.name name, .sym '='] ++ tokens)) ⟨[], "", [], .statement⟩ =
        some ⟨(LuaFields.set [] "response" (.str message)).set name v, name, [], .statement⟩ :=
    (LuaChunk.State.run_append [.name "response", .sym '=', .str message] _ _).trans (by rw [first]; exact second)
  rw [execute_of_run (reads_response plain text) both rfl, set_nil LuaValue.noConfusion,
    set_fresh storable.ne_nil (by simpa using other)]
  rfl

section
variable {lua : Lua}

theorem received_unbroken {text : String} (unbroken : ¬Broken text.toList) :
    ErrorTexts.received (text ++ "\r\n") = some text := by
  have alone := breaksAtEnd_iff.mpr unbroken
  have ended : (text ++ "\r\n").toList = text.toList ++ crLfChars := String.toList_append
  have found : find crLfChars (text.toList ++ crLfChars) 0 = some text.toList.length := by
    rw [find_eq_some_iff ((alone _).mpr rfl)]
    exact ⟨fun j before _ occurs => Nat.ne_of_lt before ((alone j).mp occurs), Nat.zero_le _⟩
  rw [ErrorTexts.received, ended, found, Option.map_some, List.take_left, String.ofList_toList]

theorem cStr_eq {text : String} (free : '\x00' ∉ text.toList) : cStr text = text := by
  have whole : text.toList.takeWhile (· ≠ '\x00') = text.toList :=
    List.takeWhile_eq_self_iff.mpr fun c member => by
      have other : c ≠ '\x00' := fun same => free (same ▸ member)
      simpa using other
  rw [cStr, whole, String.ofList_toList]

/-- A response with a written tree arrives whole, and the client finds the tree in it. -/
theorem response_arrives (runs : RunsLua lua) {v : LuaValue} (storable : Storable v) {name : String}
    (named : isIdentifier name = true) (other : name ≠ "response") :
    let text := makeResponseStr "success" ++ luaConfSerialize v name 0
    ErrorTexts.received (text ++ "\r\n") = some text ∧
      lua (cStr text) = [("response", .str "success"), (name, v)] := by
  intro text
  have free {c : Char} (ends : Ends c) : c ∉ text.toList := by
    rw [String.toList_append, List.mem_append, not_or]
    refine ⟨?_, free_written ends storable name 0 (free_name ends (isIdentifier_iff.mp named).1)⟩
    have line := ErrorTexts.isLine_response (m := "success") (by decide) c
    rcases ends with rfl | rfl
    · exact fun member => (line member).1 rfl
    · exact fun member => (line member).2 rfl
  constructor
  · exact received_unbroken (broken_of_not_mem (free (.inl rfl)))
  · rw [cStr_eq (free (.inr rfl))]
    exact runs.data _ _ (execute_written storable named other (by decide))

theorem lookup_perm {named cells : LuaFields} (perm : named.Perm cells)
    (distinct : (cells.map Prod.fst).Nodup) {key : String} {value : LuaValue}
    (member : (key, value) ∈ cells) : named.lookup key = some value := by
  have inside := perm.mem_iff.mpr member
  have nodup := (perm.map Prod.fst).nodup_iff.mpr distinct
  clear perm distinct member
  induction named with
  | nil => cases inside
  | cons field rest ih =>
    rw [List.map_cons, List.nodup_cons] at nodup
    rcases List.mem_cons.mp inside with rfl | later
    · simp
    · have other : (key == field.1) = false := by
        have apart : key ≠ field.1 := fun same => nodup.1 (same ▸ List.mem_map_of_mem later)
        simpa using apart
      rw [List.lookup_cons, other]
      exact ih later nodup.2

/-- A listing whose rows hold items is written, arrives, and is read as these items. -/
theorem listing_read (runs : RunsLua lua) {α : Type} {has : LuaValue → α → Prop} {e : Engine}
    {set : ResultSet} {fields : List FieldAndType} {tableName : String} {items : List α}
    (listed : Listed e set fields) (it : Iteration) (named : isIdentifier tableName = true)
    (other : tableName ≠ "response") (names : ∀ field ∈ fields, isIdentifier field.fieldName = true)
    (distinct : (fields.map FieldAndType.fieldName).Nodup)
    (cells : ∀ row ∈ set.rows, ∀ cell ∈ selectedCells e set fields row, Storable cell.2)
    (rows : List.Forall₂ (fun row item => ∀ named, named.Perm (selectedCells e set fields row) →
      has (.table named []) item) set.rows items) :
    ∃ text, (serializeQueryResult e it (some set) tableName fields).map (makeResponseStr "success" ++ ·) =
        some text ∧ ErrorTexts.received (text ++ "\r\n") = some text ∧ Lists lua tableName has text items := by
  obtain ⟨text,written⟩ := Option.isSome_iff_exists.mp (listed.serialize it tableName)
  have tree : Storable (resultTree e it set fields) := by
    refine .table (by simp) (by simp) (by simp) fun value member => ?_
    obtain ⟨row,inside,rfl⟩ := List.mem_map.mp member
    have perm := it.perm (selectedCells e set fields row)
    have kept := selected_names e set fields row
    refine .table (fun field member => ?_) ((perm.map Prod.fst).nodup_iff.mpr (distinct.sublist kept))
      (fun field member => cells row inside field (perm.mem_iff.mp member)) (by simp)
    obtain ⟨type,isField,same⟩ := List.mem_map.mp
      (kept.subset (List.mem_map_of_mem (perm.mem_iff.mp member)))
    exact same ▸ names type isField
  obtain ⟨arrives,environment⟩ := response_arrives runs tree named other
  have shape : text = luaConfSerialize (resultTree e it set fields) tableName 0 :=
    serializeQueryResult_eq distinct written
  refine ⟨makeResponseStr "success" ++ text, by rw [written, Option.map_some], ?_, ?_, ?_⟩
  · rw [shape]
    exact arrives
  · rw [shape, environment]
    rfl
  · have found : [("response", LuaValue.str "success"), (tableName, resultTree e it set fields)].lookup
        tableName = some (resultTree e it set fields) := by
      have apart : (tableName == "response") = false := by simpa using other
      rw [List.lookup_cons, apart]
      simp
    refine ⟨[], set.rows.map fun row => .table (it.order (selectedCells e set fields row)) [], ?_, ?_⟩
    · rw [shape, environment, found]
      rfl
    · rw [List.forall₂_map_left_iff]
      exact rows.imp fun row item holds => holds _ (it.perm _)

end

/-- A row of the list of customers shows a customer. -/
def ShowsCustomer (row : Customer) (item : CustomerItem) : Prop :=
  item.telNumber = row.telephone ∧ row.sname = some item.sname ∧ row.name = some item.name ∧
    row.pname = some item.pname

/-- A row of the list of users shows a user, and the name of its rank. -/
def ShowsUser (db : Db) (u : User) (item : UsersModel.UserItem) : Prop :=
  item.login = u.login ∧ u.sname = some item.sname ∧ u.name = some item.name ∧
    u.pname = some item.pname ∧ ∃ r ∈ db.userRank, r.id = u.rank ∧ r.name = some item.rank

def IsLine (text : Option String) : Prop := ∀ s ∈ text, isLine s = true

structure Lined (db : Db) : Prop where
  users : ∀ u ∈ db.user, isLine u.login = true ∧ IsLine u.sname ∧ IsLine u.name ∧ IsLine u.pname
  customers : ∀ row ∈ db.customer, IsLine row.sname ∧ IsLine row.name ∧ IsLine row.pname

section
variable {e : Engine} {db : Db}

def customerFields : List FieldAndType :=
  [⟨"telephone", .int, true⟩, ⟨"sname", .string, true⟩, ⟨"name", .string, true⟩, ⟨"pname", .string, true⟩]

def userFields : List FieldAndType :=
  [⟨"login", .string, true⟩, ⟨"sname", .string, true⟩, ⟨"name", .string, true⟩, ⟨"pname", .string, true⟩,
    ⟨"rank", .string, true⟩]

theorem selectedCells_cons {set : ResultSet} {row : List SqlValue} {field : FieldAndType}
    {rest : List FieldAndType} {cell : SqlValue} {text : String} {value : LuaValue} (index : Nat)
    (column : fieldNum (some set) field.fieldName = some index) (found : row[index]? = some cell)
    (written : e.text cell = some text) (read : field.type.read text = some value) :
    selectedCells e set (field :: rest) row = (field.fieldName, value) :: selectedCells e set rest row := by
  have one : ((fieldNum (some set) field.fieldName).bind fun index => cellOf e row (field, index)) =
      some (field.fieldName, value) := by
    simp [column, cellOf, found, written, read]
  exact List.filterMap_cons_some one

theorem cells_customer {tel : Nat} {sname name pname : String} (fits : (tel : Int) ≤ int64Max) :
    selectedCells e (PcCourse.getCustomers db) customerFields
        [.int tel, .text sname, .text name, .text pname] =
      [("telephone", .int tel), ("sname", .str sname), ("name", .str name), ("pname", .str pname)] := by
  have low : int64Min ≤ (tel : Int) := Int.le_trans (by decide) (Int.natCast_nonneg tel)
  have read : VMType.int.read (toString (tel : Int)) = some (.int tel) := by
    rw [VMType.read, fromCharsInt_toString low fits, Option.map_some]
  rw [customerFields, selectedCells_cons 0 rfl rfl rfl read,
    selectedCells_cons 1 rfl rfl rfl rfl, selectedCells_cons 2 rfl rfl rfl rfl,
    selectedCells_cons 3 rfl rfl rfl rfl]
  rfl

theorem cells_user {login sname name pname rank : String} :
    selectedCells e (PcCourse.getUsers db) userFields
        [.text login, .text sname, .text name, .text pname, .text rank] =
      [("login", .str login), ("sname", .str sname), ("name", .str name), ("pname", .str pname),
        ("rank", .str rank)] := by
  rw [userFields, selectedCells_cons 0 rfl rfl rfl rfl,
    selectedCells_cons 1 rfl rfl rfl rfl, selectedCells_cons 2 rfl rfl rfl rfl,
    selectedCells_cons 3 rfl rfl rfl rfl, selectedCells_cons 4 rfl rfl rfl rfl]
  rfl

variable {lua : Lua}

theorem table_read {α β : Type} (runs : RunsLua lua) {set : ResultSet} {fields : List FieldAndType}
    {tableName : String} {has : LuaValue → β → Prop} {shows : α → β → Prop} {xs : List α}
    {row : α → List SqlValue} (listed : Listed e set fields) (it : Iteration)
    (named : isIdentifier tableName = true) (other : tableName ≠ "response")
    (names : ∀ field ∈ fields, isIdentifier field.fieldName = true)
    (distinct : (fields.map FieldAndType.fieldName).Nodup) (rows : set.rows = xs.map row)
    (each : ∀ x ∈ xs, ∃ item cells, shows x item ∧ selectedCells e set fields (row x) = cells ∧
      (∀ cell ∈ cells, Storable cell.2) ∧ ∀ named, named.Perm cells → has (.table named []) item) :
    ∃ text items, (serializeQueryResult e it (some set) tableName fields).map
        (makeResponseStr "success" ++ ·) = some text ∧
      ErrorTexts.received (text ++ "\r\n") = some text ∧ Lists lua tableName has text items ∧
      List.Forall₂ shows xs items := by
  obtain ⟨items,all⟩ := exists_tokens each
  have cells : ∀ values ∈ set.rows, ∀ cell ∈ selectedCells e set fields values, Storable cell.2 := by
    rw [rows, List.forall_mem_map]
    intro x member
    obtain ⟨item,_,-,rfl,storable,-⟩ := each x member
    exact storable
  have read : List.Forall₂ (fun values item => ∀ named, named.Perm (selectedCells e set fields values) →
      has (.table named []) item) set.rows items := by
    rw [rows, List.forall₂_map_left_iff]
    refine all.imp fun x item one => ?_
    obtain ⟨_,-,rfl,-,holds⟩ := one
    exact holds
  obtain ⟨text,written,arrives,lists⟩ := listing_read runs listed it named other names distinct cells read
  refine ⟨text, items, written, arrives, lists, all.imp fun x item one => ?_⟩
  obtain ⟨_,shown,-⟩ := one
  exact shown

theorem customers_read (runs : RunsLua lua) (listable : Listable db) (lined : Lined db) (it : Iteration) :
    ∃ text items, (serializeQueryResult e it (some (PcCourse.getCustomers db)) "customers"
          customerFields).map (makeResponseStr "success" ++ ·) = some text ∧
      ErrorTexts.received (text ++ "\r\n") = some text ∧ Lists lua "customers" HasCustomer text items ∧
      List.Forall₂ ShowsCustomer db.customer items := by
  refine table_read runs (getCustomers_listed listable) it (by decide) (by decide) (by decide) (by decide)
    rfl fun row member => ?_
  obtain ⟨telephone,sname,name,pname⟩ := row
  obtain ⟨fits,hs,hn,hp⟩ := listable.customers _ member
  obtain ⟨sname,rfl⟩ := Option.isSome_iff_exists.mp hs
  obtain ⟨name,rfl⟩ := Option.isSome_iff_exists.mp hn
  obtain ⟨pname,rfl⟩ := Option.isSome_iff_exists.mp hp
  obtain ⟨ls,ln,lp⟩ := lined.customers _ member
  refine ⟨⟨telephone, sname, name, pname⟩, _, ⟨rfl, rfl, rfl, rfl⟩, cells_customer fits, ?_, fun named perm => ?_⟩
  · simp only [List.forall_mem_cons]
    exact ⟨.int ⟨Int.le_trans (by decide) (Int.natCast_nonneg _), fits⟩, .str (ls _ rfl), .str (ln _ rfl),
      .str (lp _ rfl), List.forall_mem_nil _⟩
  · have found {key : String} {value : LuaValue} : (key, value) ∈ _ → named.lookup key = some value :=
      lookup_perm perm (by simp)
    refine ⟨named, [], telephone, rfl, found (by simp), ?_, found (by simp), found (by simp), found (by simp)⟩
    have small : (telephone : Int) < 2 ^ 64 := Int.lt_of_le_of_lt fits (by decide)
    exact (Int.emod_eq_of_lt (Int.natCast_nonneg _) small).symm

theorem users_read (runs : RunsLua lua) {c : Collation} (valid : Integrity c db) (listable : Listable db)
    (lined : Lined db) (it : Iteration) :
    ∃ text items, (serializeQueryResult e it (some (PcCourse.getUsers db)) "users" userFields).map
        (makeResponseStr "success" ++ ·) = some text ∧
      ErrorTexts.received (text ++ "\r\n") = some text ∧ Lists lua "users" HasUser text items ∧
      List.Forall₂ (ShowsUser db) db.user items ∧
      UsersModel.readUsers (PcCourse.getUsers db).rows = some items := by
  have table : ∃ text items, (serializeQueryResult e it (some (PcCourse.getUsers db)) "users" userFields).map
        (makeResponseStr "success" ++ ·) = some text ∧
      ErrorTexts.received (text ++ "\r\n") = some text ∧ Lists lua "users" HasUser text items ∧
      List.Forall₂ (fun (row : User × UserRank) item => ShowsUser db row.1 item ∧
          UsersModel.readUser [.text row.1.login, .ofText row.1.sname, .ofText row.1.name,
            .ofText row.1.pname, .ofText row.2.name] = some item)
        (join (fun u r => u.rank = r.id) db.user db.userRank) items := by
    refine table_read runs (getUsers_listed listable) it (by decide) (by decide) (by decide) (by decide)
      rfl fun row member => ?_
    obtain ⟨user,ranked,on⟩ := mem_join.mp member
    obtain ⟨⟨login,pwd,sname,name,pname,rank⟩,id,title⟩ := row
    obtain ⟨hs,hn,hp⟩ := listable.users _ user
    obtain ⟨sname,rfl⟩ := Option.isSome_iff_exists.mp hs
    obtain ⟨name,rfl⟩ := Option.isSome_iff_exists.mp hn
    obtain ⟨pname,rfl⟩ := Option.isSome_iff_exists.mp hp
    obtain ⟨ll,ls,ln,lp⟩ := lined.users _ user
    have known : ∀ r ∈ db.userRank, ∃ text, r.name = some text ∧ isLine text = true := by
      rw [listable.userRank]
      simp only [schema, List.forall_mem_cons]
      exact ⟨⟨_, rfl, by decide⟩, ⟨_, rfl, by decide⟩, ⟨_, rfl, by decide⟩, List.forall_mem_nil _⟩
    obtain ⟨title,rfl,lr⟩ := known _ ranked
    refine ⟨⟨login, sname, name, pname, title⟩, _, ⟨⟨rfl, rfl, rfl, rfl, _, ranked, ?_, rfl⟩, rfl⟩, cells_user,
      ?_, fun named perm => ?_⟩
    · simpa [eq_comm] using on
    · simp only [List.forall_mem_cons]
      exact ⟨.str ll, .str (ls _ rfl), .str (ln _ rfl), .str (lp _ rfl), .str lr, List.forall_mem_nil _⟩
    · have found {key : String} {value : LuaValue} : (key, value) ∈ _ → named.lookup key = some value :=
        lookup_perm perm (by simp)
      exact ⟨named, [], rfl, found (by simp), found (by simp), found (by simp), found (by simp),
        found (by simp)⟩
  obtain ⟨text,items,written,arrives,lists,shown⟩ := table
  refine ⟨text, items, written, arrives, lists, ?_, ?_⟩
  · have users := shown.imp fun _ _ => And.left
    rw [← List.forall₂_map_left_iff, usersWithRanks_fst valid] at users
    exact users
  · exact Outcome.mapM_eq_some.mpr (List.forall₂_map_left_iff.mpr (shown.imp fun _ _ => And.right))

end

def Tidy : Update → Prop
  | .createUser login _ sname name pname _ => IsLine login ∧ IsLine sname ∧ IsLine name ∧ IsLine pname
  | .updateUser _ sname name pname _ | .createCustomer _ sname name pname =>
    IsLine sname ∧ IsLine name ∧ IsLine pname
  | _ => True

theorem Lined.exec {c : Collation} {at_ : Occasion} {u : Update} {db after : Db} (lined : Lined db)
    (tidy : Tidy u) (done : u.exec c at_ db = .ok after) : Lined after := by
  cases u with
  | deleteUser login =>
    cases done
    exact { lined with users := fun u member => lined.users u (List.mem_of_mem_filter member) }
  | createUser login pwd sname name pname rank =>
    obtain ⟨l,p,r,rfl,-,-,-,-,rfl⟩ := createUser_eq_ok done
    exact { lined with users := forall_snoc lined.users ⟨tidy.1 l rfl, tidy.2⟩ }
  | updateUser login sname name pname rank =>
    obtain ⟨r,-,-,rfl⟩ := updateUser_eq_ok done
    refine { lined with users := fun new member => ?_ }
    obtain ⟨u,inside,rfl⟩ := List.mem_map.mp member
    split
    · exact ⟨(lined.users u inside).1, tidy⟩
    · exact lined.users u inside
  | createCustomer tel sname name pname =>
    obtain ⟨t,-,-,rfl⟩ := createCustomer_eq_ok done
    exact { lined with customers := forall_snoc lined.customers tidy }
  | deleteCustomer tel =>
    cases done
    exact { lined with customers := fun row member => lined.customers row (List.mem_of_mem_filter member) }
  | addItem name cost count distributor type description =>
    obtain ⟨row,-,-,-,-,rfl⟩ := addItem_eq_ok done
    exact ⟨lined.users, lined.customers⟩
  | addItemCount id appended =>
    obtain ⟨item,rfl,-⟩ := addItemCount_eq_ok done
    exact ⟨lined.users, lined.customers⟩
  | addOrderedItem order item count =>
    obtain ⟨line,-,-,-,-,-,-,rfl⟩ := addOrderedItem_eq_ok done
    exact ⟨lined.users, lined.customers⟩
  | addOrder tel expire =>
    obtain ⟨o,-,-,-,-,-,-,rfl⟩ := addOrder_eq_ok done
    exact ⟨lined.users, lined.customers⟩
  | completeOrder id =>
    rcases completeOrder_eq_ok done with ⟨-,rfl⟩ | ⟨-,item,rfl,-⟩
    · exact lined
    · exact ⟨lined.users, lined.customers⟩

theorem isLine_stored {column text stored : String} (line : isLine text = true)
    (kept : storeText 64 column text = .ok stored) : isLine stored = true := by
  obtain ⟨-,rfl⟩ := storeText_eq_ok.mp kept
  rw [isLine, List.all_eq_true] at line ⊢
  intro c member
  rw [String.toList_ofList] at member
  exact line c (List.mem_of_mem_take member)

theorem isLine_of_plain {text : String} (plain : LuaText.isPlain text = true) : isLine text = true := by
  simp only [LuaText.isPlain, Bool.and_eq_true] at plain
  exact plain.1

section
variable {r : Request} {u : Update}

theorem asks_presentable (admissible : r.Admissible) (asks : Asks r u) : Filled u ∧ Tidy u := by
  have line {text column stored : String} (sent : text ∈ r.strings)
      (kept : storeText 64 column text = .ok stored) : IsLine (some stored) := by
    rintro s ⟨⟩
    exact isLine_stored (isLine_of_plain (admissible.1 text sent)) kept
  cases asks with
  | createUser known =>
    simp only [newUser, Outcome.bind_eq_ok, Outcome.pure_eq_ok] at known
    obtain ⟨_,hlogin,_,-,_,hsname,_,hname,_,hpname,rfl⟩ := known
    exact ⟨⟨rfl, rfl, rfl⟩, line (by simp [Request.strings]) hlogin, line (by simp [Request.strings]) hsname,
      line (by simp [Request.strings]) hname, line (by simp [Request.strings]) hpname⟩
  | deleteUser known =>
    simp only [oldUser, Outcome.bind_eq_ok, Outcome.pure_eq_ok] at known
    obtain ⟨_,-,rfl⟩ := known
    exact ⟨trivial, trivial⟩
  | createCustomer known =>
    simp only [RemoteCalls.newCustomer, Outcome.bind_eq_ok, Outcome.pure_eq_ok] at known
    obtain ⟨_,hsname,_,hname,_,hpname,rfl⟩ := known
    refine ⟨⟨?_, rfl, rfl, rfl⟩, line (by simp [Request.strings]) hsname,
      line (by simp [Request.strings]) hname, line (by simp [Request.strings]) hpname⟩
    rintro tel ⟨⟩
    exact admissible.2

end

/-- States that the lists of a client can show. -/
structure Presentable (c : Collation) (db : Db) : Prop where
  integrity : Integrity c db
  listable : Listable db
  lined : Lined db

theorem Presentable.exec {c : Collation} {at_ : Occasion} {u : Update} {db after : Db}
    (presentable : Presentable c db) (asked : Filled u ∧ Tidy u) (done : u.exec c at_ db = .ok after) :
    Presentable c after :=
  ⟨Update.exec_integrity presentable.integrity done, presentable.listable.exec asked.1 done,
    presentable.lined.exec asked.2 done⟩

theorem installed_presentable (c : Collation) (now dateOfExpire : Int) :
    Presentable c (installed c now dateOfExpire) := by
  have filled : ∀ u ∈ closingCalls dateOfExpire, Filled u := by
    simp [closingCalls, Filled, int64Max]
  have tidy : ∀ u ∈ closingCalls dateOfExpire, Tidy u := by
    simp only [closingCalls, List.forall_mem_cons, Tidy, IsLine, Option.mem_some_iff, forall_eq', and_true,
      List.not_mem_nil, IsEmpty.forall_iff, implies_true]
    decide
  have along : Along (fun u => u.apply c ⟨now, .first⟩) (fun _ u => Filled u ∧ Tidy u)
      (closingCalls dateOfExpire) schema :=
    .of_forall _ _ fun u member _ => ⟨filled u member, tidy u member⟩
  have first : Presentable c schema :=
    ⟨schema_integrity c, schema_listable, ⟨by simp [schema], by simp [schema]⟩⟩
  refine execute_invariant (Presentable c) (fun db u asked presentable => ?_) _ _ along first
  unfold Update.apply
  cases done : u.exec c ⟨now, .first⟩ db with
  | ok after => exact presentable.exec asked done
  | error fault => exact presentable

section
variable {e : Engine} {db : Db}

theorem Presentable.meaning {k : Conditions} {r : Request} (admissible : r.Admissible)
    (presentable : Presentable e.collation db) :
    Presentable e.collation (RemoteCalls.meaning e k r db).2 := by
  rcases meaning_cases e k db r with same | ⟨u,at_,asks,done⟩
  · rwa [same]
  · exact presentable.exec (asks_presentable admissible asks) done

theorem run_presentable {calls : List (Conditions × Request)} (sent : Sent calls)
    (presentable : Presentable e.collation db) : Presentable e.collation (run e (incomings calls) db) := by
  rw [run_incomings sent]
  have along : Along (fun call db => (RemoteCalls.meaning e call.1 call.2 db).2)
      (fun _ call => call.2.Admissible) calls db :=
    .of_forall _ _ fun call member _ => (sent call member).1
  exact execute_invariant (Presentable e.collation)
    (fun _ _ admissible presentable => presentable.meaning admissible) _ _ along presentable

end

/-- After any requests with plain strings, of all builders but `CreateItem`, a client with plain
credentials that refreshes a list while no call fails has the table in it as it is then, row by row
and in its order, whatever it had before; the list of users it gets as an administrator. -/
theorem refresh_shows_table (e : Engine) (now dateOfExpire : Int) (calls : List (Conditions × Request))
    (sent : Sent calls) (lua : Lua) (runs : RunsLua lua) (k : Conditions) (usr : UserLogin)
    (plain : ∀ s ∈ [usr.login, usr.password, usr.rank], LuaText.isPlain s = true) :
    let db := run e (incomings calls) (installed e.collation now dateOfExpire)
    (k.fault 0 = none → ∀ customers, ∃ text message items,
      ServedDatabase.answer e ⟨k, received (.getCustomers usr)⟩ db = (some text, db) ∧
      ErrorTexts.received (text ++ "\r\n") = some message ∧
      handle customersModel lua message .receiveRemoteData customers =
        (items, (resized customers.length items.length).map .row) ∧
      List.Forall₂ ShowsCustomer db.customer items) ∧
    (refusal e k ["Admin"] usr db = none → k.fault 1 = none → ∀ users, ∃ text message items,
      ServedDatabase.answer e ⟨k, received (.getUsers usr)⟩ db = (some text, db) ∧
      ErrorTexts.received (text ++ "\r\n") = some message ∧
      handle usersModel lua message .receiveRemoteData users =
        (items, (resized users.length items.length).map .row) ∧
      List.Forall₂ (ShowsUser db) db.user items) := by
  intro db
  have presentable : Presentable e.collation db :=
    run_presentable sent (installed_presentable e.collation now dateOfExpire)
  constructor
  · intro healthy customers
    obtain ⟨text,items,written,arrives,lists,shown⟩ :=
      customers_read (e := e) runs presentable.listable presentable.lined k.iteration
    refine ⟨text, text, items, ?_, arrives, rowsReceived_of_lists (fun _ _ => readCustomer_iff) _ lists, shown⟩
    have readable : (Request.getCustomers usr).Admissible := ⟨plain, trivial⟩
    rw [answer_meaning readable Builder.noConfusion, RemoteCalls.meaning, listed, healthy]
    exact congrArg (·, db) written
  · intro granted healthy users
    obtain ⟨text,items,written,arrives,lists,shown,-⟩ :=
      users_read (e := e) runs presentable.integrity presentable.listable presentable.lined k.iteration
    refine ⟨text, text, items, ?_, arrives, rowsReceived_of_lists (fun _ _ => readUser_iff) _ lists, shown⟩
    have readable : (Request.getUsers usr).Admissible := ⟨plain, trivial⟩
    rw [answer_meaning readable Builder.noConfusion, RemoteCalls.meaning, behind, granted]
    unfold listed
    rw [healthy]
    exact congrArg (·, db) written

theorem seeded_customers_shown : ∃ text message items,
    ServedDatabase.answer .standard ⟨.calm 0, received (.getCustomers ⟨"abobus", "", "Employee"⟩)⟩ seeded =
      (some text, seeded) ∧
    ErrorTexts.received (text ++ "\r\n") = some message ∧
    handle customersModel dataLua message .receiveRemoteData [] = (items, [.row (.inserted 0 2)]) ∧
    items.map CustomerItem.telNumber = [123, 456, 789] := by
  have none_ : Sent [] := fun _ member => absurd member List.not_mem_nil
  obtain ⟨customers,-⟩ := refresh_shows_table .standard (19675 * 86400) 20041 [] none_ dataLua
    ErrorTexts.dataLua_runs (.calm 0) ⟨"abobus", "", "Employee"⟩ (by decide)
  have first : run .standard (incomings []) (installed .binary (19675 * 86400) 20041) = seeded :=
    installed_seeded
  obtain ⟨text,message,items,answered,arrives,received_,shown⟩ := customers rfl []
  change ServedDatabase.answer _ _ (run .standard (incomings []) (installed .binary _ _)) =
    (_, run .standard (incomings []) (installed .binary _ _)) at answered
  change List.Forall₂ _ (run .standard (incomings []) (installed .binary _ _)).customer _ at shown
  rw [first] at answered shown
  have numbers : items.map CustomerItem.telNumber = seeded.customer.map Customer.telephone := by
    rw [← List.forall₂_eq_eq_eq, List.forall₂_map_left_iff, List.forall₂_map_right_iff]
    exact shown.flip.imp fun _ _ shows => shows.1
  refine ⟨text, message, items, answered, arrives, ?_, numbers⟩
  rw [received_, ← shown.length_eq]
  rfl

end PcCourse.RemoteTables
