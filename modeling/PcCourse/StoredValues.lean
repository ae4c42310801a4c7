import PcCourse.OrderFinality

/-! What the columns hold in states that only the handlers have changed: more than the schema
asks for. Names are no NULLs, telephone numbers come from signed integers, and ids and
counts fit their columns. -/
namespace PcCourse.UserRequest

open SqlCall Outcome Transition

/-- An id that AUTO_INCREMENT gives to an INT column. -/
def Numbered (id : Int) : Prop := 1 ≤ id ∧ id ≤ intMax

structure Listable (db : Db) : Prop where
  userRank : db.userRank = schema.userRank
  distributor : db.distributor = schema.distributor
  itemType : db.itemType = schema.itemType
  users : ∀ u ∈ db.user, u.sname.isSome ∧ u.name.isSome ∧ u.pname.isSome
  customers : ∀ row ∈ db.customer,
    row.telephone ≤ int64Max ∧ row.sname.isSome ∧ row.name.isSome ∧ row.pname.isSome
  orders : ∀ o ∈ db.newOrder, Numbered o.id
  items : ∀ row ∈ db.item, Numbered row.id ∧ row.countOnWarehouse ≤ unsignedMax
  lines : ∀ line ∈ db.orderedItem, Numbered line.id ∧ line.countInOrder ≤ unsignedMax
  nextOrder : 1 ≤ db.next.newOrder
  nextItem : 1 ≤ db.next.item
  nextLine : 1 ≤ db.next.orderedItem

/-- The arguments that the handlers never leave out. -/
def Filled : Update → Prop
  | .createUser _ _ sname name pname _ | .updateUser _ sname name pname _ =>
    sname.isSome ∧ name.isSome ∧ pname.isSome
  | .createCustomer telephone sname name pname =>
    (∀ tel ∈ telephone, (tel : Int) ≤ int64Max) ∧ sname.isSome ∧ name.isSome ∧ pname.isSome
  | _ => True

section
variable {c : Collation} {at_ : Occasion} {u : Update} {db after : Db}

theorem addItem_fits {name : Option String} {cost : Option Decimal} {count : Option Nat}
    {distributor type : Option Int} {description : Option String}
    (done : PcCourse.addItem name cost count distributor type description db = .ok after) :
    db.next.item ≤ intMax ∧ ∀ n ∈ count, n ≤ unsignedMax := by
  unfold PcCourse.addItem at done
  split at done
  · cases done
  split at done
  · cases done
  · simp only [bind_eq_ok, notNull_eq_ok, freshId_eq_ok, storeUnsigned_eq_ok] at done
    obtain ⟨_,⟨-,fits⟩,_,-,_,-,n,rfl,stored,⟨same,bound⟩,-⟩ := done
    refine ⟨fits, fun m member => ?_⟩
    cases member
    omega

theorem addOrderedItem_fits {order item : Option Int} {count : Option Nat}
    (done : addOrderedItem order item count db = .ok after) :
    db.next.orderedItem ≤ intMax ∧ ∀ n ∈ count, n ≤ unsignedMax := by
  unfold addOrderedItem at done
  split at done
  · cases done
  · simp only [bind_eq_ok, notNull_eq_ok, freshId_eq_ok, storeUnsigned_eq_ok] at done
    obtain ⟨_,⟨-,fits⟩,_,-,_,-,n,rfl,stored,⟨same,bound⟩,-⟩ := done
    refine ⟨fits, fun m member => ?_⟩
    cases member
    omega

/-- An update of counts that succeeds leaves counts that fit. -/
theorem fits_of_mapM {f : Item → Except SqlError Item} {rows updated : List Item}
    (counts : ∀ row new, f row = .ok new → new = row ∨ ∃ count, updateCount row count = .ok new)
    (done : rows.mapM f = .ok updated)
    (fit : ∀ row ∈ rows, Numbered row.id ∧ row.countOnWarehouse ≤ unsignedMax) :
    ∀ row ∈ updated, Numbered row.id ∧ row.countOnWarehouse ≤ unsignedMax := by
  have all := mapM_eq_ok.mp done
  clear done
  induction all with
  | nil => exact fun row member => absurd member List.not_mem_nil
  | @cons row new rows updated head _ ih =>
    rw [List.forall_mem_cons] at fit ⊢
    refine ⟨?_, ih fit.2⟩
    rcases counts row new head with rfl | ⟨count,changed⟩
    · exact fit.1
    · obtain ⟨-,bound,shape⟩ := updateCount_eq_ok.mp changed
      rw [shape]
      exact ⟨fit.1.1, bound⟩

theorem addItemCount_fits {id appended : Option Int}
    (done : PcCourse.addItemCount id appended db = .ok after)
    (fit : ∀ row ∈ db.item, Numbered row.id ∧ row.countOnWarehouse ≤ unsignedMax) :
    ∀ row ∈ after.item, Numbered row.id ∧ row.countOnWarehouse ≤ unsignedMax := by
  unfold PcCourse.addItemCount at done
  simp only [bind_eq_ok, pure_eq_ok] at done
  obtain ⟨item,updated,rfl⟩ := done
  refine fits_of_mapM (fun row new changed => ?_) updated fit
  split at changed
  · obtain ⟨n,-,counted⟩ := bind_eq_ok.mp changed
    exact .inr ⟨_, counted⟩
  · cases changed
    exact .inl rfl

theorem subtractOrder_fits {pick : Grouping.Pick Line} {id : Option Int}
    (done : subtractOrder pick id db = .ok after)
    (fit : ∀ row ∈ db.item, Numbered row.id ∧ row.countOnWarehouse ≤ unsignedMax) :
    ∀ row ∈ after.item, Numbered row.id ∧ row.countOnWarehouse ≤ unsignedMax := by
  unfold subtractOrder at done
  simp only [bind_eq_ok, pure_eq_ok] at done
  obtain ⟨item,updated,rfl⟩ := done
  refine fits_of_mapM (fun row new changed => ?_) updated fit
  split at changed
  · cases changed
    exact .inl rfl
  · exact .inr ⟨_, changed⟩

theorem Listable.exec (listable : Listable db) (filled : Filled u)
    (done : u.exec c at_ db = .ok after) : Listable after := by
  cases u with
  | deleteUser login =>
    cases done
    exact { listable with users := fun u member => listable.users u (List.mem_of_mem_filter member) }
  | createUser login pwd sname name pname rank =>
    obtain ⟨l,p,r,-,-,-,-,-,rfl⟩ := createUser_eq_ok done
    exact { listable with users := forall_snoc listable.users filled }
  | updateUser login sname name pname rank =>
    obtain ⟨r,-,-,rfl⟩ := updateUser_eq_ok done
    refine { listable with users := fun new member => ?_ }
    obtain ⟨u,inside,rfl⟩ := List.mem_map.mp member
    split
    · exact filled
    · exact listable.users u inside
  | createCustomer tel sname name pname =>
    obtain ⟨t,rfl,-,rfl⟩ := createCustomer_eq_ok done
    exact { listable with
      customers := forall_snoc listable.customers ⟨filled.1 t rfl, filled.2⟩ }
  | deleteCustomer tel =>
    cases done
    exact { listable with
      customers := fun row member => listable.customers row (List.mem_of_mem_filter member)
      orders := fun o member => listable.orders o (List.mem_of_mem_filter member)
      lines := fun line member => listable.lines line (List.mem_of_mem_filter member) }
  | addItem name cost count distributor type description =>
    obtain ⟨fits,bound⟩ := addItem_fits done
    obtain ⟨row,fresh,stored,-,-,rfl⟩ := addItem_eq_ok done
    have numbered : Numbered row.id := ⟨fresh ▸ listable.nextItem, fresh ▸ fits⟩
    exact { listable with
      items := forall_snoc listable.items ⟨numbered, bound _ stored⟩
      nextItem := Int.le_trans numbered.1 (Int.le_of_lt (Int.lt_succ _)) }
  | addItemCount id appended =>
    have items := addItemCount_fits done listable.items
    obtain ⟨item,rfl,-⟩ := addItemCount_eq_ok done
    exact { listable with items := items }
  | addOrderedItem order item count =>
    obtain ⟨fits,bound⟩ := addOrderedItem_fits done
    obtain ⟨line,fresh,-,-,stored,-,-,rfl⟩ := addOrderedItem_eq_ok done
    have numbered : Numbered line.id := ⟨fresh ▸ listable.nextLine, fresh ▸ fits⟩
    exact { listable with
      lines := forall_snoc listable.lines ⟨numbered, bound _ stored⟩
      nextLine := Int.le_trans numbered.1 (Int.le_of_lt (Int.lt_succ _)) }
  | addOrder tel expire =>
    have fits := addOrder_fits done
    obtain ⟨o,fresh,-,-,-,-,-,rfl⟩ := addOrder_eq_ok done
    have numbered : Numbered o.id := ⟨fresh ▸ listable.nextOrder, fresh ▸ fits⟩
    exact { listable with
      orders := forall_snoc listable.orders numbered
      nextOrder := Int.le_trans numbered.1 (Int.le_of_lt (Int.lt_succ _)) }
  | completeOrder id =>
    change PcCourse.completeOrder at_ id db = .ok after at done
    unfold PcCourse.completeOrder at done
    split at done
    · cases done
      exact listable
    · simp only [bind_eq_ok, pure_eq_ok] at done
      obtain ⟨middle,subtracted,rfl⟩ := done
      have items := subtractOrder_fits subtracted listable.items
      obtain ⟨item,rfl,-⟩ := subtractOrder_eq_ok subtracted
      refine { listable with orders := fun o member => ?_, items := items }
      obtain ⟨before,inside,same,-⟩ := mem_stampOrder member
      exact same ▸ listable.orders before inside

theorem Listable.rolledBack (listable : Listable db) {next : AutoIncrement}
    (later : NoLater db.next next) : Listable { toTables := db.toTables, next := next } :=
  { listable with
    nextOrder := Int.le_trans listable.nextOrder later.newOrder
    nextItem := Int.le_trans listable.nextItem later.item
    nextLine := Int.le_trans listable.nextLine later.orderedItem }

end

theorem schema_listable : Listable schema := by
  constructor <;> simp [schema]

theorem installed_listable (c : Collation) (now dateOfExpire : Int) :
    Listable (installed c now dateOfExpire) := by
  have filled : ∀ u ∈ closingCalls dateOfExpire, Filled u := by
    simp [closingCalls, Filled, int64Max]
  have along : Along (fun u => u.apply c ⟨now, .first⟩) (fun _ u => Filled u)
      (closingCalls dateOfExpire) schema := .of_forall _ _ fun u member _ => filled u member
  refine execute_invariant Listable (fun db u filled listable => ?_) _ _ along schema_listable
  unfold Update.apply
  cases done : u.exec c ⟨now, .first⟩ db with
  | ok after => exact listable.exec filled done
  | error fault => exact listable

/-- Strings free of single quotes and backslashes, integers of 64 bits. -/
inductive Plain : LuaValue → Prop
  | nil : Plain .nil
  | bool (b : Bool) : Plain (.bool b)
  | number (d : Decimal) : Plain (.number d)
  | function : Plain .function
  | int {n : Int} : int64Min ≤ n → n ≤ int64Max → Plain (.int n)
  | str {s : String} : isPlain s = true → Plain (.str s)
  | table {named : LuaFields} {array : List LuaValue} : (∀ field ∈ named, Plain field.2) →
    (∀ value ∈ array, Plain value) → Plain (.table named array)

section
variable {ref value : LuaValue} {key : String}

theorem Plain.getRawRef (plain : Plain ref) (read : ref.getRawRef key = some value) : Plain value := by
  cases plain with
  | @table named array fields _ =>
    change some ((named.lookup key).getD .nil) = some value at read
    cases found : named.lookup key with
    | none =>
      rw [found] at read
      cases read
      exact .nil
    | some v =>
      rw [found] at read
      cases read
      obtain ⟨before,after,shape,-⟩ := List.lookup_eq_some_iff.mp found
      exact fields (key, v) (by rw [shape]; exact List.mem_append_right _ List.mem_cons_self)
  | _ => cases read

theorem Plain.getRawString (plain : Plain ref) {s : String} (read : ref.getRawString key = some s) :
    isPlain s = true := by
  unfold LuaValue.getRawString at read
  split at read
  next found =>
    cases read
    cases plain.getRawRef found with
    | str isPlain => exact isPlain
  next => cases read

theorem Plain.verbatim (plain : Plain ref) {s : String} (read : ref.getRawString key = some s) :
    SqlText.isVerbatim s.toList = true := isVerbatim_of_isPlain (plain.getRawString read)

theorem Plain.getRawInt (plain : Plain ref) {n : Int} (read : ref.getRawInt key = some n) :
    n ≤ int64Max := by
  unfold LuaValue.getRawInt at read
  split at read
  next found =>
    cases read
    cases plain.getRawRef found with
    | int _ high => exact high
  next => cases read

end

section
variable {e : Engine} {limit : Nat} {column : String} {config : LuaValue}

theorem toVarchar_text {s : String} {result : Option String}
    (read : e.toVarchar limit column (.text s) = .ok result) : result.isSome := by
  obtain ⟨stored,-,rfl⟩ := storeText_map.mp read
  rfl

theorem toUnsigned_numeral {n : Int} {result : Option Nat}
    (read : e.toUnsigned limit column (.text (toString n)) = .ok result) :
    ∀ tel ∈ result, (tel : Int) = n := by
  unfold Engine.toUnsigned Engine.number at read
  simp only [Numeral.toList_toString, Numeral.signed?_ofInt, bind_eq_ok, Except.ok.injEq,
    exists_eq_left'] at read
  split at read
  next range =>
    rintro tel member
    cases pure_eq_ok.mp read
    cases member
    exact Int.toNat_of_nonneg range.1
  next => cases read

theorem createUser_filled {db : Db} {u : Update} {args : List String} (plain : Plain config)
    (read : readNewUser config = some args)
    (compiled : e.compile db (callText Procedure.createUser.name (args.map quoted)) =
      .ok (.update u)) : Filled u := by
  simp only [readNewUser, Option.bind_eq_bind, Option.bind_eq_some_iff, Option.pure_def,
    Option.some.injEq] at read
  obtain ⟨user,inside,login,hlogin,pwd,hpwd,sname,hsname,name,hname,pname,hpname,rank,-,rfl⟩ := read
  have fields := plain.getRawRef inside
  have verbatim : ∀ text ∈ [login, pwd, sname, name, pname, toString rank],
      SqlText.isVerbatim text.toList = true := by
    simp only [List.forall_mem_cons]
    exact ⟨fields.verbatim hlogin, fields.verbatim hpwd, fields.verbatim hsname,
      fields.verbatim hname, fields.verbatim hpname, verbatim_numeral rank, List.forall_mem_nil _⟩
  rw [e.compile_quoted db .createUser _ verbatim (by simp)] at compiled
  simp only [List.map_cons, List.map_nil, Engine.bind, bind_eq_ok, pure_eq_ok] at compiled
  obtain ⟨_,_,_,_,_,_,_,_,_,vs,s,hs,_,vn,n,hn,_,vp,p,hp,_,_,_,_,same⟩ := compiled
  cases vs
  cases vn
  cases vp
  rw [← Statement.update.inj same]
  exact ⟨toVarchar_text hs, toVarchar_text hn, toVarchar_text hp⟩

theorem updateUser_filled {db : Db} {u : Update} {args : List String} (plain : Plain config)
    (read : readUpdateUser config = some args)
    (compiled : e.compile db (callText Procedure.updateUser.name (args.map quoted)) =
      .ok (.update u)) : Filled u := by
  simp only [readUpdateUser, Option.bind_eq_bind, Option.bind_eq_some_iff, Option.pure_def,
    Option.some.injEq] at read
  obtain ⟨user,inside,login,hlogin,sname,hsname,name,hname,pname,hpname,rank,-,rfl⟩ := read
  have fields := plain.getRawRef inside
  have verbatim : ∀ text ∈ [login, sname, name, pname, toString rank],
      SqlText.isVerbatim text.toList = true := by
    simp only [List.forall_mem_cons]
    exact ⟨fields.verbatim hlogin, fields.verbatim hsname, fields.verbatim hname,
      fields.verbatim hpname, verbatim_numeral rank, List.forall_mem_nil _⟩
  rw [e.compile_quoted db .updateUser _ verbatim (by simp)] at compiled
  simp only [List.map_cons, List.map_nil, Engine.bind, bind_eq_ok, pure_eq_ok] at compiled
  obtain ⟨_,_,_,_,_,vs,s,hs,_,vn,n,hn,_,vp,p,hp,_,_,_,_,same⟩ := compiled
  cases vs
  cases vn
  cases vp
  rw [← Statement.update.inj same]
  exact ⟨toVarchar_text hs, toVarchar_text hn, toVarchar_text hp⟩

/-- A telephone number from a signed integer stays below the half of its column's range. -/
theorem createCustomer_filled {db : Db} {u : Update} {args : List String} (plain : Plain config)
    (read : readNewCustomer config = some args)
    (compiled : e.compile db (callText Procedure.createCustomer.name (args.map quoted)) =
      .ok (.update u)) : Filled u := by
  simp only [readNewCustomer, Option.bind_eq_bind, Option.bind_eq_some_iff, Option.pure_def,
    Option.some.injEq] at read
  obtain ⟨customer,inside,tel,htel,sname,hsname,name,hname,pname,hpname,rfl⟩ := read
  have fields := plain.getRawRef inside
  have verbatim : ∀ text ∈ [toString tel, sname, name, pname],
      SqlText.isVerbatim text.toList = true := by
    simp only [List.forall_mem_cons]
    exact ⟨verbatim_numeral tel, fields.verbatim hsname, fields.verbatim hname,
      fields.verbatim hpname, List.forall_mem_nil _⟩
  rw [e.compile_quoted db .createCustomer _ verbatim (by simp)] at compiled
  simp only [List.map_cons, List.map_nil, Engine.bind, bind_eq_ok, pure_eq_ok] at compiled
  obtain ⟨_,vt,t,ht,_,vs,s,hs,_,vn,n,hn,_,vp,p,hp,same⟩ := compiled
  cases vt
  cases vs
  cases vn
  cases vp
  rw [← Statement.update.inj same]
  refine ⟨fun stored member => ?_, toVarchar_text hs, toVarchar_text hn, toVarchar_text hp⟩
  rw [toUnsigned_numeral ht stored member]
  exact fields.getRawInt htel

theorem written_filled {db : Db} {p : Procedure} {args : List String} {u : Update}
    (plain : Plain config) (written : Written config p args)
    (compiled : e.compile db (callText p.name args) = .ok (.update u)) : Filled u := by
  have named := Engine.compile_procedure compiled
  cases written with
  | createUser read => exact createUser_filled plain read compiled
  | updateUser read => exact updateUser_filled plain read compiled
  | createCustomer read => exact createCustomer_filled plain read compiled
  | _ => cases u <;> trivial

theorem Listable.handled {before after : Db} (listable : Listable before) (plain : Plain config)
    (handled : Handled e config before after) : Listable after := by
  refine handled.preserves (fun origin ran listable => ?_)
    (fun later listable => listable.rolledBack later) listable
  rcases ran.cases with same | ⟨at_,u,compiled,named,done⟩
  · rwa [same]
  · refine listable.exec ?_ done
    rcases origin with written | rfl | rfl
    · exact written_filled plain written compiled
    · cases u <;> trivial
    · cases u <;> trivial

end

/-- Requests with plain texts keep the columns listable. -/
theorem run_listable (e : Engine) (requests : List Incoming)
    (plain : ∀ incoming ∈ requests, ∀ config ∈ incoming.config, Plain config) {db : Db}
    (listable : Listable db) : Listable (run e requests db) := by
  have along : Along (serve e) (fun _ incoming => ∀ config ∈ incoming.config, Plain config)
      requests db := .of_forall _ _ fun incoming member _ => plain incoming member
  exact execute_invariant Listable (fun _ _ plain listable =>
    serve_preserves (fun config parsed _ _ handled listable =>
      listable.handled (plain config parsed) handled) listable) _ _ along listable

end PcCourse.UserRequest
