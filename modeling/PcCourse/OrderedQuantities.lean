import PcCourse.OrderPlacement

/-! The quantities `add_order` asks the database to store, whatever the database answers
to its calls. -/
namespace PcCourse.UserRequest

open SqlCall Outcome

/-- What the database answers to the statements issued on a connection. -/
abbrev Backend := Session → String → Except SqlError Engine.Effect

def invokeOn (d : Backend) (sql : String) (f : Except SqlError Engine.Effect → Session → Reply)
    (s : Session) : Reply :=
  f (d s sql) (s.record sql (d s sql))

section
variable (e : Engine) (k : Conditions) (d : Backend)

def addOrderedItemsOn (newOrderId : Int) : List RequestedItem → Session → Reply
  | [], s => respond "success" s.commit
  | item :: rest, s =>
    invokeOn d
      (callText "AddOrderedItem" [quoted (toString newOrderId), quoted (toString item.itemId),
        quoted (toString item.countInOrder)])
      (fun outcome s =>
        match outcome with
        | .error _ => rollbackAndReport k s
        | .ok _ => addOrderedItemsOn newOrderId rest s) s

/-- `add_order` in front of a database whose answers are given, behind the check of the
user. -/
def addOrderOn (config : LuaValue) (s : Session) : Reply :=
  guarded e k ["Employee", "Admin"] config s fun s =>
    reading (readNewOrder k config) s fun order =>
      transaction k s fun s =>
        invokeOn d (addOrderText order.customerTel order.dateOfExpire)
          (fun outcome s =>
            match outcome with
            | .error _ => rollbackAndReport k s
            | .ok effect => addOrderedItemsOn k d (toInt32 effect.insertId) order.items s) s

end

section
variable {e : Engine} {k : Conditions} {d : Backend} {config : LuaValue} {s : Session}

theorem invokeOn_issue {sql : String} {f g : Except SqlError Engine.Effect → Session → Reply}
    (same : ∀ outcome s, f outcome s = g outcome s) :
    invokeOn (fun s sql => s.issue e k sql) sql f s = invokeStoredProcedure e k sql g s :=
  same _ _

theorem addOrderedItemsOn_issue (id : Int) (items : List RequestedItem) :
    addOrderedItemsOn k (fun s sql => s.issue e k sql) id items s = addOrderedItems e k id items s := by
  induction items generalizing s with
  | nil => rfl
  | cons item rest ih =>
    refine invokeOn_issue fun outcome s => ?_
    cases outcome with
    | error fault => rfl
    | ok effect => exact ih

/-- The handler is the one in front of the database in strict mode. -/
theorem addOrderOn_issue (config : LuaValue) (s : Session) :
    addOrderOn e k (fun s sql => s.issue e k sql) config s = addOrder e k config s := by
  refine congrArg (guarded e k _ config s) (funext fun s => ?_)
  refine congrArg (reading (readNewOrder k config) s) (funext fun order => ?_)
  refine congrArg (transaction k s) (funext fun s => ?_)
  refine invokeOn_issue fun outcome s => ?_
  cases outcome with
  | error fault => rfl
  | ok effect => exact addOrderedItemsOn_issue ..

end

def lineText (id : Int) (line : Int × Int) : String :=
  callText "AddOrderedItem" [quoted (toString id), quoted (toString line.1), quoted (toString line.2)]

def isLineCall (call : String × Option SqlError) : Bool :=
  "CALL AddOrderedItem(".toList.isPrefixOf call.1.toList

def lineCalls (before : Session) (reply : Reply) : List (String × Option SqlError) :=
  (reply.session.calls.drop before.calls.length).filter isLineCall

/-- The calls for these lines in order, up to the first one that fails. -/
inductive IssuedInOrder (id : Int) : List (Int × Int) → List (String × Option SqlError) → Prop
  | done : IssuedInOrder id [] []
  | failed (line : Int × Int) (rest : List (Int × Int)) (fault : SqlError) :
    IssuedInOrder id (line :: rest) [(lineText id line, some fault)]
  | next {rest : List (Int × Int)} {calls : List (String × Option SqlError)} (line : Int × Int) :
    IssuedInOrder id rest calls → IssuedInOrder id (line :: rest) ((lineText id line, none) :: calls)

/-- The request is answered with an error, and no line was sent. -/
def Declined (before : Session) (reply : Reply) : Prop :=
  (∃ text, reply.response = some text ∧ saysSuccess (some text) = false) ∧
    lineCalls before reply = []

def NotWrapped (config : LuaValue) (before : Session) (reply : Reply) : Prop :=
  Declined before reply ∨
    ∃ a, asked config = some a ∧ ∃ id, IssuedInOrder id a.lines (lineCalls before reply)

def LinesFit (k : Conditions) (config : LuaValue) : Prop :=
  ∀ a, asked config = some a → k.systemClock ≤ a.dateOfExpire →
    ∀ line ∈ a.lines, (intMin ≤ line.1 ∧ line.1 ≤ intMax) ∧ 0 ≤ line.2 ∧ line.2 ≤ unsignedMax

def narrowed (line : Int × Int) : RequestedItem := ⟨toInt32 line.1, toUInt32 line.2⟩

def RequestedItem.line (item : RequestedItem) : Int × Int := (item.itemId, item.countInOrder)

theorem narrowed_line_iff (line : Int × Int) : (narrowed line).line = line ↔
    (intMin ≤ line.1 ∧ line.1 ≤ intMax) ∧ 0 ≤ line.2 ∧ line.2 ≤ unsignedMax := by
  obtain ⟨id,count⟩ := line
  simp only [narrowed, RequestedItem.line, Prod.mk.injEq, toInt32, toUInt32, intMin, intMax, unsignedMax]
  omega

section
variable {k : Conditions} {config newOrder : LuaValue}

theorem readOrderedItem_eq (i : Nat) :
    readOrderedItem newOrder i = (askedLine newOrder i).map narrowed := by
  unfold readOrderedItem askedLine
  cases newOrder.getRawRefAt i with
  | none => rfl
  | some item =>
    simp only [Option.bind_eq_bind, Option.bind_some]
    cases item.getRawInt "item_id" with
    | none => rfl
    | some id => cases item.getRawInt "count_in_order" <;> rfl

theorem mapM_readOrderedItem (places : List Nat) :
    places.mapM (readOrderedItem newOrder) =
      (places.mapM (askedLine newOrder)).map (List.map narrowed) := by
  induction places with
  | nil => rfl
  | cons i rest ih =>
    simp only [List.mapM_cons, ih, readOrderedItem_eq]
    cases askedLine newOrder i with
    | none => rfl
    | some line => cases rest.mapM (askedLine newOrder) <;> rfl

/-- What the handler reads: the order the request asks for, each line of it converted. -/
theorem readNewOrder_eq_some {order : NewOrderRequest} : readNewOrder k config = some order ↔
    ∃ a, asked config = some a ∧ k.systemClock ≤ a.dateOfExpire ∧ a.lines ≠ [] ∧
      order = ⟨a.customerTelephone, a.dateOfExpire, a.lines.map narrowed⟩ := by
  simp only [readNewOrder, asked, Option.bind_eq_bind, Option.pure_def]
  cases config.getRawRef "new_order" with
  | none => simp
  | some newOrder =>
    simp only [Option.bind_some]
    cases newOrder.getRawInt "customer_telephone" with
    | none => simp
    | some tel =>
      simp only [Option.bind_some]
      cases newOrder.getRawInt "date_of_expire" with
      | none => simp
      | some expire =>
        simp only [Option.bind_some, mapM_readOrderedItem]
        cases newOrder.getLength with
        | none => by_cases late : k.systemClock > expire <;> simp [late]
        | some length =>
          simp only [Option.bind_some]
          cases read : (List.range' 1 length).mapM (askedLine newOrder) with
          | none => by_cases late : k.systemClock > expire <;> simp [late]
          | some lines =>
            have empty : length = 0 ↔ lines = [] := by
              rw [← List.length_eq_zero_iff, ← (mapM_eq_some.mp read).length_eq, List.length_range']
            by_cases late : k.systemClock > expire
            · have := Int.not_le.mpr late
              simp [late, this]
            · have := Int.not_lt.mp late
              by_cases none_ : lines = []
              · simp [late, empty, none_]
              · simp [late, empty, none_, this, eq_comm]

end

section
variable {e : Engine} {k : Conditions} {d : Backend} {config : LuaValue} {s : Session}

theorem toString_verbatim (n : Int) : SqlText.isVerbatim (toString n).toList = true := by
  simpa using isVerbatim_numeral "" (by simp) n

theorem toString_inj {m n : Int} (same : toString m = toString n) : m = n := by
  have chars := congrArg (fun text => Numeral.signed? text.toList) same
  simpa only [Numeral.toList_toString, Numeral.signed?_ofInt, Option.some.injEq] using chars

theorem lineText_inj {id id' : Int} {line line' : Int × Int}
    (same : lineText id line = lineText id' line') : line = line' := by
  have read : ∀ id (line : Int × Int), parse (lineText id line) = some ⟨"AddOrderedItem",
      [[.str (toString id)], [.str (toString line.1)], [.str (toString line.2)]]⟩ := by
    intro id line
    refine @parse_quoted _ [toString id, toString line.1, toString line.2] (by decide) ?_ (by simp)
    simp only [List.forall_mem_cons]
    exact ⟨toString_verbatim _, toString_verbatim _, toString_verbatim _, List.forall_mem_nil _⟩
  have calls := congrArg parse same
  rw [read, read] at calls
  simp only [Option.some.injEq, Call.mk.injEq, List.cons.injEq, SqlText.Token.str.injEq, and_true,
    true_and] at calls
  exact Prod.ext (toString_inj calls.2.1) (toString_inj calls.2.2)

theorem isLineCall_callText (name : String) (args : List String) (error : Option SqlError) :
    isLineCall (callText name args, error) = true ↔
      "AddOrderedItem(".toList <+: name.toList ++ '(' :: (", ".intercalate args ++ ");").toList := by
  have call : "CALL AddOrderedItem(".toList = "CALL ".toList ++ "AddOrderedItem(".toList := rfl
  have text : (callText name args).toList =
      "CALL ".toList ++ (name.toList ++ '(' :: (", ".intercalate args ++ ");").toList) := by
    simp [callText]
  rw [isLineCall, List.isPrefixOf_iff_prefix, call, text, List.prefix_append_right_inj]

theorem isLineCall_lineText (id : Int) (line : Int × Int) (error : Option SqlError) :
    isLineCall (lineText id line, error) = true :=
  (isLineCall_callText _ _ _).mpr (List.prefix_append "AddOrderedItem(".toList _)

theorem isLineCall_checkText (login password rank : String) (error : Option SqlError) :
    isLineCall (checkText login password rank, error) = false := by
  rw [Bool.eq_false_iff, checkText, ne_eq, isLineCall_callText]
  simp

theorem isLineCall_addOrderText (tel expire : Int) (error : Option SqlError) :
    isLineCall (addOrderText tel expire, error) = false := by
  rw [Bool.eq_false_iff, addOrderText, ne_eq, isLineCall_callText]
  simp

theorem issued_isLineCall {id : Int} {lines : List (Int × Int)} {calls : List (String × Option SqlError)}
    (issued : IssuedInOrder id lines calls) : ∀ call ∈ calls, isLineCall call = true := by
  induction issued with
  | done => simp
  | failed line rest fault => simp [isLineCall_lineText]
  | next line others ih => simpa [isLineCall_lineText] using ih

/-- The induction is on the items still to be sent. -/
theorem addOrderedItemsOn_calls (id : Int) (items : List RequestedItem) :
    ∃ calls, (addOrderedItemsOn k d id items s).session.calls = s.calls ++ calls ∧
      IssuedInOrder id (items.map RequestedItem.line) calls := by
  induction items generalizing s with
  | nil => exact ⟨[], by simp [addOrderedItemsOn, respond], .done⟩
  | cons item rest ih =>
    have text : callText "AddOrderedItem" [quoted (toString id), quoted (toString item.itemId),
        quoted (toString item.countInOrder)] = lineText id item.line := rfl
    simp only [addOrderedItemsOn, invokeOn, text]
    cases answer : d s (lineText id item.line) with
    | error fault =>
      refine ⟨[(lineText id item.line, some fault)], ?_, .failed _ _ fault⟩
      simp [rollbackAndReport, respond, Session.record]
    | ok effect =>
      obtain ⟨calls,sent,issued⟩ := ih (s := s.record (lineText id item.line) (.ok effect))
      exact ⟨(lineText id item.line, none) :: calls, by rw [sent]; simp [Session.record],
        .next _ issued⟩

variable (e k config s) in
theorem check_calls : ∃ before, (checkUserExistance e k config ["Employee", "Admin"] s).2.calls =
    s.calls ++ before ∧ ∀ call ∈ before, isLineCall call = false := by
  rcases check_session e k config ["Employee", "Admin"] s with same | ⟨login,password,rank,issued⟩
  · exact ⟨[], by simp [same], by simp⟩
  · rw [issued]
    cases s.issue e k (checkText login password rank) with
    | error fault => exact ⟨_, rfl, by simp [isLineCall_checkText]⟩
    | ok effect => exact ⟨_, rfl, by simp [isLineCall_checkText]⟩

theorem lineCalls_eq {reply : Reply} (before calls : List (String × Option SqlError))
    (issued : reply.session.calls = s.calls ++ before ++ calls)
    (others : ∀ call ∈ before, isLineCall call = false) :
    lineCalls s reply = calls.filter isLineCall := by
  have none_ : before.filter isLineCall = [] := List.filter_eq_nil_iff.mpr (by simpa using others)
  rw [lineCalls, issued, List.append_assoc, List.drop_left, List.filter_append, none_, List.nil_append]

theorem lineCalls_all {reply : Reply} {calls : List (String × Option SqlError)}
    (issued : reply.session.calls = s.calls ++ calls)
    (lines : ∀ call ∈ calls, isLineCall call = true) : lineCalls s reply = calls := by
  rw [lineCalls, issued, List.drop_left]
  exact List.filter_eq_self.mpr lines

theorem addOrderedItemsOn_issued (id : Int) (items : List RequestedItem) :
    IssuedInOrder id (items.map RequestedItem.line)
      (lineCalls s (addOrderedItemsOn k d id items s)) := by
  obtain ⟨calls,sent,issued⟩ := addOrderedItemsOn_calls (k := k) (d := d) (s := s) id items
  rw [lineCalls_all sent (issued_isLineCall issued)]
  exact issued

theorem addOrderOn_passed (granted : Granted e k config ["Employee", "Admin"] s) :
    addOrderOn e k d config s =
      let passed := (checkUserExistance e k config ["Employee", "Admin"] s).2
      reading (readNewOrder k config) passed fun order =>
        transaction k passed fun s =>
          invokeOn d (addOrderText order.customerTel order.dateOfExpire)
            (fun outcome s =>
              match outcome with
              | .error _ => rollbackAndReport k s
              | .ok effect => addOrderedItemsOn k d (toInt32 effect.insertId) order.items s) s := by
  unfold addOrderOn
  rcases guarded_cases e k config ["Employee", "Admin"] s _ with ⟨str,refused,same,-⟩ | ⟨-,same⟩
  · exact absurd (same.trans granted) refused
  · exact same

theorem addOrderOn_unread (granted : Granted e k config ["Employee", "Admin"] s)
    (unread : readNewOrder k config = none) : Declined s (addOrderOn e k d config s) := by
  obtain ⟨before,checked,others⟩ := check_calls e k config s
  rw [addOrderOn_passed granted, unread]
  refine ⟨⟨_, rfl, silent_bad_config⟩, lineCalls_eq before [] ?_ others⟩
  simpa [reading, respond] using checked

section
variable {order : NewOrderRequest}

def opened (e : Engine) (k : Conditions) (config : LuaValue) (s : Session) : Session :=
  (checkUserExistance e k config ["Employee", "Admin"] s).2.begin

theorem addOrderOn_refused (granted : Granted e k config ["Employee", "Admin"] s)
    (read : readNewOrder k config = some order) {fault : SqlError}
    (answer : d (opened e k config s) (addOrderText order.customerTel order.dateOfExpire) = .error fault) :
    Declined s (addOrderOn e k d config s) := by
  obtain ⟨before,checked,others⟩ := check_calls e k config s
  unfold opened at answer
  rw [addOrderOn_passed granted, read]
  simp only [reading, transaction, invokeOn, answer]
  refine ⟨⟨_, rfl, rollbackAndReport_silent _ fault⟩, ?_⟩
  rw [lineCalls_eq (before ++ [(addOrderText order.customerTel order.dateOfExpire, some fault)]) []
    ?_ ?_, List.filter_nil]
  · simp [rollbackAndReport, respond, Session.record, checked]
  · simpa [or_imp, forall_and, isLineCall_addOrderText] using others

theorem addOrderOn_taken (granted : Granted e k config ["Employee", "Admin"] s)
    (read : readNewOrder k config = some order) {effect : Engine.Effect}
    (answer : d (opened e k config s) (addOrderText order.customerTel order.dateOfExpire) = .ok effect) :
    ∃ s₁, let loop := addOrderedItemsOn k d (toInt32 effect.insertId) order.items s₁
      (addOrderOn e k d config s).response = loop.response ∧
      lineCalls s (addOrderOn e k d config s) = lineCalls s₁ loop := by
  obtain ⟨before,checked,others⟩ := check_calls e k config s
  unfold opened at answer
  rw [addOrderOn_passed granted, read]
  simp only [reading, transaction, invokeOn, answer]
  obtain ⟨calls,sent,issued⟩ :=
    addOrderedItemsOn_calls (k := k) (d := d) (toInt32 effect.insertId) order.items
  refine ⟨_, rfl, ?_⟩
  rw [lineCalls_all sent (issued_isLineCall issued), lineCalls_eq (before ++
    [(addOrderText order.customerTel order.dateOfExpire, none)]) calls ?_ ?_]
  · exact List.filter_eq_self.mpr (issued_isLineCall issued)
  · rw [Session.rollback_calls, sent]
    simp [Session.record, checked]
  · simpa [or_imp, forall_and, isLineCall_addOrderText] using others

end

theorem addOrderOn_sends (granted : Granted e k config ["Employee", "Admin"] s) :
    Declined s (addOrderOn e k d config s) ∨
      ∃ a, asked config = some a ∧ k.systemClock ≤ a.dateOfExpire ∧ ∃ id,
        IssuedInOrder id (a.lines.map fun line => (narrowed line).line)
          (lineCalls s (addOrderOn e k d config s)) := by
  cases read : readNewOrder k config with
  | none => exact .inl (addOrderOn_unread granted read)
  | some order =>
    cases answer : d (opened e k config s) (addOrderText order.customerTel order.dateOfExpire) with
    | error fault => exact .inl (addOrderOn_refused granted read answer)
    | ok effect =>
      obtain ⟨s₁,-,sent⟩ := addOrderOn_taken granted read answer
      obtain ⟨a,reads,future,-,rfl⟩ := readNewOrder_eq_some.mp read
      have issued := addOrderedItemsOn_issued (k := k) (d := d) (s := s₁) (toInt32 effect.insertId)
        (a.lines.map narrowed)
      rw [List.map_map] at issued
      exact .inr ⟨a, reads, future, _, sent ▸ issued⟩

end

def accepting : Backend := fun s _ => .ok ⟨s.db, none, 0⟩

section
variable {e : Engine} {k : Conditions} {config : LuaValue} {s : Session}

theorem accepted_calls (id : Int) (items : List RequestedItem) :
    (addOrderedItemsOn k accepting id items s).response = some (makeResponseStr "success") ∧
      (addOrderedItemsOn k accepting id items s).session.calls =
        s.calls ++ items.map fun item => (lineText id item.line, none) := by
  induction items generalizing s with
  | nil => exact ⟨rfl, by simp [addOrderedItemsOn, respond]⟩
  | cons item rest ih =>
    obtain ⟨answered,sent⟩ := ih (s := s.record (lineText id item.line) (.ok ⟨s.db, none, 0⟩))
    refine ⟨answered, ?_⟩
    change (addOrderedItemsOn k accepting id rest
      (s.record (lineText id item.line) (.ok ⟨s.db, none, 0⟩))).session.calls = _
    rw [sent]
    simp [Session.record]

theorem accepted_lineCalls (id : Int) (items : List RequestedItem) :
    lineCalls s (addOrderedItemsOn k accepting id items s) =
      (items.map RequestedItem.line).map fun line => (lineText id line, none) := by
  rw [lineCalls_all (accepted_calls id items).2 (by simp [isLineCall_lineText]), List.map_map]
  rfl

theorem issued_next {id : Int} {lines : List (Int × Int)} {text : String}
    {calls : List (String × Option SqlError)} (issued : IssuedInOrder id lines ((text, none) :: calls)) :
    ∃ line rest, lines = line :: rest ∧ text = lineText id line ∧ IssuedInOrder id rest calls := by
  cases issued with
  | next line others => exact ⟨line, _, rfl, rfl, others⟩

/-- Calls that all succeeded say which lines were sent. -/
theorem lines_of_accepted {id id' : Int} {lines sent : List (Int × Int)}
    (issued : IssuedInOrder id lines (sent.map fun line => (lineText id' line, none))) :
    lines = sent := by
  induction sent generalizing lines with
  | nil =>
    cases issued
    rfl
  | cons line rest ih =>
    obtain ⟨line',rest',rfl,same,others⟩ := issued_next issued
    rw [lineText_inj same, ih others]

theorem quantities_kept_iff (granted : Granted e k config ["Employee", "Admin"] s) :
    (∀ d : Backend, NotWrapped config s (addOrderOn e k d config s)) ↔ LinesFit k config := by
  constructor
  · intro kept a reads future line member
    have some_ : a.lines ≠ [] := List.ne_nil_of_mem member
    obtain ⟨s₁,answered,sent⟩ := addOrderOn_taken (d := accepting) granted
      (readNewOrder_eq_some.mpr ⟨a, reads, future, some_, rfl⟩) rfl
    rcases kept accepting with ⟨⟨text,response,silent⟩,-⟩ | ⟨a',reads',id,issued⟩
    · rw [← response, answered, (accepted_calls _ _).1] at silent
      exact absurd silent (by decide)
    · cases reads.symm.trans reads'
      rw [sent, accepted_lineCalls] at issued
      have same := lines_of_accepted issued
      rw [List.map_map] at same
      exact (narrowed_line_iff line).mp
        (List.map_eq_map_iff.mp (same.symm.trans (List.map_id _).symm) line member)
  · intro fit d
    refine (addOrderOn_sends granted).imp_right ?_
    rintro ⟨a,reads,future,id,issued⟩
    have exact_ : a.lines.map (fun line => (narrowed line).line) = a.lines :=
      (List.map_congr_left fun line member =>
        (narrowed_line_iff line).mpr (fit a reads future line member)).trans (List.map_id _)
    rw [exact_] at issued
    exact ⟨a, reads, id, issued⟩

end

/-- In front of the database in strict mode nothing is ever sent: the order itself is
refused. -/
theorem addOrder_declined {e : Engine} {k : Conditions} {config : LuaValue} {s : Session}
    (granted : Granted e k config ["Employee", "Admin"] s) :
    Declined s (addOrder e k config s) := by
  rw [← addOrderOn_issue]
  cases read : readNewOrder k config with
  | none => exact addOrderOn_unread granted read
  | some order =>
    obtain ⟨fault,failed⟩ :=
      addOrderText_fails e k (opened e k config s) order.customerTel order.dateOfExpire
    exact addOrderOn_refused granted read failed

theorem placeable_order_kept : LinesFit (.calm 1700000000) placeableOrder ∧
    ∀ d : Backend, NotWrapped placeableOrder (.opening seeded)
      (addOrderOn .standard (.calm 1700000000) d placeableOrder (.opening seeded)) := by
  have fit : LinesFit (.calm 1700000000) placeableOrder := by
    intro a reads _
    have order : asked placeableOrder = some ⟨123, 1800000000, [(1, 4)]⟩ := by decide
    cases order.symm.trans reads
    decide
  exact ⟨fit, (quantities_kept_iff (granted_employee rfl (by decide) rfl rfl)).mpr fit⟩

/-- The seeded employee orders 4294967300 pieces of the first item. -/
def hugeOrder : LuaValue :=
  .table [("request", .str "add_order"), ("user", employee),
    ("new_order", .table [("customer_telephone", .int 123), ("date_of_expire", .int 1800000000)]
      [.table [("item_id", .int 1), ("count_in_order", .int 4294967300)] []])] []

/-- A database out of strict mode: what is no date is the zero date, and the order is
stored with it. -/
def lenient : Backend := fun s sql =>
  if sql = addOrderText 123 1800000000 then
    (PcCourse.addOrder 1700000000 (some 123) (some (-719528)) s.db).map fun after =>
      ⟨after, none, s.db.next.newOrder⟩
  else s.issue .standard (.calm 1700000000) sql

/-- Four pieces are stored, and the request is answered with success. -/
theorem huge_order_wrapped :
    let reply := addOrderOn .standard (.calm 1700000000) lenient hugeOrder (.opening seeded)
    Granted .standard (.calm 1700000000) hugeOrder ["Employee", "Admin"] (.opening seeded) ∧
    reply.response = some (makeResponseStr "success") ∧
    reply.session.db.orderedItem.getLast?.map (·.countInOrder) = some 4 ∧
    ¬NotWrapped hugeOrder (.opening seeded) reply := by
  intro reply
  obtain ⟨answered,stored,sent⟩ : reply.response = some (makeResponseStr "success") ∧
      reply.session.db.orderedItem.getLast?.map (·.countInOrder) = some 4 ∧
      lineCalls (.opening seeded) reply = [(lineText 2 (1, 4), none)] := by
    simp only [reply, addOrderOn]
    rw [guarded_employee hugeOrder seeded rfl (by decide) rfl rfl]
    decide
  refine ⟨granted_employee rfl (by decide) rfl rfl, answered, stored, ?_⟩
  rw [NotWrapped, Declined, sent]
  rintro (⟨-,unsent⟩ | ⟨a,reads,id,issued⟩)
  · cases unsent
  · have order : asked hugeOrder = some ⟨123, 1800000000, [(1, 4294967300)]⟩ := by decide
    cases order.symm.trans reads
    obtain ⟨line,rest,same,text,-⟩ := issued_next issued
    cases same
    cases lineText_inj text

end PcCourse.UserRequest
