import PcCourse.Handling

/-! A rule for requests: what each statement keeps at the time it runs, and going back to
earlier tables keeps, a request keeps. -/
namespace PcCourse.UserRequest

open SqlCall

/-- What the statements of a request keep at their times. -/
structure Upheld (e : Engine) (k : Conditions) (invariant : Db → Prop) : Prop where
  statement : ∀ {n : Nat} {u : Update} {before after : Db},
    u.exec e.collation (k.occasion n) before = .ok after → invariant before → invariant after
  rollback : ∀ (before : Db) {next : AutoIncrement}, NoLater before.next next → invariant before →
    invariant { toTables := before.toTables, next := next }

/-- The rows of a session meet the invariant, and so do those it would go back to. -/
structure Holds (invariant : Db → Prop) (s : Session) : Prop where
  rows : invariant s.db
  snapshot : ∀ tables ∈ s.snapshot, invariant { toTables := tables, next := s.db.next }

section
variable {e : Engine} {k : Conditions} {invariant : Db → Prop} {s : Session} {config : LuaValue}
  {sql : String}

theorem exec_cases {at_ : Occasion} {db : Db} {effect : Engine.Effect}
    (done : e.exec db at_ sql = .ok effect) :
    effect.db = db ∨ ∃ u : Update, u.exec e.collation at_ db = .ok effect.db := by
  unfold Engine.exec at done
  split at done
  · cases done
  · cases done
    exact .inl rfl
  next u _ =>
    split at done
    · cases done
    next executed =>
      cases done
      exact .inr ⟨u, executed⟩

theorem Upheld.record (upheld : Upheld e k invariant) (holds : Holds invariant s) (sql : String) :
    Holds invariant (s.record sql (s.issue e k sql)) := by
  cases outcome : s.issue e k sql with
  | error fault => exact ⟨holds.rows, holds.snapshot⟩
  | ok effect =>
    unfold Session.issue at outcome
    split at outcome
    · cases outcome
    · rcases exec_cases outcome with same | ⟨u,done⟩
      · refine ⟨?_, fun tables open_ => ?_⟩
        · change invariant effect.db
          rw [same]
          exact holds.rows
        · change invariant { toTables := tables, next := effect.db.next }
          rw [same]
          exact holds.snapshot tables open_
      · refine ⟨upheld.statement done holds.rows, fun tables open_ => ?_⟩
        have later : NoLater s.db.next effect.db.next := exec_noLater done
        exact upheld.rollback { toTables := tables, next := s.db.next } later (holds.snapshot tables open_)

theorem Holds.begin (holds : Holds invariant s) : Holds invariant s.begin :=
  ⟨holds.rows, fun _ open_ => Option.mem_some.mp open_ ▸ holds.rows⟩

theorem Holds.commit (holds : Holds invariant s) : Holds invariant s.commit :=
  ⟨holds.rows, fun _ open_ => by cases open_⟩

theorem Holds.rollback (holds : Holds invariant s) : Holds invariant (s.rollback k) := by
  unfold Session.rollback
  split
  · exact holds
  next tables began => exact ⟨holds.snapshot tables began, fun _ open_ => by cases open_⟩

theorem Holds.rollbackAndReport (holds : Holds invariant s) :
    Holds invariant (rollbackAndReport k s).session := holds.rollback

theorem Upheld.check (upheld : Upheld e k invariant) (holds : Holds invariant s) (config : LuaValue)
    (ranks : List String) : Holds invariant (checkUserExistance e k config ranks s).2 := by
  rcases check_session e k config ranks s with same | ⟨login,password,rank,issued⟩
  · rwa [same]
  · rw [issued]
    exact upheld.record holds _

theorem Upheld.guarded (upheld : Upheld e k invariant) (holds : Holds invariant s) {ranks : List String}
    {body : Session → Reply}
    (behind : ∀ s', Holds invariant s' → Holds invariant (body s').session) :
    Holds invariant (guarded e k ranks config s body).session := by
  have checked := upheld.check holds config ranks
  rcases guarded_cases e k config ranks s body with ⟨str,-,-,same⟩ | ⟨-,same⟩
  · rw [same]
    exact checked
  · rw [same]
    exact behind _ checked

theorem Holds.reading {α : Type} (holds : Holds invariant s) {fields : Option α} {body : α → Reply}
    (behind : ∀ values, Holds invariant (body values).session) :
    Holds invariant (reading fields s body).session := by
  cases fields with
  | none => exact holds
  | some values => exact behind values

theorem Upheld.listing (upheld : Upheld e k invariant) (holds : Holds invariant s) {tableName : String}
    {fields : List FieldAndType} : Holds invariant (listing e k sql tableName fields s).session :=
  upheld.record holds _

theorem Upheld.unchecked (upheld : Upheld e k invariant) (holds : Holds invariant s) :
    Holds invariant (unchecked e k sql s).session :=
  upheld.record holds _

theorem Upheld.reporting (upheld : Upheld e k invariant) (holds : Holds invariant s) :
    Holds invariant (reporting e k sql s).session := by
  have recorded := upheld.record holds sql
  unfold UserRequest.reporting invokeStoredProcedure
  cases outcome : s.issue e k sql <;> rw [outcome] at recorded <;> exact recorded

theorem Upheld.transaction {body : Session → Reply}
    (inside : Holds invariant (body s.begin).session) :
    Holds invariant (transaction k s body).session := inside.rollback

theorem Upheld.completeOrder (upheld : Upheld e k invariant) (holds : Holds invariant s) :
    Holds invariant (completeOrder e k config s).session := by
  refine upheld.guarded holds fun s' holds => holds.reading fun id => Upheld.transaction ?_
  have recorded := upheld.record holds.begin (callText "CompleteOrder" [quoted (toString id)])
  unfold invokeStoredProcedure
  cases outcome : s'.begin.issue e k (callText "CompleteOrder" [quoted (toString id)]) with
  | error fault =>
    rw [outcome] at recorded
    exact recorded.rollbackAndReport
  | ok effect =>
    rw [outcome] at recorded
    exact recorded.commit

theorem Upheld.addOrderedItems (upheld : Upheld e k invariant) (orderId : Int)
    (items : List RequestedItem) (holds : Holds invariant s) :
    Holds invariant (addOrderedItems e k orderId items s).session := by
  induction items generalizing s with
  | nil => exact holds.commit
  | cons item rest ih =>
    unfold UserRequest.addOrderedItems invokeStoredProcedure
    generalize callText "AddOrderedItem" _ = sql
    have recorded := upheld.record holds sql
    cases outcome : s.issue e k sql with
    | error fault =>
      rw [outcome] at recorded
      exact recorded.rollbackAndReport
    | ok effect =>
      rw [outcome] at recorded
      exact ih recorded

theorem Upheld.addOrder (upheld : Upheld e k invariant) (holds : Holds invariant s) :
    Holds invariant (addOrder e k config s).session := by
  refine upheld.guarded holds fun s' holds => holds.reading fun order => Upheld.transaction ?_
  unfold invokeStoredProcedure
  generalize callText "AddOrder" _ = sql
  have recorded := upheld.record holds.begin sql
  cases outcome : s'.begin.issue e k sql with
  | error fault =>
    rw [outcome] at recorded
    exact recorded.rollbackAndReport
  | ok effect =>
    rw [outcome] at recorded
    exact upheld.addOrderedItems _ order.items recorded

theorem Upheld.handler (upheld : Upheld e k invariant) (holds : Holds invariant s) {name : String}
    {func : LuaValue → Session → Reply} (registered : (name, func) ∈ requests e k) :
    Holds invariant (func config s).session := by
  simp only [requests, List.mem_cons, Prod.mk.injEq, List.not_mem_nil, or_false] at registered
  rcases registered with ⟨-,rfl⟩ | ⟨-,rfl⟩ | ⟨-,rfl⟩ | ⟨-,rfl⟩ | ⟨-,rfl⟩ | ⟨-,rfl⟩ | ⟨-,rfl⟩ |
    ⟨-,rfl⟩ | ⟨-,rfl⟩ | ⟨-,rfl⟩ | ⟨-,rfl⟩ | ⟨-,rfl⟩ | ⟨-,rfl⟩ | ⟨-,rfl⟩ | ⟨-,rfl⟩ | ⟨-,rfl⟩ |
    ⟨-,rfl⟩ | ⟨-,rfl⟩ | ⟨-,rfl⟩ | ⟨-,rfl⟩ | ⟨-,rfl⟩ | ⟨-,rfl⟩
  · exact upheld.guarded holds fun _ holds => holds
  · exact upheld.guarded holds fun _ holds => upheld.listing holds
  · exact upheld.listing holds
  · exact upheld.listing holds
  · exact upheld.listing holds
  · exact holds.reading fun _ => upheld.listing holds
  · exact upheld.listing holds
  · exact upheld.listing holds
  · exact upheld.listing holds
  · exact upheld.guarded holds fun _ holds => holds.reading fun _ => upheld.unchecked holds
  · exact upheld.guarded holds fun _ holds => holds.reading fun _ => upheld.reporting holds
  · exact upheld.guarded holds fun _ holds => holds.reading fun _ => upheld.reporting holds
  · exact upheld.guarded holds fun _ holds => holds.reading fun _ => upheld.reporting holds
  · exact upheld.guarded holds fun _ holds => holds.reading fun _ => upheld.unchecked holds
  · exact upheld.guarded holds fun _ holds => holds.reading fun _ => upheld.reporting holds
  · exact upheld.guarded holds fun _ holds => holds.reading fun _ => upheld.unchecked holds
  · exact upheld.completeOrder holds
  · exact upheld.addOrder holds
  · exact upheld.guarded holds fun _ holds => upheld.listing holds
  · exact holds.reading fun _ => upheld.listing holds
  · exact holds.reading fun _ => upheld.record holds _
  · exact holds.reading fun _ => upheld.listing holds

/-- What every statement of a request keeps at its time, the request keeps. -/
theorem Upheld.serve {incoming : Incoming} (upheld : Upheld e incoming.conditions invariant) {db : Db}
    (valid : invariant db) : invariant (serve e incoming db) := by
  have holds : Holds invariant (.opening db) := ⟨valid, fun _ open_ => by cases open_⟩
  unfold UserRequest.serve processRequest
  split
  · exact valid
  · dsimp only
    split
    · exact valid
    · split
      next func found =>
        obtain ⟨before,after,table,-⟩ := List.lookup_eq_some_iff.mp found
        exact (upheld.handler holds (by rw [table]; exact List.mem_append_right _ List.mem_cons_self)).rows
      next => exact valid

end

end PcCourse.UserRequest
