import PcCourse.Serialize

/-! A connection to the database while a request is handled: the statements issued on
it, the open transaction, and the error text of the last statement. -/
namespace PcCourse

open Grouping

/-- Failures of a statement that do not depend on its text. -/
inductive Fault where
  | lostConnection
  | lockWaitTimeout
  deriving DecidableEq, Repr

def Fault.error : Fault → SqlError
  | .lostConnection => .lostConnection
  | .lockWaitTimeout => .lockWaitTimeout

/-- What a request meets outside the program: the clock of the server, the iteration
order of Lua tables, for each statement its time, its group rows and whether it fails,
and whether `query.error()` survives a rollback. -/
structure Conditions where
  systemClock : Int
  iteration : Iteration
  occasion : Nat → Occasion
  fault : Nat → Option Fault
  keepsError : Bool

/-- Conditions without failures, at a given time. -/
def Conditions.calm (now : Int) : Conditions :=
  ⟨now, .insertion, fun _ => ⟨now, .first⟩, fun _ => none, false⟩

/-- The state of the connection. `snapshot` holds the tables an open transaction began
with, `calls` the stored procedure calls issued so far, each with its error. -/
structure Session where
  db : Db
  snapshot : Option Tables
  lastError : String
  calls : List (String × Option SqlError)

/-- A response, unless an assertion failed. -/
structure Reply where
  response : Option String
  session : Session

namespace Session

def opening (db : Db) : Session := ⟨db, none, "", []⟩

def issue (e : Engine) (k : Conditions) (sql : String) (s : Session) : Except SqlError Engine.Effect :=
  match k.fault s.calls.length with
  | some fault => .error fault.error
  | none => e.exec s.db (k.occasion s.calls.length) sql

/-- The session after a statement with this outcome. -/
def record (s : Session) (sql : String) : Except SqlError Engine.Effect → Session
  | .ok effect =>
    { s with
      db := effect.db
      lastError := ""
      calls := s.calls ++ [(sql, none)] }
  | .error fault => { s with lastError := fault.message, calls := s.calls ++ [(sql, some fault)] }

def begin (s : Session) : Session := { s with snapshot := some s.db.toTables, lastError := "" }

def commit (s : Session) : Session := { s with snapshot := none, lastError := "" }

/-- The tables go back to those of the snapshot, the AUTO_INCREMENT values do not. -/
def rollback (k : Conditions) (s : Session) : Session :=
  match s.snapshot with
  | none => s
  | some tables =>
    { s with
      db := { toTables := tables, next := s.db.next }
      snapshot := none
      lastError := if k.keepsError then s.lastError else "" }

def AllSucceeded (s : Session) : Prop := ∀ call ∈ s.calls, call.2 = none

end Session

/-- `invoke_stored_procedure`: the callback gets the outcome of the call. -/
def invokeStoredProcedure {α : Type} (e : Engine) (k : Conditions) (sql : String)
    (f : Except SqlError Engine.Effect → Session → α) (s : Session) : α :=
  f (s.issue e k sql) (s.record sql (s.issue e k sql))

/-- The life of a `mysqlpp::Transaction`: begun at construction, rolled back at the end
of its scope unless it was ended before. -/
def transaction (k : Conditions) (s : Session) (body : Session → Reply) : Reply :=
  let reply := body s.begin
  { reply with session := reply.session.rollback k }

namespace Session

variable {e : Engine} {k : Conditions} {s : Session} {sql : String}

@[simp] theorem record_snapshot (outcome : Except SqlError Engine.Effect) :
    (s.record sql outcome).snapshot = s.snapshot := by
  cases outcome <;> rfl

@[simp] theorem begin_snapshot : s.begin.snapshot = some s.db.toTables := rfl

@[simp] theorem begin_db : s.begin.db = s.db := rfl

@[simp] theorem begin_calls : s.begin.calls = s.calls := rfl

@[simp] theorem commit_snapshot : s.commit.snapshot = none := rfl

@[simp] theorem commit_db : s.commit.db = s.db := rfl

@[simp] theorem commit_calls : s.commit.calls = s.calls := rfl

@[simp] theorem rollback_snapshot : (s.rollback k).snapshot = none := by
  unfold rollback
  split
  · assumption
  · rfl

@[simp] theorem rollback_calls : (s.rollback k).calls = s.calls := by
  unfold rollback
  split <;> rfl

theorem rollback_of_none (ended : s.snapshot = none) : s.rollback k = s := by
  simp [rollback, ended]

theorem rollback_tables {tables : Tables} (open_ : s.snapshot = some tables) :
    (s.rollback k).db.toTables = tables := by
  simp [rollback, open_]

end Session
end PcCourse
