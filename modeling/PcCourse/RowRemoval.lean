import PcCourse.ListRefresh
import PcCourse.Transition

/-! Which row a successful removal takes out: the handler of its reply has captured a row
number, which other replies that come before it can make stale. -/
namespace PcCourse.RemoteRows

open Transition

section
variable {α κ : Type}

def Succeeds (lua : Lua) (message : String) : Prop :=
  ∃ fenv, parseAndGetResponse lua message = some (fenv, "success")

/-- A removal that succeeds takes out a row of the list, and the one whose key it has sent. -/
def RemovesSent (m : Model α κ) (lua : Lua) (s : State α κ) (event : Event α) : Prop :=
  ∀ i message ind key, event = .reply i message → s.pending[i]? = some (.remove ind key) →
    Succeeds lua message → s.rows[ind]?.map m.key = some key

/-- A removal succeeds only ahead of removals of earlier rows, and a refresh leaves the key of
every removal under way at its row. -/
structure Undisturbed (m : Model α κ) (lua : Lua) (s : State α κ) (event : Event α) : Prop where
  removal : ∀ i message ind key, event = .reply i message → s.pending[i]? = some (.remove ind key) →
    Succeeds lua message → ∀ row other, .remove row other ∈ s.pending.eraseIdx i → row < ind
  refresh : ∀ i message fenv newRows, event = .reply i message →
    s.pending[i]? = some .receiveRemoteData →
    parseAndGetResponse lua message = some (fenv, "success") →
    (fenv.getRawRef m.tableName).bind (readRows m.readRow) = some newRows →
    ∀ row key, .remove row key ∈ s.pending.eraseIdx i → newRows[row]?.map m.key = some key

/-- Every removal under way has its key at its row. -/
def InPlace (m : Model α κ) (s : State α κ) : Prop :=
  ∀ row key, .remove row key ∈ s.pending → s.rows[row]?.map m.key = some key

variable {m : Model α κ} {lua : Lua} {s : State α κ}

variable (m lua) in
theorem handle_cases (message : String) (call : Pending α κ) (rows : List α) :
    (handle m lua message call rows).1 = rows ∨ Succeeds lua message ∧
      match call with
      | .receiveRemoteData => ∃ fenv newRows,
        parseAndGetResponse lua message = some (fenv, "success") ∧
          (fenv.getRawRef m.tableName).bind (readRows m.readRow) = some newRows ∧
          (handle m lua message call rows).1 = newRows
      | .insert item => (handle m lua message call rows).1 = rows ++ [item]
      | .remove ind _ => (handle m lua message call rows).1 = rows.eraseIdx ind := by
  cases call with
  | receiveRemoteData =>
    simp only [handle, rowsReceived]
    split
    · exact .inl rfl
    next fenv response parsed =>
      split
      next success =>
        subst success
        split
        · exact .inl rfl
        next newRows read =>
          exact .inr ⟨⟨fenv, parsed⟩, fenv, newRows, parsed, read, updateModel_rows _ _⟩
      · exact .inl rfl
  | insert item =>
    simp only [handle, changed]
    split
    · exact .inl rfl
    next fenv response parsed =>
      split
      next success => exact .inr ⟨⟨fenv, success ▸ parsed⟩, rfl⟩
      · exact .inl rfl
  | remove ind key =>
    simp only [handle, changed]
    split
    · exact .inl rfl
    next fenv response parsed =>
      split
      next success => exact .inr ⟨⟨fenv, success ▸ parsed⟩, rfl⟩
      · exact .inl rfl

theorem reply_inPlace {i : Nat} {message : String} {call : Pending α κ}
    (here : s.pending[i]? = some call) (undisturbed : Undisturbed m lua s (.reply i message))
    (inPlace : InPlace m s) :
    ∀ row key, .remove row key ∈ s.pending.eraseIdx i →
      (handle m lua message call s.rows).1[row]?.map m.key = some key := by
  intro row key other
  have before := inPlace row key (List.mem_of_mem_eraseIdx other)
  rcases handle_cases m lua message call s.rows with same | ⟨success,made⟩
  · rw [same]
    exact before
  · cases call with
    | receiveRemoteData =>
      obtain ⟨fenv,newRows,parsed,read,rows⟩ := made
      rw [rows]
      exact undisturbed.refresh i message fenv newRows rfl here parsed read row key other
    | insert item =>
      obtain ⟨old,inside,-⟩ := Option.map_eq_some_iff.mp before
      have bound : row < s.rows.length := (List.getElem?_eq_some_iff.mp inside).1
      rw [made, List.getElem?_append_left bound]
      exact before
    | remove ind sent =>
      have earlier := undisturbed.removal i message ind sent rfl here success row key other
      rw [made, List.getElem?_eraseIdx_of_lt earlier]
      exact before

theorem step_inPlace {event : Event α} (undisturbed : Undisturbed m lua s event)
    (inPlace : InPlace m s) : InPlace m (step m lua event s) := by
  have others : ∀ {call : Pending α κ}, (∀ row key, call ≠ .remove row key) →
      ∀ row key, .remove row key ∈ s.pending ++ [call] → s.rows[row]?.map m.key = some key := by
    intro call other row key member
    rcases List.mem_append.mp member with old | new
    · exact inPlace row key old
    · exact absurd (List.mem_singleton.mp new).symm (other row key)
  cases event with
  | receiveRemoteData => exact others nofun
  | insert item => exact others nofun
  | remove row =>
    unfold step
    dsimp only
    split
    next item here =>
      intro other key member
      rcases List.mem_append.mp member with old | new
      · exact inPlace other key old
      · cases List.mem_singleton.mp new
        exact congrArg (Option.map m.key) here
    · exact inPlace
  | reply i message =>
    unfold step
    dsimp only
    split
    next call here => exact reply_inPlace here undisturbed inPlace
    · exact inPlace
  | fail i =>
    unfold step
    dsimp only
    split
    · exact fun row key member => inPlace row key (List.mem_of_mem_eraseIdx member)
    · exact inPlace

/-- With distinct keys, a step that is not undisturbed displaces a removal under way. -/
theorem undisturbed_of_inPlace {event : Event α} (distinct : (s.rows.map m.key).Nodup)
    (inPlace : InPlace m s) (after : InPlace m (step m lua event s)) : Undisturbed m lua s event := by
  constructor
  · rintro i message ind key rfl here ⟨fenv,parsed⟩ row other member
    by_contra behind
    have rows : (step m lua (.reply i message) s).rows = s.rows.eraseIdx ind := by
      simp only [step, here, handle, changed, parsed, if_true, removeAt]
    have pending : (step m lua (.reply i message) s).pending = s.pending.eraseIdx i := by
      simp only [step, here]
    have before := inPlace row other (List.mem_of_mem_eraseIdx member)
    have now := after row other (by rwa [pending])
    rw [rows, List.getElem?_eraseIdx_of_ge (by omega), ← List.getElem?_map] at now
    rw [← List.getElem?_map] at before
    have place := (List.getElem?_eq_some_iff.mp before).1
    have same := (List.getElem?_inj place distinct).mp (before.trans now.symm)
    omega
  · rintro i message fenv newRows rfl here parsed read row key member
    have rows : (step m lua (.reply i message) s).rows = newRows := by
      simp only [step, here, handle, rowsReceived, parsed, if_true, read, updateModel_rows]
    have pending : (step m lua (.reply i message) s).pending = s.pending.eraseIdx i := by
      simp only [step, here]
    have now := after row key (by rwa [pending])
    rwa [rows] at now

theorem run_inPlace (events : List (Event α)) (rows : List α)
    (undisturbed : Along (step m lua) (Undisturbed m lua) events (holding rows)) :
    Along (step m lua) (RemovesSent m lua) events (holding rows) := by
  apply Along.mono_invariant (InPlace m) (fun _ _ => step_inPlace) _ events _ undisturbed
  · exact fun row key member => absurd member List.not_mem_nil
  · intro s event _ inPlace i message ind key _ here _
    exact inPlace ind key (List.mem_of_getElem? here)

end

/-- In a run whose steps are all undisturbed, every removal that succeeds takes out the row
whose key it has sent, of users as of customers. -/
theorem run_removes_sent (lua : Lua) :
    (∀ (events : List (Event UsersModel.UserItem)) (users : List UsersModel.UserItem),
      Along (step usersModel lua) (Undisturbed usersModel lua) events (holding users) →
        Along (step usersModel lua) (RemovesSent usersModel lua) events (holding users)) ∧
    ∀ (events : List (Event CustomerItem)) (customers : List CustomerItem),
      Along (step customersModel lua) (Undisturbed customersModel lua) events (holding customers) →
        Along (step customersModel lua) (RemovesSent customersModel lua) events (holding customers) :=
  ⟨run_inPlace, run_inPlace⟩

def succeeded : String := "response = 'success'\n"

def customer (telNumber : Nat) : CustomerItem := ⟨telNumber, "s", "n", "p"⟩

theorem succeeds_succeeded : Succeeds dataLua succeeded := by
  have read : ∃ fenv ∈ parseAndGetResponse dataLua succeeded, fenv.2 = "success" := by decide
  obtain ⟨fenv,parsed,success⟩ := read
  exact ⟨fenv.1, by rw [← success]; exact parsed⟩

theorem single_removal_sent :
    Along (step usersModel dataLua) (RemovesSent usersModel dataLua)
      [.remove 1, .reply 0 succeeded] (holding [alice, bob]) := by
  apply (run_removes_sent dataLua).1
  refine ⟨⟨?_, ?_⟩, ⟨?_, ?_⟩, trivial⟩
  · nofun
  · nofun
  · rintro i message ind key same _ _ row other member
    cases same
    exact absurd member List.not_mem_nil
  · rintro i message fenv newRows same here
    cases same
    cases here

/-- Two removals of the first row take out two users, two of the last row leave the list, and
the same happens to customers. -/
theorem stale_removals :
    ¬Along (step usersModel dataLua) (RemovesSent usersModel dataLua)
      [.remove 0, .remove 0, .reply 0 succeeded, .reply 0 succeeded] (holding [alice, bob]) ∧
    ¬Along (step customersModel dataLua) (RemovesSent customersModel dataLua)
      [.remove 0, .remove 0, .reply 0 succeeded, .reply 0 succeeded] (holding [customer 7]) := by
  constructor
  · rintro ⟨-,-,-,second,-⟩
    have taken := second 0 succeeded 0 "alice" rfl (by decide) succeeds_succeeded
    exact absurd taken (by decide)
  · rintro ⟨-,-,-,second,-⟩
    have taken := second 0 succeeded 0 7 rfl (by decide) succeeds_succeeded
    exact absurd taken (by decide)

end PcCourse.RemoteRows
