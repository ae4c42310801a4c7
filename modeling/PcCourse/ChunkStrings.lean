import PcCourse.LuaChunk

/-! The strings that a chunk of data leaves behind: all of them stand in its text. -/
namespace PcCourse.ChunkStrings

open LuaText LuaChunk

/-- Every string in the value is one of these. -/
inductive Strings (p : String → Prop) : LuaValue → Prop
  | nil : Strings p .nil
  | bool (b : Bool) : Strings p (.bool b)
  | int (n : Int) : Strings p (.int n)
  | number (d : Decimal) : Strings p (.number d)
  | function : Strings p .function
  | str {s : String} : p s → Strings p (.str s)
  | table {named : LuaFields} {array : List LuaValue} : (∀ field ∈ named, Strings p field.2) →
    (∀ value ∈ array, Strings p value) → Strings p (.table named array)

section
variable {p : String → Prop} {named : LuaFields} {key : String} {value ref : LuaValue}

theorem Strings.set (fields : ∀ field ∈ named, Strings p field.2) (of_value : Strings p value) :
    ∀ field ∈ named.set key value, Strings p field.2 := by
  unfold LuaFields.set
  split
  · exact fun field member => fields field (List.mem_of_mem_filter member)
  · split
    · intro field member
      obtain ⟨old,inside,rfl⟩ := List.mem_map.mp member
      split
      · exact of_value
      · exact fields old inside
    · rw [List.forall_mem_append, List.forall_mem_singleton]
      exact ⟨fields, of_value⟩

theorem Strings.lookup (fields : ∀ field ∈ named, Strings p field.2)
    (found : named.lookup key = some value) : Strings p value := by
  obtain ⟨before,after,shape,-⟩ := List.lookup_eq_some_iff.mp found
  exact fields (key, value) (by rw [shape]; exact List.mem_append_right _ List.mem_cons_self)

theorem Strings.getRawRef (strings : Strings p ref) (read : ref.getRawRef key = some value) :
    Strings p value := by
  cases strings with
  | @table named array fields _ =>
    change some ((named.lookup key).getD .nil) = some value at read
    cases found : named.lookup key with
    | none =>
      rw [found] at read
      cases read
      exact .nil
    | some v =>
      rw [found] at read
      cases read
      exact .lookup fields found
  | _ => cases read

/-- The strings of the values that the chunk has given so far. -/
structure Given (p : String → Prop) (s : State) : Prop where
  globals : ∀ field ∈ s.globals, Strings p field.2
  stack : ∀ frame ∈ s.stack,
    (∀ field ∈ frame.named, Strings p field.2) ∧ ∀ value ∈ frame.array, Strings p value

variable {s next : State}

theorem Given.complete (given : Given p s) (of_value : Strings p value)
    (done : s.complete value = some next) : Given p next := by
  unfold State.complete at done
  split at done
  · cases done
    exact { given with globals := Strings.set given.globals of_value }
  next frame outer stack =>
    obtain ⟨filled,added,rfl⟩ := Option.map_eq_some_iff.mp done
    have frames := given.stack
    rw [stack, List.forall_mem_cons] at frames
    obtain ⟨⟨fields,items⟩,others⟩ := frames
    refine ⟨given.globals, ?_⟩
    dsimp only
    rw [List.forall_mem_cons]
    refine ⟨?_, others⟩
    unfold Frame.add at added
    split at added
    · cases added
      exact ⟨Strings.set fields of_value, items⟩
    · cases added
    · cases added
      refine ⟨fields, ?_⟩
      dsimp only
      rw [List.forall_mem_append, List.forall_mem_singleton]
      exact ⟨items, of_value⟩

theorem Given.close (given : Given p s) (done : s.close = some next) : Given p next := by
  unfold State.close at done
  split at done
  · cases done
  next frame outer stack =>
    have frames := given.stack
    rw [stack, List.forall_mem_cons] at frames
    exact Given.complete (s := { s with stack := outer }) ⟨given.globals, frames.2⟩
      (.table frames.1.1 frames.1.2) done

theorem Given.nameValue (given : Given p s) {name : String} (read : s.nameValue name = some value) :
    Strings p value := by
  unfold State.nameValue at read
  split_ifs at read
  · cases read
    exact .nil
  · cases read
    exact .bool true
  · cases read
    exact .bool false
  · cases found : s.globals.lookup name with
    | none =>
      rw [found] at read
      cases read
      exact .nil
    | some v =>
      rw [found] at read
      cases read
      exact .lookup given.globals found

theorem strings_numeral {text : List Char} (read : State.numeralValue text = some value) :
    Strings p value := by
  unfold State.numeralValue at read
  split at read
  · cases read
    split
    · exact .int _
    · exact .number _
  · obtain ⟨d,-,rfl⟩ := Option.map_eq_some_iff.mp read
    exact .number d

theorem Given.begin_ (given : Given p s) {token : Token} (of_token : ∀ t, token = .str t → p t)
    (done : s.begin_ token = some next) : Given p next := by
  unfold State.begin_ at done
  split at done
  · cases done
    refine ⟨given.globals, ?_⟩
    dsimp only
    rw [List.forall_mem_cons]
    exact ⟨⟨List.forall_mem_nil _, List.forall_mem_nil _⟩, given.stack⟩
  · cases done
    exact ⟨given.globals, given.stack⟩
  · cases done
  · exact given.complete (.str (of_token _ rfl)) done
  · obtain ⟨value,read,done⟩ := Option.bind_eq_some_iff.mp done
    exact given.complete (strings_numeral read) done
  · obtain ⟨value,read,done⟩ := Option.bind_eq_some_iff.mp done
    exact given.complete (given.nameValue read) done

theorem Given.separate (given : Given p s) {token : Token} (done : s.separate token = some next) :
    Given p next := by
  unfold State.separate at done
  split at done
  · cases done
    exact ⟨given.globals, given.stack⟩
  · cases done
    exact ⟨given.globals, given.stack⟩
  · exact given.close done
  · cases done

theorem Given.step (given : Given p s) {token : Token} (of_token : ∀ t, token = .str t → p t)
    (done : s.step token = some next) : Given p next := by
  have same {a : State} (globals : a.globals = s.globals) (stack : a.stack = s.stack) : Given p a :=
    ⟨by rw [globals]; exact given.globals, by rw [stack]; exact given.stack⟩
  unfold State.step at done
  split at done
  · unfold State.statement at done
    split at done
    · cases done
      exact given
    · split at done
      · cases done
      · cases done
        exact same rfl rfl
    · cases done
  · unfold State.assignment at done
    split at done
    · cases done
      exact same rfl rfl
    · cases done
  · exact given.begin_ of_token done
  · unfold State.negated at done
    split at done
    · obtain ⟨value,-,done⟩ := Option.bind_eq_some_iff.mp done
      obtain ⟨negative,negated,done⟩ := Option.bind_eq_some_iff.mp done
      refine given.complete ?_ done
      unfold State.negate at negated
      split at negated
      · cases negated
        exact .int _
      · cases negated
        exact .number _
      · cases negated
    · cases done
  · unfold State.item at done
    split at done
    · exact given.close done
    · split at done
      · exact given.begin_ of_token done
      · cases done
        exact same rfl rfl
    · exact given.begin_ of_token done
  · unfold State.fieldName at done
    split at done
    · split at done
      · cases done
      next frame outer stack =>
        cases done
        have frames := given.stack
        rw [stack, List.forall_mem_cons] at frames
        refine ⟨given.globals, ?_⟩
        dsimp only
        rw [List.forall_mem_cons]
        exact frames
    · obtain ⟨middle,read,done⟩ := Option.bind_eq_some_iff.mp done
      obtain ⟨value,read,done'⟩ := Option.bind_eq_some_iff.mp read
      exact (given.complete (given.nameValue read) done').separate done
  · exact given.separate done

theorem Given.run {tokens : List Token} (given : Given p s) (all : ∀ t, .str t ∈ tokens → p t)
    (done : State.run tokens s = some next) : Given p next := by
  induction tokens generalizing s with
  | nil =>
    cases done
    exact given
  | cons token tokens ih =>
    rw [State.run, List.foldlM_cons] at done
    obtain ⟨middle,one,rest⟩ := Option.bind_eq_some_iff.mp done
    refine ih (given.step (fun t same => all t (same ▸ List.mem_cons_self)) one) ?_ rest
    exact fun t member => all t (List.mem_cons_of_mem _ member)

/-- The strings that a chunk of data leaves behind stand in it. -/
theorem execute_strings {text : String} {globals : LuaFields} (done : execute text = some globals) :
    ∃ tokens, lex text = some tokens ∧
      ∀ field ∈ globals, Strings (fun t => .str t ∈ tokens) field.2 := by
  simp only [execute, Option.bind_eq_bind, Option.bind_eq_some_iff] at done
  obtain ⟨tokens,read,s,ran,last⟩ := done
  split at last
  · cases last
    have start : Given (fun t => Token.str t ∈ tokens) ⟨[], "", [], .statement⟩ :=
      ⟨List.forall_mem_nil _, List.forall_mem_nil _⟩
    exact ⟨tokens, read, (start.run (fun _ member => member) ran).globals⟩
  · cases last

end

end PcCourse.ChunkStrings
