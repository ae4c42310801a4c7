import PcCourse.ListingTexts
import PcCourse.FalseSuccess
import PcCourse.CheckReading
import PcCourse.NumberCalls

/-! Texts of the requests in the rows: when a request that is answered with success has stored
its strings as they were sent. -/
namespace PcCourse.UserRequest

open SqlText SqlCall Outcome

/-- An argument that begins with a literal is this literal only, and denotes the text but for
blanks behind it. -/
def LiteralOf (text : String) (expr : List Token) : Prop :=
  ∀ t tail, expr = .str t :: tail →
    tail = [] ∧ ∃ blanks, (∀ c ∈ blanks, c = ' ') ∧ t.toList = text.toList ++ blanks

theorem verbatim_of_literalOf {text : String} {d : Char} (closing : closes d) {rest : List Char}
    {tokens expr : List Token} {more : List (List Token)}
    (lexed : scanner.run .code ((quoted text).toList ++ d :: rest) = some tokens)
    (split : arguments 0 [] tokens = some (expr :: more)) (literal : LiteralOf text expr) :
    isVerbatim text.toList = true := by
  have shape : (quoted text).toList ++ d :: rest = '\'' :: (text.toList ++ '\'' :: d :: rest) := by
    simp [quoted]
  rw [shape] at lexed
  obtain ⟨s,after,later,tail,read,-,-,begins⟩ := arguments_literal lexed split
  obtain ⟨-,blanks,blank,whole⟩ := literal _ _ begins
  rw [String.toList_ofList] at whole
  have apart : blanks.head? ≠ some d := by
    intro head
    have same := blank d (List.mem_of_mem_head? head)
    rcases closing with rfl | rfl <;> cases same
  have plain : isSpecial d = false := by
    rcases closing with rfl | rfl <;> rfl
  rw [whole] at read
  exact (verbatim_of_readLiteral plain rest _ _ _ apart read).1

theorem split_reads {arg : String} {known : List Token} (reads : Reads arg known) {rest : List Char}
    {tokens expr : List Token} {more : List (List Token)}
    (lexed : scanner.run .code (arg.toList ++ ',' :: ' ' :: rest) = some tokens)
    (split : arguments 0 [] tokens = some (expr :: more)) :
    ∃ later, scanner.run .code rest = some later ∧ arguments 0 [] later = some more := by
  rw [reads.lexed _ (.inl rfl), run_symbol rfl, run_blank rfl, Option.map_map] at lexed
  obtain ⟨later,behind,rfl⟩ := Option.map_eq_some_iff.mp lexed
  rw [Function.comp_apply, reads.whole, List.nil_append, arguments_comma] at split
  obtain ⟨others,next,same⟩ := Option.map_eq_some_iff.mp split
  exact ⟨later, behind, (List.cons.inj same).2 ▸ next⟩

/-- Arguments of a statement with what they are read as: the texts among them are denoted by
literals, the others are read as they were meant. -/
inductive Kept : List String → List (List Token) → List String → Prop
  | nil : Kept [] [] []
  | text {text : String} {expr : List Token} {args : List String} {exprs : List (List Token)}
    {texts : List String} : LiteralOf text expr → Kept args exprs texts →
    Kept (quoted text :: args) (expr :: exprs) (text :: texts)
  | known {arg : String} {known expr : List Token} {args : List String}
    {exprs : List (List Token)} {texts : List String} : Reads arg known → Kept args exprs texts →
    Kept (arg :: args) (expr :: exprs) texts

theorem Kept.verbatim {args : List String} {exprs : List (List Token)} {texts : List String}
    (kept : Kept args exprs texts) {tokens : List Token}
    (lexed : scanner.run .code ((", ".intercalate args).toList ++ [')', ';']) = some tokens)
    (split : arguments 0 [] tokens = some exprs) : ∀ text ∈ texts, isVerbatim text.toList = true := by
  have shape (arg next : String) (args : List String) :
      (", ".intercalate (arg :: next :: args)).toList ++ [')', ';'] =
        arg.toList ++ ',' :: ' ' :: ((", ".intercalate (next :: args)).toList ++ [')', ';']) := by
    simp [String.intercalate_cons_cons]
  induction kept generalizing tokens with
  | nil => exact List.forall_mem_nil _
  | @text text expr args exprs texts literal others ih =>
    rw [List.forall_mem_cons]
    cases args with
    | nil =>
      rw [String.intercalate_singleton] at lexed
      cases others
      exact ⟨verbatim_of_literalOf (.inr rfl) lexed split literal, List.forall_mem_nil _⟩
    | cons next args =>
      rw [shape] at lexed
      have verbatim := verbatim_of_literalOf (.inl rfl) lexed split literal
      obtain ⟨later,behind,remaining⟩ := split_reads (reads_quoted verbatim) lexed split
      exact ⟨verbatim, ih behind remaining⟩
  | @known arg known expr args exprs texts reads others ih =>
    cases args with
    | nil =>
      cases others
      exact List.forall_mem_nil _
    | cons next args =>
      rw [shape] at lexed
      obtain ⟨later,behind,remaining⟩ := split_reads reads lexed split
      exact ih behind remaining

section
variable {e : Engine} {db : Db} {limit : Nat} {column text : String} {expr : List Token} {v : SqlValue}

theorem storeText_blanks {t : String} (stored : storeText limit column t = .ok text) :
    ∃ blanks, (∀ c ∈ blanks, c = ' ') ∧ t.toList = text.toList ++ blanks := by
  obtain ⟨blank,rfl⟩ := storeText_eq_ok.mp stored
  refine ⟨t.toList.drop limit, fun c member => by simpa using List.all_eq_true.mp blank c member, ?_⟩
  rw [String.toList_ofList, List.take_append_drop]

theorem storeText_fits (fits : text.toList.length ≤ limit) : storeText limit column text = .ok text := by
  rw [storeText_eq_ok, List.drop_eq_nil_of_le fits, List.take_of_length_le fits, String.ofList_toList]
  exact ⟨rfl, rfl⟩

variable (single : ∀ t tail, expr = .str t :: tail → tail = []) (valued : e.value db expr = .ok v)
include single valued

theorem value_single {t : String} {tail : List Token} (begins : expr = .str t :: tail) :
    tail = [] ∧ v = .text t := by
  have alone := single t tail begins
  subst alone begins
  cases valued
  exact ⟨rfl, rfl⟩

theorem literalOf_varchar (stored : e.toVarchar limit column v = .ok (some text)) :
    LiteralOf text expr := by
  intro t tail begins
  obtain ⟨alone,rfl⟩ := value_single single valued begins
  obtain ⟨s,cut,same⟩ := storeText_map.mp stored
  cases same
  exact ⟨alone, storeText_blanks cut⟩

theorem literalOf_char (stored : e.toChar 64 column v = .ok (some text)) : LiteralOf text expr := by
  intro t tail begins
  obtain ⟨alone,rfl⟩ := value_single single valued begins
  obtain ⟨inner,kept,trimmed⟩ := toChar_eq_ok stored
  obtain ⟨s,cut,rfl⟩ := storeText_map.mp kept
  obtain ⟨blanks,blank,whole⟩ := storeText_blanks cut
  obtain ⟨trimmings,trimming,front⟩ := cuts_trimBlanks.blanks s
  refine ⟨alone, trimmings ++ blanks, ?_, ?_⟩
  · rw [List.forall_mem_append]
    exact ⟨trimming, blank⟩
  · rw [whole, front, Option.some.inj trimmed, List.append_assoc]

theorem literalOf_text (stored : e.toText column v = .ok (some text)) : LiteralOf text expr := by
  intro t tail begins
  obtain ⟨alone,rfl⟩ := value_single single valued begins
  refine ⟨alone, [], List.forall_mem_nil _, ?_⟩
  unfold Engine.toText Engine.text at stored
  dsimp only at stored
  split at stored
  · cases stored
    rw [List.append_nil]
  · cases stored

end

section
variable {e : Engine} {db : Db} {limit : Nat} {column text : String} {v : SqlValue} {t : Option String}
  (valued : e.value db [.str text] = .ok v)
include valued

theorem varchar_of_literal (fits : text.toList.length ≤ limit)
    (stored : e.toVarchar limit column v = .ok t) : t = some text := by
  cases valued
  obtain ⟨s,kept,rfl⟩ := storeText_map.mp stored
  rw [storeText_fits fits] at kept
  cases kept
  rfl

theorem char_of_literal (fits : text.toList.length ≤ 64) (trimmed : trimBlanks text = text)
    (stored : e.toChar 64 column v = .ok t) : t = some text := by
  obtain ⟨inner,kept,rfl⟩ := toChar_eq_ok stored
  rw [varchar_of_literal valued fits kept, Option.map_some, trimmed]

theorem text_of_literal (stored : e.toText column v = .ok t) : t = some text := by
  cases valued
  unfold Engine.toText Engine.text at stored
  dsimp only at stored
  split at stored
  · cases stored
    rfl
  · cases stored

end

theorem char_trimmed {e : Engine} {column text : String} {v : SqlValue}
    (stored : e.toChar 64 column v = .ok (some text)) : trimBlanks text = text := by
  obtain ⟨inner,-,same⟩ := toChar_eq_ok stored
  obtain ⟨s,-,rfl⟩ := Option.map_eq_some_iff.mp same.symm
  rw [trimBlanks, trimBlanks, String.toList_ofList, List.rdropWhile_idempotent]

/-- The requests that write texts. -/
inductive TextRequest where
  | createUser | updateUser | createCustomer | addItem
  deriving DecidableEq, Repr

namespace TextRequest

def request : TextRequest → String
  | createUser => "create_user"
  | updateUser => "update_user"
  | createCustomer => "create_customer"
  | addItem => "add_item"

def procedure : TextRequest → Procedure
  | createUser => .createUser
  | updateUser => .updateUser
  | createCustomer => .createCustomer
  | addItem => .addItem

def textFields : TextRequest → String × List String
  | createUser => ("new_user", ["login", "password", "sname", "name", "pname"])
  | updateUser => ("update_user", ["login", "sname", "name", "pname"])
  | createCustomer => ("new_customer", ["sname", "name", "pname"])
  | addItem => ("new_item", ["name", "description"])

def sent (r : TextRequest) (config : LuaValue) : Option (List String) := do
  let table ← config.getRawRef r.textFields.1
  r.textFields.2.mapM table.getRawString

def args (r : TextRequest) (config : LuaValue) : Option (List String) :=
  match r with
  | createUser => (readNewUser config).map (·.map quoted)
  | updateUser => (readUpdateUser config).map (·.map quoted)
  | createCustomer => (readNewCustomer config).map (·.map quoted)
  | addItem => readNewItem config

/-- Strings within the lengths of their columns. -/
def Fits : TextRequest → List String → Prop
  | addItem, [name, description] => name.toList.length ≤ 256 ∧ description.utf8ByteSize ≤ 65535
  | _, texts => ∀ t ∈ texts, t.toList.length ≤ 64

/-- The row written holds the strings, and the other rows are as they were. -/
def AsSent (c : Collation) : TextRequest → List String → Db → Db → Prop
  | createUser, [login, password, sname, name, pname], before, after =>
    ∃ rank, after.user = before.user ++ [⟨login, password, some sname, some name, some pname, rank⟩]
  | updateUser, [login, sname, name, pname], before, after =>
    (∀ u ∈ after.user, c.same u.login login = true →
      u.login = login ∧ u.sname = some sname ∧ u.name = some name ∧ u.pname = some pname) ∧
    after.user.filter (fun u => !c.same u.login login) =
      before.user.filter fun u => !c.same u.login login
  | createCustomer, [sname, name, pname], before, after =>
    ∃ telephone, after.customer = before.customer ++ [⟨telephone, some sname, some name, some pname⟩]
  | addItem, [name, description], before, after =>
    ∃ row : Item, row.name = name ∧ row.description = description ∧ after.item = before.item ++ [row]
  | _, _, _, _ => False

/-- Strings whose literals denote them, a password without blanks at its end, and a login that
its rows have in the same spelling. -/
def Meant (c : Collation) (r : TextRequest) (texts : List String) (before : Db) : Prop :=
  (∀ t ∈ texts, isVerbatim t.toList = true) ∧
  match r, texts with
  | createUser, [_, password, _, _, _] => trimBlanks password = password
  | updateUser, login :: _ => ∀ u ∈ before.user, c.same u.login login = true → u.login = login
  | _, _ => True

/-- An update of users has changed a row, and the row's login tells which literal was read. -/
def Telling (c : Collation) : TextRequest → List String → Db → Db → Prop
  | updateUser, login :: _, before, after => after.user ≠ before.user ∧
    ((∀ a b, c.same a b = true → a = b) ∨ isVerbatim login.toList = true)
  | _, _, _, _ => True

end TextRequest

/-- No argument of the statement goes on behind a literal. -/
def OnlyLiterals (sql : String) : Prop :=
  ∀ call, parse sql = some call → ∀ expr ∈ call.args, ∀ t tail, expr = .str t :: tail → tail = []

section
variable {e : Engine} {k : Conditions} {config : LuaValue} {s : Session} {p : Procedure}
  {args : List String}

theorem says_success : saysSuccess (some (makeResponseStr "success")) = true := by decide

theorem guarded_success {ranks : List String} {body : Session → Reply}
    (success : (guarded e k ranks config s body).response = some (makeResponseStr "success")) :
    ∃ s', s'.db = s.db ∧ guarded e k ranks config s body = body s' := by
  rcases guarded_cases e k config ranks s body with ⟨str,refused,rfl,same⟩ | ⟨-,same⟩
  · rw [same] at success
    have silent := check_silent refused
    rw [Option.some.inj success, says_success] at silent
    cases silent
  · exact ⟨_, check_db, same⟩

theorem reading_success {α : Type} {fields : Option α} {body : α → Reply}
    (success : (reading fields s body).response = some (makeResponseStr "success")) :
    ∃ values, fields = some values ∧ reading fields s body = body values := by
  cases fields with
  | none =>
    have silent := silent_bad_config
    rw [show makeResponseStr "bad_config" = makeResponseStr "success" from Option.some.inj success,
      says_success] at silent
    cases silent
  | some values => exact ⟨values, rfl, rfl⟩

theorem reporting_success (success : (reporting e k (callText p.name args) s).response =
      some (makeResponseStr "success")) :
    ∃ effect, Ran e p args s.db effect ∧
      (reporting e k (callText p.name args) s).session.db = effect.db := by
  unfold reporting invokeStoredProcedure at success ⊢
  cases outcome : s.issue e k (callText p.name args) with
  | error fault =>
    have silent : saysSuccess (some (makeResponseStr fault.message)) = false :=
      silent_of_head (message_head fault (by decide))
    rw [outcome] at success
    rw [show makeResponseStr fault.message = makeResponseStr "success" from
      Option.some.inj success, says_success] at silent
    cases silent
  | ok effect => exact ⟨effect, ran_of_issue outcome, rfl⟩

theorem handler_success {α : Type} {ranks : List String} {fields : Option α} {args : α → List String}
    {reply : Reply} (shape : reply = guarded e k ranks config s fun s =>
      reading fields s fun values => reporting e k (callText p.name (args values)) s)
    (success : reply.response = some (makeResponseStr "success")) :
    ∃ values effect, fields = some values ∧ Ran e p (args values) s.db effect ∧
      reply.session.db = effect.db := by
  subst shape
  obtain ⟨s',same,body⟩ := guarded_success success
  rw [body] at success ⊢
  obtain ⟨values,read,call⟩ := reading_success success
  rw [call] at success ⊢
  obtain ⟨effect,ran,db⟩ := reporting_success success
  exact ⟨values, effect, read, same ▸ ran, db⟩

/-- A request that is answered with success has run its statement. -/
theorem TextRequest.success_ran {r : TextRequest} {func : LuaValue → Session → Reply}
    (found : (requests e k).lookup r.request = some func)
    (success : (func config s).response = some (makeResponseStr "success")) :
    ∃ args effect, r.args config = some args ∧ Ran e r.procedure args s.db effect ∧
      (func config s).session.db = effect.db := by
  cases r
  all_goals cases found
  · obtain ⟨texts,effect,read,ran,db⟩ := handler_success (p := .createUser) rfl success
    exact ⟨_, effect, Option.map_eq_some_iff.mpr ⟨texts, read, rfl⟩, ran, db⟩
  · obtain ⟨texts,effect,read,ran,db⟩ := handler_success (p := .updateUser) rfl success
    exact ⟨_, effect, Option.map_eq_some_iff.mpr ⟨texts, read, rfl⟩, ran, db⟩
  · obtain ⟨texts,effect,read,ran,db⟩ := handler_success (p := .createCustomer) rfl success
    exact ⟨_, effect, Option.map_eq_some_iff.mpr ⟨texts, read, rfl⟩, ran, db⟩
  · obtain ⟨values,effect,read,ran,db⟩ := handler_success (p := .addItem) rfl success
    exact ⟨_, effect, read, ran, db⟩

variable {db : Db} {effect : Engine.Effect}

/-- The statement of a request that has run: its arguments in the text, and the update. -/
theorem TextRequest.binding {r : TextRequest} (ran : Ran e r.procedure args db effect) :
    ∃ tokens exprs at_ u, scanner.run .code ((", ".intercalate args).toList ++ [')', ';']) = some tokens ∧
      arguments 0 [] tokens = some exprs ∧
      parse (callText r.procedure.name args) = some ⟨r.procedure.name, exprs⟩ ∧
      e.bind db r.procedure exprs = .ok (.update u) ∧ u.exec e.collation at_ db = .ok effect.db := by
  obtain ⟨at_,done⟩ := ran
  obtain ⟨u,compiled,executed⟩ : ∃ u, e.compile db (callText r.procedure.name args) = .ok (.update u) ∧
      u.exec e.collation at_ db = .ok effect.db := by
    unfold Engine.exec at done
    split at done
    · cases done
    next q compiled =>
      have named := Engine.compile_procedure compiled
      cases r <;> cases q <;> cases named
    next u compiled =>
      split at done
      · cases done
      next executed =>
        cases done
        exact ⟨u, compiled, executed⟩
  unfold Engine.compile at compiled
  split at compiled
  · cases compiled
  next call parsed =>
    obtain ⟨tokens,exprs,lexed,split,rfl⟩ := parse_inner r.procedure.isName_name parsed
    simp only [Procedure.ofName?_name] at compiled
    have some_ : exprs ≠ [[]] := by
      rintro rfl
      cases r <;> cases compiled
    rw [if_neg some_] at compiled parsed
    exact ⟨tokens, exprs, at_, u, lexed, split, parsed, compiled, executed⟩

theorem bind_arity {exprs : List (List Token)} {st : Statement}
    (bound : e.bind db p exprs = .ok st) : exprs.length = p.arity := by
  unfold Engine.bind at bound
  split at bound
  all_goals first
    | rfl
    | cases bound

theorem createUser_stored {login password sname name pname : String} {rank : Int}
    (ran : Ran e .createUser ([login, password, sname, name, pname, toString rank].map quoted) db effect)
    (fit : ∀ t ∈ [login, password, sname, name, pname], t.toList.length ≤ 64) :
    (TextRequest.createUser.Meant e.collation [login, password, sname, name, pname] db →
      TextRequest.createUser.AsSent e.collation [login, password, sname, name, pname] db effect.db) ∧
    (OnlyLiterals (callText Procedure.createUser.name
        ([login, password, sname, name, pname, toString rank].map quoted)) →
      TextRequest.createUser.AsSent e.collation [login, password, sname, name, pname] db effect.db →
      TextRequest.createUser.Meant e.collation [login, password, sname, name, pname] db) := by
  obtain ⟨tokens,exprs,at_,u,lexed,split,parsed,bound,done⟩ := TextRequest.binding (r := .createUser) ran
  obtain ⟨x₁,x₂,x₃,x₄,x₅,x₆,rfl⟩ : ∃ x₁ x₂ x₃ x₄ x₅ x₆, exprs = [x₁, x₂, x₃, x₄, x₅, x₆] := by
    match exprs, bind_arity bound with
    | [x₁, x₂, x₃, x₄, x₅, x₆], _ => exact ⟨x₁, x₂, x₃, x₄, x₅, x₆, rfl⟩
  simp only [TextRequest.procedure, Engine.bind, bind_eq_ok, pure_eq_ok] at bound
  obtain ⟨v₁,h₁,t₁,s₁,v₂,h₂,t₂,s₂,v₃,h₃,t₃,s₃,v₄,h₄,t₄,s₄,v₅,h₅,t₅,s₅,_,_,_,_,same⟩ := bound
  cases same
  obtain ⟨l,w,r,rfl,rfl,-,-,-,after⟩ := createUser_eq_ok done
  have user := congrArg (fun db : Db => db.user) after
  dsimp only at user
  simp only [List.forall_mem_cons] at fit
  constructor
  · rintro ⟨verbatim,trimmed⟩
    have all : ∀ text ∈ [login, password, sname, name, pname, toString rank],
        isVerbatim text.toList = true := by
      simp only [List.forall_mem_cons] at verbatim ⊢
      exact ⟨verbatim.1, verbatim.2.1, verbatim.2.2.1, verbatim.2.2.2.1, verbatim.2.2.2.2.1,
        verbatim_numeral rank, List.forall_mem_nil _⟩
    have literals := parse_quoted Procedure.createUser.isName_name all (by simp)
    cases Option.some.inj (parsed.symm.trans literals)
    cases varchar_of_literal h₁ fit.1 s₁
    cases char_of_literal h₂ fit.2.1 trimmed s₂
    cases varchar_of_literal h₃ fit.2.2.1 s₃
    cases varchar_of_literal h₄ fit.2.2.2.1 s₄
    cases varchar_of_literal h₅ fit.2.2.2.2.1 s₅
    exact ⟨r, user⟩
  · rintro only ⟨rank',stored⟩
    rw [user] at stored
    cases List.singleton_inj.mp (List.append_cancel_left stored)
    have single : ∀ expr ∈ [x₁, x₂, x₃, x₄, x₅, x₆], ∀ t tail, expr = .str t :: tail → tail = [] :=
      only _ parsed
    simp only [List.forall_mem_cons] at single
    have kept : Kept _ [x₁, x₂, x₃, x₄, x₅, x₆] [login, password, sname, name, pname] :=
      .text (literalOf_varchar single.1 h₁ s₁) <| .text (literalOf_char single.2.1 h₂ s₂) <|
      .text (literalOf_varchar single.2.2.1 h₃ s₃) <| .text (literalOf_varchar single.2.2.2.1 h₄ s₄) <|
      .text (literalOf_varchar single.2.2.2.2.1 h₅ s₅) <|
      .known (reads_quoted (verbatim_numeral rank)) .nil
    exact ⟨kept.verbatim lexed split, char_trimmed s₂⟩

def updatedUser (c : Collation) (login sname name pname : Option String) (rank : Int) (u : User) : User :=
  if login.any (c.same u.login) then { u with sname, name, pname, rank } else u

section
variable {c : Collation} {l sname name pname : Option String} {login : String} {rank : Int}
  {users : List User}

@[simp] theorem updatedUser_login (u : User) :
    (updatedUser c l sname name pname rank u).login = u.login := by
  unfold updatedUser
  split <;> rfl

theorem filter_updatedUser :
    (users.map (updatedUser c l sname name pname rank)).filter (fun u => !c.same u.login login) =
      (users.filter fun u => !c.same u.login login).map (updatedUser c l sname name pname rank) := by
  rw [List.filter_map]
  simp only [Function.comp_def, updatedUser_login]

theorem filter_own : (users.map (updatedUser c (some login) sname name pname rank)).filter
      (fun u => !c.same u.login login) = users.filter fun u => !c.same u.login login := by
  rw [filter_updatedUser]
  refine (List.map_congr_left fun u member => ?_).trans (List.map_id _)
  have other : c.same u.login login = false := by simpa using (List.mem_filter.mp member).2
  simp [updatedUser, other]

/-- A row that an update changes is one of the login, when the others are kept. -/
theorem login_of_changed (others : (users.map (updatedUser c l sname name pname rank)).filter
      (fun u => !c.same u.login login) = users.filter fun u => !c.same u.login login)
    {u : User} (member : u ∈ users) (changed : updatedUser c l sname name pname rank u ≠ u) :
    c.same u.login login = true ∧ l.any (c.same u.login) = true := by
  constructor
  · by_contra other
    rw [filter_updatedUser] at others
    refine changed (List.map_inj_left.mp (others.trans (List.map_id _).symm) u ?_)
    exact List.mem_filter.mpr ⟨member, by simpa using other⟩
  · by_contra other
    exact changed (if_neg other)

end

theorem updateUser_stored {login sname name pname : String} {rank : Int}
    (ran : Ran e .updateUser ([login, sname, name, pname, toString rank].map quoted) db effect)
    (fit : ∀ t ∈ [login, sname, name, pname], t.toList.length ≤ 64) :
    (TextRequest.updateUser.Meant e.collation [login, sname, name, pname] db →
      TextRequest.updateUser.AsSent e.collation [login, sname, name, pname] db effect.db) ∧
    (OnlyLiterals (callText Procedure.updateUser.name
        ([login, sname, name, pname, toString rank].map quoted)) →
      TextRequest.updateUser.Telling e.collation [login, sname, name, pname] db effect.db →
      TextRequest.updateUser.AsSent e.collation [login, sname, name, pname] db effect.db →
      TextRequest.updateUser.Meant e.collation [login, sname, name, pname] db) := by
  obtain ⟨tokens,exprs,at_,u,lexed,split,parsed,bound,done⟩ := TextRequest.binding (r := .updateUser) ran
  obtain ⟨x₁,x₂,x₃,x₄,x₅,rfl⟩ : ∃ x₁ x₂ x₃ x₄ x₅, exprs = [x₁, x₂, x₃, x₄, x₅] := by
    match exprs, bind_arity bound with
    | [x₁, x₂, x₃, x₄, x₅], _ => exact ⟨x₁, x₂, x₃, x₄, x₅, rfl⟩
  simp only [TextRequest.procedure, Engine.bind, bind_eq_ok, pure_eq_ok] at bound
  obtain ⟨v₁,h₁,t₁,s₁,v₂,h₂,t₂,s₂,v₃,h₃,t₃,s₃,v₄,h₄,t₄,s₄,_,_,_,_,same⟩ := bound
  cases same
  obtain ⟨r,-,-,after⟩ := updateUser_eq_ok done
  have user : effect.db.user = db.user.map (updatedUser e.collation t₁ t₂ t₃ t₄ r) :=
    congrArg (fun db : Db => db.user) after
  simp only [List.forall_mem_cons] at fit
  constructor
  · rintro ⟨verbatim,spelled⟩
    have all : ∀ text ∈ [login, sname, name, pname, toString rank],
        isVerbatim text.toList = true := by
      simp only [List.forall_mem_cons] at verbatim ⊢
      exact ⟨verbatim.1, verbatim.2.1, verbatim.2.2.1, verbatim.2.2.2.1, verbatim_numeral rank,
        List.forall_mem_nil _⟩
    have literals := parse_quoted Procedure.updateUser.isName_name all (by simp)
    cases Option.some.inj (parsed.symm.trans literals)
    cases varchar_of_literal h₁ fit.1 s₁
    cases varchar_of_literal h₂ fit.2.1 s₂
    cases varchar_of_literal h₃ fit.2.2.1 s₃
    cases varchar_of_literal h₄ fit.2.2.2.1 s₄
    refine ⟨fun new member own => ?_, by rw [user, filter_own]⟩
    rw [user] at member
    obtain ⟨u,inside,rfl⟩ := List.mem_map.mp member
    rw [updatedUser_login] at own ⊢
    exact ⟨spelled u inside own, by simp [updatedUser, own], by simp [updatedUser, own],
      by simp [updatedUser, own]⟩
  · rintro only ⟨written,telling⟩ ⟨rows,others⟩
    rw [user] at rows others written
    have single : ∀ expr ∈ [x₁, x₂, x₃, x₄, x₅], ∀ t tail, expr = .str t :: tail → tail = [] :=
      only _ parsed
    simp only [List.forall_mem_cons] at single
    have spelled : ∀ u ∈ db.user, e.collation.same u.login login = true → u.login = login := by
      intro u inside own
      have row := rows _ (List.mem_map_of_mem inside)
      rw [updatedUser_login] at row
      exact (row own).1
    obtain ⟨u,inside,changed⟩ : ∃ u ∈ db.user, updatedUser e.collation t₁ t₂ t₃ t₄ r u ≠ u := by
      by_contra none
      push Not at none
      exact written ((List.map_congr_left none).trans (List.map_id _))
    obtain ⟨own,selected⟩ := login_of_changed others inside changed
    obtain ⟨-,isSname,isName,isPname⟩ :=
      rows _ (List.mem_map_of_mem inside) (by rwa [updatedUser_login])
    simp only [updatedUser, selected, if_true] at isSname isName isPname
    subst isSname isName isPname
    have names : Kept ([sname, name, pname, toString rank].map quoted) [x₂, x₃, x₄, x₅]
        [sname, name, pname] :=
      .text (literalOf_varchar single.2.1 h₂ s₂) <| .text (literalOf_varchar single.2.2.1 h₃ s₃) <|
      .text (literalOf_varchar single.2.2.2.1 h₄ s₄) <|
      .known (reads_quoted (verbatim_numeral rank)) .nil
    refine ⟨?_, spelled⟩
    rcases telling with sharp | verbatim
    · obtain ⟨l,rfl,found⟩ := Option.any_eq_true _ _ |>.mp selected
      cases (sharp _ _ found).symm.trans (sharp _ _ own)
      exact (Kept.text (literalOf_varchar single.1 h₁ s₁) names).verbatim lexed split
    · rw [List.forall_mem_cons]
      exact ⟨verbatim, (Kept.known (reads_quoted verbatim) names).verbatim lexed split⟩

theorem createCustomer_stored {sname name pname : String} {tel : Int}
    (ran : Ran e .createCustomer ([toString tel, sname, name, pname].map quoted) db effect)
    (fit : ∀ t ∈ [sname, name, pname], t.toList.length ≤ 64) :
    (TextRequest.createCustomer.Meant e.collation [sname, name, pname] db →
      TextRequest.createCustomer.AsSent e.collation [sname, name, pname] db effect.db) ∧
    (OnlyLiterals (callText Procedure.createCustomer.name
        ([toString tel, sname, name, pname].map quoted)) →
      TextRequest.createCustomer.AsSent e.collation [sname, name, pname] db effect.db →
      TextRequest.createCustomer.Meant e.collation [sname, name, pname] db) := by
  obtain ⟨tokens,exprs,at_,u,lexed,split,parsed,bound,done⟩ :=
    TextRequest.binding (r := .createCustomer) ran
  obtain ⟨x₁,x₂,x₃,x₄,rfl⟩ : ∃ x₁ x₂ x₃ x₄, exprs = [x₁, x₂, x₃, x₄] := by
    match exprs, bind_arity bound with
    | [x₁, x₂, x₃, x₄], _ => exact ⟨x₁, x₂, x₃, x₄, rfl⟩
  simp only [TextRequest.procedure, Engine.bind, bind_eq_ok, pure_eq_ok] at bound
  obtain ⟨_,_,_,_,v₂,h₂,t₂,s₂,v₃,h₃,t₃,s₃,v₄,h₄,t₄,s₄,same⟩ := bound
  cases same
  obtain ⟨t,-,-,after⟩ := createCustomer_eq_ok done
  have customer := congrArg (fun db : Db => db.customer) after
  dsimp only at customer
  simp only [List.forall_mem_cons] at fit
  constructor
  · rintro ⟨verbatim,-⟩
    have all : ∀ text ∈ [toString tel, sname, name, pname], isVerbatim text.toList = true := by
      rw [List.forall_mem_cons]
      exact ⟨verbatim_numeral tel, verbatim⟩
    have literals := parse_quoted Procedure.createCustomer.isName_name all (by simp)
    cases Option.some.inj (parsed.symm.trans literals)
    cases varchar_of_literal h₂ fit.1 s₂
    cases varchar_of_literal h₃ fit.2.1 s₃
    cases varchar_of_literal h₄ fit.2.2.1 s₄
    exact ⟨t, customer⟩
  · rintro only ⟨telephone,stored⟩
    rw [customer] at stored
    cases List.singleton_inj.mp (List.append_cancel_left stored)
    have single : ∀ expr ∈ [x₁, x₂, x₃, x₄], ∀ t tail, expr = .str t :: tail → tail = [] :=
      only _ parsed
    simp only [List.forall_mem_cons] at single
    have kept : Kept _ [x₁, x₂, x₃, x₄] [sname, name, pname] :=
      .known (reads_quoted (verbatim_numeral tel)) <|
      .text (literalOf_varchar single.2.1 h₂ s₂) <| .text (literalOf_varchar single.2.2.1 h₃ s₃) <|
      .text (literalOf_varchar single.2.2.2.1 h₄ s₄) .nil
    exact ⟨kept.verbatim lexed split, trivial⟩

theorem addItem_texts {name : Option String} {cost : Option Decimal} {count : Option Nat}
    {distributor type : Option Int} {description : Option String} {after : Db}
    (done : PcCourse.addItem name cost count distributor type description db = .ok after) :
    ∃ row : Item, name = some row.name ∧ description = some row.description ∧
      after.item = db.item ++ [row] := by
  unfold PcCourse.addItem at done
  split at done
  · cases done
  split at done
  · cases done
  · simp only [bind_eq_ok, notNull_eq_ok, pure_eq_ok] at done
    obtain ⟨_,-,_,rfl,_,-,_,-,_,-,_,-,_,-,_,rfl,rfl⟩ := done
    exact ⟨_, rfl, rfl, rfl⟩

theorem addItem_stored {name description : String} {cost : Decimal} {count distributor type : Int}
    (ran : Ran e .addItem [quoted name, cost.format, toString count, toString distributor,
      toString type, quoted description] db effect)
    (fit : name.toList.length ≤ 256 ∧ description.utf8ByteSize ≤ 65535) :
    (TextRequest.addItem.Meant e.collation [name, description] db →
      TextRequest.addItem.AsSent e.collation [name, description] db effect.db) ∧
    (OnlyLiterals (callText Procedure.addItem.name [quoted name, cost.format, toString count,
        toString distributor, toString type, quoted description]) →
      TextRequest.addItem.AsSent e.collation [name, description] db effect.db →
      TextRequest.addItem.Meant e.collation [name, description] db) := by
  obtain ⟨tokens,exprs,at_,u,lexed,split,parsed,bound,done⟩ := TextRequest.binding (r := .addItem) ran
  obtain ⟨x₁,x₂,x₃,x₄,x₅,x₆,rfl⟩ : ∃ x₁ x₂ x₃ x₄ x₅ x₆, exprs = [x₁, x₂, x₃, x₄, x₅, x₆] := by
    match exprs, bind_arity bound with
    | [x₁, x₂, x₃, x₄, x₅, x₆], _ => exact ⟨x₁, x₂, x₃, x₄, x₅, x₆, rfl⟩
  simp only [TextRequest.procedure, Engine.bind, bind_eq_ok, pure_eq_ok] at bound
  obtain ⟨v₁,h₁,t₁,s₁,_,_,_,_,_,_,_,_,_,_,_,_,_,_,_,_,v₆,h₆,t₆,s₆,same⟩ := bound
  cases same
  obtain ⟨row,rfl,rfl,item⟩ := addItem_texts done
  obtain ⟨number,format⟩ := reads_format cost
  constructor
  · rintro ⟨verbatim,-⟩
    simp only [List.forall_mem_cons] at verbatim
    have literals := parse_callText Procedure.addItem.isName_name
      (.cons (reads_quoted verbatim.1) <| .cons format <| .cons (reads_numeral count) <|
        .cons (reads_numeral distributor) <| .cons (reads_numeral type) <|
        .cons (reads_quoted verbatim.2.1) .nil) (by simp)
    cases Option.some.inj (parsed.symm.trans literals)
    have isName := varchar_of_literal h₁ fit.1 s₁
    have isDescription := text_of_literal h₆ s₆
    exact ⟨row, Option.some.inj isName, Option.some.inj isDescription, item⟩
  · rintro only ⟨row',rfl,rfl,stored⟩
    rw [item] at stored
    cases List.singleton_inj.mp (List.append_cancel_left stored)
    have single : ∀ expr ∈ [x₁, x₂, x₃, x₄, x₅, x₆], ∀ t tail, expr = .str t :: tail → tail = [] :=
      only _ parsed
    simp only [List.forall_mem_cons] at single
    have kept : Kept _ [x₁, x₂, x₃, x₄, x₅, x₆] [row.name, row.description] :=
      .text (literalOf_varchar single.1 h₁ s₁) <| .known format <| .known (reads_numeral count) <|
      .known (reads_numeral distributor) <| .known (reads_numeral type) <|
      .text (literalOf_text single.2.2.2.2.2.1 h₆ s₆) .nil
    exact ⟨kept.verbatim lexed split, trivial⟩

end

/-- A request that is answered with success stores its strings as they were sent when their
literals denote them, a password has no blanks at its end, and the rows of a login are spelled
like it. Where no argument goes on behind a literal it stores them so in no other case. -/
theorem sent_strings_stored_iff (e : Engine) (k : Conditions) (config : LuaValue) (s : Session)
    (r : TextRequest) {func : LuaValue → Session → Reply}
    (found : (requests e k).lookup r.request = some func)
    (success : (func config s).response = some (makeResponseStr "success")) :
    ∃ args texts, r.args config = some args ∧ r.sent config = some texts ∧ (r.Fits texts →
      (r.Meant e.collation texts s.db →
        r.AsSent e.collation texts s.db (func config s).session.db) ∧
      (OnlyLiterals (callText r.procedure.name args) →
        r.Telling e.collation texts s.db (func config s).session.db →
        (r.AsSent e.collation texts s.db (func config s).session.db ↔
          r.Meant e.collation texts s.db))) := by
  obtain ⟨args,effect,read,ran,db⟩ := r.success_ran found success
  rw [db]
  cases r with
  | createUser =>
    obtain ⟨values,fields,rfl⟩ : ∃ values, readNewUser config = some values ∧ values.map quoted = args :=
      Option.map_eq_some_iff.mp read
    simp only [readNewUser, Option.bind_eq_bind, Option.bind_eq_some_iff, Option.pure_def,
      Option.some.injEq] at fields
    obtain ⟨user,inside,login,hlogin,pwd,hpwd,sname,hsname,name,hname,pname,hpname,rank,hrank,rfl⟩ := fields
    refine ⟨_, [login, pwd, sname, name, pname], read, ?_, fun fit => ?_⟩
    · simp [TextRequest.sent, TextRequest.textFields, inside, hlogin, hpwd, hsname, hname, hpname]
    · obtain ⟨enough,needed⟩ := createUser_stored ran fit
      exact ⟨enough, fun only _ => ⟨needed only, enough⟩⟩
  | updateUser =>
    obtain ⟨values,fields,rfl⟩ : ∃ values, readUpdateUser config = some values ∧ values.map quoted = args :=
      Option.map_eq_some_iff.mp read
    simp only [readUpdateUser, Option.bind_eq_bind, Option.bind_eq_some_iff, Option.pure_def,
      Option.some.injEq] at fields
    obtain ⟨user,inside,login,hlogin,sname,hsname,name,hname,pname,hpname,rank,hrank,rfl⟩ := fields
    refine ⟨_, [login, sname, name, pname], read, ?_, fun fit => ?_⟩
    · simp [TextRequest.sent, TextRequest.textFields, inside, hlogin, hsname, hname, hpname]
    · obtain ⟨enough,needed⟩ := updateUser_stored ran fit
      exact ⟨enough, fun only telling => ⟨needed only telling, enough⟩⟩
  | createCustomer =>
    obtain ⟨values,fields,rfl⟩ : ∃ values, readNewCustomer config = some values ∧ values.map quoted = args :=
      Option.map_eq_some_iff.mp read
    simp only [readNewCustomer, Option.bind_eq_bind, Option.bind_eq_some_iff, Option.pure_def,
      Option.some.injEq] at fields
    obtain ⟨customer,inside,tel,htel,sname,hsname,name,hname,pname,hpname,rfl⟩ := fields
    refine ⟨_, [sname, name, pname], read, ?_, fun fit => ?_⟩
    · simp [TextRequest.sent, TextRequest.textFields, inside, hsname, hname, hpname]
    · obtain ⟨enough,needed⟩ := createCustomer_stored ran fit
      exact ⟨enough, fun only _ => ⟨needed only, enough⟩⟩
  | addItem =>
    have values := read
    simp only [TextRequest.args, readNewItem, Option.bind_eq_bind, Option.bind_eq_some_iff,
      Option.pure_def, Option.some.injEq] at values
    obtain ⟨item,inside,name,hname,cost,hcost,count,hcount,distributor,hdistributor,type,htype,
      description,hdescription,rfl⟩ := values
    refine ⟨_, [name, description], read, ?_, fun fit => ?_⟩
    · simp [TextRequest.sent, TextRequest.textFields, inside, hname, hdescription]
    · obtain ⟨enough,needed⟩ := addItem_stored ran fit
      exact ⟨enough, fun only _ => ⟨needed only, enough⟩⟩

def newCustomer (sname : String) : LuaValue :=
  .table [("user", employee), ("new_customer", .table [("telephone", .int 79110000000),
    ("sname", .str sname), ("name", .str "Anna"), ("pname", .str "Petrovna")] [])] []

theorem plain_customer_stored : TextRequest.createCustomer.AsSent .binary
    ["Ivanova", "Anna", "Petrovna"] seeded (createCustomer .standard (.calm 1700000000)
      (newCustomer "Ivanova") (.opening seeded)).session.db := by
  have success : (createCustomer .standard (.calm 1700000000) (newCustomer "Ivanova")
      (.opening seeded)).response = some (makeResponseStr "success") := by
    rw [createCustomer, guarded_employee (newCustomer "Ivanova") seeded rfl (by decide) rfl rfl]
    decide
  obtain ⟨args,texts,-,sent,stored⟩ := sent_strings_stored_iff .standard (.calm 1700000000)
    (newCustomer "Ivanova") (.opening seeded) .createCustomer rfl success
  have strings : texts = ["Ivanova", "Anna", "Petrovna"] := (Option.some.inj sent).symm
  subst strings
  have fit : ∀ t ∈ ["Ivanova", "Anna", "Petrovna"], t.toList.length ≤ 64 := by decide
  exact (stored fit).1 ⟨by decide, trivial⟩

/-- The backslash of a name is dropped, and the request succeeds. -/
theorem backslash_dropped : ∃ texts,
    TextRequest.createCustomer.sent (newCustomer "AC\\DC") = some texts ∧
    TextRequest.createCustomer.Fits texts ∧
    (createCustomer .standard (.calm 1700000000) (newCustomer "AC\\DC") (.opening seeded)).response =
      some (makeResponseStr "success") ∧
    (createCustomer .standard (.calm 1700000000) (newCustomer "AC\\DC")
      (.opening seeded)).session.db.customer = seeded.customer ++
        [⟨79110000000, some "ACDC", some "Anna", some "Petrovna"⟩] ∧
    ¬TextRequest.createCustomer.AsSent .binary texts seeded (createCustomer .standard (.calm 1700000000)
      (newCustomer "AC\\DC") (.opening seeded)).session.db := by
  obtain ⟨success,row⟩ :
      (createCustomer .standard (.calm 1700000000) (newCustomer "AC\\DC") (.opening seeded)).response =
        some (makeResponseStr "success") ∧
      (createCustomer .standard (.calm 1700000000) (newCustomer "AC\\DC")
        (.opening seeded)).session.db.customer = seeded.customer ++
          [⟨79110000000, some "ACDC", some "Anna", some "Petrovna"⟩] := by
    rw [createCustomer, guarded_employee (newCustomer "AC\\DC") seeded rfl (by decide) rfl rfl]
    decide
  have fit : ∀ t ∈ ["AC\\DC", "Anna", "Petrovna"], t.toList.length ≤ 64 := by decide
  refine ⟨["AC\\DC", "Anna", "Petrovna"], rfl, fit, success, row, ?_⟩
  rintro ⟨telephone,stored⟩
  rw [row] at stored
  have name : some "ACDC" = some "AC\\DC" :=
    congrArg Customer.sname (List.singleton_inj.mp (List.append_cancel_left stored))
  exact absurd name (by decide)

end PcCourse.UserRequest
