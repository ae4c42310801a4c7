import PcCourse.Access

/-! For which credentials the check is sound: the three strings are pasted between quotes
into the statement, and what they denote there need not be what they are. -/
namespace PcCourse.UserRequest

open SqlCall SqlText Outcome

def HasRow (db : Db) (login password rank : String) : Prop :=
  ∃ u ∈ db.user, ∃ r ∈ db.userRank, u.rank = r.id ∧ u.login = login ∧ u.sha256Pwd = password ∧
    r.name = some rank

/-- Whoever is granted access by a server with this collation is in the tables. -/
def Sound (c : Collation) (config : LuaValue) (ranks : List String) : Prop :=
  ∀ (e : Engine) (k : Conditions) (s : Session), e.collation = c → Granted e k config ranks s →
    ∃ login password rank, credentials config = some (login, password, rank) ∧ rank ∈ ranks ∧
      HasRow s.db login password rank

/-- A string that reaches its parameter as it is and that no other text is equal to. -/
structure Faithful (c : Collation) (text : String) : Prop where
  verbatim : isVerbatim text.toList = true
  fits : text.toList.length ≤ 64
  alone : ∀ other, c.same other text = true → other = text

/-- An argument that can be a text of 64 characters: NULL and longer texts cannot. An
expression that is no literal, or whose text is up to the server, can be any text. -/
def isStorable (expr : List Token) : Bool :=
  match literal? expr with
  | some .null => false
  | some (.text s) => (s.toList.drop 64).all (· == ' ')
  | some (.int n) => ((toString n).toList.drop 64).all (· == ' ')
  | some (.double _) | some (.time _) => true
  | none => expr ≠ []

def isAccepted (login password rank : String) : Bool :=
  match parse (checkText login password rank) with
  | some ⟨_, [a, b, c]⟩ => isStorable a && isStorable b && isStorable c
  | _ => false

def Harmless (c : Collation) (login password rank : String) : Prop :=
  isAccepted login password rank = true →
    Faithful c login ∧ Faithful c password ∧ trimBlanks password = password ∧ Faithful c rank

section
variable {e : Engine} {c : Collation} {config : LuaValue} {ranks : List String}
  {login password rank : String}

theorem storeText_eq_ok {limit : Nat} {column text stored : String} :
    storeText limit column text = .ok stored ↔
      (text.toList.drop limit).all (· == ' ') = true ∧ stored = String.ofList (text.toList.take limit) := by
  unfold storeText
  split
  next blank => simp [blank, eq_comm]
  next long => simp [long]

theorem storeText_of_fits {column text : String} (fits : text.toList.length ≤ 64) :
    storeText 64 column text = .ok text := by
  rw [storeText_eq_ok, List.drop_eq_nil_of_le fits, List.take_of_length_le fits, String.ofList_toList]
  exact ⟨rfl, rfl⟩

theorem isStorable_of_toVarchar {db : Db} {expr : List Token} {column text : String} {v : SqlValue}
    (valued : e.value db expr = .ok v) (stored : e.toVarchar 64 column v = .ok (some text)) :
    isStorable expr = true := by
  have blank : ∀ s, e.text v = some s → (s.toList.drop 64).all (· == ' ') = true := by
    intro s shown
    simp only [Engine.toVarchar, shown] at stored
    obtain ⟨result,kept,-⟩ := storeText_map.mp stored
    exact (storeText_eq_ok.mp kept).1
  unfold isStorable
  cases literal : literal? expr with
  | none =>
    simp only [Engine.value, literal] at valued
    by_cases empty : expr = []
    · simp [empty] at valued
    · simp [empty]
  | some w =>
    simp only [Engine.value, literal, Except.ok.injEq] at valued
    subst valued
    cases w with
    | null => simp [Engine.toVarchar, Engine.text] at stored
    | text s => exact blank s rfl
    | int n => exact blank (toString n) rfl
    | double d => rfl
    | time t => rfl

theorem isAccepted_of_compile {db : Db} {l p r : String}
    (compiled : e.compile db (checkText login password rank) =
      .ok (.query (.checkUserExists (some l) (some p) (some r)))) :
    isAccepted login password rank = true := by
  unfold Engine.compile at compiled
  split at compiled
  · cases compiled
  next call parsed =>
    rw [parse_procedure (Procedure.isName_name .checkUserExists) parsed, Procedure.ofName?_name] at compiled
    simp only [isAccepted, parsed]
    obtain ⟨name,args⟩ := call
    match args with
    | [a, b, c] =>
      simp only [Engine.bind, bind_eq_ok, pure_eq_ok, Statement.query.injEq, Query.checkUserExists.injEq] at compiled
      obtain ⟨va,ha,l',hl,vb,hb,p',hp,vc,hc,r',hr,rfl,rfl,rfl⟩ := compiled
      have pwd : ∃ text, e.toVarchar 64 "_sha256_pwd" vb = .ok (some text) := by
        unfold Engine.toChar at hp
        cases stored : e.toVarchar 64 "_sha256_pwd" vb with
        | error fault => simp [stored, Except.map] at hp
        | ok text =>
          cases text with
          | none => simp [stored, Except.map] at hp
          | some text => exact ⟨text, rfl⟩
      obtain ⟨text,pwd⟩ := pwd
      simp [isStorable_of_toVarchar ha hl, isStorable_of_toVarchar hb pwd, isStorable_of_toVarchar hc hr]
    | [] | [_] | [_, _] | _ :: _ :: _ :: _ :: _ =>
      simp [Engine.bind, throw, throwThe, MonadExceptOf.throw] at compiled

theorem sound_of_harmless (strings : credentials config = some (login, password, rank))
    (harmless : rank ∈ ranks → Harmless c login password rank) : Sound c config ranks := by
  intro e k s collation granted
  obtain ⟨login',password',rank',strings',allowed,-,l,p,r,compiled,found⟩ := granted_iff.mp granted
  rw [strings] at strings'
  cases strings'
  refine ⟨login, password, rank, strings, allowed, ?_⟩
  obtain ⟨u,user,row,ranked,on,sameLogin,sameRank,samePwd⟩ := checkUserExists_iff.mp found
  obtain ⟨l,rfl,sameLogin⟩ := Option.any_eq_true _ _ |>.mp sameLogin
  obtain ⟨name,named,sameRank⟩ := Option.any_eq_true _ _ |>.mp sameRank
  obtain ⟨r,rfl,sameRank⟩ := Option.any_eq_true _ _ |>.mp sameRank
  obtain ⟨p,rfl,samePwd⟩ := Option.any_eq_true _ _ |>.mp samePwd
  obtain ⟨fl,fp,trimmed,fr⟩ := harmless allowed (isAccepted_of_compile compiled)
  obtain ⟨l',p',r',hl,hp,hr,same⟩ := (compile_checkText (by
    intro text member
    simp only [List.mem_cons, List.not_mem_nil, or_false] at member
    rcases member with rfl | rfl | rfl
    · exact fl.verbatim
    · exact fp.verbatim
    · exact fr.verbatim)).mp compiled
  rw [storeText_of_fits fl.fits] at hl
  rw [storeText_of_fits fp.fits] at hp
  rw [storeText_of_fits fr.fits] at hr
  cases hl
  cases hp
  cases hr
  cases same
  rw [collation] at sameLogin sameRank samePwd
  rw [trimmed] at samePwd
  exact ⟨u, user, row, ranked, on, fl.alone _ sameLogin, fp.alone _ samePwd,
    by rw [named, fr.alone _ sameRank]⟩

/-- The text an argument stands for when what the server may choose is `y`. -/
def standsFor (y : String) (expr : List Token) : String :=
  match literal? expr with
  | some (.text s) => String.ofList (s.toList.take 64)
  | some (.int n) => String.ofList ((toString n).toList.take 64)
  | _ => y

def freeEngine (c : Collation) (y : String) : Engine :=
  ⟨c, fun _ _ => some (.text y), fun _ => y, fun _ => y, false⟩

theorem toVarchar_free {y : String} (short : y.toList.length ≤ 64) {expr : List Token}
    (storable : isStorable expr = true) (column : String) (db : Db) :
    ∃ v, (freeEngine c y).value db expr = .ok v ∧
      (freeEngine c y).toVarchar 64 column v = .ok (some (standsFor y expr)) := by
  unfold isStorable at storable
  cases literal : literal? expr with
  | none =>
    simp only [literal, ne_eq, decide_eq_true_eq] at storable
    refine ⟨.text y, by simp [Engine.value, literal, storable, freeEngine], ?_⟩
    simp [Engine.toVarchar, Engine.text, standsFor, literal, storeText_of_fits short, Except.map]
  | some v =>
    refine ⟨v, by simp [Engine.value, literal], ?_⟩
    cases v with
    | null => simp [literal] at storable
    | text s =>
      simp only [literal] at storable
      simp [Engine.toVarchar, Engine.text, standsFor, literal, storeText, storable, Except.map]
    | int n =>
      simp only [literal] at storable
      simp only [Engine.toVarchar, Engine.text, standsFor, literal, storeText, storable, if_true,
        Except.map]
    | double d =>
      simp [Engine.toVarchar, Engine.text, standsFor, literal, storeText_of_fits short, Except.map,
        freeEngine]
    | time t =>
      simp [Engine.toVarchar, Engine.text, standsFor, literal, storeText_of_fits short, Except.map,
        freeEngine]

def loneRow (login password rank : String) : Db :=
  { schema with
    user := [⟨login, password, none, none, none, 1⟩]
    userRank := [⟨1, some rank⟩] }

theorem hasRow_loneRow {l p r : String} (row : HasRow (loneRow l p r) login password rank) :
    l = login ∧ p = password ∧ r = rank := by
  obtain ⟨u,user,row,ranked,-,rfl,rfl,named⟩ := row
  cases List.mem_singleton.mp user
  cases List.mem_singleton.mp ranked
  exact ⟨rfl, rfl, Option.some.inj named⟩

theorem compile_free {name : String} {x₁ x₂ x₃ : List Token}
    (parsed : parse (checkText login password rank) = some ⟨name, [x₁, x₂, x₃]⟩)
    (accepted : isAccepted login password rank = true) {y : String} (short : y.toList.length ≤ 64)
    (db : Db) : (freeEngine c y).compile db (checkText login password rank) =
      .ok (.query (.checkUserExists (some (standsFor y x₁)) (some (trimBlanks (standsFor y x₂)))
        (some (standsFor y x₃)))) := by
  simp only [isAccepted, parsed, Bool.and_eq_true] at accepted
  obtain ⟨v₁,value₁,text₁⟩ := toVarchar_free (c := c) short accepted.1.1 "_login" db
  obtain ⟨v₂,value₂,text₂⟩ := toVarchar_free (c := c) short accepted.1.2 "_sha256_pwd" db
  obtain ⟨v₃,value₃,text₃⟩ := toVarchar_free (c := c) short accepted.2 "rank_name" db
  have named : name = Procedure.checkUserExists.name :=
    parse_procedure (Procedure.isName_name .checkUserExists) parsed
  simp only [Engine.compile, parsed, named, Procedure.ofName?_name, Engine.bind, bind_eq_ok, pure_eq_ok]
  exact ⟨v₁, value₁, _, text₁, v₂, value₂, _, by simp [Engine.toChar, text₂, Except.map], v₃,
    value₃, _, text₃, rfl⟩

theorem granted_free (strings : credentials config = some (login, password, rank))
    (allowed : rank ∈ ranks) {name : String} {x₁ x₂ x₃ : List Token}
    (parsed : parse (checkText login password rank) = some ⟨name, [x₁, x₂, x₃]⟩)
    (accepted : isAccepted login password rank = true) {y : String} (short : y.toList.length ≤ 64)
    {l p r : String} (sameLogin : c.same l (standsFor y x₁) = true)
    (samePwd : c.same p (trimBlanks (standsFor y x₂)) = true)
    (sameRank : c.same r (standsFor y x₃) = true) (now : Int) :
    Granted (freeEngine c y) (.calm now) config ranks (.opening (loneRow l p r)) := by
  refine granted_iff.mpr ⟨login, password, rank, strings, allowed, rfl, _, _, _,
    compile_free parsed accepted short _, ?_⟩
  exact checkUserExists_iff.mpr ⟨_, List.mem_singleton.mpr rfl, _, List.mem_singleton.mpr rfl, rfl,
    sameLogin, sameRank, samePwd⟩

theorem row_of_sound (strings : credentials config = some (login, password, rank))
    (allowed : rank ∈ ranks) (sound : Sound c config ranks) {name : String} {x₁ x₂ x₃ : List Token}
    (parsed : parse (checkText login password rank) = some ⟨name, [x₁, x₂, x₃]⟩)
    (accepted : isAccepted login password rank = true) {y : String} (short : y.toList.length ≤ 64)
    {l p r : String} (sameLogin : c.same l (standsFor y x₁) = true)
    (samePwd : c.same p (trimBlanks (standsFor y x₂)) = true)
    (sameRank : c.same r (standsFor y x₃) = true) : l = login ∧ p = password ∧ r = rank := by
  have granted := granted_free strings allowed parsed accepted short sameLogin samePwd sameRank 0
  obtain ⟨login',password',rank',strings',-,row⟩ := sound _ _ _ rfl granted
  rw [strings] at strings'
  cases strings'
  exact hasRow_loneRow row

/-- A conversion that takes nothing but blanks off the end of a text. -/
structure Cuts (f : String → String) : Prop where
  blanks : ∀ t : String, ∃ cut, (∀ d ∈ cut, d = ' ') ∧ t.toList = (f t).toList ++ cut
  apart : f "a" ≠ f "b"

theorem cuts_id : Cuts id := ⟨fun _ => ⟨[], by simp⟩, by decide⟩

theorem cuts_trimBlanks : Cuts trimBlanks where
  blanks t := by
    refine ⟨t.toList.rtakeWhile (· == ' '), fun d member => ?_, ?_⟩
    · simpa using List.mem_rtakeWhile_imp member
    · rw [trimBlanks, String.toList_ofList]
      exact List.rdropWhile_append_rtakeWhile.symm
  apart := by decide

/-- An argument that begins with a literal and stands for a text whatever the server
chooses is the literal of that text, which then is verbatim. -/
theorem verbatim_argument {f : String → String} (cuts : Cuts f) {text : String} {d : Char}
    (closing : closes d) {rest : List Char} {tokens expr : List Token} {more : List (List Token)}
    (lexed : scanner.run .code ('\'' :: (text.toList ++ '\'' :: d :: rest)) = some tokens)
    (split : arguments 0 [] tokens = some (expr :: more)) (storable : isStorable expr = true)
    (stands : ∀ y : String, y.toList.length ≤ 64 → f (standsFor y expr) = text) :
    isVerbatim text.toList = true ∧ text.toList.length ≤ 64 ∧
      ∃ later, scanner.run .code (d :: rest) = some later ∧
        arguments 0 [.str text] later = some (expr :: more) := by
  obtain ⟨s,after,later,tail,read,behind,remaining,shape⟩ := arguments_literal lexed split
  have first := stands "a" (by decide)
  cases tail with
  | cons t tail =>
    have free : literal? expr = none := by rw [shape]; rfl
    have second := stands "b" (by decide)
    simp only [standsFor, free] at first second
    exact absurd (first.trans second.symm) cuts.apart
  | nil =>
    have literal : literal? expr = some (.text (String.ofList s)) := by rw [shape]; rfl
    simp only [isStorable, literal, String.toList_ofList] at storable
    simp only [standsFor, literal, String.toList_ofList] at first
    obtain ⟨cut,blank,whole⟩ := cuts.blanks (String.ofList (s.take 64))
    rw [first, String.toList_ofList] at whole
    have extended : s = text.toList ++ (cut ++ s.drop 64) := by
      rw [← List.append_assoc, ← whole, List.take_append_drop]
    have allBlank : ∀ x ∈ cut ++ s.drop 64, x = ' ' := by
      intro x member
      rcases List.mem_append.mp member with old | beyond
      · exact blank x old
      · simpa using List.all_eq_true.mp storable x beyond
    have notClosing : (cut ++ s.drop 64).head? ≠ some d := by
      intro head
      have := allBlank d (List.mem_of_mem_head? head)
      subst this
      rcases closing with c | c <;> cases c
    have plain : isSpecial d = false := by
      rcases closing with rfl | rfl <;> rfl
    rw [extended] at read
    obtain ⟨verbatim,none,rfl⟩ := verbatim_of_readLiteral plain rest _ _ _ notClosing read
    rw [none, List.append_nil] at extended
    subst extended
    rw [String.ofList_toList] at remaining
    refine ⟨verbatim, ?_, later, behind, remaining⟩
    have := congrArg List.length whole
    simp only [List.length_take, List.length_append] at this
    omega

theorem harmless_of_sound (strings : credentials config = some (login, password, rank))
    (allowed : rank ∈ ranks) (sound : Sound c config ranks) : Harmless c login password rank := by
  intro accepted
  have three := accepted
  unfold isAccepted at three
  split at three
  next name x₁ x₂ x₃ parsed =>
    simp only [Bool.and_eq_true] at three
    have row := @row_of_sound c config ranks login password rank strings allowed sound _ _ _ _ parsed
      accepted
    have stands := fun y short => row (y := y) short (c.refl _) (c.refl _) (c.refl _)
    obtain ⟨tokens,exprs,lexed,split,same⟩ :=
      parse_inner (Procedure.isName_name .checkUserExists) parsed
    have args : exprs = [x₁, x₂, x₃] := by
      have := congrArg Call.args same
      simp only at this
      split at this <;> simp_all
    rw [args] at split
    have shape : (", ".intercalate [quoted login, quoted password, quoted rank]).toList ++ [')', ';'] =
        '\'' :: (login.toList ++ '\'' :: ',' :: ' ' :: '\'' :: (password.toList ++ '\'' :: ',' :: ' ' ::
          '\'' :: (rank.toList ++ '\'' :: ')' :: [';']))) := by
      simp [quoted]
    rw [shape] at lexed
    obtain ⟨vl,fl,later,behind,remaining⟩ := verbatim_argument cuts_id (.inl rfl) lexed split three.1.1
      fun y short => (stands y short).1
    rw [run_symbol rfl, run_blank rfl] at behind
    obtain ⟨tokens,lexed,rfl⟩ := Option.map_eq_some_iff.mp behind
    rw [arguments_comma] at remaining
    obtain ⟨more,split,tail⟩ := Option.map_eq_some_iff.mp remaining
    rw [(List.cons.inj tail).2] at split
    obtain ⟨vp,fp,later,behind,remaining⟩ := verbatim_argument cuts_trimBlanks (.inl rfl) lexed split
      three.1.2 fun y short => (stands y short).2.1
    rw [run_symbol rfl, run_blank rfl] at behind
    obtain ⟨tokens,lexed,rfl⟩ := Option.map_eq_some_iff.mp behind
    rw [arguments_comma] at remaining
    obtain ⟨more,split,tail⟩ := Option.map_eq_some_iff.mp remaining
    rw [(List.cons.inj tail).2] at split
    obtain ⟨vr,fr,-⟩ := verbatim_argument cuts_id (.inr rfl) lexed split three.2
      fun y short => (stands y short).2.2
    have short : "".toList.length ≤ 64 := by decide
    obtain ⟨isLogin,isPassword,isRank⟩ := stands "" short
    refine ⟨⟨vl, fl, fun other equal => ?_⟩, ⟨vp, fp, fun other equal => ?_⟩, ?_,
      ⟨vr, fr, fun other equal => ?_⟩⟩
    · exact (row short (isLogin ▸ equal) (c.refl _) (c.refl _)).1
    · exact (row short (c.refl _) (isPassword ▸ equal) (c.refl _)).2.1
    · rw [← isPassword, trimBlanks, trimBlanks, String.toList_ofList, List.rdropWhile_idempotent]
    · exact (row short (c.refl _) (c.refl _) (isRank ▸ equal)).2.2
  next => cases three

end

/-- The check is sound for a request exactly when its rank is not allowed anyway, the
server refuses the statement, or the strings mean in it what they are. -/
theorem sound_iff (c : Collation) (config : LuaValue) (ranks : List String) :
    Sound c config ranks ↔ ∀ login password rank,
      credentials config = some (login, password, rank) → rank ∈ ranks →
        Harmless c login password rank := by
  constructor
  · intro sound login password rank strings allowed
    exact harmless_of_sound strings allowed sound
  · intro harmless
    cases strings : credentials config with
    | none =>
      intro e k s _ granted
      obtain ⟨login,password,rank,some_,-⟩ := granted_iff.mp granted
      rw [strings] at some_
      cases some_
    | some values =>
      obtain ⟨login,password,rank⟩ := values
      exact sound_of_harmless strings fun allowed => harmless login password rank strings allowed

/-- A login can end its literal, give the other arguments itself and turn the rest of the statement
into a comment: whatever is sent as password and rank, the check is that of these arguments. -/
theorem parse_forged {login : String} (verbatim : isVerbatim login.toList = true) {args : List String}
    {exprs : List (List Token)} (reads : List.Forall₂ Reads args exprs) (some_ : args ≠ [])
    {password rank : String} (line : '\n' ∉ password.toList ++ rank.toList) :
    parse (checkText (login ++ "', " ++ ", ".intercalate args ++ ");#") password rank) =
      some ⟨"CheckUserExists", [.str login] :: exprs⟩ := by
  have comment : Comment ('#' :: ("', '" ++ password ++ "', '" ++ rank ++ "');").toList) := by
    refine .hash ?_
    rw [List.mem_append, not_or] at line
    simp [line.1, line.2]
  refine parse_behind (by decide) (.cons (reads_quoted verbatim) reads) (by simp) comment.silent ?_
  cases args with
  | nil => exact absurd rfl some_
  | cons arg args => simp [checkText, callText, quoted, String.intercalate_cons_cons]

example : parse (checkText ("abobus" ++ "', " ++ ", ".intercalate ["\"" ++ "it's" ++ "\"", quoted "Employee"] ++ ");#")
    "" "Admin") = some ⟨"CheckUserExists", [[.str "abobus"], [.str "it's"], [.str "Employee"]]⟩ :=
  parse_forged (by decide) (.cons (reads_double (by simp)) (.cons (reads_quoted (by decide)) .nil))
    (by simp) (by simp)

/-- The credentials of the employee, in a request that gives the rank of an administrator. -/
def forgedRank : LuaValue :=
  .table [("user", userTable ("abobus', " ++
    "'32c9a2ec9e0c4e3a4cc93012b2e72c04b2c395578dcc80b535e951b452eaf9a3', 'Employee'); -- ") ""
    "Admin")] []

theorem forged_rank_granted : ¬Sound .binary forgedRank ["Admin"] := by
  intro sound
  have granted : Granted .standard (.calm 1700000000) forgedRank ["Admin"] (.opening seeded) := by
    unfold Granted
    decide +kernel
  obtain ⟨login,password,rank,strings,-,u,user,r,ranked,on,isLogin,isPassword,isRank⟩ :=
    sound .standard _ _ rfl granted
  have values : credentials forgedRank = some ("abobus', " ++
    "'32c9a2ec9e0c4e3a4cc93012b2e72c04b2c395578dcc80b535e951b452eaf9a3', 'Employee'); -- ", "",
    "Admin") := by rfl
  rw [values] at strings
  cases strings
  have noSuch : ∀ u ∈ seeded.user, u.sha256Pwd ≠ "" := by decide
  exact noSuch u user isPassword

end PcCourse.UserRequest
