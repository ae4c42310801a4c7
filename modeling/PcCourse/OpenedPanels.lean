import PcCourse.PairedReplies
import PcCourse.RemoteLogin

/-! The login window of a client beside the server, whose rows any other requests may change:
which credentials a panel can be opened with. -/
namespace PcCourse.OpenedPanels

open ClientRequests UserRequest RemoteCalls RemoteRows RemoteLogin Transition
open LoginWindow (EditsWhenIdle Current panelOf receive)
open ErrorTexts (RunsLua)

abbrev State := PairedReplies.State LoginWindow.State LoginWindow.Arrival Db

inductive Event where
  | editLogin (text : String)
  | editPassword (text : String)
  | selectRank (rank : LoginWindow.Rank)
  | click
  | serve (k : Conditions) (i : Nat)
  | arrive (i : Nat)
  | fail (i : Nat)
  | other (request : Incoming)

def start (db : Db) : State := ⟨LoginWindow.opening, [], db⟩

def window (hashPassword : String → String) : PairedReplies.Client LoginWindow.State UserLogin LoginWindow.Arrival where
  pending := LoginWindow.State.pending
  receive i reply := LoginWindow.step hashPassword (.arrive i reply)

section
variable (e : Engine) (lua : Lua) (hashPassword : String → String)

def input (event : LoginWindow.Event) (s : State) : State :=
  PairedReplies.input (window hashPassword) (LoginWindow.step hashPassword event) s

/-- What the server makes of a request of the window. -/
def answer (k : Conditions) (usr : UserLogin) (db : Db) : Option LoginWindow.Arrival × Db :=
  (replied e lua k usr db, (ServedDatabase.answer e ⟨k, received (.auth usr)⟩ db).2)

def step (event : Event) (s : State) : State :=
  match event with
  | .editLogin text => input hashPassword (.editLogin text) s
  | .editPassword text => input hashPassword (.editPassword text) s
  | .selectRank rank => input hashPassword (.selectRank rank) s
  | .click => input hashPassword .click s
  | .serve k i => PairedReplies.serve (window hashPassword) (answer e lua k) i s
  | .arrive i => PairedReplies.arrive (window hashPassword) i s
  | .fail i => PairedReplies.reach i (LoginWindow.step hashPassword (.arrive i .socketError)) s
  | .other request => { s with store := (ServedDatabase.answer e request s.store).2 }

def Plain (event : Event) : Prop := ∀ text, event = .editLogin text → LuaText.isPlain text = true

def Idle (s : State) (event : Event) : Prop :=
  match event with
  | .editLogin _ | .editPassword _ | .selectRank _ => s.client.pending = []
  | _ => True

def Typed (usr : UserLogin) : Prop :=
  ∃ ui, LuaText.isPlain ui.loginLe = true ∧ usr = LoginWindow.Ui.userLogin hashPassword ui

/-- No success is under way but for credentials that had an account, and none has come but for
such credentials. -/
structure Secure (past : UserLogin → Prop) (s : State) : Prop where
  answered : PairedReplies.Answered (window hashPassword) (Typed hashPassword)
    (fun usr reply => reply = .response "success" → past usr) s
  plain : LuaText.isPlain s.client.ui.loginLe = true
  opened : s.client.visible = false → ∃ usr, past usr

/-- An opened panel is that of the credentials of the client, and these had an account. -/
structure Identified (past : UserLogin → Prop) (s : State) : Prop where
  current : Current hashPassword s.client
  own : s.client.visible = false → past s.client.user ∧
    s.client.user = s.client.ui.userLogin hashPassword ∧
    ∃ panel, panelOf s.client.user.rank = some panel ∧ .panel panel ∈ s.client.shown

end

section
variable {hashPassword : String → String}

variable (hashPassword) in
/-- What the user does at the window changes its fields, while it is open, or adds a request with
what they hold. -/
theorem input_cases {event : LoginWindow.Event} (quiet : ∀ i reply, event ≠ .arrive i reply)
    (w : LoginWindow.State) :
    (∃ ui, (w.visible = false → ui = w.ui) ∧ (ui.loginLe = w.ui.loginLe ∨ event = .editLogin ui.loginLe) ∧
      LoginWindow.step hashPassword event w = { w with ui := ui }) ∨
    LoginWindow.step hashPassword event w =
      { w with pending := w.pending ++ [w.ui.userLogin hashPassword] } := by
  have edits (ui : LoginWindow.Ui) (stepped : LoginWindow.step hashPassword event w = LoginWindow.edit ui w)
      (login : ui.loginLe = w.ui.loginLe ∨ event = .editLogin ui.loginLe) :
      ∃ ui, (w.visible = false → ui = w.ui) ∧ (ui.loginLe = w.ui.loginLe ∨ event = .editLogin ui.loginLe) ∧
        LoginWindow.step hashPassword event w = { w with ui := ui } := by
    by_cases visible : w.visible = true
    · exact ⟨ui, fun closed => absurd (visible.symm.trans closed) (by decide), login,
        stepped.trans (if_pos visible)⟩
    · exact ⟨w.ui, fun _ => rfl, .inl rfl, stepped.trans (if_neg visible)⟩
  cases event with
  | editLogin text => exact .inl (edits _ rfl (.inr rfl))
  | editPassword text => exact .inl (edits _ rfl (.inl rfl))
  | selectRank rank => exact .inl (edits _ rfl (.inl rfl))
  | arrive i reply => exact absurd rfl (quiet i reply)
  | click =>
    by_cases visible : w.visible = true
    · by_cases filled : w.ui.loginLe ≠ "" ∧ w.ui.passwordLe ≠ ""
      · exact .inr (step_click hashPassword visible filled)
      · refine .inl ⟨w.ui, fun _ => rfl, .inl rfl, (if_pos visible).trans (if_pos ?_)⟩
        rwa [ne_eq, ne_eq, ← not_or, not_not] at filled
    · exact .inl ⟨w.ui, fun _ => rfl, .inl rfl, if_neg visible⟩

variable {past : UserLogin → Prop} {s : State}

theorem Secure.mono {later : UserLogin → Prop} (implies : ∀ usr, past usr → later usr)
    (secure : Secure hashPassword past s) : Secure hashPassword later s :=
  { secure with
    answered := secure.answered.mono fun usr _ granted success => implies usr (granted success)
    opened := fun closed => (secure.opened closed).imp implies }

theorem Secure.input {event : LoginWindow.Event} (quiet : ∀ i reply, event ≠ .arrive i reply)
    (typed : ∀ text, event = .editLogin text → LuaText.isPlain text = true)
    (secure : Secure hashPassword past s) : Secure hashPassword past (input hashPassword event s) := by
  rcases input_cases hashPassword quiet s.client with ⟨ui,kept,login,stepped⟩ | stepped
  · refine ⟨secure.answered.input [] ?_ (List.forall_mem_nil _), ?_, ?_⟩
    · rw [stepped, List.append_nil]
      rfl
    · change LuaText.isPlain (LoginWindow.step hashPassword event s.client).ui.loginLe = true
      rw [stepped]
      rcases login with same | edited
      · exact same ▸ secure.plain
      · exact typed _ edited
    · change (LoginWindow.step hashPassword event s.client).visible = false → _
      rw [stepped]
      exact secure.opened
  · refine ⟨secure.answered.input [s.client.ui.userLogin hashPassword] ?_ ?_, ?_, ?_⟩
    · rw [stepped]
      rfl
    · exact List.forall_mem_singleton.mpr ⟨s.client.ui, secure.plain, rfl⟩
    · change LuaText.isPlain (LoginWindow.step hashPassword event s.client).ui.loginLe = true
      rw [stepped]
      exact secure.plain
    · change (LoginWindow.step hashPassword event s.client).visible = false → _
      rw [stepped]
      exact secure.opened

theorem Secure.reach {i : Nat} {reply : LoginWindow.Arrival}
    (attested : reply = .response "success" → ∀ usr, s.client.pending[i]? = some usr → past usr)
    (secure : Secure hashPassword past s) :
    Secure hashPassword past (PairedReplies.reach i (LoginWindow.step hashPassword (.arrive i reply)) s) := by
  cases waiting : s.client.pending[i]? with
  | none =>
    have behind := List.getElem?_eq_none_iff.mp waiting
    have same : LoginWindow.step hashPassword (.arrive i reply) s.client = s.client :=
      if_neg (Nat.not_lt.mpr behind)
    refine ⟨secure.answered.reach ?_, ?_, ?_⟩
    · rw [same]
      exact (List.eraseIdx_of_length_le behind).symm
    · change LuaText.isPlain (LoginWindow.step hashPassword (.arrive i reply) s.client).ui.loginLe = true
      rw [same]
      exact secure.plain
    · change (LoginWindow.step hashPassword (.arrive i reply) s.client).visible = false → _
      rw [same]
      exact secure.opened
  | some usr =>
    let left := { s.client with pending := s.client.pending.eraseIdx i }
    obtain ⟨ui,pending⟩ := LoginWindow.receive_frame hashPassword reply left
    have stepped : LoginWindow.step hashPassword (.arrive i reply) s.client =
        LoginWindow.receive hashPassword reply left := LoginWindow.step_arrive waiting reply
    refine ⟨secure.answered.reach ?_, ?_, fun closed => ?_⟩
    · rw [stepped]
      exact pending
    · change LuaText.isPlain (LoginWindow.step hashPassword (.arrive i reply) s.client).ui.loginLe = true
      rw [stepped, ui]
      exact secure.plain
    · change (LoginWindow.step hashPassword (.arrive i reply) s.client).visible = false at closed
      rw [stepped] at closed
      by_cases visible : left.visible = true
      · exact ⟨usr, attested ((visible_receive visible).mp closed) usr waiting⟩
      · exact secure.opened (by simpa using visible)

theorem Identified.mono {later : UserLogin → Prop} (implies : ∀ usr, past usr → later usr)
    (identified : Identified hashPassword past s) : Identified hashPassword later s :=
  { identified with own := fun closed => (identified.own closed).imp_left (implies _) }

theorem Identified.input {event : LoginWindow.Event} (quiet : ∀ i reply, event ≠ .arrive i reply)
    (idle : EditsWhenIdle s.client event) (identified : Identified hashPassword past s) :
    Identified hashPassword past (input hashPassword event s) := by
  refine ⟨identified.current.step idle, fun closed => ?_⟩
  unfold OpenedPanels.input PairedReplies.input at closed ⊢
  rcases input_cases hashPassword quiet s.client with ⟨ui,kept,-,stepped⟩ | stepped
  · rw [stepped] at closed ⊢
    obtain rfl := kept closed
    exact identified.own closed
  · rw [stepped] at closed ⊢
    exact identified.own closed

theorem Identified.reach {i : Nat} {reply : LoginWindow.Arrival}
    (attested : reply = .response "success" → ∀ usr, s.client.pending[i]? = some usr → past usr)
    (identified : Identified hashPassword past s) :
    Identified hashPassword past (PairedReplies.reach i (LoginWindow.step hashPassword (.arrive i reply)) s) := by
  refine ⟨identified.current.step trivial, fun closed => ?_⟩
  unfold PairedReplies.reach at closed ⊢
  cases waiting : s.client.pending[i]? with
  | none =>
    have same : LoginWindow.step hashPassword (.arrive i reply) s.client = s.client :=
      if_neg (Nat.not_lt.mpr (List.getElem?_eq_none_iff.mp waiting))
    rw [same] at closed ⊢
    exact identified.own closed
  | some usr =>
    rw [LoginWindow.step_arrive waiting] at closed ⊢
    by_cases success : reply = .response "success"
    · obtain ⟨panel,opened,received_⟩ := LoginWindow.receive_success hashPassword
        { s.client with pending := s.client.pending.eraseIdx i }
      have own := identified.current usr (List.mem_of_getElem? waiting)
      rw [success, received_]
      exact ⟨own ▸ attested success usr waiting, rfl, panel, opened, by simp⟩
    · obtain ⟨shown,user,either,-,received_⟩ := receive_refused hashPassword success
        { s.client with pending := s.client.pending.eraseIdx i }
      rw [received_] at closed ⊢
      obtain ⟨known,own,panel,opened,inside⟩ := identified.own closed
      have same : user = s.client.user := either.elim id fun fields => fields.trans own.symm
      subst same
      exact ⟨known, own, panel, opened, List.mem_append_left _ inside⟩

theorem Secure.granted (secure : Secure hashPassword past s) {i : Nat} {reply : LoginWindow.Arrival}
    (said : s.replies[i]? = some (some reply)) (success : reply = .response "success") (usr : UserLogin)
    (waiting : s.client.pending[i]? = some usr) : past usr :=
  secure.answered.answered i usr reply waiting said success

variable {e : Engine} {lua : Lua} (runs : RunsLua lua) (hex : ∀ password, IsHex (hashPassword password))
include runs hex

/-- Serving a request answers a success only where there is an account. -/
theorem Secure.serve {k : Conditions} {i : Nat} (attested : ∀ usr, HasAccount e.collation s.store usr → past usr)
    (secure : Secure hashPassword past s) :
    Secure hashPassword past (PairedReplies.serve (window hashPassword) (answer e lua k) i s) := by
  have answered := secure.answered.serve (answer e lua k) (i := i) <| by
    rintro _ reply - ⟨ui,plain,rfl⟩ said success
    obtain ⟨known,replied_,-,granted⟩ := replied_of_auth e k s.store runs (admissible_userLogin hex plain)
    obtain rfl := Option.some.inj (said.symm.trans replied_)
    exact attested _ ((refusal_userLogin hex ui).mp (granted.mp success)).2
  refine ⟨answered, ?_, ?_⟩ <;> rw [PairedReplies.serve_client]
  · exact secure.plain
  · exact secure.opened

/-- One step: what there is an account for now is attested from here on. -/
theorem Secure.step {event : Event} (plain : Plain event) (secure : Secure hashPassword past s) :
    Secure hashPassword (fun usr => past usr ∨ HasAccount e.collation s.store usr)
      (step e lua hashPassword event s) := by
  have before : Secure hashPassword (fun usr => past usr ∨ HasAccount e.collation s.store usr) s :=
    secure.mono fun _ => .inl
  cases event with
  | editLogin text =>
    refine before.input (by simp) ?_
    rintro _ ⟨⟩
    exact plain text rfl
  | editPassword text => exact before.input (by simp) (by simp)
  | selectRank rank => exact before.input (by simp) (by simp)
  | click => exact before.input (by simp) (by simp)
  | serve k i => exact before.serve runs hex fun usr => .inr
  | arrive i =>
    change Secure hashPassword _ (PairedReplies.arrive (window hashPassword) i s)
    rcases PairedReplies.arrive_cases (window hashPassword) s i with same | ⟨reply,said,arrived⟩
    · rwa [same]
    · rw [arrived]
      exact before.reach (before.granted said)
  | fail i => exact before.reach (by simp)
  | other request => exact ⟨before.answered.store _, before.plain, before.opened⟩

omit runs hex in
theorem Identified.step {event : Event} (idle : Idle s event) (secure : Secure hashPassword past s)
    (identified : Identified hashPassword past s) :
    Identified hashPassword past (step e lua hashPassword event s) := by
  cases event with
  | editLogin text | editPassword text | selectRank rank => exact identified.input (by simp) idle
  | click => exact identified.input (by simp) trivial
  | serve k i =>
    change Identified hashPassword _ (PairedReplies.serve (window hashPassword) (answer e lua k) i s)
    refine ⟨?_, ?_⟩ <;> rw [PairedReplies.serve_client]
    · exact identified.current
    · exact identified.own
  | arrive i =>
    change Identified hashPassword _ (PairedReplies.arrive (window hashPassword) i s)
    rcases PairedReplies.arrive_cases (window hashPassword) s i with same | ⟨reply,said,arrived⟩
    · rwa [same]
    · rw [arrived]
      exact identified.reach (secure.granted said)
  | fail i => exact identified.reach (by simp)
  | other request => exact { identified with }

end

end PcCourse.OpenedPanels
