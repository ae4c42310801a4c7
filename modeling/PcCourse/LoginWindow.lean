import PcCourse.ClientRequests
import PcCourse.Transition

/-! The login window and the `User` it fills in. A reply is handled with the fields as they
are when it arrives, not as they were when its request was sent. -/
namespace PcCourse.LoginWindow

open Transition ClientRequests

inductive Rank where
  | admin
  | employee
  | accountant
  deriving DecidableEq, Repr

def Rank.text : Rank → String
  | .admin => "Admin"
  | .employee => "Employee"
  | .accountant => "Accountant"

inductive Panel where
  | adminPanel
  | employeePanel
  | accountantPanel
  deriving DecidableEq, Repr

/-- The chain of comparisons after a success; `none` is its `assert(false)`. -/
def panelOf (rank : String) : Option Panel :=
  if rank = "Admin" then some .adminPanel
  else if rank = "Employee" then some .employeePanel
  else if rank = "Accountant" then some .accountantPanel
  else none

structure Ui where
  loginLe : String
  passwordLe : String
  rankCbox : Rank
  deriving DecidableEq, Repr

/-- What a reply handler is called with: a text without a readable `response`, a text with
one, or an error of the socket. -/
inductive Arrival where
  | unreadable
  | response (text : String)
  | socketError
  deriving DecidableEq, Repr

inductive Shown where
  | luaConfigError
  | badInfo
  | socketError
  | panel (opened : Panel)
  deriving DecidableEq, Repr

/-- `user` is the `User` that every later request of the client takes its credentials
from, `pending` the requests of the connections still open. -/
structure State where
  ui : Ui
  visible : Bool
  user : UserLogin
  pending : List UserLogin
  shown : List Shown
  deriving DecidableEq, Repr

def opening : State where
  ui := ⟨"", "", .admin⟩
  visible := true
  user := ⟨"", "", ""⟩
  pending := []
  shown := []

inductive Event where
  | editLogin (text : String)
  | editPassword (text : String)
  | selectRank (rank : Rank)
  | click
  | arrive (i : Nat) (arrival : Arrival)
  deriving DecidableEq, Repr

def Ui.userLogin (hashPassword : String → String) (ui : Ui) : UserLogin :=
  ⟨ui.loginLe, hashPassword ui.passwordLe, ui.rankCbox.text⟩

def checkUserExists (hashPassword : String → String) (s : State) : State :=
  if s.ui.loginLe = "" ∨ s.ui.passwordLe = "" then s
  else { s with pending := s.pending ++ [s.ui.userLogin hashPassword] }

def openPanel (s : State) : State :=
  match panelOf s.user.rank with
  | some panel => { s with shown := s.shown ++ [.panel panel], visible := false }
  | none => s

/-- `error_f` and `receive_user_existance`. -/
def receive (hashPassword : String → String) (arrival : Arrival) (s : State) : State :=
  match arrival with
  | .socketError => { s with shown := s.shown ++ [.socketError] }
  | .unreadable => { s with shown := s.shown ++ [.luaConfigError] }
  | .response text =>
    let entered := { s with user := s.ui.userLogin hashPassword }
    if text = "success" then openPanel entered
    else { entered with shown := entered.shown ++ [.badInfo] }

def edit (ui : Ui) (s : State) : State := if s.visible then { s with ui := ui } else s

/-- A closed window takes no input, but its handlers still run. -/
def step (hashPassword : String → String) (event : Event) (s : State) : State :=
  match event with
  | .editLogin text => edit { s.ui with loginLe := text } s
  | .editPassword text => edit { s.ui with passwordLe := text } s
  | .selectRank rank => edit { s.ui with rankCbox := rank } s
  | .click => if s.visible then checkUserExists hashPassword s else s
  | .arrive i arrival =>
    if i < s.pending.length then
      receive hashPassword arrival { s with pending := s.pending.eraseIdx i }
    else s

theorem panelOf_text (rank : Rank) : ∃ panel, panelOf rank.text = some panel := by
  cases rank
  · exact ⟨.adminPanel, rfl⟩
  · exact ⟨.employeePanel, rfl⟩
  · exact ⟨.accountantPanel, rfl⟩

/-- A success leaves `User` with the credentials of the request it answers and opens the
panel of their rank; any other arrival leaves `User` as it was. -/
def KeepsIdentity (hashPassword : String → String) (s : State) (event : Event) : Prop :=
  match event with
  | .arrive i arrival => ∀ request, s.pending[i]? = some request →
    if arrival = .response "success" then
      (step hashPassword event s).user = request ∧ ∃ panel, panelOf request.rank = some panel ∧
        (step hashPassword event s).shown = s.shown ++ [.panel panel]
    else (step hashPassword event s).user = s.user
  | _ => True

/-- A success finds in the fields the credentials of its request, and any other response
the credentials that `User` already holds. -/
def FieldsStand (hashPassword : String → String) (s : State) (event : Event) : Prop :=
  match event with
  | .arrive i (.response text) => ∀ request, s.pending[i]? = some request →
    s.ui.userLogin hashPassword = if text = "success" then request else s.user
  | _ => True

section
variable {hashPassword : String → String}

theorem receive_response (text : String) (s : State) :
    receive hashPassword (.response text) s =
      if text = "success" then openPanel { s with user := s.ui.userLogin hashPassword }
      else { s with user := s.ui.userLogin hashPassword, shown := s.shown ++ [.badInfo] } := rfl

variable (hashPassword) in
theorem receive_success (s : State) :
    ∃ panel, panelOf s.ui.rankCbox.text = some panel ∧
      receive hashPassword (.response "success") s =
        { s with user := s.ui.userLogin hashPassword, shown := s.shown ++ [.panel panel],
                 visible := false } := by
  obtain ⟨panel,opened⟩ := panelOf_text s.ui.rankCbox
  refine ⟨panel, opened, ?_⟩
  rw [receive_response, if_pos rfl, openPanel]
  simp only [Ui.userLogin, opened]

theorem receive_other {text : String} (other : text ≠ "success") (s : State) :
    receive hashPassword (.response text) s =
      { s with user := s.ui.userLogin hashPassword, shown := s.shown ++ [.badInfo] } := by
  rw [receive_response, if_neg other]

theorem step_arrive {s : State} {i : Nat} {request : UserLogin}
    (waiting : s.pending[i]? = some request) (arrival : Arrival) :
    step hashPassword (.arrive i arrival) s =
      receive hashPassword arrival { s with pending := s.pending.eraseIdx i } := by
  obtain ⟨bound,_⟩ := List.getElem?_eq_some_iff.mp waiting
  exact if_pos bound

theorem keepsIdentity_success {s : State} {i : Nat} {request : UserLogin}
    (waiting : s.pending[i]? = some request) :
    ((step hashPassword (.arrive i (.response "success")) s).user = request ∧
      ∃ panel, panelOf request.rank = some panel ∧
        (step hashPassword (.arrive i (.response "success")) s).shown =
          s.shown ++ [.panel panel]) ↔
      s.ui.userLogin hashPassword = request := by
  obtain ⟨panel,opened,received⟩ :=
    receive_success hashPassword { s with pending := s.pending.eraseIdx i }
  rw [step_arrive waiting, received]
  constructor
  · rintro ⟨holds,_⟩
    exact holds
  · intro same
    refine ⟨same, panel, ?_, rfl⟩
    rw [← same]
    exact opened

theorem keepsIdentity_iff (s : State) (event : Event) :
    KeepsIdentity hashPassword s event ↔ FieldsStand hashPassword s event := by
  cases event with
  | arrive i arrival =>
    cases arrival with
    | response text =>
      refine forall_congr' fun request => forall_congr' fun waiting => ?_
      by_cases success : text = "success"
      · subst success
        rw [if_pos rfl, if_pos rfl]
        exact keepsIdentity_success waiting
      · have response : Arrival.response text ≠ .response "success" := fun equal =>
          success (Arrival.response.inj equal)
        rw [if_neg response, if_neg success, step_arrive waiting, receive_other success]
    | unreadable =>
      refine iff_of_true (fun request waiting => ?_) trivial
      rw [if_neg (by simp), step_arrive waiting]
      rfl
    | socketError =>
      refine iff_of_true (fun request waiting => ?_) trivial
      rw [if_neg (by simp), step_arrive waiting]
      rfl
  | _ => exact Iff.rfl

/-- In every run, from any state of the window, the identity is kept throughout exactly
when the fields stand at every arrival. -/
theorem run_keepsIdentity_iff (hashPassword : String → String) (events : List Event) (s : State) :
    Along (step hashPassword) (KeepsIdentity hashPassword) events s ↔
      Along (step hashPassword) (FieldsStand hashPassword) events s := by
  constructor
  · exact Along.mono (fun t event => (keepsIdentity_iff t event).mp) events s
  · exact Along.mono (fun t event => (keepsIdentity_iff t event).mpr) events s

def EditsWhenIdle (s : State) (event : Event) : Prop :=
  match event with
  | .editLogin _ | .editPassword _ | .selectRank _ => s.pending = []
  | _ => True

theorem edit_pending (ui : Ui) (s : State) : (edit ui s).pending = s.pending := by
  unfold edit
  split <;> rfl

variable (hashPassword) in
theorem receive_frame (arrival : Arrival) (s : State) :
    (receive hashPassword arrival s).ui = s.ui ∧
      (receive hashPassword arrival s).pending = s.pending := by
  cases arrival with
  | response text =>
    by_cases success : text = "success"
    · subst success
      obtain ⟨panel,_,received⟩ := receive_success hashPassword s
      rw [received]
      exact ⟨rfl, rfl⟩
    · rw [receive_other success]
      exact ⟨rfl, rfl⟩
  | unreadable => exact ⟨rfl, rfl⟩
  | socketError => exact ⟨rfl, rfl⟩

/-- Every request under way carries the credentials of the fields. -/
def Current (hashPassword : String → String) (s : State) : Prop :=
  ∀ request ∈ s.pending, request = s.ui.userLogin hashPassword

theorem Current.of_idle {s : State} (idle : s.pending = []) : Current hashPassword s := by
  intro request member
  rw [idle] at member
  exact absurd member List.not_mem_nil

theorem Current.step {s : State} {event : Event} (idle : EditsWhenIdle s event)
    (current : Current hashPassword s) : Current hashPassword (step hashPassword event s) := by
  cases event with
  | click =>
    change Current hashPassword (if s.visible then checkUserExists hashPassword s else s)
    split
    · unfold checkUserExists
      split
      · exact current
      · intro request member
        rcases List.mem_append.mp member with earlier | new
        · exact current request earlier
        · exact List.mem_singleton.mp new
    · exact current
  | arrive i arrival =>
    by_cases bound : i < s.pending.length
    · obtain ⟨ui,pending⟩ := receive_frame hashPassword arrival
        { s with pending := s.pending.eraseIdx i }
      rw [step_arrive (List.getElem?_eq_getElem bound)]
      intro request member
      rw [pending] at member
      rw [ui]
      exact current request (List.mem_of_mem_eraseIdx member)
    · have same : LoginWindow.step hashPassword (.arrive i arrival) s = s := if_neg bound
      rwa [same]
  | editLogin text => exact .of_idle ((edit_pending _ s).trans idle)
  | editPassword text => exact .of_idle ((edit_pending _ s).trans idle)
  | selectRank rank => exact .of_idle ((edit_pending _ s).trans idle)

/-- Where the fields are edited only while no request is under way, every success leaves
the identity of its request, with any number of clicks and any order of replies. -/
theorem idle_edits_keep_success (hashPassword : String → String) (events : List Event)
    (idle : Along (LoginWindow.step hashPassword) EditsWhenIdle events opening) :
    Along (LoginWindow.step hashPassword)
      (fun s event => ∀ i, event = .arrive i (.response "success") →
        KeepsIdentity hashPassword s event) events opening := by
  apply Along.mono_invariant (Current hashPassword) (fun _ _ idle current => current.step idle)
    ?_ events opening idle (.of_idle rfl)
  rintro s event _ current i rfl
  apply (keepsIdentity_iff s _).mpr
  intro request waiting
  rw [if_pos rfl]
  exact (current request (List.mem_of_getElem? waiting)).symm

end

def sampleHash (password : String) : String :=
  if password = "p" then "148de9c5a7a44d19e56cd9ae1a554bf67847afb0c58f6e12fa29ac7ddfca9940"
  else ""

def lateChange : List Event :=
  [.editLogin "amongaust", .editPassword "p", .selectRank .accountant, .click,
    .selectRank .admin, .arrive 0 (.response "success")]

/-- The reply to an accountant's request opens the panel of an administrator, and a failed
entry is stored. -/
theorem late_change_opens_other_panel :
    ¬Along (step sampleHash) (KeepsIdentity sampleHash) lateChange opening ∧
    (execute (step sampleHash) (lateChange.take 4) opening).pending =
      [⟨"amongaust", sampleHash "p", "Accountant"⟩] ∧
    (execute (step sampleHash) lateChange opening).shown = [.panel .adminPanel] ∧
    (execute (step sampleHash) [.editLogin "x", .editPassword "p", .click,
      .arrive 0 (.response "access_denied")] opening).user = ⟨"x", sampleHash "p", "Admin"⟩ := by
  refine ⟨fun keeps => ?_, rfl, rfl, rfl⟩
  obtain ⟨_,_,_,_,_,⟨last,_⟩⟩ := keeps
  have held := last ⟨"amongaust", sampleHash "p", "Accountant"⟩ rfl
  rw [if_pos rfl] at held
  exact absurd (congrArg UserLogin.rank held.1) (by decide)

end PcCourse.LoginWindow
