import PcCourse.ServedRequests
import PcCourse.Handling

/-! The request handlers behind the connections: the server's runs are runs of requests on the
database. -/
namespace PcCourse.ServedDatabase

open UserRequest ServedRequests Transition

section
variable (e : Engine) (endOfMessage : List UInt8) (parse : List UInt8 → Option LuaValue)
  (encode : String → List UInt8)

def backend : Backend Conditions Db where
  endOfMessage := endOfMessage
  handle call db :=
    let reply := processRequest e call.1 (parse call.2) (.opening db)
    (reply.response.map encode, reply.session.db)

def incoming (x : Exchange Conditions) : Incoming := ⟨x.conditions, parse x.request⟩

def answer (request : Incoming) (db : Db) : Option String × Db :=
  ((processRequest e request.conditions request.config (.opening db)).response, serve e request db)

variable {e endOfMessage parse encode}

theorem store_eq (log : List (Exchange Conditions)) (db : Db) :
    execute (fun call store => ((backend e endOfMessage parse encode).handle call store).2)
      (log.map Exchange.call) db = run e (log.map (incoming parse)) db := by
  induction log generalizing db with
  | nil => rfl
  | cons x rest ih => exact ih _

theorem outputs_eq (log : List (Exchange Conditions)) (db : Db) :
    outputs (backend e endOfMessage parse encode).handle (log.map Exchange.call) db =
      (outputs (answer e) (log.map (incoming parse)) db).map (Option.map encode) := by
  induction log generalizing db with
  | nil => rfl
  | cons x rest ih => exact congrArg (_ :: ·) (ih _)

end

section
variable {κ σ : Type} (b : Backend κ σ)

theorem run_log (events : List (κ × Server.Event)) (s : System κ σ) :
    s.log <+: (execute (step b) events s).log := by
  refine execute_preserves (fun t => s.log <+: t.log) (fun t event grown => ?_) events s (List.prefix_refl _)
  unfold step
  split
  · exact grown
  · split
    · exact grown.trans (List.prefix_append _ _)
    · exact grown

/-- From any moment on the requests are handled in turn on the store of that moment. -/
theorem run_continues (first : σ) (earlier later : List (κ × Server.Event)) :
    let s := execute (step b) earlier (start first)
    let t := execute (step b) (earlier ++ later) (start first)
    ∃ more, t.log = s.log ++ more ∧
      t.store = execute (fun call store => (b.handle call store).2) (more.map Exchange.call) s.store ∧
      more.map Exchange.response = outputs b.handle (more.map Exchange.call) s.store := by
  intro s t
  have grown : s.log <+: t.log := by
    have later_ := run_log b later s
    rwa [← execute_append] at later_
  obtain ⟨more,log⟩ := grown
  have now := run_served b first earlier
  have whole := run_served b first (earlier ++ later)
  have store := whole.store
  have responses := whole.responses
  change t.store = _ at store
  change t.log.map _ = _ at responses
  rw [← log, List.map_append, execute_append, ← now.store] at store
  rw [← log, List.map_append, List.map_append, outputs_append, ← now.store] at responses
  have lengths : (s.log.map Exchange.response).length =
      (outputs b.handle (s.log.map Exchange.call) first).length := by
    rw [outputs_length, List.length_map, List.length_map]
  exact ⟨more, log.symm, store, (List.append_inj responses lengths).2⟩

end

/-- The server with one worker on the database of `db.sql`, at any moment of any run: what its clients
have been answered, but for at most one answer to each that is being written, is of requests whose
effects are in the rows, with the keys in order; and every request handled from then on is handled on
these rows, in turn, and answered from them. -/
theorem served_in_turn (e : Engine) (endOfMessage : List UInt8) (parse : List UInt8 → Option LuaValue)
    (encode : String → List UInt8) (now dateOfExpire : Int) (earlier later : List (Conditions × Server.Event)) :
    let first := installed e.collation now dateOfExpire
    let s := execute (step (backend e endOfMessage parse encode)) earlier (start first)
    let t := execute (step (backend e endOfMessage parse encode)) (earlier ++ later) (start first)
    s.store = run e (s.log.map (incoming parse)) first ∧ Integrity e.collation s.store ∧
      (∀ i connection, s.server.connections[i]? = some connection →
        ∃ unsent : List (List UInt8), unsent.length ≤ 1 ∧
          (answered i s.log).map (fun x => x.2 ++ endOfMessage) = sent i s.carried ++ unsent) ∧
      ∃ more, t.log = s.log ++ more ∧ t.store = run e (more.map (incoming parse)) s.store ∧
        more.map Exchange.response =
          (outputs (answer e) (more.map (incoming parse)) s.store).map (Option.map encode) := by
  intro first s t
  have served := run_served (backend e endOfMessage parse encode) first earlier
  have store : s.store = run e (s.log.map (incoming parse)) first := served.store.trans (store_eq _ _)
  obtain ⟨more,log,rows,responses⟩ := run_continues (backend e endOfMessage parse encode) first earlier later
  refine ⟨store, ?_, fun i connection there => (served.connections i connection there).2.unsent,
    more, log, rows.trans (store_eq _ _), responses.trans (outputs_eq _ _)⟩
  rw [store]
  exact run_integrity e _ (installed_integrity ..)

end PcCourse.ServedDatabase
