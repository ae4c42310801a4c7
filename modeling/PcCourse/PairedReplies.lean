import Mathlib.Data.List.Basic

/-! A client beside a server. The client waits for several requests at once, each on a connection of
its own; the server takes them and the client the replies in any order. -/
namespace PcCourse.PairedReplies

universe u v w x y
variable {σ : Type u} {κ : Type v} {μ : Type w} {δ : Type x} {ω : Type y}

/-- The requests that a client waits for, and what it does with the reply to one of them. -/
structure Client (σ : Type u) (κ : Type v) (μ : Type w) where
  pending : σ → List κ
  receive : Nat → μ → σ → σ

/-- `replies` holds for each request under way what it has been answered, once it has been. -/
structure State (σ : Type u) (μ : Type w) (δ : Type x) where
  client : σ
  replies : List (Option μ)
  store : δ

section
variable (client : Client σ κ μ)

def input (act : σ → σ) (s : State σ μ δ) : State σ μ δ :=
  { s with
    client := act s.client
    replies := s.replies ++
      ((client.pending (act s.client)).drop (client.pending s.client).length).map fun _ => none }

/-- Something reaches the client that ends a request. -/
def reach (i : Nat) (act : σ → σ) (s : State σ μ δ) : State σ μ δ :=
  { s with client := act s.client, replies := s.replies.eraseIdx i }

def serve (answer : κ → δ → Option μ × δ) (i : Nat) (s : State σ μ δ) : State σ μ δ :=
  match (client.pending s.client)[i]?, s.replies[i]? with
  | some call, some none =>
    { s with replies := s.replies.set i (answer call s.store).1, store := (answer call s.store).2 }
  | _, _ => s

def arrive (i : Nat) (s : State σ μ δ) : State σ μ δ :=
  match s.replies[i]? with
  | some (some reply) => reach i (client.receive i reply) s
  | _ => s

/-- Every request is one of those expected, and every reply under way is a good one for it. -/
structure Answered (expected : κ → Prop) (good : κ → μ → Prop) (s : State σ μ δ) : Prop where
  paired : s.replies.length = (client.pending s.client).length
  asked : ∀ call ∈ client.pending s.client, expected call
  answered : ∀ (i : Nat) call reply, (client.pending s.client)[i]? = some call →
    s.replies[i]? = some (some reply) → good call reply

end

variable {client : Client σ κ μ} {expected : κ → Prop} {good : κ → μ → Prop} {s : State σ μ δ} {i : Nat}

theorem Answered.mono {later : κ → μ → Prop} (implies : ∀ call reply, good call reply → later call reply)
    (answered : Answered client expected good s) : Answered client expected later s :=
  { answered with
    answered := fun i call reply asked said => implies call reply (answered.answered i call reply asked said) }

theorem Answered.store (store : δ) (answered : Answered client expected good s) :
    Answered client expected good { s with store := store } :=
  { answered with }

theorem Answered.input {act : σ → σ} (calls : List κ)
    (stepped : client.pending (act s.client) = client.pending s.client ++ calls)
    (new : ∀ call ∈ calls, expected call) (answered : Answered client expected good s) :
    Answered client expected good (input client act s) := by
  unfold PairedReplies.input
  rw [stepped, List.drop_left]
  refine ⟨?_, ?_, fun i call reply asked said => ?_⟩
  · simp [stepped, answered.paired]
  · rw [stepped]
    exact List.forall_mem_append.mpr ⟨answered.asked, new⟩
  · rw [stepped, List.getElem?_append] at asked
    rw [List.getElem?_append, answered.paired] at said
    split at asked
    next before =>
      rw [if_pos before] at said
      exact answered.answered i call reply asked said
    next behind =>
      -- A request that has just been made has no reply.
      rw [if_neg behind] at said
      obtain ⟨_,-,never⟩ := List.mem_map.mp (List.mem_of_getElem? said)
      cases never

theorem Answered.reach {act : σ → σ}
    (stepped : client.pending (act s.client) = (client.pending s.client).eraseIdx i)
    (answered : Answered client expected good s) : Answered client expected good (reach i act s) := by
  unfold PairedReplies.reach
  refine ⟨?_, fun call member => ?_, fun j call reply asked said => ?_⟩
  · rw [stepped, List.length_eraseIdx, List.length_eraseIdx, answered.paired]
  · rw [stepped] at member
    exact answered.asked call (List.mem_of_mem_eraseIdx member)
  · rw [stepped, List.getElem?_eraseIdx] at asked
    rw [List.getElem?_eraseIdx] at said
    split at asked
    next before =>
      rw [if_pos before] at said
      exact answered.answered j call reply asked said
    next behind =>
      rw [if_neg behind] at said
      exact answered.answered (j + 1) call reply asked said

variable (client i s) in
theorem serve_cases (answer : κ → δ → Option μ × δ) : serve client answer i s = s ∨
    ∃ call, (client.pending s.client)[i]? = some call ∧ serve client answer i s =
      { s with replies := s.replies.set i (answer call s.store).1, store := (answer call s.store).2 } := by
  unfold serve
  split
  next call waiting _ => exact .inr ⟨call, waiting, rfl⟩
  · exact .inl rfl

@[simp] theorem serve_client (answer : κ → δ → Option μ × δ) : (serve client answer i s).client = s.client := by
  rcases serve_cases client s i answer with same | ⟨_,-,served⟩
  · rw [same]
  · rw [served]

variable (client i s) in
theorem arrive_cases : arrive client i s = s ∨
    ∃ reply, s.replies[i]? = some (some reply) ∧ arrive client i s = reach i (client.receive i reply) s := by
  unfold arrive
  split
  next reply said => exact .inr ⟨reply, said, rfl⟩
  · exact .inl rfl

theorem Answered.serve (answer : κ → δ → Option μ × δ)
    (answers : ∀ call reply, (client.pending s.client)[i]? = some call → expected call →
      (answer call s.store).1 = some reply → good call reply)
    (answered : Answered client expected good s) : Answered client expected good (serve client answer i s) := by
  rcases serve_cases client s i answer with same | ⟨call,waiting,served⟩
  · rwa [same]
  · rw [served]
    refine ⟨?_, answered.asked, fun j later reply asked said => ?_⟩
    · rw [List.length_set, answered.paired]
    · rw [List.getElem?_set] at said
      split at said
      next same =>
        subst same
        cases waiting.symm.trans asked
        split at said
        · exact answers call reply waiting (answered.asked call (List.mem_of_getElem? waiting)) (Option.some.inj said)
        · cases said
      · exact answered.answered j later reply asked said

end PcCourse.PairedReplies
