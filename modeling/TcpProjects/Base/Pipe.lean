import Mathlib.Data.List.Infix
import TcpProjects.Base.Queues

/-! # Streams between two processes

One direction of a connection: what the receiver has taken, what is under way, and
whether the sender has ended the stream. Receiving cuts the stream anywhere. There may
be a stream for each connection. -/

namespace TcpProjects

structure Pipe (α : Type*) where
  taken : List α
  waiting : List α
  ended : Bool

namespace Pipe
variable {α : Type*} [DecidableEq α] {p q : Pipe α} {size : ℕ} {gone : Bool} {b l : List α}

def empty : Pipe α := ⟨[],[],false⟩

/- All that was ever sent. -/
def sent (p : Pipe α) : List α := p.taken ++ p.waiting

def send (p : Pipe α) (l : List α) : Pipe α := { p with waiting := p.waiting ++ l }

def shutdown (p : Pipe α) : Pipe α := { p with ended := true }

/-- What a call that asks for at most `size` may return: a piece of what is under way,
and nothing only behind the end of the stream. `gone` tells that the sender is gone. -/
def Returns (p : Pipe α) (size : ℕ) (gone : Bool) (b : List α) : Prop :=
  b <+: p.waiting ∧ b.length ≤ size ∧ (b = [] → p.waiting = [] ∧ (p.ended || gone) = true)

instance : Decidable (p.Returns size gone b) := inferInstanceAs (Decidable (_ ∧ _ ∧ _))

def receive (p : Pipe α) (size : ℕ) (gone : Bool) (b : List α) : Option (Pipe α) :=
  if p.Returns size gone b then
    some { p with taken := p.taken ++ b, waiting := p.waiting.drop b.length }
  else none

omit [DecidableEq α] in
@[simp] theorem sent_send : (p.send l).sent = p.sent ++ l := by
  simp [sent,send]

omit [DecidableEq α] in
theorem taken_sent (p : Pipe α) : p.taken <+: p.sent := List.prefix_append _ _

/- What a receiving call does. -/
structure Received (p : Pipe α) (b : List α) (q : Pipe α) : Prop where
  sent : q.sent = p.sent
  taken : q.taken = p.taken ++ b
  waiting : p.waiting = b ++ q.waiting
  ended : q.ended = p.ended

omit [DecidableEq α] in
theorem Received.waiting_length (h : p.Received b q) :
    q.waiting.length+b.length = p.waiting.length := by
  rw [h.waiting,List.length_append,Nat.add_comm]

theorem receive_eq (h : p.receive size gone b = some q) :
    p.Received b q ∧ p.Returns size gone b := by
  unfold receive at h
  split_ifs at h with hr
  cases h
  have hsplit := List.prefix_append_drop hr.1
  exact ⟨⟨by rw [sent,List.append_assoc,← hsplit,Pipe.sent],rfl,hsplit,rfl⟩,hr⟩

/- A call that asks for something returns as soon as there is something or an end. -/
theorem receive_exists (hsize : 0 < size) (h : p.waiting ≠ [] ∨ p.ended = true) :
    ∃ b, (p.receive size gone b).isSome = true := by
  have hreturns {b : List α} (hb : p.Returns size gone b) : (p.receive size gone b).isSome = true := by
    rw [receive,if_pos hb]
    rfl
  cases hw : p.waiting with
  | nil =>
    have hended : p.ended = true := h.resolve_left (not_not_intro hw)
    exact ⟨[],hreturns ⟨List.nil_prefix,Nat.zero_le _,fun _ => ⟨hw,by rw [hended,Bool.true_or]⟩⟩⟩
  | cons a rest =>
    refine ⟨[a],hreturns ⟨?_,hsize,fun hnil => by cases hnil⟩⟩
    rw [hw]
    exact List.prefix_append [a] rest

/-! ### A stream for each connection -/

variable {ι : Type*} [DecidableEq ι] {q q' : ι → Pipe α} {gone : ι → Bool}
  {move : Option (ι × List α)}

/- Receive from the stream of a move, or send to it. -/
def receiveAt (q : ι → Pipe α) (size : ℕ) (gone : ι → Bool) :
    Option (ι × List α) → Option (ι → Pipe α)
  | none => some q
  | some (c,b) => ((q c).receive size (gone c) b).map (Function.update q c)

def sendAt (q : ι → Pipe α) : Option (ι × List α) → ι → Pipe α
  | none => q
  | some (c,b) => Function.update q c ((q c).send b)

theorem receiveAt_eq (h : receiveAt q size gone move = some q') (c : ι) :
    (q' c).sent = (q c).sent ∧ (q' c).taken = (q c).taken ++ (Queues.part c move).flatten ∧
      (q c).waiting = (Queues.part c move).flatten ++ (q' c).waiting := by
  cases move with
  | none =>
    cases h
    simp
  | some x =>
    obtain ⟨d,b⟩ := x
    obtain ⟨p,hp,rfl⟩ := Option.map_eq_some_iff.mp h
    obtain ⟨hsent,htaken,hwaiting,_⟩ := (receive_eq hp).1
    by_cases hd : d = c
    · subst hd
      simp [Queues.part,hsent,htaken,hwaiting]
    · simp [Queues.part,hd,Ne.symm hd]

omit [DecidableEq α] in
theorem sendAt_eq (q : ι → Pipe α) (move : Option (ι × List α)) (c : ι) :
    (sendAt q move c).sent = (q c).sent ++ (Queues.part c move).flatten ∧
      (sendAt q move c).taken = (q c).taken ∧
      (sendAt q move c).waiting = (q c).waiting ++ (Queues.part c move).flatten := by
  cases move with
  | none => simp [sendAt]
  | some x =>
    obtain ⟨d,b⟩ := x
    by_cases hd : d = c
    · subst hd
      simp [sendAt,Queues.part,sent,send]
    · simp [sendAt,Queues.part,hd,Ne.symm hd]

end Pipe
end TcpProjects
