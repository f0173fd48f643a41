import Mathlib.Algebra.BigOperators.Group.Finset.Basic
import Mathlib.Data.List.Basic
import Mathlib.Logic.Function.Basic

/-! # Families of queues

First-in-first-out queues, one for each connection, the moves that take one message
from a queue or append one to it, and sums over the family. -/

namespace TcpProjects.Queues

variable {ι α : Type*} [DecidableEq ι] [DecidableEq α]

/- The part of a move that concerns queue `c`. -/
def part (c : ι) : Option (ι × α) → List α
  | none => []
  | some (d,b) => if d = c then [b] else []

/-- Take the message of a move from the front of its queue; the queue must have it there. -/
def pop (q : ι → List α) : Option (ι × α) → Option (ι → List α)
  | none => some q
  | some (c,b) => match q c with
    | [] => none
    | m :: rest => if m = b then some (Function.update q c rest) else none

def push (q : ι → List α) : Option (ι × α) → ι → List α
  | none => q
  | some (c,b) => Function.update q c (q c ++ [b])

omit [DecidableEq α] in
@[simp] theorem part_none (c : ι) : part c (none : Option (ι × α)) = [] := rfl

theorem pop_eq {q q' : ι → List α} {move : Option (ι × α)} (h : pop q move = some q') (c : ι) :
    q c = part c move ++ q' c := by
  cases move with
  | none =>
    cases h
    rfl
  | some x =>
    obtain ⟨d,b⟩ := x
    simp only [pop] at h
    split at h
    · cases h
    · next m rest hq =>
      split_ifs at h with hm
      cases h
      by_cases hd : d = c
      · subst hd
        simp [part,hq,hm]
      · simp [part,hd,Ne.symm hd]

/- A move whose message is at the front of its queue can be made. -/
theorem pop_exists {q : ι → List α} {move : Option (ι × α)} (h : ∀ c, part c move <+: q c) :
    ∃ q', pop q move = some q' := by
  cases move with
  | none => exact ⟨q,rfl⟩
  | some x =>
    obtain ⟨d,b⟩ := x
    obtain ⟨rest,hrest⟩ := h d
    have hq : q d = b :: rest := by simpa [part] using hrest.symm
    exact ⟨Function.update q d rest,by simp only [pop,hq,if_true]⟩

omit [DecidableEq α] in
theorem push_eq (q : ι → List α) (move : Option (ι × α)) (c : ι) :
    push q move c = q c ++ part c move := by
  cases move with
  | none => simp [push,part]
  | some x =>
    obtain ⟨d,b⟩ := x
    by_cases hd : d = c
    · subst hd
      simp [push,part]
    · simp [push,part,hd,Ne.symm hd]

/-! ### What is left in a family -/

/- Two sums over the family that differ in the part of one member. -/
theorem sum_change {members : Finset ι} {c : ι} {f g : ι → ℕ} (hc : c ∈ members)
    (h : ∀ x, x ≠ c → f x = g x) : ∑ x ∈ members,f x+g c = ∑ x ∈ members,g x+f c := by
  have hrest : ∑ x ∈ members.erase c,f x = ∑ x ∈ members.erase c,g x :=
    Finset.sum_congr rfl fun x hx => h x (Finset.ne_of_mem_erase hx)
  rw [← Finset.add_sum_erase _ f hc,← Finset.add_sum_erase _ g hc,hrest]
  omega

end TcpProjects.Queues
