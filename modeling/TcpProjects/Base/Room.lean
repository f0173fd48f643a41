import Mathlib.Data.Finset.Insert
import Mathlib.Data.Finset.Erase
import Mathlib.Data.List.Infix
import Mathlib.Logic.Function.Basic

/-! # A room with members

What is said in a room is heard by its members, at once and by all of them. Who
enters hears what is said from then on; the last word before may still reach it.
So whatever a member has heard is one piece of the log of the room, and for those
who are in the room it is the end of the log. -/

namespace TcpProjects

structure Room (ι α : Type*) where
  members : Finset ι
  said : List α
  heard : ι → List α

/- `catches`: the last word before is still heard by who enters. -/
inductive RoomAction (ι α : Type*) where
  | enter (c : ι) (catches : Bool)
  | say (x : α)
  | leave (c : ι)

def RoomAction.word {ι α : Type*} : RoomAction ι α → Option α
  | .say x => some x
  | _ => none

namespace Room
variable {ι α : Type*}

/- Whatever anybody has heard is a piece of the log, and its end for the members. -/
structure Listening (r : Room ι α) : Prop where
  members : ∀ c ∈ r.members, r.heard c <:+ r.said
  all : ∀ c, r.heard c <:+: r.said

/- Of two members one has heard all that the other has, and what came before. -/
theorem Listening.agree {r : Room ι α} (h : Listening r) {c d : ι} (hc : c ∈ r.members)
    (hd : d ∈ r.members) : r.heard c <:+ r.heard d ∨ r.heard d <:+ r.heard c :=
  List.suffix_or_suffix_of_suffix (h.members c hc) (h.members d hd)

variable [DecidableEq ι]

def empty : Room ι α := ⟨∅,[],fun _ => []⟩

def act (r : Room ι α) : RoomAction ι α → Room ι α
  | .enter c catches =>
    { r with
      members := insert c r.members
      heard := Function.update r.heard c (if catches then r.said.getLast?.toList else []) }
  | .say x =>
    { r with
      said := r.said ++ [x]
      heard := fun c => if c ∈ r.members then r.heard c ++ [x] else r.heard c }
  | .leave c => { r with members := r.members.erase c }

def after (actions : List (RoomAction ι α)) : Room ι α := actions.foldl act empty

theorem after_snoc (actions : List (RoomAction ι α)) (a : RoomAction ι α) :
    after (actions ++ [a]) = (after actions).act a := by
  rw [after,after,List.foldl_append,List.foldl_cons,List.foldl_nil]

/- An action that may not be there. -/
theorem after_toList (actions : List (RoomAction ι α)) (o : Option (RoomAction ι α)) :
    after (actions ++ o.toList) = o.elim (after actions) (after actions).act := by
  cases o with
  | none => rw [Option.toList_none,List.append_nil,Option.elim_none]
  | some a => rw [Option.toList_some,after_snoc,Option.elim_some]

/-! ### What is heard is a piece of what is said -/

theorem getLast_suffix (l : List α) : l.getLast?.toList <:+ l := by
  cases h : l.getLast? with
  | none => exact List.nil_suffix
  | some x =>
    obtain ⟨init,hl⟩ := List.getLast?_eq_some_iff.mp h
    exact ⟨init,hl.symm⟩

theorem Listening.act {r : Room ι α} (h : Listening r) (a : RoomAction ι α) :
    Listening (r.act a) := by
  obtain ⟨hmem,hall⟩ := h
  cases a with
  | enter c catches =>
    have hcaught : (if catches then r.said.getLast?.toList else []) <:+ r.said := by
      split_ifs
      · exact getLast_suffix r.said
      · exact List.nil_suffix
    constructor
    · intro d hd
      by_cases hdc : d = c
      · simpa only [Room.act,hdc,Function.update_self] using hcaught
      · have hd' := (Finset.mem_insert.mp hd).resolve_left hdc
        simpa only [Room.act,Function.update_of_ne hdc] using hmem d hd'
    · intro d
      by_cases hdc : d = c
      · simpa only [Room.act,hdc,Function.update_self] using hcaught.isInfix
      · simpa only [Room.act,Function.update_of_ne hdc] using hall d
  | say x =>
    constructor
    · intro d hd
      obtain ⟨before,hb⟩ := hmem d hd
      refine ⟨before,?_⟩
      simp only [Room.act,if_pos (show d ∈ r.members from hd),← hb,List.append_assoc]
    · intro d
      by_cases hd : d ∈ r.members
      · obtain ⟨before,hb⟩ := hmem d hd
        refine List.IsSuffix.isInfix ⟨before,?_⟩
        simp only [Room.act,if_pos hd,← hb,List.append_assoc]
      · obtain ⟨before,behind,hb⟩ := hall d
        refine ⟨before,behind++[x],?_⟩
        simp only [Room.act,if_neg hd,← hb,List.append_assoc]
  | leave c => exact ⟨fun d hd => hmem d (Finset.mem_of_mem_erase hd),hall⟩

theorem listening (actions : List (RoomAction ι α)) : Listening (after actions) := by
  induction actions using List.reverseRecOn with
  | nil => exact ⟨fun c hc => absurd hc (Finset.notMem_empty c),fun c => List.infix_refl _⟩
  | append_singleton actions a ih =>
    rw [after_snoc]
    exact ih.act a

theorem said_after (actions : List (RoomAction ι α)) :
    (after actions).said = actions.filterMap RoomAction.word := by
  induction actions using List.reverseRecOn with
  | nil => rfl
  | append_singleton actions a ih =>
    rw [after_snoc,List.filterMap_append,← ih]
    cases a <;> simp [act,RoomAction.word]

end Room
end TcpProjects
