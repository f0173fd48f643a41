import Mathlib.Data.List.Basic

/-! # Streams received in chunks

A stream carries no boundaries: a receiver gets some cut of it into non-empty
chunks. One that treats each chunk as a message sees what was sent exactly if
the chunks are the messages, provided that different messages look different. -/

namespace TcpProjects

variable {α β : Type*}

/-- A cut of a stream into non-empty parts. -/
structure Chunking (chunks : List (List α)) (stream : List α) : Prop where
  nonempty : ∀ c ∈ chunks, c ≠ []
  flatten : chunks.flatten = stream

theorem map_eq_map_iff {f : α → β} {P : α → Prop}
    (hinj : ∀ a b, P a → P b → f a = f b → a = b) {l l' : List α} (hl : ∀ a ∈ l, P a)
    (hl' : ∀ a ∈ l', P a) : l.map f = l'.map f ↔ l = l' := by
  constructor
  · intro h
    induction l generalizing l' with
    | nil => exact (List.map_eq_nil_iff.mp h.symm).symm
    | cons a l ih =>
      cases l' with
      | nil => cases h
      | cons b l' =>
        have hhead := hinj a b (hl a (List.mem_cons_self ..)) (hl' b (List.mem_cons_self ..))
          (List.cons.inj h).1
        have htail := ih (fun c hc => hl c (List.mem_cons_of_mem _ hc))
          (fun c hc => hl' c (List.mem_cons_of_mem _ hc)) (List.cons.inj h).2
        rw [hhead,htail]
  · intro h
    rw [h]

namespace Chunking
variable {stream : List α} {chunks msgs : List (List α)} {P : α → Prop}

theorem forall_mem (h : Chunking chunks stream) (hP : ∀ x ∈ stream, P x) :
    ∀ c ∈ chunks, c ≠ [] ∧ ∀ x ∈ c, P x := by
  intro c hc
  refine ⟨h.nonempty c hc,fun x hx => hP x ?_⟩
  rw [← h.flatten]
  exact List.mem_flatten.mpr ⟨c,hc,hx⟩

/- Without framing, the receiver is right exactly if the cut is at the messages. -/
theorem map_eq_iff {f : List α → β} (hinj : ∀ a b, (a ≠ [] ∧ ∀ x ∈ a, P x) →
    (b ≠ [] ∧ ∀ x ∈ b, P x) → f a = f b → a = b) (hP : ∀ x ∈ stream, P x)
    (hc : Chunking chunks stream) (hm : Chunking msgs stream) :
    chunks.map f = msgs.map f ↔ chunks = msgs :=
  map_eq_map_iff hinj (hc.forall_mem hP) (hm.forall_mem hP)

end Chunking

/-- Chunks and messages that begin the same list, where the chunks have no more bytes than
the messages: then the chunks are the first of the messages. -/
theorem prefix_of_flatten {chunks messages all : List (List α)} (hne : ∀ c ∈ chunks, c ≠ [])
    (hc : chunks <+: all) (hm : messages <+: all) (hbytes : chunks.flatten <+: messages.flatten) :
    chunks <+: messages := by
  rcases List.prefix_or_prefix_of_prefix hc hm with hle | ⟨rest,rfl⟩
  · exact hle
  · -- No chunk can stand behind all the bytes.
    cases rest with
    | nil => simp
    | cons c rest =>
      have hpos := List.length_pos_iff.mpr (hne c (by simp))
      have hle := hbytes.length_le
      rw [List.flatten_append,List.flatten_cons,List.length_append,List.length_append] at hle
      omega

end TcpProjects
