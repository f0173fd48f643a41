import Mathlib.Data.List.Basic
import Mathlib.Data.List.Flatten
import Mathlib.Data.List.Infix
import Mathlib.Order.Nat

/-! # Reading until a text is complete

A loop reads, appends what it got to what it has, and stops as soon as the whole
passes a test. `results n` is what the `n`-th read returns, `none` for a failure. -/

namespace TcpProjects.ReadUntil

variable {α : Type*} {results : ℕ → Option (List α)} {stop : List α → Bool} {n m : ℕ}

/-- What the first `n` reads have returned together. -/
def gathered (results : ℕ → Option (List α)) (n : ℕ) : List α :=
  (List.range n).flatMap fun i => (results i).getD []

theorem gathered_succ (results : ℕ → Option (List α)) (n : ℕ) :
    gathered results (n+1) = gathered results n ++ (results n).getD [] := by
  simp [gathered,List.range_succ]

/-- The first `n` reads succeed and do not complete the text. -/
structure Reads (results : ℕ → Option (List α)) (stop : List α → Bool) (n : ℕ) : Prop where
  succeed : ∀ i < n, results i ≠ none
  goOn : ∀ i < n, stop (gathered results (i+1)) = false

/-- The loop ends with read `n`, counted from 0. -/
structure EndsAt (results : ℕ → Option (List α)) (stop : List α → Bool) (n : ℕ) : Prop
    extends Reads results stop n where
  read : results n ≠ none
  complete : stop (gathered results (n+1)) = true

/-- Read `n` is the one that fails. -/
structure FailsAt (results : ℕ → Option (List α)) (stop : List α → Bool) (n : ℕ) : Prop
    extends Reads results stop n where
  fails : results n = none

theorem Reads.zero : Reads results stop 0 :=
  ⟨fun _ h => absurd h (Nat.not_lt_zero _),fun _ h => absurd h (Nat.not_lt_zero _)⟩

theorem Reads.succ (h : Reads results stop n) (hr : results n ≠ none)
    (hs : stop (gathered results (n+1)) = false) : Reads results stop (n+1) := by
  constructor
  · intro i hi
    rcases Nat.lt_succ_iff_lt_or_eq.mp hi with hi | rfl
    · exact h.succeed i hi
    · exact hr
  · intro i hi
    rcases Nat.lt_succ_iff_lt_or_eq.mp hi with hi | rfl
    · exact h.goOn i hi
    · exact hs

theorem EndsAt.unique (h : EndsAt results stop n) (h' : EndsAt results stop m) : n = m := by
  rcases Nat.lt_trichotomy n m with hlt | he | hlt
  · have := h'.goOn n hlt
    rw [h.complete] at this
    cases this
  · exact he
  · have := h.goOn m hlt
    rw [h'.complete] at this
    cases this

theorem EndsAt.le (h : EndsAt results stop n) (hr : Reads results stop m) : m ≤ n := by
  by_contra hlt
  have := hr.goOn n (Nat.not_le.mp hlt)
  rw [h.complete] at this
  cases this

/- A text that is complete after some reads was completed by one of them. -/
theorem exists_endsAt (hr : ∀ i, results i ≠ none) (hs : stop (gathered results (n+1)) = true) :
    ∃ m, EndsAt results stop m := by
  have hex : ∃ i, stop (gathered results (i+1)) = true := ⟨n,hs⟩
  refine ⟨Nat.find hex,⟨⟨fun i _ => hr i,fun i hi => ?_⟩,hr _,Nat.find_spec hex⟩⟩
  simpa using Nat.find_min hex hi

/-! ### A finite stream -/

/-- The chunks of a stream, and nothing in every read after them. -/
def ofChunks (chunks : List (List α)) (n : ℕ) : Option (List α) := some (chunks[n]?.getD [])

theorem gathered_ofChunks (chunks : List (List α)) (n : ℕ) :
    gathered (ofChunks chunks) n = (chunks.take n).flatten := by
  induction n with
  | zero => rfl
  | succ n ih =>
    rw [gathered_succ,ih,List.take_add_one,List.flatten_append]
    cases h : chunks[n]? <;> simp [ofChunks,h]

/- A test that more text cannot undo is passed exactly if the whole stream passes it. -/
theorem exists_endsAt_ofChunks {chunks : List (List α)}
    (hmono : ∀ a b, stop a = true → stop (a ++ b) = true) :
    (∃ n, EndsAt (ofChunks chunks) stop n) ↔ stop chunks.flatten = true := by
  constructor
  · intro h
    obtain ⟨n,h⟩ := h
    have hc := h.complete
    rw [gathered_ofChunks] at hc
    rw [← List.take_append_drop (n+1) chunks,List.flatten_append]
    exact hmono _ _ hc
  · intro h
    have hall : (chunks.take (chunks.length+1)).flatten = chunks.flatten := by
      rw [List.take_of_length_le (Nat.le_succ _)]
    refine exists_endsAt (n := chunks.length) (fun i hi => by cases hi) ?_
    rw [gathered_ofChunks,hall]
    exact h

/-! ### Up to a marker -/

/-- What stands before the first marker of a stream. -/
structure First (marker stream before : List α) : Prop where
  found : before ++ marker <+: stream
  least : ∀ b, b ++ marker <+: stream → before.length ≤ b.length

variable {marker stream before : List α}

theorem exists_first (h : marker <:+: stream) : ∃ before, First marker stream before := by
  obtain ⟨b,r,hb⟩ := h
  have hex : ∃ k, ∃ b : List α, b.length = k ∧ b ++ marker <+: stream := ⟨_,b,rfl,⟨r,hb⟩⟩
  classical
  obtain ⟨before,hlength,hfound⟩ := Nat.find_spec hex
  refine ⟨before,hfound,fun b hb => ?_⟩
  rw [hlength]
  exact Nat.find_min' hex ⟨b,rfl,hb⟩

/- A marker is in the part of the stream that reaches over the first one. -/
theorem First.infix_take (h : First marker stream before) (k : ℕ) :
    marker <:+: stream.take k ↔ marker = [] ∨ before.length+marker.length ≤ k := by
  constructor
  · intro ⟨b,r,hb⟩
    have hfound : b ++ marker <+: stream.take k := ⟨r,hb⟩
    have hleast := h.least b (hfound.trans (List.take_prefix k stream))
    have hlength := hfound.length_le
    rw [List.length_append] at hlength
    have := List.length_take_le k stream
    exact Or.inr (by omega)
  · intro hk
    rcases hk with rfl | hk
    · exact List.nil_infix
    · have hfound : before ++ marker <+: stream.take k := by
        rw [List.prefix_take_iff,List.length_append]
        exact ⟨h.found,hk⟩
      exact (List.suffix_append before marker).isInfix.trans hfound.isInfix

/-- The end of a chunk, as a position in the stream. -/
def boundary (chunks : List (List α)) (n : ℕ) : ℕ := (chunks.take n).flatten.length

theorem take_boundary (chunks : List (List α)) (n : ℕ) :
    chunks.flatten.take (boundary chunks n) = (chunks.take n).flatten := by
  have hsplit : chunks.flatten = (chunks.take n).flatten ++ (chunks.drop n).flatten := by
    rw [← List.flatten_append,List.take_append_drop]
  rw [hsplit,boundary,List.take_left]

/- A loop that stops at a marker ends with the first chunk that reaches over the first one. -/
theorem First.endsAt {chunks : List (List α)} (h : First marker chunks.flatten before)
    (hne : marker ≠ []) (hstop : ∀ data, stop data = true ↔ marker <:+: data) {n : ℕ}
    (he : EndsAt (ofChunks chunks) stop n) :
    (∀ m ≤ n, boundary chunks m < before.length+marker.length) ∧
      before.length+marker.length ≤ boundary chunks (n+1) := by
  have htest (m : ℕ) : stop (gathered (ofChunks chunks) m) = true ↔
      before.length+marker.length ≤ boundary chunks m := by
    rw [gathered_ofChunks,hstop,← take_boundary,h.infix_take]
    simp [hne]
  constructor
  · intro m hm
    by_contra hlt
    cases m with
    | zero =>
      have hpos := List.length_pos_iff.mpr hne
      simp only [boundary,List.take_zero,List.flatten_nil,List.length_nil] at hlt
      omega
    | succ m =>
      have hgo := he.goOn m hm
      rw [(htest (m+1)).mpr (Nat.not_lt.mp hlt)] at hgo
      cases hgo
  · exact (htest (n+1)).mp he.complete

end TcpProjects.ReadUntil
