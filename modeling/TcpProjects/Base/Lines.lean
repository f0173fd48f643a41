import Mathlib.Data.List.Basic
import Mathlib.Data.List.Flatten

/-! # Lines

A text of lines, each ended by its terminator, and the lines read back from a text.
What stands behind the last terminator is no line. -/

namespace TcpProjects.Lines

variable {α : Type*} [DecidableEq α] {nl : α} {s : List α}

def unlines (nl : α) (lines : List (List α)) : List α := lines.flatMap fun l => l ++ [nl]

/- `line` is what was read of the line so far. -/
def linesFrom (nl : α) (line : List α) : List α → List (List α)
  | [] => []
  | x :: s => if x = nl then line :: linesFrom nl [] s else linesFrom nl (line ++ [x]) s

def lines (nl : α) (s : List α) : List (List α) := linesFrom nl [] s

theorem linesFrom_append {l : List α} (h : nl ∉ l) (line rest : List α) :
    linesFrom nl line (l ++ nl :: rest) = (line ++ l) :: lines nl rest := by
  induction l generalizing line with
  | nil => simp [linesFrom,lines]
  | cons x l ih =>
    have hx : x ≠ nl := fun he => h (he ▸ List.mem_cons_self ..)
    rw [List.cons_append,linesFrom,if_neg hx,ih fun hl => h (List.mem_cons_of_mem x hl)]
    simp

theorem lines_unlines {lns : List (List α)} (h : ∀ l ∈ lns, nl ∉ l) :
    lines nl (unlines nl lns) = lns := by
  induction lns with
  | nil => rfl
  | cons l lns ih =>
    have hcons : unlines nl (l :: lns) = l ++ nl :: unlines nl lns := by simp [unlines]
    rw [hcons,lines,linesFrom_append (h l (List.mem_cons_self ..)),List.nil_append,
      ih fun k hk => h k (List.mem_cons_of_mem l hk)]

/- The lines of a text stand before those of what follows it. -/
theorem lines_append {lns : List (List α)} (h : ∀ l ∈ lns, nl ∉ l) (rest : List α) :
    lines nl (unlines nl lns ++ rest) = lns ++ lines nl rest := by
  induction lns with
  | nil => rfl
  | cons l lns ih =>
    have hcons : unlines nl (l :: lns) ++ rest = l ++ nl :: (unlines nl lns ++ rest) := by simp [unlines]
    rw [hcons,lines,linesFrom_append (h l (List.mem_cons_self ..)),List.nil_append,
      ih fun k hk => h k (List.mem_cons_of_mem l hk),List.cons_append]

/- What is not ended is no line. -/
theorem lines_none (h : nl ∉ s) : lines nl s = [] := by
  have hfrom (line : List α) : linesFrom nl line s = [] := by
    induction s generalizing line with
    | nil => rfl
    | cons x s ih =>
      have hx : x ≠ nl := fun he => h (he ▸ List.mem_cons_self ..)
      rw [linesFrom,if_neg hx]
      exact ih (fun hs => h (List.mem_cons_of_mem x hs)) _
  exact hfrom []

/- Two texts joined by a terminator are told apart by how many terminators the first
of them holds. -/
theorem append_cons_inj_of_count {a b c d : List α} (h : a.count nl = b.count nl) :
    a ++ nl :: c = b ++ nl :: d ↔ a = b ∧ c = d := by
  refine ⟨fun he => ?_,fun ⟨ha,hc⟩ => by rw [ha,hc]⟩
  induction a generalizing b with
  | nil =>
    cases b with
    | nil => exact ⟨rfl,(List.cons.inj he).2⟩
    | cons y b =>
      have hy : nl = y := (List.cons.inj he).1
      rw [hy,List.count_nil,List.count_cons_self] at h
      cases h
  | cons y a ih =>
    cases b with
    | nil =>
      have hy : y = nl := (List.cons.inj he).1
      rw [hy,List.count_nil,List.count_cons_self] at h
      cases h
    | cons z b =>
      obtain ⟨rfl,hrest⟩ := List.cons.inj he
      rw [List.count_cons,List.count_cons] at h
      obtain ⟨rfl,hc⟩ := ih (Nat.add_right_cancel h) hrest
      exact ⟨rfl,hc⟩

/-! ### Columns of one width -/

section Columns
variable {β : Type*} {f : ℕ → List β} {c : ℕ}

theorem length_columns (hf : ∀ j, (f j).length = c) (n : ℕ) : ((List.range n).flatMap f).length = n*c := by
  induction n with
  | zero => rw [Nat.zero_mul]; rfl
  | succ n ih =>
    rw [List.range_succ,List.flatMap_append,List.flatMap_singleton,List.length_append,ih,hf,
      Nat.succ_mul]

theorem column (hf : ∀ j, (f j).length = c) {n j : ℕ} (hj : j < n) (rest : List β) :
    (((List.range n).flatMap f ++ rest).drop (c*j)).take c = f j := by
  have hn : n = j+(1+(n-j-1)) := by omega
  have hsplit : (List.range n).flatMap f =
      (List.range j).flatMap f ++ (f j ++ ((List.range (n-j-1)).map ((j+·) ∘ (1+·))).flatMap f) := by
    conv_lhs => rw [hn]
    rw [List.range_add,List.range_add,List.flatMap_append]
    simp
  have hlen : ((List.range j).flatMap f).length = c*j := by
    rw [length_columns hf,Nat.mul_comm]
  rw [hsplit,List.append_assoc,List.append_assoc,← hlen,List.drop_left,← hf j,List.take_left]

end Columns

end TcpProjects.Lines
