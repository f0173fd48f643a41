import Mathlib.Data.List.Basic
import Mathlib.Data.List.Range

/-! # Histories over intervals

What a partial function yields at the positions of an interval, and at those
that lie inside one of several disjoint intervals. -/

namespace TcpProjects.Transition

variable {β : Type*} {f g : ℕ → Option β} {i j k : ℕ}

/-- What `f` yields at the positions from `i` to `j-1`, in order. -/
def collect (f : ℕ → Option β) (i j : ℕ) : List β := (List.range' i (j-i)).filterMap f

theorem collect_self : collect f i i = [] := by
  simp [collect]

theorem collect_append (hij : i ≤ j) (hjk : j ≤ k) :
    collect f i k = collect f i j ++ collect f j k := by
  have hr := @List.range'_append i (j-i) (k-j) 1
  have hi : i+1*(j-i) = j := by omega
  have hk : j-i+(k-j) = k-i := by omega
  rw [hi,hk] at hr
  rw [collect,← hr,List.filterMap_append]
  rfl

theorem collect_succ (hij : i ≤ j) : collect f i (j+1) = collect f i j ++ (f j).toList := by
  rw [collect_append hij (Nat.le_succ j)]
  congr 1
  cases hf : f j <;> simp [collect,hf]

theorem collect_congr (h : ∀ x, i ≤ x → x < j → f x = g x) : collect f i j = collect g i j := by
  apply List.filterMap_congr
  intro x hx
  have hm := List.mem_range'_1.mp hx
  exact h x hm.1 (by omega)

theorem collect_none (h : ∀ x, i ≤ x → x < j → f x = none) : collect f i j = [] := by
  apply List.filterMap_eq_nil_iff.mpr
  intro x hx
  have hm := List.mem_range'_1.mp hx
  exact h x hm.1 (by omega)

/- Collecting inside disjoint intervals, taken in order, is collecting in one
after the other. -/
theorem collect_inside (l : List (ℕ × ℕ)) {a b : ℕ}
    (hin : ∀ c ∈ l, a ≤ c.1 ∧ c.1 < c.2 ∧ c.2 ≤ b) (hl : l.Pairwise fun c d => c.2 ≤ d.1) :
    collect (fun x => if ∃ c ∈ l, c.1 < x ∧ x < c.2 then f x else none) a b =
      l.flatMap fun c => collect f (c.1+1) c.2 := by
  induction l generalizing a with
  | nil => exact collect_none fun x _ _ => by simp
  | cons c l ih =>
    obtain ⟨ha,hc,hb⟩ := hin c (List.mem_cons_self ..)
    obtain ⟨hrest,hl⟩ := List.pairwise_cons.mp hl
    have htail := ih (a := c.2) (fun d hd => ⟨hrest d hd,(hin d (List.mem_cons_of_mem _ hd)).2⟩) hl
    rw [collect_append (j := c.2) (by omega) hb,collect_append (j := c.1+1) (by omega) (by omega),
      List.flatMap_cons,← htail]
    have hbefore : collect (fun x => if ∃ d ∈ c :: l, d.1 < x ∧ x < d.2 then f x else none) a
        (c.1+1) = [] := by
      apply collect_none
      intro x _ hx
      apply if_neg
      intro hx
      obtain ⟨d,hd,hdx,_⟩ := hx
      rcases List.mem_cons.mp hd with rfl | hd
      · omega
      · have := hrest d hd
        omega
    rw [hbefore,List.nil_append]
    congr 1
    · apply collect_congr
      intro x hx hx'
      exact if_pos ⟨c,List.mem_cons_self ..,hx,hx'⟩
    · apply collect_congr
      intro x hx _
      have hiff : (∃ d ∈ c :: l, d.1 < x ∧ x < d.2) ↔ ∃ d ∈ l, d.1 < x ∧ x < d.2 := by
        constructor
        · intro hx
          obtain ⟨d,hd,hdx⟩ := hx
          rcases List.mem_cons.mp hd with rfl | hd
          · omega
          · exact ⟨d,hd,hdx⟩
        · intro hx
          obtain ⟨d,hd,hdx⟩ := hx
          exact ⟨d,List.mem_cons_of_mem _ hd,hdx⟩
      simp only [hiff]

end TcpProjects.Transition
