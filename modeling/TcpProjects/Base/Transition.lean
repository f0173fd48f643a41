import Mathlib.Data.List.Basic
import Mathlib.Data.List.TakeDrop
import Mathlib.Logic.Function.Basic

/-! # Runs of a transition function

A system is a partial step function: `step s a = some s'` when action `a` is
enabled in `s` and leads to `s'`. A run keeps the states it passed with the
action taken in each, so that a property of a whole run (the order of two
actions, what held all along an interval) is a property of one list. -/

namespace TcpProjects.Transition

variable {σ α : Type*}

/-- `Run step s₀ tr s`: from `s₀`, taking the actions of `tr` in the states
recorded beside them, the system is in `s`. -/
inductive Run (step : σ → α → Option σ) (s₀ : σ) : List (σ × α) → σ → Prop
  | start : Run step s₀ [] s₀
  | next {tr : List (σ × α)} {s : σ} {a : α} {s' : σ} (r : Run step s₀ tr s)
      (h : step s a = some s') : Run step s₀ (tr ++ [(s,a)]) s'

variable {step : σ → α → Option σ} {s₀ s s' : σ} {tr : List (σ × α)}

/-- Induction rule for invariants that hold on the runs whose every step meets `C`. -/
theorem Run.guarded {I : σ → Prop} (C : σ → α → Prop) (h₀ : I s₀)
    (hstep : ∀ s a s', I s → C s a → step s a = some s' → I s')
    (r : Run step s₀ tr s) (hC : ∀ x ∈ tr, C x.1 x.2) : I s := by
  induction r with
  | start => exact h₀
  | next r h ih =>
    have hlast := hC _ (List.mem_append_right _ (List.mem_singleton_self _))
    exact hstep _ _ _ (ih fun x hx => hC x (List.mem_append_left _ hx)) hlast h

theorem Run.invariant {I : σ → Prop} (h₀ : I s₀)
    (hstep : ∀ s a s', I s → step s a = some s' → I s') (r : Run step s₀ tr s) : I s :=
  r.guarded (fun _ _ => True) h₀ (fun s a s' hi _ => hstep s a s' hi) fun _ _ => trivial

/-- A measure that every step lowers bounds the length of a run. -/
theorem Run.length_le {I : σ → Prop} (C : σ → α → Prop) (μ : σ → ℕ) (h₀ : I s₀)
    (hstep : ∀ s a s', I s → C s a → step s a = some s' → I s' ∧ μ s' < μ s)
    (r : Run step s₀ tr s) (hC : ∀ x ∈ tr, C x.1 x.2) : I s ∧ tr.length + μ s ≤ μ s₀ := by
  induction r with
  | start => exact ⟨h₀,by simp⟩
  | next r h ih =>
    obtain ⟨hi,hl⟩ := ih fun x hx => hC x (List.mem_append_left _ hx)
    have hlast := hC _ (List.mem_append_right _ (List.mem_singleton_self _))
    obtain ⟨hi',hlt⟩ := hstep _ _ _ hi hlast h
    refine ⟨hi',?_⟩
    rw [List.length_append,List.length_singleton]
    omega

/-- Where the runs of the steps of a kind are bounded, one of them cannot go on. -/
theorem exists_stuck (C : σ → α → Prop) {N : ℕ}
    (hbound : ∀ tr s, Run step s₀ tr s → (∀ x ∈ tr, C x.1 x.2) → tr.length ≤ N) :
    ∃ tr s, Run step s₀ tr s ∧ (∀ x ∈ tr, C x.1 x.2) ∧ ∀ a, C s a → step s a = none := by
  by_contra hnone
  push Not at hnone
  -- Otherwise there are runs of every length.
  have hlong (n : ℕ) : ∃ tr s, Run step s₀ tr s ∧ (∀ x ∈ tr, C x.1 x.2) ∧ tr.length = n := by
    induction n with
    | zero => exact ⟨[],s₀,Run.start,fun x hx => absurd hx List.not_mem_nil,rfl⟩
    | succ n ih =>
      obtain ⟨tr,s,r,hC,hlen⟩ := ih
      obtain ⟨a,ha,hne⟩ := hnone tr s r hC
      obtain ⟨s',hs'⟩ := Option.ne_none_iff_exists'.mp hne
      refine ⟨_,s',Run.next r hs',fun x hx => ?_,by simp [hlen]⟩
      rcases List.mem_append.mp hx with hx | hx
      · exact hC x hx
      · rw [List.mem_singleton.mp hx]
        exact ha
  obtain ⟨tr,s,r,hC,hlen⟩ := hlong (N+1)
  have hle := hbound tr s r hC
  omega

/-- A state from which every step of a kind lowers a measure has a run of such steps
that leads to a state where none of them is enabled. -/
theorem exists_settled {I : σ → Prop} (C : σ → α → Prop) (μ : σ → ℕ)
    (hstep : ∀ s a s', I s → C s a → step s a = some s' → I s' ∧ μ s' < μ s) (h₀ : I s₀) :
    ∃ tr s, Run step s₀ tr s ∧ (∀ x ∈ tr, C x.1 x.2) ∧ ∀ a, C s a → step s a = none := by
  refine exists_stuck C (N := μ s₀) fun tr s r hC => ?_
  have hle := (r.length_le C μ h₀ hstep hC).2
  omega

theorem Run.cons {a : α} (h : step s₀ a = some s) (r : Run step s tr s') :
    Run step s₀ ((s₀,a) :: tr) s' := by
  induction r with
  | start => exact Run.next Run.start h
  | next r h' ih => exact Run.next ih h'

theorem Run.append {tr' : List (σ × α)} (r : Run step s₀ tr s) (r' : Run step s tr' s') :
    Run step s₀ (tr ++ tr') s' := by
  induction r' with
  | start => rwa [List.append_nil]
  | next r' h ih =>
    rw [← List.append_assoc]
    exact Run.next ih h

/-! ### States along a run -/

/-- The state in which the `i`-th action is taken; from the end on, the last state. -/
def stateAt (tr : List (σ × α)) (s : σ) (i : ℕ) : σ := (tr[i]?.map Prod.fst).getD s

theorem stateAt_get {i : ℕ} {u : σ} {a : α} (h : tr[i]? = some (u,a)) : stateAt tr s i = u := by
  simp only [stateAt,h,Option.map_some,Option.getD_some]

theorem stateAt_length : stateAt tr s tr.length = s := by
  simp only [stateAt,List.getElem?_eq_none (Nat.le_refl _),Option.map_none,Option.getD_none]

theorem Run.prefix_at (r : Run step s₀ tr s) (i : ℕ) (hi : i ≤ tr.length) :
    Run step s₀ (tr.take i) (stateAt tr s i) := by
  induction r with
  | start =>
    have h0 : i = 0 := by simpa using hi
    subst h0
    exact Run.start
  | @next tr s a s' r h ih =>
    simp only [List.length_append,List.length_singleton] at hi
    rcases Nat.lt_or_ge tr.length i with hlt | hle
    · have he : i = (tr ++ [(s,a)]).length := by simp; omega
      rw [he,List.take_length,stateAt_length]
      exact Run.next r h
    · have hs : stateAt (tr ++ [(s,a)]) s' i = stateAt tr s i := by
        rcases Nat.lt_or_ge i tr.length with hl | hg
        · simp only [stateAt,List.getElem?_append_left hl,List.getElem?_eq_getElem hl,
            Option.map_some,Option.getD_some]
        · have he : i = tr.length := by omega
          rw [he,stateAt_length]
          exact stateAt_get (a := a) (by simp)
      rw [hs,List.take_append_of_le_length hle]
      exact ih hle

/-- What an action of a run did: it was enabled, and led to the next state of the run. -/
theorem Run.step_at (r : Run step s₀ tr s) {i : ℕ} {u : σ} {a : α} (hi : tr[i]? = some (u,a)) :
    step u a = some (stateAt tr s (i+1)) := by
  obtain ⟨hl,he⟩ := List.getElem?_eq_some_iff.mp hi
  have hr := r.prefix_at (i+1) hl
  rw [List.take_succ_eq_append_getElem hl,he] at hr
  generalize hw : stateAt tr s (i+1) = w at hr
  generalize hq : tr.take i ++ [(u,a)] = q at hr
  cases hr with
  | start => simp at hq
  | next r' h =>
    obtain ⟨_,hb⟩ := List.append_inj' hq rfl
    obtain ⟨rfl,rfl⟩ : u = _ ∧ a = _ := by simpa using hb
    exact h

theorem Run.invariant_at {I : σ → Prop} (hI : ∀ tr s, Run step s₀ tr s → I s)
    (r : Run step s₀ tr s) {i : ℕ} {u : σ} {a : α} (hi : tr[i]? = some (u,a)) : I u := by
  obtain ⟨hl,_⟩ := List.getElem?_eq_some_iff.mp hi
  have h := hI _ _ (r.prefix_at i (Nat.le_of_lt hl))
  rwa [stateAt_get hi] at h

theorem Run.invariant_mem {I : σ → Prop} (hI : ∀ tr s, Run step s₀ tr s → I s)
    (r : Run step s₀ tr s) {x : σ × α} (hx : x ∈ tr) : I x.1 := by
  obtain ⟨i,hi⟩ := List.mem_iff_getElem?.mp hx
  exact r.invariant_at hI hi

/-- What one more step adds to a history read off a run. -/
theorem filterMap_snoc {β : Type*} (f : α → Option β) (l : List α) (x : α) :
    (l ++ [x]).filterMap f = l.filterMap f ++ (f x).toList := by
  rw [List.filterMap_append]
  cases hf : f x <;> simp [hf]

/-- What is on its way: where each step adds `f` to it at the end and takes `g` from its
front, all that was added has been taken or is still there. -/
theorem Run.balance {β : Type*} {q : σ → List β} {f g : σ × α → List β} (C : σ × α → Prop)
    (hstep : ∀ s a s', C (s,a) → step s a = some s' → q s ++ f (s,a) = g (s,a) ++ q s')
    (r : Run step s₀ tr s) (hC : ∀ x ∈ tr, C x) :
    q s₀ ++ tr.flatMap f = tr.flatMap g ++ q s := by
  induction r with
  | start => simp
  | @next tr s a s' r h ih =>
    have hbefore := ih fun x hx => hC x (List.mem_append_left _ hx)
    have hlast := hstep s a s' (hC _ (List.mem_append_right _ (List.mem_singleton_self _))) h
    rw [List.flatMap_append,List.flatMap_append,List.flatMap_singleton,List.flatMap_singleton,
      ← List.append_assoc,hbefore,List.append_assoc,hlast,List.append_assoc]

/-- A history that notes in each step what another one notes, or nothing. -/
theorem filterMap_sublist {β : Type*} {f g : α → Option β} (l : List α)
    (h : ∀ x b, f x = some b → g x = some b) : (l.filterMap f).Sublist (l.filterMap g) := by
  induction l with
  | nil => exact List.Sublist.refl _
  | cons x l ih =>
    cases hf : f x with
    | none =>
      rw [List.filterMap_cons_none hf]
      cases hg : g x with
      | none => rwa [List.filterMap_cons_none hg]
      | some b =>
        rw [List.filterMap_cons_some hg]
        exact ih.cons b
    | some b =>
      rw [List.filterMap_cons_some hf,List.filterMap_cons_some (h x b hf)]
      exact ih.cons_cons b

def exec (step : σ → α → Option σ) : σ → List α → Option (List (σ × α) × σ)
  | s,[] => some ([],s)
  | s,a :: as => (step s a).bind fun s' => (exec step s' as).map fun r => ((s,a) :: r.1,r.2)

theorem exec_run {as : List α} (h : exec step s as = some (tr,s')) : Run step s tr s' := by
  induction as generalizing s tr with
  | nil =>
    obtain ⟨rfl,rfl⟩ : [] = tr ∧ s = s' := by simpa [exec] using h
    exact Run.start
  | cons a as ih =>
    obtain ⟨m,hm,hr⟩ := Option.bind_eq_some_iff.mp h
    obtain ⟨⟨tr',u⟩,hu,he⟩ := Option.map_eq_some_iff.mp hr
    obtain ⟨rfl,rfl⟩ : (s,a) :: tr' = tr ∧ u = s' := by simpa using he
    exact Run.cons hm (ih hu)

theorem exec_actions {as : List α} (h : exec step s as = some (tr,s')) : tr.map Prod.snd = as := by
  induction as generalizing s tr with
  | nil =>
    obtain ⟨rfl,rfl⟩ : [] = tr ∧ s = s' := by simpa [exec] using h
    rfl
  | cons a as ih =>
    obtain ⟨m,hm,hr⟩ := Option.bind_eq_some_iff.mp h
    obtain ⟨⟨tr',u⟩,hu,he⟩ := Option.map_eq_some_iff.mp hr
    obtain ⟨rfl,rfl⟩ : (s,a) :: tr' = tr ∧ u = s' := by simpa using he
    rw [List.map_cons,ih hu]

/-- The run of a schedule, empty if the schedule cannot be executed. -/
def runOf (step : σ → α → Option σ) (s : σ) (as : List α) : List (σ × α) × σ :=
  (exec step s as).getD ([],s)

theorem runOf_run (step : σ → α → Option σ) (s : σ) (as : List α)
    (h : (exec step s as).isSome = true) : Run step s (runOf step s as).1 (runOf step s as).2 := by
  obtain ⟨⟨tr,u⟩,hr⟩ := Option.isSome_iff_exists.mp h
  simp only [runOf,hr,Option.getD_some]
  exact exec_run hr

theorem runOf_actions (step : σ → α → Option σ) (s : σ) (as : List α)
    (h : (exec step s as).isSome = true) : (runOf step s as).1.map Prod.snd = as := by
  obtain ⟨⟨tr,u⟩,hr⟩ := Option.isSome_iff_exists.mp h
  simp only [runOf,hr,Option.getD_some]
  exact exec_actions hr

/-- The actions of a run determine it. -/
theorem Run.unique {tr' : List (σ × α)} (r : Run step s₀ tr s) (r' : Run step s₀ tr' s')
    (h : tr.map Prod.snd = tr'.map Prod.snd) : tr = tr' ∧ s = s' := by
  induction r generalizing tr' s' with
  | start =>
    cases r' with
    | start => exact ⟨rfl,rfl⟩
    | next r' h' => simp at h
  | next r hs ih =>
    cases r' with
    | start => simp at h
    | next r' hs' =>
      simp only [List.map_append,List.map_cons,List.map_nil] at h
      obtain ⟨hactions,hlast⟩ := List.append_inj' h rfl
      obtain ⟨rfl,rfl⟩ := ih r' hactions
      obtain rfl := (List.cons.inj hlast).1
      rw [hs] at hs'
      exact ⟨rfl,Option.some.inj hs'⟩

/-! ### Projection on a component -/

/-- The image of a run under a map that keeps the steps. -/
theorem Run.map {τ β : Type*} {step' : τ → β → Option τ} (f : σ → τ) (g : σ → α → β)
    (hstep : ∀ s a s', step s a = some s' → step' (f s) (g s a) = some (f s'))
    (r : Run step s₀ tr s) : Run step' (f s₀) (tr.map fun x => (f x.1,g x.1 x.2)) (f s) := by
  induction r with
  | start => exact Run.start
  | next r h ih =>
    rw [List.map_append]
    exact Run.next ih (hstep _ _ _ h)

/-- If every step of a system either leaves the component `f` alone or moves it
by a step of its own, the component makes a run of its own. -/
theorem Run.project {τ β : Type*} {step' : τ → β → Option τ} (f : σ → τ)
    (hstep : ∀ s a s', step s a = some s' → f s' = f s ∨ ∃ b, step' (f s) b = some (f s'))
    (r : Run step s₀ tr s) : ∃ tr', Run step' (f s₀) tr' (f s) := by
  induction r with
  | start => exact ⟨[],Run.start⟩
  | next r h ih =>
    obtain ⟨tr',hr⟩ := ih
    rcases hstep _ _ _ h with he | ⟨b,hb⟩
    · exact ⟨tr',he ▸ hr⟩
    · exact ⟨_,Run.next hr hb⟩

end TcpProjects.Transition
