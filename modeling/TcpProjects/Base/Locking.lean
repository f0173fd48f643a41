import Mathlib.Data.Set.Basic

/-! # Mutexes and waiting

A mutex records its owner. `Guards` says that the record agrees with where the
actors are in their code, and is kept by every step in which one actor takes the
mutex while it is free, gives its own back, or does neither. When no owner wants
another mutex, no set of actors can wait for one another. -/

namespace TcpProjects.Locking

variable {ι μ : Type*}

/-- The recorded owner of a mutex is the one actor between its lock and its unlock. -/
def Guards (owner : Option ι) (holds : ι → Prop) : Prop := ∀ i, owner = some i ↔ holds i

/-- What a step of actor `i` may do to a mutex and to its own place. -/
inductive Moves (i : ι) (owner owner' : Option ι) (holds holds' : ι → Prop) : Prop
  | lock (hfree : owner = none) (howner : owner' = some i) (h : holds' i)
  | unlock (howner : owner' = none) (h : holds i) (h' : ¬ holds' i)
  | stay (howner : owner' = owner) (h : holds' i ↔ holds i)

namespace Guards
variable {owner owner' : Option ι} {holds holds' : ι → Prop}

theorem exclusive (h : Guards owner holds) {i j : ι} (hi : holds i) (hj : holds j) : i = j := by
  have h1 := (h i).mpr hi
  have h2 := (h j).mpr hj
  rw [h1] at h2
  exact Option.some.inj h2

theorem step (h : Guards owner holds) {i : ι} (hother : ∀ j ≠ i, holds' j ↔ holds j)
    (hmove : Moves i owner owner' holds holds') : Guards owner' holds' := by
  intro j
  by_cases hj : j = i
  · subst hj
    cases hmove with
    | lock _ howner hin => simp [howner,hin]
    | unlock howner _ hout => simp [howner,hout]
    | stay howner hsame => rw [howner,hsame,h j]
  · rw [hother j hj]
    cases hmove with
    | lock hfree howner _ =>
      rw [← h j,hfree,howner]
      simp [Ne.symm hj]
    | unlock howner hin _ =>
      rw [← h j,(h i).mpr hin,howner]
      simp [Ne.symm hj]
    | stay howner _ => rw [howner,h j]

end Guards

/-! ### Waiting -/

/-- `i` waits for `j`: its next step locks a mutex of which `j` is the owner. -/
def WaitsFor (owner : μ → Option ι) (wants : ι → Option μ) (i j : ι) : Prop :=
  ∃ m, wants i = some m ∧ owner m = some j

theorem no_circular_wait {owner : μ → Option ι} {wants : ι → Option μ}
    (h : ∀ m i, owner m = some i → wants i = none) {S : Set ι} (hne : S.Nonempty) :
    ¬ ∀ i ∈ S, ∃ j ∈ S, WaitsFor owner wants i j := by
  intro hall
  obtain ⟨i,hi⟩ := hne
  obtain ⟨j,hj,m,_,howner⟩ := hall i hi
  obtain ⟨_,_,n,hwants,_⟩ := hall j hj
  rw [h m j howner] at hwants
  cases hwants

end TcpProjects.Locking
