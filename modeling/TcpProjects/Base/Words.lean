import Mathlib.Data.List.Basic
import Mathlib.Data.List.Flatten

/-! # The words of a list

A word is a maximal run of elements other than a delimiter. `words` reads them with
an accumulator; `runs` are their bounds in the list. Both are generalised over what
was read before: the list behind it, and where the word that is being read began. -/

namespace TcpProjects.Words

variable {α : Type*} {c : α} {s : List α}

/- From `i` to before `j` there is no delimiter, and the run cannot be made longer. -/
structure IsRun (c : α) (s : List α) (i j : ℕ) : Prop where
  nonempty : i < j
  within : j ≤ s.length
  free : ∀ k, i ≤ k → k < j → s[k]? ≠ some c
  left : i = 0 ∨ s[i-1]? = some c
  right : j = s.length ∨ s[j]? = some c

/- The word read so far, if there is one. -/
def pending (word : List α) : List (List α) := if word = [] then [] else [word]

theorem pending_flatten (word : List α) : (pending word).flatten = word := by
  unfold pending
  split_ifs with h
  · exact h.symm
  · simp

/- The elements of a run. -/
def slice (s : List α) (r : ℕ × ℕ) : List α := (s.drop r.1).take (r.2-r.1)

theorem drop_eq_nil {before : List α} {b : ℕ} (hb : b ≤ before.length) :
    before.drop b = [] ↔ b = before.length := by
  rw [List.drop_eq_nil_iff]
  omega

/- What was read of a word, found in the whole list. -/
theorem slice_reading {before rest : List α} {b : ℕ} (hb : b ≤ before.length) :
    slice (before ++ rest) (b,before.length) = before.drop b := by
  rw [slice,List.drop_append_of_le_length hb,List.take_append_of_le_length (by simp)]
  exact List.take_of_length_le (by simp)

/-- After the elements `before`, of which those from `b` on are the word being read. -/
structure Reading (c : α) (before : List α) (b : ℕ) : Prop where
  le : b ≤ before.length
  free : ∀ k, b ≤ k → before[k]? ≠ some c
  left : b = 0 ∨ before[b-1]? = some c

theorem Reading.start (c : α) : Reading c [] 0 := ⟨Nat.le_refl 0,by simp,Or.inl rfl⟩

theorem Reading.delimiter {before : List α} (c : α) :
    Reading c (before ++ [c]) (before.length+1) := by
  refine ⟨by simp,fun k hk => ?_,Or.inr (by simp)⟩
  rw [List.getElem?_eq_none (by simpa using hk)]
  exact nofun

theorem Reading.next {before : List α} {b : ℕ} (h : Reading c before b) {x : α} (hx : x ≠ c) :
    Reading c (before ++ [x]) b := by
  have hle := h.le
  refine ⟨by rw [List.length_append]; omega,fun k hk => ?_,?_⟩
  · rcases Nat.lt_trichotomy k before.length with hlt | rfl | hgt
    · rw [List.getElem?_append_left hlt]
      exact h.free k hk
    · simpa using hx
    · rw [List.getElem?_eq_none (by rw [List.length_append,List.length_singleton]; omega)]
      exact nofun
  · rcases h.left with h0 | hc
    · exact Or.inl h0
    · obtain ⟨hlt,_⟩ := List.getElem?_eq_some_iff.mp hc
      exact Or.inr (by rwa [List.getElem?_append_left hlt])

/- The run that ends where a delimiter or the end is met is the word being read. -/
theorem Reading.run {before : List α} {b : ℕ} (h : Reading c before b) {rest : List α}
    (hrest : rest = [] ∨ rest.head? = some c) {i j : ℕ} (hi : b ≤ i) (hj : i ≤ before.length) :
    IsRun c (before ++ rest) i j ↔ (i,j) = (b,before.length) ∧ b ≠ before.length := by
  have hle := h.le
  have hend : before.length = (before ++ rest).length ∨ (before ++ rest)[before.length]? = some c := by
    rcases hrest with rfl | hhead
    · exact Or.inl (by simp)
    · exact Or.inr (by rw [List.getElem?_append_right (Nat.le_refl _),Nat.sub_self,← hhead,List.head?_eq_getElem?])
  constructor
  · intro r
    have hstart : i = b := by
      rcases r.left with h0 | hc
      · omega
      · by_contra hne
        rw [List.getElem?_append_left (by omega)] at hc
        exact h.free (i-1) (by omega) hc
    have hstop : before.length ≤ j := by
      rcases r.right with hl | hc
      · rw [hl,List.length_append]
        omega
      · by_contra hlt
        rw [List.getElem?_append_left (by omega)] at hc
        exact h.free j (Nat.le_trans (by omega) (Nat.le_of_lt r.nonempty)) hc
    have hno : j ≤ before.length := by
      by_contra hlt
      rcases hend with hl | hc
      · have := r.within
        omega
      · exact r.free before.length hj (by omega) hc
    have hne := r.nonempty
    obtain rfl : j = before.length := Nat.le_antisymm hno hstop
    subst hstart
    exact ⟨rfl,by omega⟩
  · intro ⟨he,hne⟩
    obtain ⟨rfl,rfl⟩ := Prod.mk.inj he
    refine ⟨by omega,by simp,fun k hk hlt => ?_,?_,hend⟩
    · rw [List.getElem?_append_left hlt]
      exact h.free k hk
    · rcases h.left with h0 | hc
      · exact Or.inl h0
      · obtain ⟨hlt,_⟩ := List.getElem?_eq_some_iff.mp hc
        exact Or.inr (by rwa [List.getElem?_append_left hlt])

/- A run that begins behind a delimiter begins in the rest. -/
theorem run_behind {before rest : List α} {i j : ℕ} (r : IsRun c (before ++ c :: rest) i j)
    (hi : before.length ≤ i) : before.length+1 ≤ i := by
  by_contra hlt
  obtain rfl : i = before.length := by omega
  exact r.free before.length (Nat.le_refl _) r.nonempty (by simp)

/-! ### Reading words and runs -/

variable [DecidableEq α]

def wordsFrom (c : α) (word : List α) : List α → List (List α)
  | [] => pending word
  | x :: s => if x = c then pending word ++ wordsFrom c [] s else wordsFrom c (word ++ [x]) s

def words (c : α) (s : List α) : List (List α) := wordsFrom c [] s

/- `n` elements were read and the word that is being read began at `b`. -/
def runsFrom (c : α) (b n : ℕ) : List α → List (ℕ × ℕ)
  | [] => if b = n then [] else [(b,n)]
  | x :: s =>
    if x = c then (if b = n then [] else [(b,n)]) ++ runsFrom c (n+1) (n+1) s
    else runsFrom c b (n+1) s

def runs (c : α) (s : List α) : List (ℕ × ℕ) := runsFrom c 0 0 s

theorem mem_runsFrom {before : List α} {b : ℕ} (h : Reading c before b) {i j : ℕ} :
    (i,j) ∈ runsFrom c b before.length s ↔ b ≤ i ∧ IsRun c (before ++ s) i j := by
  induction s generalizing before b with
  | nil =>
    unfold runsFrom
    constructor
    · intro hm
      split_ifs at hm with hb
      · cases hm
      · have he := List.mem_singleton.mp hm
        have hi := (Prod.mk.inj he).1
        have hle := h.le
        exact ⟨by omega,(h.run (Or.inl rfl) (by omega) (by omega)).mpr ⟨he,hb⟩⟩
    · intro ⟨hi,r⟩
      have hw := r.within
      have hne := r.nonempty
      rw [List.append_nil] at hw
      obtain ⟨he,hb⟩ := (h.run (Or.inl rfl) hi (by omega)).mp r
      rw [if_neg hb]
      exact List.mem_singleton.mpr he
  | cons x s ih =>
    unfold runsFrom
    have hsplit : before ++ x :: s = before ++ [x] ++ s := by simp
    split_ifs with hx hb
    · subst hx
      have hnext := ih (Reading.delimiter x : Reading x (before ++ [x]) (before.length+1))
      rw [List.length_append,List.length_singleton] at hnext
      rw [List.nil_append,hnext,← hsplit]
      exact ⟨fun ⟨hi,r⟩ => ⟨by omega,r⟩,fun ⟨hi,r⟩ => ⟨run_behind r (hb ▸ hi),r⟩⟩
    · subst hx
      have hnext := ih (Reading.delimiter x : Reading x (before ++ [x]) (before.length+1))
      rw [List.length_append,List.length_singleton] at hnext
      rw [List.mem_append,hnext,← hsplit,List.mem_singleton]
      have hle := h.le
      constructor
      · intro hm
        rcases hm with he | ⟨hi,r⟩
        · have hi := (Prod.mk.inj he).1
          exact ⟨by omega,(h.run (Or.inr rfl) (by omega) (by omega)).mpr ⟨he,hb⟩⟩
        · exact ⟨by omega,r⟩
      · intro ⟨hi,r⟩
        rcases Nat.lt_or_ge i before.length with hlt | hge
        · exact Or.inl ((h.run (Or.inr rfl) hi (by omega)).mp r).1
        · exact Or.inr ⟨run_behind r hge,r⟩
    · have hnext := ih (h.next hx)
      rw [List.length_append,List.length_singleton] at hnext
      rw [hnext,← hsplit]

/- The runs are exactly the bounds of the maximal runs. -/
theorem mem_runs {i j : ℕ} : (i,j) ∈ runs c s ↔ IsRun c s i j := by
  have h := mem_runsFrom (s := s) (Reading.start c) (i := i) (j := j)
  rw [List.length_nil,List.nil_append] at h
  rw [runs,h]
  exact ⟨fun hr => hr.2,fun r => ⟨Nat.zero_le i,r⟩⟩

theorem runsFrom_ge {b n : ℕ} (hb : b ≤ n) : ∀ r ∈ runsFrom c b n s, b ≤ r.1 := by
  induction s generalizing b n with
  | nil =>
    intro r hr
    rw [runsFrom] at hr
    split_ifs at hr
    · cases hr
    · exact Nat.le_of_eq (congrArg Prod.fst (List.mem_singleton.mp hr)).symm
  | cons x s ih =>
    intro r hr
    rw [runsFrom] at hr
    split_ifs at hr with hx he
    · have := ih (Nat.le_refl (n+1)) r hr
      omega
    · rcases List.mem_append.mp hr with hr | hr
      · exact Nat.le_of_eq (congrArg Prod.fst (List.mem_singleton.mp hr)).symm
      · have := ih (Nat.le_refl (n+1)) r hr
        omega
    · exact ih (Nat.le_succ_of_le hb) r hr

/- The runs stand in the order of the list and do not touch. -/
theorem runsFrom_sorted {b n : ℕ} (hb : b ≤ n) :
    (runsFrom c b n s).Pairwise fun q r => q.2 < r.1 := by
  induction s generalizing b n with
  | nil =>
    unfold runsFrom
    split_ifs
    · exact List.Pairwise.nil
    · exact List.pairwise_singleton ..
  | cons x s ih =>
    unfold runsFrom
    split_ifs with hx he
    · exact ih (Nat.le_refl (n+1))
    · refine List.pairwise_cons.mpr ⟨fun r hr => ?_,ih (Nat.le_refl (n+1))⟩
      have := runsFrom_ge (Nat.le_refl (n+1)) r hr
      simp only
      omega
    · exact ih (Nat.le_succ_of_le hb)

theorem runs_sorted (c : α) (s : List α) : (runs c s).Pairwise fun q r => q.2 < r.1 :=
  runsFrom_sorted (Nat.le_refl 0)

/- The words are what stands in the runs. -/
theorem wordsFrom_slice {before : List α} {b : ℕ} (hb : b ≤ before.length) :
    wordsFrom c (before.drop b) s = (runsFrom c b before.length s).map (slice (before ++ s)) := by
  induction s generalizing before b with
  | nil =>
    rw [wordsFrom,runsFrom,pending]
    simp only [drop_eq_nil hb]
    split_ifs
    · rfl
    · rw [List.map_singleton,slice_reading hb]
  | cons x s ih =>
    have hsplit : before ++ x :: s = before ++ [x] ++ s := by simp
    have hlast := ih (show before.length+1 ≤ (before ++ [x]).length by simp)
    rw [List.drop_of_length_le (by simp),List.length_append,List.length_singleton] at hlast
    rw [wordsFrom,runsFrom,hsplit]
    split_ifs with hx he
    · rw [pending,if_pos ((drop_eq_nil hb).mpr he),hlast]
      rfl
    · rw [pending,if_neg (mt (drop_eq_nil hb).mp he),hlast,List.map_append,List.map_singleton,← hsplit,
        slice_reading hb]
    · have hword := ih (show b ≤ (before ++ [x]).length by rw [List.length_append]; omega)
      rwa [List.drop_append_of_le_length hb,List.length_append,List.length_singleton] at hword

theorem words_slice (c : α) (s : List α) : words c s = (runs c s).map (slice s) :=
  wordsFrom_slice (show 0 ≤ ([] : List α).length from Nat.le_refl 0)

/-! ### The words -/

theorem mem_wordsFrom {word : List α} (h : c ∉ word) :
    ∀ t ∈ wordsFrom c word s, t ≠ [] ∧ c ∉ t := by
  have hpending {word t : List α} (h : c ∉ word) (ht : t ∈ pending word) : t ≠ [] ∧ c ∉ t := by
    rw [pending] at ht
    split_ifs at ht with he
    · cases ht
    · rw [List.mem_singleton.mp ht]
      exact ⟨he,h⟩
  induction s generalizing word with
  | nil => exact fun t ht => hpending h ht
  | cons x s ih =>
    intro t ht
    rw [wordsFrom] at ht
    split_ifs at ht with hx
    · rcases List.mem_append.mp ht with ht | ht
      · exact hpending h ht
      · exact ih (List.not_mem_nil) t ht
    · exact ih (by simp [h,Ne.symm hx]) t ht

theorem mem_words : ∀ t ∈ words c s, t ≠ [] ∧ c ∉ t := mem_wordsFrom List.not_mem_nil

/- Nothing but the delimiters is lost. -/
theorem wordsFrom_flatten (word : List α) :
    (wordsFrom c word s).flatten = word ++ s.filter (· ≠ c) := by
  induction s generalizing word with
  | nil => simp [wordsFrom,pending_flatten]
  | cons x s ih =>
    unfold wordsFrom
    split_ifs with hx
    · rw [List.flatten_append,ih,pending_flatten,List.nil_append,
        List.filter_cons_of_neg (by simpa using hx)]
    · rw [ih,List.filter_cons_of_pos (by simpa using hx),List.append_assoc,List.singleton_append]

theorem words_flatten (c : α) (s : List α) : (words c s).flatten = s.filter (· ≠ c) :=
  wordsFrom_flatten []

/-! ### Words with delimiters between them -/

theorem wordsFrom_append {t : List α} (h : c ∉ t) (word rest : List α) :
    wordsFrom c word (t ++ rest) = wordsFrom c (word ++ t) rest := by
  induction t generalizing word with
  | nil => rw [List.nil_append,List.append_nil]
  | cons x t ih =>
    have hx : x ≠ c := fun he => h (he ▸ List.mem_cons_self ..)
    rw [List.cons_append,wordsFrom,if_neg hx,ih fun ht => h (List.mem_cons_of_mem x ht)]
    simp

/- Delimiters end the word that is being read. -/
theorem wordsFrom_replicate (word : List α) (n : ℕ) (rest : List α) :
    wordsFrom c word (List.replicate (n+1) c ++ rest) = pending word ++ wordsFrom c [] rest := by
  induction n generalizing word with
  | zero => simp [wordsFrom]
  | succ n ih =>
    rw [List.replicate_succ,List.cons_append,wordsFrom,if_pos rfl,ih]
    simp [pending]

theorem words_replicate (c : α) (n : ℕ) (rest : List α) :
    words c (List.replicate n c ++ rest) = words c rest := by
  cases n with
  | zero => simp
  | succ n => simp [words,wordsFrom_replicate,pending]

theorem words_first {t : List α} (hne : t ≠ []) (h : c ∉ t) (rest : List α) :
    words c (t ++ c :: rest) = t :: words c rest := by
  rw [words,wordsFrom_append h,wordsFrom,if_pos rfl,List.nil_append,pending,if_neg hne]
  rfl

theorem words_single {t : List α} (hne : t ≠ []) (h : c ∉ t) : words c t = [t] := by
  have hw := wordsFrom_append h [] []
  rw [List.append_nil,List.nil_append] at hw
  rw [words,hw,wordsFrom,pending,if_neg hne]

/- Each token with the number of delimiters behind it. -/
def spaced (c : α) (lead : ℕ) (tokens : List (List α × ℕ)) : List α :=
  List.replicate lead c ++ tokens.flatMap fun t => t.1 ++ List.replicate t.2 c

/- The tokens are read back, whatever stands between them. -/
theorem words_spaced {lead : ℕ} {tokens : List (List α × ℕ)}
    (htokens : ∀ t ∈ tokens, t.1 ≠ [] ∧ c ∉ t.1) (hgaps : ∀ t ∈ tokens.dropLast, 0 < t.2) :
    words c (spaced c lead tokens) = tokens.map Prod.fst := by
  rw [spaced,words_replicate]
  induction tokens with
  | nil => rfl
  | cons t tokens ih =>
    obtain ⟨hne,hfree⟩ := htokens t (List.mem_cons_self ..)
    rw [List.flatMap_cons,List.map_cons,List.append_assoc]
    cases tokens with
    | nil =>
      rw [List.flatMap_nil,List.map_nil]
      cases hn : t.2 with
      | zero => rw [List.replicate_zero,List.append_nil,List.append_nil,words_single hne hfree]
      | succ n =>
        rw [List.replicate_succ,List.cons_append,words_first hne hfree,words_replicate]
        rfl
    | cons u tokens =>
      have hpos := hgaps t (by simp)
      have hrest := ih (fun v hv => htokens v (List.mem_cons_of_mem t hv))
        fun v hv => hgaps v (by rw [List.dropLast_cons_cons]; exact List.mem_cons_of_mem t hv)
      obtain ⟨n,hn⟩ : ∃ n, t.2 = n+1 := ⟨t.2-1,by omega⟩
      rw [hn,List.replicate_succ,List.cons_append,words_first hne hfree,words_replicate,hrest]

end TcpProjects.Words
