import Mathlib.Data.List.Basic
import Mathlib.Order.Lattice

/-! # Ordered maps with unique keys and iterators

The container behaves as `std::map`: the entries stand in key order, `insert`
keeps the entry of a key that is already there, and an iterator is the key it
points to (`none` for the end). An iterator stays valid as long as its own key
is not erased, whatever else is inserted or erased meanwhile. -/

namespace TcpProjects

/-- Entries in strictly increasing key order; the order is carried by the type. -/
structure OrderedMap (κ ν : Type*) [LinearOrder κ] where
  entries : List (κ × ν)
  sorted : entries.Pairwise fun a b => a.1 < b.1

namespace OrderedMap
variable {κ ν : Type*} [LinearOrder κ]

def empty : OrderedMap κ ν := ⟨[],List.Pairwise.nil⟩

def find? (m : OrderedMap κ ν) (k : κ) : Option ν :=
  (m.entries.find? fun e => decide (e.1 = k)).map Prod.snd

instance : Membership κ (OrderedMap κ ν) := ⟨fun m k => (m.find? k).isSome⟩

instance (m : OrderedMap κ ν) (k : κ) : Decidable (k ∈ m) :=
  inferInstanceAs (Decidable ((m.find? k).isSome = true))

theorem mem_iff (m : OrderedMap κ ν) (k : κ) : k ∈ m ↔ (m.find? k).isSome = true := Iff.rfl

theorem not_mem_iff (m : OrderedMap κ ν) (k : κ) : k ∉ m ↔ m.find? k = none := by
  rw [mem_iff]
  simp

theorem key_unique (m : OrderedMap κ ν) {k : κ} {v w : ν} (hv : (k,v) ∈ m.entries)
    (hw : (k,w) ∈ m.entries) : v = w := by
  have h := m.sorted
  generalize m.entries = l at hv hw h
  induction l with
  | nil => cases hv
  | cons e l ih =>
    obtain ⟨hlt,ht⟩ := List.pairwise_cons.mp h
    rcases List.mem_cons.mp hv with hv | hv <;> rcases List.mem_cons.mp hw with hw | hw
    · exact congrArg Prod.snd (hv.trans hw.symm)
    · exact absurd (hlt _ hw) (by rw [← hv]; exact lt_irrefl _)
    · exact absurd (hlt _ hv) (by rw [← hw]; exact lt_irrefl _)
    · exact ih hv hw ht

theorem find?_eq_some (m : OrderedMap κ ν) {k : κ} {v : ν} :
    m.find? k = some v ↔ (k,v) ∈ m.entries := by
  constructor
  · intro h
    obtain ⟨⟨q,w⟩,he,hw⟩ := Option.map_eq_some_iff.mp h
    have hq : q = k := by simpa using List.find?_some he
    change w = v at hw
    subst hq hw
    exact List.mem_of_find?_eq_some he
  · intro h
    have hs : (m.find? k).isSome = true := by
      simp only [find?,Option.isSome_map,List.find?_isSome]
      exact ⟨(k,v),h,by simp⟩
    obtain ⟨w,hw⟩ := Option.isSome_iff_exists.mp hs
    obtain ⟨⟨q,u⟩,he,hu⟩ := Option.map_eq_some_iff.mp hw
    have hq : q = k := by simpa using List.find?_some he
    change u = w at hu
    subst hq hu
    rw [hw,m.key_unique h (List.mem_of_find?_eq_some he)]

theorem mem_iff_entry (m : OrderedMap κ ν) {k : κ} : k ∈ m ↔ ∃ v, (k,v) ∈ m.entries := by
  simp only [mem_iff,Option.isSome_iff_exists,find?_eq_some]

@[simp] theorem find?_empty (k : κ) : (empty : OrderedMap κ ν).find? k = none := rfl

@[simp] theorem not_mem_empty (k : κ) : k ∉ (empty : OrderedMap κ ν) := by
  simp [not_mem_iff]

/-- The keys in the order of an iteration over a map that does not change meanwhile. -/
def keys (m : OrderedMap κ ν) : List κ := m.entries.map Prod.fst

/-- `map::size`. -/
def size (m : OrderedMap κ ν) : ℕ := m.entries.length

@[simp] theorem mem_keys (m : OrderedMap κ ν) {k : κ} : k ∈ m.keys ↔ k ∈ m := by
  simp [keys,mem_iff_entry]

theorem keys_nodup (m : OrderedMap κ ν) : m.keys.Nodup := by
  rw [keys,List.Nodup,List.pairwise_map]
  exact m.sorted.imp fun h => ne_of_lt h

theorem length_keys (m : OrderedMap κ ν) : m.keys.length = m.size := List.length_map ..

/-! ### Insertion -/

def insertEntry (k : κ) (v : ν) : List (κ × ν) → List (κ × ν)
  | [] => [(k,v)]
  | e :: l => if k < e.1 then (k,v) :: e :: l else if e.1 = k then e :: l else e :: insertEntry k v l

theorem key_of_mem_insertEntry {k : κ} {v : ν} {l : List (κ × ν)} {x : κ × ν}
    (h : x ∈ insertEntry k v l) : x ∈ l ∨ x = (k,v) := by
  induction l with
  | nil => exact Or.inr (List.mem_singleton.mp h)
  | cons e l ih =>
    rw [insertEntry] at h
    split_ifs at h
    · rcases List.mem_cons.mp h with h | h
      · exact Or.inr h
      · exact Or.inl h
    · exact Or.inl h
    · rcases List.mem_cons.mp h with h | h
      · exact Or.inl (h ▸ List.mem_cons_self ..)
      · exact (ih h).imp (List.mem_cons_of_mem _) id

theorem insertEntry_sorted {k : κ} {v : ν} {l : List (κ × ν)}
    (h : l.Pairwise fun a b => a.1 < b.1) :
    (insertEntry k v l).Pairwise fun a b => a.1 < b.1 := by
  induction l with
  | nil => exact List.pairwise_singleton _ _
  | cons e l ih =>
    obtain ⟨hlt,ht⟩ := List.pairwise_cons.mp h
    unfold insertEntry
    split_ifs with h1 h2
    · refine List.pairwise_cons.mpr ⟨fun x hx => ?_,h⟩
      rcases List.mem_cons.mp hx with hx | hx
      · exact hx ▸ h1
      · exact lt_trans h1 (hlt x hx)
    · exact h
    · refine List.pairwise_cons.mpr ⟨fun x hx => ?_,ih ht⟩
      rcases key_of_mem_insertEntry hx with hx | hx
      · exact hlt x hx
      · exact hx ▸ lt_of_le_of_ne (not_lt.mp h1) h2

/-- `map::insert`: an entry that is already there under `k` is kept. -/
def insert (m : OrderedMap κ ν) (k : κ) (v : ν) : OrderedMap κ ν :=
  ⟨insertEntry k v m.entries,insertEntry_sorted m.sorted⟩

theorem mem_insertEntry {k q : κ} {v w : ν} {l : List (κ × ν)}
    (h : l.Pairwise fun a b => a.1 < b.1) :
    (q,w) ∈ insertEntry k v l ↔ (q,w) ∈ l ∨ q = k ∧ w = v ∧ ∀ u, (k,u) ∉ l := by
  induction l with
  | nil => simp [insertEntry]
  | cons e l ih =>
    obtain ⟨hlt,ht⟩ := List.pairwise_cons.mp h
    obtain ⟨a,b⟩ := e
    unfold insertEntry
    split_ifs with h1 h2
    · have hk : ∀ u, (k,u) ∉ (a,b) :: l := by
        intro u hu
        rcases List.mem_cons.mp hu with hu | hu
        · exact lt_irrefl _ ((Prod.mk.injEq .. ▸ hu).1 ▸ h1)
        · exact lt_irrefl _ (lt_trans h1 (hlt _ hu))
      simp only [List.mem_cons (a := (q,w)) (b := (k,v)),Prod.mk.injEq]
      exact ⟨fun hx => hx.elim (fun hx => Or.inr ⟨hx.1,hx.2,hk⟩) Or.inl,
        fun hx => hx.elim Or.inr fun hx => Or.inl ⟨hx.1,hx.2.1⟩⟩
    · refine ⟨Or.inl,fun hx => hx.elim id fun hx => ?_⟩
      exact absurd (List.mem_cons_self ..) (h2 ▸ hx.2.2 b)
    · have hne : ∀ u, (k,u) ≠ (a,b) := fun u hu => h2 (congrArg Prod.fst hu).symm
      simp only [List.mem_cons,ih ht,not_or,hne,not_false_eq_true,true_and,or_assoc]

theorem find?_insert (m : OrderedMap κ ν) (k q : κ) (v : ν) :
    (m.insert k v).find? q = if q = k then some ((m.find? k).getD v) else m.find? q := by
  apply Option.ext
  intro w
  have hm : (m.insert k v).find? q = some w ↔
      m.find? q = some w ∨ q = k ∧ w = v ∧ m.find? k = none := by
    rw [find?_eq_some,insert,mem_insertEntry m.sorted,find?_eq_some,Option.eq_none_iff_forall_ne_some]
    simp only [ne_eq,find?_eq_some]
  rw [hm]
  by_cases hq : q = k
  · subst hq
    cases hf : m.find? q <;> simp [eq_comm]
  · simp [hq]

@[simp] theorem mem_insert (m : OrderedMap κ ν) (k q : κ) (v : ν) :
    q ∈ m.insert k v ↔ q = k ∨ q ∈ m := by
  simp only [mem_iff,find?_insert]
  split_ifs with h <;> simp [h]

/-! ### Erasure -/

def erase (m : OrderedMap κ ν) (k : κ) : OrderedMap κ ν :=
  ⟨m.entries.filter fun e => decide (e.1 ≠ k),m.sorted.filter _⟩

theorem find?_erase (m : OrderedMap κ ν) (k q : κ) :
    (m.erase k).find? q = if q = k then none else m.find? q := by
  apply Option.ext
  intro w
  rw [find?_eq_some,erase]
  by_cases hq : q = k
  · simp [hq]
  · simp [hq,find?_eq_some]

@[simp] theorem mem_erase (m : OrderedMap κ ν) (k q : κ) :
    q ∈ m.erase k ↔ q ≠ k ∧ q ∈ m := by
  simp only [mem_iff,find?_erase]
  split_ifs with h <;> simp [h]

/-! ### Iteration -/

/-- The iterator `begin()`: the least key, `none` for `end()`. -/
def begin (m : OrderedMap κ ν) : Option κ := m.entries.head?.map Prod.fst

/-- The iterator after `k`: the least key above `k`, `none` for `end()`. -/
def next (m : OrderedMap κ ν) (k : κ) : Option κ :=
  (m.entries.find? fun e => decide (k < e.1)).map Prod.fst

theorem mem_of_begin (m : OrderedMap κ ν) {q : κ} (h : m.begin = some q) : q ∈ m := by
  obtain ⟨⟨a,b⟩,he,rfl⟩ := Option.map_eq_some_iff.mp h
  exact m.mem_iff_entry.mpr ⟨b,List.mem_of_head? he⟩

theorem begin_le (m : OrderedMap κ ν) {k : κ} (hk : k ∈ m) : ∃ q, m.begin = some q ∧ q ≤ k := by
  obtain ⟨v,hv⟩ := m.mem_iff_entry.mp hk
  have hs := m.sorted
  unfold begin
  cases hl : m.entries with
  | nil => rw [hl] at hv; cases hv
  | cons e l =>
    rw [hl] at hv hs
    refine ⟨e.1,rfl,?_⟩
    rcases List.mem_cons.mp hv with hv | hv
    · exact hv ▸ le_refl _
    · exact le_of_lt ((List.pairwise_cons.mp hs).1 _ hv)

theorem mem_of_next (m : OrderedMap κ ν) {k q : κ} (h : m.next k = some q) : q ∈ m ∧ k < q := by
  obtain ⟨⟨a,b⟩,he,rfl⟩ := Option.map_eq_some_iff.mp h
  exact ⟨m.mem_iff_entry.mpr ⟨b,List.mem_of_find?_eq_some he⟩,by simpa using List.find?_some he⟩

/- The iterator does not pass a key that is in the map when it advances. -/
theorem next_le (m : OrderedMap κ ν) {k q : κ} (hq : q ∈ m) (hkq : k < q) :
    ∃ p, m.next k = some p ∧ p ≤ q := by
  obtain ⟨v,hv⟩ := m.mem_iff_entry.mp hq
  have hs := m.sorted
  unfold next
  generalize m.entries = l at hv hs
  induction l with
  | nil => cases hv
  | cons e l ih =>
    obtain ⟨hlt,ht⟩ := List.pairwise_cons.mp hs
    by_cases he : k < e.1
    · refine ⟨e.1,by simp [he],?_⟩
      rcases List.mem_cons.mp hv with hv | hv
      · exact hv ▸ le_refl _
      · exact le_of_lt (hlt _ hv)
    · rw [List.find?_cons_of_neg (by simpa using he)]
      rcases List.mem_cons.mp hv with hv | hv
      · exact absurd (hv ▸ hkq) he
      · exact ih hv ht

/- The keys that an iteration at `k` has before it. -/
def ahead (m : OrderedMap κ ν) (k : κ) : ℕ := (m.keys.filter fun q => decide (k < q)).length

theorem ahead_lt_size (m : OrderedMap κ ν) {k : κ} (h : k ∈ m) : m.ahead k < m.size := by
  rw [← m.length_keys]
  exact List.length_filter_lt_length_iff_exists.mpr ⟨k,m.mem_keys.mpr h,by simp⟩

theorem ahead_next (m : OrderedMap κ ν) {k q : κ} (h : m.next k = some q) : m.ahead q < m.ahead k := by
  obtain ⟨hq,hlt⟩ := m.mem_of_next h
  have hsub : m.keys.filter (fun p => decide (q < p)) =
      (m.keys.filter fun p => decide (k < p)).filter fun p => decide (q < p) := by
    rw [List.filter_filter]
    refine List.filter_congr fun p _ => ?_
    by_cases hp : q < p
    · simp [hp,lt_trans hlt hp]
    · simp [hp]
  rw [ahead,ahead,hsub]
  exact List.length_filter_lt_length_iff_exists.mpr
    ⟨q,List.mem_filter.mpr ⟨m.mem_keys.mpr hq,by simpa using hlt⟩,by simp⟩

/-! ### Sizes -/

theorem countP_insertEntry (p : κ × ν → Bool) (k : κ) (v : ν) (l : List (κ × ν)) :
    (insertEntry k v l).countP p ≤ l.countP p + 1 := by
  induction l with
  | nil =>
    rw [insertEntry,List.countP_singleton]
    split_ifs <;> simp
  | cons e l ih =>
    unfold insertEntry
    split_ifs
    · rw [List.countP_cons]
      split_ifs <;> omega
    · omega
    · rw [List.countP_cons,List.countP_cons]
      omega

theorem size_countP (m : OrderedMap κ ν) : m.size = m.entries.countP fun _ => true := by
  rw [size,List.countP_true]

theorem ahead_countP (m : OrderedMap κ ν) (k : κ) :
    m.ahead k = m.entries.countP fun e => decide (k < e.1) := by
  rw [ahead,keys,← List.countP_eq_length_filter,List.countP_map]
  rfl

theorem size_insert_le (m : OrderedMap κ ν) (k : κ) (v : ν) : (m.insert k v).size ≤ m.size + 1 := by
  simp only [size_countP]
  exact countP_insertEntry _ k v m.entries

theorem ahead_insert_le (m : OrderedMap κ ν) (k q : κ) (v : ν) :
    (m.insert k v).ahead q ≤ m.ahead q + 1 := by
  simp only [ahead_countP]
  exact countP_insertEntry _ k v m.entries

theorem size_erase_le (m : OrderedMap κ ν) (k : κ) : (m.erase k).size ≤ m.size :=
  List.length_filter_le ..

theorem ahead_erase_le (m : OrderedMap κ ν) (k q : κ) : (m.erase k).ahead q ≤ m.ahead q := by
  simp only [ahead_countP]
  exact List.Sublist.countP_le List.filter_sublist

theorem keys_sorted (m : OrderedMap κ ν) : m.keys.Pairwise (· < ·) := by
  rw [keys,List.pairwise_map]
  exact m.sorted

/- The iteration begins with the first key, and goes on with the one behind. -/
theorem begin_keys (m : OrderedMap κ ν) : m.begin = m.keys.head? := by
  rw [begin,keys,List.head?_map]

theorem next_keys (m : OrderedMap κ ν) {passed rest : List κ} {k : κ}
    (h : m.keys = passed ++ k :: rest) : m.next k = rest.head? := by
  have hs := m.keys_sorted
  have hfind : m.next k = m.keys.find? fun q => decide (k < q) := by
    rw [keys,List.find?_map]
    rfl
  rw [h] at hs
  obtain ⟨_,hrest,hpassed⟩ := List.pairwise_append.mp hs
  rw [hfind,h,List.find?_append,List.find?_eq_none.mpr fun q hq => ?_,Option.none_or,
    List.find?_cons_of_neg (by simp)]
  · cases rest with
    | nil => rfl
    | cons q rest =>
      have hq := (List.pairwise_cons.mp hrest).1 q (List.mem_cons_self ..)
      rw [List.find?_cons_of_pos (by simpa using hq),List.head?_cons]
  · have hlt := hpassed q hq k (List.mem_cons_self ..)
    simpa using le_of_lt hlt

end OrderedMap
end TcpProjects
