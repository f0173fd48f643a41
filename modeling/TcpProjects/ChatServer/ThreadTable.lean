import TcpProjects.ChatServer.Descriptors

/-! # The thread table

`threads` maps an id, converted to `int`, to the thread started with it. The
accept thread creates the thread and inserts it under one lock, and the thread
erases itself under the same lock, so a short-lived client cannot come before
its own insertion. Ids repeat only after 2^32 connections. -/

namespace TcpProjects.ChatServer
open Transition

/- The thread has executed `threads.erase(id)`. -/
def PC.erased : PC → Bool
  | .eraseThread .unlock => true
  | .finished => true
  | _ => false

/- The thread is created and `id++` has not been executed. -/
def AcceptPC.created : AcceptPC → Bool
  | .insertThread _ => true
  | .unlock => true
  | _ => false

theorem SocketStep.threads_effect {k : ℕ} {t : SocketThread} {g g' : Shared} {ans : Answer} {pc : PC}
    (h : SocketStep k t g ans g' pc) :
    t.pc = .eraseThread .erase ∧ pc = .eraseThread .unlock ∧
      g'.threads = g.threads.erase t.id.toInt ∨
    g'.threads = g.threads ∧ pc.erased = t.pc.erased := by
  cases h with
  | read hpc => exact Or.inr ⟨rfl,by rw [afterRead_keeps PC.erased rfl rfl fun _ => rfl,hpc]⟩
  | @distributeUnlock p hpc => cases p <;> simp [hpc,PC.erased,Payload.after]
  | @printUnlock p hpc => cases p <;> simp [hpc,PC.erased,Payload.afterPrint]
  | sendThrow hpc | eventThrow hpc | closeThrow hpc => exact Or.inr ⟨rfl,rfl⟩
  | _ => simp [*,PC.erased]

theorem toInt_ofNat_inj {j k : ℕ} (hj : j < 2^32) (hk : k < 2^32)
    (h : (BitVec.ofNat 32 j).toInt = (BitVec.ofNat 32 k).toInt) : j = k := by
  have hb := congrArg BitVec.toNat (BitVec.eq_of_toInt_eq h)
  rw [BitVec.toNat_ofNat,BitVec.toNat_ofNat] at hb
  omega

/-! ### Numbering -/

/-- Thread `k` carries the id `k`, wrapped to 32 bits. -/
structure Numbered (s : State) : Prop where
  ids : ∀ k t, s.thread k = some t → t.id = BitVec.ofNat 32 k
  next : ∃ n, s.id = BitVec.ofNat 32 n ∧ s.started = n + if s.acceptor.created then 1 else 0
  pending : ∀ k, s.acceptor = .insertThread k → k + 1 = s.started ∧
    ∃ t, s.thread k = some t ∧ t.pc.erased = false

namespace Numbered
variable {s s' : State}

theorem of_initial (m : Fd) (addr : SockaddrIn) : Numbered (initial m addr) := by
  refine ⟨?_,⟨0,rfl,rfl⟩,?_⟩
  · intro k t h
    cases h
  · intro k h
    cases h

theorem current (hn : Numbered s) {k : ℕ} (hk : s.acceptor = .insertThread k) :
    s.id = BitVec.ofNat 32 k := by
  obtain ⟨n,hid,hstart⟩ := hn.next
  have hpend := (hn.pending k hk).1
  simp only [hk,AcceptPC.created,if_true] at hstart
  have he : n = k := by omega
  rw [hid,he]

theorem acceptStep {ans : Answer} (hn : Numbered s) (h : AcceptStep s ans s') : Numbered s' := by
  obtain ⟨n,hid,hstart⟩ := hn.next
  have hnew (k : ℕ) (t : SocketThread) (ht : s'.thread k = some t) := h.thread_new ht
  cases h with
  | refused hpc => exact hn
  | accepted hpc _ | insert hpc | lock hpc _ =>
    simp only [hpc,AcceptPC.created] at hstart
    exact ⟨hn.ids,⟨n,hid,hstart⟩,fun k hk => by cases hk⟩
  | insertThread hpc =>
    simp only [hpc,AcceptPC.created] at hstart
    exact ⟨hn.ids,⟨n,hid,hstart⟩,fun k hk => by cases hk⟩
  | unlock hpc =>
    simp only [hpc,AcceptPC.created,if_true] at hstart
    refine ⟨hn.ids,⟨n+1,?_,by simpa [AcceptPC.created] using hstart⟩,fun k hk => by cases hk⟩
    change s.id + 1 = _
    rw [hid,BitVec.ofNat_add]
    rfl
  | @newThread fd stack hpc =>
    have hn0 : s.started = n := by simpa [hpc,AcceptPC.created] using hstart
    refine ⟨?_,⟨n,hid,by simp [AcceptPC.created,hn0]⟩,?_⟩
    · intro k t ht
      rcases hnew k t ht with ht | ⟨hk,_,htid,_⟩
      · exact hn.ids k t ht
      · rw [htid,hid,hk,hn0]
    · intro k hk
      cases hk
      exact ⟨rfl,_,Function.update_self ..,rfl⟩

/- While the accept thread is about to insert a thread it holds `mutex`, and the
thread cannot have erased itself. -/
theorem socketStep {k : ℕ} {t : SocketThread} {ans : Answer} {g : Shared} {pc : PC}
    (hl : Locks s) (hn : Numbered s) (ht : s.thread k = some t)
    (h : SocketStep k t s.shared ans g pc) : Numbered (s.advance k t g pc) := by
  refine ⟨?_,hn.next,?_⟩
  · intro j u hu
    rcases s.advance_thread.mp hu with ⟨rfl,rfl⟩ | ⟨_,hu⟩
    · exact hn.ids j t ht
    · exact hn.ids j u hu
  · intro j hj
    obtain ⟨hstart,u,hu,he⟩ := hn.pending j hj
    refine ⟨hstart,?_⟩
    by_cases hjk : j = k
    · subst hjk
      cases ht.symm.trans hu
      refine ⟨_,s.advance_self ..,?_⟩
      rcases h.threads_effect with ⟨hpc,_,_⟩ | ⟨_,hpc⟩
      · have hme := (hl.client j).mpr ⟨_,hu,by rw [hpc]; rfl⟩
        have hacc := hl.acceptor.mpr (by rw [show s.acceptor = _ from hj]; rfl)
        rw [hme] at hacc
        cases hacc
      · exact hpc.trans he
    · exact ⟨u,by rw [s.advance_other _ _ _ hjk]; exact hu,he⟩

end Numbered

/-! ### The entries -/

/-- An entry for each thread, from its insertion to its erase. -/
def Entries (s : State) : Prop :=
  ∀ key k, s.shared.threads.find? key = some k ↔
    ∃ t, s.thread k = some t ∧ t.id.toInt = key ∧ t.pc.erased = false ∧ s.acceptor ≠ .insertThread k

section Entries
variable {m : Fd} {s s' : State}

theorem same_thread (ho : Ownership m s) (hn : Numbered s) (hb : s.accepted < 2^32) {j k : ℕ}
    {t u : SocketThread} (ht : s.thread j = some t) (hu : s.thread k = some u)
    (h : t.id.toInt = u.id.toInt) : j = k := by
  have hj := ho.thread_lt ht
  have hk := ho.thread_lt hu
  have hcount := ho.counts
  rw [hn.ids j t ht,hn.ids k u hu] at h
  exact toInt_ofNat_inj (by omega) (by omega) h

/- No entry stands in the way of the one to be inserted. -/
theorem Entries.key_free (ho : Ownership m s) (hn : Numbered s) (hb : s.accepted < 2^32)
    (he : Entries s) {k : ℕ} (hpc : s.acceptor = .insertThread k) :
    s.shared.threads.find? s.id.toInt = none := by
  obtain ⟨_,t,ht,_⟩ := hn.pending k hpc
  have hid : t.id = s.id := (hn.ids k t ht).trans (hn.current hpc).symm
  cases hf : s.shared.threads.find? s.id.toInt with
  | none => rfl
  | some j =>
    obtain ⟨u,hu,hkey,_,hj⟩ := (he _ j).mp hf
    have hjk := same_thread ho hn hb hu ht (by rw [hkey,hid])
    exact absurd (hjk ▸ hpc) hj

theorem Entries.insertThread (ho : Ownership m s) (hn : Numbered s) (hb : s.accepted < 2^32)
    (he : Entries s) {k : ℕ} (hpc : s.acceptor = .insertThread k) (key : ℤ) (j : ℕ) :
    (s.shared.threads.insert s.id.toInt k).find? key = some j ↔
      ∃ u, s.thread j = some u ∧ u.id.toInt = key ∧ u.pc.erased = false := by
  obtain ⟨_,t,ht,hte⟩ := hn.pending k hpc
  have hid : t.id = s.id := (hn.ids k t ht).trans (hn.current hpc).symm
  rw [OrderedMap.find?_insert,he.key_free ho hn hb hpc]
  by_cases hkey : key = s.id.toInt
  · rw [if_pos hkey,Option.getD_none]
    constructor
    · intro hj
      cases hj
      exact ⟨t,ht,by rw [hid,hkey],hte⟩
    · intro hx
      obtain ⟨u,hu,hukey,_⟩ := hx
      rw [same_thread ho hn hb hu ht (by rw [hukey,hid,hkey])]
  · rw [if_neg hkey,he key j]
    constructor
    · intro hx
      obtain ⟨u,hu,hukey,hue,_⟩ := hx
      exact ⟨u,hu,hukey,hue⟩
    · intro hx
      obtain ⟨u,hu,hukey,hue⟩ := hx
      refine ⟨u,hu,hukey,hue,?_⟩
      intro hj
      cases hpc.symm.trans hj
      cases ht.symm.trans hu
      exact hkey (by rw [← hukey,hid])

theorem Entries.acceptStep {ans : Answer} (ho : Ownership m s) (hn : Numbered s)
    (hb : s.accepted < 2^32) (he : Entries s) (h : AcceptStep s ans s') : Entries s' := by
  -- Apart from the creation and the insertion, neither side of the equivalence moves.
  have keep (hpc : ∀ k, s.acceptor ≠ .insertThread k) (s' : State)
      (hth : s'.thread = s.thread) (hmap : s'.shared.threads = s.shared.threads)
      (hpc' : ∀ k, s'.acceptor ≠ .insertThread k) : Entries s' := by
    intro key k
    rw [hmap,hth,he key k]
    simp only [hpc k,hpc' k,ne_eq,not_false_eq_true]
  cases h with
  | refused hpc => exact he
  | accepted hpc _ | insert hpc | lock hpc _ | unlock hpc =>
    exact keep (fun k hk => by rw [hpc] at hk; cases hk) _ rfl rfl fun k hk => by cases hk
  | @newThread fd stack hpc =>
    intro key k
    change s.shared.threads.find? key = some k ↔ _
    rw [he key k]
    by_cases hk : k = s.started
    · subst hk
      simp [ho.fresh]
    · have hks : s.started ≠ k := fun h => hk h.symm
      simp [hk,hks,hpc]
  | @insertThread k hpc =>
    intro key j
    change (s.shared.threads.insert s.id.toInt k).find? key = some j ↔ _
    rw [he.insertThread ho hn hb hpc key j]
    simp

theorem Entries.socketStep {k : ℕ} {t : SocketThread} {ans : Answer} {g : Shared} {pc : PC}
    (ho : Ownership m s) (hn : Numbered s) (hb : s.accepted < 2^32) (he : Entries s)
    (ht : s.thread k = some t) (h : SocketStep k t s.shared ans g pc) :
    Entries (s.advance k t g pc) := by
  intro key j
  simp only [State.advance_shared,State.advance_acceptor]
  rcases h.threads_effect with ⟨hpc,rfl,hg⟩ | ⟨hg,hpc⟩
  · rw [hg,OrderedMap.find?_erase]
    by_cases hkey : key = t.id.toInt
    · rw [if_pos hkey]
      simp only [reduceCtorEq,false_iff]
      intro hx
      obtain ⟨u,hu,hukey,hue,_⟩ := hx
      -- Only the thread that erases carries this key.
      rcases s.advance_thread.mp hu with ⟨rfl,rfl⟩ | ⟨hjk,hu⟩
      · cases hue
      · exact hjk (same_thread ho hn hb hu ht (hukey.trans hkey))
    · rw [if_neg hkey,he key j]
      by_cases hjk : j = k
      · subst hjk
        simp [State.advance_self,ht,Ne.symm hkey]
      · rw [s.advance_other _ _ _ hjk]
  · rw [hg,he key j]
    by_cases hjk : j = k
    · subst hjk
      simp [State.advance_self,ht,hpc]
    · rw [s.advance_other _ _ _ hjk]

end Entries

theorem accepted_mono {s s' : State} {a : Action} (h : Step s a s') : s.accepted ≤ s'.accepted := by
  cases h with
  | acceptor _ ha =>
    cases ha with
    | accepted hpc _ => exact Nat.le_succ _
    | _ => exact Nat.le_refl _
  | _ => exact Nat.le_refl _

theorem run_entries {m : Fd} {addr : SockaddrIn} {tr : List (State × Action)} {s : State}
    (r : Run step (initial m addr) tr s) :
    Safe m s ∧ Numbered s ∧ (s.accepted < 2^32 → Entries s) := by
  refine r.invariant (I := fun s => Safe m s ∧ Numbered s ∧ (s.accepted < 2^32 → Entries s)) ?_ ?_
  · refine ⟨run_safe Run.start,Numbered.of_initial m addr,fun _ key k => ?_⟩
    simp [initial]
  · intro s a s' hi h
    obtain ⟨hs,hn,he⟩ := hi
    have hc := step_cases h
    refine ⟨hs.step h,?_,fun hb => ?_⟩
    · cases hc with
      | acceptor _ ha => exact hn.acceptStep ha
      | client _ ht hc => exact hn.socketStep hs.locks ht hc
      | leave => exact ⟨hn.ids,hn.next,hn.pending⟩
    · have hold : s.accepted < 2^32 := Nat.lt_of_le_of_lt (accepted_mono hc) hb
      cases hc with
      | acceptor _ ha => exact (he hold).acceptStep hs.ownership hn hold ha
      | client _ ht hc => exact (he hold).socketStep hs.ownership hn hold ht hc
      | leave => exact he hold

/-- When `mut` is free, `threads` holds exactly the threads that have been
started and not erased, each under its own id. -/
theorem thread_table {m : Fd} {addr : SockaddrIn} {tr : List (State × Action)} {s : State}
    (r : Run step (initial m addr) tr s) (hb : s.accepted < 2^32) (hfree : s.shared.mutex = none)
    (key : ℤ) (k : ℕ) :
    s.shared.threads.find? key = some k ↔
      ∃ t, s.thread k = some t ∧ t.id = BitVec.ofNat 32 k ∧ t.id.toInt = key ∧
        t.pc.erased = false := by
  obtain ⟨hs,hn,he⟩ := run_entries r
  have hacc (j : ℕ) : s.acceptor ≠ .insertThread j := by
    intro hj
    have hm := hs.locks.acceptor.mpr (by rw [hj]; rfl)
    rw [hfree] at hm
    cases hm
  rw [he hb key k]
  constructor
  · intro hx
    obtain ⟨t,ht,hkey,hte,_⟩ := hx
    exact ⟨t,ht,hn.ids k t ht,hkey,hte⟩
  · intro hx
    obtain ⟨t,ht,_,hkey,hte⟩ := hx
    exact ⟨t,ht,hkey,hte,hacc k⟩

/- The first client leaves and its thread ends while the second stays. -/
def shortLived : List Action :=
  reuseSchedule ++ clientSteps 0 (distributeTo 1 33 ++ [.tick,.tick,.tick,.tick,.tick])

theorem thread_table_short_lived :
    let s := (runOf step (initial 3 ⟨0,0⟩) shortLived).2
    s.shared.threads.entries = [(1,1)] ∧
      (s.shared.threads.find? 0 = some 0 ↔
        ∃ t, s.thread 0 = some t ∧ t.id = BitVec.ofNat 32 0 ∧ t.id.toInt = 0 ∧
          t.pc.erased = false) :=
  ⟨by decide +kernel,thread_table (runOf_run step (initial 3 ⟨0,0⟩) shortLived (by decide +kernel))
    (by decide +kernel) (by decide +kernel) 0 0⟩

end TcpProjects.ChatServer
