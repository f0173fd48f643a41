import TcpProjects.ChatServer.Descriptors

/-! # The broadcast map and the live connections

`closeSocket` closes the descriptor before it erases the key, and the accept
thread inserts without `mut`. When `accept` returns the number in between and
the insertion comes before the erase, `map::insert` keeps the old key and the
erase removes it under the new client. Runs in which no insertion falls into
that window keep `clientSockets` equal to the live connections. -/

namespace TcpProjects.ChatServer
open Transition

def PC.insideCloseSocket : PC → Bool
  | .closeSocket .lock => false
  | .closeSocket .unlock => false
  | .closeSocket _ => true
  | _ => false

theorem PC.insideCloseSocket_of_erasing {pc : PC} (h : pc.erasing = true) :
    pc.insideCloseSocket = true := by
  cases pc with
  | closeSocket l => cases l <;> first | rfl | cases h
  | _ => cases h

/- The accept thread is not between `accept` and `insert`, and no thread is
inside `closeSocket`. -/
def Quiet (s : State) : Prop :=
  (∀ fd addr, s.acceptor ≠ .insert fd addr) ∧
    ∀ k t, s.thread k = some t → t.pc.insideCloseSocket = false

/- The keys are the descriptors of the accepted connections not yet closed by
their thread. -/
def RegistryExact (s : State) : Prop :=
  ∀ fd, fd ∈ s.shared.clientSockets ↔ ∃ c, s.Owns c fd

/- An insertion of the accept thread does not meet a `socketThread` that has
closed the same number and is still inside `closeSocket`. -/
def InsertClear (s : State) (a : Action) : Prop :=
  ∀ ans fd addr, a = .acceptor ans → s.acceptor = .insert fd addr →
    ∀ k t, s.thread k = some t → t.socket = fd → t.pc.erasing = false

/- The part of exactness that survives between quiet states: an open connection
has its key unless the accept thread has yet to insert it, and that is the only
open connection on a number that is being erased. -/
structure Registered (s : State) : Prop where
  known : ∀ fd c, s.shared.table fd = some (.connection c) →
    (∀ addr, s.acceptor ≠ .insert fd addr) → fd ∈ s.shared.clientSockets
  erasing : ∀ k t c, s.thread k = some t → t.pc.erasing = true →
    s.shared.table t.socket = some (.connection c) → ∃ addr, s.acceptor = .insert t.socket addr

namespace Registered
variable {m : Fd} {s s' : State}

theorem of_initial (m : Fd) (addr : SockaddrIn) : Registered (initial m addr) := by
  refine ⟨fun fd c h _ => ?_,fun k t c ht => by cases ht⟩
  by_cases hf : fd = m <;> simp [initial,hf] at h

theorem acceptStep {ans : Answer} (hr : Registered s)
    (hclear : InsertClear s (.acceptor ans)) (h : AcceptStep s ans s') : Registered s' := by
  have hnew (k : ℕ) (t : SocketThread) (ht : s'.thread k = some t) := h.thread_new ht
  cases h with
  | refused hpc => exact hr
  | @accepted fd addr hpc hfree =>
    have hno (q : Fd) : ∀ addr, s.acceptor ≠ .insert q addr := fun _ h => by rw [hpc] at h; cases h
    refine ⟨fun q c hq hins => ?_,fun k t c ht he hc => ?_⟩
    · by_cases hf : q = fd
      · exact absurd (hf ▸ rfl) (hins addr)
      · exact hr.known q c (by simpa [hf] using hq) (hno q)
    · by_cases hf : t.socket = fd
      · exact ⟨addr,by rw [hf]⟩
      · obtain ⟨a,ha⟩ := hr.erasing k t c ht he (by simpa [hf] using hc)
        exact absurd ha (hno _ a)
  | @insert fd addr hpc =>
    refine ⟨fun q c hq _ => (OrderedMap.mem_insert ..).mpr ?_,fun k t c ht he hc => ?_⟩
    · by_cases hf : q = fd
      · exact Or.inl hf
      · refine Or.inr (hr.known q c hq fun a ha => hf ?_)
        rw [hpc] at ha
        exact (AcceptPC.insert.inj ha).1.symm
    · obtain ⟨a,ha⟩ := hr.erasing k t c ht he hc
      rw [hpc] at ha
      have hno := hclear _ _ _ rfl hpc k t ht (AcceptPC.insert.inj ha).1.symm
      rw [he] at hno
      cases hno
  | lock hpc hm | insertThread hpc | unlock hpc =>
    refine ⟨fun q c hq _ => hr.known q c hq fun a ha => ?_,fun k t c ht he hc => ?_⟩
    · rw [hpc] at ha; cases ha
    · obtain ⟨a,ha⟩ := hr.erasing k t c ht he hc
      rw [hpc] at ha; cases ha
  | @newThread fd stack hpc =>
    refine ⟨fun q c hq _ => hr.known q c hq fun a ha => ?_,fun k t c ht he hc => ?_⟩
    · rw [hpc] at ha; cases ha
    · rcases hnew k t ht with ht | ⟨_,_,_,hpc'⟩
      · obtain ⟨a,ha⟩ := hr.erasing k t c ht he hc
        rw [hpc] at ha; cases ha
      · rw [hpc'] at he
        cases he

theorem socketStep {k : ℕ} {t : SocketThread} {ans : Answer} {g : Shared} {pc : PC}
    (hk : Keys m s) (hr : Registered s) (ht : s.thread k = some t)
    (h : SocketStep k t s.shared ans g pc) : Registered (s.advance k t g pc) := by
  have htable {fd : Fd} {c : ℕ} (hc : g.table fd = some (.connection c)) :
      s.shared.table fd = some (.connection c) := by
    rcases h.table_effect with ⟨_,_,htab⟩ | ⟨htab,_⟩ <;> rw [htab] at hc
    · by_cases hf : fd = t.socket
      · rw [hf,Function.update_self] at hc; cases hc
      · rwa [Function.update_of_ne hf] at hc
    · exact hc
  refine ⟨fun fd c hc hins => ?_,fun j u c hu he hc => ?_⟩
  · have hin := hr.known fd c (htable hc) hins
    rcases h.clientSockets_effect with ⟨hpc,_,hg⟩ | hg
    · rw [State.advance_shared,hg,OrderedMap.mem_erase]
      refine ⟨?_,hin⟩
      intro hx
      subst hx
      -- An open connection on the number being erased would still be uninserted.
      obtain ⟨a,ha⟩ := hr.erasing k t c ht (by rw [hpc]; rfl) (htable hc)
      exact hins a ha
    · rw [State.advance_shared,hg]
      exact hin
  · rcases s.advance_thread.mp hu with ⟨rfl,rfl⟩ | ⟨_,hu⟩
    · rcases h.erasing_effect with hsame | ⟨_,_⟩ | hpc | ⟨_,_,hno⟩ | ⟨hpc,_⟩
      · exact hr.erasing j t c ht (hsame.symm.trans he) (htable hc)
      · rcases h.table_effect with ⟨_,_,htab⟩ | ⟨_,hcl⟩
        · rw [State.advance_shared,htab,Function.update_self] at hc; cases hc
        · simp_all [PC.closed]
      · exact absurd hpc (hk.clientErase j t ht)
      · rw [hno] at he; cases he
      · exact hr.erasing j t c ht (by rw [hpc]; rfl) (htable hc)
    · exact hr.erasing j u c hu he (htable hc)

end Registered

theorem registered_run {m : Fd} {addr : SockaddrIn} {tr : List (State × Action)} {s : State}
    (r : Run step (initial m addr) tr s) (hclear : ∀ x ∈ tr, InsertClear x.1 x.2) :
    (Safe m s ∧ Keys m s) ∧ Registered s := by
  refine r.guarded (I := fun s => (Safe m s ∧ Keys m s) ∧ Registered s) (C := InsertClear)
    ⟨run_keys Run.start,Registered.of_initial m addr⟩ ?_ hclear
  intro s a s' hx hC h
  obtain ⟨⟨hs,hk⟩,hr⟩ := hx
  refine ⟨⟨hs.step h,hk.step hs h⟩,?_⟩
  cases step_cases h with
  | acceptor _ ha => exact hr.acceptStep hC ha
  | client _ ht hc => exact hr.socketStep hk ht hc
  | leave => exact ⟨hr.known,hr.erasing⟩

/- The conditions on every thread need only be looked up for the started ones. -/
theorem forall_thread {m : Fd} {s : State} (hs : Safe m s) (p : SocketThread → Bool)
    (h : ∀ k < s.started, (s.thread k).all p = true) : ∀ k t, s.thread k = some t → p t = true := by
  intro k t ht
  have hp := h k (hs.ownership.thread_lt ht)
  rwa [ht] at hp

/-- As long as no insertion meets an unfinished `closeSocket` of the same number,
the keys are the live connections in every quiet state. -/
theorem registry_exact {m : Fd} {addr : SockaddrIn} {tr : List (State × Action)} {s : State}
    (r : Run step (initial m addr) tr s) (hclear : ∀ x ∈ tr, InsertClear x.1 x.2)
    (hq : Quiet s) : RegistryExact s := by
  obtain ⟨⟨hs,hk⟩,hr⟩ := registered_run r hclear
  intro fd
  constructor
  · intro hfd
    rcases hk.known fd hfd with ⟨c,hc⟩ | ⟨k,t,ht,he,_⟩
    · exact ⟨c,(hs.ownership.owner fd c).mp hc⟩
    · have hno := hq.2 k t ht
      rw [PC.insideCloseSocket_of_erasing he] at hno
      cases hno
  · intro hx
    obtain ⟨c,hc⟩ := hx
    exact hr.known fd c ((hs.ownership.owner fd c).mpr hc) (hq.1 fd)

theorem registry_exact_reuse :
    let r := runOf step (initial 3 ⟨0,0⟩) reuseSchedule
    r.2.shared.clientSockets.entries.map Prod.fst = [4] ∧ RegistryExact r.2 := by
  have hrun := runOf_run step (initial 3 ⟨0,0⟩) reuseSchedule (by decide +kernel)
  refine ⟨by decide +kernel,registry_exact hrun ?_ ⟨?_,?_⟩⟩
  · have hall : ∀ x ∈ (runOf step (initial 3 ⟨0,0⟩) reuseSchedule).1,
        ∀ k < x.1.started, (x.1.thread k).all (fun t => match x.1.acceptor with
          | .insert fd _ => t.socket ≠ fd || !t.pc.erasing
          | _ => true) = true := by decide +kernel
    intro x hx ans fd addr _ hins k t ht hsock
    have hp := forall_thread (hrun.invariant_mem (fun _ _ => run_safe) hx) _ (hall x hx) k t ht
    simpa [hins,hsock] using hp
  · have hpc : (runOf step (initial 3 ⟨0,0⟩) reuseSchedule).2.acceptor = .accept := by
      decide +kernel
    rw [hpc]
    exact fun fd addr h => by cases h
  · have hall : ∀ k < (runOf step (initial 3 ⟨0,0⟩) reuseSchedule).2.started,
        ((runOf step (initial 3 ⟨0,0⟩) reuseSchedule).2.thread k).all
          (fun t => !t.pc.insideCloseSocket) = true := by decide +kernel
    intro k t ht
    simpa using forall_thread (run_safe hrun) _ hall k t ht

/- The thread of the first client on number 4 closes it, the accept thread takes
and inserts the second client on number 4, then the first thread erases the key. -/
def lostClient : List Action :=
  acceptOn 4 ++
  clientSteps 0 (joinTo 1) ++
  clientSteps 0 [.read (some []),.tick,.closed true] ++
  [.acceptor (.accepted 4 ⟨0,0⟩),.acceptor .tick] ++
  clientSteps 0 [.tick,.tick,.tick,.tick]

/- Without the condition a live client can be missing from the map: in a quiet
state connection 1 is open on number 4 and the map is empty. -/
theorem registry_not_exact :
    ¬ ∀ (m : Fd) (addr : SockaddrIn) (tr : List (State × Action)) (s : State),
      Run step (initial m addr) tr s → s.shared.terminated = false → Quiet s → RegistryExact s := by
  intro h
  have hrun := runOf_run step (initial 3 ⟨0,0⟩) lostClient (by decide +kernel)
  have hsafe := run_safe hrun
  have hpc : (runOf step (initial 3 ⟨0,0⟩) lostClient).2.acceptor = .lock 4 := by decide +kernel
  have hall : ∀ k < (runOf step (initial 3 ⟨0,0⟩) lostClient).2.started,
      ((runOf step (initial 3 ⟨0,0⟩) lostClient).2.thread k).all
        (fun t => !t.pc.insideCloseSocket) = true := by decide +kernel
  have hquiet : Quiet (runOf step (initial 3 ⟨0,0⟩) lostClient).2 := by
    refine ⟨fun fd addr hi => ?_,fun k t ht => by simpa using forall_thread hsafe _ hall k t ht⟩
    rw [hpc] at hi
    cases hi
  have hexact := h 3 ⟨0,0⟩ _ _ hrun (by decide +kernel) hquiet 4
  have hmiss : 4 ∉ (runOf step (initial 3 ⟨0,0⟩) lostClient).2.shared.clientSockets := by
    decide +kernel
  exact hmiss (hexact.mpr ⟨_,Or.inr ⟨rfl,by rw [hpc]; rfl⟩⟩)

end TcpProjects.ChatServer
