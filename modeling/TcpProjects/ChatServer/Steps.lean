import TcpProjects.ChatServer.Server

/-! # What a step can do

The inversion of `step`: one case for each kind of step, with its guard and its
effect. The invariants are proved from these cases and from the effect lemmas
below; none of them unfolds the step functions again. -/

namespace TcpProjects.ChatServer

/- `sendThrow` and `eventThrow` stand for the whole end of the process, in the constructor
of `SendException` or behind its throw. -/
inductive SocketStep (k : ℕ) (t : SocketThread) (g : Shared) : Answer → Shared → PC → Prop
  | distributeLock {p : Payload} (hpc : t.pc = .distribute p .lock) (hm : g.mutex = none) :
      SocketStep k t g .tick { g with mutex := some (.client k) } (.distribute p .begin)
  | distributeBegin {p : Payload} (hpc : t.pc = .distribute p .begin) :
      SocketStep k t g .tick g (.distribute p (.loop g.clientSockets.begin))
  | sendData {p : Payload} {it : Fd} {n : ℕ} (hpc : t.pc = .distribute p (.loop (some it))) :
      SocketStep k t g (.sent (some n)) g (.distribute p (.next it))
  | sendThrow {p : Payload} {it : Fd} (hpc : t.pc = .distribute p (.loop (some it))) :
      SocketStep k t g (.sent none) { g with terminated := true } t.pc
  | distributeNext {p : Payload} {it : Fd} (hpc : t.pc = .distribute p (.next it)) :
      SocketStep k t g .tick g (.distribute p (.loop (g.clientSockets.next it)))
  | distributeUnlock {p : Payload} (hpc : t.pc = .distribute p (.loop none)) :
      SocketStep k t g .tick { g with mutex := none } p.after
  | printLock {p : Payload} (hpc : t.pc = .print p .lock) (hm : g.stdoutMut = none) :
      SocketStep k t g .tick { g with stdoutMut := some (.client k) } (.print p .unlock)
  | printUnlock {p : Payload} (hpc : t.pc = .print p .unlock) :
      SocketStep k t g .tick { g with stdoutMut := none } p.afterPrint
  | read {r : Option Bytes} (hpc : t.pc = .read) : SocketStep k t g (.read r) g (afterRead r)
  | sendEvent {n : ℕ} (hpc : t.pc = .sendEvent) : SocketStep k t g (.sent (some n)) g .read
  | eventThrow (hpc : t.pc = .sendEvent) :
      SocketStep k t g (.sent none) { g with terminated := true } t.pc
  | closeLock (hpc : t.pc = .closeSocket .lock) (hm : g.mutex = none) :
      SocketStep k t g .tick { g with mutex := some (.client k) } (.closeSocket .close)
  | close (hpc : t.pc = .closeSocket .close) :
      SocketStep k t g (.closed true)
        { g with table := Function.update g.table t.socket none } (.closeSocket .isServerSocket)
  | closeThrow (hpc : t.pc = .closeSocket .close) :
      SocketStep k t g (.closed false) { g with terminated := true } t.pc
  | isServerSocket (hpc : t.pc = .closeSocket .isServerSocket) (hin : t.socket ∈ g.serverSockets) :
      SocketStep k t g .tick g (.closeSocket .eraseServer)
  | notServerSocket (hpc : t.pc = .closeSocket .isServerSocket)
      (hin : t.socket ∉ g.serverSockets) : SocketStep k t g .tick g (.closeSocket .isClientSocket)
  | eraseServer (hpc : t.pc = .closeSocket .eraseServer) :
      SocketStep k t g .tick { g with serverSockets := g.serverSockets.erase t.socket }
        (.closeSocket .unlock)
  | isClientSocket (hpc : t.pc = .closeSocket .isClientSocket) (hin : t.socket ∈ g.clientSockets) :
      SocketStep k t g .tick g (.closeSocket .eraseClient)
  | notClientSocket (hpc : t.pc = .closeSocket .isClientSocket)
      (hin : t.socket ∉ g.clientSockets) : SocketStep k t g .tick g (.closeSocket .unlock)
  | eraseClient (hpc : t.pc = .closeSocket .eraseClient) :
      SocketStep k t g .tick { g with clientSockets := g.clientSockets.erase t.socket }
        (.closeSocket .unlock)
  | closeUnlock (hpc : t.pc = .closeSocket .unlock) :
      SocketStep k t g .tick { g with mutex := none } (.distribute .quit .lock)
  | eraseLock (hpc : t.pc = .eraseThread .lock) (hm : g.mutex = none) :
      SocketStep k t g .tick { g with mutex := some (.client k) } (.eraseThread .erase)
  | eraseThread (hpc : t.pc = .eraseThread .erase) :
      SocketStep k t g .tick { g with threads := g.threads.erase t.id.toInt } (.eraseThread .unlock)
  | eraseUnlock (hpc : t.pc = .eraseThread .unlock) :
      SocketStep k t g .tick { g with mutex := none } .finished

theorem socketThread_cases {k : ℕ} {t : SocketThread} {g g' : Shared} {ans : Answer} {pc : PC}
    (h : socketThread k t g ans = some (g',pc)) : SocketStep k t g ans g' pc := by
  unfold socketThread at h
  split at h <;> (try split_ifs at h) <;> cases h
  · exact .distributeLock ‹_› ‹_›
  · exact .distributeBegin ‹_›
  · exact .sendData ‹_›
  · exact .sendThrow ‹_›
  · exact .distributeNext ‹_›
  · exact .distributeUnlock ‹_›
  · exact .printLock ‹_› ‹_›
  · exact .printUnlock ‹_›
  · exact .read ‹_›
  · exact .sendEvent ‹_›
  · exact .eventThrow ‹_›
  · exact .closeLock ‹_› ‹_›
  · exact .close ‹_›
  · exact .closeThrow ‹_›
  · exact .isServerSocket ‹_› ‹_›
  · exact .notServerSocket ‹_› ‹_›
  · exact .eraseServer ‹_›
  · exact .isClientSocket ‹_› ‹_›
  · exact .notClientSocket ‹_› ‹_›
  · exact .eraseClient ‹_›
  · exact .closeUnlock ‹_›
  · exact .eraseLock ‹_› ‹_›
  · exact .eraseThread ‹_›
  · exact .eraseUnlock ‹_›

/-- The state after a step of the `k`-th `socketThread`. -/
def State.advance (s : State) (k : ℕ) (t : SocketThread) (g : Shared) (pc : PC) : State :=
  { s with shared := g, thread := Function.update s.thread k (some { t with pc := pc }) }

inductive AcceptStep (s : State) : Answer → State → Prop
  | refused (hpc : s.acceptor = .accept) : AcceptStep s .refused s
  | accepted {fd : Fd} {addr : SockaddrIn} (hpc : s.acceptor = .accept)
      (hfree : s.shared.table fd = none) :
      AcceptStep s (.accepted fd addr)
        { s with
          shared := { s.shared with
            table := Function.update s.shared.table fd (some (.connection s.accepted)) }
          acceptor := .insert fd addr
          accepted := s.accepted + 1 }
  | insert {fd : Fd} {addr : SockaddrIn} (hpc : s.acceptor = .insert fd addr) :
      AcceptStep s .tick
        { s with
          shared := { s.shared with clientSockets := s.shared.clientSockets.insert fd addr }
          acceptor := .lock fd }
  | lock {fd : Fd} (hpc : s.acceptor = .lock fd) (hm : s.shared.mutex = none) :
      AcceptStep s .tick
        { s with shared := { s.shared with mutex := some .acceptor }, acceptor := .newThread fd }
  | newThread {fd : Fd} {stack : Stack} (hpc : s.acceptor = .newThread fd) :
      AcceptStep s (.started stack)
        { s with
          thread := Function.update s.thread s.started
            (some ⟨fd,s.id,stack,.distribute .join .lock⟩)
          started := s.started + 1
          acceptor := .insertThread s.started }
  | insertThread {k : ℕ} (hpc : s.acceptor = .insertThread k) :
      AcceptStep s .tick
        { s with
          shared := { s.shared with threads := s.shared.threads.insert s.id.toInt k }
          acceptor := .unlock }
  | unlock (hpc : s.acceptor = .unlock) :
      AcceptStep s .tick
        { s with shared := { s.shared with mutex := none }, acceptor := .accept, id := s.id + 1 }

theorem runServer_cases {s s' : State} {ans : Answer} (h : runServer s ans = some s') :
    AcceptStep s ans s' := by
  unfold runServer at h
  split at h <;> (try split_ifs at h) <;> cases h
  · exact .refused ‹_›
  · exact .accepted ‹_› ‹_›
  · exact .insert ‹_›
  · exact .lock ‹_› ‹_›
  · exact .newThread ‹_›
  · exact .insertThread ‹_›
  · exact .unlock ‹_›

inductive Step (s : State) : Action → State → Prop
  | acceptor {ans : Answer} {s' : State} (hrun : s.shared.terminated = false)
      (h : AcceptStep s ans s') : Step s (.acceptor ans) s'
  | client {k : ℕ} {t : SocketThread} {ans : Answer} {g : Shared} {pc : PC}
      (hrun : s.shared.terminated = false) (ht : s.thread k = some t)
      (h : SocketStep k t s.shared ans g pc) : Step s (.client k ans) (s.advance k t g pc)
  | leave {c : ℕ} : Step s (.leave c) { s with gone := Function.update s.gone c true }

theorem step_cases {s s' : State} {a : Action} (h : step s a = some s') : Step s a s' := by
  cases a with
  | acceptor ans =>
    simp only [step] at h
    split_ifs at h with hrun
    exact .acceptor (by simpa using hrun) (runServer_cases h)
  | client k ans =>
    simp only [step] at h
    split_ifs at h with hrun
    obtain ⟨t,ht,h⟩ := Option.bind_eq_some_iff.mp h
    obtain ⟨⟨g,pc⟩,hr,rfl⟩ := Option.map_eq_some_iff.mp h
    exact .client (by simpa using hrun) ht (socketThread_cases hr)
  | leave c =>
    cases h
    exact .leave

/-! ### Effects on the threads -/

theorem State.advance_self (s : State) (k : ℕ) (t : SocketThread) (g : Shared) (pc : PC) :
    (s.advance k t g pc).thread k = some { t with pc := pc } := by
  simp [State.advance]

theorem State.advance_other (s : State) {k j : ℕ} (t : SocketThread) (g : Shared) (pc : PC)
    (h : j ≠ k) : (s.advance k t g pc).thread j = s.thread j := by
  simp [State.advance,h]

@[simp] theorem State.advance_shared (s : State) (k : ℕ) (t : SocketThread) (g : Shared) (pc : PC) :
    (s.advance k t g pc).shared = g := rfl
@[simp] theorem State.advance_acceptor (s : State) (k : ℕ) (t : SocketThread) (g : Shared)
    (pc : PC) : (s.advance k t g pc).acceptor = s.acceptor := rfl
@[simp] theorem State.advance_id (s : State) (k : ℕ) (t : SocketThread) (g : Shared) (pc : PC) :
    (s.advance k t g pc).id = s.id := rfl
@[simp] theorem State.advance_accepted (s : State) (k : ℕ) (t : SocketThread) (g : Shared)
    (pc : PC) : (s.advance k t g pc).accepted = s.accepted := rfl
@[simp] theorem State.advance_started (s : State) (k : ℕ) (t : SocketThread) (g : Shared)
    (pc : PC) : (s.advance k t g pc).started = s.started := rfl
@[simp] theorem State.advance_gone (s : State) (k : ℕ) (t : SocketThread) (g : Shared)
    (pc : PC) : (s.advance k t g pc).gone = s.gone := rfl

/- Existence over threads, for a property of a thread that only the stepping
thread `k` may change. -/
theorem State.advance_thread (s : State) {k j : ℕ} {t u : SocketThread} {g : Shared} {pc : PC} :
    (s.advance k t g pc).thread j = some u ↔
      j = k ∧ u = { t with pc := pc } ∨ j ≠ k ∧ s.thread j = some u := by
  by_cases h : j = k
  · subst h
    simp [State.advance_self,eq_comm]
  · simp [State.advance_other _ _ _ _ h,h]

/- A thread of the state after a step of the accept thread was there before, or it
is the one just created. -/
theorem AcceptStep.thread_new {s s' : State} {ans : Answer} (h : AcceptStep s ans s') {k : ℕ}
    {t : SocketThread} (ht : s'.thread k = some t) :
    s.thread k = some t ∨ k = s.started ∧ s.acceptor = .newThread t.socket ∧ t.id = s.id ∧
      t.pc = .distribute .join .lock := by
  cases h with
  | @newThread fd stack hpc =>
    by_cases hk : k = s.started
    · subst hk
      obtain rfl := Option.some.inj (show some _ = some t by simpa using ht)
      exact Or.inr ⟨rfl,hpc,rfl,rfl⟩
    · exact Or.inl (by simpa [hk] using ht)
  | _ => exact Or.inl ht

/- What a step of others leaves of thread `k`: nothing new, or its creation. -/
theorem Step.thread_frame {s s' : State} {a : Action} (h : Step s a s') {k : ℕ}
    (hk : ∀ ans, a ≠ .client k ans) :
    s'.thread k = s.thread k ∨ k = s.started ∧
      ∃ t, s'.thread k = some t ∧ t.pc = .distribute .join .lock := by
  cases h with
  | acceptor _ ha =>
    cases ha with
    | newThread hpc =>
      by_cases he : k = s.started
      · subst he
        exact Or.inr ⟨rfl,_,Function.update_self ..,rfl⟩
      · exact Or.inl (by simp [he])
    | _ => exact Or.inl rfl
  | @client j t ans g pc _ _ _ =>
    have hj : k ≠ j := fun h => hk ans (h ▸ rfl)
    exact Or.inl (s.advance_other t g pc hj)
  | leave => exact Or.inl rfl

end TcpProjects.ChatServer
