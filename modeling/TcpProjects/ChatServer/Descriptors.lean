import TcpProjects.ChatServer.Invariant

/-! # Who uses which descriptor

The keys of `clientSockets` are open descriptors, apart from the one that the
thread inside `closeSocket` is about to erase. With mutual exclusion this makes
every descriptor that `distributeData` sends to an open connection; with
ownership it makes every descriptor that a `socketThread` uses its own. -/

namespace TcpProjects.ChatServer
open Transition

/- The key under the iterator of `distributeData`. -/
def PC.iterator : PC → Option Fd
  | .distribute _ (.loop it) => it
  | .distribute _ (.next it) => some it
  | _ => none

theorem PC.iterator_holdsMut {pc : PC} {it : Fd} (h : pc.iterator = some it) :
    pc.holdsMut = true := by
  cases pc with
  | distribute p l => cases l <;> first | rfl | cases h
  | _ => cases h

section Effects
variable {k : ℕ} {t : SocketThread} {g g' : Shared} {ans : Answer} {pc : PC}

theorem SocketStep.clientSockets_effect (h : SocketStep k t g ans g' pc) :
    t.pc = .closeSocket .eraseClient ∧ pc = .closeSocket .unlock ∧
      g'.clientSockets = g.clientSockets.erase t.socket ∨
    g'.clientSockets = g.clientSockets := by
  cases h with
  | eraseClient hpc => exact Or.inl ⟨hpc,rfl,rfl⟩
  | _ => exact Or.inr rfl

/- An iterator points to a key when it is made, and afterwards moves to a key. -/
theorem SocketStep.iterator_effect (h : SocketStep k t g ans g' pc) {it : Fd}
    (hit : pc.iterator = some it) : t.pc.iterator = some it ∨ it ∈ g.clientSockets := by
  cases h with
  | read hpc =>
    rw [afterRead_keeps PC.iterator rfl rfl fun _ => rfl] at hit
    cases hit
  | distributeBegin hpc => exact Or.inr (g.clientSockets.mem_of_begin hit)
  | distributeNext hpc => exact Or.inr (g.clientSockets.mem_of_next hit).1
  | sendData hpc => exact Or.inl (hpc ▸ hit)
  | sendThrow hpc | eventThrow hpc | closeThrow hpc => exact Or.inl hit
  | @distributeUnlock p hpc => cases p <;> cases hit
  | @printUnlock p hpc => cases p <;> cases hit
  | _ => cases hit

theorem SocketStep.erasing_effect (h : SocketStep k t g ans g' pc) :
    pc.erasing = t.pc.erasing ∨
    t.pc = .closeSocket .close ∧ pc = .closeSocket .isServerSocket ∨
    t.pc = .closeSocket .eraseServer ∨
    t.pc = .closeSocket .isClientSocket ∧ t.socket ∉ g.clientSockets ∧ pc.erasing = false ∨
    t.pc = .closeSocket .eraseClient ∧ g'.clientSockets = g.clientSockets.erase t.socket := by
  cases h with
  | read hpc => exact Or.inl (by rw [afterRead_keeps PC.erasing rfl rfl fun _ => rfl,hpc])
  | @distributeUnlock p hpc => cases p <;> simp [hpc,PC.erasing,Payload.after]
  | @printUnlock p hpc => cases p <;> simp [hpc,PC.erasing,Payload.afterPrint]
  | sendThrow hpc | eventThrow hpc | closeThrow hpc => exact Or.inl rfl
  | notClientSocket hpc hin => simp [hpc,hin,PC.erasing]
  | _ => simp [*,PC.erasing]

end Effects

/-! ### The keys of the two maps -/

structure Keys (m : Fd) (s : State) : Prop where
  servers : ∀ fd, fd ∈ s.shared.serverSockets ↔ fd = m
  clientErase : ∀ k t, s.thread k = some t → t.pc ≠ .closeSocket .eraseServer
  known : ∀ fd ∈ s.shared.clientSockets, (∃ c, s.shared.table fd = some (.connection c)) ∨
    ∃ k t, s.thread k = some t ∧ t.pc.erasing = true ∧ t.socket = fd
  iterator : ∀ k t it, s.thread k = some t → t.pc.iterator = some it → it ∈ s.shared.clientSockets

namespace Keys
variable {m : Fd} {s s' : State}

theorem of_initial (m : Fd) (addr : SockaddrIn) : Keys m (initial m addr) := by
  constructor <;> simp [initial]

theorem acceptStep {ans : Answer} (hs : Safe m s) (hk : Keys m s) (h : AcceptStep s ans s') :
    Keys m s' := by
  have hnew (k : ℕ) (t : SocketThread) (ht : s'.thread k = some t) := h.thread_new ht
  cases h with
  | refused hpc => exact hk
  | lock hpc hm | insertThread hpc | unlock hpc =>
    exact ⟨hk.servers,hk.clientErase,hk.known,hk.iterator⟩
  | @accepted fd addr hpc hfree =>
    refine ⟨hk.servers,hk.clientErase,fun q hq => ?_,hk.iterator⟩
    by_cases hf : q = fd
    · exact Or.inl ⟨s.accepted,by simp [hf]⟩
    · simpa [hf] using hk.known q hq
  | @insert fd addr hpc =>
    refine ⟨hk.servers,hk.clientErase,fun q hq => ?_,fun k t it ht hi => ?_⟩
    · rcases (OrderedMap.mem_insert ..).mp hq with rfl | hq
      · exact Or.inl ⟨_,(hs.ownership.owner _ _).mpr (Or.inr ⟨rfl,by rw [hpc]; rfl⟩)⟩
      · exact hk.known q hq
    · exact (OrderedMap.mem_insert ..).mpr (Or.inr (hk.iterator k t it ht hi))
  | @newThread fd stack hpc =>
    refine ⟨hk.servers,fun k t ht => ?_,fun q hq => ?_,fun k t it ht hi => ?_⟩
    · rcases hnew k t ht with ht | ⟨_,_,_,hpc⟩
      · exact hk.clientErase k t ht
      · rw [hpc]
        exact fun h => by cases h
    · refine (hk.known q hq).imp id ?_
      intro hx
      obtain ⟨k,t,ht,he,hf⟩ := hx
      exact ⟨k,t,by simpa [Nat.ne_of_lt (hs.ownership.thread_lt ht)] using ht,he,hf⟩
    · rcases hnew k t ht with ht | ⟨_,_,_,hpc⟩
      · exact hk.iterator k t it ht hi
      · rw [hpc] at hi
        cases hi

/- The thread that steps keeps the promise for the key it is erasing, or gives it up. -/
theorem socketStep_known {k : ℕ} {t : SocketThread} {ans : Answer} {g : Shared} {pc : PC}
    (hk : Keys m s) (ht : s.thread k = some t)
    (h : SocketStep k t s.shared ans g pc) {fd : Fd} (hfd : fd ∈ g.clientSockets) :
    (∃ c, g.table fd = some (.connection c)) ∨
      ∃ j u, (s.advance k t g pc).thread j = some u ∧ u.pc.erasing = true ∧ u.socket = fd := by
  have hin : fd ∈ s.shared.clientSockets := by
    rcases h.clientSockets_effect with ⟨_,_,he⟩ | he
    · exact ((OrderedMap.mem_erase ..).mp (he ▸ hfd)).2
    · exact he ▸ hfd
  rcases hk.known fd hin with ⟨c,hc⟩ | ⟨j,u,hu,he,hf⟩
  · rcases h.table_effect with ⟨_,rfl,htab⟩ | ⟨htab,_⟩
    · by_cases hf : fd = t.socket
      · exact Or.inr ⟨k,_,State.advance_self ..,rfl,hf.symm⟩
      · exact Or.inl ⟨c,by rw [htab,Function.update_of_ne hf]; exact hc⟩
    · exact Or.inl ⟨c,by rw [htab]; exact hc⟩
  · by_cases hj : j = k
    · subst hj
      obtain rfl := Option.some.inj (ht.symm.trans hu)
      rcases h.erasing_effect with hsame | ⟨hpc,_⟩ | hpc | ⟨hpc,hno,_⟩ | ⟨hpc,hg⟩
      · exact Or.inr ⟨j,_,State.advance_self ..,hsame.trans he,hf⟩
      · rw [hpc] at he; cases he
      · exact absurd hpc (hk.clientErase j t ht)
      · exact absurd (hf ▸ hin) hno
      · exact absurd hf.symm ((OrderedMap.mem_erase ..).mp (hg ▸ hfd)).1
    · exact Or.inr ⟨j,u,by rw [s.advance_other _ _ _ hj]; exact hu,he,hf⟩

theorem socketStep {k : ℕ} {t : SocketThread} {ans : Answer} {g : Shared} {pc : PC}
    (hs : Safe m s) (hk : Keys m s) (ht : s.thread k = some t)
    (h : SocketStep k t s.shared ans g pc) : Keys m (s.advance k t g pc) := by
  refine ⟨?_,fun j u hu => ?_,fun fd hfd => socketStep_known hk ht h hfd,
    fun j u it hu hi => ?_⟩
  · cases h with
    | eraseServer hpc => exact absurd hpc (hk.clientErase k t ht)
    | _ => exact hk.servers
  · rcases s.advance_thread.mp hu with ⟨rfl,rfl⟩ | ⟨_,hu⟩
    · have hne := hk.clientErase j t ht
      cases h with
      | isServerSocket hpc hin => exact absurd ((hk.servers _).mp hin) (hs.ownership.sockets j t ht)
      | @read r hpc =>
        rcases afterRead_cases r with h | h | h | ⟨m,h⟩ <;> rw [h] <;> exact fun h => by cases h
      | @distributeUnlock p hpc => cases p <;> exact fun h => by cases h
      | @printUnlock p hpc => cases p <;> exact fun h => by cases h
      | sendThrow hpc | eventThrow hpc | closeThrow hpc => exact hne
      | _ => exact fun h => by cases h
    · exact hk.clientErase j u hu
  · rw [State.advance_shared]
    have hin : it ∈ s.shared.clientSockets := by
      rcases s.advance_thread.mp hu with ⟨rfl,rfl⟩ | ⟨_,hu⟩
      · rcases h.iterator_effect hi with hold | hnew
        · exact hk.iterator j t it ht hold
        · exact hnew
      · exact hk.iterator j u it hu hi
    rcases h.clientSockets_effect with ⟨hpc,hpc',he⟩ | he
    · -- A thread that erases holds `mutex`, so no iterator is alive.
      rcases s.advance_thread.mp hu with ⟨rfl,rfl⟩ | ⟨hj,hu⟩
      · rw [hpc'] at hi
        cases hi
      · exact absurd (hs.exclusive hu ht (PC.iterator_holdsMut hi) (by rw [hpc]; rfl)) hj
    · rw [he]
      exact hin

end Keys

theorem Keys.step {m : Fd} {s s' : State} {a : Action} (hk : Keys m s) (hs : Safe m s)
    (h : ChatServer.step s a = some s') : Keys m s' := by
  cases step_cases h with
  | acceptor _ ha => exact hk.acceptStep hs ha
  | client _ ht hc => exact hk.socketStep hs ht hc
  | leave => exact ⟨hk.servers,hk.clientErase,hk.known,hk.iterator⟩

theorem run_keys {m : Fd} {addr : SockaddrIn} {tr : List (State × Action)} {s : State}
    (r : Run step (initial m addr) tr s) : Safe m s ∧ Keys m s :=
  r.invariant (I := fun s => Safe m s ∧ Keys m s)
    ⟨run_safe Run.start,Keys.of_initial m addr⟩ fun _ _ _ hi h => ⟨hi.1.step h,hi.2.step hi.1 h⟩

/-! ### Uses of descriptors along a run -/

def Shared.connectionAt (g : Shared) (fd : Fd) : Option ℕ :=
  match g.table fd with
  | some (.connection c) => some c
  | _ => none

/- The connection a step closes: the one that the number denotes at that moment. -/
def closedConnection (x : State × Action) : Option ℕ :=
  match x.2 with
  | .client k (.closed true) => (x.1.thread k).bind fun t => x.1.shared.connectionAt t.socket
  | _ => none

/- The descriptor `distributeData` sends to. -/
def sendTarget (x : State × Action) : Option Fd :=
  match x.2 with
  | .client k (.sent _) => (x.1.thread k).bind fun t =>
    match t.pc with
    | .distribute _ (.loop it) => it
    | _ => none
  | _ => none

/- The thread and the number with which it reads, answers a ping or closes. -/
def ownUse (x : State × Action) : Option (ℕ × Fd) :=
  match x.2 with
  | .client k (.read _) => (x.1.thread k).map fun t => (k,t.socket)
  | .client k (.closed _) => (x.1.thread k).map fun t => (k,t.socket)
  | .client k (.sent _) => (x.1.thread k).bind fun t =>
    if t.pc = .sendEvent then some (k,t.socket) else none
  | _ => none

theorem Shared.connectionAt_eq_some {g : Shared} {fd : Fd} {c : ℕ} :
    g.connectionAt fd = some c ↔ g.table fd = some (.connection c) := by
  unfold connectionAt
  split <;> simp_all

/- A step closes its own connection or none, and `closed` records which. -/
theorem closed_effect {m : Fd} {s s' : State} {a : Action} (hs : Safe m s) (h : Step s a s') :
    (∃ k, closedConnection (s,a) = some k ∧ (∃ t, s.thread k = some t ∧ t.pc.closed = false) ∧
      (∃ t, s'.thread k = some t ∧ t.pc.closed = true) ∧ ∀ j ≠ k, s'.thread j = s.thread j) ∨
    closedConnection (s,a) = none ∧ ∀ c, (∃ t, s'.thread c = some t ∧ t.pc.closed = true) ↔
      ∃ t, s.thread c = some t ∧ t.pc.closed = true := by
  cases h with
  | acceptor _ ha =>
    refine Or.inr ⟨rfl,fun c => ?_⟩
    cases ha with
    | newThread hpc =>
      by_cases hc : c = s.started
      · subst hc
        simp [hs.ownership.fresh,PC.closed]
      · simp [hc]
    | _ => exact Iff.rfl
  | leave => exact Or.inr ⟨rfl,fun c => Iff.rfl⟩
  | @client k t ans g pc _ ht hc =>
    rcases hc.table_effect with ⟨hpc,hpc',_⟩ | ⟨_,hpc⟩
    · have hopen := hs.ownership.table_of_open ht (by rw [hpc]; rfl)
      cases hc with
      | close _ =>
        refine Or.inl ⟨k,?_,⟨t,ht,by rw [hpc]; rfl⟩,⟨_,s.advance_self ..,rfl⟩,
          fun j hj => s.advance_other _ _ _ hj⟩
        simp only [closedConnection,ht,Option.bind_some]
        exact Shared.connectionAt_eq_some.mpr hopen
      | _ => simp_all
    · refine Or.inr ⟨?_,fun c => ?_⟩
      · cases hc with
        | close hcl => rw [hcl] at hpc; cases hpc
        | _ => rfl
      · by_cases hck : c = k
        · subst hck
          simp [State.advance_self,ht,hpc]
        · rw [s.advance_other _ _ _ hck]

/- The connections closed so far, each once, are those whose thread is past its close. -/
theorem closed_history {m : Fd} {addr : SockaddrIn} {tr : List (State × Action)} {s : State}
    (r : Run step (initial m addr) tr s) :
    (tr.filterMap closedConnection).Nodup ∧ ∀ c, c ∈ tr.filterMap closedConnection ↔
      ∃ t, s.thread c = some t ∧ t.pc.closed = true := by
  induction r with
  | start => exact ⟨List.nodup_nil,by simp [initial]⟩
  | @next tr s a s' r h ih =>
    obtain ⟨hnodup,hmem⟩ := ih
    rw [List.filterMap_append]
    rcases closed_effect (run_safe r) (step_cases h) with ⟨k,hk,⟨t,ht,hopen⟩,hclosed,hother⟩ |
        ⟨hnone,hsame⟩
    · have hnew : k ∉ tr.filterMap closedConnection := by
        rw [hmem k]
        intro hx
        obtain ⟨u,hu,hc⟩ := hx
        rw [ht] at hu
        cases hu
        rw [hopen] at hc
        cases hc
      rw [List.filterMap_cons_some hk,List.filterMap_nil]
      refine ⟨List.nodup_append.mpr ⟨hnodup,by simp,?_⟩,fun c => ?_⟩
      · intro a ha b hb hx
        subst hx
        exact hnew (List.mem_singleton.mp hb ▸ ha)
      · rw [List.mem_append,List.mem_singleton,hmem c]
        by_cases hc : c = k
        · subst hc
          simpa using hclosed
        · simp [hc,hother c hc]
    · rw [List.filterMap_cons_none hnone,List.filterMap_nil,List.append_nil]
      exact ⟨hnodup,fun c => (hmem c).trans (hsame c).symm⟩

theorem sendTarget_open {m : Fd} {s s' : State} {a : Action} {fd : Fd} (hs : Safe m s)
    (hk : Keys m s) (h : Step s a s') (hf : sendTarget (s,a) = some fd) :
    ∃ c, s.shared.table fd = some (.connection c) := by
  cases h with
  | acceptor _ _ | leave => cases hf
  | @client k t ans g pc _ ht hc =>
    cases ans with
    | sent r =>
      simp only [sendTarget,ht,Option.bind_some] at hf
      have hit : t.pc.iterator = some fd := by
        revert hf
        split <;> intro hf <;> simp_all [PC.iterator]
      rcases hk.known fd (hk.iterator k t fd ht hit) with h | ⟨j,u,hu,he,_⟩
      · exact h
      · -- The thread inside `closeSocket` holds `mutex`, and so does the one that sends.
        have hj := hs.exclusive hu ht (PC.erasing_holdsMut he) (PC.iterator_holdsMut hit)
        subst hj
        obtain rfl := Option.some.inj (ht.symm.trans hu)
        cases hpc : t.pc with
        | closeSocket l => rw [hpc] at hit; cases hit
        | _ => rw [hpc] at he; cases he
    | _ => cases hf

theorem ownUse_own {m : Fd} {s s' : State} {a : Action} {k : ℕ} {fd : Fd} (hs : Safe m s)
    (h : Step s a s') (hf : ownUse (s,a) = some (k,fd)) :
    s.shared.table fd = some (.connection k) := by
  cases h with
  | acceptor _ _ | leave => cases hf
  | @client j t ans g pc _ ht hc =>
    have key (he : (j,t.socket) = (k,fd)) (hopen : t.pc.closed = false) :
        s.shared.table fd = some (.connection k) := by
      cases he
      exact hs.ownership.table_of_open ht hopen
    cases hc with
    | read hpc | close hpc | closeThrow hpc =>
      simp only [ownUse,ht,Option.map_some,Option.some.injEq] at hf
      exact key hf (by rw [hpc]; rfl)
    | sendEvent hpc | eventThrow hpc =>
      simp only [ownUse,ht,Option.bind_some,hpc,if_true,Option.some.injEq] at hf
      exact key hf (by rw [hpc]; rfl)
    | sendData hpc | sendThrow hpc => simp [ownUse,ht,hpc] at hf
    | _ => cases hf

/-- Ownership of descriptors in every run: the sends of `distributeData` go to
open connections that were accepted and not closed, a thread is started for the
connection just accepted and afterwards reads, answers and closes only that
connection, and no connection is closed twice. -/
theorem descriptor_ownership {m : Fd} {addr : SockaddrIn} {tr : List (State × Action)} {s : State}
    (r : Run step (initial m addr) tr s) :
    (∀ i x fd, tr[i]? = some x → sendTarget x = some fd →
      ∃ c, x.1.shared.table fd = some (.connection c) ∧ c < x.1.accepted ∧
        c ∉ (tr.take i).filterMap closedConnection) ∧
    (∀ x ∈ tr, ∀ stack fd, x.2 = .acceptor (.started stack) → x.1.acceptor = .newThread fd →
      x.1.shared.table fd = some (.connection x.1.started)) ∧
    (∀ x ∈ tr, ∀ k fd, ownUse x = some (k,fd) → x.1.shared.table fd = some (.connection k)) ∧
    (tr.filterMap closedConnection).Nodup := by
  refine ⟨?_,?_,?_,(closed_history r).1⟩
  · intro i hx fd hi hf
    obtain ⟨u,a⟩ := hx
    have hstep := step_cases (r.step_at hi)
    obtain ⟨hl,_⟩ := List.getElem?_eq_some_iff.mp hi
    have hpre := r.prefix_at i (Nat.le_of_lt hl)
    rw [stateAt_get hi] at hpre
    obtain ⟨hs,hk⟩ := run_keys hpre
    obtain ⟨c,hc⟩ := sendTarget_open hs hk hstep hf
    have hown := (hs.ownership.owner fd c).mp hc
    have hcount := hs.ownership.counts
    refine ⟨c,hc,?_,?_⟩
    · rcases hown with ⟨t,ht,_⟩ | ⟨hc,hp⟩
      · have hlt := hs.ownership.thread_lt ht
        change c < u.accepted
        omega
      · simp only [hp,Option.isSome_some,if_true] at hcount
        change c < u.accepted
        omega
    · rw [(closed_history hpre).2 c]
      intro hx
      obtain ⟨t,ht,hclosed⟩ := hx
      rcases hown with ⟨u,hu,hopen,_⟩ | ⟨hc,_⟩
      · rw [ht] at hu
        cases hu
        rw [hclosed] at hopen
        cases hopen
      · exact absurd (hs.ownership.thread_lt ht) (by omega)
  · intro x hx stack fd _ hpc
    exact ((r.invariant_mem (fun _ _ => run_safe) hx).ownership.owner fd _).mpr
      (Or.inr ⟨rfl,by rw [hpc]; rfl⟩)
  · intro x hx k fd hf
    obtain ⟨i,hi⟩ := List.mem_iff_getElem?.mp hx
    exact ownUse_own (r.invariant_mem (fun _ _ => run_safe) hx) (step_cases (r.step_at hi)) hf

theorem descriptor_ownership_reuse :
    let tr := (runOf step (initial 3 ⟨0,0⟩) reuseSchedule).1
    tr.filterMap sendTarget = [4,4] ∧ tr.filterMap closedConnection = [0] ∧
      ∀ x ∈ tr, ∀ k fd, ownUse x = some (k,fd) → x.1.shared.table fd = some (.connection k) :=
  ⟨by decide +kernel,by decide +kernel,
    (descriptor_ownership (runOf_run _ _ _ (by decide +kernel))).2.2.1⟩

end TcpProjects.ChatServer
