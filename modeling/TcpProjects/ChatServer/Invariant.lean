import TcpProjects.ChatServer.Steps

/-! # Mutual exclusion and descriptor ownership

Two inductive invariants of every run: the thread recorded in `mutex` is the
one whose program point lies in a locked region, and the descriptor table maps
a number to connection `c` exactly while thread `c` (or the accept thread,
before it has started thread `c`) has not closed it. -/

namespace TcpProjects.ChatServer
open Transition

/-! ### Program points -/

def PC.holdsMut : PC → Bool
  | .distribute _ .lock => false
  | .distribute _ _ => true
  | .closeSocket .lock => false
  | .closeSocket _ => true
  | .eraseThread .lock => false
  | .eraseThread _ => true
  | _ => false

/- The thread has executed `close(socket)`. -/
def PC.closed : PC → Bool
  | .closeSocket .lock => false
  | .closeSocket .close => false
  | .closeSocket _ => true
  | .distribute .quit _ => true
  | .print .quit _ => true
  | .eraseThread _ => true
  | .finished => true
  | _ => false

/- Between `close(socket)` and the return of `closeSocket`. -/
def PC.erasing : PC → Bool
  | .closeSocket .isServerSocket => true
  | .closeSocket .eraseServer => true
  | .closeSocket .isClientSocket => true
  | .closeSocket .eraseClient => true
  | _ => false

def AcceptPC.holdsMut : AcceptPC → Bool
  | .newThread _ => true
  | .insertThread _ => true
  | .unlock => true
  | _ => false

/- The descriptor the accept thread has accepted and not yet handed to a thread. -/
def AcceptPC.pending : AcceptPC → Option Fd
  | .insert fd _ => some fd
  | .lock fd => some fd
  | .newThread fd => some fd
  | _ => none

theorem PC.erasing_holdsMut {pc : PC} (h : pc.erasing = true) : pc.holdsMut = true := by
  cases pc with
  | closeSocket l => cases l <;> first | rfl | cases h
  | _ => cases h

theorem afterRead_cases (r : Option Bytes) :
    afterRead r = .closeSocket .lock ∨ afterRead r = .sendEvent ∨ afterRead r = .read ∨
      ∃ m, afterRead r = .distribute (.chat m) .lock := by
  cases r with
  | none => exact Or.inl rfl
  | some chunk =>
    by_cases hc : chunk = []
    · exact Or.inl (by simp [afterRead,hc])
    · cases hr : receive chunk with
      | ping => exact Or.inr (Or.inl (by simp [afterRead,hc,hr]))
      | unknown m => exact Or.inr (Or.inr (Or.inl (by simp [afterRead,hc,hr])))
      | chat m => exact Or.inr (Or.inr (Or.inr ⟨m,by simp [afterRead,hc,hr]⟩))

/- A property of program points that does not tell the points after `read` from
`read` itself. -/
theorem afterRead_keeps {α : Type} (f : PC → α) (hclose : f (.closeSocket .lock) = f .read)
    (hevent : f .sendEvent = f .read) (hchat : ∀ m, f (.distribute (.chat m) .lock) = f .read)
    (r : Option Bytes) : f (afterRead r) = f .read := by
  rcases afterRead_cases r with h | h | h | ⟨m,h⟩
  · rw [h,hclose]
  · rw [h,hevent]
  · rw [h]
  · rw [h,hchat]

/-! ### Effects of a socketThread -/

section Effects
variable {k : ℕ} {t : SocketThread} {g g' : Shared} {ans : Answer} {pc : PC}

theorem SocketStep.mutex_effect (h : SocketStep k t g ans g' pc) :
    g.mutex = none ∧ g'.mutex = some (.client k) ∧ t.pc.holdsMut = false ∧ pc.holdsMut = true ∨
    g'.mutex = none ∧ t.pc.holdsMut = true ∧ pc.holdsMut = false ∨
    g'.mutex = g.mutex ∧ pc.holdsMut = t.pc.holdsMut := by
  cases h with
  | read hpc => exact Or.inr (Or.inr ⟨rfl,by rw [afterRead_keeps PC.holdsMut rfl rfl fun _ => rfl,hpc]⟩)
  | @distributeUnlock p hpc => cases p <;> simp [hpc,PC.holdsMut,Payload.after]
  | @printUnlock p hpc => cases p <;> simp [hpc,PC.holdsMut,Payload.afterPrint]
  | sendThrow hpc | eventThrow hpc | closeThrow hpc => exact Or.inr (Or.inr ⟨rfl,rfl⟩)
  | _ => simp [*,PC.holdsMut]

theorem SocketStep.table_effect (h : SocketStep k t g ans g' pc) :
    t.pc = .closeSocket .close ∧ pc = .closeSocket .isServerSocket ∧
      g'.table = Function.update g.table t.socket none ∨
    g'.table = g.table ∧ pc.closed = t.pc.closed := by
  cases h with
  | read hpc => exact Or.inr ⟨rfl,by rw [afterRead_keeps PC.closed rfl rfl fun _ => rfl,hpc]⟩
  | @distributeUnlock p hpc => cases p <;> simp [hpc,PC.closed,Payload.after]
  | @printUnlock p hpc => cases p <;> simp [hpc,PC.closed,Payload.afterPrint]
  | @distributeLock p hpc => cases p <;> simp [hpc,PC.closed]
  | @distributeBegin p hpc => cases p <;> simp [hpc,PC.closed]
  | @sendData p it n hpc => cases p <;> simp [hpc,PC.closed]
  | @distributeNext p it hpc => cases p <;> simp [hpc,PC.closed]
  | @printLock p hpc => cases p <;> simp [hpc,PC.closed]
  | sendThrow hpc | eventThrow hpc | closeThrow hpc => exact Or.inr ⟨rfl,rfl⟩
  | _ => simp [*,PC.closed]

end Effects

/-! ### Mutual exclusion -/

structure Locks (s : State) : Prop where
  client : ∀ k, s.shared.mutex = some (.client k) ↔ ∃ t, s.thread k = some t ∧ t.pc.holdsMut = true
  acceptor : s.shared.mutex = some .acceptor ↔ s.acceptor.holdsMut = true

theorem initial_locks (m : Fd) (addr : SockaddrIn) : Locks (initial m addr) := by
  constructor <;> simp [initial,AcceptPC.holdsMut]

theorem Locks.acceptStep {s s' : State} {ans : Answer} (hl : Locks s)
    (hfresh : s.thread s.started = none) (h : AcceptStep s ans s') : Locks s' := by
  obtain ⟨hc,ha⟩ := hl
  cases h with
  | refused hpc => exact ⟨hc,ha⟩
  | accepted hpc hfree | insert hpc | insertThread hpc =>
    exact ⟨hc,by simpa [hpc,AcceptPC.holdsMut] using ha⟩
  | lock hpc hm =>
    refine ⟨fun k => ?_,by simp [AcceptPC.holdsMut]⟩
    rw [← hc k]
    simp [hm]
  | unlock hpc =>
    have hme : s.shared.mutex = some .acceptor := ha.mpr (by rw [hpc]; rfl)
    refine ⟨fun k => ?_,by simp [AcceptPC.holdsMut]⟩
    rw [← hc k]
    simp [hme]
  | newThread hpc =>
    refine ⟨fun k => ?_,by simpa [hpc,AcceptPC.holdsMut] using ha⟩
    change s.shared.mutex = _ ↔ _
    rw [hc k]
    by_cases hk : k = s.started
    · subst hk
      simp [hfresh,PC.holdsMut]
    · simp [hk]

theorem Locks.socketStep {s : State} {k : ℕ} {t : SocketThread} {ans : Answer} {g : Shared} {pc : PC}
    (hl : Locks s) (ht : s.thread k = some t) (h : SocketStep k t s.shared ans g pc) :
    Locks (s.advance k t g pc) := by
  have hself : s.shared.mutex = some (.client k) ↔ t.pc.holdsMut = true := by
    rw [hl.client k]
    simp [ht]
  have hother (j : ℕ) (hj : j ≠ k) : (∃ u, (s.advance k t g pc).thread j = some u ∧
      u.pc.holdsMut = true) ↔ s.shared.mutex = some (.client j) := by
    rw [s.advance_other _ _ _ hj,hl.client j]
  have hacc := hl.acceptor
  rcases h.mutex_effect with ⟨hm,hm',_,hpc⟩ | ⟨hm',ht',hpc⟩ | ⟨hm',hpc⟩
  · refine ⟨fun j => ?_,?_⟩
    · by_cases hj : j = k
      · subst hj
        simp [hm',hpc,State.advance_self]
      · rw [hother j hj]
        simp [hm,hm',Ne.symm hj]
    · simp only [hm,reduceCtorEq,false_iff,Bool.not_eq_true] at hacc
      simp [hm',hacc]
  · have hme := hself.mpr ht'
    refine ⟨fun j => ?_,?_⟩
    · by_cases hj : j = k
      · subst hj
        simp [hm',hpc,State.advance_self]
      · rw [hother j hj]
        simp [hme,hm',Ne.symm hj]
    · simp only [hme,Option.some.injEq,reduceCtorEq,false_iff,Bool.not_eq_true] at hacc
      simp [hm',hacc]
  · refine ⟨fun j => ?_,?_⟩
    · by_cases hj : j = k
      · subst hj
        simp [hm',hpc,State.advance_self,hself]
      · rw [hother j hj]
        simp [hm']
    · simpa [hm'] using hacc

/-! ### Descriptor ownership -/

/-- Descriptor `fd` was accepted for connection `c` and its thread, or the accept
thread that will start it, has not closed it. -/
def State.Owns (s : State) (c : ℕ) (fd : Fd) : Prop :=
  (∃ t, s.thread c = some t ∧ t.pc.closed = false ∧ t.socket = fd) ∨
    c = s.started ∧ s.acceptor.pending = some fd

structure Ownership (m : Fd) (s : State) : Prop where
  threads : ∀ k, (s.thread k).isSome = true ↔ k < s.started
  counts : s.accepted = s.started + if s.acceptor.pending.isSome then 1 else 0
  listener : s.shared.table m = some .listener
  owner : ∀ fd c, s.shared.table fd = some (.connection c) ↔ s.Owns c fd
  sockets : ∀ k t, s.thread k = some t → t.socket ≠ m

namespace Ownership
variable {m : Fd} {s s' : State}

theorem thread_lt (ho : Ownership m s) {k : ℕ} {t : SocketThread} (h : s.thread k = some t) :
    k < s.started := (ho.threads k).mp (by rw [h]; rfl)

theorem fresh (ho : Ownership m s) : s.thread s.started = none := by
  have h := ho.threads s.started
  simpa using h

theorem table_of_open (ho : Ownership m s) {k : ℕ} {t : SocketThread} (h : s.thread k = some t)
    (hc : t.pc.closed = false) : s.shared.table t.socket = some (.connection k) :=
  (ho.owner _ _).mpr (Or.inl ⟨t,h,hc,rfl⟩)

/- A connection is open under one number only. -/
theorem fd_unique (ho : Ownership m s) {c : ℕ} {a b : Fd}
    (ha : s.shared.table a = some (.connection c)) (hb : s.shared.table b = some (.connection c)) :
    a = b := by
  rcases (ho.owner a c).mp ha with ⟨t,ht,_,rfl⟩ | ⟨hc,hp⟩
  · rcases (ho.owner b c).mp hb with ⟨u,hu,_,rfl⟩ | ⟨hc,_⟩
    · rw [ht] at hu
      exact congrArg SocketThread.socket (Option.some.inj hu)
    · exact absurd (ho.thread_lt ht) (by omega)
  · rcases (ho.owner b c).mp hb with ⟨u,hu,_,rfl⟩ | ⟨_,hq⟩
    · exact absurd (ho.thread_lt hu) (by omega)
    · exact Option.some.inj (hp.symm.trans hq)

theorem of_initial (m : Fd) (addr : SockaddrIn) : Ownership m (initial m addr) := by
  refine ⟨by simp [initial],by simp [initial,AcceptPC.pending],by simp [initial],?_,?_⟩
  · intro fd c
    simp only [initial,State.Owns,AcceptPC.pending]
    by_cases h : fd = m <;> simp [h]
  · intro k t h
    cases h

theorem acceptStep {ans : Answer} (ho : Ownership m s) (h : AcceptStep s ans s') :
    Ownership m s' := by
  have hcount := ho.counts
  have hown := ho.owner
  have hnew (k : ℕ) (t : SocketThread) (ht : s'.thread k = some t) := h.thread_new ht
  cases h with
  | refused hpc => exact ho
  | insert hpc | lock hpc hm | insertThread hpc | unlock hpc =>
    simp only [State.Owns,hpc,AcceptPC.pending] at hcount hown
    exact ⟨ho.threads,hcount,ho.listener,hown,ho.sockets⟩
  | @accepted fd addr hpc hfree =>
    simp only [State.Owns,hpc,AcceptPC.pending,reduceCtorEq,and_false,or_false] at hown
    simp only [hpc,AcceptPC.pending,Option.isSome_none,Bool.false_eq_true,if_false] at hcount
    have hm : m ≠ fd := fun he => by
      have hl := ho.listener
      rw [he,hfree] at hl
      cases hl
    refine ⟨ho.threads,by simp [AcceptPC.pending,hcount],by simpa [hm] using ho.listener,?_,
      ho.sockets⟩
    intro fd' c
    simp only [State.Owns,AcceptPC.pending]
    rw [← hown fd' c]
    by_cases hf : fd' = fd
    · subst hf
      simp [hfree,hcount,eq_comm]
    · simp [hf,Ne.symm hf]
  | @newThread fd stack hpc =>
    have hm : fd ≠ m := fun he => by
      have hl := (ho.owner fd s.started).mpr (Or.inr ⟨rfl,by rw [hpc]; rfl⟩)
      rw [he,ho.listener] at hl
      cases hl
    simp only [State.Owns,hpc,AcceptPC.pending,Option.some.injEq] at hown
    simp only [hpc,AcceptPC.pending,Option.isSome_some,if_true] at hcount
    refine ⟨?_,by simp [AcceptPC.pending,hcount],ho.listener,?_,?_⟩
    · intro k
      have hk := ho.threads k
      by_cases he : k = s.started
      · simp [he]
      · simp only [Function.update_of_ne he,hk]
        omega
    · intro fd' c
      rw [hown fd' c]
      simp only [State.Owns,AcceptPC.pending,reduceCtorEq,and_false,or_false]
      by_cases he : c = s.started
      · subst he
        simp [ho.fresh,PC.closed]
      · simp [he]
    · intro k t ht
      rcases hnew k t ht with ht | ⟨_,hfd,_,_⟩
      · exact ho.sockets k t ht
      · rw [hpc] at hfd
        cases hfd
        exact hm

theorem socketStep {k : ℕ} {t : SocketThread} {ans : Answer} {g : Shared} {pc : PC}
    (ho : Ownership m s) (ht : s.thread k = some t) (h : SocketStep k t s.shared ans g pc) :
    Ownership m (s.advance k t g pc) := by
  have hlt := ho.thread_lt ht
  have hthreads : ∀ j, ((s.advance k t g pc).thread j).isSome = true ↔ j < s.started := by
    intro j
    by_cases hj : j = k
    · subst hj
      simp [State.advance_self,hlt]
    · rw [s.advance_other _ _ _ hj]
      exact ho.threads j
  have hsockets : ∀ j u, (s.advance k t g pc).thread j = some u → u.socket ≠ m := by
    intro j u hu
    rcases s.advance_thread.mp hu with ⟨rfl,rfl⟩ | ⟨_,hu⟩
    · exact ho.sockets j t ht
    · exact ho.sockets j u hu
  -- What thread `j` owns can only change for `j = k`.
  have hother (c : ℕ) (fd : Fd) (hc : c ≠ k) :
      (s.advance k t g pc).Owns c fd ↔ s.Owns c fd := by
    simp only [State.Owns,s.advance_other _ _ _ hc,State.advance_started,State.advance_acceptor]
  have hself (fd : Fd) : (s.advance k t g pc).Owns k fd ↔ pc.closed = false ∧ t.socket = fd := by
    simp [State.Owns,State.advance_self,Nat.ne_of_lt hlt]
  rcases h.table_effect with ⟨hpc,rfl,htab⟩ | ⟨htab,hpc⟩
  · have hopen := ho.table_of_open ht (by rw [hpc]; rfl)
    refine ⟨hthreads,ho.counts,?_,?_,hsockets⟩
    · rw [State.advance_shared,htab,Function.update_of_ne (ho.sockets k t ht).symm]
      exact ho.listener
    · intro fd c
      rw [State.advance_shared,htab]
      by_cases hc : c = k
      · subst hc
        rw [hself]
        by_cases hf : fd = t.socket
        · simp [hf,PC.closed]
        · rw [Function.update_of_ne hf]
          simp only [PC.closed,Bool.true_eq_false,false_and,iff_false]
          exact fun hx => hf (ho.fd_unique hx hopen)
      · rw [hother c fd hc,← ho.owner fd c]
        by_cases hf : fd = t.socket
        · subst hf
          simp [hopen,Ne.symm hc]
        · rw [Function.update_of_ne hf]
  · refine ⟨hthreads,ho.counts,?_,?_,hsockets⟩
    · rw [State.advance_shared,htab]
      exact ho.listener
    · intro fd c
      rw [State.advance_shared,htab,ho.owner fd c]
      by_cases hc : c = k
      · subst hc
        rw [hself,hpc]
        simp [State.Owns,ht,Nat.ne_of_lt hlt]
      · rw [hother c fd hc]

end Ownership

/-! ### Every run -/

structure Safe (m : Fd) (s : State) : Prop where
  locks : Locks s
  ownership : Ownership m s

theorem Safe.step {m : Fd} {s s' : State} {a : Action} (hs : Safe m s)
    (h : step s a = some s') : Safe m s' := by
  cases step_cases h with
  | acceptor _ ha =>
    exact ⟨hs.locks.acceptStep hs.ownership.fresh ha,hs.ownership.acceptStep ha⟩
  | client _ ht hc => exact ⟨hs.locks.socketStep ht hc,hs.ownership.socketStep ht hc⟩
  | leave =>
    exact ⟨⟨hs.locks.client,hs.locks.acceptor⟩,⟨hs.ownership.threads,hs.ownership.counts,
      hs.ownership.listener,hs.ownership.owner,hs.ownership.sockets⟩⟩

theorem run_safe {m : Fd} {addr : SockaddrIn} {tr : List (State × Action)} {s : State}
    (r : Run step (initial m addr) tr s) : Safe m s :=
  r.invariant ⟨initial_locks m addr,Ownership.of_initial m addr⟩ fun _ _ _ hs h => hs.step h

/- Two threads are never in locked regions at once. -/
theorem Safe.exclusive {m : Fd} {s : State} (hs : Safe m s) {j k : ℕ} {t u : SocketThread}
    (ht : s.thread j = some t) (hu : s.thread k = some u) (hj : t.pc.holdsMut = true)
    (hk : u.pc.holdsMut = true) : j = k := by
  have h1 := (hs.locks.client j).mpr ⟨t,ht,hj⟩
  have h2 := (hs.locks.client k).mpr ⟨u,hu,hk⟩
  rw [h1] at h2
  simpa using h2

end TcpProjects.ChatServer
