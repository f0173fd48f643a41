import Mathlib.Algebra.BigOperators.Group.Finset.Basic
import Mathlib.Algebra.Order.BigOperators.Group.Finset
import TcpProjects.ChatServer.Deadlock
import TcpProjects.ChatServer.Descriptors

/-! # The server comes to rest

Once no connection is accepted and no `read` returns, every thread has only a
bounded number of steps left: the iterator of `distributeData` moves to larger
keys, and at most one key is inserted behind it, the one that the accept thread
still holds. What is left is counted exactly for each program point. -/

namespace TcpProjects.ChatServer
open Transition Locking

/-! ### Steps that ask nothing of the clients -/

/- The answers that bring in nothing new: no data, no connection. -/
def Answer.quiet : Answer → Bool
  | .tick => true
  | .started _ => true
  | .sent _ => true
  | .closed _ => true
  | .accepted _ _ => false
  | .refused => false
  | .read _ => false

def Action.quiet : Action → Bool
  | .acceptor ans => ans.quiet
  | .client _ ans => ans.quiet
  | .leave _ => false

/- The call that was asked succeeds. -/
def Answer.succeeds : Answer → Bool
  | .sent none => false
  | .closed false => false
  | _ => true

def Action.succeeds : Action → Bool
  | .acceptor ans => ans.succeeds
  | .client _ ans => ans.succeeds
  | .leave _ => true

/-! ### The steps that are left -/

/- The keys of the map, and those behind `fd`, when `n` more are to be inserted. -/
def sizeWith (sockets : OrderedMap Fd SockaddrIn) (n : ℕ) : ℕ := sockets.size+n
def aheadWith (sockets : OrderedMap Fd SockaddrIn) (n : ℕ) (fd : Fd) : ℕ := sockets.ahead fd+n

def DistributeAt.left (sockets : OrderedMap Fd SockaddrIn) (n : ℕ) : DistributeAt → ℕ
  | .lock => 2*sizeWith sockets n+3
  | .begin => 2*sizeWith sockets n+2
  | .loop none => 1
  | .loop (some it) => 2*aheadWith sockets n it+3
  | .next it => 2*aheadWith sockets n it+2

/- The steps behind the print, and behind the call of `distributeData`. -/
def Payload.leftPrinted : Payload → ℕ
  | .join => 0
  | .quit => 3
  | .chat _ => 0

def Payload.leftSent : Payload → ℕ
  | .join => 2
  | .quit => 5
  | .chat _ => 0

def CloseAt.left : CloseAt → ℕ
  | .lock => 6
  | .close => 5
  | .isServerSocket => 4
  | .eraseServer => 2
  | .isClientSocket => 3
  | .eraseClient => 2
  | .unlock => 1

def EraseAt.left : EraseAt → ℕ
  | .lock => 3
  | .erase => 2
  | .unlock => 1

def PC.left (sockets : OrderedMap Fd SockaddrIn) (n : ℕ) : PC → ℕ
  | .distribute p l => l.left sockets n+p.leftSent
  | .print p .lock => 2+p.leftPrinted
  | .print p .unlock => 1+p.leftPrinted
  | .read => 0
  | .sendEvent => 1
  | .closeSocket l => l.left+(2*sizeWith sockets n+8)
  | .eraseThread l => l.left
  | .finished => 0

/- The keys that the accept thread is about to insert. -/
def AcceptPC.inserting : AcceptPC → ℕ
  | .insert _ _ => 1
  | _ => 0

/- With the steps of the thread that it is about to start. -/
def AcceptPC.left (sockets : OrderedMap Fd SockaddrIn) (n : ℕ) : AcceptPC → ℕ
  | .accept => 0
  | .insert _ _ => 2*sizeWith sockets n+10
  | .lock _ => 2*sizeWith sockets n+9
  | .newThread _ => 2*sizeWith sockets n+8
  | .insertThread _ => 2
  | .unlock => 1

/- The steps that thread `k` has left. -/
def State.threadLeft (s : State) (k : ℕ) : ℕ :=
  (s.thread k).elim 0 fun t => t.pc.left s.shared.clientSockets s.acceptor.inserting

/-- The quiet steps that are left: none once an exception has ended the process. -/
def State.left (s : State) : ℕ :=
  if s.shared.terminated then 0
  else s.acceptor.left s.shared.clientSockets s.acceptor.inserting +
    ∑ k ∈ Finset.range s.started, s.threadLeft k

/-! ### The keys only shrink -/

/- A step leaves no more keys, counted with those to be inserted. -/
structure Fewer (sockets' : OrderedMap Fd SockaddrIn) (n' : ℕ) (sockets : OrderedMap Fd SockaddrIn)
    (n : ℕ) : Prop where
  size : sizeWith sockets' n' ≤ sizeWith sockets n
  ahead : ∀ fd, aheadWith sockets' n' fd ≤ aheadWith sockets n fd

section Fewer
variable {sockets sockets' : OrderedMap Fd SockaddrIn} {n n' : ℕ}

theorem Fewer.refl (sockets : OrderedMap Fd SockaddrIn) (n : ℕ) : Fewer sockets n sockets n :=
  ⟨Nat.le_refl _,fun _ => Nat.le_refl _⟩

theorem Fewer.erase (sockets : OrderedMap Fd SockaddrIn) (n : ℕ) (fd : Fd) :
    Fewer (sockets.erase fd) n sockets n :=
  ⟨Nat.add_le_add_right (sockets.size_erase_le fd) n,
    fun q => Nat.add_le_add_right (sockets.ahead_erase_le fd q) n⟩

theorem Fewer.insert (sockets : OrderedMap Fd SockaddrIn) (fd : Fd) (addr : SockaddrIn) :
    Fewer (sockets.insert fd addr) 0 sockets 1 :=
  ⟨sockets.size_insert_le fd addr,fun q => sockets.ahead_insert_le fd q addr⟩

theorem Fewer.distribute (h : Fewer sockets' n' sockets n) (l : DistributeAt) :
    l.left sockets' n' ≤ l.left sockets n := by
  have hsize := h.size
  cases l with
  | lock | begin =>
    simp only [DistributeAt.left]
    omega
  | loop it =>
    cases it with
    | none => exact Nat.le_refl _
    | some it =>
      have hit := h.ahead it
      simp only [DistributeAt.left]
      omega
  | next it =>
    have hit := h.ahead it
    simp only [DistributeAt.left]
    omega

theorem Fewer.pc (h : Fewer sockets' n' sockets n) (pc : PC) :
    pc.left sockets' n' ≤ pc.left sockets n := by
  have hsize := h.size
  cases pc with
  | distribute p l =>
    have hl := h.distribute l
    simp only [PC.left]
    omega
  | print p l => cases l <;> exact Nat.le_refl _
  | closeSocket l =>
    simp only [PC.left]
    omega
  | _ => exact Nat.le_refl _

theorem Fewer.acceptor (h : Fewer sockets' n' sockets n) (pc : AcceptPC) :
    pc.left sockets' n' ≤ pc.left sockets n := by
  have hsize := h.size
  cases pc <;> simp only [AcceptPC.left] <;> omega

end Fewer

/-! ### Each quiet step is one less -/

section Thread
variable {k : ℕ} {t : SocketThread} {g g' : Shared} {ans : Answer} {pc : PC}

theorem SocketStep.fewer (h : SocketStep k t g ans g' pc) (n : ℕ) :
    Fewer g'.clientSockets n g.clientSockets n := by
  rcases h.clientSockets_effect with ⟨_,_,he⟩ | he
  · rw [he]
    exact Fewer.erase _ n _
  · rw [he]
    exact Fewer.refl _ n

/- An exception leaves the thread where it is, with a step to go. -/
theorem SocketStep.left_pos (h : SocketStep k t g ans g' pc) (hq : ans.quiet = true) (n : ℕ) :
    0 < t.pc.left g.clientSockets n := by
  cases h with
  | read hpc => cases hq
  | @distributeUnlock p hpc | @distributeLock p hpc | @distributeBegin p hpc | @sendData p it m hpc
  | @sendThrow p it hpc | @distributeNext p it hpc =>
    rw [hpc]
    simp only [PC.left,DistributeAt.left]
    omega
  | closeLock hpc | close hpc | closeThrow hpc | isServerSocket hpc | notServerSocket hpc
  | eraseServer hpc | isClientSocket hpc | notClientSocket hpc | eraseClient hpc | closeUnlock hpc =>
    rw [hpc]
    simp only [PC.left,CloseAt.left]
    omega
  | printLock hpc | printUnlock hpc =>
    rw [hpc]
    simp only [PC.left]
    omega
  | eraseLock hpc | eraseThread hpc | eraseUnlock hpc =>
    rw [hpc]
    simp only [PC.left,EraseAt.left,Nat.zero_lt_succ]
  | sendEvent hpc | eventThrow hpc =>
    rw [hpc]
    exact Nat.zero_lt_one

theorem SocketStep.left_lt (h : SocketStep k t g ans g' pc) (hq : ans.quiet = true)
    (hrun : g'.terminated = false) (n : ℕ) :
    pc.left g'.clientSockets n < t.pc.left g.clientSockets n := by
  cases h with
  | read hpc => cases hq
  | sendThrow hpc | eventThrow hpc | closeThrow hpc => cases hrun
  | @distributeBegin p hpc =>
    rw [hpc]
    cases hb : g.clientSockets.begin with
    | none =>
      simp only [PC.left,DistributeAt.left]
      omega
    | some it =>
      have hlt := g.clientSockets.ahead_lt_size (g.clientSockets.mem_of_begin hb)
      simp only [PC.left,DistributeAt.left,sizeWith,aheadWith]
      omega
  | @distributeNext p it hpc =>
    rw [hpc]
    cases hb : g.clientSockets.next it with
    | none =>
      simp only [PC.left,DistributeAt.left]
      omega
    | some q =>
      have hlt := g.clientSockets.ahead_next hb
      simp only [PC.left,DistributeAt.left,aheadWith]
      omega
  | @distributeUnlock p hpc =>
    rw [hpc]
    cases p <;> simp [PC.left,DistributeAt.left,Payload.after,Payload.leftSent,Payload.leftPrinted]
  | @printUnlock p hpc =>
    rw [hpc]
    cases p <;> simp [PC.left,EraseAt.left,Payload.afterPrint,Payload.leftPrinted]
  | @distributeLock p hpc _ | @sendData p it m hpc =>
    rw [hpc]
    simp only [PC.left,DistributeAt.left]
    omega
  | closeUnlock hpc =>
    rw [hpc]
    simp only [PC.left,DistributeAt.left,CloseAt.left,Payload.leftSent]
    omega
  | eraseClient hpc =>
    have hsize := g.clientSockets.size_erase_le t.socket
    rw [hpc]
    simp only [PC.left,CloseAt.left,sizeWith]
    omega
  | _ =>
    rw [‹t.pc = _›]
    simp only [PC.left,CloseAt.left,EraseAt.left]
    omega

end Thread

section System
variable {m : Fd} {s s' : State} {a : Action}

theorem State.left_running (hrun : s.shared.terminated = false) :
    s.left = s.acceptor.left s.shared.clientSockets s.acceptor.inserting +
      ∑ k ∈ Finset.range s.started, s.threadLeft k := by
  simp only [State.left,hrun,Bool.false_eq_true,if_false]

/- What the other threads have left is not more than before. -/
theorem threadLeft_le {k : ℕ} (hsame : s'.thread k = s.thread k)
    (hfewer : Fewer s'.shared.clientSockets s'.acceptor.inserting s.shared.clientSockets
      s.acceptor.inserting) : s'.threadLeft k ≤ s.threadLeft k := by
  simp only [State.threadLeft,hsame]
  cases s.thread k with
  | none => exact Nat.le_refl _
  | some t => exact hfewer.pc t.pc

/- A step of the accept thread that starts no thread. -/
theorem left_lt_of_acceptor (hrun : s.shared.terminated = false)
    (hrun' : s'.shared.terminated = false) (hthread : s'.thread = s.thread)
    (hstarted : s'.started = s.started)
    (hfewer : Fewer s'.shared.clientSockets s'.acceptor.inserting s.shared.clientSockets
      s.acceptor.inserting)
    (hacc : s'.acceptor.left s'.shared.clientSockets s'.acceptor.inserting <
      s.acceptor.left s.shared.clientSockets s.acceptor.inserting) : s'.left < s.left := by
  have hsum : ∑ k ∈ Finset.range s.started, s'.threadLeft k ≤
      ∑ k ∈ Finset.range s.started, s.threadLeft k :=
    Finset.sum_le_sum fun k _ => threadLeft_le (congrFun hthread k) hfewer
  rw [State.left_running hrun,State.left_running hrun',hstarted]
  omega

theorem AcceptStep.left_lt {ans : Answer} (hrun : s.shared.terminated = false)
    (h : AcceptStep s ans s') (hq : ans.quiet = true) : s'.left < s.left := by
  cases h with
  | refused hpc | accepted hpc hfree => cases hq
  | @insert fd addr hpc =>
    have hfewer := Fewer.insert s.shared.clientSockets fd addr
    have hsize := hfewer.size
    refine left_lt_of_acceptor hrun hrun rfl rfl (by rw [hpc]; exact hfewer) ?_
    simp only [hpc,AcceptPC.left,AcceptPC.inserting]
    omega
  | lock hpc hm | insertThread hpc | unlock hpc =>
    refine left_lt_of_acceptor hrun hrun rfl rfl (by rw [hpc]; exact Fewer.refl _ 0) ?_
    simp only [hpc,AcceptPC.left,AcceptPC.inserting]
    omega
  | @newThread fd stack hpc =>
    -- The new thread has its join message to send and to print.
    have hold : ∑ k ∈ Finset.range s.started, State.threadLeft { s with
        thread := Function.update s.thread s.started (some ⟨fd,s.id,stack,.distribute .join .lock⟩)
        started := s.started + 1
        acceptor := .insertThread s.started } k ≤
        ∑ k ∈ Finset.range s.started, s.threadLeft k := by
      refine Finset.sum_le_sum fun k hk => threadLeft_le ?_ ?_
      · exact Function.update_of_ne (Nat.ne_of_lt (Finset.mem_range.mp hk)) _ _
      · rw [hpc]
        exact Fewer.refl _ 0
    rw [State.left_running hrun,State.left_running (by exact hrun),Finset.sum_range_succ]
    simp only [State.threadLeft,Function.update_self,Option.elim_some,PC.left,DistributeAt.left,
      Payload.leftSent,hpc,AcceptPC.left,AcceptPC.inserting] at hold ⊢
    omega

theorem advance_left_lt {k : ℕ} {t : SocketThread} {ans : Answer} {g : Shared} {pc : PC}
    (hs : Safe m s) (hrun : s.shared.terminated = false) (ht : s.thread k = some t)
    (h : SocketStep k t s.shared ans g pc) (hq : ans.quiet = true) :
    (s.advance k t g pc).left < s.left := by
  have hmem : k ∈ Finset.range s.started := Finset.mem_range.mpr (hs.ownership.thread_lt ht)
  have hbefore : s.threadLeft k = t.pc.left s.shared.clientSockets s.acceptor.inserting := by
    simp [State.threadLeft,ht]
  rw [State.left_running hrun]
  by_cases hg : g.terminated = true
  · have hpos := h.left_pos hq s.acceptor.inserting
    have hle := Finset.single_le_sum (f := s.threadLeft) (fun _ _ => Nat.zero_le _) hmem
    simp only [State.left,State.advance_shared,hg,if_true]
    omega
  · rw [Bool.not_eq_true] at hg
    have hafter : (s.advance k t g pc).threadLeft k =
        pc.left g.clientSockets s.acceptor.inserting := by
      simp [State.threadLeft,State.advance_self]
    have hlt := h.left_lt hq hg s.acceptor.inserting
    have hfewer := h.fewer s.acceptor.inserting
    have hsum : ∑ j ∈ Finset.range s.started, (s.advance k t g pc).threadLeft j <
        ∑ j ∈ Finset.range s.started, s.threadLeft j := by
      refine Finset.sum_lt_sum (fun j _ => ?_) ⟨k,hmem,by rw [hafter,hbefore]; exact hlt⟩
      by_cases hj : j = k
      · rw [hj,hafter,hbefore]
        exact Nat.le_of_lt hlt
      · exact threadLeft_le (s.advance_other t g pc hj) hfewer
    have hacc := hfewer.acceptor s.acceptor
    rw [State.left_running (s := s.advance k t g pc) hg]
    simp only [State.advance_shared,State.advance_acceptor,State.advance_started]
    omega

theorem Step.left_lt (hs : Safe m s) (h : Step s a s') (hq : a.quiet = true) : s'.left < s.left := by
  cases h with
  | acceptor hrun ha => exact ha.left_lt hrun hq
  | client hrun ht hst => exact advance_left_lt hs hrun ht hst hq
  | leave => cases hq

end System

/-! ### Rest -/

/-- No thread has anything to do until a client connects, sends or leaves. -/
structure AtRest (s : State) : Prop where
  acceptor : s.acceptor = .accept
  threads : ∀ k t, s.thread k = some t → t.pc = .read ∨ t.pc = .finished
  mutexes : ∀ μ, s.shared.owner μ = none

/- A thread that is neither in `read` nor at its end goes on, when its mutex is free. -/
theorem socketThread_goes_on {k : ℕ} {t : SocketThread} {g : Shared}
    (hfree : ∀ μ, t.pc.wants = some μ → g.owner μ = none) (hread : t.pc ≠ .read)
    (hlive : t.pc ≠ .finished) :
    ∃ ans r, (ans.quiet = true ∧ ans.succeeds = true) ∧ socketThread k t g ans = some r := by
  obtain ⟨socket,id,stack,pc⟩ := t
  cases pc with
  | distribute p l =>
    cases l with
    | lock =>
      have hm : g.mutex = none := hfree .mutex rfl
      exact ⟨.tick,_,⟨rfl,rfl⟩,by simp only [socketThread,hm,if_true]; rfl⟩
    | begin => exact ⟨.tick,_,⟨rfl,rfl⟩,rfl⟩
    | loop it =>
      cases it with
      | none => exact ⟨.tick,_,⟨rfl,rfl⟩,rfl⟩
      | some it => exact ⟨.sent (some 0),_,⟨rfl,rfl⟩,rfl⟩
    | next it => exact ⟨.tick,_,⟨rfl,rfl⟩,rfl⟩
  | print p l =>
    cases l with
    | lock =>
      have hm : g.stdoutMut = none := hfree .stdoutMut rfl
      exact ⟨.tick,_,⟨rfl,rfl⟩,by simp only [socketThread,hm,if_true]; rfl⟩
    | unlock => exact ⟨.tick,_,⟨rfl,rfl⟩,rfl⟩
  | read => exact absurd rfl hread
  | sendEvent => exact ⟨.sent (some 0),_,⟨rfl,rfl⟩,rfl⟩
  | closeSocket l =>
    cases l with
    | lock =>
      have hm : g.mutex = none := hfree .mutex rfl
      exact ⟨.tick,_,⟨rfl,rfl⟩,by simp only [socketThread,hm,if_true]; rfl⟩
    | close => exact ⟨.closed true,_,⟨rfl,rfl⟩,rfl⟩
    | _ => exact ⟨.tick,_,⟨rfl,rfl⟩,rfl⟩
  | eraseThread l =>
    cases l with
    | lock =>
      have hm : g.mutex = none := hfree .mutex rfl
      exact ⟨.tick,_,⟨rfl,rfl⟩,by simp only [socketThread,hm,if_true]; rfl⟩
    | _ => exact ⟨.tick,_,⟨rfl,rfl⟩,rfl⟩
  | finished => exact absurd rfl hlive

theorem runServer_goes_on {s : State} (hfree : ∀ μ, s.acceptor.wants = some μ → s.shared.owner μ = none)
    (haccept : s.acceptor ≠ .accept) :
    ∃ ans s', (ans.quiet = true ∧ ans.succeeds = true) ∧ runServer s ans = some s' := by
  obtain ⟨shared,acceptor,id,accepted,started,thread,gone⟩ := s
  cases acceptor with
  | accept => exact absurd rfl haccept
  | lock fd =>
    have hm : shared.mutex = none := hfree .mutex rfl
    exact ⟨.tick,_,⟨rfl,rfl⟩,by simp only [runServer,hm,if_true]; rfl⟩
  | newThread fd => exact ⟨.started ⟨.zero _,.zero _⟩,_,⟨rfl,rfl⟩,rfl⟩
  | _ => exact ⟨.tick,_,⟨rfl,rfl⟩,rfl⟩

/- An actor that is not waiting for a mutex, for a client or for nothing at all. -/
theorem step_goes_on {s : State} (hrun : s.shared.terminated = false) {b : Actor}
    (hfree : ∀ μ, s.wants b = some μ → s.shared.owner μ = none)
    (haccept : b = .acceptor → s.acceptor ≠ .accept)
    (hlive : ∀ k, b = .client k → ∃ t, s.thread k = some t ∧ t.pc ≠ .read ∧ t.pc ≠ .finished) :
    ∃ a s', (a.quiet = true ∧ a.succeeds = true) ∧ step s a = some s' := by
  cases b with
  | acceptor =>
    obtain ⟨ans,s',hans,h⟩ := runServer_goes_on hfree (haccept rfl)
    exact ⟨.acceptor ans,s',hans,by simpa [step,hrun] using h⟩
  | client k =>
    obtain ⟨t,ht,hread,hend⟩ := hlive k rfl
    simp only [State.wants,ht,Option.bind_some] at hfree
    obtain ⟨ans,r,hans,h⟩ := socketThread_goes_on (k := k) hfree hread hend
    exact ⟨.client k ans,_,hans,by simp [step,hrun,ht,h]; rfl⟩

theorem AtRest.no_step {s : State} (hrest : AtRest s) {a : Action} (hq : a.quiet = true) :
    step s a = none := by
  cases hstep : step s a with
  | none => rfl
  | some s' =>
    cases step_cases hstep with
    | acceptor _ ha =>
      cases ha with
      | refused _ | accepted _ _ => cases hq
      | _ => simp_all [hrest.acceptor]
    | @client k t ans g pc _ ht hst =>
      rcases hrest.threads k t ht with hpc | hpc
      · cases hst with
        | read _ => cases hq
        | _ => simp_all
      · cases hst <;> simp_all
    | leave => cases hq

/- Who holds a mutex can go on, and so can everybody else once both are free. -/
theorem atRest_of_no_step {m : Fd} {addr : SockaddrIn} {tr : List (State × Action)} {s : State}
    (r : Run step (initial m addr) tr s) (hrun : s.shared.terminated = false)
    (hnone : ∀ a, a.quiet = true → a.succeeds = true → step s a = none) : AtRest s := by
  have hstuck {b : Actor} (hfree : ∀ μ, s.wants b = some μ → s.shared.owner μ = none)
      (haccept : b = .acceptor → s.acceptor ≠ .accept)
      (hlive : ∀ k, b = .client k → ∃ t, s.thread k = some t ∧ t.pc ≠ .read ∧ t.pc ≠ .finished) :
      False := by
    obtain ⟨a,s',⟨hq,hs⟩,h⟩ := step_goes_on hrun hfree haccept hlive
    rw [hnone a hq hs] at h
    cases h
  have hmutexes (μ : Mutex) : s.shared.owner μ = none := by
    cases ho : s.shared.owner μ with
    | none => rfl
    | some b =>
      have hb := (run_guards r μ b).mp ho
      refine (hstuck (b := b) (fun ν hw => absurd hb (State.not_holds_of_wants hw μ)) ?_ ?_).elim
      · intro he hpc
        subst he
        simp only [State.holds,hpc] at hb
        cases μ <;> cases hb
      · intro k he
        subst he
        obtain ⟨t,ht,hh⟩ := hb
        refine ⟨t,ht,fun hpc => ?_,fun hpc => ?_⟩ <;> rw [hpc] at hh <;> cases μ <;> cases hh
  refine ⟨?_,?_,hmutexes⟩
  · by_contra hpc
    exact hstuck (b := .acceptor) (fun μ _ => hmutexes μ) (fun _ => hpc) fun k hk => by cases hk
  · intro k t ht
    by_contra hpc
    obtain ⟨hread,hend⟩ := not_or.mp hpc
    refine hstuck (b := .client k) (fun μ _ => hmutexes μ) (fun h => by cases h) fun j hj => ?_
    cases hj
    exact ⟨t,ht,hread,hend⟩

theorem Step.succeeds_running {s s' : State} {a : Action} (h : Step s a s')
    (hs : a.succeeds = true) (hrun : s.shared.terminated = false) :
    s'.shared.terminated = false := by
  cases h with
  | acceptor _ ha => cases ha <;> exact hrun
  | client _ _ hst =>
    cases hst with
    | sendThrow _ | eventThrow _ | closeThrow _ => cases hs
    | _ => exact hrun
  | leave => exact hrun

/- An explicit bound on what is left: of each thread and of the accept thread. -/
theorem State.left_le (s : State) :
    s.left ≤ (s.started+1)*(2*s.shared.clientSockets.size+16) := by
  have hinserting : s.acceptor.inserting ≤ 1 := by cases s.acceptor <;> simp [AcceptPC.inserting]
  have hahead (fd : Fd) : s.shared.clientSockets.ahead fd ≤ s.shared.clientSockets.size := by
    rw [← OrderedMap.length_keys]
    exact List.length_filter_le ..
  have hacceptor : s.acceptor.left s.shared.clientSockets s.acceptor.inserting ≤
      2*s.shared.clientSockets.size+16 := by
    cases hpc : s.acceptor <;> simp only [AcceptPC.left,AcceptPC.inserting,sizeWith] <;> omega
  have hthread (k : ℕ) : s.threadLeft k ≤ 2*s.shared.clientSockets.size+16 := by
    unfold State.threadLeft
    cases s.thread k with
    | none => exact Nat.zero_le _
    | some t =>
      simp only [Option.elim_some]
      cases t.pc with
      | distribute p l =>
        have hp : p.leftSent ≤ 5 := by cases p <;> simp [Payload.leftSent]
        cases l with
        | lock | begin =>
          simp only [PC.left,DistributeAt.left,sizeWith]
          omega
        | loop it =>
          cases it with
          | none =>
            simp only [PC.left,DistributeAt.left]
            omega
          | some it =>
            have hit := hahead it
            simp only [PC.left,DistributeAt.left,aheadWith]
            omega
        | next it =>
          have hit := hahead it
          simp only [PC.left,DistributeAt.left,aheadWith]
          omega
      | print p l =>
        have hp : p.leftPrinted ≤ 3 := by cases p <;> simp [Payload.leftPrinted]
        cases l <;> simp only [PC.left] <;> omega
      | closeSocket l => cases l <;> simp only [PC.left,CloseAt.left,sizeWith] <;> omega
      | eraseThread l => cases l <;> simp only [PC.left,EraseAt.left] <;> omega
      | read | sendEvent | finished =>
        simp only [PC.left]
        omega
  have hsum : ∑ k ∈ Finset.range s.started, s.threadLeft k ≤
      s.started*(2*s.shared.clientSockets.size+16) := by
    have h := Finset.sum_le_card_nsmul (Finset.range s.started) s.threadLeft _ fun k _ => hthread k
    rwa [Finset.card_range,Nat.nsmul_eq_mul] at h
  rw [Nat.add_mul,Nat.one_mul]
  unfold State.left
  split_ifs <;> omega

/-- Without a new connection, new data or a leaving client, the server takes at
most a number of steps that is linear in the threads times the clients, where the return
of a `send` is a step; while no call fails and every `send` returns, it stops exactly when
every thread is back in `read` or at its end and both mutexes are free, and from every
state it can come there. -/
theorem server_rests {m : Fd} {addr : SockaddrIn} {tr : List (State × Action)} {s : State}
    (r : Run step (initial m addr) tr s) :
    (∀ tr' s', Run step s tr' s' → (∀ x ∈ tr', x.2.quiet = true) →
      tr'.length ≤ (s.started+1)*(2*s.shared.clientSockets.size+16) ∧
      (s'.shared.terminated = false →
        ((∀ a, a.quiet = true → a.succeeds = true → step s' a = none) ↔ AtRest s'))) ∧
    (s.shared.terminated = false → ∃ tr' s', Run step s tr' s' ∧
      (∀ x ∈ tr', x.2.quiet = true ∧ x.2.succeeds = true) ∧ s'.shared.terminated = false ∧
      AtRest s') := by
  have hstep (u : State) (a : Action) (u' : State) (hs : Safe m u) (hq : a.quiet = true)
      (h : step u a = some u') : Safe m u' ∧ u'.left < u.left :=
    ⟨hs.step h,(step_cases h).left_lt hs hq⟩
  refine ⟨?_,?_⟩
  · intro tr' s' r' hquiet
    have hlen := (r'.length_le (fun _ a => a.quiet = true) State.left (run_safe r) hstep hquiet).2
    have hbound := s.left_le
    refine ⟨by omega,fun hrun => ⟨atRest_of_no_step (r.append r') hrun,?_⟩⟩
    intro hrest a hq _
    exact hrest.no_step hq
  · intro hrun
    have hgood (u : State) (a : Action) (u' : State)
        (hu : Safe m u ∧ u.shared.terminated = false) (ha : a.quiet = true ∧ a.succeeds = true)
        (h : step u a = some u') :
        (Safe m u' ∧ u'.shared.terminated = false) ∧ u'.left < u.left :=
      ⟨⟨hu.1.step h,(step_cases h).succeeds_running ha.2 hu.2⟩,(hstep u a u' hu.1 ha.1 h).2⟩
    obtain ⟨tr',s',r',hC,hnone⟩ := exists_settled
      (I := fun (u : State) => Safe m u ∧ u.shared.terminated = false)
      (fun _ (a : Action) => a.quiet = true ∧ a.succeeds = true) State.left hgood
      ⟨run_safe r,hrun⟩
    have hrun' : s'.shared.terminated = false :=
      (r'.length_le (I := fun (u : State) => Safe m u ∧ u.shared.terminated = false)
        (fun _ (a : Action) => a.quiet = true ∧ a.succeeds = true) State.left ⟨run_safe r,hrun⟩
        hgood hC).1.2
    refine ⟨tr',s',r',hC,hrun',atRest_of_no_step (r.append r') hrun' fun a hq hs => ?_⟩
    exact hnone a ⟨hq,hs⟩

/- From the middle of a join message to two clients, with the other thread waiting. -/
theorem server_rests_waiting :
    let s := (runOf step (initial 3 ⟨0,0⟩) waitingSchedule).2
    (∀ tr' s', Run step s tr' s' → (∀ x ∈ tr', x.2.quiet = true) → tr'.length ≤ 60) ∧
      ∃ tr' s', Run step s tr' s' ∧ AtRest s' := by
  obtain ⟨hbound,hreach⟩ := server_rests (runOf_run step (initial 3 ⟨0,0⟩) waitingSchedule
    (by decide +kernel))
  have hsize : ((runOf step (initial 3 ⟨0,0⟩) waitingSchedule).2.started+1)*
      (2*(runOf step (initial 3 ⟨0,0⟩) waitingSchedule).2.shared.clientSockets.size+16) = 60 := by
    decide +kernel
  refine ⟨fun tr' s' r' hq => hsize ▸ (hbound tr' s' r' hq).1,?_⟩
  obtain ⟨tr',s',r',_,_,hrest⟩ := hreach (by decide +kernel)
  exact ⟨tr',s',r',hrest⟩

end TcpProjects.ChatServer
