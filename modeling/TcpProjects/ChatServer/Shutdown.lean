import TcpProjects.ChatServer.Descriptors
import Mathlib.Data.List.Count
import Mathlib.Data.List.Nodup

/-! # Shutdown

`~TCPChatServer` is called by the handler of `SIGINT`, on whichever thread the signal
comes to; that thread stands still until the destructors are through, and the others go
on. The destructor clears `isRunning`; the members are destroyed, and `~TCPServer` closes
what is in the two maps. No thread is ever joined. Afterwards every thread that has not
finished goes on with the destroyed object, whose memory stays. -/

namespace TcpProjects.ChatServer
open Transition

inductive Registry where
  | clientSockets
  | serverSockets
  deriving DecidableEq

def Shared.sockets (g : Shared) : Registry → OrderedMap Fd SockaddrIn
  | .clientSockets => g.clientSockets
  | .serverSockets => g.serverSockets

/- Inside one of the loops of `closeAllSockets`: `begin()`, the loop test with the
iterator and `close(it->first)`, `it++`. -/
inductive CloseAllAt where
  | begin
  | loop (it : Option Fd)
  | next (it : Fd)
  deriving DecidableEq

/- The body of `~TCPChatServer`, the end of `threads` and `mut`, the two loops of
`closeAllSockets`, and the end of the maps. -/
inductive DestructorPC where
  | isRunning
  | members
  | closeAllSockets (r : Registry) (l : CloseAllAt)
  | maps
  | done
  deriving DecidableEq

/- The server while the destructors run and afterwards; `interrupted` is the thread that runs
the handler, and `returned` says that `runServer` has returned. `joined` are the threads
that were joined: neither the server nor a destructor calls `join`. -/
structure Shutdown where
  server : State
  isRunning : Bool
  destructor : DestructorPC
  interrupted : Actor
  returned : Bool
  joined : List ℕ

namespace Shutdown

def shared (z : Shutdown) : Shared := z.server.shared

def begin (s : State) (interrupted : Actor) : Shutdown :=
  ⟨s,true,.isRunning,interrupted,false,[]⟩

/- The destructors change the object and the descriptor table. -/
def go (z : Shutdown) (g : Shared) (pc : DestructorPC) : Shutdown :=
  { z with server := { z.server with shared := g }, destructor := pc }

@[simp] theorem go_shared (z : Shutdown) (g : Shared) (pc : DestructorPC) : (z.go g pc).shared = g := rfl
@[simp] theorem go_destructor (z : Shutdown) (g : Shared) (pc : DestructorPC) :
    (z.go g pc).destructor = pc := rfl

/- The value of `close` is not looked at: the number is free afterwards. -/
def destructorStep (z : Shutdown) : Option Shutdown :=
  match z.destructor with
  | .isRunning => some { z with isRunning := false, destructor := .members }
  | .members =>
    some (z.go { z.shared with threads := .empty } (.closeAllSockets .clientSockets .begin))
  | .closeAllSockets r .begin =>
    some (z.go z.shared (.closeAllSockets r (.loop (z.shared.sockets r).begin)))
  | .closeAllSockets r (.loop (some it)) =>
    some (z.go { z.shared with table := Function.update z.shared.table it none }
      (.closeAllSockets r (.next it)))
  | .closeAllSockets r (.next it) =>
    some (z.go z.shared (.closeAllSockets r (.loop ((z.shared.sockets r).next it))))
  | .closeAllSockets .clientSockets (.loop none) =>
    some (z.go z.shared (.closeAllSockets .serverSockets .begin))
  | .closeAllSockets .serverSockets (.loop none) => some (z.go z.shared .maps)
  | .maps => some (z.go { z.shared with clientSockets := .empty, serverSockets := .empty } .done)
  | .done => none

/- `runServer` with its tests of `isRunning`: the one of the loop, and the one after an
exception. `accept` fails once the master socket is closed. -/
def runServer (m : Fd) (z : Shutdown) (ans : Answer) : Option Shutdown :=
  (ChatServer.step z.server (.acceptor ans)).bind fun s =>
    match z.server.acceptor, ans with
    | .accept, .accepted _ _ =>
      if z.shared.table m = some .listener then some { z with server := s } else none
    | .accept, _ => some { z with server := s, returned := !z.isRunning }
    | .unlock, _ => some { z with server := s, returned := !z.isRunning }
    | _, _ => some { z with server := s }

/- `exit` in `main`, after `runServer` has returned. -/
def exit (z : Shutdown) : Answer → Option Shutdown
  | .tick =>
    if z.shared.terminated then none
    else some (z.go { z.shared with terminated := true } z.destructor)
  | _ => none

end Shutdown

def Action.actor : Action → Option Actor
  | .acceptor _ => some .acceptor
  | .client k _ => some (.client k)
  | .leave _ => none

inductive Event where
  | destructor
  | server (a : Action)

namespace Shutdown

def serverStep (m : Fd) (z : Shutdown) : Action → Option Shutdown
  | .acceptor ans => if z.returned then z.exit ans else z.runServer m ans
  | .client k ans => (ChatServer.step z.server (.client k ans)).map fun s => { z with server := s }
  | .leave c => (ChatServer.step z.server (.leave c)).map fun s => { z with server := s }

def step (m : Fd) (z : Shutdown) : Event → Option Shutdown
  | .destructor => if z.shared.terminated then none else z.destructorStep
  | .server a =>
    if z.destructor ≠ .done ∧ a.actor = some z.interrupted then none else z.serverStep m a

end Shutdown

/-! ### What a shutdown should leave -/

/- The thread can run a signal handler. -/
def State.Live (s : State) : Actor → Prop
  | .acceptor => True
  | .client k => ∃ t,s.thread k = some t ∧ t.pc ≠ .finished

/- The next step uses `clientSockets`, `serverSockets`, `threads` or `mut`. -/
def PC.usesMembers : PC → Bool
  | .distribute _ _ => true
  | .closeSocket .close => false
  | .closeSocket _ => true
  | .eraseThread _ => true
  | _ => false

def AcceptPC.usesMembers : AcceptPC → Bool
  | .accept => false
  | .newThread _ => false
  | _ => true

def usesMembers (s : State) : Action → Bool
  | .acceptor _ => s.acceptor.usesMembers
  | .client k _ => (s.thread k).any fun t => t.pc.usesMembers
  | .leave _ => false

/- The socket that a step closes. -/
def closedObject (x : State × Action) : Option Object :=
  match x.2 with
  | .client k (.closed true) => (x.1.thread k).bind fun t => x.1.shared.table t.socket
  | _ => none

def Shutdown.closedObject (x : Shutdown × Event) : Option Object :=
  match x.2 with
  | .server a => ChatServer.closedObject (x.1.server,a)
  | .destructor =>
    match x.1.destructor with
    | .closeAllSockets _ (.loop (some it)) => x.1.shared.table it
    | _ => none

/- The master socket and the connections accepted so far. -/
def State.Opened (s : State) : Object → Prop
  | .listener => True
  | .connection c => c < s.accepted

def State.AllFinished (s : State) : Prop := ∀ k t,s.thread k = some t → t.pc = .finished

/- However the threads go on: when the destructors are through, all threads have finished,
every socket has been closed once, and no step uses a member any more. -/
def LeavesNothing (m : Fd) (closed : List Object) (s : State) (interrupted : Actor) : Prop :=
  ∀ tr z,Run (Shutdown.step m) (Shutdown.begin s interrupted) tr z → z.destructor = .done →
    z.server.AllFinished ∧
    (∀ o,z.server.Opened o → (closed ++ tr.filterMap Shutdown.closedObject).count o = 1) ∧
    ∀ a z',Shutdown.step m z (.server a) = some z' → usesMembers z.server a = false

/- And every thread that was started has been joined. -/
def ShutsDown (m : Fd) (closed : List Object) (s : State) (interrupted : Actor) : Prop :=
  LeavesNothing m closed s interrupted ∧
  ∀ tr z,Run (Shutdown.step m) (Shutdown.begin s interrupted) tr z → z.destructor = .done →
    ∀ k t,z.server.thread k = some t → k ∈ z.joined

/-! ### The destructors wait for nobody -/

namespace Shutdown

/- What the destructors do not touch. -/
structure Same (z z' : Shutdown) : Prop where
  thread : z'.server.thread = z.server.thread
  acceptor : z'.server.acceptor = z.server.acceptor
  mutex : z'.shared.mutex = z.shared.mutex
  terminated : z'.shared.terminated = z.shared.terminated
  returned : z'.returned = z.returned
  joined : z'.joined = z.joined

theorem Same.trans {z z' z'' : Shutdown} (h : z.Same z') (h' : z'.Same z'') : z.Same z'' :=
  ⟨h'.thread.trans h.thread,h'.acceptor.trans h.acceptor,h'.mutex.trans h.mutex,
    h'.terminated.trans h.terminated,h'.returned.trans h.returned,h'.joined.trans h.joined⟩

/- Bounds on the steps of a loop and of the destructors. -/
def loopLeft (o : OrderedMap Fd SockaddrIn) : CloseAllAt → ℕ
  | .begin => 2*o.size+2
  | .loop (some it) => 2*o.ahead it+3
  | .loop none => 1
  | .next it => 2*o.ahead it+2

def left (z : Shutdown) : ℕ :=
  match z.destructor with
  | .isRunning => 2*z.shared.clientSockets.size+2*z.shared.serverSockets.size+9
  | .members => 2*z.shared.clientSockets.size+2*z.shared.serverSockets.size+8
  | .closeAllSockets .clientSockets l =>
    loopLeft z.shared.clientSockets l+2*z.shared.serverSockets.size+4
  | .closeAllSockets .serverSockets l => loopLeft z.shared.serverSockets l+1
  | .maps => 1
  | .done => 0

theorem loopLeft_begin (o : OrderedMap Fd SockaddrIn) : loopLeft o (.loop o.begin) < loopLeft o .begin := by
  cases h : o.begin with
  | none => simp [loopLeft]
  | some it =>
    have := o.ahead_lt_size (o.mem_of_begin h)
    simp only [loopLeft]
    omega

theorem loopLeft_next (o : OrderedMap Fd SockaddrIn) (it : Fd) :
    loopLeft o (.loop (o.next it)) < loopLeft o (.next it) := by
  cases h : o.next it with
  | none => simp [loopLeft]
  | some q =>
    have := o.ahead_next h
    simp only [loopLeft]
    omega

theorem destructorStep_some {z : Shutdown} (h : z.destructor ≠ .done) :
    ∃ z',z.destructorStep = some z' ∧ z.Same z' ∧ z'.left < z.left := by
  have hsame (g : Shared) (pc : DestructorPC) (hm : g.mutex = z.shared.mutex)
      (ht : g.terminated = z.shared.terminated) : z.Same (z.go g pc) := ⟨rfl,rfl,hm,ht,rfl,rfl⟩
  unfold destructorStep
  cases hpc : z.destructor with
  | isRunning => exact ⟨_,rfl,⟨rfl,rfl,rfl,rfl,rfl,rfl⟩,by simp [left,hpc,shared]⟩
  | members =>
    refine ⟨_,rfl,hsame _ _ rfl rfl,?_⟩
    simp only [left,hpc,loopLeft,go_destructor,go_shared]
    omega
  | closeAllSockets r l =>
    cases l with
    | begin =>
      refine ⟨_,rfl,hsame _ _ rfl rfl,?_⟩
      cases r with
      | clientSockets => simpa [left,hpc,Shared.sockets] using loopLeft_begin z.shared.clientSockets
      | serverSockets => simpa [left,hpc,Shared.sockets] using loopLeft_begin z.shared.serverSockets
    | loop it =>
      cases it with
      | some it => exact ⟨_,rfl,hsame _ _ rfl rfl,by cases r <;> simp [left,hpc,loopLeft]⟩
      | none =>
        cases r with
        | clientSockets =>
          refine ⟨_,rfl,hsame _ _ rfl rfl,?_⟩
          simp only [left,hpc,loopLeft,go_destructor,go_shared]
          omega
        | serverSockets => exact ⟨_,rfl,hsame _ _ rfl rfl,by simp [left,hpc,loopLeft]⟩
    | next it =>
      refine ⟨_,rfl,hsame _ _ rfl rfl,?_⟩
      cases r with
      | clientSockets => simpa [left,hpc,Shared.sockets] using loopLeft_next z.shared.clientSockets it
      | serverSockets => simpa [left,hpc,Shared.sockets] using loopLeft_next z.shared.serverSockets it
  | maps => exact ⟨_,rfl,hsame _ _ rfl rfl,by simp [left,hpc]⟩
  | done => exact absurd hpc h

/- Alone the destructors come to their end, and leave the threads where they are. -/
theorem run_done (m : Fd) {z : Shutdown} (hrun : z.shared.terminated = false) :
    ∃ tr z',Run (step m) z tr z' ∧ z'.destructor = .done ∧ z.Same z' := by
  induction hn : z.left using Nat.strong_induction_on generalizing z with
  | _ n ih =>
    by_cases hdone : z.destructor = .done
    · exact ⟨[],z,Run.start,hdone,⟨rfl,rfl,rfl,rfl,rfl,rfl⟩⟩
    · obtain ⟨z₁,hs,hsame,hlt⟩ := destructorStep_some hdone
      obtain ⟨tr,z',r,hend,hsame'⟩ := ih z₁.left (hn ▸ hlt) (hsame.terminated.trans hrun) rfl
      have hstep : step m z .destructor = some z₁ := by
        rw [step,hrun]
        exact hs
      exact ⟨_,z',Run.cons hstep r,hend,hsame.trans hsame'⟩

end Shutdown

/-! ### Threads that have not finished -/

/- Behind `accept` the accept thread goes on to the members. -/
theorem Shutdown.acceptor_step (m : Fd) {z : Shutdown} {ans : Answer} {s : State}
    (hdone : z.destructor = .done) (hreturned : z.returned = false) (hpc : z.server.acceptor ≠ .accept)
    (h : ChatServer.step z.server (.acceptor ans) = some s) :
    ∃ z',Shutdown.step m z (.server (.acceptor ans)) = some z' ∧ z'.server = s ∧
      z'.destructor = .done := by
  simp only [Shutdown.step,Shutdown.serverStep,hdone,hreturned,Shutdown.runServer,h,Option.bind_some]
  cases hat : z.server.acceptor with
  | accept => exact absurd hat hpc
  | unlock => exact ⟨_,rfl,rfl,rfl⟩
  | _ => exact ⟨_,rfl,rfl,rfl⟩

/- No thread is joined, whether it has finished or not. -/
theorem ShutsDown.no_thread {m : Fd} {closed : List Object} {s : State} {d : Actor}
    (hrun : s.shared.terminated = false) (h : ShutsDown m closed s d) (k : ℕ) : s.thread k = none := by
  obtain ⟨tr,z,r,hdone,hsame⟩ := Shutdown.run_done m (z := Shutdown.begin s d) hrun
  cases ht : s.thread k with
  | none => rfl
  | some t =>
    have hmem := h.2 tr z r hdone k t (by rw [hsame.thread]; exact ht)
    rw [hsame.joined] at hmem
    cases hmem

/- A shutdown that leaves nothing finds all threads finished and the accept thread waiting. -/
theorem LeavesNothing.finished {m : Fd} {closed : List Object} {s : State} {d : Actor}
    (hlocks : Locks s) (hrun : s.shared.terminated = false) (h : LeavesNothing m closed s d) :
    s.AllFinished ∧ s.acceptor = .accept := by
  obtain ⟨tr,z,r,hdone,hsame⟩ := Shutdown.run_done m (z := Shutdown.begin s d) hrun
  obtain ⟨hfinished,-,hunused⟩ := h tr z r hdone
  have hall : s.AllFinished := fun k t ht => hfinished k t (by rw [hsame.thread]; exact ht)
  refine ⟨hall,?_⟩
  have hacceptor : z.server.acceptor = s.acceptor := hsame.acceptor
  have hterminated : z.server.shared.terminated = false := hsame.terminated.trans hrun
  by_contra hpc
  have hbehind : z.server.acceptor ≠ .accept := by rwa [hacceptor]
  -- Its next step uses a member, or starts a thread.
  have hused (hgo : (ChatServer.runServer z.server .tick).isSome = true) :
      z.server.acceptor.usesMembers = false := by
    obtain ⟨s',hs⟩ := Option.isSome_iff_exists.mp hgo
    have hstep : ChatServer.step z.server (.acceptor .tick) = some s' := by
      rw [ChatServer.step,hterminated]
      exact hs
    obtain ⟨z',hz,_⟩ := Shutdown.acceptor_step m hdone hsame.returned hbehind hstep
    exact hunused _ z' hz
  cases hat : z.server.acceptor with
  | accept => exact hbehind hat
  | insert fd addr =>
    have hno := hused (by simp [ChatServer.runServer,hat])
    rw [hat] at hno
    cases hno
  | lock fd =>
    have hfree : z.server.shared.mutex = none := by
      have hmutex : z.server.shared.mutex = s.shared.mutex := hsame.mutex
      rw [hmutex]
      rcases hm : s.shared.mutex with _ | (_ | k)
      · rfl
      · have hholds := hlocks.acceptor.mp hm
        rw [← hacceptor,hat] at hholds
        cases hholds
      · obtain ⟨t,ht,hholds⟩ := (hlocks.client k).mp hm
        rw [hall k t ht] at hholds
        cases hholds
    have hno := hused (by simp [ChatServer.runServer,hat,hfree])
    rw [hat] at hno
    cases hno
  | newThread fd =>
    have hstep : ∃ s',ChatServer.step z.server (.acceptor (.started ⟨.zero _,.zero _⟩)) = some s' ∧
        s'.thread z.server.started =
          some ⟨fd,z.server.id,⟨.zero _,.zero _⟩,.distribute .join .lock⟩ := by
      refine ⟨_,by simp [ChatServer.step,hterminated,ChatServer.runServer,hat]; rfl,?_⟩
      exact Function.update_self ..
    obtain ⟨s',hs,hnew⟩ := hstep
    obtain ⟨z',hz,rfl,hdone'⟩ := Shutdown.acceptor_step m hdone hsame.returned hbehind hs
    have hno := (h _ z' (r.next hz) hdone').1 _ _ hnew
    cases hno
  | insertThread k =>
    have hno := hused (by simp [ChatServer.runServer,hat])
    rw [hat] at hno
    cases hno
  | unlock =>
    have hno := hused (by simp [ChatServer.runServer,hat])
    rw [hat] at hno
    cases hno

/-! ### Nothing left to wait for -/

/- The registry when no client is left. -/
structure NoClients (m : Fd) (g : Shared) : Prop where
  clients : ∀ fd,fd ∉ g.clientSockets
  servers : ∀ fd,fd ∈ g.serverSockets ↔ fd = m
  listener : g.table m = some .listener

/- How far the destructors are, and what they have closed. -/
inductive Phase (m : Fd) (g : Shared) : DestructorPC → List Object → Prop
  | isRunning (h : NoClients m g) : Phase m g .isRunning []
  | members (h : NoClients m g) : Phase m g .members []
  | clients (h : NoClients m g) : Phase m g (.closeAllSockets .clientSockets .begin) []
  | clientsEnd (h : NoClients m g) : Phase m g (.closeAllSockets .clientSockets (.loop none)) []
  | servers (h : NoClients m g) : Phase m g (.closeAllSockets .serverSockets .begin) []
  | listener (h : NoClients m g) : Phase m g (.closeAllSockets .serverSockets (.loop (some m))) []
  | closed (hservers : ∀ fd,fd ∈ g.serverSockets ↔ fd = m) (hclosed : g.table m = none) :
      Phase m g (.closeAllSockets .serverSockets (.next m)) [.listener]
  | serversEnd (hclosed : g.table m = none) :
      Phase m g (.closeAllSockets .serverSockets (.loop none)) [.listener]
  | maps (hclosed : g.table m = none) : Phase m g .maps [.listener]
  | done (hclosed : g.table m = none) : Phase m g .done [.listener]

/- A map without keys is not iterated. -/
theorem begin_none {o : OrderedMap Fd SockaddrIn} (h : ∀ fd,fd ∉ o) : o.begin = none := by
  cases hb : o.begin with
  | none => rfl
  | some it => exact absurd (o.mem_of_begin hb) (h it)

theorem begin_only {o : OrderedMap Fd SockaddrIn} {m : Fd} (h : ∀ fd,fd ∈ o ↔ fd = m) :
    o.begin = some m := by
  obtain ⟨q,hq,_⟩ := o.begin_le ((h m).mpr rfl)
  rw [hq,(h q).mp (o.mem_of_begin hq)]

theorem next_only {o : OrderedMap Fd SockaddrIn} {m : Fd} (h : ∀ fd,fd ∈ o ↔ fd = m) :
    o.next m = none := by
  cases hn : o.next m with
  | none => rfl
  | some q =>
    obtain ⟨hq,hlt⟩ := o.mem_of_next hn
    exact absurd hlt (by rw [(h q).mp hq]; exact lt_irrefl m)

structure Ending (m : Fd) (s : State) (closes : List Object) (z : Shutdown) : Prop where
  thread : z.server.thread = s.thread
  acceptor : z.server.acceptor = .accept
  accepted : z.server.accepted = s.accepted
  interrupted : z.interrupted = .acceptor
  phase : Phase m z.shared z.destructor closes

namespace Ending
variable {m : Fd} {s : State} {closes : List Object} {z z' : Shutdown}

theorem destructorStep (h : Ending m s closes z) (hs : z.destructorStep = some z') :
    Ending m s (closes ++ (Shutdown.closedObject (z,.destructor)).toList) z' := by
  obtain ⟨hthread,hacceptor,haccepted,hinterrupted,hphase⟩ := h
  have hkeep {g : Shared} {pc : DestructorPC} {l : List Object} (hp : Phase m g pc l) :
      Ending m s l (z.go g pc) := ⟨hthread,hacceptor,haccepted,hinterrupted,hp⟩
  have hstep := hs
  unfold Shutdown.destructorStep at hstep
  simp only [Shutdown.closedObject]
  generalize hpc : z.destructor = pc at hphase hstep
  cases hphase with
  | isRunning h =>
    cases hstep
    exact ⟨hthread,hacceptor,haccepted,hinterrupted,.members h⟩
  | members h =>
    cases hstep
    exact hkeep (.clients ⟨h.clients,h.servers,h.listener⟩)
  | clients h =>
    cases hstep
    have hend : (z.shared.sockets .clientSockets).begin = none := begin_none h.clients
    rw [hend]
    exact hkeep (.clientsEnd h)
  | clientsEnd h =>
    cases hstep
    exact hkeep (.servers h)
  | servers h =>
    cases hstep
    have hbegin : (z.shared.sockets .serverSockets).begin = some m := begin_only h.servers
    rw [hbegin]
    exact hkeep (.listener h)
  | listener h =>
    cases hstep
    show Ending m s ([] ++ (z.shared.table m).toList) _
    rw [h.listener]
    exact hkeep (.closed h.servers (Function.update_self ..))
  | closed hservers hclosed =>
    cases hstep
    have hend : (z.shared.sockets .serverSockets).next m = none := next_only hservers
    rw [hend]
    exact hkeep (.serversEnd hclosed)
  | serversEnd hclosed =>
    cases hstep
    exact hkeep (.maps hclosed)
  | maps hclosed =>
    cases hstep
    exact hkeep (.done hclosed)
  | done hclosed => cases hstep

/- A finished thread takes no step. -/
theorem finished_stuck {s : State} (h : s.AllFinished) (k : ℕ) (ans : Answer) :
    ChatServer.step s (.client k ans) = none := by
  simp only [ChatServer.step]
  split_ifs
  · rfl
  · cases ht : s.thread k with
    | none => rfl
    | some t => simp [socketThread,h k t ht]

theorem serverStep (h : Ending m s closes z) (hall : s.AllFinished) {a : Action}
    (hs : Shutdown.step m z (.server a) = some z') : usesMembers z.server a = false ∧
      Shutdown.closedObject (z,.server a) = none ∧ Ending m s closes z' := by
  obtain ⟨hthread,hacceptor,haccepted,hinterrupted,hphase⟩ := h
  have hwaits : ¬(z.destructor ≠ .done ∧ a.actor = some z.interrupted) := by
    intro hx
    rw [Shutdown.step,if_pos hx] at hs
    cases hs
  rw [Shutdown.step,if_neg hwaits] at hs
  cases a with
  | acceptor ans =>
    have hdone : z.destructor = .done := by
      by_contra hno
      exact hwaits ⟨hno,by rw [hinterrupted]; rfl⟩
    rw [hdone] at hphase
    cases hphase with
    | done hclosed =>
      refine ⟨by rw [usesMembers,hacceptor]; rfl,rfl,?_⟩
      have hphase' : Phase m z.shared z.destructor [.listener] := hdone ▸ .done hclosed
      cases hreturned : z.returned with
      | true =>
        rw [Shutdown.serverStep,hreturned] at hs
        cases ans with
        | tick =>
          simp only [if_true,Shutdown.exit] at hs
          split_ifs at hs
          cases hs
          exact ⟨hthread,hacceptor,haccepted,hinterrupted,hdone ▸ .done hclosed⟩
        | _ => cases hs
      | false =>
        rw [Shutdown.serverStep,hreturned] at hs
        obtain ⟨u,hu,hs⟩ := Option.bind_eq_some_iff.mp hs
        cases step_cases hu with
        | acceptor _ ha =>
          cases ha with
          | refused _ =>
            rw [hacceptor] at hs
            cases hs
            exact ⟨hthread,hacceptor,haccepted,hinterrupted,hphase'⟩
          | accepted _ _ =>
            simp only [hacceptor,hclosed] at hs
            cases hs
          | insert hpc | lock hpc _ | newThread hpc | insertThread hpc | unlock hpc =>
            rw [hacceptor] at hpc
            cases hpc
  | client k ans =>
    have hfinished : z.server.AllFinished := fun k t ht => hall k t (by rw [← hthread]; exact ht)
    rw [Shutdown.serverStep,finished_stuck hfinished] at hs
    cases hs
  | leave c =>
    cases hs
    exact ⟨rfl,rfl,hthread,hacceptor,haccepted,hinterrupted,hphase⟩

end Ending

theorem run_ending {m : Fd} {s : State} (h₀ : Ending m s [] (Shutdown.begin s .acceptor))
    (hall : s.AllFinished) {tr : List (Shutdown × Event)} {z : Shutdown}
    (r : Run (Shutdown.step m) (Shutdown.begin s .acceptor) tr z) :
    Ending m s (tr.filterMap Shutdown.closedObject) z := by
  induction r with
  | start => exact h₀
  | @next tr z e z' r hs ih =>
    rw [filterMap_snoc]
    cases e with
    | destructor =>
      simp only [Shutdown.step] at hs
      split_ifs at hs
      exact ih.destructorStep hs
    | server a =>
      obtain ⟨_,hnone,hending⟩ := ih.serverStep hall hs
      rw [hnone,Option.toList_none,List.append_nil]
      exact hending

/- With all threads finished the map of the clients is empty. -/
theorem no_clients {m : Fd} {s : State} (hs : Safe m s) (hk : Keys m s) (hall : s.AllFinished)
    (hacceptor : s.acceptor = .accept) : NoClients m s.shared := by
  refine ⟨fun fd hfd => ?_,hk.servers,hs.ownership.listener⟩
  rcases hk.known fd hfd with ⟨c,hc⟩ | ⟨k,t,ht,herasing,_⟩
  · rcases (hs.ownership.owner fd c).mp hc with ⟨t,ht,hopen,_⟩ | ⟨_,hpending⟩
    · rw [hall c t ht] at hopen
      cases hopen
    · rw [hacceptor] at hpending
      cases hpending
  · rw [hall k t ht] at herasing
    cases herasing

theorem closedObject_eq {m : Fd} {s s' : State} {a : Action} (hs : Safe m s) (h : Step s a s') :
    closedObject (s,a) = (closedConnection (s,a)).map .connection := by
  cases h with
  | acceptor _ _ | leave => rfl
  | @client k t ans g pc _ ht hc =>
    cases hc with
    | close hpc =>
      have hopen := hs.ownership.table_of_open ht (by rw [hpc]; rfl)
      simp only [closedObject,closedConnection,ht,Option.bind_some,hopen,
        Shared.connectionAt_eq_some.mpr hopen,Option.map_some]
    | _ => rfl

/- Before the shutdown every connection has been closed once, by its thread, and the master
socket has not. -/
theorem closed_before {m : Fd} {addr : SockaddrIn} {tr : List (State × Action)} {s : State}
    (r : Run step (initial m addr) tr s) (hall : s.AllFinished) (hacceptor : s.acceptor = .accept) :
    (tr.filterMap closedObject).count .listener = 0 ∧
      ∀ c < s.accepted,(tr.filterMap closedObject).count (.connection c) = 1 := by
  have hsafe := run_safe r
  have hhistory : tr.filterMap closedObject = (tr.filterMap closedConnection).map .connection := by
    rw [List.map_filterMap]
    refine List.filterMap_congr fun x hx => ?_
    obtain ⟨i,hi⟩ := List.mem_iff_getElem?.mp hx
    exact closedObject_eq (r.invariant_mem (fun _ _ => run_safe) hx) (step_cases (r.step_at hi))
  obtain ⟨hnodup,hmem⟩ := closed_history r
  rw [hhistory]
  refine ⟨List.count_eq_zero.mpr (by simp),fun c hc => ?_⟩
  have hinj : Function.Injective Object.connection := fun _ _ h => Object.connection.inj h
  rw [List.count_map_of_injective _ _ hinj]
  have hstarted : c < s.started := by
    have hcounts := hsafe.ownership.counts
    simp only [hacceptor,AcceptPC.pending,Option.isSome_none,Bool.false_eq_true,if_false] at hcounts
    omega
  obtain ⟨t,ht⟩ := Option.isSome_iff_exists.mp ((hsafe.ownership.threads c).mpr hstarted)
  have hclosed : ∃ t,s.thread c = some t ∧ t.pc.closed = true := ⟨t,ht,by rw [hall c t ht]; rfl⟩
  exact List.count_eq_one_of_mem hnodup ((hmem c).mpr hclosed)

/- With all threads finished and the accept thread waiting, only the destructors go on. -/
theorem ending_of_finished {m : Fd} {addr : SockaddrIn} {tr : List (State × Action)} {s : State}
    (r : Run step (initial m addr) tr s) {interrupted : Actor} (hlive : s.Live interrupted)
    (hall : s.AllFinished) (hacceptor : s.acceptor = .accept) {tr' : List (Shutdown × Event)} {z : Shutdown}
    (r' : Run (Shutdown.step m) (Shutdown.begin s interrupted) tr' z) :
    Ending m s (tr'.filterMap Shutdown.closedObject) z := by
  obtain ⟨hsafe,hkeys⟩ := run_keys r
  have hmain : interrupted = .acceptor := by
    cases interrupted with
    | acceptor => rfl
    | client k =>
      obtain ⟨t,ht,hpc⟩ := hlive
      exact absurd (hall k t ht) hpc
  subst hmain
  exact run_ending ⟨rfl,hacceptor,rfl,rfl,.isRunning (no_clients hsafe hkeys hall hacceptor)⟩ hall r'

theorem leavesNothing_of_finished {m : Fd} {addr : SockaddrIn} {tr : List (State × Action)} {s : State}
    (r : Run step (initial m addr) tr s) {interrupted : Actor} (hlive : s.Live interrupted)
    (hall : s.AllFinished) (hacceptor : s.acceptor = .accept) :
    LeavesNothing m (tr.filterMap closedObject) s interrupted := by
  obtain ⟨hlistener,hconnections⟩ := closed_before r hall hacceptor
  intro tr' z r' hdone
  have hending := ending_of_finished r hlive hall hacceptor r'
  refine ⟨fun k t ht => hall k t (by rw [← hending.thread]; exact ht),fun o ho => ?_,
    fun a z' hs => (hending.serverStep hall hs).1⟩
  have hcloses : tr'.filterMap Shutdown.closedObject = [.listener] := by
    have hphase := hending.phase
    rw [hdone] at hphase
    generalize tr'.filterMap Shutdown.closedObject = closes at hphase
    cases hphase
    rfl
  rw [hcloses,List.count_append]
  cases o with
  | listener => rw [hlistener]; rfl
  | connection c =>
    have hc : c < s.accepted := by
      have := hending.accepted
      rw [← this]
      exact ho
    rw [hconnections c hc]
    rfl

/-- A shutdown is clean exactly if it finds that no thread has been started, and the accept
thread waiting in `accept`; but for the joins, it leaves nothing exactly if all threads have
finished and the accept thread is waiting. -/
theorem shutdown_clean {m : Fd} {addr : SockaddrIn} {tr : List (State × Action)} {s : State}
    (r : Run step (initial m addr) tr s) (hrun : s.shared.terminated = false) (interrupted : Actor)
    (hlive : s.Live interrupted) :
    (ShutsDown m (tr.filterMap closedObject) s interrupted ↔ s.started = 0 ∧ s.acceptor = .accept) ∧
    (LeavesNothing m (tr.filterMap closedObject) s interrupted ↔
      s.AllFinished ∧ s.acceptor = .accept) := by
  obtain ⟨hsafe,_⟩ := run_keys r
  refine ⟨⟨fun h => ⟨?_,(h.1.finished hsafe.locks hrun).2⟩,?_⟩,
    fun h => h.finished hsafe.locks hrun,
    fun ⟨hall,hacceptor⟩ => leavesNothing_of_finished r hlive hall hacceptor⟩
  · refine Nat.eq_zero_of_not_pos fun hpos => ?_
    have hsome := (hsafe.ownership.threads 0).mpr hpos
    rw [h.no_thread hrun 0] at hsome
    cases hsome
  · rintro ⟨hstarted,hacceptor⟩
    have hnone (k : ℕ) : s.thread k = none := by
      cases ht : s.thread k with
      | none => rfl
      | some t =>
        have hlt := hsafe.ownership.thread_lt ht
        omega
    have hall : s.AllFinished := fun k t ht => (by cases (hnone k).symm.trans ht)
    refine ⟨leavesNothing_of_finished r hlive hall hacceptor,fun tr' z r' _ k t ht => ?_⟩
    rw [(ending_of_finished r hlive hall hacceptor r').thread] at ht
    cases (hnone k).symm.trans ht

/- A client joins and leaves, and its thread finishes. -/
def leftSchedule : List Action :=
  acceptOn 4 ++ clientSteps 0 (joinTo 1) ++
  clientSteps 0 ([.read (some []),.tick,.closed true] ++ List.replicate 3 .tick ++ [.tick]) ++
  clientSteps 0 (distributeTo 0 33 ++ [.tick,.tick] ++ [.tick,.tick,.tick])

/- Before anybody has come; and behind a client that has left, whose thread is not joined. -/
theorem shutdown_clean_left :
    let r := runOf step (initial 3 ⟨0,0⟩) [.acceptor .refused]
    let r' := runOf step (initial 3 ⟨0,0⟩) leftSchedule
    ShutsDown 3 (r.1.filterMap closedObject) r.2 .acceptor ∧
    LeavesNothing 3 (r'.1.filterMap closedObject) r'.2 .acceptor ∧
    ¬ ShutsDown 3 (r'.1.filterMap closedObject) r'.2 .acceptor := by
  have hrun := runOf_run step (initial 3 ⟨0,0⟩) [.acceptor .refused] (by decide +kernel)
  have hrun' := runOf_run step (initial 3 ⟨0,0⟩) leftSchedule (by decide +kernel)
  have hone : (runOf step (initial 3 ⟨0,0⟩) leftSchedule).2.started = 1 := by decide +kernel
  obtain ⟨hclean,hnothing⟩ := shutdown_clean hrun' (by decide +kernel) .acceptor trivial
  refine ⟨(shutdown_clean hrun (by decide +kernel) .acceptor trivial).1.mpr
    ⟨by decide +kernel,by decide +kernel⟩,hnothing.mpr ⟨?_,by decide +kernel⟩,fun h => ?_⟩
  · intro k t ht
    have hlt := (run_safe hrun').ownership.thread_lt ht
    obtain rfl : k = 0 := by omega
    have hpc : ((runOf step (initial 3 ⟨0,0⟩) leftSchedule).2.thread 0).map SocketThread.pc =
        some .finished := by decide +kernel
    rw [ht] at hpc
    exact Option.some.inj hpc
  · have hzero := (hclean.mp h).1
    omega

/- Nobody joins a thread that waits in `read`. -/
theorem shutdown_leaves_thread :
    ¬ ∀ (m : Fd) (addr : SockaddrIn) (tr : List (State × Action)) (s : State) (interrupted : Actor),
      Run step (initial m addr) tr s → s.shared.terminated = false → s.Live interrupted →
        ShutsDown m (tr.filterMap closedObject) s interrupted := by
  intro h
  have hrun := runOf_run step (initial 3 ⟨0,0⟩) (acceptOn 4 ++ clientSteps 0 (joinTo 1))
    (by decide +kernel)
  have hclean := h _ _ _ _ .acceptor hrun (by decide +kernel) trivial
  have hnone := hclean.no_thread (by decide +kernel) 0
  have hpc : ((runOf step (initial 3 ⟨0,0⟩) (acceptOn 4 ++ clientSteps 0 (joinTo 1))).2.thread 0).isSome =
      true := by decide +kernel
  rw [hnone] at hpc
  cases hpc

end TcpProjects.ChatServer
