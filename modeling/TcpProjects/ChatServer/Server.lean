import TcpProjects.Base.Transition
import TcpProjects.Base.OrderedMap
import TcpProjects.ChatServer.Message

/-! # The threaded chat server as a transition system

`TCPChatServer::runServer` (the accept thread) and one `socketThread` per
accepted connection, with `distributeData`, `Event::sendEvent`,
`TCPServer::acceptClient` and `TCPServer::closeSocket` inlined where they are
called. Every `lock`, `unlock`, system call and map operation is one step of
one thread. What the operating system answers (the number `accept` returns,
what `read`, `send` and `close` return, the old stack contents of a new
thread) is part of the action. The destructor does not run, and memory and
threads can always be had. -/

namespace TcpProjects.ChatServer
open Transition

structure SockaddrIn where
  sin_addr : BitVec 32
  sin_port : BitVec 16
  deriving DecidableEq

/-- What an open descriptor number denotes. Connections are numbered in the
order in which they were accepted. -/
inductive Object where
  | listener
  | connection (c : ℕ)
  deriving DecidableEq

/-- The thread that holds a mutex; the `k`-th `socketThread` serves connection `k`. -/
inductive Actor where
  | acceptor
  | client (k : ℕ)
  deriving DecidableEq

/-! ### Program points -/

/-- Inside `distributeData`: the lock, `begin()`, the loop test with the iterator
(the end sends nothing and unlocks), `clientSocket++`. -/
inductive DistributeAt where
  | lock
  | begin
  | loop (it : Option Fd)
  | next (it : Fd)
  deriving DecidableEq

/-- `stdoutMut.lock()`, then the `fprintf` and `stdoutMut.unlock()`. -/
inductive PrintAt where
  | lock
  | unlock
  deriving DecidableEq

/-- `mut.lock()`, the steps of `closeSocket` and `mut.unlock()`. -/
inductive CloseAt where
  | lock
  | close
  | isServerSocket
  | eraseServer
  | isClientSocket
  | eraseClient
  | unlock
  deriving DecidableEq

inductive EraseAt where
  | lock
  | erase
  | unlock
  deriving DecidableEq

inductive PC where
  | distribute (p : Payload) (l : DistributeAt)
  | print (p : Payload) (l : PrintAt)
  | read
  | sendEvent
  | closeSocket (l : CloseAt)
  | eraseThread (l : EraseAt)
  | finished
  deriving DecidableEq

structure SocketThread where
  socket : Fd
  id : BitVec 32
  stack : Stack
  pc : PC

/-- Points of `runServer`; the number just accepted is `clientSocket`, the
number of the thread just created stands for its pointer. -/
inductive AcceptPC where
  | accept
  | insert (clientSocket : Fd) (addr : SockaddrIn)
  | lock (clientSocket : Fd)
  | newThread (clientSocket : Fd)
  | insertThread (thread : ℕ)
  | unlock
  deriving DecidableEq

/- The server object (`mutex` is its `mut`), the descriptor table of the process, and whether
`std::terminate` has ended the process because an exception left a thread. -/
structure Shared where
  table : Fd → Option Object
  serverSockets : OrderedMap Fd SockaddrIn
  clientSockets : OrderedMap Fd SockaddrIn
  threads : OrderedMap ℤ ℕ
  mutex : Option Actor
  stdoutMut : Option Actor
  terminated : Bool

/- `accepted` and `started` count the connections and the threads so far,
`gone c` says that the peer of connection `c` has gone away. -/
structure State where
  shared : Shared
  acceptor : AcceptPC
  id : BitVec 32
  accepted : ℕ
  started : ℕ
  thread : ℕ → Option SocketThread
  gone : ℕ → Bool

/-! ### Steps -/

/-- What the operating system answers in a step, `tick` where it is not asked. -/
inductive Answer where
  | tick
  | accepted (fd : Fd) (addr : SockaddrIn)
  | refused
  | started (stack : Stack)
  | read (r : Option Bytes)
  | sent (r : Option ℕ)
  | closed (ok : Bool)

inductive Action where
  | acceptor (ans : Answer)
  | client (k : ℕ) (ans : Answer)
  | leave (c : ℕ)

def Action.client? : Action → Option ℕ
  | .client k _ => some k
  | _ => none

/-- Where `socketThread` goes on after a call of `distributeData`; only the join
and the quit message are printed under `stdoutMut`. -/
def Payload.after : Payload → PC
  | .join => .print .join .lock
  | .quit => .print .quit .lock
  | .chat _ => .read

def Payload.afterPrint : Payload → PC
  | .join => .read
  | .quit => .eraseThread .lock
  | .chat _ => .read

/-- After `read`: `none` is a return of -1 and no bytes one of 0. -/
def afterRead : Option Bytes → PC
  | none => .closeSocket .lock
  | some chunk =>
    if chunk = [] then .closeSocket .lock
    else match receive chunk with
      | .ping => .sendEvent
      | .unknown _ => .read
      | .chat text => .distribute (.chat text) .lock

/-- One step of the `k`-th `socketThread`: the shared state and the program
point it leads to. An exception that nobody catches ends the process; the constructor
of `SendException` prints through a pointer that is never set, so that the process
usually ends before that throw. -/
def socketThread (k : ℕ) (t : SocketThread) (g : Shared) (ans : Answer) : Option (Shared × PC) :=
  match t.pc, ans with
  -- distributeData
  | .distribute p .lock, .tick =>
    if g.mutex = none then some ({ g with mutex := some (.client k) },.distribute p .begin) else none
  | .distribute p .begin, .tick => some (g,.distribute p (.loop g.clientSockets.begin))
  | .distribute p (.loop (some it)), .sent (some _) => some (g,.distribute p (.next it))
  | .distribute _ (.loop (some _)), .sent none => some ({ g with terminated := true },t.pc)
  | .distribute p (.next it), .tick => some (g,.distribute p (.loop (g.clientSockets.next it)))
  | .distribute p (.loop none), .tick => some ({ g with mutex := none },p.after)
  -- fprintf under stdoutMut
  | .print p .lock, .tick =>
    if g.stdoutMut = none then some ({ g with stdoutMut := some (.client k) },.print p .unlock)
    else none
  | .print p .unlock, .tick => some ({ g with stdoutMut := none },p.afterPrint)
  -- the read loop
  | .read, .read r => some (g,afterRead r)
  | .sendEvent, .sent (some _) => some (g,.read)
  | .sendEvent, .sent none => some ({ g with terminated := true },t.pc)
  -- closeSocket under mut
  | .closeSocket .lock, .tick =>
    if g.mutex = none then some ({ g with mutex := some (.client k) },.closeSocket .close) else none
  | .closeSocket .close, .closed true =>
    some ({ g with table := Function.update g.table t.socket none },.closeSocket .isServerSocket)
  | .closeSocket .close, .closed false => some ({ g with terminated := true },t.pc)
  | .closeSocket .isServerSocket, .tick =>
    some (g,.closeSocket (if t.socket ∈ g.serverSockets then .eraseServer else .isClientSocket))
  | .closeSocket .eraseServer, .tick =>
    some ({ g with serverSockets := g.serverSockets.erase t.socket },.closeSocket .unlock)
  | .closeSocket .isClientSocket, .tick =>
    some (g,.closeSocket (if t.socket ∈ g.clientSockets then .eraseClient else .unlock))
  | .closeSocket .eraseClient, .tick =>
    some ({ g with clientSockets := g.clientSockets.erase t.socket },.closeSocket .unlock)
  | .closeSocket .unlock, .tick => some ({ g with mutex := none },.distribute .quit .lock)
  -- threads.erase(id) under mut
  | .eraseThread .lock, .tick =>
    if g.mutex = none then some ({ g with mutex := some (.client k) },.eraseThread .erase) else none
  | .eraseThread .erase, .tick =>
    some ({ g with threads := g.threads.erase t.id.toInt },.eraseThread .unlock)
  | .eraseThread .unlock, .tick => some ({ g with mutex := none },.finished)
  | _, _ => none

/-- One step of `runServer`. A failed `accept` is caught and tried again. The
new thread runs from the moment of its creation, before it is in `threads`. -/
def runServer (s : State) (ans : Answer) : Option State :=
  match s.acceptor, ans with
  | .accept, .refused => some s
  | .accept, .accepted fd addr =>
    if s.shared.table fd = none then
      some { s with
        shared := { s.shared with
          table := Function.update s.shared.table fd (some (.connection s.accepted)) }
        acceptor := .insert fd addr
        accepted := s.accepted + 1 }
    else none
  | .insert fd addr, .tick =>
    some { s with
      shared := { s.shared with clientSockets := s.shared.clientSockets.insert fd addr }
      acceptor := .lock fd }
  | .lock fd, .tick =>
    if s.shared.mutex = none then
      some { s with shared := { s.shared with mutex := some .acceptor }, acceptor := .newThread fd }
    else none
  | .newThread fd, .started stack =>
    some { s with
      thread := Function.update s.thread s.started
        (some ⟨fd,s.id,stack,.distribute .join .lock⟩)
      started := s.started + 1
      acceptor := .insertThread s.started }
  | .insertThread k, .tick =>
    some { s with
      shared := { s.shared with threads := s.shared.threads.insert s.id.toInt k }
      acceptor := .unlock }
  | .unlock, .tick =>
    some { s with
      shared := { s.shared with mutex := none }
      acceptor := .accept
      id := s.id + 1 }
  | _, _ => none

def step (s : State) : Action → Option State
  | .acceptor ans => if s.shared.terminated then none else runServer s ans
  | .client k ans =>
    if s.shared.terminated then none
    else (s.thread k).bind fun t => (socketThread k t s.shared ans).map fun r =>
      { s with
        shared := r.1
        thread := Function.update s.thread k (some { t with pc := r.2 }) }
  | .leave c => some { s with gone := Function.update s.gone c true }

/-- The server after its constructor: only the master socket is open, and it is
in `serverSockets`. -/
def initial (masterSocket : Fd) (addr : SockaddrIn) : State where
  shared :=
    { table := Function.update (fun _ => none) masterSocket (some .listener)
      serverSockets := OrderedMap.empty.insert masterSocket addr
      clientSockets := OrderedMap.empty
      threads := OrderedMap.empty
      mutex := none
      stdoutMut := none
      terminated := false }
  acceptor := .accept
  id := 0
  accepted := 0
  started := 0
  thread := fun _ => none
  gone := fun _ => false

/-! ### Schedules -/

/- The accept thread takes a connection on `fd` and starts its thread. -/
def acceptOn (fd : Fd) : List Action :=
  [Answer.accepted fd ⟨0,0⟩,.tick,.tick,.started ⟨.zero _,.zero _⟩,.tick,.tick].map .acceptor

/- A whole call of `distributeData` with `size` bytes for `n` clients. -/
def distributeTo (n size : ℕ) : List Answer :=
  [.tick,.tick] ++ (List.replicate n [.sent (some size),.tick]).flatten ++ [.tick]

def clientSteps (k : ℕ) (answers : List Answer) : List Action := answers.map (.client k)

/- `distributeData` of the join message for `n` clients, and its `fprintf`. -/
def joinTo (n : ℕ) : List Answer := distributeTo n 30 ++ [.tick,.tick]

/- One client on number 4 joins, sends `hi`, asks for a ping and leaves; then its
number is accepted again. -/
def reuseSchedule : List Action :=
  acceptOn 4 ++
  clientSteps 0 (joinTo 1) ++
  clientSteps 0 (.read (some (ascii "hi")) :: distributeTo 1 12) ++
  clientSteps 0 [.read (some requestPing),.sent (some 11)] ++
  clientSteps 0 [.read (some []),.tick,.closed true,.tick,.tick,.tick,.tick] ++
  acceptOn 4

end TcpProjects.ChatServer
