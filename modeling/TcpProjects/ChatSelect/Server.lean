import TcpProjects.ChatSelect.Client
import TcpProjects.ChatSelect.ReadPass
import Mathlib.Data.List.Nodup

/-! # The select-based chat server

`runServer` of `server.cpp` and the connections of its clients. `main` makes the server and
never calls `runServer`; it is modelled as it stands. The table of the names is declared
with its dimensions the other way round: 32 rows of 22 bytes, indexed by the descriptor,
for records of 32 bytes. -/

namespace TcpProjects.ChatSelect
open ChatServer Transition

/-! ### States -/

/- The lines of the standard output. -/
inductive Output where
  | connected (username : Bytes)
  | message (username text : Bytes)
  deriving DecidableEq

/- Where `runServer` is. `readfds` holds the client sockets that `select` reported;
`clientSocket` is the iterator, and behind a `send` it goes on at `rest`. It is `killed` by
`SIGPIPE`. -/
inductive PC (ι : Type*) where
  | select
  | acceptClient (readfds : List Fd)
  | readUsername (newSocket : Fd) (i : ι) (readfds : List Fd)
  | readMessages (clientSocket : List (Fd × ι)) (readfds : List Fd)
  | send (clientSocket : Fd) (i : ι) (rest : List (Fd × ι)) (readfds : List Fd)
  | killed
  deriving DecidableEq

/- A descriptor stands with the client at the other end of its connection. Of a client's
stream, `delivered` bytes have come and `consumed` of these were read; `closed` says that
the end of the stream has come too. -/
structure Server (ι : Type*) where
  pc : PC ι
  clientSockets : List (Fd × ι)
  pending : List ι
  delivered : ι → ℕ
  closed : ι → Bool
  consumed : ι → ℕ
  username : Buffer 704
  message : Buffer 2048
  stdout : List (Fd × Output)

/- The arrays of `runServer` are not initialised. -/
def Server.start {ι : Type*} (username : Buffer 704) (message : Buffer 2048) : Server ι :=
  ⟨.select,[],[],fun _ => 0,fun _ => false,fun _ => 0,username,message,[]⟩

/- What the clients and the connections do, and the steps of the server: what `accept`
returns, a `read` that returns -1, the return of `send` and its end by `SIGPIPE`, and
everything else. While `send` blocks, none of its steps is taken. -/
inductive Action (ι : Type*) where
  | connect (i : ι)
  | deliver (i : ι) (n : ℕ)
  | close (i : ι)
  | accept (newSocket : Fd)
  | failed
  | sent
  | sigpipe
  | server

namespace Server
variable {ι : Type*} [DecidableEq ι] (clients : ι → Client) (s : Server ι)

/-! ### The system calls -/

def available (i : ι) : ℕ := s.delivered i - s.consumed i

/- `read` would not block. -/
def readable (i : ι) : Bool := decide (0 < s.available i) || s.closed i

/- The next chunk, empty at the end of the stream; `none` while `read` blocks. -/
def read (i : ι) (size : ℕ) : Option Bytes :=
  if s.readable i then
    some (((clients i).stream.drop (s.consumed i)).take (min size (s.available i)))
  else none

def consume (i : ι) (chunk : Bytes) : Server ι :=
  { s with consumed := Function.update s.consumed i (s.consumed i+chunk.length) }

def goto (pc : PC ι) : Server ι := { s with pc }
def print (clientSocket : Fd) (line : Output) : Server ι :=
  { s with stdout := s.stdout ++ [(clientSocket,line)] }

def connected (i : ι) : Bool := decide (i ∈ s.pending) || decide (i ∈ s.clientSockets.map Prod.snd)

/- The client sockets that `select` reports. -/
def readfds : List Fd := (s.clientSockets.filter fun p => s.readable p.2).map Prod.fst

/-! ### runServer -/

/- `username[fd]`, up to its terminator: a row without one runs on into the next. -/
def usernameAt (fd : Fd) : Bytes := cText (s.username.val.drop (22*fd))

/- `select` blocks while neither the master socket nor a client is ready. -/
def runSelect : Option (Server ι) :=
  if s.pending ≠ [] then some (s.goto (.acceptClient s.readfds))
  else if s.readfds ≠ [] then some (s.goto (.readMessages s.clientSockets s.readfds))
  else none

/- A row behind the table is outside of it. -/
def storeUsername (newSocket : Fd) (chunk : Bytes) : Server ι :=
  { s with username := s.username.write ⟨22*newSocket,chunk⟩ }

def runReadUsername (newSocket : Fd) (i : ι) (readfds : List Fd) : Option (Server ι) :=
  (s.read clients i 22).map fun chunk =>
    let s := (s.consume i chunk).storeUsername newSocket chunk
    (s.print newSocket (.connected (s.usernameAt newSocket))).goto
      (.readMessages s.clientSockets readfds)

/- The branches behind `read`. The text that is printed is sent back. -/
def afterRead (clientSocket : Fd) (i : ι) (rest : List (Fd × ι)) (readfds : List Fd) (r : Option Bytes) :
    Server ι :=
  match readMessage s.message r with
  | (message,.failed) => { s with message, pc := .readMessages rest readfds }
  | (message,.empty) => { s with message, pc := .readMessages ((clientSocket,i) :: rest) readfds }
  | (message,.print text) =>
    { s with message, pc := .send clientSocket i rest readfds }.print clientSocket
      (.message (s.usernameAt clientSocket) text)

def runReadMessages (readfds : List Fd) : List (Fd × ι) → Option (Server ι)
  | [] => some (s.goto .select)
  | (clientSocket,i) :: rest =>
    if clientSocket ∈ readfds then
      (s.read clients i 2048).map fun chunk =>
        (s.consume i chunk).afterRead clientSocket i rest readfds (some chunk)
    else some (s.goto (.readMessages rest readfds))

/- `read` may fail at the end of the stream of a client that has closed, when the connection
was reset. -/
def readFails : Option (Server ι) :=
  match s.pc with
  | .readMessages ((clientSocket,i) :: rest) readfds =>
    if clientSocket ∈ readfds ∧ s.closed i ∧ s.available i = 0 then
      some (s.afterRead clientSocket i rest readfds none)
    else none
  | _ => none

/- Nothing is done with what `send` returns. -/
def sendReturns : Option (Server ι) :=
  match s.pc with
  | .send _ _ rest readfds => some (s.goto (.readMessages rest readfds))
  | _ => none

/- `SIGPIPE`, where the client has closed and its side has reset the connection. -/
def sendKills : Option (Server ι) :=
  match s.pc with
  | .send _ i _ _ => if s.closed i then some (s.goto .killed) else none
  | _ => none

/- `accept` returns a descriptor that is not in use. -/
def acceptClient (newSocket : Fd) : Option (Server ι) :=
  match s.pc,s.pending with
  | .acceptClient readfds,i :: pending =>
    if newSocket ∈ s.clientSockets.map Prod.fst then none
    else some { s with
      pc := .readUsername newSocket i readfds
      pending
      clientSockets := s.clientSockets ++ [(newSocket,i)] }
  | _,_ => none

def runServer : Option (Server ι) :=
  match s.pc with
  | .select => s.runSelect
  | .acceptClient _ => none
  | .readUsername newSocket i readfds => s.runReadUsername clients newSocket i readfds
  | .readMessages clientSocket readfds => s.runReadMessages clients readfds clientSocket
  | .send _ _ _ _ | .killed => none

/- A client connects once, and closes when its whole stream has come. -/
def step : Action ι → Option (Server ι)
  | .connect i => if s.connected i then none else some { s with pending := s.pending ++ [i] }
  | .deliver i n =>
    if s.connected i ∧ s.delivered i+n ≤ (clients i).stream.length then
      some { s with delivered := Function.update s.delivered i (s.delivered i+n) }
    else none
  | .close i =>
    if s.connected i ∧ s.delivered i = (clients i).stream.length then
      some { s with closed := Function.update s.closed i true }
    else none
  | .accept newSocket => s.acceptClient newSocket
  | .failed => s.readFails
  | .sent => s.sendReturns
  | .sigpipe => s.sendKills
  | .server => s.runServer clients

/-! ### What a step does -/

variable {clients s} {s' : Server ι} {clientSocket : Fd} {i : ι} {rest : List (Fd × ι)} {readfds : List Fd}

omit [DecidableEq ι] in
theorem acceptClient_some {newSocket : Fd} (h : s.acceptClient newSocket = some s') :
    ∃ i pending readfds, s.pc = .acceptClient readfds ∧ s.pending = i :: pending ∧
      newSocket ∉ s.clientSockets.map Prod.fst ∧ s' = { s with
        pc := .readUsername newSocket i readfds
        pending := pending
        clientSockets := s.clientSockets ++ [(newSocket,i)] } := by
  unfold acceptClient at h
  split at h
  next readfds i pending hpc hpending =>
    split_ifs at h with hfresh
    exact ⟨i,pending,readfds,hpc,hpending,hfresh,(Option.some.inj h).symm⟩
  next => cases h

omit [DecidableEq ι] in
theorem read_some {size : ℕ} {chunk : Bytes} (h : s.read clients i size = some chunk) :
    chunk = ((clients i).stream.drop (s.consumed i)).take (min size (s.available i)) := by
  unfold read at h
  split_ifs at h
  exact (Option.some.inj h).symm

/- A client is passed over, read again, or printed. -/
theorem runReadMessages_cases (h : s.runReadMessages clients readfds ((clientSocket,i) :: rest) = some s') :
    (clientSocket ∉ readfds ∧ s' = s.goto (.readMessages rest readfds)) ∨
    clientSocket ∈ readfds ∧ ∃ chunk, s.read clients i 2048 = some chunk ∧
      ((cText (s.message.store chunk).val = [] ∧
          s' = { s.consume i chunk with
            message := s.message.store chunk
            pc := .readMessages ((clientSocket,i) :: rest) readfds }) ∨
        (cText (s.message.store chunk).val ≠ [] ∧
          s' = { s.consume i chunk with
            message := s.message.store chunk
            pc := .send clientSocket i rest readfds }.print clientSocket
              (.message (s.usernameAt clientSocket) (cText (s.message.store chunk).val)))) := by
  rw [runReadMessages] at h
  split_ifs at h with hready
  · obtain ⟨chunk,hchunk,rfl⟩ := Option.map_eq_some_iff.mp h
    refine Or.inr ⟨hready,chunk,hchunk,?_⟩
    by_cases htext : cText (s.message.store chunk).val = []
    · exact Or.inl ⟨htext,by simp [afterRead,readMessage,consume,htext]⟩
    · exact Or.inr ⟨htext,by simp [afterRead,readMessage,consume,usernameAt,htext]⟩
  · exact Or.inl ⟨hready,(Option.some.inj h).symm⟩

omit [DecidableEq ι] in
theorem readFails_some (h : s.readFails = some s') :
    ∃ clientSocket i rest readfds, s.pc = .readMessages ((clientSocket,i) :: rest) readfds ∧
      clientSocket ∈ readfds ∧ s.closed i = true ∧ s.available i = 0 ∧
      s' = s.goto (.readMessages rest readfds) := by
  unfold readFails at h
  split at h
  next clientSocket i rest readfds hpc =>
    split_ifs at h with hreset
    exact ⟨clientSocket,i,rest,readfds,hpc,hreset.1,hreset.2.1,hreset.2.2,(Option.some.inj h).symm⟩
  next => cases h

omit [DecidableEq ι] in
theorem sendReturns_some (h : s.sendReturns = some s') :
    ∃ clientSocket i rest readfds, s.pc = .send clientSocket i rest readfds ∧
      s' = s.goto (.readMessages rest readfds) := by
  unfold sendReturns at h
  split at h
  next clientSocket i rest readfds hpc =>
    exact ⟨clientSocket,i,rest,readfds,hpc,(Option.some.inj h).symm⟩
  next => cases h

omit [DecidableEq ι] in
theorem sendKills_some (h : s.sendKills = some s') :
    ∃ clientSocket i rest readfds, s.pc = .send clientSocket i rest readfds ∧ s.closed i = true ∧
      s' = s.goto .killed := by
  unfold sendKills at h
  split at h
  next clientSocket i rest readfds hpc =>
    split_ifs at h with hclosed
    exact ⟨clientSocket,i,rest,readfds,hpc,hclosed,(Option.some.inj h).symm⟩
  next => cases h

/- The round is one of the pass in which `read` returns what the stream gives. -/
theorem runReadMessages_next {v : Visit} {visits : List Visit} {tries : ℕ} {reads : List Fd}
    {printed : List (Fd × Bytes)} (hready : v.ready = decide (clientSocket ∈ readfds))
    (hread : v.read tries = (s.read clients i 2048).map some)
    (h : s.runReadMessages clients readfds ((clientSocket,i) :: rest) = some s') :
    ∃ p, Pass.next ⟨v :: visits,s.message,tries,false,reads,printed⟩ () = some p ∧ p.message = s'.message ∧
      (p.rest = visits ∧ p.sending = false ∧ s'.pc = .readMessages rest readfds ∨
        p.rest = v :: visits ∧ p.sending = false ∧ s'.pc = .readMessages ((clientSocket,i) :: rest) readfds ∨
        p.rest = v :: visits ∧ p.sending = true ∧ s'.pc = .send clientSocket i rest readfds) := by
  rcases runReadMessages_cases h with ⟨hnot,rfl⟩ | ⟨hmem,chunk,hchunk,htext⟩
  · exact ⟨_,next_skip rfl rfl (hready.trans (decide_eq_false hnot)),rfl,Or.inl ⟨rfl,rfl,rfl⟩⟩
  · have hr : v.ready = true := hready.trans (decide_eq_true hmem)
    rw [hchunk] at hread
    rcases htext with ⟨hempty,rfl⟩ | ⟨hne,rfl⟩
    · exact ⟨_,next_again rfl rfl hr hread hempty,rfl,Or.inr (Or.inl ⟨rfl,rfl,rfl⟩)⟩
    · exact ⟨_,next_print rfl rfl hr hread hne,rfl,Or.inr (Or.inr ⟨rfl,rfl,rfl⟩)⟩

/- So are a `read` that fails and the return of `send`. -/
omit [DecidableEq ι] in
theorem readFails_next {v : Visit} {visits : List Visit} {tries : ℕ} {reads : List Fd}
    {printed : List (Fd × Bytes)} (hready : v.ready = true) (hread : v.read tries = some none)
    (h : s.readFails = some s') : ∃ p, Pass.next ⟨v :: visits,s.message,tries,false,reads,printed⟩ () = some p ∧
      p.message = s'.message ∧ p.rest = visits ∧ p.sending = false := by
  obtain ⟨_,_,_,_,_,_,_,_,rfl⟩ := readFails_some h
  exact ⟨_,next_failed rfl rfl hready hread,rfl,rfl,rfl⟩

omit [DecidableEq ι] in
theorem sendReturns_next {v : Visit} {visits : List Visit} {tries : ℕ} {reads : List Fd}
    {printed : List (Fd × Bytes)} (hsent : v.sent = .returned) (h : s.sendReturns = some s') :
    ∃ p, Pass.next ⟨v :: visits,s.message,tries,true,reads,printed⟩ () = some p ∧
      p.message = s'.message ∧ p.rest = visits ∧ p.sending = false := by
  obtain ⟨_,_,_,_,_,rfl⟩ := sendReturns_some h
  exact ⟨_,next_sent rfl rfl hsent,rfl,rfl,rfl⟩

end Server

end TcpProjects.ChatSelect
