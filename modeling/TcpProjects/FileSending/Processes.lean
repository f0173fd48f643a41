import TcpProjects.Base.Transition
import TcpProjects.Base.CString

/-! # The file server and its client

`main` of `server.cpp` and of `client.cpp` as two processes with one connection
between them. Every call that can fail or wait is a step, and its answer is part of
the action. The server has opened its file; `SIGINT` may come at any time. -/

namespace TcpProjects.FileSending
open Transition

def bufferSize : ℕ := 256

/- The connection as the client sees it. `closed` comes after `established`: what is in
flight is still delivered, and then the end of the stream. A connection that was never
accepted is `down` when the listener is closed. -/
inductive Link where
  | down
  | listening
  | pending
  | established
  | closed
  deriving DecidableEq

def Link.close : Link → Link
  | .established => .closed
  | .closed => .closed
  | _ => .down

/- `exitHandler` is `close(file)` and the call of `exitHandler(0)` at the end of `main`;
`failed` is every other end of the process. -/
inductive ServerPC where
  | listen
  | accept
  | sendfile
  | exitHandler
  | returned
  | failed
  deriving DecidableEq

/- `while(sentBytes != 0)`. -/
def ServerPC.afterRound (sentBytes : ℕ) : ServerPC := if sentBytes ≠ 0 then .sendfile else .exitHandler

/- `write` holds what `recv` stored in `buffer`. -/
inductive ClientPC where
  | fopen
  | connect
  | openFile
  | recv
  | write (buffer : Bytes)
  | close
  | returned
  | failed
  deriving DecidableEq

/- `while(sizeRead != 0)`. -/
def ClientPC.afterRound (sizeRead : ℕ) : ClientPC := if sizeRead ≠ 0 then .recv else .close

/- `deleted` says that `exitHandler` has closed the sockets and deleted `tcpServer`. -/
structure Server where
  pc : ServerPC
  offset : ℕ
  totalSentBytes : ℕ
  deleted : Bool
  deriving DecidableEq

/- `target` are the contents of the file and `position` is that of the descriptor. -/
structure Client where
  pc : ClientPC
  totalSizeRead : ℕ
  target : Bytes
  position : ℕ
  deriving DecidableEq

structure State where
  server : Server
  client : Client
  link : Link
  network : Bytes
  deriving DecidableEq

/- `tick` where nothing is answered, `done` for calls that may fail, and the return value of
`sendfile`, `recv` and `write`, where `none` is -1. -/
inductive Answer where
  | tick
  | done (ok : Bool)
  | count (r : Option ℕ)
  deriving DecidableEq

inductive Action where
  | server (ans : Answer)
  | client (ans : Answer)
  | interrupt
  deriving DecidableEq

/- The end of the server's process. -/
def State.exit (s : State) : State :=
  { s with server := { s.server with pc := .failed }, link := s.link.close }

def State.fail (s : State) : State := { s with client := { s.client with pc := .failed } }

/- `sendfile` reads from `offset` on, and returns 0 at the end of the file only. -/
def sendfileReturns (source : Bytes) (offset n : ℕ) : Prop :=
  n ≤ bufferSize ∧ offset+n ≤ source.length ∧ (n = 0 → source.length ≤ offset)

instance (source : Bytes) (offset n : ℕ) : Decidable (sendfileReturns source offset n) :=
  inferInstanceAs (Decidable (_ ∧ _ ∧ _))

/- `recv` returns 0 at the end of the stream only. -/
def recvReturns (s : State) (n : ℕ) : Prop :=
  n ≤ bufferSize ∧ n ≤ s.network.length ∧ (n = 0 → s.network = [] ∧ s.link = .closed)

instance (s : State) (n : ℕ) : Decidable (recvReturns s n) :=
  inferInstanceAs (Decidable (_ ∧ _ ∧ _))

/- The contents after `data` was written at a position. -/
def overwrite (target : Bytes) (position : ℕ) (data : Bytes) : Bytes :=
  target.take position ++ data ++ target.drop (position+data.length)

def serverStep (source : Bytes) (s : State) (ans : Answer) : Option State :=
  match s.server.pc, ans with
  | .listen, .done true =>
    if s.server.deleted then none
    else some { s with server := { s.server with pc := .accept }, link := .listening }
  | .accept, .done true =>
    if s.link = .pending then
      some { s with server := { s.server with pc := .sendfile }, link := .established }
    else none
  | .sendfile, .count (some n) =>
    if s.link = .established ∧ sendfileReturns source s.server.offset n then
      some { s with
        server := { s.server with
          pc := .afterRound n
          offset := s.server.offset+n
          totalSentBytes := s.server.totalSentBytes+n }
        network := s.network ++ (source.drop s.server.offset).take n }
    else none
  -- an exception, or sendfile returned -1
  | .listen, .done false => some s.exit
  | .accept, .done false => some s.exit
  | .sendfile, .count none => some s.exit
  -- a second delete of the server is undefined; here it ends the process
  | .exitHandler, .tick =>
    if s.server.deleted then some s.exit
    else some { s with
      server := { s.server with pc := .returned, deleted := true }
      link := s.link.close }
  | _, _ => none

def clientStep (s : State) (ans : Answer) : Option State :=
  match s.client.pc, ans with
  | .fopen, .done true => some { s with client := { s.client with pc := .connect, target := [] } }
  | .connect, .done true =>
    if s.link = .listening then
      some { s with client := { s.client with pc := .openFile }, link := .pending }
    else none
  | .openFile, .done true =>
    some { s with client := { s.client with pc := .recv, position := 0 } }
  | .recv, .count (some n) =>
    if recvReturns s n then
      some { s with
        client := { s.client with pc := .write (s.network.take n) }
        network := s.network.drop n }
    else none
  | .write buffer, .count (some k) =>
    if k ≤ buffer.length then
      some { s with
        client :=
          { pc := .afterRound buffer.length
            totalSizeRead := s.client.totalSizeRead+buffer.length
            target := overwrite s.client.target s.client.position (buffer.take k)
            position := s.client.position+k } }
    else none
  | .close, .tick => some { s with client := { s.client with pc := .returned } }
  -- fclose of a null pointer, an exception, or a return of -1
  | .fopen, .done false => some s.fail
  | .connect, .done false => some s.fail
  | .openFile, .done false => some s.fail
  | .recv, .count none => some s.fail
  | .write _, .count none => some s.fail
  | _, _ => none

/- `SIGINT` runs `exitHandler`; after that `main` goes on where it was. -/
def interrupt (s : State) : Option State :=
  if s.server.pc = .returned ∨ s.server.pc = .failed then none
  else if s.server.deleted then some s.exit
  else some { s with server := { s.server with deleted := true }, link := s.link.close }

def step (source : Bytes) (s : State) : Action → Option State
  | .server ans => serverStep source s ans
  | .client ans => clientStep s ans
  | .interrupt => interrupt s

/- The file at the download path has some old contents. -/
def start (old : Bytes) : State where
  server := ⟨.listen,0,0,false⟩
  client := ⟨.fopen,0,old,0⟩
  link := .down
  network := []

/-! ### What a step can do -/

inductive Step (source : Bytes) (s : State) : Action → State → Prop
  | listen (hpc : s.server.pc = .listen) (hd : s.server.deleted = false) :
      Step source s (.server (.done true))
        { s with server := { s.server with pc := .accept }, link := .listening }
  | accept (hpc : s.server.pc = .accept) (hl : s.link = .pending) :
      Step source s (.server (.done true))
        { s with server := { s.server with pc := .sendfile }, link := .established }
  | sendfile {n : ℕ} (hpc : s.server.pc = .sendfile) (hl : s.link = .established)
      (hn : sendfileReturns source s.server.offset n) :
      Step source s (.server (.count (some n)))
        { s with
          server := { s.server with
            pc := .afterRound n
            offset := s.server.offset+n
            totalSentBytes := s.server.totalSentBytes+n }
          network := s.network ++ (source.drop s.server.offset).take n }
  | exit {ans : Answer} (hpc : s.server.pc ≠ .returned ∧ s.server.pc ≠ .failed)
      (hans : ans = .done false ∨ ans = .count none ∨ ans = .tick ∧ s.server.deleted = true) :
      Step source s (.server ans) s.exit
  | exitHandler (hpc : s.server.pc = .exitHandler) (hd : s.server.deleted = false) :
      Step source s (.server .tick)
        { s with
          server := { s.server with pc := .returned, deleted := true }
          link := s.link.close }
  | fopen (hpc : s.client.pc = .fopen) : Step source s (.client (.done true))
      { s with client := { s.client with pc := .connect, target := [] } }
  | connect (hpc : s.client.pc = .connect) (hl : s.link = .listening) :
      Step source s (.client (.done true))
        { s with client := { s.client with pc := .openFile }, link := .pending }
  | openFile (hpc : s.client.pc = .openFile) : Step source s (.client (.done true))
      { s with client := { s.client with pc := .recv, position := 0 } }
  | recv {n : ℕ} (hpc : s.client.pc = .recv) (hn : recvReturns s n) :
      Step source s (.client (.count (some n)))
        { s with
          client := { s.client with pc := .write (s.network.take n) }
          network := s.network.drop n }
  | write {buffer : Bytes} {k : ℕ} (hpc : s.client.pc = .write buffer) (hk : k ≤ buffer.length) :
      Step source s (.client (.count (some k)))
        { s with
          client :=
            { pc := .afterRound buffer.length
              totalSizeRead := s.client.totalSizeRead+buffer.length
              target := overwrite s.client.target s.client.position (buffer.take k)
              position := s.client.position+k } }
  | close (hpc : s.client.pc = .close) : Step source s (.client .tick)
      { s with client := { s.client with pc := .returned } }
  | fail {ans : Answer} (hans : ans = .done false ∨ ans = .count none) :
      Step source s (.client ans) s.fail
  | interrupt (hd : s.server.deleted = false) : Step source s .interrupt
      { s with server := { s.server with deleted := true }, link := s.link.close }
  | abort (hpc : s.server.pc ≠ .returned ∧ s.server.pc ≠ .failed) : Step source s .interrupt s.exit

theorem step_cases {source : Bytes} {s s' : State} {a : Action} (h : step source s a = some s') :
    Step source s a s' := by
  cases a with
  | server ans =>
    simp only [step,serverStep] at h
    split at h <;> (try split_ifs at h) <;> cases h
    · exact .listen ‹_› (Bool.eq_false_iff.mpr ‹_›)
    · exact .accept ‹_› ‹_›
    · exact .sendfile ‹_› (And.left ‹_›) (And.right ‹_›)
    · exact .exit (by simp [‹s.server.pc = _›]) (by simp)
    · exact .exit (by simp [‹s.server.pc = _›]) (by simp)
    · exact .exit (by simp [‹s.server.pc = _›]) (by simp)
    · exact .exit (by simp [‹s.server.pc = _›]) (by simp [‹s.server.deleted = true›])
    · exact .exitHandler ‹_› (Bool.eq_false_iff.mpr ‹_›)
  | client ans =>
    simp only [step,clientStep] at h
    split at h <;> (try split_ifs at h) <;> cases h
    · exact .fopen ‹_›
    · exact .connect ‹_› ‹_›
    · exact .openFile ‹_›
    · exact .recv ‹_› ‹_›
    · exact .write ‹_› ‹_›
    · exact .close ‹_›
    all_goals exact .fail (by simp)
  | interrupt =>
    simp only [step,FileSending.interrupt] at h
    split_ifs at h with hends hd <;> cases h
    · exact .abort (not_or.mp hends)
    · exact .interrupt (Bool.eq_false_iff.mpr hd)

end TcpProjects.FileSending
