import TcpProjects.ChatClient.ServerData
import TcpProjects.Lib.TCPException

/-! # How the client learns that the server has gone

`getServerDataThread` and `wait` as two threads. After an orderly close every `recv`
returns 0 at once, and the loop runs for ever. When `recv` returns -1, the constructor of
`ReceiveException` prints a text into `error_msg` that does not fit, before anything is
caught; neither way does `wait` come past its first join. -/

namespace TcpProjects.ChatClient
open ChatServer Transition
open Lib (Errno TCPException)

inductive Ending where
  | orderlyClose
  | error (errno : Errno)
  deriving DecidableEq

/- What the server's side of the connection has for the client. -/
structure Connection where
  localSocket : ℤ
  chunks : List Bytes
  ending : Ending

/-- What the `n`-th call of `recv` returns, or the error it reports with -1. -/
def Connection.recv (c : Connection) (n : ℕ) : Except Errno Bytes :=
  match c.chunks[n]? with
  | some chunk => .ok chunk
  | none =>
    match c.ending with
    | .orderlyClose => .ok []
    | .error errno => .error errno

/- The loop, and behind it a thread that has returned or written over the end of an
array, which ends the process. -/
inductive DataAt where
  | isRunning
  | receiveData
  | returned
  | overrun
  deriving DecidableEq

/- In `wait`: the join of the data thread, `closeSocket`, the assignment to `isRunning`
and the join of the input thread. -/
inductive WaitAt where
  | joinData
  | closeSocket
  | stop
  | joinInput
  deriving DecidableEq

structure Threads where
  isRunning : Bool
  data : DataAt
  received : ℕ
  shown : List Shown
  wait : WaitAt
  socketOpen : Bool

def Threads.start : Threads := ⟨true,.isRunning,0,[],.joinData,true⟩

/-- The constructor of the exception that `receiveData` throws, and the `catch` around
the call. -/
def receiveThrows (localSocket : ℤ) (errno : Errno) : DataAt :=
  if (TCPException.ReceiveException localSocket).Fits errno then .returned else .overrun

/-- One round of the loop of `getServerDataThread` is two steps: the test of
`isRunning`, and `receiveData` with what is done for the chunk. -/
def Threads.dataStep (c : Connection) (s : Threads) : Option Threads :=
  match s.data with
  | .isRunning => some { s with data := if s.isRunning then .receiveData else .returned }
  | .receiveData =>
    match c.recv s.received with
    | .error errno =>
      some { s with data := receiveThrows c.localSocket errno, received := s.received + 1 }
    | .ok chunk =>
      some { s with
        data := .isRunning
        received := s.received + 1
        shown := s.shown ++ [dispatch chunk] }
  | .returned | .overrun => none

def Threads.waitStep (s : Threads) : Option Threads :=
  match s.wait with
  | .joinData => if s.data = .returned then some { s with wait := .closeSocket } else none
  | .closeSocket => some { s with socketOpen := false, wait := .stop }
  | .stop => some { s with isRunning := false, wait := .joinInput }
  | .joinInput => none

inductive Thread where
  | getServerData
  | main

def Threads.step (c : Connection) (s : Threads) : Thread → Option Threads
  | .getServerData => s.dataStep c
  | .main => if s.data = .overrun then none else s.waitStep

/- No message is short enough for the array. -/
theorem receiveThrows_overrun (localSocket : ℤ) (errno : Errno) :
    receiveThrows localSocket errno = .overrun :=
  if_neg ((TCPException.ReceiveException localSocket).not_fits (fun _ _ he => by cases he) errno)

/-! ### The loop -/

namespace Threads
variable {c : Connection} {s s' : Threads} {tr : List (Threads × Thread)} {a : Thread}

/-- What a step can do. -/
inductive Effect (c : Connection) (s : Threads) : Threads → Prop
  | goOn (hd : s.data = .isRunning) (hr : s.isRunning = true) :
      Effect c s { s with data := .receiveData }
  | leave (hd : s.data = .isRunning) (hr : s.isRunning = false) :
      Effect c s { s with data := .returned }
  | failed {errno : Errno} (hd : s.data = .receiveData) (hr : c.recv s.received = .error errno) :
      Effect c s { s with data := .overrun, received := s.received + 1 }
  | received {chunk : Bytes} (hd : s.data = .receiveData) (hr : c.recv s.received = .ok chunk) :
      Effect c s { s with
        data := .isRunning
        received := s.received + 1
        shown := s.shown ++ [dispatch chunk] }
  | join (hw : s.wait = .joinData) (hd : s.data = .returned) :
      Effect c s { s with wait := .closeSocket }
  | close (hw : s.wait = .closeSocket) : Effect c s { s with socketOpen := false, wait := .stop }
  | stop (hw : s.wait = .stop) : Effect c s { s with isRunning := false, wait := .joinInput }

theorem step_effect (h : s.step c a = some s') : Effect c s s' := by
  cases a with
  | getServerData =>
    simp only [step,dataStep,receiveThrows_overrun] at h
    split at h
    · next hd =>
      cases h
      by_cases hr : s.isRunning = true
      · rw [if_pos hr]
        exact .goOn hd hr
      · rw [if_neg hr]
        exact .leave hd (by simpa using hr)
    · next hd =>
      split at h <;> cases h
      · exact .failed hd ‹_›
      · exact .received hd ‹_›
    · cases h
    · cases h
  | main =>
    simp only [step] at h
    split at h
    · cases h
    unfold waitStep at h
    split at h
    · split_ifs at h
      cases h
      exact .join ‹_› ‹_›
    · cases h
      exact .close ‹_›
    · cases h
      exact .stop ‹_›
    · cases h

/- `wait` is at its first join, and the thread that it waits for does not return. -/
structure Waiting (s : Threads) : Prop where
  wait : s.wait = .joinData
  running : s.isRunning = true
  data : s.data ≠ .returned

theorem Waiting.step (hs : s.Waiting) (h : s.step c a = some s') : s'.Waiting := by
  cases step_effect h with
  | goOn hd hr => exact ⟨hs.wait,hs.running,fun he => by cases he⟩
  | leave hd hr => cases hs.running.symm.trans hr
  | failed hd hr => exact ⟨hs.wait,hs.running,fun he => by cases he⟩
  | received hd hr => exact ⟨hs.wait,hs.running,fun he => by cases he⟩
  | join hw hd => exact absurd hd hs.data
  | close hw => cases hs.wait.symm.trans hw
  | stop hw => cases hs.wait.symm.trans hw

/- The loop shows what `getServerDataThread` makes of the results of `recv` so far. -/
theorem run_shown (r : Run (Threads.step c) start tr s) :
    s.shown = getServerDataThread ((List.range s.received).map fun i => (c.recv i).toOption) ∧
      (s.data ≠ .overrun → ∀ i < s.received, (c.recv i).toOption ≠ none) := by
  refine r.invariant
    (I := fun s => s.shown = getServerDataThread ((List.range s.received).map fun i => (c.recv i).toOption) ∧
      (s.data ≠ .overrun → ∀ i < s.received, (c.recv i).toOption ≠ none)) ⟨rfl,fun _ i hi => by cases hi⟩ ?_
  intro s a s' hs h
  have hnext (x : Except Errno Bytes) (hd : s.data = .receiveData) (hx : c.recv s.received = x) :
      getServerDataThread ((List.range (s.received+1)).map fun i => (c.recv i).toOption) =
        s.shown ++ getServerDataThread [x.toOption] := by
    rw [List.range_succ,List.map_append,List.map_singleton,hx,getServerDataThread_append,hs.1]
    intro y hy
    obtain ⟨i,hi,rfl⟩ := List.mem_map.mp hy
    exact hs.2 (by simp [hd]) i (List.mem_range.mp hi)
  cases step_effect h with
  | goOn hd _ => exact ⟨hs.1,fun _ => hs.2 (by simp [hd])⟩
  | leave hd _ => exact ⟨hs.1,fun _ => hs.2 (by simp [hd])⟩
  | @failed errno hd hr =>
    refine ⟨?_,fun hne => absurd rfl hne⟩
    rw [hnext _ hd hr]
    exact (List.append_nil _).symm
  | @received chunk hd hr =>
    refine ⟨by rw [hnext _ hd hr]; rfl,fun _ i hi => ?_⟩
    rcases Nat.lt_succ_iff_lt_or_eq.mp hi with hi | rfl
    · exact hs.2 (by simp [hd]) i hi
    · rw [hr]
      exact fun he => by cases he
  | join | close | stop => exact hs

end Threads

open Threads

end TcpProjects.ChatClient
