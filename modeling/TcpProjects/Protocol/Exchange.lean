import TcpProjects.Base.Pipe
import TcpProjects.Protocol.Framing

/-! # The C# clients and the server together

`Client.Start` connects, sends its text with the end marker, receives once and prints
what it got; a `catch` stands around all of it. The two programs differ only in the
text. The server is the one of `Server.Start`, and the bytes of each connection are
received in pieces of any size. -/

namespace TcpProjects.Protocol
open Transition

inductive Line where
  | connected
  | message (text : Text)
  | exception
  deriving DecidableEq

inductive ClientPC where
  | connect
  | send
  | receive
  | shutdown
  | close
  | returned
  deriving DecidableEq

/- `Client.Start`: the call it is in, and what it has printed. -/
structure ClientStart where
  pc : ClientPC
  printed : List Line

/-- One call of `Client.Start` and what follows it; `none` stands for an exception. -/
def ClientStart.call (s : ClientStart) : Option Bytes → ClientStart
  | none => ⟨.returned,s.printed ++ [.exception]⟩
  | some received => match s.pc with
    | .connect => ⟨.send,s.printed ++ [.connected]⟩
    | .send => ⟨.receive,s.printed⟩
    | .receive => ⟨.shutdown,s.printed ++ [.message (getString received)]⟩
    | .shutdown => ⟨.close,s.printed⟩
    | .close => ⟨.returned,s.printed⟩
    | .returned => s

def clientMessage : Bytes := getBytes (text "Hello server.<EOF>")
def socketsMessage : Bytes := getBytes (text "Test Client<EOF>")

/-- How a call ends: `Receive` returns bytes; a `Send` that throws may have sent some. -/
inductive Result where
  | returns (received : Bytes)
  | throws (sent : Bytes)
  deriving DecidableEq

def Result.received : Result → Option Bytes
  | .returns received => some received
  | .throws _ => none

/- The clients in the order in which their connections were made, and both directions of
each connection. -/
structure Exchange where
  server : Server
  arrived : List ℕ
  client : ℕ → ClientStart
  up : ℕ → Pipe Byte
  down : ℕ → Pipe Byte

inductive Move where
  | client (c : ℕ) (result : Result)
  | server (result : Result)
  deriving DecidableEq

def Exchange.start : Exchange :=
  ⟨.start,[],fun _ => ⟨.connect,[]⟩,fun _ => .empty,fun _ => .empty⟩

/- The number of connections that the server has accepted. -/
def Server.begun (s : Server) : ℕ := if s.pc = .accept then s.served else s.served+1

/- The argument of `Listen`. -/
def backlog : ℕ := 10

namespace Exchange

def pending (s : Exchange) : ℕ := s.arrived.length-s.server.begun

/-- A call of client `c`. It can connect while the backlog has room; at the end of the
server's stream, or when the server's process is gone, `Receive` returns no bytes. -/
def clientCall (messages : List Bytes) (s : Exchange) (c : ℕ) (result : Result) :
    Option Exchange :=
  messages[c]?.bind fun message =>
    let s' := { s with client := Function.update s.client c ((s.client c).call result.received) }
    match (s.client c).pc,result with
    | .connect,.returns _ =>
      if s.pending < backlog then some { s' with arrived := s.arrived ++ [c] } else none
    | .send,.returns _ => some { s' with up := Function.update s.up c ((s.up c).send message) }
    | .send,.throws sent =>
      if sent <+: message then some { s' with up := Function.update s.up c ((s.up c).send sent) }
      else none
    | .receive,.returns received =>
      ((s.down c).receive 1024 (s.server.pc = .returned) received).map fun p =>
        { s' with down := Function.update s.down c p }
    | .shutdown,.returns _ => some { s' with up := Function.update s.up c (s.up c).shutdown }
    | .close,.returns _ => some s'
    | .returned,_ => none
    | _,.throws _ => some s'

/- The calls on the socket of the client being served, as `step` asks for them. -/
def answer (result : Result) : Client :=
  ⟨fun _ => result.received,result.received.isSome,result.received.isSome,result.received.isSome⟩

/-- A call of the server about the client that arrived next. -/
def sessionCall (κ : Culture) (s : Exchange) (result : Result) : Option Exchange :=
  s.arrived[s.server.served]?.bind fun c =>
    (step κ (List.replicate (s.server.served+1) (answer result)) s.server ()).bind fun server =>
      let s' := { s with server := server }
      match s.server.pc,result with
      | .receive _ _,.returns received =>
        ((s.up c).receive 1024 ((s.client c).pc = .returned) received).map fun p =>
          { s' with up := Function.update s.up c p }
      | .send,.returns _ =>
        some { s' with down := Function.update s.down c ((s.down c).send helloClient) }
      | .send,.throws sent =>
        if sent <+: helloClient then
          some { s' with down := Function.update s.down c ((s.down c).send sent) }
        else none
      | .shutdown,.returns _ =>
        some { s' with down := Function.update s.down c (s.down c).shutdown }
      | _,_ => some s'

/-- `Accept` throws whether a connection is there or not, as `Bind` and `Listen` do before
the first one. -/
def serverCall (κ : Culture) (s : Exchange) (result : Result) : Option Exchange :=
  match s.server.pc,result with
  | .accept,.throws _ => some { s with server := s.server.caught }
  | _,_ => s.sessionCall κ result

end Exchange

/-- Clients and server, one call after another in any order. -/
def exchange (κ : Culture) (messages : List Bytes) (s : Exchange) : Move → Option Exchange
  | .client c result => s.clientCall messages c result
  | .server result => s.serverCall κ result

variable {κ : Culture} {messages : List Bytes} {message : Bytes} {s s' : Exchange} {c k : ℕ}
  {result : Result}

/-! ### What one call does -/

/- A call of a client in `pc`: whether a connection is made, and both directions of its
connection behind it. -/
inductive ClientEffect (message : Bytes) (room gone : Bool) (u d : Pipe Byte) :
    ClientPC → Result → Bool → Pipe Byte → Pipe Byte → Prop
  | connect (b : Bytes) : room = true → ClientEffect message room gone u d .connect (.returns b) true u d
  | send (b : Bytes) : ClientEffect message room gone u d .send (.returns b) false (u.send message) d
  | sendThrows {sent : Bytes} : sent <+: message →
      ClientEffect message room gone u d .send (.throws sent) false (u.send sent) d
  | receive {b : Bytes} {d' : Pipe Byte} : d.receive 1024 gone b = some d' →
      ClientEffect message room gone u d .receive (.returns b) false u d'
  | shutdown (b : Bytes) :
      ClientEffect message room gone u d .shutdown (.returns b) false u.shutdown d
  | close (b : Bytes) : ClientEffect message room gone u d .close (.returns b) false u d
  | throws {pc : ClientPC} (b : Bytes) : pc ≠ .send → pc ≠ .returned →
      ClientEffect message room gone u d pc (.throws b) false u d

/- A call of the server at connection `k`: where it is then, what it notes, and both
directions of the connection. -/
inductive ServerEffect (κ : Culture) (k : ℕ) (gone : Bool) (u d : Pipe Byte) :
    PC → Result → PC → ℕ → List Event → Pipe Byte → Pipe Byte → Prop
  | accept (b : Bytes) :
      ServerEffect κ k gone u d .accept (.returns b) (.receive [] 0) k [.accepted k] u d
  | receive {data : Text} {n : ℕ} {b : Bytes} {u' : Pipe Byte} :
      u.receive 1024 gone b = some u' → κ.found (data ++ getString b) = false →
        ServerEffect κ k gone u d (.receive data n) (.returns b)
          (.receive (data ++ getString b) (n+1)) k [] u' d
  | complete {data : Text} {n : ℕ} {b : Bytes} {u' : Pipe Byte} :
      u.receive 1024 gone b = some u' → κ.found (data ++ getString b) = true →
        ServerEffect κ k gone u d (.receive data n) (.returns b) .send k
          [.packet k (data ++ getString b)] u' d
  | send (b : Bytes) :
      ServerEffect κ k gone u d .send (.returns b) .shutdown k [.sent k helloClient] u
        (d.send helloClient)
  | sendThrows {sent : Bytes} : sent <+: helloClient →
      ServerEffect κ k gone u d .send (.throws sent) .returned k [.stackTrace] u (d.send sent)
  | shutdown (b : Bytes) :
      ServerEffect κ k gone u d .shutdown (.returns b) .close k [] u d.shutdown
  | close (b : Bytes) :
      ServerEffect κ k gone u d .close (.returns b) .accept (k+1) [.closed k] u d
  | throws {pc : PC} (b : Bytes) : pc ≠ .accept → pc ≠ .send → pc ≠ .returned →
      ServerEffect κ k gone u d pc (.throws b) .returned k [.stackTrace] u d

namespace Exchange

theorem clientCall_eq (h : s.clientCall messages c result = some s') :
    ∃ message arrives u d, messages[c]? = some message ∧
      ClientEffect message (s.pending < backlog) (s.server.pc = .returned) (s.up c) (s.down c)
        (s.client c).pc result arrives u d ∧
      s' = ⟨s.server,if arrives then s.arrived ++ [c] else s.arrived,
        Function.update s.client c ((s.client c).call result.received),
        Function.update s.up c u,Function.update s.down c d⟩ := by
  obtain ⟨message,hm,h⟩ := Option.bind_eq_some_iff.mp h
  refine ⟨message,?_⟩
  cases hpc : (s.client c).pc <;> cases result <;> simp only [hpc] at h
  case connect.returns =>
    split_ifs at h with hroom
    cases h
    exact ⟨true,_,_,hm,.connect _ (decide_eq_true hroom),by simp⟩
  case send.returns =>
    cases h
    exact ⟨false,_,_,hm,.send _,by simp⟩
  case send.throws =>
    split_ifs at h with hsent
    cases h
    exact ⟨false,_,_,hm,.sendThrows hsent,by simp⟩
  case receive.returns b =>
    obtain ⟨d,hd,rfl⟩ := Option.map_eq_some_iff.mp h
    exact ⟨false,_,_,hm,.receive hd,by simp⟩
  case shutdown.returns =>
    cases h
    exact ⟨false,_,_,hm,.shutdown _,by simp⟩
  case close.returns =>
    cases h
    exact ⟨false,_,_,hm,.close _,by simp⟩
  case returned.returns => cases h
  case returned.throws => cases h
  all_goals
    cases h
    exact ⟨false,_,_,hm,.throws _ (by decide) (by decide),by simp⟩

/- The server's step, with the calls on the socket answered by `result`. -/
theorem step_answer (sv : Server) :
    step κ (List.replicate (sv.served+1) (answer result)) sv () =
      match sv.pc with
      | .accept => some { sv with
          pc := .receive [] 0
          log := sv.log ++ [.accepted sv.served] }
      | .receive data n =>
        match result with
        | .throws _ => some sv.caught
        | .returns b =>
          if κ.found (data ++ getString b) then
            some { sv with pc := .send, log := sv.log ++ [.packet sv.served (data ++ getString b)] }
          else some { sv with pc := .receive (data ++ getString b) (n+1) }
      | .send =>
        if result.received.isSome then
          some { sv with pc := .shutdown, log := sv.log ++ [.sent sv.served helloClient] }
        else some sv.caught
      | .shutdown => if result.received.isSome then some { sv with pc := .close } else some sv.caught
      | .close =>
        if result.received.isSome then
          some { sv with
            pc := .accept
            served := sv.served+1
            log := sv.log ++ [.closed sv.served] }
        else some sv.caught
      | .returned => none := by
  have hc : (List.replicate (sv.served+1) (answer result))[sv.served]? = some (answer result) := by
    simp
  simp only [step,hc,Option.bind_some]
  cases sv.pc <;> cases result <;> rfl

theorem sessionCall_eq (hresult : s.server.pc = .accept → result.received.isSome = true)
    (h : s.sessionCall κ result = some s') :
    ∃ c pc served log u d, s.arrived[s.server.served]? = some c ∧
      ServerEffect κ s.server.served ((s.client c).pc = .returned) (s.up c) (s.down c) s.server.pc
        result pc served log u d ∧
      s' = ⟨⟨pc,served,s.server.log ++ log⟩,s.arrived,s.client,Function.update s.up c u,
        Function.update s.down c d⟩ := by
  obtain ⟨c,hc,h⟩ := Option.bind_eq_some_iff.mp h
  obtain ⟨server,hserver,h⟩ := Option.bind_eq_some_iff.mp h
  refine ⟨c,?_⟩
  rw [step_answer] at hserver
  cases hpc : s.server.pc <;> cases result <;> simp only [hpc] at h hserver
  case accept.returns =>
    cases hserver
    cases h
    exact ⟨_,_,_,_,_,hc,.accept _,by simp⟩
  case accept.throws => cases hresult hpc
  case receive.returns =>
    obtain ⟨u,hu,rfl⟩ := Option.map_eq_some_iff.mp h
    split_ifs at hserver with hfound
    · cases hserver
      exact ⟨_,_,_,_,_,hc,.complete hu hfound,by simp⟩
    · cases hserver
      exact ⟨_,_,_,_,_,hc,.receive hu (Bool.eq_false_iff.mpr hfound),by simp⟩
  case send.returns =>
    cases hserver
    cases h
    exact ⟨_,_,_,_,_,hc,.send _,by simp⟩
  case send.throws =>
    split_ifs at h with hsent
    cases hserver
    cases h
    exact ⟨_,_,_,_,_,hc,.sendThrows hsent,by simp [Server.caught]⟩
  case shutdown.returns =>
    cases hserver
    cases h
    exact ⟨_,_,_,_,_,hc,.shutdown _,by simp⟩
  case close.returns =>
    cases hserver
    cases h
    exact ⟨_,_,_,_,_,hc,.close _,by simp⟩
  case returned.returns => cases hserver
  case returned.throws => cases hserver
  all_goals
    cases hserver
    cases h
    exact ⟨_,_,_,_,_,hc,.throws _ (by simp) (by simp) (by simp),by simp [Server.caught]⟩

theorem serverCall_session (h : s.server.pc = .accept → result.received.isSome = true) :
    s.serverCall κ result = s.sessionCall κ result := by
  unfold serverCall
  split
  · next hpc => cases h hpc
  · rfl

/- The server fails in `Accept`, or goes on with a connection. -/
theorem serverCall_cases (h : s.serverCall κ result = some s') :
    (s.server.pc = .accept ∧ s' = { s with server := s.server.caught }) ∨
    ∃ c pc served log u d, s.arrived[s.server.served]? = some c ∧
      ServerEffect κ s.server.served ((s.client c).pc = .returned) (s.up c) (s.down c) s.server.pc
        result pc served log u d ∧
      s' = ⟨⟨pc,served,s.server.log ++ log⟩,s.arrived,s.client,Function.update s.up c u,
        Function.update s.down c d⟩ := by
  by_cases hresult : s.server.pc = .accept → result.received.isSome = true
  · rw [serverCall_session hresult] at h
    exact Or.inr (sessionCall_eq hresult h)
  · push Not at hresult
    obtain ⟨hpc,hnone⟩ := hresult
    cases result with
    | returns b => exact absurd rfl hnone
    | throws b =>
      simp only [serverCall,hpc] at h
      cases h
      exact Or.inl ⟨hpc,rfl⟩

end Exchange
end TcpProjects.Protocol
