import TcpProjects.Base.Transition
import TcpProjects.Base.ReadUntil
import TcpProjects.Protocol.Text

/-! # The C# server

`Server.Start` serves one client after another: it receives until the text holds
the end marker, prints the text, answers and closes. One `catch` stands around
the whole loop. A client is given by what the calls on its socket return. -/

namespace TcpProjects.Protocol
open Transition ReadUntil

/- The results of the calls on a client's socket: the bytes of the `n`-th `Receive` or
an exception (`none`), and whether `Send`, `Shutdown` and `Close` return. -/
structure Client where
  receive : ℕ → Option Bytes
  send : Bool
  shutdown : Bool
  close : Bool

inductive Event where
  | accepted (client : ℕ)
  | packet (client : ℕ) (data : Text)
  | sent (client : ℕ) (message : Bytes)
  | closed (client : ℕ)
  | stackTrace
  deriving DecidableEq

inductive PC where
  | accept
  | receive (data : Text) (calls : ℕ)
  | send
  | shutdown
  | close
  | returned
  deriving DecidableEq

/- `served` is the number of the client that is next or being served. -/
structure Server where
  pc : PC
  served : ℕ
  log : List Event

def Server.start : Server := ⟨.accept,0,[]⟩

def helloClient : Bytes := getBytes (text "Hello client")

/-- The `catch` prints the stack trace, and `Start` returns. -/
def Server.caught (s : Server) : Server := { s with pc := .returned, log := s.log ++ [.stackTrace] }

/-- One call of `Start` and what follows it; `Accept` waits when no client is left. -/
def step (κ : Culture) (clients : List Client) (s : Server) (_ : Unit) : Option Server :=
  clients[s.served]?.bind fun c =>
    match s.pc with
    | .accept => some { s with pc := .receive [] 0, log := s.log ++ [.accepted s.served] }
    | .receive data calls =>
      match c.receive calls with
      | none => some s.caught
      | some buffer =>
        if κ.found (data ++ getString buffer) then
          some { s with pc := .send, log := s.log ++ [.packet s.served (data ++ getString buffer)] }
        else some { s with pc := .receive (data ++ getString buffer) (calls+1) }
    | .send =>
      if c.send then
        some { s with pc := .shutdown, log := s.log ++ [.sent s.served helloClient] }
      else some s.caught
    | .shutdown => if c.shutdown then some { s with pc := .close } else some s.caught
    | .close =>
      if c.close then
        some { s with pc := .accept, served := s.served+1, log := s.log ++ [.closed s.served] }
      else some s.caught
    | .returned => none

/-! ### The receive loop -/

section Loop
variable {κ : Culture} {clients : List Client} {c : Client} {s s' : Server} {n : ℕ}

/- The text after `n` calls of `Receive`. -/
def Client.data (c : Client) (n : ℕ) : Text := getString (gathered c.receive n)

/- The test of the loop, on the bytes received. -/
def Culture.complete (κ : Culture) (bytes : Bytes) : Bool := κ.found (getString bytes)

theorem Culture.complete_append {bytes : Bytes} (h : κ.complete bytes = true) (more : Bytes) :
    κ.complete (bytes ++ more) = true := by
  rw [complete,getString_append]
  exact κ.found_append h _

theorem Client.data_succ {b : Bytes} (h : c.receive n = some b) :
    c.data (n+1) = c.data n ++ getString b := by
  rw [data,gathered_succ,h,getString_append]
  rfl

/-- The server in the loop, after `n` calls of `Receive`. -/
def receiving (s : Server) (c : Client) (n : ℕ) : Server :=
  { s with pc := .receive (c.data n) n }

theorem receive_step (hc : clients[s.served]? = some c) (hr : c.receive n ≠ none)
    (hf : κ.complete (gathered c.receive (n+1)) = false) :
    step κ clients (receiving s c n) () = some (receiving s c (n+1)) := by
  obtain ⟨b,hb⟩ := Option.ne_none_iff_exists'.mp hr
  have hdata : κ.found (c.data n ++ getString b) = false := by
    rw [← c.data_succ hb]
    exact hf
  simp [step,receiving,hc,hb,hdata,c.data_succ hb]

theorem receive_end (hc : clients[s.served]? = some c) (hr : c.receive n ≠ none)
    (hf : κ.complete (gathered c.receive (n+1)) = true) :
    step κ clients (receiving s c n) () =
      some { s with pc := .send, log := s.log ++ [.packet s.served (c.data (n+1))] } := by
  obtain ⟨b,hb⟩ := Option.ne_none_iff_exists'.mp hr
  have hdata : κ.found (c.data n ++ getString b) = true := by
    rw [← c.data_succ hb]
    exact hf
  simp [step,receiving,hc,hb,hdata,c.data_succ hb]

/- A run through the reads that do not complete the text, one step for each. -/
theorem run_reads (hc : clients[s.served]? = some c) (h : Reads c.receive κ.complete n) :
    ∃ tr, Run (step κ clients) (receiving s c 0) tr (receiving s c n) ∧ tr.length = n := by
  induction n with
  | zero => exact ⟨[],Run.start,rfl⟩
  | succ n ih =>
    obtain ⟨tr,r,hlength⟩ := ih ⟨fun i hi => h.succeed i (Nat.lt_succ_of_lt hi),
      fun i hi => h.goOn i (Nat.lt_succ_of_lt hi)⟩
    exact ⟨_,Run.next r (receive_step hc (h.succeed n (Nat.lt_succ_self n))
      (h.goOn n (Nat.lt_succ_self n))),by rw [List.length_append,hlength,List.length_singleton]⟩

end Loop

/-! ### Clients -/

section Clients
variable {κ : Culture} {clients : List Client} {c : Client} {s : Server} {n : ℕ}

/- All calls on the client's socket return, and its text becomes complete. -/
structure Client.Completes (κ : Culture) (c : Client) : Prop where
  text : ∃ n, EndsAt c.receive κ.complete n
  send : c.send = true
  shutdown : c.shutdown = true
  close : c.close = true

/- A client whose text is complete is printed, answered and closed, and the server
goes on to accept the next one. -/
theorem run_served (hc : clients[s.served]? = some c) (h : c.Completes κ)
    (he : EndsAt c.receive κ.complete n) :
    ∃ tr, Run (step κ clients) (receiving s c 0) tr
      ⟨.accept,s.served+1,s.log ++ [.packet s.served (c.data (n+1)),.sent s.served helloClient,
        .closed s.served]⟩ := by
  obtain ⟨tr,r,_⟩ := run_reads hc he.toReads
  let log := s.log ++ [.packet s.served (c.data (n+1))]
  have hsend : step κ clients ⟨.send,s.served,log⟩ () =
      some ⟨.shutdown,s.served,log ++ [.sent s.served helloClient]⟩ := by
    simp [step,hc,h.send]
  have hshut : step κ clients ⟨.shutdown,s.served,log ++ [.sent s.served helloClient]⟩ () =
      some ⟨.close,s.served,log ++ [.sent s.served helloClient]⟩ := by
    simp [step,hc,h.shutdown]
  have hclose : step κ clients ⟨.close,s.served,log ++ [.sent s.served helloClient]⟩ () =
      some ⟨.accept,s.served+1,s.log ++ [.packet s.served (c.data (n+1)),
        .sent s.served helloClient,.closed s.served]⟩ := by
    simp [step,hc,h.close,log]
  exact ⟨_,((r.next (receive_end hc he.read he.complete)).next hsend).next hshut |>.next hclose⟩

end Clients
end TcpProjects.Protocol
