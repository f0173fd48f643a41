import TcpProjects.Base.Chunks
import TcpProjects.Protocol.Server

/-! # When the receive loop ends

`Receive` returns 0 for ever once a client has shut down its side, and the loop
takes that for an empty chunk. It ends on the marker and on nothing else, so that
a finite stream without it holds the server in the loop. -/

namespace TcpProjects.Protocol
open Transition ReadUntil

variable {κ : Culture} {clients : List Client} {c : Client} {s s' : Server}
  {tr : List (Server × Unit)}

theorem run_receiving (hc : clients[s.served]? = some c) (hr : ∀ n, c.receive n ≠ none)
    (hno : ∀ n, κ.complete (gathered c.receive (n+1)) = false)
    (r : Run (step κ clients) (receiving s c 0) tr s') : ∃ n, s' = receiving s c n := by
  refine r.invariant (I := fun s' => ∃ n, s' = receiving s c n) ⟨0,rfl⟩ ?_
  intro u a u' hu h
  obtain ⟨n,rfl⟩ := hu
  rw [receive_step hc (hr n) (hno n)] at h
  exact ⟨n+1,(Option.some.inj h).symm⟩

/-- For a client that sends a finite stream and shuts down, the loop is left exactly if
the stream holds the marker, and then the server comes to accept the next client. -/
theorem receive_loop_ends {stream : Bytes} {chunks : List Bytes} (hcut : Chunking chunks stream)
    (hc : clients[s.served]? = some c) (hr : c.receive = ofChunks chunks)
    (hpc : s.pc = .receive [] 0) :
    ((∃ tr s', Run (step κ clients) s tr s' ∧ s'.pc = .send) ↔
      κ.found (getString stream) = true) ∧
    (c.send = true ∧ c.shutdown = true ∧ c.close = true →
      ((∃ tr s', Run (step κ clients) s tr s' ∧ s'.pc = .accept ∧ s'.served = s.served+1) ↔
        κ.found (getString stream) = true)) := by
  have hs : receiving s c 0 = s := by
    obtain ⟨pc,served,log⟩ := s
    cases hpc
    rfl
  have hends : (∃ n, EndsAt c.receive κ.complete n) ↔ κ.found (getString stream) = true := by
    rw [hr,exists_endsAt_ofChunks fun a b h => κ.complete_append h b,hcut.flatten]
    rfl
  have hread (n : ℕ) : c.receive n ≠ none := by
    rw [hr]
    exact fun h => by cases h
  -- Where there is no end, no run comes to another point.
  have hleft {tr : List (Server × Unit)} {s' : Server} (r : Run (step κ clients) s tr s')
      (hout : ∀ data n, s'.pc ≠ .receive data n) : κ.found (getString stream) = true := by
    rw [← hends]
    by_contra hno
    obtain ⟨n,rfl⟩ := run_receiving (κ := κ) hc hread (fun n => by
      by_contra hf
      exact hno (exists_endsAt hread (by simpa using hf))) (hs.symm ▸ r)
    exact hout _ _ rfl
  refine ⟨⟨?_,?_⟩,fun hcalls => ⟨?_,?_⟩⟩
  · intro hx
    obtain ⟨tr,s',r,hsend⟩ := hx
    exact hleft r fun data n h => by cases hsend.symm.trans h
  · intro hf
    obtain ⟨n,he⟩ := hends.mpr hf
    obtain ⟨tr,r,_⟩ := run_reads hc he.toReads
    exact ⟨_,_,hs ▸ r.next (receive_end hc he.read he.complete),rfl⟩
  · intro hx
    obtain ⟨tr,s',r,hacc,_⟩ := hx
    exact hleft r fun data n h => by cases hacc.symm.trans h
  · intro hf
    obtain ⟨n,he⟩ := hends.mpr hf
    obtain ⟨tr,r⟩ := run_served hc ⟨⟨n,he⟩,hcalls.1,hcalls.2.1,hcalls.2.2⟩ he
    exact ⟨tr,_,hs ▸ r,rfl,rfl⟩

def finiteClient (chunks : List Bytes) : Client := ⟨ofChunks chunks,true,true,true⟩

theorem receive_loop_ends_split :
    ∃ tr s', Run (step .ordinal [finiteClient [ascii "Hello<EO",ascii "F>"]])
      ⟨.receive [] 0,0,[]⟩ tr s' ∧ s'.pc = .accept ∧ s'.served = 1 :=
  (receive_loop_ends (κ := .ordinal) (s := ⟨.receive [] 0,0,[]⟩)
    (c := finiteClient [ascii "Hello<EO",ascii "F>"])
    ⟨by decide +kernel,rfl⟩ rfl rfl rfl).2 ⟨rfl,rfl,rfl⟩ |>.mpr (by decide +kernel)

/-- `MessagePacket`: the author, a line feed and the message. -/
def messagePacket (author message : Text) : Bytes := getBytes (author ++ text "\n" ++ message)

/- The server never leaves the loop for a packet that `SendPacket` sends. -/
theorem receive_loop_endless :
    ¬ ∀ (κ : Culture) (clients : List Client) (s : Server) (c : Client) (chunks : List Bytes)
      (stream : Bytes), Chunking chunks stream → (∀ b ∈ chunks, b.length ≤ 1024) →
        clients[s.served]? = some c → c.receive = ofChunks chunks →
        c.send = true ∧ c.shutdown = true ∧ c.close = true → s.pc = .receive [] 0 →
        ∃ tr s', Run (step κ clients) s tr s' ∧ s'.pc = .accept ∧ s'.served = s.served+1 := by
  intro h
  let packet := messagePacket (text "me") (text "hi")
  obtain ⟨tr,s',r,hacc,_⟩ := h .ordinal [finiteClient [packet]] ⟨.receive [] 0,0,[]⟩
    (finiteClient [packet]) [packet] packet ⟨by decide +kernel,by decide +kernel⟩
    (by decide +kernel) rfl rfl ⟨rfl,rfl,rfl⟩ rfl
  have hno (n : ℕ) : Culture.ordinal.complete (gathered (ofChunks [packet]) (n+1)) = false := by
    rw [gathered_ofChunks,List.take_of_length_le (by simp)]
    decide +kernel
  obtain ⟨n,rfl⟩ := run_receiving (c := finiteClient [packet]) (s := ⟨.receive [] 0,0,[]⟩) rfl
    (fun n h => by cases h) hno r
  cases hacc

end TcpProjects.Protocol
