import Mathlib.Data.List.Nodup
import TcpProjects.Protocol.Exchange

/-! # What clients and server print

Whatever calls throw and wherever the streams are cut, the server prints whole texts of
clients, one for each client, in the order in which they connected, and what a client
prints as the answer is the beginning of the answer. -/

namespace TcpProjects.Protocol
open Transition

variable {κ : Culture} {messages : List Bytes} {message b : Bytes} {s s' : Exchange} {c k n : ℕ}
  {result : Result}

/-! ### Complete texts -/

/-- A text that ends with the end marker and has no `>` before its last byte. -/
def Hello (message : Bytes) : Prop := ∃ before, message = before ++ marker ∧ byte '>' ∉ before

theorem hello_programs : Hello clientMessage ∧ Hello socketsMessage :=
  ⟨⟨ascii "Hello server.",by decide +kernel,by decide +kernel⟩,
    ⟨ascii "Test Client",by decide +kernel,by decide +kernel⟩⟩

theorem mem_of_complete (h : κ.complete b = true) : byte '>' ∈ b := by
  simp only [Culture.complete,Culture.found,decide_eq_true_eq] at h
  have hkept : char '>' ∈ (getString b).filter fun c => !κ.ignores c := h.subset (by decide)
  rw [getString_map] at hkept
  obtain ⟨x,hx,hdecode⟩ := List.mem_map.mp (List.mem_filter.mp hkept).1
  have hsame : x = byte '>' :=
    decode_marker (by decide +kernel) (hdecode.trans (by decide +kernel))
  exact hsame ▸ hx

/- No proper part of such a text is complete, in any culture. -/
theorem Hello.complete_iff (h : Hello message) (hb : b <+: message) :
    κ.complete b = true ↔ b = message := by
  obtain ⟨before,rfl,hno⟩ := h
  have hlast : before ++ marker = (before ++ ascii "<EOF") ++ [byte '>'] := by
    rw [List.append_assoc]
    congr 1
  constructor
  · intro hc
    rw [hlast,List.prefix_concat_iff] at hb
    rcases hb with hb | hb
    · rw [hb,hlast]
    · have hmem := hb.subset (mem_of_complete hc)
      rcases List.mem_append.mp hmem with hmem | hmem
      · exact absurd hmem hno
      · exact absurd hmem (by decide +kernel)
  · rintro rfl
    apply κ.found_of_infix
    have he : eof = getString marker := by decide +kernel
    rw [he,getString_append]
    exact (List.suffix_append _ _).isInfix

theorem not_complete_nil : κ.complete [] = false := by
  by_contra h
  exact absurd (mem_of_complete (Bool.not_eq_false _ ▸ h)) List.not_mem_nil

/-! ### What is printed -/

/- What a client prints that receives the bytes `b`. -/
def dialogue (b : Bytes) : List Line := [.connected,.message (getString b)]

/-- A part of the dialogue with a beginning of the answer, and perhaps an exception. -/
def Shown (printed : List Line) : Prop :=
  ∃ b lines, b <+: helloClient ∧ lines <+: dialogue b ∧
    (printed = lines ∨ printed = lines ++ [.exception])

/- What the server notes about the `k`-th connection. -/
def session (messages : List Bytes) (arrived : List ℕ) (k : ℕ) : List Event :=
  match arrived[k]? with
  | none => []
  | some c => [.accepted k,.packet k (getString (messages[c]?.getD [])),.sent k helloClient,.closed k]

def sessions (messages : List Bytes) (arrived : List ℕ) (k : ℕ) : List Event :=
  (List.range k).flatMap (session messages arrived)

theorem sessions_succ (arrived : List ℕ) (k : ℕ) :
    sessions messages arrived (k+1) = sessions messages arrived k ++ session messages arrived k := by
  simp [sessions,List.range_succ]

theorem sessions_mono (arrived : List ℕ) (h : k ≤ n) :
    sessions messages arrived k <+: sessions messages arrived n := by
  induction n with
  | zero =>
    obtain rfl := Nat.le_zero.mp h
    exact List.prefix_refl _
  | succ n ih =>
    rcases Nat.lt_or_eq_of_le h with h | rfl
    · rw [sessions_succ]
      exact (ih (Nat.le_of_lt_succ h)).trans (List.prefix_append _ _)
    · exact List.prefix_refl _

/- A later connection changes nothing about the earlier ones. -/
theorem session_arrive {arrived : List ℕ} (h : k < arrived.length) :
    session messages (arrived ++ [c]) k = session messages arrived k := by
  unfold session
  rw [List.getElem?_append_left h]

theorem sessions_arrive {arrived : List ℕ} (h : k ≤ arrived.length) :
    sessions messages (arrived ++ [c]) k = sessions messages arrived k := by
  induction k with
  | zero => rfl
  | succ k ih => rw [sessions_succ,sessions_succ,ih (Nat.le_of_succ_le h),session_arrive h]

/- How much of a session is noted while the server is in a call. -/
def PC.noted : PC → ℕ
  | .accept => 0
  | .receive _ _ => 1
  | .send => 2
  | .shutdown | .close => 3
  | .returned => 4

/-! ### The invariant -/

/- A client, what it has sent, what it has taken and what it has printed. -/
def ClientAt (message : Bytes) (u d : Pipe Byte) : ClientStart → Prop
  | ⟨.connect,printed⟩ => u.sent = [] ∧ d.taken = [] ∧ printed = []
  | ⟨.send,printed⟩ => u.sent = [] ∧ d.taken = [] ∧ printed = [.connected]
  | ⟨.receive,printed⟩ => u.sent = message ∧ d.taken = [] ∧ printed = [.connected]
  | ⟨.shutdown,printed⟩ | ⟨.close,printed⟩ =>
    u.sent = message ∧ ∃ b, b <+: helloClient ∧ printed = dialogue b
  | ⟨.returned,printed⟩ => u.sent <+: message ∧ Shown printed

/- The connection that is being served. -/
def ServingAt (κ : Culture) (message : Bytes) (u d : Pipe Byte) : PC → Prop
  | .receive data _ => data = getString u.taken ∧ κ.complete u.taken = false ∧ d.sent = []
  | .send => u.taken = message ∧ d.sent = []
  | .shutdown | .close => d.sent = helloClient
  | .accept | .returned => True

structure Inv (κ : Culture) (messages : List Bytes) (s : Exchange) : Prop where
  nodup : s.arrived.Nodup
  known : ∀ c ∈ s.arrived, (s.client c).pc ≠ .connect
  member : ∀ c ∈ s.arrived, ∃ message, messages[c]? = some message
  served : s.server.served ≤ s.arrived.length
  begun : s.server.pc ≠ .returned → s.server.begun ≤ s.arrived.length
  client : ∀ c, ClientAt (messages[c]?.getD []) (s.up c) (s.down c) (s.client c)
  fresh : ∀ c, c ∉ s.arrived.take s.server.begun → (s.up c).taken = [] ∧ (s.down c).sent = []
  answers : ∀ c, (s.down c).sent <+: helloClient
  serving : ∀ c, s.arrived[s.server.served]? = some c →
    ServingAt κ (messages[c]?.getD []) (s.up c) (s.down c) s.server.pc
  done : ∀ c ∈ s.arrived.take s.server.served, (s.down c).sent = helloClient
  log : s.server.pc ≠ .returned → s.server.log = sessions messages s.arrived s.server.served ++
    (session messages s.arrived s.server.served).take s.server.pc.noted
  logReturned : s.server.pc = .returned → ∃ n, s.server.log =
    sessions messages s.arrived s.server.served ++
      (session messages s.arrived s.server.served).take n ++ [.stackTrace]

theorem Inv.start : Inv κ messages .start where
  nodup := List.nodup_nil
  known := fun _ h => absurd h List.not_mem_nil
  member := fun _ h => absurd h List.not_mem_nil
  served := Nat.le_refl _
  begun := fun _ => Nat.le_refl _
  client := fun _ => ⟨rfl,rfl,rfl⟩
  fresh := fun _ _ => ⟨rfl,rfl⟩
  answers := fun _ => List.nil_prefix
  serving := fun _ h => by cases h
  done := fun _ h => absurd h List.not_mem_nil
  log := fun _ => rfl
  logReturned := fun h => by cases h

/-! ### A call of a client -/

section Client
variable {u d u' d' : Pipe Byte} {cs : ClientStart} {room gone arrives : Bool}

theorem ClientAt.sent (h : ClientAt message u d cs) : u.sent <+: message := by
  obtain ⟨pc,printed⟩ := cs
  cases pc with
  | connect => exact h.1 ▸ List.nil_prefix
  | send => exact h.1 ▸ List.nil_prefix
  | receive => exact h.1 ▸ List.prefix_refl _
  | shutdown => exact h.1 ▸ List.prefix_refl _
  | close => exact h.1 ▸ List.prefix_refl _
  | returned => exact h.1

theorem ClientAt.shown (h : ClientAt message u d cs) : Shown cs.printed := by
  obtain ⟨pc,printed⟩ := cs
  have hnone : Shown [] := ⟨[],[],List.nil_prefix,List.nil_prefix,Or.inl rfl⟩
  have hconnected : Shown [.connected] :=
    ⟨[],[.connected],List.nil_prefix,List.prefix_append [Line.connected] _,Or.inl rfl⟩
  cases pc with
  | connect => exact h.2.2 ▸ hnone
  | send => exact h.2.2 ▸ hconnected
  | receive => exact h.2.2 ▸ hconnected
  | shutdown =>
    obtain ⟨_,b,hb,hp⟩ := h
    exact ⟨b,_,hb,List.prefix_refl _,Or.inl hp⟩
  | close =>
    obtain ⟨_,b,hb,hp⟩ := h
    exact ⟨b,_,hb,List.prefix_refl _,Or.inl hp⟩
  | returned => exact h.2

/- A client that has not returned has not printed an exception yet. -/
theorem ClientAt.throws (h : ClientAt message u d cs) (hpc : cs.pc ≠ .returned) :
    Shown (cs.printed ++ [.exception]) := by
  obtain ⟨b,lines,hb,hl,hp | hp⟩ := h.shown
  · exact ⟨b,lines,hb,hl,Or.inr (by rw [hp])⟩
  · obtain ⟨pc,printed⟩ := cs
    have hmem : Line.exception ∈ printed := by
      rw [show printed = _ from hp]
      exact List.mem_append_right _ (List.mem_singleton_self _)
    cases pc with
    | connect => exact absurd (h.2.2 ▸ hmem) (by decide)
    | send => exact absurd (h.2.2 ▸ hmem) (by decide)
    | receive => exact absurd (h.2.2 ▸ hmem) (by decide)
    | shutdown =>
      obtain ⟨_,b',_,hp'⟩ := h
      exact absurd (hp' ▸ hmem) (by simp [dialogue])
    | close =>
      obtain ⟨_,b',_,hp'⟩ := h
      exact absurd (hp' ▸ hmem) (by simp [dialogue])
    | returned => exact absurd rfl hpc

theorem ClientAt.call (h : ClientAt message u d cs) (hd : d.sent <+: helloClient)
    (he : ClientEffect message room gone u d cs.pc result arrives u' d') :
    ClientAt message u' d' (cs.call result.received) := by
  have hthrows := h.throws
  have hsent := h.sent
  obtain ⟨pc,printed⟩ := cs
  cases he with
  | connect b =>
    obtain ⟨hu,ht,rfl⟩ := h
    exact ⟨hu,ht,rfl⟩
  | send b =>
    obtain ⟨hu,ht,hp⟩ := h
    exact ⟨by rw [Pipe.sent_send,hu,List.nil_append],ht,hp⟩
  | sendThrows hprefix =>
    refine ⟨?_,hthrows fun hpc => by cases hpc⟩
    rw [Pipe.sent_send,h.1,List.nil_append]
    exact hprefix
  | @receive b d' hr =>
    obtain ⟨hu,ht,rfl⟩ := h
    obtain ⟨hreceived,hreturns⟩ := Pipe.receive_eq hr
    refine ⟨hu,b,?_,rfl⟩
    rw [Pipe.sent,ht,List.nil_append] at hd
    exact hreturns.1.trans hd
  | shutdown b => exact h
  | close b =>
    obtain ⟨hu,b',hb,hp⟩ := h
    exact ⟨hu ▸ List.prefix_refl _,b',_,hb,List.prefix_refl _,Or.inl hp⟩
  | throws b hs hpc => exact ⟨hsent,hthrows hpc⟩

/- What the others do to the connection does not touch what is known of the client. -/
theorem ClientAt.frame (h : ClientAt message u d cs) (hu : u'.sent = u.sent)
    (hd : d'.taken = d.taken) : ClientAt message u' d' cs := by
  obtain ⟨pc,printed⟩ := cs
  cases pc <;> simpa only [ClientAt,hu,hd] using h

theorem ClientEffect.taken (he : ClientEffect message room gone u d cs.pc result arrives u' d') :
    u'.taken = u.taken ∧ d'.sent = d.sent := by
  generalize cs.pc = pc at he
  cases he with
  | receive hr => exact ⟨rfl,(Pipe.receive_eq hr).1.sent⟩
  | _ => exact ⟨rfl,rfl⟩

theorem ClientEffect.call_pc (he : ClientEffect message room gone u d cs.pc result arrives u' d') :
    (cs.call result.received).pc ≠ .connect ∧ (arrives = true → cs.pc = .connect) := by
  obtain ⟨pc,printed⟩ := cs
  cases he <;> exact ⟨by simp [ClientStart.call,Result.received],by simp⟩

theorem ServingAt.frame {pc : PC} (h : ServingAt κ message u d pc) (hu : u'.taken = u.taken)
    (hd : d'.sent = d.sent) : ServingAt κ message u' d' pc := by
  cases pc with
  | accept => trivial
  | returned => trivial
  | receive data n => simpa only [ServingAt,hu,hd] using h
  | _ => simpa only [ServingAt,hu,hd] using h

end Client

theorem getElem?_arrive {arrived : List ℕ} {d : ℕ} (h : (arrived ++ [c])[k]? = some d) :
    arrived[k]? = some d ∨ k = arrived.length := by
  rcases Nat.lt_or_ge k arrived.length with hlt | hge
  · rw [List.getElem?_append_left hlt] at h
    exact Or.inl h
  · have hlen := (List.getElem?_eq_some_iff.mp h).1
    rw [List.length_append,List.length_singleton] at hlen
    exact Or.inr (by omega)

/- The list of connections may grow while everything else about the server stays. -/
theorem Inv.arrive (h : Inv κ messages s) {arrives : Bool} {arrived : List ℕ}
    (hc : arrives = true → (s.client c).pc = .connect)
    (ha : arrived = if arrives then s.arrived ++ [c] else s.arrived) :
    arrived.Nodup ∧ s.server.served ≤ arrived.length ∧
    (s.server.pc ≠ .returned → s.server.begun ≤ arrived.length) ∧
    (∀ x ∈ s.arrived.take s.server.begun, x ∈ arrived.take s.server.begun) ∧
    arrived.take s.server.served = s.arrived.take s.server.served ∧
    (∀ d, arrived[s.server.served]? = some d →
      s.arrived[s.server.served]? = some d ∨ s.server.pc = .accept ∨ s.server.pc = .returned) ∧
    sessions messages arrived s.server.served = sessions messages s.arrived s.server.served ∧
    (session messages arrived s.server.served = session messages s.arrived s.server.served ∨
      session messages s.arrived s.server.served = [] ∧
        (s.server.pc = .accept ∨ s.server.pc = .returned)) := by
  subst ha
  have hserved := h.served
  have hbegun := h.begun
  cases arrives with
  | false => exact ⟨h.nodup,hserved,hbegun,fun _ hx => hx,rfl,fun _ hd => Or.inl hd,rfl,Or.inl rfl⟩
  | true =>
    have hnot : c ∉ s.arrived := fun hmem => h.known c hmem (hc rfl)
    -- Behind the last connection the server is in `Accept`, or gone.
    have hlast : s.server.served = s.arrived.length → s.server.pc = .accept ∨ s.server.pc = .returned := by
      intro hlen
      by_contra hpc
      rw [not_or] at hpc
      have hle := hbegun hpc.2
      simp only [Server.begun,if_neg hpc.1] at hle
      omega
    have hlonger : s.arrived.length ≤ (s.arrived ++ [c]).length := by simp
    refine ⟨?_,hserved.trans hlonger,fun hpc => (hbegun hpc).trans hlonger,fun x hx => ?_,?_,
      fun d hd => ?_,?_,?_⟩
    · rw [if_pos rfl,← List.concat_eq_append]
      exact List.Nodup.concat hnot h.nodup
    · rw [if_pos rfl,List.take_append]
      exact List.mem_append_left _ hx
    · exact List.take_append_of_le_length hserved
    · exact (getElem?_arrive hd).imp_right hlast
    · exact sessions_arrive hserved
    · rcases Nat.lt_or_eq_of_le hserved with hlt | heq
      · exact Or.inl (session_arrive hlt)
      · refine Or.inr ⟨?_,hlast heq⟩
        rw [session,heq,List.getElem?_eq_none (Nat.le_refl _)]

theorem Inv.clientCall (h : Inv κ messages s) (hs : s.clientCall messages c result = some s') :
    Inv κ messages s' := by
  obtain ⟨message,arrives,u,d,hm,he,rfl⟩ := Exchange.clientCall_eq hs
  obtain ⟨hu,hd⟩ := he.taken
  obtain ⟨hcall,harrives⟩ := he.call_pc
  obtain ⟨hnodup,hserved,hbegun,htake,htake',hnext,hsessions,hsession⟩ := h.arrive harrives rfl
  -- What the server knows of a connection is left alone by the client.
  have hup (x : ℕ) : (Function.update s.up c u x).taken = (s.up x).taken := by
    by_cases hx : x = c
    · rw [hx,Function.update_self,hu]
    · rw [Function.update_of_ne hx]
  have hdown (x : ℕ) : (Function.update s.down c d x).sent = (s.down x).sent := by
    by_cases hx : x = c
    · rw [hx,Function.update_self,hd]
    · rw [Function.update_of_ne hx]
  constructor
  case nodup => exact hnodup
  case served => exact hserved
  case begun => exact hbegun
  case known =>
    intro x hx
    by_cases hxc : x = c
    · simpa only [hxc,Function.update_self] using hcall
    · have hold : x ∈ s.arrived := by
        split_ifs at hx with ha
        · exact (List.mem_append.mp hx).resolve_right fun hx => hxc (List.mem_singleton.mp hx)
        · exact hx
      simpa only [Function.update_of_ne hxc] using h.known x hold
  case member =>
    intro x hx
    split_ifs at hx with ha
    · rcases List.mem_append.mp hx with hx | hx
      · exact h.member x hx
      · exact ⟨message,List.mem_singleton.mp hx ▸ hm⟩
    · exact h.member x hx
  case client =>
    intro x
    by_cases hx : x = c
    · subst hx
      have hat := h.client x
      rw [hm,Option.getD_some] at hat
      simpa only [Function.update_self,hm,Option.getD_some] using hat.call (h.answers x) he
    · simpa only [Function.update_of_ne hx] using h.client x
  case fresh =>
    intro x hx
    rw [hup,hdown]
    exact h.fresh x fun hmem => hx (htake x hmem)
  case answers =>
    intro x
    rw [hdown]
    exact h.answers x
  case serving =>
    intro x hx
    rcases hnext x hx with hx | hpc | hpc
    · exact (h.serving x hx).frame (hup x) (hdown x)
    · rw [hpc]
      trivial
    · rw [hpc]
      trivial
  case done =>
    intro x hx
    rw [htake'] at hx
    rw [hdown]
    exact h.done x hx
  case log =>
    intro hpc
    refine (h.log hpc).trans ?_
    rcases hsession with he | ⟨_,hacc | hreturned⟩
    · rw [hsessions,he]
    · rw [hsessions,hacc,PC.noted,List.take_zero,List.take_zero]
    · exact absurd hreturned hpc
  case logReturned =>
    intro hpc
    obtain ⟨n,hlog⟩ := h.logReturned hpc
    rcases hsession with he | ⟨hnone,_⟩
    · exact ⟨n,by rw [hsessions,he,hlog]⟩
    · exact ⟨0,by rw [hsessions,hlog,hnone,List.take_nil,List.take_zero]⟩

/-! ### A call of the server -/

/- The connection that is being served is not among those that were. -/
theorem not_mem_take {arrived : List ℕ} (hnodup : arrived.Nodup) (hc : arrived[k]? = some c) :
    c ∉ arrived.take k := by
  intro hmem
  obtain ⟨i,hi⟩ := List.mem_iff_getElem?.mp hmem
  rw [List.getElem?_take] at hi
  split_ifs at hi with hik
  have hlen := (List.getElem?_eq_some_iff.mp hi).1
  have hsame := (List.getElem?_inj hlen hnodup).mp (hi.trans hc.symm)
  omega

theorem mem_take_succ {arrived : List ℕ} (hc : arrived[k]? = some c) {x : ℕ} :
    x ∈ arrived.take (k+1) ↔ x ∈ arrived.take k ∨ x = c := by
  rw [List.take_add_one,hc,Option.toList_some,List.mem_append,List.mem_singleton]

/- The notes about a client with the text `message`. -/
def notes (k : ℕ) (message : Bytes) : List Event :=
  [.accepted k,.packet k (getString message),.sent k helloClient,.closed k]

theorem session_of {arrived : List ℕ} (hc : arrived[k]? = some c) :
    session messages arrived k = notes k (messages[c]?.getD []) := by
  rw [session,hc]
  rfl

/- A call of the server goes on with the session or ends it. -/
structure ServerAt (κ : Culture) (k : ℕ) (message : Bytes) (pc : PC) (d u' d' : Pipe Byte)
    (pc' : PC) (k' : ℕ) (log : List Event) : Prop where
  taken : d'.taken = d.taken
  answers : d'.sent <+: helloClient
  next : k' = k ∧ pc' ≠ .accept ∧ ServingAt κ message u' d' pc' ∧
      (pc' ≠ .returned → (notes k message).take pc.noted ++ log = (notes k message).take pc'.noted) ∨
    k' = k+1 ∧ pc' = .accept ∧ d'.sent = helloClient ∧
      (notes k message).take pc.noted ++ log = notes k message
  returned : pc' = .returned → log = [.stackTrace]

theorem ServerEffect.running {u d u' d' : Pipe Byte} {gone : Bool} {pc pc' : PC} {k' : ℕ}
    {log : List Event} (he : ServerEffect κ k gone u d pc result pc' k' log u' d') :
    pc ≠ .returned := by
  rintro rfl
  cases he with
  | throws b _ _ hne => exact hne rfl

theorem ServerEffect.sent_up {u d u' d' : Pipe Byte} {gone : Bool} {pc pc' : PC} {k' : ℕ}
    {log : List Event} (he : ServerEffect κ k gone u d pc result pc' k' log u' d') :
    u'.sent = u.sent := by
  cases he with
  | receive hr => exact (Pipe.receive_eq hr).1.sent
  | complete hr => exact (Pipe.receive_eq hr).1.sent
  | _ => rfl

theorem ServerEffect.spec {u d u' d' : Pipe Byte} {gone : Bool} {pc pc' : PC} {k' : ℕ}
    {log : List Event} (hello : Hello message) (hu : u.sent <+: message)
    (hd : d.sent <+: helloClient) (hat : ServingAt κ message u d pc)
    (hfresh : pc = .accept → u.taken = [] ∧ d.sent = [])
    (he : ServerEffect κ k gone u d pc result pc' k' log u' d') :
    ServerAt κ k message pc d u' d' pc' k' log := by
  cases he with
  | accept b =>
    obtain ⟨ht,hs⟩ := hfresh rfl
    refine ⟨rfl,hd,Or.inl ⟨rfl,by decide,⟨?_,?_,hs⟩,fun _ => rfl⟩,fun h => by cases h⟩
    · rw [ht]
      rfl
    · rw [ht]
      exact not_complete_nil
  | @receive data n b u' hr hfound =>
    obtain ⟨hdata,_,hs⟩ := hat
    have hreceived := (Pipe.receive_eq hr).1
    refine ⟨rfl,hd,Or.inl ⟨rfl,(fun h => by cases h),⟨?_,?_,hs⟩,fun _ => rfl⟩,
      fun h => by cases h⟩
    · rw [hreceived.taken,getString_append,hdata]
    · rw [hreceived.taken,Culture.complete,getString_append,← hdata]
      exact hfound
  | @complete data n b u' hr hfound =>
    obtain ⟨hdata,_,hs⟩ := hat
    have hreceived := (Pipe.receive_eq hr).1
    have htext : data ++ getString b = getString u'.taken := by
      rw [hreceived.taken,getString_append,hdata]
    have hwhole : u'.taken = message := by
      have hprefix := (u'.taken_sent.trans (hreceived.sent ▸ List.prefix_refl _)).trans hu
      rw [htext] at hfound
      exact (hello.complete_iff hprefix).mp hfound
    refine ⟨rfl,hd,Or.inl ⟨rfl,by decide,⟨hwhole,hs⟩,fun _ => ?_⟩,fun h => by cases h⟩
    rw [htext,hwhole]
    rfl
  | send b =>
    have hsent : (d.send helloClient).sent = helloClient := by
      rw [Pipe.sent_send,hat.2,List.nil_append]
    refine ⟨rfl,?_,Or.inl ⟨rfl,by decide,hsent,fun _ => rfl⟩,fun h => by cases h⟩
    rw [hsent]
  | @sendThrows sent hprefix =>
    refine ⟨rfl,?_,Or.inl ⟨rfl,by decide,trivial,fun h => absurd rfl h⟩,fun _ => rfl⟩
    rw [Pipe.sent_send,hat.2,List.nil_append]
    exact hprefix
  | shutdown b =>
    exact ⟨rfl,hd,Or.inl ⟨rfl,by decide,hat,fun _ => rfl⟩,fun h => by cases h⟩
  | close b => exact ⟨rfl,hd,Or.inr ⟨rfl,rfl,hat,rfl⟩,fun h => by cases h⟩
  | throws b ha hsend hpc =>
    exact ⟨rfl,hd,Or.inl ⟨rfl,by decide,trivial,fun h => absurd rfl h⟩,fun _ => rfl⟩

/- `Accept` throws: nobody is being served. -/
theorem Inv.caught (h : Inv κ messages s) (hpc : s.server.pc = .accept) :
    Inv κ messages { s with server := s.server.caught } where
  nodup := h.nodup
  known := h.known
  member := h.member
  served := h.served
  begun := fun hno => absurd rfl hno
  client := h.client
  fresh x hx := by
    refine h.fresh x fun hmem => hx ?_
    have hbegun : s.server.begun = s.server.served := if_pos hpc
    rw [hbegun] at hmem
    exact (List.take_prefix_take_left (Nat.le_succ _)).subset hmem
  answers := h.answers
  serving := fun _ _ => trivial
  done := h.done
  log := fun hno => absurd rfl hno
  logReturned := fun _ => ⟨0,by
    have hlog := h.log (by rw [hpc]; decide)
    rw [hpc,PC.noted] at hlog
    exact congrArg (· ++ [Event.stackTrace]) hlog⟩

theorem Inv.serverCall (hello : ∀ m ∈ messages, Hello m) (h : Inv κ messages s)
    (hs : s.serverCall κ result = some s') : Inv κ messages s' := by
  obtain ⟨hpc,rfl⟩ | ⟨c,pc,served,log,u,d,hc,he,rfl⟩ := Exchange.serverCall_cases hs
  · exact h.caught hpc
  obtain ⟨message,hm⟩ := h.member c (List.mem_of_getElem? hc)
  have hmessage : messages[c]?.getD [] = message := by rw [hm,Option.getD_some]
  have hnot := not_mem_take h.nodup hc
  have hclient := h.client c
  have hserving := h.serving c hc
  have hsession : session messages s.arrived s.server.served = notes s.server.served message :=
    hmessage ▸ session_of hc
  rw [hmessage] at hclient hserving
  have hfresh : s.server.pc = .accept → (s.up c).taken = [] ∧ (s.down c).sent = [] := by
    intro hpc
    refine h.fresh c ?_
    rwa [Server.begun,if_pos hpc]
  have hat := he.spec (hello message (List.mem_of_getElem? hm)) hclient.sent (h.answers c) hserving
    hfresh
  have hold (x : ℕ) (hx : x ∉ s.arrived.take (s.server.served+1)) :
      x ∉ s.arrived.take s.server.begun ∧ x ≠ c := by
    rw [mem_take_succ hc,not_or] at hx
    refine ⟨fun hmem => ?_,hx.2⟩
    unfold Server.begun at hmem
    split_ifs at hmem
    · exact hx.1 hmem
    · exact ((mem_take_succ hc).mp hmem).elim hx.1 hx.2
  -- Either way the server has begun with one connection more than those it had served.
  have hbegun : (⟨pc,served,s.server.log ++ log⟩ : Server).begun = s.server.served+1 := by
    rcases hat.next with ⟨rfl,hpc,_⟩ | ⟨rfl,hpc,_⟩
    · rw [Server.begun,if_neg hpc]
    · rw [Server.begun,if_pos hpc]
  constructor
  case nodup => exact h.nodup
  case known => exact h.known
  case member => exact h.member
  case served =>
    have hlength := (List.getElem?_eq_some_iff.mp hc).1
    rcases hat.next with ⟨rfl,_⟩ | ⟨rfl,_⟩
    · exact Nat.le_of_lt hlength
    · exact hlength
  case begun =>
    intro _
    rw [hbegun]
    exact (List.getElem?_eq_some_iff.mp hc).1
  case client =>
    intro x
    by_cases hx : x = c
    · subst hx
      simpa only [Function.update_self] using (h.client x).frame he.sent_up hat.taken
    · simpa only [Function.update_of_ne hx] using h.client x
  case fresh =>
    intro x hx
    rw [hbegun] at hx
    obtain ⟨hx,hne⟩ := hold x hx
    simpa only [Function.update_of_ne hne] using h.fresh x hx
  case answers =>
    intro x
    by_cases hx : x = c
    · simpa only [hx,Function.update_self] using hat.answers
    · simpa only [Function.update_of_ne hx] using h.answers x
  case serving =>
    intro x hx
    rcases hat.next with ⟨rfl,_,hnext,_⟩ | ⟨rfl,hpc,_⟩
    · obtain rfl := Option.some.inj (hc.symm.trans hx)
      simpa only [Function.update_self,hmessage] using hnext
    · simp only [hpc]
      trivial
  case done =>
    intro x hx
    have hother (hx : x ∈ s.arrived.take s.server.served) :
        (Function.update s.down c d x).sent = helloClient := by
      have hne : x ≠ c := fun he => hnot (he ▸ hx)
      simpa only [Function.update_of_ne hne] using h.done x hx
    rcases hat.next with ⟨rfl,_⟩ | ⟨rfl,_,hsent,_⟩
    · exact hother hx
    · rcases (mem_take_succ hc).mp hx with hx | rfl
      · exact hother hx
      · simpa only [Function.update_self] using hsent
  case log =>
    intro hpc
    have hrunning := he.running
    show s.server.log ++ log = _
    rw [h.log hrunning,hsession,List.append_assoc]
    rcases hat.next with ⟨rfl,_,_,hnotes⟩ | ⟨rfl,hacc,_,hnotes⟩
    · rw [hnotes hpc]
      show _ = sessions messages s.arrived s.server.served ++
        (session messages s.arrived s.server.served).take _
      rw [hsession]
    · rw [hnotes]
      show _ = sessions messages s.arrived (s.server.served+1) ++ List.take (PC.noted pc) _
      rw [hacc,sessions_succ,hsession,PC.noted,List.take_zero,List.append_nil]
  case logReturned =>
    intro hpc
    have hrunning := he.running
    rcases hat.next with ⟨rfl,_⟩ | ⟨rfl,hacc,_⟩
    · refine ⟨s.server.pc.noted,?_⟩
      show s.server.log ++ log = _
      rw [h.log hrunning,hat.returned hpc]
    · exact absurd (hacc.symm.trans hpc) (by decide)

theorem run_inv (hello : ∀ m ∈ messages, Hello m) {tr : List (Exchange × Move)}
    (r : Run (exchange κ messages) .start tr s) : Inv κ messages s := by
  refine r.invariant (I := Inv κ messages) Inv.start fun s a s' h hs => ?_
  cases a with
  | client c result => exact h.clientCall hs
  | server result => exact h.serverCall hello hs

/- The session that has begun is one of those of the connections there are. -/
theorem Inv.log_within (h : Inv κ messages s) (n : ℕ) :
    sessions messages s.arrived s.server.served ++
      (session messages s.arrived s.server.served).take n <+:
        sessions messages s.arrived s.arrived.length := by
  rcases Nat.lt_or_eq_of_le h.served with hlt | heq
  · refine List.IsPrefix.trans ?_ (sessions_mono _ (Nat.succ_le_of_lt hlt))
    rw [sessions_succ,List.prefix_append_right_inj]
    exact List.take_prefix _ _
  · have hnone : session messages s.arrived s.server.served = [] := by
      rw [session,heq,List.getElem?_eq_none (Nat.le_refl _)]
    rw [hnone,List.take_nil,List.append_nil]
    exact sessions_mono _ h.served

/-- Whatever calls throw: the server's notes are a beginning of whole sessions with whole
texts, one for each client, in the order in which they connected, and perhaps the stack
trace; and a client prints nothing else than a beginning of the answer. -/
theorem exchange_prints (hello : ∀ m ∈ messages, Hello m) {tr : List (Exchange × Move)}
    (r : Run (exchange κ messages) .start tr s) :
    s.arrived.Nodup ∧ (∀ c, Shown (s.client c).printed) ∧
    ∃ log, log <+: sessions messages s.arrived s.arrived.length ∧
      (s.server.log = log ∨ s.server.log = log ++ [.stackTrace]) := by
  have h := run_inv hello r
  refine ⟨h.nodup,fun c => (h.client c).shown,?_⟩
  by_cases hpc : s.server.pc = .returned
  · obtain ⟨n,hlog⟩ := h.logReturned hpc
    exact ⟨_,h.log_within n,Or.inr hlog⟩
  · exact ⟨_,h.log_within _,Or.inl (h.log hpc)⟩

/- The second client connects first; its text arrives in two pieces, it takes the answer in
part, and it fails after that. The first one connects meanwhile, and its `Send` breaks off. -/
def interleaved : List Move :=
  [.client 1 (.returns []),.server (.returns []),.client 0 (.returns []),.client 1 (.returns []),
    .server (.returns (ascii "Test Client<")),.client 0 (.throws (ascii "Hello")),
    .server (.returns (ascii "EOF>")),.server (.returns []),.client 1 (.returns (ascii "Hello")),
    .client 1 (.throws []),.server (.returns []),.server (.returns []),.server (.returns []),
    .server (.returns (ascii "Hello")),.server (.throws [])]

theorem exchange_prints_interleaved :
    let s := (runOf (exchange .ordinal [clientMessage,socketsMessage]) .start interleaved).2
    s.arrived = [1,0] ∧ s.server.log.length = 6 ∧ ∃ log,
      log <+: sessions [clientMessage,socketsMessage] s.arrived s.arrived.length ∧
        (s.server.log = log ∨ s.server.log = log ++ [.stackTrace]) := by
  have hello : ∀ m ∈ [clientMessage,socketsMessage], Hello m := by
    intro m hm
    rcases List.mem_cons.mp hm with rfl | hm
    · exact hello_programs.1
    · rw [List.mem_singleton.mp hm]
      exact hello_programs.2
  have hrun := runOf_run (exchange .ordinal [clientMessage,socketsMessage]) .start interleaved
    (by decide +kernel)
  exact ⟨by decide +kernel,by decide +kernel,(exchange_prints hello hrun).2.2⟩

end TcpProjects.Protocol
