import Mathlib.Algebra.BigOperators.Intervals
import Mathlib.Algebra.Order.BigOperators.Group.Finset
import TcpProjects.Base.Queues
import TcpProjects.Protocol.Dialogue

/-! # Every client is answered

As long as no call throws, clients and server come to an end whatever the order of the
calls and however the streams are cut: all clients have returned with an answer, and
the server waits for the next connection. -/

namespace TcpProjects.Protocol
open Transition

variable {κ : Culture} {messages : List Bytes} {message b : Bytes} {s s' : Exchange} {c k n : ℕ}
  {result : Result} {a : Move}

def Move.returns : Move → Bool
  | .client _ (.returns _) | .server (.returns _) => true
  | _ => false

/- A client behind its `Receive`, when no call has thrown. -/
def CleanAt (message : Bytes) (u : Pipe Byte) : ClientStart → Prop
  | ⟨.shutdown,printed⟩ | ⟨.close,printed⟩ | ⟨.returned,printed⟩ =>
    u.sent = message ∧ ∃ b, b ≠ [] ∧ b <+: helloClient ∧ printed = dialogue b
  | _ => True

/- What holds beside the invariant when no call has thrown. -/
structure Clean (messages : List Bytes) (s : Exchange) : Prop where
  running : s.server.pc ≠ .returned
  client : ∀ c, CleanAt (messages[c]?.getD []) (s.up c) (s.client c)
  arrived : ∀ c, (s.client c).pc ≠ .connect → c ∈ s.arrived
  upEnded : ∀ c, (s.up c).ended = true → (s.client c).pc = .close ∨ (s.client c).pc = .returned
  downEnded : ∀ c, (s.down c).ended = true → (s.down c).sent = helloClient

theorem Clean.start : Clean messages .start where
  running := by decide
  client := fun _ => trivial
  arrived := fun _ h => absurd rfl h
  upEnded := fun _ h => by cases h
  downEnded := fun _ h => by cases h

section Effects
variable {u d u' d' : Pipe Byte} {cs : ClientStart} {room gone arrives : Bool} {b : Bytes}

theorem helloClient_ne : helloClient ≠ [] := by decide +kernel

/- A client that has taken nothing gets something, if the stream does not end before the answer. -/
theorem receive_answer (ht : d.taken = []) (hgone : gone = false)
    (hended : d.ended = true → d.sent = helloClient) (hr : d.receive 1024 gone b = some d') :
    b ≠ [] := by
  rintro rfl
  obtain ⟨hw,he⟩ := (Pipe.receive_eq hr).2.2.2 rfl
  rw [hgone,Bool.or_false] at he
  have hsent := hended he
  rw [Pipe.sent,ht,hw] at hsent
  exact helloClient_ne hsent.symm

theorem CleanAt.call (h : CleanAt message u cs) (hat : ClientAt message u d cs)
    (hd : d.sent <+: helloClient) (hgone : gone = false)
    (hended : d.ended = true → d.sent = helloClient)
    (he : ClientEffect message room gone u d cs.pc (.returns b) arrives u' d') :
    CleanAt message u' (cs.call (Result.returns b).received) := by
  obtain ⟨pc,printed⟩ := cs
  cases he with
  | connect => trivial
  | send => trivial
  | receive hr =>
    obtain ⟨hu,ht,rfl⟩ := hat
    have hreturns := (Pipe.receive_eq hr).2
    rw [Pipe.sent,ht,List.nil_append] at hd
    exact ⟨hu,b,receive_answer ht hgone hended hr,hreturns.1.trans hd,rfl⟩
  | shutdown => exact h
  | close => exact h

theorem CleanAt.frame (h : CleanAt message u cs) (hu : u'.sent = u.sent) : CleanAt message u' cs := by
  obtain ⟨pc,printed⟩ := cs
  cases pc with
  | connect => trivial
  | send => trivial
  | receive => trivial
  | _ => simpa only [CleanAt,hu] using h

/- A stream that has ended was sent whole. -/
theorem CleanAt.sent (h : CleanAt message u cs) (hpc : cs.pc = .close ∨ cs.pc = .returned) :
    u.sent = message := by
  obtain ⟨pc,printed⟩ := cs
  rcases hpc with rfl | rfl
  · exact h.1
  · exact h.1

theorem ClientEffect.ended (hup : u.ended = true → cs.pc = .close ∨ cs.pc = .returned)
    (he : ClientEffect message room gone u d cs.pc (.returns b) arrives u' d') :
    (u'.ended = true → (cs.call (Result.returns b).received).pc = .close ∨ (cs.call (Result.returns b).received).pc = .returned) ∧
    d'.ended = d.ended ∧ (arrives = true ∨ cs.pc ≠ .connect) := by
  obtain ⟨pc,printed⟩ := cs
  cases he with
  | connect => exact ⟨fun h => absurd (hup h) (by simp),rfl,Or.inl rfl⟩
  | send => exact ⟨fun h => absurd (hup h) (by simp),rfl,Or.inr (by simp)⟩
  | receive hr =>
    exact ⟨fun h => absurd (hup h) (by simp),(Pipe.receive_eq hr).1.ended,Or.inr (by simp)⟩
  | shutdown => exact ⟨fun _ => Or.inl rfl,rfl,Or.inr (by simp)⟩
  | close => exact ⟨fun _ => Or.inr rfl,rfl,Or.inr (by simp)⟩

theorem ServerEffect.ended {pc pc' : PC} {k' : ℕ} {log : List Event}
    (hat : ServingAt κ message u d pc) (hdown : d.ended = true → d.sent = helloClient)
    (he : ServerEffect κ k gone u d pc (.returns b) pc' k' log u' d') :
    pc' ≠ .returned ∧ u'.ended = u.ended ∧ (d'.ended = true → d'.sent = helloClient) := by
  cases he with
  | accept => exact ⟨by decide,rfl,hdown⟩
  | receive hr => exact ⟨(fun h => by cases h),(Pipe.receive_eq hr).1.ended,hdown⟩
  | complete hr => exact ⟨by decide,(Pipe.receive_eq hr).1.ended,hdown⟩
  | send =>
    refine ⟨by decide,rfl,fun h => ?_⟩
    rw [Pipe.sent_send,hat.2,List.nil_append]
  | shutdown => exact ⟨by decide,rfl,fun _ => hat⟩
  | close => exact ⟨by decide,rfl,hdown⟩

end Effects

theorem Clean.clientCall (h : Clean messages s) (hinv : Inv κ messages s) {b : Bytes}
    (hs : s.clientCall messages c (.returns b) = some s') : Clean messages s' := by
  obtain ⟨message,arrives,u,d,hm,he,rfl⟩ := Exchange.clientCall_eq hs
  have hmessage : messages[c]?.getD [] = message := by rw [hm,Option.getD_some]
  have hclean := h.client c
  have hat := hinv.client c
  rw [hmessage] at hclean hat
  have hgone : decide (s.server.pc = .returned) = false := decide_eq_false h.running
  have hcall := hclean.call hat (hinv.answers c) hgone (h.downEnded c) he
  obtain ⟨hup,hdown,hconnect⟩ := he.ended (h.upEnded c)
  have hsent := he.taken.2
  constructor
  case running => exact h.running
  case client =>
    intro x
    by_cases hx : x = c
    · subst hx
      simpa only [Function.update_self,hmessage] using hcall
    · simpa only [Function.update_of_ne hx] using h.client x
  case arrived =>
    intro x hpc
    by_cases hx : x = c
    · subst hx
      rcases hconnect with rfl | hne
      · exact List.mem_append_right _ (List.mem_singleton_self _)
      · have hmem := h.arrived x hne
        split_ifs
        · exact List.mem_append_left _ hmem
        · exact hmem
    · have hmem := h.arrived x (by simpa only [Function.update_of_ne hx] using hpc)
      split_ifs
      · exact List.mem_append_left _ hmem
      · exact hmem
  case upEnded =>
    intro x
    by_cases hx : x = c
    · subst hx
      simpa only [Function.update_self] using hup
    · simpa only [Function.update_of_ne hx] using h.upEnded x
  case downEnded =>
    intro x
    by_cases hx : x = c
    · subst hx
      simpa only [Function.update_self,hdown,hsent] using h.downEnded x
    · simpa only [Function.update_of_ne hx] using h.downEnded x

theorem Clean.serverCall (h : Clean messages s) (hinv : Inv κ messages s) {b : Bytes}
    (hs : s.serverCall κ (.returns b) = some s') : Clean messages s' := by
  rw [Exchange.serverCall_session fun _ => rfl] at hs
  obtain ⟨c,pc,served,log,u,d,hc,he,rfl⟩ := Exchange.sessionCall_eq (fun _ => rfl) hs
  obtain ⟨hpc,hup,hdown⟩ := he.ended (hinv.serving c hc) (h.downEnded c)
  constructor
  case running => exact hpc
  case client =>
    intro x
    by_cases hx : x = c
    · subst hx
      simpa only [Function.update_self] using (h.client x).frame he.sent_up
    · simpa only [Function.update_of_ne hx] using h.client x
  case arrived => exact h.arrived
  case upEnded =>
    intro x
    by_cases hx : x = c
    · subst hx
      simpa only [Function.update_self,hup] using h.upEnded x
    · simpa only [Function.update_of_ne hx] using h.upEnded x
  case downEnded =>
    intro x
    by_cases hx : x = c
    · subst hx
      simpa only [Function.update_self] using hdown
    · simpa only [Function.update_of_ne hx] using h.downEnded x

/-! ### What is left to do -/

/- The calls a client still makes, and for a new one those the server makes for it; what
it sends is received in as many calls as there are bytes, at most. -/
def clientLeft (message : Bytes) (u : Pipe Byte) : ClientPC → ℕ
  | .connect => message.length+10+u.waiting.length
  | .send => message.length+4+u.waiting.length
  | .receive => 3+u.waiting.length
  | .shutdown => 2+u.waiting.length
  | .close => 1+u.waiting.length
  | .returned => u.waiting.length

/- The calls of a session that are behind the server. -/
def PC.stage : PC → ℕ
  | .accept | .returned => 0
  | .receive _ _ => 1
  | .send => 2
  | .shutdown => 3
  | .close => 4

def Exchange.clientsLeft (messages : List Bytes) (s : Exchange) (c : ℕ) : ℕ :=
  clientLeft (messages[c]?.getD []) (s.up c) (s.client c).pc

def Exchange.left (messages : List Bytes) (s : Exchange) : ℕ :=
  ∑ c ∈ Finset.range messages.length,s.clientsLeft messages c+
    (5*(s.arrived.length-s.server.served)-s.server.pc.stage)

section Left
variable {u d u' d' : Pipe Byte} {cs : ClientStart} {room gone arrives : Bool} {b : Bytes}

theorem ClientEffect.left (he : ClientEffect message room gone u d cs.pc (.returns b) arrives u' d') :
    clientLeft message u' (cs.call (Result.returns b).received).pc+(if arrives then 6 else 1) ≤
      clientLeft message u cs.pc := by
  obtain ⟨pc,printed⟩ := cs
  cases he with
  | connect =>
    simp only [ClientStart.call,Result.received,clientLeft,if_true]
    omega
  | send =>
    simp only [ClientStart.call,Result.received,clientLeft,Pipe.send,List.length_append]
    simp
    omega
  | receive =>
    simp only [ClientStart.call,Result.received,clientLeft]
    simp
  | shutdown =>
    simp only [ClientStart.call,Result.received,clientLeft,Pipe.shutdown]
    simp
  | close =>
    simp only [ClientStart.call,Result.received,clientLeft]
    simp

/- `total` connections have been made. -/
theorem ServerEffect.left {pc pc' : PC} {k' total : ℕ} {log : List Event} (hk : k < total)
    (hpiece : ∀ data n, pc = .receive data n → b ≠ [])
    (he : ServerEffect κ k gone u d pc (.returns b) pc' k' log u' d') :
    u'.waiting.length+(5*(total-k')-pc'.stage) < u.waiting.length+(5*(total-k)-pc.stage) := by
  cases he with
  | accept =>
    simp only [PC.stage]
    omega
  | receive hr =>
    have hlen := (Pipe.receive_eq hr).1.waiting_length
    have hpos := List.length_pos_iff.mpr (hpiece _ _ rfl)
    simp only [PC.stage]
    omega
  | complete hr =>
    have hlen := (Pipe.receive_eq hr).1.waiting_length
    simp only [PC.stage]
    omega
  | send =>
    simp only [PC.stage]
    omega
  | shutdown =>
    simp only [PC.stage]
    omega
  | close =>
    simp only [PC.stage]
    omega

end Left

/- A message that is not complete yet has not been received whole. -/
theorem receive_piece (hello : Hello message) {u u' : Pipe Byte} {cs : ClientStart} {b : Bytes}
    (hup : u.ended = true → cs.pc = .close ∨ cs.pc = .returned) (hclean : CleanAt message u cs)
    (hno : κ.complete u.taken = false)
    (hr : u.receive 1024 (cs.pc = .returned) b = some u') : b ≠ [] := by
  rintro rfl
  obtain ⟨hw,he⟩ := (Pipe.receive_eq hr).2.2.2 rfl
  have hpc : cs.pc = .close ∨ cs.pc = .returned := by
    rcases Bool.or_eq_true_iff.mp he with he | he
    · exact hup he
    · exact Or.inr (of_decide_eq_true he)
  have hsent := hclean.sent hpc
  rw [Pipe.sent,hw,List.append_nil] at hsent
  rw [hsent,(hello.complete_iff (List.prefix_refl _)).mpr rfl] at hno
  cases hno

theorem left_client (hinv : Inv κ messages s) {b : Bytes}
    (hs : s.clientCall messages c (.returns b) = some s') : s'.left messages < s.left messages := by
  obtain ⟨message,arrives,u,d,hm,he,rfl⟩ := Exchange.clientCall_eq hs
  have hmessage : messages[c]?.getD [] = message := by rw [hm,Option.getD_some]
  have hlen := (List.getElem?_eq_some_iff.mp hm).1
  have hserved := hinv.served
  have hleft := he.left
  unfold Exchange.left
  have hsum := Queues.sum_change (f := Exchange.clientsLeft messages ⟨s.server,
    if arrives then s.arrived ++ [c] else s.arrived,
    Function.update s.client c ((s.client c).call (Result.returns b).received),
    Function.update s.up c u,Function.update s.down c d⟩) (g := s.clientsLeft messages)
    (Finset.mem_range.mpr hlen)
    fun x hx => by simp only [Exchange.clientsLeft,Function.update_of_ne hx]
  simp only [Exchange.clientsLeft,Function.update_self,hmessage] at hsum ⊢
  cases arrives with
  | true =>
    simp only [if_true,List.length_append,List.length_singleton] at hleft ⊢
    omega
  | false =>
    simp only [Bool.false_eq_true,if_false] at hleft ⊢
    omega

theorem left_server (hello : ∀ m ∈ messages, Hello m) (hinv : Inv κ messages s)
    (h : Clean messages s) {b : Bytes} (hs : s.serverCall κ (.returns b) = some s') :
    s'.left messages < s.left messages := by
  rw [Exchange.serverCall_session fun _ => rfl] at hs
  obtain ⟨c,pc,served,log,u,d,hc,he,rfl⟩ := Exchange.sessionCall_eq (fun _ => rfl) hs
  obtain ⟨message,hm⟩ := hinv.member c (List.mem_of_getElem? hc)
  have hmessage : messages[c]?.getD [] = message := by rw [hm,Option.getD_some]
  have hlen := (List.getElem?_eq_some_iff.mp hm).1
  have hserving := hinv.serving c hc
  have hclean := h.client c
  rw [hmessage] at hserving hclean
  have hpiece (data : Text) (n : ℕ) (hpc : s.server.pc = .receive data n) : b ≠ [] := by
    rw [hpc] at he hserving
    have hno := hserving.2.1
    cases he with
    | receive hr => exact receive_piece (hello _ (List.mem_of_getElem? hm)) (h.upEnded c) hclean hno hr
    | complete hr => exact receive_piece (hello _ (List.mem_of_getElem? hm)) (h.upEnded c) hclean hno hr
  have hleft := he.left (List.getElem?_eq_some_iff.mp hc).1 hpiece
  have hsum := Queues.sum_change (f := Exchange.clientsLeft messages ⟨⟨pc,served,s.server.log ++ log⟩,
    s.arrived,s.client,Function.update s.up c u,Function.update s.down c d⟩)
    (g := s.clientsLeft messages) (Finset.mem_range.mpr hlen)
    fun x hx => by simp only [Exchange.clientsLeft,Function.update_of_ne hx]
  have hparts (u : Pipe Byte) : clientLeft message u (s.client c).pc =
      clientLeft message .empty (s.client c).pc+u.waiting.length := by
    cases (s.client c).pc <;> simp [clientLeft,Pipe.empty]
  unfold Exchange.left
  simp only [Exchange.clientsLeft,Function.update_self,hmessage] at hsum ⊢
  have hbefore := hparts (s.up c)
  have hafter := hparts u
  omega

/-! ### Calls that are enabled -/

theorem client_enabled (hm : messages[c]? = some message) (hpc : (s.client c).pc ≠ .returned)
    (hroom : (s.client c).pc = .connect → s.pending < backlog)
    (hstream : (s.client c).pc = .receive → (s.down c).waiting ≠ []) :
    ∃ b, (s.clientCall messages c (.returns b)).isSome = true := by
  unfold Exchange.clientCall
  cases hp : (s.client c).pc with
  | connect => exact ⟨[],by simp [hm,hroom hp]⟩
  | receive =>
    have hreceive : ∃ b, ((s.down c).receive 1024 (s.server.pc = .returned) b).isSome = true :=
      Pipe.receive_exists (by decide) (Or.inl (hstream hp))
    obtain ⟨b,hb⟩ := hreceive
    exact ⟨b,by simpa [hm] using hb⟩
  | returned => exact absurd hp hpc
  | _ => exact ⟨[],by simp [hm]⟩

theorem server_enabled (hc : s.arrived[s.server.served]? = some c) (hpc : s.server.pc ≠ .returned)
    (hstream : ∀ data n, s.server.pc = .receive data n → (s.up c).waiting ≠ []) :
    ∃ b, (s.serverCall κ (.returns b)).isSome = true := by
  have hsession (b : Bytes) : s.serverCall κ (.returns b) = s.sessionCall κ (.returns b) :=
    Exchange.serverCall_session fun _ => rfl
  simp only [hsession,Exchange.sessionCall,hc,Option.bind_some,Exchange.step_answer]
  cases hp : s.server.pc with
  | receive data n =>
    have hreceive : ∃ b, ((s.up c).receive 1024 ((s.client c).pc = .returned) b).isSome = true :=
      Pipe.receive_exists (by decide) (Or.inl (hstream data n hp))
    obtain ⟨b,hb⟩ := hreceive
    refine ⟨b,?_⟩
    cases hf : κ.found (data ++ getString b) <;> simpa [hf] using hb
  | returned => exact absurd hp hpc
  | _ => exact ⟨[],by simp [Result.received]⟩

/-! ### The end -/

/-- Every client has been answered, in the order of the connections. -/
structure Exchange.Answered (messages : List Bytes) (s : Exchange) : Prop where
  server : s.server.pc = .accept
  order : s.arrived.Perm (List.range messages.length)
  log : s.server.log = sessions messages s.arrived messages.length
  client : ∀ c < messages.length, (s.client c).pc = .returned ∧
    ∃ b, b ≠ [] ∧ b <+: helloClient ∧ (s.client c).printed = dialogue b

theorem sent_message {u d : Pipe Byte} {cs : ClientStart} (hat : ClientAt message u d cs)
    (hclean : CleanAt message u cs) (hconnect : cs.pc ≠ .connect) (hsend : cs.pc ≠ .send) :
    u.sent = message := by
  obtain ⟨pc,printed⟩ := cs
  cases pc with
  | connect => exact absurd rfl hconnect
  | send => exact absurd rfl hsend
  | receive => exact hat.1
  | _ => exact hclean.1

section Settled
variable (hello : ∀ m ∈ messages, Hello m) (hinv : Inv κ messages s) (h : Clean messages s)
  (hrest : ∀ a, Move.returns a = true → exchange κ messages s a = none)
include hello hinv h hrest

/- The server waits for a connection: a message that it still reads is under way, or its
client can send it. -/
theorem server_settled : s.server.pc = .accept ∧ s.server.served = s.arrived.length := by
  have hnone : s.arrived[s.server.served]? = none := by
    by_contra hsome
    obtain ⟨c,hc⟩ := Option.ne_none_iff_exists'.mp hsome
    obtain ⟨message,hm⟩ := hinv.member c (List.mem_of_getElem? hc)
    have hmessage : messages[c]?.getD [] = message := by rw [hm,Option.getD_some]
    have hserving := hinv.serving c hc
    have hat := hinv.client c
    have hclean := h.client c
    rw [hmessage] at hserving hat hclean
    have hstream (data : Text) (n : ℕ) (hpc : s.server.pc = .receive data n) :
        (s.up c).waiting ≠ [] := by
      intro hw
      rw [hpc] at hserving
      have hsend : (s.client c).pc ≠ .send := by
        intro hpc
        obtain ⟨b,hb⟩ := client_enabled (s := s) hm (by rw [hpc]; decide)
          (fun he => by cases hpc.symm.trans he) (fun he => by cases hpc.symm.trans he)
        have := hrest (.client c (.returns b)) rfl
        rw [show s.clientCall messages c (.returns b) = none from this] at hb
        cases hb
      have hsent := sent_message hat hclean (hinv.known c (List.mem_of_getElem? hc)) hsend
      rw [Pipe.sent,hw,List.append_nil] at hsent
      have hno := hserving.2.1
      rw [hsent,((hello message (List.mem_of_getElem? hm)).complete_iff (List.prefix_refl _)).mpr rfl]
        at hno
      cases hno
    obtain ⟨b,hb⟩ := server_enabled (κ := κ) hc h.running hstream
    have := hrest (.server (.returns b)) rfl
    rw [show s.serverCall κ (.returns b) = none from this] at hb
    cases hb
  have hge := List.getElem?_eq_none_iff.mp hnone
  have hbegun := hinv.begun h.running
  unfold Server.begun at hbegun
  split_ifs at hbegun with hpc
  · exact ⟨hpc,Nat.le_antisymm hbegun hge⟩
  · omega

theorem client_settled (hc : c < messages.length) : (s.client c).pc = .returned := by
  obtain ⟨hpc,hserved⟩ := server_settled hello hinv h hrest
  have hm := List.getElem?_eq_getElem hc
  by_contra hne
  have hroom : s.pending < backlog := by
    rw [Exchange.pending,Server.begun,if_pos hpc,hserved,Nat.sub_self]
    decide
  have hstream (hreceive : (s.client c).pc = .receive) : (s.down c).waiting ≠ [] := by
    have hmem : c ∈ s.arrived.take s.server.served := by
      rw [hserved,List.take_length]
      exact h.arrived c (by rw [hreceive]; decide)
    have hsent := hinv.done c hmem
    have hat := hinv.client c
    generalize s.client c = cs at hat hreceive
    obtain ⟨pc,printed⟩ := cs
    obtain rfl : pc = .receive := hreceive
    rw [Pipe.sent,hat.2.1,List.nil_append] at hsent
    rw [hsent]
    exact helloClient_ne
  obtain ⟨b,hb⟩ := client_enabled (s := s) hm hne (fun _ => hroom) hstream
  have := hrest (.client c (.returns b)) rfl
  rw [show s.clientCall messages c (.returns b) = none from this] at hb
  cases hb

theorem answered_of_settled : s.Answered messages := by
  obtain ⟨hpc,hserved⟩ := server_settled hello hinv h hrest
  have hreturned := fun c (hc : c < messages.length) => client_settled hello hinv h hrest hc
  have horder : s.arrived.Perm (List.range messages.length) := by
    rw [List.perm_ext_iff_of_nodup hinv.nodup List.nodup_range]
    intro c
    rw [List.mem_range]
    constructor
    · intro hc
      obtain ⟨message,hm⟩ := hinv.member c hc
      exact (List.getElem?_eq_some_iff.mp hm).1
    · intro hc
      exact h.arrived c (by rw [hreturned c hc]; decide)
  refine ⟨hpc,horder,?_,fun c hc => ⟨hreturned c hc,?_⟩⟩
  · rw [hinv.log (by rw [hpc]; decide),hpc,PC.noted,List.take_zero,List.append_nil,hserved,
      horder.length_eq,List.length_range]
  · have hclean := h.client c
    have hpc := hreturned c hc
    generalize s.client c = cs at hclean hpc
    obtain ⟨pc,printed⟩ := cs
    obtain rfl : pc = .returned := hpc
    exact hclean.2

end Settled

/- The invariants along a run without exceptions, and what a step does to the measure. -/
theorem clean_step (hello : ∀ m ∈ messages, Hello m) (hinv : Inv κ messages s)
    (h : Clean messages s) (ha : a.returns = true) (hs : exchange κ messages s a = some s') :
    (Inv κ messages s' ∧ Clean messages s') ∧ s'.left messages < s.left messages := by
  cases a with
  | client c result =>
    cases result with
    | returns b => exact ⟨⟨hinv.clientCall hs,h.clientCall hinv hs⟩,left_client hinv hs⟩
    | throws sent => cases ha
  | server result =>
    cases result with
    | returns b => exact ⟨⟨hinv.serverCall hello hs,h.serverCall hinv hs⟩,left_server hello hinv h hs⟩
    | throws sent => cases ha

theorem left_start : Exchange.start.left messages =
    ∑ c ∈ Finset.range messages.length,((messages[c]?.getD []).length+10) := by
  unfold Exchange.left
  rw [show 5*(Exchange.start.arrived.length-Exchange.start.server.served)-
    Exchange.start.server.pc.stage = 0 from rfl,Nat.add_zero]
  rfl

/-- As long as no call throws, a run is bounded by the texts and ten calls for each client;
where it cannot go on, every client has printed a beginning of the answer that is not
empty and the server has noted one whole session after another; and it can always come
there. -/
theorem exchange_answers (hello : ∀ m ∈ messages, Hello m) {tr : List (Exchange × Move)}
    (r : Run (exchange κ messages) .start tr s) (hreturns : ∀ x ∈ tr, x.2.returns = true) :
    tr.length ≤ ∑ c ∈ Finset.range messages.length,((messages[c]?.getD []).length+10) ∧
    ((∀ a, Move.returns a = true → exchange κ messages s a = none) → s.Answered messages) ∧
    ∃ tr' s', Run (exchange κ messages) s tr' s' ∧ (∀ x ∈ tr', x.2.returns = true) ∧
      s'.Answered messages := by
  have hstep (s : Exchange) (a : Move) (s' : Exchange) (hi : Inv κ messages s ∧ Clean messages s)
      (ha : a.returns = true) (hs : exchange κ messages s a = some s') :
      (Inv κ messages s' ∧ Clean messages s') ∧ s'.left messages < s.left messages :=
    clean_step hello hi.1 hi.2 ha hs
  obtain ⟨⟨hinv,hclean⟩,hlength⟩ := r.length_le (fun _ a => Move.returns a = true)
    (Exchange.left messages) ⟨Inv.start,Clean.start⟩ hstep hreturns
  obtain ⟨tr',s',r',hreturns',hrest⟩ := exists_settled (fun _ a => Move.returns a = true)
    (Exchange.left messages) hstep ⟨hinv,hclean⟩
  obtain ⟨hinv',hclean'⟩ := (r'.length_le (fun _ a => Move.returns a = true) (Exchange.left messages)
    ⟨hinv,hclean⟩ hstep hreturns').1
  rw [left_start] at hlength
  exact ⟨Nat.le_of_add_right_le hlength,fun hnone => answered_of_settled hello hinv hclean hnone,
    tr',s',r',hreturns',answered_of_settled hello hinv' hclean' hrest⟩

/- Both clients have connected, and the second one is being read. -/
theorem exchange_answers_two :
    let r := runOf (exchange .ordinal [clientMessage,socketsMessage]) .start (interleaved.take 5)
    ∃ tr' s', Run (exchange .ordinal [clientMessage,socketsMessage]) r.2 tr' s' ∧
      (∀ x ∈ tr', x.2.returns = true) ∧ s'.Answered [clientMessage,socketsMessage] := by
  have hello : ∀ m ∈ [clientMessage,socketsMessage], Hello m := by
    intro m hm
    rcases List.mem_cons.mp hm with rfl | hm
    · exact hello_programs.1
    · rw [List.mem_singleton.mp hm]
      exact hello_programs.2
  have hrun := runOf_run (exchange .ordinal [clientMessage,socketsMessage]) .start
    (interleaved.take 5) (by decide +kernel)
  have hactions := runOf_actions (exchange .ordinal [clientMessage,socketsMessage]) .start
    (interleaved.take 5) (by decide +kernel)
  have hreturns : ∀ m ∈ interleaved.take 5, m.returns = true := by decide +kernel
  exact (exchange_answers hello hrun fun x hx =>
    hreturns _ (hactions ▸ List.mem_map_of_mem hx)).2.2

end TcpProjects.Protocol
