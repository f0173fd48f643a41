import TcpProjects.Base.Queues
import TcpProjects.ChatServer.Failure
import TcpProjects.ChatClient.ServerData

/-! # Server and clients together: where ping events come from

The server and the two directions of each connection, every send being received
whole and in order. What a client has dispatched, what is on the way to it, what
its thread is answering and what is on the way to the server adds up to the ping
requests that this client sent itself. -/

namespace TcpProjects.ChatSystem
open Transition ChatServer ChatClient

/- `up c` and `down c` are the messages of connection `c` on their way to the server
and to the client, `sent c` what the client has sent so far and `events c` the number
of ping events its receive thread has dispatched. -/
structure System where
  server : State
  up : ℕ → List Bytes
  down : ℕ → List Bytes
  sent : ℕ → List Bytes
  events : ℕ → ℕ

inductive Event where
  | server (a : Action)
  | send (c : ℕ) (message : Bytes)
  | receive (c : ℕ)

/- The connection a step of the server reads from, and the chunk. -/
def intake (x : State × Action) : Option (ℕ × Bytes) :=
  match x.2 with
  | .client k (.read (some chunk)) =>
    if chunk = [] then none
    else (x.1.thread k).bind fun t => (x.1.shared.connectionAt t.socket).map fun c => (c,chunk)
  | _ => none

/- The bytes a thread sends from where it is. -/
def buffer (t : SocketThread) : Bytes :=
  match t.pc with
  | .distribute p _ => p.data t.stack t.socket
  | _ => eventPing

/- The connection a step of the server writes to, and the bytes. -/
def delivery (x : State × Action) : Option (ℕ × Bytes) :=
  match x.2 with
  | .client k (.sent (some _)) =>
    (x.1.thread k).bind fun t => (sentTo x).map fun c => (c,buffer t)
  | _ => none

/- A send takes the whole buffer. -/
def whole (x : State × Action) : Bool :=
  match x.2 with
  | .client k (.sent (some n)) => (x.1.thread k).all fun t => n = (buffer t).length
  | _ => true

/-- A read returns the oldest message on the way, a send adds one, and each `recv`
of a client returns one payload. -/
def chat (s : System) : Event → Option System
  | .server a =>
    if whole (s.server,a) then
      (step s.server a).bind fun u => (Queues.pop s.up (intake (s.server,a))).map fun up =>
        { s with server := u, up := up, down := Queues.push s.down (delivery (s.server,a)) }
    else none
  | .send c message =>
    if message ≠ [] ∧ message.length < maxMessage then some { s with
      up := Queues.push s.up (some (c,message))
      sent := Queues.push s.sent (some (c,message)) }
    else none
  | .receive c => match s.down c with
    | [] => none
    | p :: rest => some { s with
        down := Function.update s.down c rest
        events := if dispatch p = .pingEvent then Function.update s.events c (s.events c + 1)
          else s.events }

def System.start (masterSocket : Fd) (addr : SockaddrIn) : System where
  server := initial masterSocket addr
  up := fun _ => []
  down := fun _ => []
  sent := fun _ => []
  events := fun _ => 0

/-! ### Ping requests and ping events -/

def isPing (message : Bytes) : Bool := cText message = requestPing

def isEvent (payload : Bytes) : Bool := dispatch payload = .pingEvent

/- Thread `c` is about to answer a ping request. -/
def answering (s : State) (c : ℕ) : ℕ :=
  if (s.thread c).any (fun t => t.pc = .sendEvent) then 1 else 0

theorem payload_not_event (stack : Stack) (socket : Fd) (p : Payload) :
    isEvent (p.data stack socket) = false := by
  have h := dispatch_data (.payload stack socket p)
  simp only [Sent.data,Sent.shown] at h
  simp [isEvent,h]

theorem afterRead_sendEvent {chunk : Bytes} (hc : chunk ≠ []) :
    afterRead (some chunk) = .sendEvent ↔ isPing chunk = true := by
  rw [isPing,decide_eq_true_eq,← receive_ping_iff]
  cases hr : receive chunk <;> simp [afterRead,hc,hr]

section Step
variable {m : Fd} {s s' : State} {a : Action}

theorem answering_advance {k : ℕ} {t : SocketThread} {g : Shared} {pc : PC} :
    answering (s.advance k t g pc) k = if pc = .sendEvent then 1 else 0 := by
  simp [answering,State.advance_self]

theorem answering_self {k : ℕ} {t : SocketThread} (ht : s.thread k = some t) :
    answering s k = if t.pc = .sendEvent then 1 else 0 := by
  simp [answering,ht]

/- What a step of the server changes for connection `c`: a ping request that is
read is one more to answer, a reply that is written one less. -/
theorem ping_effect (hs : Safe m s) (h : Step s a s') (c : ℕ) :
    answering s' c + (Queues.part c (delivery (s,a))).countP isEvent =
      answering s c + (Queues.part c (intake (s,a))).countP isPing := by
  cases h with
  | acceptor _ ha =>
    simp only [delivery,intake,Queues.part_none,List.countP_nil,Nat.add_zero]
    cases ha with
    | newThread hpc =>
      by_cases hc : c = s.started
      · subst hc
        simp [answering,hs.ownership.fresh]
      · simp [answering,hc]
    | _ => rfl
  | leave => rfl
  | @client k t ans g pc hrun ht hst =>
    have hframe (hc : k ≠ c) : answering (s.advance k t g pc) c = answering s c := by
      simp only [answering,s.advance_other t g pc hc.symm]
    have hopen (hcl : t.pc.closed = false) : s.shared.connectionAt t.socket = some k :=
      Shared.connectionAt_eq_some.mpr (hs.ownership.table_of_open ht hcl)
    have hquiet (hd : delivery (s,.client k ans) = none) (hi : intake (s,.client k ans) = none)
        (hpc : pc = .sendEvent ↔ t.pc = .sendEvent) :
        answering (s.advance k t g pc) c + (Queues.part c (delivery (s,.client k ans))).countP isEvent =
          answering s c + (Queues.part c (intake (s,.client k ans))).countP isPing := by
      rw [hd,hi]
      by_cases hc : k = c
      · subst hc
        simp [answering_advance,answering_self ht,hpc]
      · rw [hframe hc]
        rfl
    cases hst with
    | @read r hpc =>
      by_cases hr : ∃ chunk, r = some chunk ∧ chunk ≠ []
      · obtain ⟨chunk,rfl,hne⟩ := hr
        have hd : delivery (s,.client k (.read (some chunk))) = none := rfl
        have hi : intake (s,.client k (.read (some chunk))) = some (k,chunk) := by
          simp [intake,hne,ht,hopen (by rw [hpc]; rfl)]
        rw [hd,hi]
        by_cases hc : k = c
        · subst hc
          have hping := afterRead_sendEvent hne
          by_cases hp : isPing chunk = true
          · simp [Queues.part,answering_advance,answering_self ht,hpc,hping,hp]
          · simp [Queues.part,answering_advance,answering_self ht,hpc,hping,hp]
        · simp [Queues.part,hframe hc,hc]
      · have hend : afterRead r = .closeSocket .lock ∧ intake (s,.client k (.read r)) = none := by
          cases r with
          | none => exact ⟨rfl,rfl⟩
          | some chunk =>
            have hnil : chunk = [] := by simpa using hr
            exact ⟨by simp [afterRead,hnil],by simp [intake,hnil]⟩
        exact hquiet rfl hend.2 (by simp [hend.1,hpc])
    | @sendData p it n hpc =>
      have hi : intake (s,.client k (.sent (some n))) = none := rfl
      have hpart : (Queues.part c (delivery (s,.client k (.sent (some n))))).countP isEvent = 0 := by
        have hbuf : isEvent (buffer t) = false := by
          simp only [buffer,hpc]
          exact payload_not_event ..
        cases hto : sentTo (s,.client k (.sent (some n))) with
        | none => simp [delivery,ht,hto]
        | some d => by_cases hd : d = c <;> simp [delivery,ht,hto,Queues.part,hd,hbuf]
      rw [hpart,hi]
      by_cases hc : k = c
      · subst hc
        simp [answering_advance,answering_self ht,hpc]
      · simp [hframe hc]
    | @sendEvent n hpc =>
      have hd : delivery (s,.client k (.sent (some n))) = some (k,eventPing) := by
        simp [delivery,sentTo,ht,hpc,buffer,hopen (by rw [hpc]; rfl)]
      have hi : intake (s,.client k (.sent (some n))) = none := rfl
      have hevent : isEvent eventPing = true := by decide
      rw [hd,hi]
      by_cases hc : k = c
      · subst hc
        simp [Queues.part,answering_advance,answering_self ht,hpc,hevent]
      · simp [Queues.part,hframe hc,hc]
    | sendThrow hpc | eventThrow hpc | closeThrow hpc => exact hquiet rfl rfl Iff.rfl
    | @distributeUnlock p hpc =>
      exact hquiet rfl rfl (by cases p <;> simp [hpc,Payload.after])
    | @printUnlock p hpc =>
      exact hquiet rfl rfl (by cases p <;> simp [hpc,Payload.afterPrint])
    | _ => exact hquiet rfl rfl (by simp [*])

/- A thread reads only from its own connection. -/
theorem intake_own {c : ℕ} {b : Bytes} (hs : Safe m s) (h : Step s a s')
    (hi : intake (s,a) = some (c,b)) : ∃ ans, a = .client c ans := by
  cases h with
  | acceptor _ _ | leave => cases hi
  | @client k t ans g pc hrun ht hst =>
    cases hst with
    | @read r hpc =>
      have hopen := hs.ownership.table_of_open ht (by rw [hpc]; rfl)
      have hown := Shared.connectionAt_eq_some.mpr hopen
      cases r with
      | none => cases hi
      | some chunk =>
        by_cases hc : chunk = []
        · simp [intake,hc] at hi
        · have hk : k = c ∧ chunk = b := by simpa [intake,hc,ht,hown] using hi
          exact ⟨_,by rw [hk.1]⟩
    | _ => cases hi

/- Only its own thread writes a ping event to a client. -/
theorem event_own {c : ℕ} {b : Bytes} (hs : Safe m s) (h : Step s a s')
    (hd : delivery (s,a) = some (c,b)) (hb : isEvent b = true) : ∃ ans, a = .client c ans := by
  cases h with
  | acceptor _ _ | leave => cases hd
  | @client k t ans g pc hrun ht hst =>
    cases hst with
    | @sendData p it n hpc =>
      obtain ⟨d,_,hdb⟩ : ∃ d, sentTo (s,.client k (.sent (some n))) = some d ∧ (d,buffer t) = (c,b) := by
        simpa [delivery,ht] using hd
      have hbuf : b = p.data t.stack t.socket := by
        rw [← (Prod.mk.inj hdb).2]
        simp [buffer,hpc]
      rw [hbuf,payload_not_event] at hb
      cases hb
    | @sendEvent n hpc =>
      have hopen := hs.ownership.table_of_open ht (by rw [hpc]; rfl)
      have hown := Shared.connectionAt_eq_some.mpr hopen
      have hk : k = c ∧ buffer t = b := by simpa [delivery,sentTo,ht,hpc,hown] using hd
      exact ⟨_,by rw [hk.1]⟩
    | _ => cases hd

end Step

/-! ### Runs of the system -/

section System
variable {m : Fd} {addr : SockaddrIn} {tr : List (System × Event)} {s s' : System}

theorem chat_server {a : Action} (h : chat s (.server a) = some s') :
    step s.server a = some s'.server ∧ s'.sent = s.sent ∧ s'.events = s.events ∧
      (∀ c, s.up c = Queues.part c (intake (s.server,a)) ++ s'.up c) ∧
      ∀ c, s'.down c = s.down c ++ Queues.part c (delivery (s.server,a)) := by
  simp only [chat] at h
  split_ifs at h
  obtain ⟨u,hu,h⟩ := Option.bind_eq_some_iff.mp h
  obtain ⟨up,hup,rfl⟩ := Option.map_eq_some_iff.mp h
  exact ⟨hu,rfl,rfl,Queues.pop_eq hup,Queues.push_eq s.down _⟩

/- What happens at the server in a run of the system is a run of the server. -/
theorem run_server (r : Run chat (System.start m addr) tr s) : Safe m s.server := by
  have hstep (s : System) (e : Event) (s' : System) (h : chat s e = some s') :
      s'.server = s.server ∨ ∃ a, step s.server a = some s'.server := by
    cases e with
    | server a => exact Or.inr ⟨a,(chat_server h).1⟩
    | send c message =>
      simp only [chat] at h
      split_ifs at h
      cases h
      exact Or.inl rfl
    | receive c =>
      simp only [chat] at h
      split at h
      · cases h
      · cases h
        exact Or.inl rfl
  obtain ⟨tr',hr⟩ : ∃ tr', Run step (initial m addr) tr' s.server := r.project System.server hstep
  exact run_safe hr

/-- Every ping request that client `c` has sent is on its way, being answered, on
its way back or dispatched. -/
def Balanced (s : System) : Prop :=
  ∀ c, (s.sent c).countP isPing = (s.up c).countP isPing + answering s.server c +
    (s.down c).countP isEvent + s.events c

theorem Balanced.chat {e : Event} (hs : Safe m s.server) (hb : Balanced s)
    (h : chat s e = some s') : Balanced s' := by
  intro c
  have hc := hb c
  cases e with
  | server a =>
    obtain ⟨hstep,hsent,hevents,hup,hdown⟩ := chat_server h
    have heff := ping_effect hs (step_cases hstep) c
    rw [hup c,List.countP_append] at hc
    rw [hsent,hevents,hdown c,List.countP_append]
    omega
  | send d message =>
    simp only [ChatSystem.chat] at h
    split_ifs at h
    cases h
    simp only [Queues.push_eq,List.countP_append]
    omega
  | receive d =>
    simp only [ChatSystem.chat] at h
    split at h
    · cases h
    · next p rest hq =>
      cases h
      by_cases hd : d = c
      · subst hd
        rw [hq,List.countP_cons] at hc
        by_cases hp : dispatch p = .pingEvent
        · have he : isEvent p = true := by simp [isEvent,hp]
          simp only [he,if_true] at hc
          simp only [Function.update_self,hp,if_true]
          omega
        · have he : isEvent p = false := by simp [isEvent,hp]
          simp only [he,Bool.false_eq_true,if_false] at hc
          simp only [Function.update_self,hp,if_false]
          omega
      · have hne : c ≠ d := fun h => hd h.symm
        by_cases hp : dispatch p = .pingEvent
        · simpa only [hp,if_true,Function.update_of_ne hne] using hc
        · simpa only [hp,if_false,Function.update_of_ne hne] using hc

theorem run_balanced (r : Run ChatSystem.chat (System.start m addr) tr s) : Balanced s := by
  induction r with
  | start =>
    intro c
    simp [System.start,answering,initial]
  | next r h ih => exact ih.chat (run_server r) h

/-- A client never dispatches more ping events than it has sent ping requests; the
events on the way to it were written by its own thread, which reads only what this
client sent. -/
theorem ping_events_own (r : Run ChatSystem.chat (System.start m addr) tr s) :
    (∀ c, s.events c ≤ (s.sent c).countP isPing) ∧
    ∀ x ∈ tr, ∀ a c b, x.2 = .server a →
      (delivery (x.1.server,a) = some (c,b) → isEvent b = true → ∃ ans, a = .client c ans) ∧
      (intake (x.1.server,a) = some (c,b) → ∃ ans, a = .client c ans) := by
  refine ⟨fun c => ?_,?_⟩
  · have hb := run_balanced r c
    omega
  · intro x hx a c b ha
    obtain ⟨i,hi⟩ := List.mem_iff_getElem?.mp hx
    have hs := r.invariant_at (fun _ _ => run_server) hi
    have hchat := r.step_at hi
    rw [ha] at hchat
    have hstep := step_cases (chat_server hchat).1
    refine ⟨?_,?_⟩
    · intro hd hb
      exact event_own hs hstep hd hb
    · intro hin
      exact intake_own hs hstep hin

end System

/- Client 0 sends a ping request and client 1 a text that looks like an event; the request is
answered, to client 0 only, and the text is not passed on. -/
def askAndForge : List Event :=
  (acceptOn 4 ++ clientSteps 0 (joinTo 1) ++ acceptOn 5 ++ clientSteps 1 (joinTo 2)).map .server ++
  [.send 0 requestPing,.send 1 eventPing] ++
  (clientSteps 1 [.read (some eventPing)] ++ clientSteps 0 [.read (some requestPing),.sent (some 11)]).map
    .server ++
  [.receive 0,.receive 0,.receive 0,.receive 1]

theorem ping_events_own_ask :
    let r := runOf ChatSystem.chat (System.start 3 ⟨0,0⟩) askAndForge
    (r.2.events 0 = 1 ∧ r.2.events 0 ≤ (r.2.sent 0).countP isPing) ∧
    (r.2.sent 1 = [eventPing] ∧ r.2.events 1 ≤ (r.2.sent 1).countP isPing) ∧
    ∀ x ∈ r.1, ∀ a b, x.2 = .server a → delivery (x.1.server,a) = some (0,b) → isEvent b = true →
      ∃ ans, a = .client 0 ans := by
  obtain ⟨hcount,hown⟩ := ping_events_own (runOf_run ChatSystem.chat (System.start 3 ⟨0,0⟩) askAndForge
    (by decide +kernel))
  exact ⟨⟨by decide +kernel,hcount 0⟩,⟨by decide +kernel,hcount 1⟩,
    fun x hx a b ha hd hb => (hown x hx a 0 b ha).1 hd hb⟩

end TcpProjects.ChatSystem
