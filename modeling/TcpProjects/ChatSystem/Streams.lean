import TcpProjects.Base.Pipe
import TcpProjects.ChatSystem.Bounds
import TcpProjects.ChatSystem.Screens

/-! # The chat over streams of bytes

The server with its clients again, now over connections that carry bytes and know no
messages: a `send` may take a part of its buffer, and a `read` or `recv` returns any piece
of what is under way that fits into its array. This is the system of whole messages
exactly if every `read` and `recv` returns one message; and that is so if every stream is
empty when something is sent on it and the receivers take all that is there. -/

namespace TcpProjects.ChatSystem
open Transition ChatServer ChatClient

structure Streams where
  server : State
  up : ℕ → Pipe Byte
  down : ℕ → Pipe Byte

/- `send` is a call of `sendData` that takes `n` bytes of a message. -/
inductive StreamEvent where
  | server (a : Action)
  | send (c : ℕ) (message : Bytes) (n : ℕ)
  | receive (c : ℕ) (chunk : Bytes)

/- The connection a step of the server reads from, and what `read` returns. -/
def reading (x : State × Action) : Option (ℕ × Bytes) :=
  match x.2 with
  | .client k (.read (some chunk)) =>
    (x.1.thread k).bind fun t => (x.1.shared.connectionAt t.socket).map fun c => (c,chunk)
  | _ => none

/- The connection a step of the server writes to, and the bytes that `send` takes. -/
def writing (x : State × Action) : Option (ℕ × Bytes) :=
  match x.2 with
  | .client k (.sent (some n)) =>
    (x.1.thread k).bind fun t => (sentTo x).map fun c => (c,(buffer t).take n)
  | _ => none

/- A `send` returns no more than the size of its buffer. -/
def atMost (x : State × Action) : Bool :=
  match x.2 with
  | .client k (.sent (some n)) => (x.1.thread k).all fun t => n ≤ (buffer t).length
  | _ => true

/-- A step of the server or a call of a client that is there. A `read` returns no bytes
when the client has left; what a client does at the end of its own stream is not part of
the system. -/
def stream (s : Streams) : StreamEvent → Option Streams
  | .server a =>
    if atMost (s.server,a) then
      (step s.server a).bind fun u =>
        (Pipe.receiveAt s.up maxMessage s.server.gone (reading (s.server,a))).map fun up =>
          { server := u, up := up, down := Pipe.sendAt s.down (writing (s.server,a)) }
    else none
  | .send c message n =>
    if s.server.gone c = false ∧ 0 < n ∧ n ≤ message.length ∧ message.length < maxMessage then
      some { s with up := Pipe.sendAt s.up (some (c,message.take n)) }
    else none
  | .receive c chunk =>
    if s.server.gone c = false ∧ chunk ≠ [] then
      (Pipe.receiveAt s.down bufferSize (fun _ => false) (some (c,chunk))).map fun down =>
        { s with down := down }
    else none

def Streams.start (masterSocket : Fd) (addr : SockaddrIn) : Streams :=
  ⟨initial masterSocket addr,fun _ => .empty,fun _ => .empty⟩

/- The step of the system of messages that a step stands for. -/
def StreamEvent.message : StreamEvent → Event
  | .server a => .server a
  | .send c message _ => .send c message
  | .receive c _ => .receive c

/- Every call of `send` takes its whole buffer. -/
def wholeSend (x : Streams × StreamEvent) : Bool :=
  match x.2 with
  | .server a => whole (x.1.server,a)
  | .send _ message n => n = message.length
  | .receive _ _ => true

/-! ### Messages and chunks of a run -/

/- A step of either system, as the server sees it. -/
def seen (x : System × Event) : State × Event := (x.1.server,x.2)
def Streams.seen (x : Streams × StreamEvent) : State × Event := (x.1.server,x.2.message)

/- What client `c` sends, what its thread reads and what is written to it in a step. -/
def sends (c : ℕ) (x : State × Event) : List Bytes :=
  match x.2 with
  | .send d message => Queues.part c (some (d,message))
  | _ => []

def reads (c : ℕ) (x : State × Event) : List Bytes :=
  match x.2 with
  | .server a => Queues.part c (intake (x.1,a))
  | _ => []

def writes (c : ℕ) (x : State × Event) : List Bytes :=
  match x.2 with
  | .server a => Queues.part c (delivery (x.1,a))
  | _ => []

/- What client `c` receives in a step of the system of messages. -/
def received (c : ℕ) (x : System × Event) : List Bytes :=
  match x.2 with
  | .receive d => if d = c then (x.1.down c).head?.toList else []
  | _ => []

/- What its `send` takes, what is taken of the server's, and what it receives over the
streams. -/
def Streams.sends (c : ℕ) (x : Streams × StreamEvent) : List Bytes :=
  match x.2 with
  | .send d message n => Queues.part c (some (d,message.take n))
  | _ => []

def Streams.writes (c : ℕ) (x : Streams × StreamEvent) : List Bytes :=
  match x.2 with
  | .server a => Queues.part c (writing (x.1.server,a))
  | _ => []

def Streams.received (c : ℕ) (x : Streams × StreamEvent) : List Bytes :=
  match x.2 with
  | .receive d chunk => Queues.part c (some (d,chunk))
  | _ => []

/-- Every `read` of the server and every `recv` of a client has returned one message, in
the order in which they were sent. -/
def Framed (tr : List (Streams × StreamEvent)) : Prop :=
  ∀ c, (tr.map Streams.seen).flatMap (reads c) <+: (tr.map Streams.seen).flatMap (sends c) ∧
    tr.flatMap (Streams.received c) <+: (tr.map Streams.seen).flatMap (writes c)

/-- The receivers take all that is under way, and nothing is sent on a stream before it has
been emptied. -/
def Drained (x : Streams × StreamEvent) : Prop :=
  match x.2 with
  | .server a => (∀ r ∈ reading (x.1.server,a), r.2 = (x.1.up r.1).waiting) ∧
      ∀ w ∈ writing (x.1.server,a), (x.1.down w.1).waiting = []
  | .send c _ _ => (x.1.up c).waiting = []
  | .receive c chunk => chunk = (x.1.down c).waiting

instance (x : Streams × StreamEvent) : Decidable (Drained x) := by
  obtain ⟨s,e⟩ := x
  cases e with
  | server a => exact inferInstanceAs (Decidable (_ ∧ _))
  | send c message n => exact inferInstanceAs (Decidable (_ = _))
  | receive c chunk => exact inferInstanceAs (Decidable (_ = _))

/-! ### What a step does to the streams -/

section Step
variable {s s' : Streams} {e : StreamEvent} {a : Action} {x : State × Action}

theorem intake_some {y : ℕ × Bytes} (h : intake x = some y) : reading x = some y ∧ y.2 ≠ [] := by
  unfold intake at h
  split at h
  · next k chunk heq =>
    split_ifs at h with hc
    refine ⟨by rw [reading,heq]; exact h,?_⟩
    obtain ⟨t,_,ht⟩ := Option.bind_eq_some_iff.mp h
    obtain ⟨d,_,rfl⟩ := Option.map_eq_some_iff.mp ht
    exact hc
  · cases h

/- A `read` at the end of the stream takes nothing. -/
theorem reading_flatten (c : ℕ) (x : State × Action) :
    (Queues.part c (reading x)).flatten = (Queues.part c (intake x)).flatten := by
  obtain ⟨s,a⟩ := x
  cases a with
  | acceptor ans | leave c => rfl
  | client k ans =>
    cases ans with
    | read r =>
      cases r with
      | none => rfl
      | some chunk =>
        by_cases hc : chunk = []
        · have hnone : intake (s,.client k (.read (some chunk))) = none := by simp [intake,hc]
          rw [hnone]
          cases hr : reading (s,.client k (.read (some chunk))) with
          | none => rfl
          | some y =>
            have hy : y.2 = [] := by
              obtain ⟨t,_,ht⟩ := Option.bind_eq_some_iff.mp hr
              obtain ⟨d,_,rfl⟩ := Option.map_eq_some_iff.mp ht
              exact hc
            by_cases hd : y.1 = c <;> simp [Queues.part,hd,hy]
        · simp only [reading,intake,if_neg hc]
    | _ => rfl

theorem writing_whole (h : whole x = true) : writing x = delivery x := by
  obtain ⟨s,a⟩ := x
  cases a with
  | acceptor ans | leave c => rfl
  | client k ans =>
    cases ans with
    | sent r =>
      cases r with
      | none => rfl
      | some n =>
        cases ht : s.thread k with
        | none => simp [writing,delivery,ht]
        | some t =>
          have hn : n = (buffer t).length := by simpa [whole,ht] using h
          simp [writing,delivery,ht,hn]
    | _ => rfl

theorem sends_whole {x : Streams × StreamEvent} (h : wholeSend x = true) (c : ℕ) :
    Streams.sends c x = sends c (Streams.seen x) ∧ Streams.writes c x = writes c (Streams.seen x) := by
  obtain ⟨s,e⟩ := x
  cases e with
  | server a => exact ⟨rfl,congrArg (Queues.part c) (writing_whole h)⟩
  | receive d chunk => exact ⟨rfl,rfl⟩
  | send d message n =>
    obtain rfl : n = message.length := by simpa [wholeSend] using h
    simp [Streams.sends,Streams.writes,sends,writes,Streams.seen,StreamEvent.message]

/-- What is under way on the streams of client `c`, before and after a step. -/
theorem stream_effect (h : stream s e = some s') (c : ℕ) :
    (s.up c).waiting ++ (Streams.sends c (s,e)).flatten =
      (reads c (Streams.seen (s,e))).flatten ++ (s'.up c).waiting ∧
    (s.down c).waiting ++ (Streams.writes c (s,e)).flatten =
      (Streams.received c (s,e)).flatten ++ (s'.down c).waiting := by
  cases e with
  | server a =>
    simp only [stream] at h
    split_ifs at h
    obtain ⟨u,_,h⟩ := Option.bind_eq_some_iff.mp h
    obtain ⟨up,hup,rfl⟩ := Option.map_eq_some_iff.mp h
    have hin := (Pipe.receiveAt_eq hup c).2.2
    have hout := (Pipe.sendAt_eq s.down (writing (s.server,a)) c).2.2
    rw [reading_flatten] at hin
    exact ⟨by simpa [Streams.sends,reads,Streams.seen,StreamEvent.message] using hin,
      by simpa [Streams.writes,Streams.received] using hout.symm⟩
  | send d message n =>
    simp only [stream] at h
    split_ifs at h
    cases h
    have hout := (Pipe.sendAt_eq s.up (some (d,message.take n)) c).2.2
    exact ⟨by simpa [Streams.sends,reads,Streams.seen,StreamEvent.message] using hout.symm,
      by simp [Streams.writes,Streams.received]⟩
  | receive d chunk =>
    simp only [stream] at h
    split_ifs at h
    obtain ⟨down,hdown,rfl⟩ := Option.map_eq_some_iff.mp h
    have hin := (Pipe.receiveAt_eq hdown c).2.2
    exact ⟨by simp [Streams.sends,reads,Streams.seen,StreamEvent.message],
      by simpa [Streams.writes,Streams.received] using hin⟩

/- The same for the system of messages. -/
theorem chat_effect {u u' : System} {e : Event} (h : chat u e = some u') (c : ℕ) :
    u.up c ++ sends c (seen (u,e)) = reads c (seen (u,e)) ++ u'.up c ∧
    u.down c ++ writes c (seen (u,e)) = received c (u,e) ++ u'.down c := by
  cases e with
  | server a =>
    obtain ⟨_,_,_,hup,hdown⟩ := chat_server h
    exact ⟨by simpa [sends,reads,seen] using hup c,by simpa [writes,seen,received] using (hdown c).symm⟩
  | send d message =>
    simp only [chat] at h
    split_ifs at h
    cases h
    have hpush := Queues.push_eq u.up (some (d,message)) c
    exact ⟨by simpa [sends,reads,seen] using hpush.symm,by simp [writes,seen,received]⟩
  | receive d =>
    simp only [chat] at h
    split at h <;> cases h
    next p rest hq =>
      refine ⟨by simp [sends,reads,seen],?_⟩
      by_cases hd : d = c
      · subst hd
        simp [writes,seen,received,hq]
      · simp [writes,seen,received,hd,Ne.symm hd]

/-- The system of messages can take the step if what is read or received is the oldest
message on its way. -/
theorem chat_follows {u : System} (hu : u.server = s.server) (h : stream s e = some s')
    (hwhole : wholeSend (s,e) = true) (hreads : ∀ c, reads c (Streams.seen (s,e)) <+: u.up c)
    (hreceived : ∀ c, Streams.received c (s,e) <+: u.down c) :
    ∃ u', chat u e.message = some u' ∧ u'.server = s'.server ∧
      ∀ c, received c (u,e.message) = Streams.received c (s,e) := by
  cases e with
  | server a =>
    simp only [stream] at h
    split_ifs at h
    obtain ⟨v,hv,h⟩ := Option.bind_eq_some_iff.mp h
    obtain ⟨up,_,rfl⟩ := Option.map_eq_some_iff.mp h
    obtain ⟨q,hq⟩ : ∃ q, Queues.pop u.up (intake (s.server,a)) = some q := Queues.pop_exists hreads
    have hw : whole (s.server,a) = true := hwhole
    have hchat : chat u (.server a) = some { u with
        server := v
        up := q
        down := Queues.push u.down (delivery (s.server,a)) } := by
      simp only [chat,hu,hw,if_true,hv,hq,Option.bind_some,Option.map_some]
    exact ⟨_,hchat,rfl,fun c => rfl⟩
  | send d message n =>
    simp only [stream] at h
    split_ifs at h with hguard
    cases h
    have hne : message ≠ [] := by
      rintro rfl
      exact absurd hguard.2.2.1 (Nat.not_le_of_lt hguard.2.1)
    have hchat : chat u (.send d message) = some { u with
        up := Queues.push u.up (some (d,message))
        sent := Queues.push u.sent (some (d,message)) } := if_pos ⟨hne,hguard.2.2.2⟩
    exact ⟨_,hchat,hu,fun c => rfl⟩
  | receive d chunk =>
    simp only [stream] at h
    split_ifs at h
    obtain ⟨down,_,rfl⟩ := Option.map_eq_some_iff.mp h
    obtain ⟨rest,hrest⟩ := hreceived d
    have hq : u.down d = chunk :: rest := by simpa [Streams.received,Queues.part] using hrest.symm
    have hchat : chat u (.receive d) = some { u with
        down := Function.update u.down d rest
        events := if dispatch chunk = .pingEvent then Function.update u.events d (u.events d + 1)
          else u.events } := by simp only [chat,hq]
    refine ⟨_,hchat,hu,fun c => ?_⟩
    by_cases hd : d = c
    · subst hd
      simp [received,Streams.received,StreamEvent.message,Queues.part,hq]
    · simp [received,Streams.received,StreamEvent.message,Queues.part,hd]

end Step

/-! ### Runs -/

section Runs
variable {m : Fd} {addr : SockaddrIn} {tr : List (Streams × StreamEvent)} {s : Streams}

/- Bytes are neither lost nor made on the way. -/
theorem run_bytes (r : Run stream (Streams.start m addr) tr s) (c : ℕ) :
    (tr.flatMap (Streams.sends c)).flatten =
      ((tr.map Streams.seen).flatMap (reads c)).flatten ++ (s.up c).waiting ∧
    (tr.flatMap (Streams.writes c)).flatten =
      (tr.flatMap (Streams.received c)).flatten ++ (s.down c).waiting := by
  have hup := r.balance (q := fun s => (s.up c).waiting) (f := fun x => (Streams.sends c x).flatten)
    (g := fun x => (reads c (Streams.seen x)).flatten) (fun _ => True)
    (fun s e s' _ h => (stream_effect h c).1) fun _ _ => trivial
  have hdown := r.balance (q := fun s => (s.down c).waiting)
    (f := fun x => (Streams.writes c x).flatten) (g := fun x => (Streams.received c x).flatten)
    (fun _ => True) (fun s e s' _ h => (stream_effect h c).2) fun _ _ => trivial
  simp only [List.flatten_eq_flatMap,List.flatMap_map,List.flatMap_assoc] at hup hdown ⊢
  exact ⟨hup,hdown⟩

/- Calls of `send` that take whole buffers send the messages. -/
theorem run_whole (hwhole : ∀ x ∈ tr, wholeSend x = true) (c : ℕ) :
    tr.flatMap (Streams.sends c) = (tr.map Streams.seen).flatMap (sends c) ∧
      tr.flatMap (Streams.writes c) = (tr.map Streams.seen).flatMap (writes c) := by
  rw [List.flatMap_map,List.flatMap_map]
  exact ⟨List.flatMap_congr fun x hx => (sends_whole (hwhole x hx) c).1,
    List.flatMap_congr fun x hx => (sends_whole (hwhole x hx) c).2⟩

/- Messages are neither lost nor made on the way. -/
theorem run_messages {tr : List (System × Event)} {u : System} (r : Run chat (System.start m addr) tr u)
    (c : ℕ) : (tr.map seen).flatMap (sends c) = (tr.map seen).flatMap (reads c) ++ u.up c ∧
      (tr.map seen).flatMap (writes c) = tr.flatMap (received c) ++ u.down c := by
  have hup := r.balance (q := fun u => u.up c) (f := fun x => sends c (seen x))
    (g := fun x => reads c (seen x)) (fun _ => True) (fun u e u' _ h => (chat_effect h c).1)
    fun _ _ => trivial
  have hdown := r.balance (q := fun u => u.down c) (f := fun x => writes c (seen x))
    (g := fun x => received c x) (fun _ => True) (fun u e u' _ h => (chat_effect h c).2)
    fun _ _ => trivial
  simp only [List.flatMap_map]
  exact ⟨hup,hdown⟩

theorem reads_ne {c : ℕ} {x : State × Event} {b : Bytes} (hb : b ∈ reads c x) : b ≠ [] := by
  obtain ⟨s,e⟩ := x
  cases e with
  | send d message | receive d => cases hb
  | server a =>
    change b ∈ Queues.part c (intake (s,a)) at hb
    cases hi : intake (s,a) with
    | none =>
      rw [hi] at hb
      cases hb
    | some y =>
      rw [hi] at hb
      by_cases hd : y.1 = c
      · have hby : b = y.2 := by simpa [Queues.part,hd] using hb
        rw [hby]
        exact (intake_some hi).2
      · simp [Queues.part,hd] at hb

theorem received_ne (r : Run stream (Streams.start m addr) tr s) {c : ℕ} {b : Bytes}
    (hb : b ∈ tr.flatMap (Streams.received c)) : b ≠ [] := by
  obtain ⟨⟨u,e⟩,hx,hb⟩ := List.mem_flatMap.mp hb
  obtain ⟨i,hi⟩ := List.mem_iff_getElem?.mp hx
  have hstep := r.step_at hi
  cases e with
  | server a | send d message n => cases hb
  | receive d chunk =>
    simp only [stream] at hstep
    split_ifs at hstep with hguard
    by_cases hd : d = c
    · have hchunk : b = chunk := by simpa [Streams.received,Queues.part,hd] using hb
      rw [hchunk]
      exact hguard.2
    · simp [Streams.received,Queues.part,hd] at hb

/- A run that is framed was framed before. -/
theorem Framed.before {x : Streams × StreamEvent} (h : Framed (tr ++ [x]))
    (r : Run stream (Streams.start m addr) tr s) (hwhole : ∀ x ∈ tr, wholeSend x = true) :
    Framed tr := by
  intro c
  obtain ⟨hup,hdown⟩ := h c
  obtain ⟨hbytes,hbytes'⟩ := run_bytes r c
  rw [(run_whole hwhole c).1] at hbytes
  rw [(run_whole hwhole c).2] at hbytes'
  simp only [List.map_append,List.flatMap_append] at hup hdown
  refine ⟨prefix_of_flatten (fun b hb => ?_) ((List.prefix_append _ _).trans hup)
    (List.prefix_append _ _) ⟨_,hbytes.symm⟩,prefix_of_flatten (fun b hb => received_ne r hb)
    ((List.prefix_append _ _).trans hdown) (List.prefix_append _ _) ⟨_,hbytes'.symm⟩⟩
  obtain ⟨y,_,hy⟩ := List.mem_flatMap.mp hb
  exact reads_ne hy

/- No step both adds to a stream and takes from it. -/
theorem one_way (c : ℕ) (x : Streams × StreamEvent) :
    (reads c (Streams.seen x) = [] ∨ sends c (Streams.seen x) = []) ∧
      (Streams.received c x = [] ∨ writes c (Streams.seen x) = []) := by
  obtain ⟨s,e⟩ := x
  cases e with
  | server a => exact ⟨Or.inr rfl,Or.inl rfl⟩
  | send d message n => exact ⟨Or.inl rfl,Or.inl rfl⟩
  | receive d chunk => exact ⟨Or.inl rfl,Or.inr rfl⟩

theorem prefix_of_one_way {taken before added later : List Bytes} (h : added = [] ∨ later = [])
    (hle : taken ++ added <+: taken ++ before ++ later) : added <+: before := by
  rw [List.append_assoc,List.prefix_append_right_inj] at hle
  rcases h with rfl | rfl
  · exact List.nil_prefix
  · rwa [List.append_nil] at hle

theorem framed_follows (r : Run stream (Streams.start m addr) tr s)
    (hwhole : ∀ x ∈ tr, wholeSend x = true) (hframed : Framed tr) :
    ∃ tr' u, Run chat (System.start m addr) tr' u ∧ u.server = s.server ∧
      tr'.map seen = tr.map Streams.seen ∧
      ∀ c, tr'.flatMap (received c) = tr.flatMap (Streams.received c) := by
  induction r with
  | start => exact ⟨[],_,Run.start,rfl,rfl,fun c => rfl⟩
  | @next tr s e s' r h ih =>
    have hbefore := fun x hx => hwhole x (List.mem_append_left _ hx)
    obtain ⟨tr',u,r',hu,hseen,hreceived⟩ := ih hbefore (hframed.before r hbefore)
    have hready (c : ℕ) : reads c (Streams.seen (s,e)) <+: u.up c ∧
        Streams.received c (s,e) <+: u.down c := by
      obtain ⟨hup,hdown⟩ := hframed c
      obtain ⟨hsent,hwritten⟩ := run_messages r' c
      rw [hseen] at hsent hwritten
      rw [hreceived] at hwritten
      simp only [List.map_append,List.flatMap_append,List.map_singleton,List.flatMap_singleton,
        hsent,hwritten] at hup hdown
      exact ⟨prefix_of_one_way (one_way c (s,e)).1 hup,prefix_of_one_way (one_way c (s,e)).2 hdown⟩
    have hlast := hwhole _ (List.mem_append_right _ (List.mem_singleton_self _))
    obtain ⟨u',hchat,hu',hgot⟩ := chat_follows hu h hlast (fun c => (hready c).1) fun c => (hready c).2
    refine ⟨_,u',Run.next r' hchat,hu',?_,fun c => ?_⟩
    · simp only [List.map_append,List.map_singleton,hseen,seen,Streams.seen,hu]
    · simp only [List.flatMap_append,List.flatMap_singleton,hreceived,hgot]

/-- The system of messages is what the streams are when each `read` and `recv` returns one
message: a run in which every `send` takes its whole buffer is framed exactly if the
system of messages can take the same steps, and receives the same. -/
theorem streams_framed_iff (r : Run stream (Streams.start m addr) tr s)
    (hwhole : ∀ x ∈ tr, wholeSend x = true) :
    Framed tr ↔ ∃ tr' u, Run chat (System.start m addr) tr' u ∧ u.server = s.server ∧
      tr'.map seen = tr.map Streams.seen ∧
      ∀ c, tr'.flatMap (received c) = tr.flatMap (Streams.received c) := by
  refine ⟨framed_follows r hwhole,?_⟩
  rintro ⟨tr',u,r',_,hseen,hreceived⟩ c
  obtain ⟨hsent,hwritten⟩ := run_messages r' c
  rw [hseen] at hsent hwritten
  rw [hreceived] at hwritten
  exact ⟨⟨_,hsent.symm⟩,⟨_,hwritten.symm⟩⟩

/- The join message of a client as it is sent. -/
def joined (socket : Fd) : Bytes := Payload.join.data ⟨.zero _,.zero _⟩ socket

/- Two clients join, and receive the messages one by one. -/
def bothJoinedStreams : List StreamEvent :=
  (acceptOn 4 ++ clientSteps 0 (joinTo 1)).map .server ++ [.receive 0 (joined 4)] ++
  (acceptOn 5 ++ clientSteps 1 (joinTo 2)).map .server ++
  [.receive 0 (joined 5),.receive 1 (joined 5)]

/- Client 0 sends two messages before the first is read. -/
def readTogether : List StreamEvent :=
  [.send 0 (ascii "hi") 2,.send 0 (ascii "you") 3,.server (.client 0 (.read (some (ascii "hiyou"))))]

theorem streams_framed_iff_together :
    let r := runOf stream (Streams.start 3 ⟨0,0⟩) (bothJoinedStreams ++ readTogether)
    ¬ Framed r.1 ∧ ¬ ∃ tr' u, Run chat (System.start 3 ⟨0,0⟩) tr' u ∧ u.server = r.2.server ∧
      tr'.map seen = r.1.map Streams.seen ∧
      ∀ c, tr'.flatMap (received c) = r.1.flatMap (Streams.received c) := by
  have hrun := runOf_run stream (Streams.start 3 ⟨0,0⟩) (bothJoinedStreams ++ readTogether)
    (by decide +kernel)
  have hnot : ¬ Framed (runOf stream (Streams.start 3 ⟨0,0⟩) (bothJoinedStreams ++ readTogether)).1 :=
    fun h => absurd (h 0).1 (by decide +kernel)
  exact ⟨hnot,fun h => hnot ((streams_framed_iff hrun (by decide +kernel)).mpr h)⟩

/-! ### One message at a time -/

/- What is under way, as one message. -/
def pieces (waiting : Bytes) : List Bytes := if waiting = [] then [] else [waiting]

/- A step that moves nothing, takes all there is, or adds a message where there is none. -/
theorem pieces_balance {w w' : Bytes} {added taken : List Bytes}
    (hbytes : w ++ added.flatten = taken.flatten ++ w')
    (h : (taken = [] ∧ added = []) ∨ (taken = [w] ∧ w ≠ [] ∧ added = []) ∨
      (taken = [] ∧ w = [] ∧ ∃ message, message ≠ [] ∧ added = [message])) :
    pieces w ++ added = taken ++ pieces w' := by
  rcases h with ⟨rfl,rfl⟩ | ⟨rfl,hw,rfl⟩ | ⟨rfl,rfl,message,hm,rfl⟩
  · have hsame : w = w' := by simpa using hbytes
    rw [hsame,List.append_nil,List.nil_append]
  · have hnone : w' = [] := by simpa using hbytes
    simp [pieces,hw,hnone]
  · have hsame : message = w' := by simpa using hbytes
    simp [pieces,← hsame,hm]

theorem buffer_ne (t : SocketThread) : buffer t ≠ [] := by
  unfold buffer
  split
  · next p l _ =>
    intro hnil
    obtain ⟨rest,hhead⟩ := p.cText_data_head t.stack t.socket
    rw [hnil] at hhead
    cases hhead
  · decide

theorem delivery_ne {x : State × Action} {y : ℕ × Bytes} (h : delivery x = some y) : y.2 ≠ [] := by
  unfold delivery at h
  split at h
  · obtain ⟨t,_,ht⟩ := Option.bind_eq_some_iff.mp h
    obtain ⟨d,_,rfl⟩ := Option.map_eq_some_iff.mp ht
    exact buffer_ne t
  · cases h

/- Both streams of a client hold at most one message. -/
theorem drained_effect {s s' : Streams} {e : StreamEvent} (h : stream s e = some s')
    (hwhole : wholeSend (s,e) = true) (hdrained : Drained (s,e)) (c : ℕ) :
    pieces (s.up c).waiting ++ sends c (Streams.seen (s,e)) =
      reads c (Streams.seen (s,e)) ++ pieces (s'.up c).waiting ∧
    pieces (s.down c).waiting ++ writes c (Streams.seen (s,e)) =
      Streams.received c (s,e) ++ pieces (s'.down c).waiting := by
  obtain ⟨hup,hdown⟩ := stream_effect h c
  rw [(sends_whole hwhole c).1] at hup
  rw [(sends_whole hwhole c).2] at hdown
  refine ⟨pieces_balance hup ?_,pieces_balance hdown ?_⟩
  · cases e with
    | receive d chunk => exact Or.inl ⟨rfl,rfl⟩
    | send d message n =>
      by_cases hd : d = c
      · subst hd
        have hne : message ≠ [] := by
          rintro rfl
          simp only [stream] at h
          split_ifs at h with hguard
          exact absurd hguard.2.2.1 (Nat.not_le_of_lt hguard.2.1)
        exact Or.inr (Or.inr ⟨rfl,hdrained,message,hne,if_pos rfl⟩)
      · exact Or.inl ⟨rfl,if_neg hd⟩
    | server a =>
      change Queues.part c (intake (s.server,a)) = [] ∧ _ ∨ Queues.part c (intake (s.server,a)) = _ ∧ _ ∨ _
      cases hi : intake (s.server,a) with
      | none => exact Or.inl ⟨rfl,rfl⟩
      | some y =>
        obtain ⟨hreading,hne⟩ := intake_some hi
        by_cases hd : y.1 = c
        · subst hd
          have hall := hdrained.1 y hreading
          rw [← hall]
          exact Or.inr (Or.inl ⟨if_pos rfl,hne,rfl⟩)
        · exact Or.inl ⟨if_neg hd,rfl⟩
  · cases e with
    | send d message n => exact Or.inl ⟨rfl,rfl⟩
    | receive d chunk =>
      by_cases hd : d = c
      · subst hd
        have hne : chunk ≠ [] := by
          simp only [stream] at h
          split_ifs at h with hguard
          exact hguard.2
        obtain rfl : chunk = (s.down d).waiting := hdrained
        exact Or.inr (Or.inl ⟨if_pos rfl,hne,rfl⟩)
      · exact Or.inl ⟨if_neg hd,rfl⟩
    | server a =>
      change _ ∧ Queues.part c (delivery (s.server,a)) = [] ∨ _ ∧ _ ∧ Queues.part c (delivery (s.server,a)) = [] ∨
        _ ∧ _ ∧ ∃ message,message ≠ [] ∧ Queues.part c (delivery (s.server,a)) = [message]
      cases hw : delivery (s.server,a) with
      | none => exact Or.inl ⟨rfl,rfl⟩
      | some y =>
        by_cases hd : y.1 = c
        · subst hd
          have hempty := hdrained.2 y ((writing_whole hwhole).trans hw)
          exact Or.inr (Or.inr ⟨rfl,hempty,y.2,delivery_ne hw,if_pos rfl⟩)
        · exact Or.inl ⟨rfl,if_neg hd⟩

/-- As long as each `send` takes its whole buffer, nothing is sent on a stream before it has
been emptied, and the receivers take all that is there, every message is received by
itself. -/
theorem drained_framed (r : Run stream (Streams.start m addr) tr s)
    (hwhole : ∀ x ∈ tr, wholeSend x = true) (hdrained : ∀ x ∈ tr, Drained x) :
    Framed tr ∧ ∀ c,
      ((s.up c).waiting = [] →
        (tr.map Streams.seen).flatMap (reads c) = (tr.map Streams.seen).flatMap (sends c)) ∧
      ((s.down c).waiting = [] →
        tr.flatMap (Streams.received c) = (tr.map Streams.seen).flatMap (writes c)) := by
  have hboth : ∀ x ∈ tr, wholeSend x = true ∧ Drained x := fun x hx => ⟨hwhole x hx,hdrained x hx⟩
  have hbalance (c : ℕ) :
      (tr.map Streams.seen).flatMap (sends c) =
        (tr.map Streams.seen).flatMap (reads c) ++ pieces (s.up c).waiting ∧
      (tr.map Streams.seen).flatMap (writes c) =
        tr.flatMap (Streams.received c) ++ pieces (s.down c).waiting := by
    have hup := r.balance (q := fun s => pieces (s.up c).waiting)
      (f := fun x => sends c (Streams.seen x)) (g := fun x => reads c (Streams.seen x))
      (fun x => wholeSend x = true ∧ Drained x)
      (fun s e s' hx h => (drained_effect h hx.1 hx.2 c).1) hboth
    have hdown := r.balance (q := fun s => pieces (s.down c).waiting)
      (f := fun x => writes c (Streams.seen x)) (g := fun x => Streams.received c x)
      (fun x => wholeSend x = true ∧ Drained x)
      (fun s e s' hx h => (drained_effect h hx.1 hx.2 c).2) hboth
    simp only [List.flatMap_map]
    exact ⟨hup,hdown⟩
  refine ⟨fun c => ⟨⟨_,(hbalance c).1.symm⟩,⟨_,(hbalance c).2.symm⟩⟩,fun c => ⟨fun hw => ?_,fun hw => ?_⟩⟩
  · rw [(hbalance c).1,hw,pieces,if_pos rfl,List.append_nil]
  · rw [(hbalance c).2,hw,pieces,if_pos rfl,List.append_nil]

/- Client 0 says `hi`, and both clients receive it. -/
def readAlone : List StreamEvent :=
  [.send 0 (ascii "hi") 2] ++
  (clientSteps 0 ([.read (some (ascii "hi"))] ++ distributeTo 2 12)).map .server ++
  [.receive 0 (formattedMessage 4 (ascii "hi")),.receive 1 (formattedMessage 4 (ascii "hi"))]

theorem drained_framed_alone :
    let r := runOf stream (Streams.start 3 ⟨0,0⟩) (bothJoinedStreams ++ readAlone)
    Framed r.1 ∧ (r.1.map Streams.seen).flatMap (reads 0) = [ascii "hi"] := by
  have hrun := runOf_run stream (Streams.start 3 ⟨0,0⟩) (bothJoinedStreams ++ readAlone)
    (by decide +kernel)
  obtain ⟨hframed,hall⟩ := drained_framed hrun (by decide +kernel) (by decide +kernel)
  exact ⟨hframed,((hall 0).1 (by decide +kernel)).trans (by decide +kernel)⟩

end Runs

end TcpProjects.ChatSystem
