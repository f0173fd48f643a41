import TcpProjects.ChatSystem.Streams

/-! # What the streams carry, however they are cut

No reader respects the messages, but the bytes are still those of the messages: a client
receives a beginning of whole broadcasts, one piece of the log, with the replies to its
own requests in between; and what the server says in the name of a client are the texts
of successive pieces of what this client has sent. -/

namespace TcpProjects.ChatSystem
open Transition ChatServer ChatClient

/- The steps of the server. -/
def actions (l : List (State × Event)) : List (State × Action) :=
  l.filterMap fun x => match x.2 with
    | .server a => some (x.1,a)
    | _ => none

theorem actions_append (l l' : List (State × Event)) : actions (l ++ l') = actions l ++ actions l' :=
  List.filterMap_append ..

theorem actions_flatMap {β : Type*} {f : State × Event → List β} {g : State × Action → List β}
    (hserver : ∀ s a, f (s,.server a) = g (s,a)) (hother : ∀ s e, (∀ a, e ≠ .server a) → f (s,e) = [])
    (l : List (State × Event)) : l.flatMap f = (actions l).flatMap g := by
  induction l with
  | nil => rfl
  | cons x l ih =>
    obtain ⟨s,e⟩ := x
    by_cases he : ∃ a, e = .server a
    · obtain ⟨a,rfl⟩ := he
      have hcons : actions ((s,.server a) :: l) = (s,a) :: actions l := rfl
      rw [hcons,List.flatMap_cons,List.flatMap_cons,hserver,ih]
    · have hnone := hother s e fun a ha => he ⟨a,ha⟩
      have hcons : actions ((s,e) :: l) = actions l := by
        cases e with
        | server a => exact absurd ⟨a,rfl⟩ he
        | _ => rfl
      rw [hcons,List.flatMap_cons,hnone,ih,List.nil_append]

theorem reads_actions (c : ℕ) (l : List (State × Event)) :
    l.flatMap (reads c) = (actions l).flatMap fun y => Queues.part c (intake y) := by
  refine actions_flatMap (fun s a => rfl) (fun s e he => ?_) l
  cases e with
  | server a => exact absurd rfl (he a)
  | _ => rfl

theorem writes_actions (c : ℕ) (l : List (State × Event)) :
    l.flatMap (writes c) = (actions l).flatMap fun y => Queues.part c (delivery y) := by
  refine actions_flatMap (fun s a => rfl) (fun s e he => ?_) l
  cases e with
  | server a => exact absurd rfl (he a)
  | _ => rfl

section Server
variable {m : Fd} {addr : SockaddrIn} {l : List (State × Action)} {u : State}

theorem broadcasts_written (R : Run step (initial m addr) l u) (hwhole : ∀ y ∈ l, whole y = true)
    (c : ℕ) : (l.flatMap fun y => Queues.part c (delivery y)).filter (fun b => !isEvent b) =
      l.filterMap (delivered c) := by
  rw [List.filterMap_eq_flatMap_toList,List.filter_flatMap]
  refine List.flatMap_congr fun y hy => ?_
  obtain ⟨i,hi⟩ := List.mem_iff_getElem?.mp hy
  have hevent : isEvent eventPing = true := by decide
  rcases delivery_cases (R.invariant_mem (fun _ _ => run_safe) hy) (step_cases (R.step_at hi))
    (hwhole y hy) c with ⟨hnone,hpart | hpart⟩ | ⟨stack,socket,p,hsome,hpart⟩
  · simp [hnone,hpart]
  · simp [hnone,hpart,hevent]
  · simp [hsome,hpart,payload_not_event]

/- Every request that the thread of a client has read is answered once, or being answered. -/
theorem pings_answered (R : Run step (initial m addr) l u) (c : ℕ) :
    (l.flatMap fun y => Queues.part c (delivery y)).countP isEvent + answering u c =
      (l.flatMap fun y => Queues.part c (intake y)).countP isPing := by
  induction R with
  | start => simp [answering,initial]
  | @next l u a u' R h ih =>
    have heff := ping_effect (run_safe R) (step_cases h) c
    rw [List.flatMap_append,List.flatMap_append,List.flatMap_singleton,List.flatMap_singleton,
      List.countP_append,List.countP_append]
    omega

end Server

/-! ### Towards the clients -/

section Runs
variable {m : Fd} {addr : SockaddrIn} {tr : List (Streams × StreamEvent)} {s : Streams}

theorem run_actions (r : Run stream (Streams.start m addr) tr s) :
    Run step (initial m addr) (actions (tr.map Streams.seen)) s.server := by
  induction r with
  | start => exact Run.start
  | @next tr u e u' r h ih =>
    rw [List.map_append,actions_append]
    have hother (he : ∀ a, e ≠ .server a) : actions ([(u,e)].map Streams.seen) = [] := by
      cases e with
      | server a => exact absurd rfl (he a)
      | _ => rfl
    cases e with
    | server a =>
      simp only [stream] at h
      split_ifs at h
      obtain ⟨v,hv,h⟩ := Option.bind_eq_some_iff.mp h
      obtain ⟨up,_,rfl⟩ := Option.map_eq_some_iff.mp h
      exact Run.next ih hv
    | send c message n =>
      simp only [stream] at h
      split_ifs at h
      cases h
      rw [hother (fun a ha => by cases ha),List.append_nil]
      exact ih
    | receive c chunk =>
      simp only [stream] at h
      split_ifs at h
      obtain ⟨down,_,rfl⟩ := Option.map_eq_some_iff.mp h
      rw [hother (fun a ha => by cases ha),List.append_nil]
      exact ih

theorem mem_actions {y : State × Action} (hy : y ∈ actions (tr.map Streams.seen)) :
    ∃ x ∈ tr, x.1.server = y.1 ∧ x.2 = .server y.2 := by
  obtain ⟨z,hz,hsome⟩ := List.mem_filterMap.mp hy
  obtain ⟨⟨v,e⟩,hx,rfl⟩ := List.mem_map.mp hz
  cases e with
  | server a =>
    obtain rfl := Option.some.inj hsome
    exact ⟨_,hx,rfl,rfl⟩
  | send c message n | receive c chunk => cases hsome

/-- However the clients cut their streams, in a smooth run with whole sends: what is written
to a client are whole messages, those of the broadcasts are one piece of the log, its end
for a connected client at rest, and there is one reply for each request that its thread has
read; and what the client has received are the first bytes of these. -/
theorem streams_one_log (r : Run stream (Streams.start m addr) tr s)
    (hwhole : ∀ x ∈ tr, wholeSend x = true) (hsmooth : ∀ x ∈ tr, ∀ a, x.2 = .server a →
      InsertClear x.1.server a ∧ a.succeeds = true) (c : ℕ) :
    let written := (tr.map Streams.seen).flatMap (writes c)
    let log := (actions (tr.map Streams.seen)).filterMap begun
    (tr.flatMap (Streams.received c)).flatten <+: written.flatten ∧
    written.filter (fun b => !isEvent b) <:+: log ∧
    (AtRest s.server → ∀ fd, s.server.Listens c fd → written.filter (fun b => !isEvent b) <:+ log) ∧
    written.countP isEvent + answering s.server c =
      ((tr.map Streams.seen).flatMap (reads c)).countP isPing := by
  intro written log
  have R := run_actions r
  have hpart : ∀ y ∈ actions (tr.map Streams.seen),
      whole y = true ∧ InsertClear y.1 y.2 ∧ fullSend y = true := by
    intro y hy
    obtain ⟨x,hx,hserver,he⟩ := mem_actions hy
    obtain ⟨hclear,hok⟩ := hsmooth x hx y.2 he
    have hw := hwhole x hx
    rw [wholeSend,he] at hw
    rw [hserver] at hclear
    simp only [hserver] at hw
    exact ⟨hw,hclear,fullSend_of_whole hw hok⟩
  have hbroadcasts : written.filter (fun b => !isEvent b) =
      (actions (tr.map Streams.seen)).filterMap (delivered c) := by
    rw [← broadcasts_written R (fun y hy => (hpart y hy).1) c,← writes_actions]
  have hi := (room_run R (fun y hy => (hpart y hy).2.1) fun y hy => (hpart y hy).2.2).2
  refine ⟨?_,?_,fun hrest fd hl => ?_,?_⟩
  · have hbytes := (run_bytes r c).2
    rw [(run_whole hwhole c).2] at hbytes
    exact ⟨_,hbytes.symm⟩
  · rw [hbroadcasts]
    exact delivered_piece hi c
  · have hcur := hi.current c fd hl
    have hmembers := (Room.listening ((actions (tr.map Streams.seen)).filterMap roomAction)).members
    rw [begun_log] at hmembers
    rw [hrest.owed,List.append_nil] at hcur
    rw [hbroadcasts,hcur]
    exact hmembers c ((hi.members c).mpr ⟨fd,hl⟩)
  · have hpings := pings_answered R c
    rwa [← writes_actions,← reads_actions] at hpings

/- Client 0 says `hi`, and client 1 receives it in two pieces. -/
def receivedInPieces : List StreamEvent :=
  [.send 0 (ascii "hi") 2] ++
  (clientSteps 0 ([.read (some (ascii "hi"))] ++ distributeTo 2 12)).map .server ++
  [.receive 1 (ascii "Client"),.receive 1 (ascii "-4: h")]

theorem streams_one_log_pieces :
    let r := runOf stream (Streams.start 3 ⟨0,0⟩) (bothJoinedStreams ++ receivedInPieces)
    r.1.flatMap (Streams.received 1) = [joined 5,ascii "Client",ascii "-4: h"] ∧
      (r.1.flatMap (Streams.received 1)).flatten <+:
        ((r.1.map Streams.seen).flatMap (writes 1)).flatten ∧
      ((r.1.map Streams.seen).flatMap (writes 1)).filter (fun b => !isEvent b) <:+
        (actions (r.1.map Streams.seen)).filterMap begun := by
  have hrun := runOf_run stream (Streams.start 3 ⟨0,0⟩) (bothJoinedStreams ++ receivedInPieces)
    (by decide +kernel)
  have R := run_actions hrun
  have hacc : (runOf stream (Streams.start 3 ⟨0,0⟩) (bothJoinedStreams ++ receivedInPieces)).2.server.acceptor =
      .accept := by decide +kernel
  have hclear := insertClear_of_started R (by decide +kernel)
  have hok : ∀ y ∈ actions ((runOf stream (Streams.start 3 ⟨0,0⟩)
      (bothJoinedStreams ++ receivedInPieces)).1.map Streams.seen), y.2.succeeds = true := by decide +kernel
  obtain ⟨hbytes,_,hlog,_⟩ := streams_one_log hrun (by decide +kernel) (fun x hx a ha => by
    have hy : (x.1.server,a) ∈ actions ((runOf stream (Streams.start 3 ⟨0,0⟩)
        (bothJoinedStreams ++ receivedInPieces)).1.map Streams.seen) :=
      List.mem_filterMap.mpr ⟨_,List.mem_map_of_mem hx,by simp [Streams.seen,StreamEvent.message,ha]⟩
    exact ⟨hclear _ hy,hok _ hy⟩) 1
  refine ⟨by decide +kernel,hbytes,hlog ?_ 5 ⟨by decide +kernel,fun addr h => ?_⟩⟩
  · exact atRest_of_started (run_safe R) hacc (by decide +kernel) (by decide +kernel) (by decide +kernel)
  · rw [hacc] at h
    cases h

/-! ### Towards the server -/

end Runs

end TcpProjects.ChatSystem
