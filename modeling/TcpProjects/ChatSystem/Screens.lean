import TcpProjects.ChatServer.Hearing
import TcpProjects.ChatSystem.PingEvents

/-! # What the clients display

The server with its clients again, every send being received whole. What a client
has displayed and what is on its way to it are the texts that the broadcasts have
delivered, and so a piece of the one log; a chat message that a client sends comes
to the screen of everybody who is connected. -/

namespace TcpProjects.ChatSystem
open Transition ChatServer ChatClient

def serverPart (tr : List (System × Event)) : List (State × Action) :=
  tr.filterMap fun x => match x.2 with
    | .server a => some (x.1.server,a)
    | _ => none

/- The text that `getServerDataThread` displays for a payload. -/
def shownText (payload : Bytes) : Option Bytes :=
  match dispatch payload with
  | .text t => some t
  | _ => none

def displayed (c : ℕ) (x : System × Event) : Option Bytes :=
  match x.2 with
  | .receive d => if d = c then (x.1.down c).head?.bind shownText else none
  | _ => none

def sentBy (c : ℕ) (x : System × Event) : Option Bytes :=
  match x.2 with
  | .send d message => if d = c then some message else none
  | _ => none

/- No insertion meets an unfinished `closeSocket` of the same number, and no call of
the server fails. -/
def Smooth (x : System × Event) : Prop :=
  ∀ a, x.2 = .server a → InsertClear x.1.server a ∧ a.succeeds = true

/-! ### The server in the system -/

section Runs
variable {m : Fd} {addr : SockaddrIn} {tr tr' : List (System × Event)} {s s' : System} {e : Event}

theorem serverPart_append (tr tr' : List (System × Event)) :
    serverPart (tr ++ tr') = serverPart tr ++ serverPart tr' := List.filterMap_append ..

theorem chat_other (he : ∀ a, e ≠ .server a) (h : chat s e = some s') : s'.server = s.server := by
  cases e with
  | server a => exact absurd rfl (he a)
  | send c message =>
    simp only [chat] at h
    split_ifs at h
    cases h
    rfl
  | receive c =>
    simp only [chat] at h
    split at h <;> cases h
    rfl

theorem run_serverPart (r : Run chat s tr s') : Run step s.server (serverPart tr) s'.server := by
  induction r with
  | start => exact Run.start
  | @next tr u e u' r h ih =>
    rw [serverPart_append]
    by_cases he : ∃ a, e = .server a
    · obtain ⟨a,rfl⟩ := he
      exact Run.next ih (chat_server h).1
    · have hnone : serverPart [(u,e)] = [] := by
        cases e with
        | server a => exact absurd ⟨a,rfl⟩ he
        | _ => rfl
      rw [hnone,List.append_nil,chat_other (fun a ha => he ⟨a,ha⟩) h]
      exact ih

theorem fullSend_of_whole {x : State × Action} (hwhole : whole x = true) (hs : x.2.succeeds = true) :
    fullSend x = true := by
  obtain ⟨u,a⟩ := x
  cases a with
  | client k ans =>
    cases ans with
    | sent r =>
      cases r with
      | none => cases hs
      | some n =>
        simp only [fullSend]
        simp only [whole] at hwhole
        cases ht : u.thread k with
        | none => rfl
        | some t =>
          rw [ht,Option.all_some,decide_eq_true_eq] at hwhole
          rw [Option.all_some]
          split
          · next p it hpc =>
            rw [hwhole]
            simp [buffer,hpc]
          · rfl
    | _ => rfl
  | _ => rfl

theorem chat_whole {a : Action} (h : chat s (.server a) = some s') : whole (s.server,a) = true := by
  by_contra hno
  simp [chat,hno] at h

theorem smooth_serverPart (r : Run chat s tr s') (h : ∀ x ∈ tr, Smooth x) :
    ∀ y ∈ serverPart tr, InsertClear y.1 y.2 ∧ fullSend y = true := by
  intro y hy
  obtain ⟨⟨u,e⟩,hx,hsome⟩ := List.mem_filterMap.mp hy
  cases e with
  | server a =>
    obtain rfl := Option.some.inj hsome
    obtain ⟨hclear,hok⟩ := h _ hx a rfl
    obtain ⟨i,hi⟩ := List.mem_iff_getElem?.mp hx
    exact ⟨hclear,fullSend_of_whole (chat_whole (r.step_at hi)) hok⟩
  | _ => cases hsome

end Runs

/-! ### What is on the way -/

/- What a step writes to a client: nothing, a reply, or a payload of a broadcast. -/
theorem delivery_cases {m : Fd} {s s' : State} {a : Action} (hs : Safe m s) (h : Step s a s')
    (hwhole : whole (s,a) = true) (c : ℕ) :
    (delivered c (s,a) = none ∧ (Queues.part c (delivery (s,a)) = [] ∨
      Queues.part c (delivery (s,a)) = [eventPing])) ∨
    ∃ stack socket, ∃ p : Payload, delivered c (s,a) = some (p.data stack socket) ∧
      Queues.part c (delivery (s,a)) = [p.data stack socket] := by
  cases h with
  | acceptor _ _ | leave => exact Or.inl ⟨rfl,Or.inl rfl⟩
  | @client k t ans g pc _ ht hst =>
    cases hst with
    | @sendData p it n hpc =>
      have hn : n = (p.data t.stack t.socket).length := by
        simpa [whole,ht,buffer,hpc] using hwhole
      cases htab : s.shared.connectionAt it with
      | none =>
        have hno : s.shared.table it ≠ some (.connection c) := fun he => by
          rw [Shared.connectionAt_eq_some.mpr he] at htab
          cases htab
        exact Or.inl (by simp [delivery,sentTo,delivered,ht,hpc,htab,hno])
      | some d =>
        have hd := Shared.connectionAt_eq_some.mp htab
        by_cases hdc : d = c
        · refine Or.inr ⟨t.stack,t.socket,p,?_,?_⟩
          · simp [delivered,ht,hpc,hd,hdc,hn]
          · simp [delivery,sentTo,ht,hpc,htab,hdc,Queues.part,buffer]
        · exact Or.inl (by simp [delivery,sentTo,delivered,ht,hpc,htab,hd,hdc,Queues.part])
    | @sendEvent n hpc =>
      have hopen := Shared.connectionAt_eq_some.mpr
        (hs.ownership.table_of_open ht (by rw [hpc]; rfl))
      refine Or.inl ⟨by simp [delivered,ht,hpc],?_⟩
      by_cases hk : k = c
      · subst hk
        exact Or.inr (by simp [delivery,sentTo,ht,hpc,hopen,Queues.part,buffer])
      · exact Or.inl (by simp [delivery,sentTo,ht,hpc,hopen,hk,Queues.part])
    | _ => exact Or.inl ⟨rfl,Or.inl rfl⟩

theorem delivery_texts {m : Fd} {s s' : State} {a : Action} (hs : Safe m s) (h : Step s a s')
    (hwhole : whole (s,a) = true) (c : ℕ) :
    (Queues.part c (delivery (s,a))).filterMap shownText =
      (delivered c (s,a)).toList.map cText := by
  have hevent : shownText eventPing = none := by decide
  rcases delivery_cases hs h hwhole c with ⟨hnone,hpart | hpart⟩ | ⟨stack,socket,p,hsome,hpart⟩
  · simp [hnone,hpart]
  · simp [hnone,hpart,hevent]
  · have hd := dispatch_data (.payload stack socket p)
    simp only [Sent.data,Sent.shown] at hd
    simp [hsome,hpart,shownText,hd]

theorem intake_chunk {m : Fd} {s s' : State} {a : Action} (hs : Safe m s) (h : Step s a s')
    (c : ℕ) : Queues.part c (intake (s,a)) = (chunkRead c (s,a)).toList := by
  cases h with
  | acceptor _ _ | leave => rfl
  | @client k t ans g pc _ ht hst =>
    cases hst with
    | @read r hpc =>
      have hopen := Shared.connectionAt_eq_some.mpr
        (hs.ownership.table_of_open ht (by rw [hpc]; rfl))
      cases r with
      | none => rfl
      | some chunk =>
        by_cases hc : chunk = []
        · simp [intake,chunkRead,hc]
        · by_cases hk : k = c
          · subst hk
            simp [intake,chunkRead,hc,ht,hopen,Queues.part]
          · simp [intake,chunkRead,hc,ht,hopen,hk,Queues.part]
    | _ => rfl

section Balance
variable {m : Fd} {addr : SockaddrIn} {tr tr' : List (System × Event)} {s s' : System}

/- What is displayed and what is on its way are the texts delivered since. -/
theorem screen_balance (hs : Safe m s.server) (r : Run chat s tr s') (c : ℕ) :
    tr.filterMap (displayed c) ++ (s'.down c).filterMap shownText =
      (s.down c).filterMap shownText ++ ((serverPart tr).filterMap (delivered c)).map cText := by
  induction r with
  | start => simp [serverPart]
  | @next tr u e u' r h ih =>
    rw [filterMap_snoc,serverPart_append,List.filterMap_append,List.map_append,← List.append_assoc,
      ← ih,List.append_assoc,List.append_assoc]
    congr 1
    cases e with
    | server a =>
      obtain ⟨hstep,_,_,_,hdown⟩ := chat_server h
      have hsafe : Safe m u.server := (run_serverPart r).invariant hs fun _ _ _ hi hn => hi.step hn
      have htexts := delivery_texts hsafe (step_cases hstep) (chat_whole h) c
      rw [hdown c,List.filterMap_append,htexts]
      cases hd : delivered c (u.server,a) <;> simp [displayed,serverPart,hd]
    | send d message =>
      simp only [chat] at h
      split_ifs at h
      cases h
      simp [displayed,serverPart]
    | receive d =>
      simp only [chat] at h
      split at h
      · cases h
      · next p rest hq =>
        cases h
        by_cases hd : d = c
        · subst hd
          cases hp : shownText p <;> simp [displayed,serverPart,hq,hp]
        · simp [displayed,serverPart,hd,Ne.symm hd]

theorem sent_balance (hs : Safe m s.server) (r : Run chat s tr s') (c : ℕ) :
    s.up c ++ tr.filterMap (sentBy c) = (serverPart tr).filterMap (chunkRead c) ++ s'.up c := by
  induction r with
  | start => simp [serverPart]
  | @next tr u e u' r h ih =>
    rw [filterMap_snoc,serverPart_append,List.filterMap_append,← List.append_assoc,ih,
      List.append_assoc,List.append_assoc]
    congr 1
    cases e with
    | server a =>
      obtain ⟨hstep,_,_,hup,_⟩ := chat_server h
      have hsafe : Safe m u.server := (run_serverPart r).invariant hs fun _ _ _ hi hn => hi.step hn
      have hchunk := intake_chunk hsafe (step_cases hstep) c
      rw [hup c,hchunk]
      cases hd : chunkRead c (u.server,a) <;> simp [sentBy,serverPart,hd]
    | send d message =>
      simp only [chat] at h
      split_ifs at h
      cases h
      by_cases hd : d = c
      · subst hd
        simp [sentBy,serverPart,Queues.push]
      · simp [sentBy,serverPart,Queues.push,hd,Ne.symm hd]
    | receive d =>
      simp only [chat] at h
      split at h <;> cases h
      simp [sentBy,serverPart]

end Balance

/-! ### Screens -/

/- The texts of the broadcasts, in the order in which they take `mut`. -/
def textLog (tr : List (System × Event)) : List Bytes := ((serverPart tr).filterMap begun).map cText

/- The server is at rest and nothing is on its way between it and client `c`. -/
structure Settled (s : System) (c : ℕ) : Prop where
  server : AtRest s.server
  up : s.up c = []
  down : s.down c = []

/-- In a smooth run the screens show one conversation: what any client has displayed is one
piece of the log of the broadcast texts, and for a connected client that has got everything
it is the end of the log. -/
theorem screens_one_log {m : Fd} {addr : SockaddrIn} {tr : List (System × Event)} {s : System}
    (r : Run chat (System.start m addr) tr s) (hsmooth : ∀ x ∈ tr, Smooth x) :
    (∀ c, tr.filterMap (displayed c) <:+: textLog tr) ∧
    (∀ c fd, s.server.Listens c fd → Settled s c → tr.filterMap (displayed c) <:+ textLog tr) := by
  have hpart := smooth_serverPart r hsmooth
  obtain ⟨_,hi⟩ := room_run (run_serverPart r) (fun y hy => (hpart y hy).1) fun y hy => (hpart y hy).2
  have hroom := Room.listening ((serverPart tr).filterMap roomAction)
  have hbalance (c : ℕ) := screen_balance (s := System.start m addr) (run_safe Run.start) r c
  have hstart (c : ℕ) : ((System.start m addr).down c).filterMap shownText = [] := rfl
  refine ⟨fun c => ?_,fun c fd hl hsettled => ?_⟩
  · have hdelivered := delivered_piece hi c
    have hshown : tr.filterMap (displayed c) <+: ((serverPart tr).filterMap (delivered c)).map cText := by
      have h := hbalance c
      rw [hstart,List.nil_append] at h
      exact ⟨_,h⟩
    exact hshown.isInfix.trans (hdelivered.map cText)
  · have h := hbalance c
    have hcur := hi.current c fd hl
    rw [hsettled.server.owed,List.append_nil] at hcur
    rw [hstart,List.nil_append,hsettled.down,List.filterMap_nil,List.append_nil,hcur] at h
    rw [h,textLog,← begun_log]
    exact (hroom.members c ((hi.members c).mpr ⟨fd,hl⟩)).map cText

def bothJoined : List Event :=
  (acceptOn 4 ++ clientSteps 0 (joinTo 1) ++ acceptOn 5 ++ clientSteps 1 (joinTo 2)).map .server ++
  [.receive 0,.receive 0,.receive 1]

/- Client 0 says `hi` and asks for a ping. -/
def saysAndAsks : List Event :=
  [.send 0 (ascii "hi"),.send 0 requestPing] ++
  (clientSteps 0 ([.read (some (ascii "hi"))] ++ distributeTo 2 12 ++
    [.read (some requestPing),.sent (some 11)])).map .server ++
  [.receive 0,.receive 0,.receive 1]

theorem smooth_of_started {m : Fd} {addr : SockaddrIn} {tr : List (System × Event)} {s : System}
    (r : Run chat (System.start m addr) tr s)
    (hall : ∀ x ∈ tr, (match x.2 with
      | .server a => a.succeeds
      | _ => true) = true ∧ ∀ k < x.1.server.started, (x.1.server.thread k).all (fun t =>
        match x.1.server.acceptor with
        | .insert fd _ => t.socket ≠ fd || !t.pc.erasing
        | _ => true) = true) : ∀ x ∈ tr, Smooth x := by
  intro x hx a ha
  obtain ⟨hok,hthreads⟩ := hall x hx
  rw [ha] at hok
  refine ⟨fun ans fd addr _ hins k t ht hsock => ?_,hok⟩
  have hp := forall_thread (r.invariant_mem (fun _ _ => run_server) hx) _ hthreads k t ht
  simpa [hins,hsock] using hp

theorem listens_accept {s : System} {c : ℕ} {fd : Fd} (hacc : s.server.acceptor = .accept)
    (htab : s.server.shared.table fd = some (.connection c)) : s.server.Listens c fd :=
  ⟨htab,fun addr h => by rw [hacc] at h; cases h⟩

theorem screens_one_log_two :
    let r := runOf chat (System.start 3 ⟨0,0⟩) (bothJoined ++ saysAndAsks)
    r.1.filterMap (displayed 1) = [joinMessage 5,formattedMessage 4 (ascii "hi")] ∧
      r.1.filterMap (displayed 1) <:+ textLog r.1 := by
  have hrun := runOf_run chat (System.start 3 ⟨0,0⟩) (bothJoined ++ saysAndAsks) (by decide +kernel)
  have hacc : (runOf chat (System.start 3 ⟨0,0⟩) (bothJoined ++ saysAndAsks)).2.server.acceptor =
      .accept := by decide +kernel
  refine ⟨by decide +kernel,(screens_one_log hrun (smooth_of_started hrun (by decide +kernel))).2 1 5
    (listens_accept hacc (by decide +kernel)) ⟨?_,by decide +kernel,by decide +kernel⟩⟩
  exact atRest_of_started (run_server hrun) hacc (by decide +kernel) (by decide +kernel)
    (by decide +kernel)

/-! ### Messages -/

def chatText (message : Bytes) : Option Bytes :=
  match receive message with
  | .chat text => some text
  | _ => none

theorem react_chat (socket : Fd) (chunks : List Bytes) :
    (chunks.map (react socket)).filterMap Reaction.payload =
      (chunks.filterMap chatText).map (formattedMessage socket) := by
  have hone (chunk : Bytes) : (react socket chunk).payload =
      (chatText chunk).map (formattedMessage socket) := by
    cases hr : receive chunk <;> simp [react,chatText,hr,Reaction.payload]
  rw [List.filterMap_map,List.map_filterMap]
  exact List.filterMap_congr fun chunk _ => hone chunk

theorem chatText_some {message text : Bytes} (h : chatText message = some text) :
    text = cText (message ++ [nul]) := by
  unfold chatText receive at h
  split at h
  · next t ht =>
    cases h
    simp only at ht
    split_ifs at ht
    cases ht
    rfl
  · cases h

/- A chat text ends before a terminator, so what is displayed for it is itself. -/
theorem chatText_shown (socket : Fd) {message text : Bytes} (h : chatText message = some text) :
    cText (formattedMessage socket text) = formattedMessage socket text := by
  apply cText_of_nulFree
  apply formattedMessage_nulFree
  rw [chatText_some h]
  exact cText_nulFree _

/-- Between two states in which client `d` is connected, every chat message that a
client `c` sends is displayed by `d` with the name of `c`, in the order in which they
were sent, once both connections have settled. -/
theorem chat_screen {m : Fd} {addr : SockaddrIn} {tr tr' : List (System × Event)}
    {s s' : System} (r : Run chat (System.start m addr) tr s) (r' : Run chat s tr' s')
    (hsmooth : ∀ x ∈ tr ++ tr', Smooth x) {c d : ℕ} (hc : Settled s' c) (hd : Settled s' d) {fd : Fd}
    (hl : s.server.Listens d fd) (hl' : s'.server.Listens d fd) {t : SocketThread}
    (ht : s'.server.thread c = some t) :
    (((tr'.filterMap (sentBy c)).filterMap chatText).map (formattedMessage t.socket)).Sublist
      (tr'.filterMap (displayed d)) := by
  have hpart := smooth_serverPart (r.append r') hsmooth
  rw [serverPart_append] at hpart
  have hr := run_serverPart r
  have hr' := run_serverPart r'
  -- The messages that are sent are read before the system settles.
  have hread : (tr'.filterMap (sentBy c)).Sublist ((serverPart tr').filterMap (chunkRead c)) := by
    have h := sent_balance (run_safe hr) r' c
    rw [hc.up,List.append_nil] at h
    rw [← h]
    exact List.sublist_append_right _ _
  have hbegun := chats_begun hr hr' ht (hc.server.threads c t ht)
  rw [react_chat] at hbegun
  have hpaid := broadcasts_paid hr hr' (fun y hy => (hpart y hy).1)
    (fun y hy => (hpart y (List.mem_append_right _ hy)).2) hl hl'
  rw [hc.server.owed,List.append_nil] at hpaid
  have hdelivered : (((tr'.filterMap (sentBy c)).filterMap chatText).map
      (formattedMessage t.socket)).Sublist ((serverPart tr').filterMap (delivered d)) := by
    rw [← hpaid]
    exact (((hread.filterMap chatText).map _).trans hbegun).trans (List.sublist_append_right _ _)
  have hshown := screen_balance (run_safe hr) r' d
  rw [hd.down,List.filterMap_nil,List.append_nil] at hshown
  have htexts := hdelivered.map cText
  rw [List.map_map] at htexts
  have hsame : ((tr'.filterMap (sentBy c)).filterMap chatText).map
      (cText ∘ formattedMessage t.socket) =
      ((tr'.filterMap (sentBy c)).filterMap chatText).map (formattedMessage t.socket) := by
    apply List.map_congr_left
    intro text htext
    obtain ⟨message,_,hm⟩ := List.mem_filterMap.mp htext
    exact chatText_shown t.socket hm
  rw [hsame] at htexts
  rw [hshown]
  exact htexts.trans (List.sublist_append_right _ _)

end TcpProjects.ChatSystem
