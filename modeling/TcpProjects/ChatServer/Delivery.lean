import TcpProjects.Base.Room
import TcpProjects.ChatServer.Broadcast
import TcpProjects.ChatServer.Registry
import TcpProjects.ChatServer.Rest

/-! # The server is a room

What `distributeData` delivers to the clients, against the room in which a text
is heard by all members at once. A client enters with the insertion of its key
and leaves with the close of its descriptor; a text is said when its call takes
`mut`. What the call has yet to send is owed to the members that its iterator has
not passed; whoever is inserted behind the iterator still gets that text. -/

namespace TcpProjects.ChatServer
open Transition

/- Connection `c` is open on `fd` and its key has been inserted. -/
def State.Listens (s : State) (c : ℕ) (fd : Fd) : Prop :=
  s.shared.table fd = some (.connection c) ∧ ∀ addr, s.acceptor ≠ .insert fd addr

/- What the call that is going on has yet to send to `fd`. -/
def State.owed (s : State) (fd : Fd) : List Bytes :=
  match s.shared.mutex with
  | some (.client k) => (s.thread k).elim [] fun t =>
    match t.pc with
    | .distribute p l => if l.passed fd then [] else [p.data t.stack t.socket]
    | _ => []
  | _ => []

def roomAction (x : State × Action) : Option (RoomAction ℕ Bytes) :=
  match x.2 with
  | .acceptor .tick =>
    match x.1.acceptor with
    | .insert fd _ => some (.enter x.1.started (x.1.owed fd ≠ []))
    | _ => none
  | .client k .tick => (x.1.thread k).bind fun t =>
    match t.pc with
    | .distribute p .lock => some (.say (p.data t.stack t.socket))
    | _ => none
  | .client k (.closed true) => (x.1.thread k).map fun _ => .leave k
  | _ => none

/- The bytes for which a call of `distributeData` begins in a step. -/
def begun (x : State × Action) : Option Bytes := (roomAction x).bind RoomAction.word

/-! ### What a step does to the room -/

inductive RoomStep (s : State) (a : Action) (s' : State) : Prop
  | enter {fd : Fd} {addr : SockaddrIn} (hpc : s.acceptor = .insert fd addr)
      (hact : roomAction (s,a) = some (.enter s.started (s.owed fd ≠ [])))
      (hquiet : ∀ c, delivered c (s,a) = none)
      (hs' : s' = { s with
        shared := { s.shared with clientSockets := s.shared.clientSockets.insert fd addr }
        acceptor := .lock fd })
  | say {k : ℕ} {t : SocketThread} {p : Payload} (ht : s.thread k = some t)
      (hpc : t.pc = .distribute p .lock) (hfree : s.shared.mutex = none)
      (hact : roomAction (s,a) = some (.say (p.data t.stack t.socket)))
      (hquiet : ∀ c, delivered c (s,a) = none)
      (hs' : s' = s.advance k t { s.shared with mutex := some (.client k) } (.distribute p .begin))
  | leave {k : ℕ} {t : SocketThread} (ht : s.thread k = some t) (hpc : t.pc = .closeSocket .close)
      (hact : roomAction (s,a) = some (.leave k)) (hquiet : ∀ c, delivered c (s,a) = none)
      (hs' : s' = s.advance k t { s.shared with
        table := Function.update s.shared.table t.socket none } (.closeSocket .isServerSocket))
  | silent (hact : roomAction (s,a) = none)
      (hlistens : ∀ c fd, s'.Listens c fd ↔ s.Listens c fd)

theorem room_step {s s' : State} {a : Action} (h : Step s a s') : RoomStep s a s' := by
  cases h with
  | acceptor _ ha =>
    cases ha with
    | refused hpc => exact .silent rfl fun c fd => Iff.rfl
    | @accepted fd addr hpc hfree =>
      refine .silent rfl fun c q => ?_
      by_cases hq : q = fd
      · simp [State.Listens,hq,hfree]
      · simp [State.Listens,hpc,hq,Ne.symm hq]
    | insert hpc => exact .enter hpc (by simp [roomAction,hpc]) (fun c => rfl) rfl
    | lock hpc hm | insertThread hpc | unlock hpc =>
      exact .silent (by simp [roomAction,hpc]) fun c fd => by simp [State.Listens,hpc]
    | newThread hpc => exact .silent rfl fun c fd => by simp [State.Listens,hpc]
  | leave => exact .silent rfl fun c fd => Iff.rfl
  | @client k t ans g pc _ ht hst =>
    cases hst with
    | distributeLock hpc hm =>
      exact .say ht hpc hm (by simp [roomAction,ht,hpc]) (fun c => rfl) rfl
    | close hpc => exact .leave ht hpc (by simp [roomAction,ht]) (fun c => rfl) rfl
    | sendData _ | sendThrow _ | read _ | sendEvent _ | eventThrow _ | closeThrow _ =>
      exact .silent rfl fun c fd => Iff.rfl
    | _ => exact .silent (by simp [roomAction,ht,‹t.pc = _›]) fun c fd => Iff.rfl

/-! ### Calls -/

/- Thread `k` is between the lock and the unlock of a call with the bytes `data`. -/
def Speaks (s : State) (k : ℕ) (p : Payload) (l : DistributeAt) (data : Bytes) : Prop :=
  ∃ t, s.thread k = some t ∧ t.pc = .distribute p l ∧ l ≠ .lock ∧ p.data t.stack t.socket = data

section Calls
variable {m : Fd} {s s' : State} {a : Action} {k c : ℕ} {p : Payload} {l : DistributeAt}
  {data : Bytes} {fd : Fd}

theorem Speaks.mutex (hs : Safe m s) (h : Speaks s k p l data) :
    s.shared.mutex = some (.client k) := by
  obtain ⟨t,ht,hpc,hl,_⟩ := h
  exact (hs.locks.client k).mpr ⟨t,ht,distribute_holdsMut hpc hl⟩

theorem Speaks.owed (hs : Safe m s) (h : Speaks s k p l data) :
    s.owed fd = if l.passed fd then [] else [data] := by
  have hm := h.mutex hs
  obtain ⟨t,ht,hpc,_,rfl⟩ := h
  simp [State.owed,hm,ht,hpc]

/- Nothing is owed outside the calls. -/
theorem owed_cases (hs : Safe m s) :
    (∃ k p l data, Speaks s k p l data) ∨ (∀ k p l data, ¬ Speaks s k p l data) ∧
      ∀ fd, s.owed fd = [] := by
  by_cases h : ∃ k p l data, Speaks s k p l data
  · exact Or.inl h
  · push Not at h
    refine Or.inr ⟨h,fun fd => ?_⟩
    unfold State.owed
    split
    · next k hm =>
      obtain ⟨t,ht,hholds⟩ := (hs.locks.client k).mp hm
      simp only [ht,Option.elim_some]
      split
      · next p l hpc =>
        refine absurd ⟨t,ht,hpc,?_,rfl⟩ (h k p l (p.data t.stack t.socket))
        intro hl
        rw [hpc,hl] at hholds
        cases hholds
      · rfl
    · rfl

/- A call begins in the step that says its bytes, and in no other. -/
theorem begun_some (h : RoomStep s a s') {d : Bytes} (hb : begun (s,a) = some d) :
    s.shared.mutex = none ∧ ∃ k p, Speaks s' k p .begin d := by
  cases h with
  | @say k t p ht hpc hfree hact _ hs' =>
    refine ⟨hfree,k,p,?_⟩
    subst hs'
    exact ⟨_,s.advance_self ..,rfl,by simp,by simpa [begun,hact,RoomAction.word] using hb⟩
  | enter _ hact _ _ | leave _ _ hact _ _ | silent hact _ =>
    simp [begun,hact,RoomAction.word] at hb

theorem Speaks.begun_none (hs : Safe m s) (h : Speaks s k p l data) (hstep : RoomStep s a s') :
    begun (s,a) = none := by
  cases hb : begun (s,a) with
  | none => rfl
  | some d =>
    have hfree := (begun_some hstep hb).1
    rw [h.mutex hs] at hfree
    cases hfree

/- Who speaks after a step has spoken before, or has just begun. -/
theorem Speaks.before (h : Step s a s') (hsp : Speaks s' k p l data) :
    (∃ l, Speaks s k p l data) ∨ l = .begin ∧ begun (s,a) = some data := by
  obtain ⟨u,hu,hpc,hl,rfl⟩ := hsp
  cases h with
  | acceptor _ ha =>
    rcases ha.thread_new hu with hold | ⟨_,_,_,hnew⟩
    · exact Or.inl ⟨l,u,hold,hpc,hl,rfl⟩
    · cases hpc.symm.trans hnew
      exact absurd rfl hl
  | leave => exact Or.inl ⟨l,u,hu,hpc,hl,rfl⟩
  | @client j t ans g pc _ ht hst =>
    rcases s.advance_thread.mp hu with ⟨rfl,rfl⟩ | ⟨_,hold⟩
    · change pc = _ at hpc
      cases hst with
      | distributeLock hpc' _ =>
        cases hpc
        exact Or.inr ⟨rfl,by simp [begun,roomAction,ht,hpc',RoomAction.word]⟩
      | distributeBegin hpc' | sendData hpc' | distributeNext hpc' =>
        cases hpc
        exact Or.inl ⟨_,t,ht,hpc',by simp,rfl⟩
      | sendThrow _ | eventThrow _ | closeThrow _ => exact Or.inl ⟨l,t,ht,hpc,hl,rfl⟩
      | @distributeUnlock q _ => cases q <;> cases hpc
      | @printUnlock q _ => cases q <;> cases hpc
      | @read r _ =>
        rcases afterRead_cases r with h | h | h | ⟨m,h⟩ <;> rw [h] at hpc <;> cases hpc
        exact absurd rfl hl
      | closeUnlock _ =>
        cases hpc
        exact absurd rfl hl
      | _ => cases hpc
    · exact Or.inl ⟨l,u,hold,hpc,hl,rfl⟩

/- Deliveries are made by who speaks, to the descriptor under the iterator. -/
theorem delivered_speaks {d : Bytes} (hd : delivered c (s,a) = some d) :
    ∃ k p it data, Speaks s k p (.loop (some it)) data ∧ s.shared.table it = some (.connection c) := by
  cases a with
  | client k ans =>
    cases ans with
    | sent r =>
      cases r with
      | none => cases hd
      | some n =>
        obtain ⟨t,ht,hd⟩ := Option.bind_eq_some_iff.mp (show (s.thread k).bind _ = some d from hd)
        split at hd
        · next p it hpc =>
          split_ifs at hd with htab
          exact ⟨k,p,it,_,⟨t,ht,hpc,by simp,rfl⟩,htab⟩
        · cases hd
    | _ => cases hd
  | _ => cases hd

end Calls

/-! ### What is owed is paid -/

/- In a call, what was delivered and what is owed make its payload. -/
theorem InCall.owed {m : Fd} {s : State} {k c : ℕ} {p : Payload} {data : Bytes} {fd : Fd}
    {sent : List Bytes} (hs : Safe m s) (h : InCall s k p data c fd sent) :
    sent ++ s.owed fd = [data] := by
  obtain ⟨t,l,ht,hpc,hl,hdata,_,rfl⟩ := h
  rw [Speaks.owed hs ⟨t,ht,hpc,hl,hdata⟩]
  split_ifs <;> rfl

/- A step pays to a client what it no longer owes, and owes what it begins. -/
theorem owed_step {m : Fd} {s s' : State} {a : Action} {c : ℕ} {fd : Fd} (hs : Safe m s)
    (hs' : Safe m s') (h : Step s a s') (hfull : fullSend (s,a) = true)
    (hfd : s.shared.table fd = some (.connection c)) (hkey : fd ∈ s.shared.clientSockets) :
    s.owed fd ++ (begun (s,a)).toList = (delivered c (s,a)).toList ++ s'.owed fd := by
  rcases owed_cases hs with ⟨k,p,l,data,hsp⟩ | ⟨hnone,hnil⟩
  · rw [hsp.begun_none hs (room_step h),Option.toList_none,List.append_nil]
    obtain ⟨t,ht,hpc,hl,hdata⟩ := hsp
    have hin : InCall s k p data c fd (if l.passed fd then [data] else []) :=
      ⟨t,l,ht,hpc,hl,hdata,hfd,rfl⟩
    -- Unless the call ends with this step it goes on, and its payload is the same.
    have hgoes (hin' : InCall s' k p data c fd
        ((if l.passed fd then [data] else []) ++ (delivered c (s,a)).toList)) :
        s.owed fd = (delivered c (s,a)).toList ++ s'.owed fd := by
      have hbefore := hin.owed hs
      have hafter := hin'.owed hs'
      rw [List.append_assoc] at hafter
      exact List.append_cancel_left (hbefore.trans hafter.symm)
    by_cases hown : ∃ ans, a = .client k ans
    · obtain ⟨ans,rfl⟩ := hown
      by_cases hend : l = .loop none
      · subst hend
        have howed : s.owed fd = [] := (Speaks.owed hs ⟨t,ht,hpc,hl,hdata⟩).trans rfl
        cases h with
        | client _ ht' hst =>
          cases ht.symm.trans ht'
          cases hst with
          | distributeUnlock _ => exact howed
          | _ => simp_all
      · refine hgoes (call_step hs h hin hfull hkey fun u hu hpc' => hend ?_)
        cases ht.symm.trans hu
        cases hpc.symm.trans hpc'
        rfl
    · exact hgoes (call_frame hs h (fun ans he => hown ⟨ans,he⟩) hin)
  · have hquiet : delivered c (s,a) = none := by
      cases hd : delivered c (s,a) with
      | none => rfl
      | some d =>
        obtain ⟨k,p,it,data,hsp,_⟩ := delivered_speaks hd
        exact absurd hsp (hnone k p _ data)
    rw [hnil,hquiet,Option.toList_none,List.nil_append,List.nil_append]
    rcases owed_cases hs' with ⟨k,p,l,data,hsp⟩ | ⟨hnone',hnil'⟩
    · rcases hsp.before h with ⟨l',hold⟩ | ⟨rfl,hb⟩
      · exact absurd hold (hnone k p l' data)
      · rw [hb,hsp.owed hs']
        rfl
    · rw [hnil']
      cases hb : begun (s,a) with
      | none => rfl
      | some d =>
        obtain ⟨_,k,p,hsp⟩ := begun_some (room_step h) hb
        exact absurd hsp (hnone' k p _ d)

/-! ### Before the insertion nothing is sent -/

/- A key that is there before the accept thread inserts it is about to be erased. -/
def StaleKey (s : State) : Prop :=
  ∀ fd addr, s.acceptor = .insert fd addr → fd ∈ s.shared.clientSockets →
    ∃ k t, s.thread k = some t ∧ t.pc.erasing = true ∧ t.socket = fd

theorem StaleKey.step {m : Fd} {s s' : State} {a : Action} (hst : StaleKey s) (hk : Keys m s)
    (h : Step s a s') : StaleKey s' := by
  intro fd addr hacc hfd
  cases h with
  | acceptor _ ha =>
    cases ha with
    | refused hpc => exact hst fd addr hacc hfd
    | @accepted fd' addr' hpc hfree =>
      obtain ⟨rfl,_⟩ := AcceptPC.insert.inj hacc
      rcases hk.known fd' hfd with ⟨c,hc⟩ | herase
      · rw [hfree] at hc
        cases hc
      · exact herase
    | _ => cases hacc
  | leave => exact hst fd addr hacc hfd
  | @client k t ans g pc _ ht hsoc =>
    have hin : fd ∈ s.shared.clientSockets := by
      rcases hsoc.clientSockets_effect with ⟨_,_,he⟩ | he
      · exact ((OrderedMap.mem_erase ..).mp (he ▸ hfd)).2
      · exact he ▸ hfd
    obtain ⟨j,u,hu,he,hf⟩ := hst fd addr hacc hin
    by_cases hj : j = k
    · subst hj
      obtain rfl := Option.some.inj (ht.symm.trans hu)
      rcases hsoc.erasing_effect with hsame | ⟨hpc,_⟩ | hpc | ⟨_,hno,_⟩ | ⟨_,hg⟩
      · exact ⟨j,_,State.advance_self ..,hsame.trans he,hf⟩
      · rw [hpc] at he
        cases he
      · exact absurd hpc (hk.clientErase j t ht)
      · exact absurd (hf ▸ hin) hno
      · exact absurd hf.symm ((OrderedMap.mem_erase ..).mp (hg ▸ hfd)).1
    · exact ⟨j,u,by rw [s.advance_other _ _ _ hj]; exact hu,he,hf⟩

/- Only a client that has entered is sent anything. -/
theorem delivered_listens {m : Fd} {s : State} {a : Action} {c : ℕ} {d : Bytes} (hs : Safe m s)
    (hk : Keys m s) (hst : StaleKey s) (hd : delivered c (s,a) = some d) :
    ∃ fd, s.Listens c fd := by
  obtain ⟨k,p,it,data,⟨t,ht,hpc,_,_⟩,htab⟩ := delivered_speaks hd
  have hiter : t.pc.iterator = some it := by
    rw [hpc]
    rfl
  refine ⟨it,htab,fun addr hacc => ?_⟩
  obtain ⟨j,u,hu,he,_⟩ := hst it addr hacc (hk.iterator k t it ht hiter)
  -- Both would hold `mutex`, so they would be one thread.
  have hj := hs.exclusive hu ht (PC.erasing_holdsMut he) (PC.iterator_holdsMut hiter)
  subst hj
  obtain rfl := Option.some.inj (ht.symm.trans hu)
  rw [hpc] at he
  cases he

/-! ### Refinement -/

/-- What the clients have been sent and are owed is what the members of the room
have heard. -/
structure InRoom (tr : List (State × Action)) (s : State) (room : Room ℕ Bytes) : Prop where
  members : ∀ c, c ∈ room.members ↔ ∃ fd, s.Listens c fd
  current : ∀ c fd, s.Listens c fd → tr.filterMap (delivered c) ++ s.owed fd = room.heard c
  past : ∀ c, (∀ fd, ¬ s.Listens c fd) → tr.filterMap (delivered c) = room.heard c
  fresh : ∀ c, s.thread c = none → (∀ fd, ¬ s.Listens c fd) → room.heard c = []
  speaking : ∀ k p l data, Speaks s k p l data → room.said.getLast? = some data

theorem InRoom.of_initial (m : Fd) (addr : SockaddrIn) : InRoom [] (initial m addr) Room.empty := by
  have hnobody (c : ℕ) (fd : Fd) : ¬ (initial m addr).Listens c fd := by
    intro h
    have htab := h.1
    by_cases hf : fd = m <;> simp [initial,hf] at htab
  refine ⟨fun c => ?_,fun c fd h => absurd h (hnobody c fd),fun c _ => rfl,fun c _ _ => rfl,?_⟩
  · simp only [Room.empty,Finset.notMem_empty,false_iff]
    exact fun h => hnobody c h.choose h.choose_spec
  · intro k p l data hsp
    obtain ⟨t,ht,_⟩ := hsp
    cases ht

/- Threads are not taken away. -/
theorem Step.thread_none {s s' : State} {a : Action} (h : Step s a s') {c : ℕ}
    (hc : s'.thread c = none) : s.thread c = none := by
  cases h with
  | acceptor _ ha =>
    cases ha with
    | newThread hpc =>
      by_cases he : c = s.started
      · simp [he] at hc
      · simpa [he] using hc
    | _ => exact hc
  | leave => exact hc
  | @client k t ans g pc _ ht _ =>
    by_cases he : c = k
    · rw [he,s.advance_self] at hc
      cases hc
    · rwa [s.advance_other _ _ _ he] at hc

section Refinement
variable {m : Fd} {tr : List (State × Action)} {s s' : State} {a : Action} {room : Room ℕ Bytes}

/- Of the clients that listen before and after a step, and of what they are owed. -/
theorem InRoom.current_step (hi : InRoom tr s room) (hs : Safe m s) (hs' : Safe m s')
    (hr : Registered s) (h : Step s a s') (hfull : fullSend (s,a) = true) {c : ℕ} {fd : Fd}
    (hl : s.Listens c fd) :
    (tr ++ [(s,a)]).filterMap (delivered c) ++ s'.owed fd =
      room.heard c ++ (begun (s,a)).toList := by
  rw [filterMap_snoc,List.append_assoc,
    ← owed_step hs hs' h hfull hl.1 (hr.known fd c hl.1 hl.2),← hi.current c fd hl,
    List.append_assoc]

theorem delivered_snoc_none {c : ℕ} (h : delivered c (s,a) = none) :
    (tr ++ [(s,a)]).filterMap (delivered c) = tr.filterMap (delivered c) := by
  rw [filterMap_snoc,h,Option.toList_none,List.append_nil]

theorem InRoom.enter (hi : InRoom tr s room) (hs : Safe m s) {fd : Fd} {addr : SockaddrIn}
    (hpc : s.acceptor = .insert fd addr) (hquiet : ∀ c, delivered c (s,a) = none)
    (hs' : s' = { s with
      shared := { s.shared with clientSockets := s.shared.clientSockets.insert fd addr }
      acceptor := .lock fd }) :
    InRoom (tr ++ [(s,a)]) s' (room.act (.enter s.started (s.owed fd ≠ []))) := by
  have hmine : s.shared.table fd = some (.connection s.started) :=
    (hs.ownership.owner fd s.started).mpr (Or.inr ⟨rfl,by rw [hpc]; rfl⟩)
  have hlistens (c : ℕ) (q : Fd) : s.Listens c q ↔
      s.shared.table q = some (.connection c) ∧ c ≠ s.started := by
    constructor
    · intro h
      refine ⟨h.1,fun hc => h.2 addr ?_⟩
      rw [hpc,hs.ownership.fd_unique h.1 (hc ▸ hmine)]
    · intro h
      refine ⟨h.1,fun addr' hacc => h.2 ?_⟩
      rw [hpc] at hacc
      obtain ⟨rfl,_⟩ := AcceptPC.insert.inj hacc
      rw [hmine] at h
      exact (Object.connection.inj (Option.some.inj h.1)).symm
  have hnew (c : ℕ) (q : Fd) : s'.Listens c q ↔ s.shared.table q = some (.connection c) := by
    simp [hs',State.Listens]
  have howed (q : Fd) : s'.owed q = s.owed q := by
    rw [hs']
    rfl
  -- The call that is going on is the one of the last text that was said.
  have hcaught : (if s.owed fd ≠ [] then room.said.getLast?.toList else []) = s.owed fd := by
    rcases owed_cases hs with ⟨k,p,l,data,hsp⟩ | ⟨_,hnil⟩
    · rw [hsp.owed hs,hi.speaking k p l data hsp]
      split_ifs <;> simp_all
    · simp [hnil fd]
  have hbefore : tr.filterMap (delivered s.started) = [] := by
    have hno (q : Fd) : ¬ s.Listens s.started q := fun h => ((hlistens _ q).mp h).2 rfl
    rw [hi.past _ hno,hi.fresh _ hs.ownership.fresh hno]
  refine ⟨fun c => ?_,fun c q h => ?_,fun c h => ?_,fun c hc h => ?_,?_⟩
  · simp only [hnew,Room.act,Finset.mem_insert,hi.members c,hlistens]
    by_cases hc : c = s.started
    · subst hc
      exact iff_of_true (Or.inl rfl) ⟨fd,hmine⟩
    · simp [hc]
  · have htab := (hnew c q).mp h
    rw [delivered_snoc_none (hquiet c),howed]
    by_cases hc : c = s.started
    · subst hc
      obtain rfl := hs.ownership.fd_unique hmine htab
      simp only [Room.act,Function.update_self,hbefore,List.nil_append,decide_eq_true_eq]
      exact hcaught.symm
    · simp only [Room.act,Function.update_of_ne hc]
      exact hi.current c q ((hlistens c q).mpr ⟨htab,hc⟩)
  · have hc : c ≠ s.started := fun he => h fd ((hnew c fd).mpr (he ▸ hmine))
    rw [delivered_snoc_none (hquiet c)]
    simp only [Room.act,Function.update_of_ne hc]
    exact hi.past c fun q hq => h q ((hnew c q).mpr ((hlistens c q).mp hq).1)
  · have hne : c ≠ s.started := fun he => h fd ((hnew c fd).mpr (he ▸ hmine))
    simp only [Room.act,Function.update_of_ne hne]
    exact hi.fresh c (by rw [hs'] at hc; exact hc) fun q hq =>
      h q ((hnew c q).mpr ((hlistens c q).mp hq).1)
  · rw [hs']
    exact hi.speaking

theorem InRoom.say (hi : InRoom tr s room) (hs : Safe m s) (hs' : Safe m s') (hr : Registered s)
    (h : Step s a s') (hfull : fullSend (s,a) = true) {data : Bytes}
    (hbegun : begun (s,a) = some data) (hfree : s.shared.mutex = none)
    (hquiet : ∀ c, delivered c (s,a) = none)
    (hlistens : ∀ c fd, s'.Listens c fd ↔ s.Listens c fd) :
    InRoom (tr ++ [(s,a)]) s' (room.act (.say data)) := by
  refine ⟨fun c => ?_,fun c q hl => ?_,fun c hno => ?_,fun c hc hno => ?_,fun k p l d hsp => ?_⟩
  · simp only [hlistens]
    exact hi.members c
  · have hl' := (hlistens c q).mp hl
    have hmem : c ∈ room.members := (hi.members c).mpr ⟨q,hl'⟩
    rw [hi.current_step hs hs' hr h hfull hl',hbegun]
    simp [Room.act,hmem]
  · simp only [hlistens] at hno
    have hmem : c ∉ room.members := fun hc => by
      obtain ⟨q,hq⟩ := (hi.members c).mp hc
      exact hno q hq
    rw [delivered_snoc_none (hquiet c),hi.past c hno]
    simp [Room.act,hmem]
  · simp only [hlistens] at hno
    have hmem : c ∉ room.members := fun hc => by
      obtain ⟨q,hq⟩ := (hi.members c).mp hc
      exact hno q hq
    simpa [Room.act,hmem] using hi.fresh c (h.thread_none hc) hno
  · rcases hsp.before h with ⟨l',hold⟩ | ⟨_,hb⟩
    · have hm := hold.mutex hs
      rw [hfree] at hm
      cases hm
    · rw [hbegun] at hb
      cases hb
      simp [Room.act]

theorem InRoom.leave (hi : InRoom tr s room) (hs : Safe m s) (hs' : Safe m s') (h : Step s a s')
    {k : ℕ} {t : SocketThread} (ht : s.thread k = some t) (hpc : t.pc = .closeSocket .close)
    (hact : begun (s,a) = none) (hquiet : ∀ c, delivered c (s,a) = none)
    (hadv : s' = s.advance k t { s.shared with
      table := Function.update s.shared.table t.socket none } (.closeSocket .isServerSocket)) :
    InRoom (tr ++ [(s,a)]) s' (room.act (.leave k)) := by
  have hopen := hs.ownership.table_of_open ht (by rw [hpc]; rfl)
  have hlistens (c : ℕ) (fd : Fd) : s'.Listens c fd ↔ s.Listens c fd ∧ c ≠ k := by
    subst hadv
    by_cases hfd : fd = t.socket
    · subst hfd
      have hk : s.Listens c t.socket → c = k := fun hl =>
        (Object.connection.inj (Option.some.inj (hopen.symm.trans hl.1))).symm
      simp only [State.Listens,State.advance_shared,Function.update_self,reduceCtorEq,false_and,
        false_iff,not_and,not_not]
      exact hk
    · have hk : s.Listens c fd → c ≠ k := fun hl hc =>
        hfd (hs.ownership.fd_unique hl.1 (hc ▸ hopen))
      simp only [State.Listens,State.advance_shared,State.advance_acceptor,
        Function.update_of_ne hfd]
      exact ⟨fun hl => ⟨hl,hk hl⟩,And.left⟩
  -- The thread that closes holds `mutex`, so no call is going on.
  have hsilent (u : State) (hu : Safe m u) (v : SocketThread) (hv : u.thread k = some v)
      (hholds : v.pc.holdsMut = true) (hno : ∀ p l, v.pc ≠ .distribute p l) (fd : Fd) :
      u.owed fd = [] := by
    cases hpc : v.pc with
    | distribute p l => exact absurd hpc (hno p l)
    | _ => simp [State.owed,(hu.locks.client k).mpr ⟨v,hv,hholds⟩,hv,hpc]
  have hbefore := hsilent s hs t ht (by rw [hpc]; rfl) (by rw [hpc]; simp)
  have hafter := hsilent s' hs' { t with pc := .closeSocket .isServerSocket }
    (by rw [hadv,s.advance_self]) rfl (by simp)
  refine ⟨fun c => ?_,fun c q hl => ?_,fun c hno => ?_,fun c hc hno => ?_,fun j p l d hsp => ?_⟩
  · simp only [hlistens,Room.act,Finset.mem_erase,hi.members c]
    exact ⟨fun hx => ⟨hx.2.choose,hx.2.choose_spec,hx.1⟩,fun hx => ⟨hx.choose_spec.2,_,hx.choose_spec.1⟩⟩
  · have hcur := hi.current c q ((hlistens c q).mp hl).1
    rw [hbefore] at hcur
    rw [delivered_snoc_none (hquiet c),hafter]
    exact hcur
  · rw [delivered_snoc_none (hquiet c)]
    by_cases hc : ∃ q, s.Listens c q
    · obtain ⟨q,hq⟩ := hc
      have hcur := hi.current c q hq
      rwa [hbefore,List.append_nil] at hcur
    · exact hi.past c fun q hq => hc ⟨q,hq⟩
  · have hck : c ≠ k := fun he => by
      rw [he] at hc
      rw [h.thread_none hc] at ht
      cases ht
    exact hi.fresh c (h.thread_none hc) fun q hq => hno q ((hlistens c q).mpr ⟨hq,hck⟩)
  · rcases hsp.before h with ⟨l',hold⟩ | ⟨_,hb⟩
    · exact hi.speaking j p l' d hold
    · rw [hact] at hb
      cases hb

theorem InRoom.silent (hi : InRoom tr s room) (hs : Safe m s) (hs' : Safe m s') (hk : Keys m s)
    (hst : StaleKey s) (hr : Registered s) (h : Step s a s') (hfull : fullSend (s,a) = true)
    (hbegun : begun (s,a) = none) (hlistens : ∀ c fd, s'.Listens c fd ↔ s.Listens c fd) :
    InRoom (tr ++ [(s,a)]) s' room := by
  refine ⟨fun c => ?_,fun c q hl => ?_,fun c hno => ?_,fun c hc hno => ?_,fun k p l d hsp => ?_⟩
  · simp only [hlistens]
    exact hi.members c
  · rw [hi.current_step hs hs' hr h hfull ((hlistens c q).mp hl),hbegun,Option.toList_none,
      List.append_nil]
  · simp only [hlistens] at hno
    have hquiet : delivered c (s,a) = none := by
      cases hd : delivered c (s,a) with
      | none => rfl
      | some d =>
        obtain ⟨q,hq⟩ := delivered_listens hs hk hst hd
        exact absurd hq (hno q)
    rw [delivered_snoc_none hquiet,hi.past c hno]
  · simp only [hlistens] at hno
    exact hi.fresh c (h.thread_none hc) hno
  · rcases hsp.before h with ⟨l',hold⟩ | ⟨_,hb⟩
    · exact hi.speaking k p l' d hold
    · rw [hbegun] at hb
      cases hb

theorem InRoom.step (hi : InRoom tr s room) (hs : Safe m s) (hs' : Safe m s') (hk : Keys m s)
    (hst : StaleKey s) (hr : Registered s) (h : Step s a s') (hfull : fullSend (s,a) = true) :
    InRoom (tr ++ [(s,a)]) s' ((roomAction (s,a)).elim room room.act) := by
  cases room_step h with
  | enter hpc hact hquiet hs' =>
    rw [hact,Option.elim_some]
    exact hi.enter hs hpc hquiet hs'
  | say ht hpc hfree hact hquiet hadv =>
    rw [hact,Option.elim_some]
    refine hi.say hs hs' hr h hfull (by simp [begun,hact,RoomAction.word]) hfree hquiet fun c fd => ?_
    rw [hadv]
    rfl
  | leave ht hpc hact hquiet hadv =>
    rw [hact,Option.elim_some]
    exact hi.leave hs hs' h ht hpc (by simp [begun,hact,RoomAction.word]) hquiet hadv
  | silent hact hlistens =>
    rw [hact,Option.elim_none]
    exact hi.silent hs hs' hk hst hr h hfull (by simp [begun,hact]) hlistens

end Refinement

theorem room_run {m : Fd} {addr : SockaddrIn} {tr : List (State × Action)} {s : State}
    (r : Run step (initial m addr) tr s) (hclear : ∀ x ∈ tr, InsertClear x.1 x.2)
    (hfull : ∀ x ∈ tr, fullSend x = true) :
    StaleKey s ∧ InRoom tr s (Room.after (tr.filterMap roomAction)) := by
  induction r with
  | start =>
    refine ⟨?_,InRoom.of_initial m addr⟩
    intro fd addr' h
    cases h
  | @next tr s a s' r h ih =>
    have hbefore {p : State × Action → Prop} (hp : ∀ x ∈ tr ++ [(s,a)], p x) : ∀ x ∈ tr, p x :=
      fun x hx => hp x (List.mem_append_left _ hx)
    obtain ⟨hst,hi⟩ := ih (hbefore hclear) (hbefore hfull)
    obtain ⟨⟨hs,hk⟩,hr⟩ := registered_run r (hbefore hclear)
    have hlast := hfull (s,a) (List.mem_append_right _ (List.mem_singleton_self _))
    refine ⟨hst.step hk (step_cases h),?_⟩
    rw [filterMap_snoc,Room.after_toList]
    exact hi.step hs (hs.step h) hk hst hr (step_cases h) hlast

theorem begun_log (tr : List (State × Action)) :
    (Room.after (tr.filterMap roomAction)).said = tr.filterMap begun := by
  rw [Room.said_after,List.filterMap_filterMap]
  rfl

/- The condition on the insertions, looked up in the states of a run. -/
theorem insertClear_of_started {m : Fd} {addr : SockaddrIn} {tr : List (State × Action)} {s : State}
    (r : Run step (initial m addr) tr s)
    (hall : ∀ x ∈ tr, ∀ k < x.1.started, (x.1.thread k).all (fun t => match x.1.acceptor with
      | .insert fd _ => t.socket ≠ fd || !t.pc.erasing
      | _ => true) = true) : ∀ x ∈ tr, InsertClear x.1 x.2 := by
  intro x hx ans fd addr _ hins k t ht hsock
  have hp := forall_thread (r.invariant_mem (fun _ _ => run_safe) hx) _ (hall x hx) k t ht
  simpa [hins,hsock] using hp

theorem atRest_of_started {m : Fd} {s : State} (hs : Safe m s) (hacc : s.acceptor = .accept)
    (hall : ∀ k < s.started, (s.thread k).all (fun t => t.pc = .read || t.pc = .finished) = true)
    (hmut : s.shared.mutex = none) (hout : s.shared.stdoutMut = none) : AtRest s := by
  refine ⟨hacc,fun k t ht => ?_,fun μ => ?_⟩
  · simpa using forall_thread hs _ hall k t ht
  · cases μ
    · exact hmut
    · exact hout

end TcpProjects.ChatServer
