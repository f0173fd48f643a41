import TcpProjects.ChatServer.Delivery

/-! # What a client is sent

From the refinement of the room: what any client is ever sent by broadcasts is
one piece of the log of all of them, and while it is connected it misses nothing
and gets nothing twice, its own messages included. -/

namespace TcpProjects.ChatServer
open Transition

/-! ### One log for all clients -/

theorem AtRest.owed {s : State} (h : AtRest s) (fd : Fd) : s.owed fd = [] := by
  have hm : s.shared.mutex = none := h.mutexes .mutex
  simp [State.owed,hm]

/- A client that is connected or was is sent one piece of the log. -/
theorem delivered_piece {tr : List (State × Action)} {s : State}
    (hi : InRoom tr s (Room.after (tr.filterMap roomAction))) (c : ℕ) :
    tr.filterMap (delivered c) <:+: tr.filterMap begun := by
  have hall := (Room.listening (tr.filterMap roomAction)).all c
  rw [begun_log] at hall
  by_cases hc : ∃ fd, s.Listens c fd
  · obtain ⟨fd,hl⟩ := hc
    rw [← hi.current c fd hl] at hall
    exact (List.prefix_append _ _).isInfix.trans hall
  · rw [hi.past c fun fd hl => hc ⟨fd,hl⟩]
    exact hall

/-- What any client is ever sent by broadcasts is one uninterrupted piece of the
log of all broadcasts; at rest it is the end of the log for every client that is
connected, so that of two connected clients one has seen all that the other has. -/
theorem clients_hear_one_log {m : Fd} {addr : SockaddrIn} {tr : List (State × Action)} {s : State}
    (r : Run step (initial m addr) tr s) (hclear : ∀ x ∈ tr, InsertClear x.1 x.2)
    (hfull : ∀ x ∈ tr, fullSend x = true) :
    (∀ c, tr.filterMap (delivered c) <:+: tr.filterMap begun) ∧
    (AtRest s → (∀ c fd, s.Listens c fd → tr.filterMap (delivered c) <:+ tr.filterMap begun) ∧
      ∀ c d fd fd', s.Listens c fd → s.Listens d fd' →
        tr.filterMap (delivered c) <:+ tr.filterMap (delivered d) ∨
        tr.filterMap (delivered d) <:+ tr.filterMap (delivered c)) := by
  have hi := (room_run r hclear hfull).2
  have hroom := Room.listening (tr.filterMap roomAction)
  have hmembers := hroom.members
  rw [begun_log] at hmembers
  refine ⟨delivered_piece hi,fun hrest => ?_⟩
  have hheard (c : ℕ) (fd : Fd) (hl : s.Listens c fd) :
      tr.filterMap (delivered c) = (Room.after (tr.filterMap roomAction)).heard c := by
    have hcur := hi.current c fd hl
    rwa [hrest.owed,List.append_nil] at hcur
  refine ⟨fun c fd hl => ?_,fun c d fd fd' hl hl' => ?_⟩
  · rw [hheard c fd hl]
    exact hmembers c ((hi.members c).mpr ⟨fd,hl⟩)
  · rw [hheard c fd hl,hheard d fd' hl']
    exact hroom.agree ((hi.members c).mpr ⟨fd,hl⟩) ((hi.members d).mpr ⟨fd',hl'⟩)

theorem clients_hear_one_log_two :
    let tr := (runOf step (initial 3 ⟨0,0⟩) twoClients).1
    (tr.filterMap (delivered 1)).map cText = [joinMessage 5,formattedMessage 4 (ascii "hi"),
      formattedMessage 5 (ascii "ok")] ∧ tr.filterMap (delivered 1) <:+ tr.filterMap begun := by
  have hrun := runOf_run step (initial 3 ⟨0,0⟩) twoClients (by decide +kernel)
  have hacc : (runOf step (initial 3 ⟨0,0⟩) twoClients).2.acceptor = .accept := by decide +kernel
  have hlog := clients_hear_one_log hrun (insertClear_of_started hrun (by decide +kernel))
    (by decide +kernel)
  refine ⟨by decide +kernel,(hlog.2 ?_).1 1 5 ⟨by decide +kernel,fun addr h => ?_⟩⟩
  · exact atRest_of_started (run_safe hrun) hacc (by decide +kernel) (by decide +kernel)
      (by decide +kernel)
  · rw [hacc] at h
    cases h

/-! ### While a client is connected -/

/- The key of connection `c` has been inserted, whatever became of it since. -/
def State.Entered (s : State) (c : ℕ) : Prop :=
  c < s.started ∨ c = s.started ∧ ∃ fd, s.acceptor = .lock fd ∨ s.acceptor = .newThread fd

theorem State.Listens.entered {m : Fd} {s : State} (hs : Safe m s) {c : ℕ} {fd : Fd}
    (h : s.Listens c fd) : s.Entered c := by
  rcases (hs.ownership.owner fd c).mp h.1 with ⟨t,ht,_⟩ | ⟨hc,hp⟩
  · exact Or.inl (hs.ownership.thread_lt ht)
  · refine Or.inr ⟨hc,fd,?_⟩
    cases hacc : s.acceptor with
    | insert fd' addr =>
      rw [hacc] at hp
      exact absurd (by rw [hacc,Option.some.inj hp]) (h.2 addr)
    | lock fd' => exact Or.inl (by rw [hacc] at hp; rw [Option.some.inj hp])
    | newThread fd' => exact Or.inr (by rw [hacc] at hp; rw [Option.some.inj hp])
    | _ =>
      rw [hacc] at hp
      cases hp

theorem State.Entered.step {s s' : State} {a : Action} {c : ℕ} (h : s.Entered c)
    (hstep : Step s a s') : s'.Entered c := by
  cases hstep with
  | acceptor _ ha =>
    cases ha with
    | lock hpc _ => exact h.imp_right fun hc => ⟨hc.1,_,Or.inr rfl⟩
    | newThread hpc =>
      refine Or.inl (h.elim (fun hc => Nat.lt_succ_of_lt hc) fun hc => ?_)
      change c < s.started+1
      omega
    | refused _ => exact h
    | _ => exact Or.inl (h.resolve_right fun hc => by simp_all)
  | leave => exact h
  | client _ _ _ => exact h

/- A client that has entered does not enter again, so it was connected before. -/
theorem listens_before {m : Fd} {s s' : State} {a : Action} (hs : Safe m s) (h : Step s a s')
    {c : ℕ} {fd : Fd} (hin : s.Entered c) (hl : s'.Listens c fd) : s.Listens c fd := by
  cases room_step h with
  | @enter q addr hpc _ _ hs' =>
    have htab : s.shared.table fd = some (.connection c) := by
      rw [hs'] at hl
      exact hl.1
    refine ⟨htab,fun addr' hacc => ?_⟩
    have hmine := (hs.ownership.owner fd s.started).mpr (Or.inr ⟨rfl,by rw [hacc]; rfl⟩)
    rw [htab] at hmine
    have hc := Object.connection.inj (Option.some.inj hmine)
    rcases hin with hlt | ⟨_,_,hpc' | hpc'⟩
    · omega
    · rw [hpc] at hpc'
      cases hpc'
    · rw [hpc] at hpc'
      cases hpc'
  | say _ _ _ _ _ hs' =>
    rw [hs'] at hl
    exact hl
  | @leave k t _ _ _ _ hs' =>
    have htab : Function.update s.shared.table t.socket none fd = some (.connection c) := by
      rw [hs'] at hl
      exact hl.1
    have hacc : s'.acceptor = s.acceptor := by rw [hs']; rfl
    by_cases hfd : fd = t.socket
    · rw [hfd,Function.update_self] at htab
      cases htab
    · rw [Function.update_of_ne hfd] at htab
      exact ⟨htab,hacc ▸ hl.2⟩
  | silent _ hlistens => exact (hlistens c fd).mp hl

theorem reaction_begun {k : ℕ} {x : State × Action} {d : Bytes}
    (h : (reaction k x).bind Reaction.payload = some d) : begun x = some d := by
  obtain ⟨u,a⟩ := x
  obtain ⟨e,he,hd⟩ := Option.bind_eq_some_iff.mp h
  cases e with
  | broadcast payload =>
    obtain rfl := Option.some.inj hd
    cases a with
    | client j ans =>
      simp only [reaction] at he
      split_ifs at he with hj
      subst hj
      obtain ⟨t,ht,hshow⟩ := Option.bind_eq_some_iff.mp he
      unfold SocketThread.shows at hshow
      split at hshow
      · next m hpc =>
        cases hshow
        simp [begun,roomAction,ht,hpc,RoomAction.word]
      · cases hshow
      · split at hshow
        · split_ifs at hshow
          cases hshow
        · cases hshow
      · cases hshow
    | _ => cases he
  | _ => cases hd

theorem socket_kept {m : Fd} {tr : List (State × Action)} {s s' : State} (hs : Safe m s)
    (r : Run step s tr s') {c : ℕ} {u : SocketThread} (hu : s.thread c = some u) :
    ∃ t, s'.thread c = some t ∧ t.socket = u.socket := by
  refine (r.invariant (I := fun v => Safe m v ∧ ∃ t, v.thread c = some t ∧ t.socket = u.socket)
    ⟨hs,u,hu,rfl⟩ ?_).2
  intro v a v' hv h
  obtain ⟨hsafe,t,ht,hsock⟩ := hv
  refine ⟨hsafe.step h,?_⟩
  by_cases hown : ∃ ans, a = .client c ans
  · obtain ⟨ans,rfl⟩ := hown
    cases step_cases h with
    | client _ ht' _ =>
      cases ht.symm.trans ht'
      exact ⟨_,v.advance_self ..,hsock⟩
  · rcases (step_cases h).thread_frame (fun ans he => hown ⟨ans,he⟩) with hsame | ⟨hnew,_⟩
    · exact ⟨t,hsame.trans ht,hsock⟩
    · exact absurd (hsafe.ownership.thread_lt ht) (by omega)

/- At rest, what a thread has shown since some state begins before the reactions to
what it has read since. -/
theorem reactions_since {m : Fd} {addr : SockaddrIn} {tr tr' : List (State × Action)}
    {s s' : State} (r : Run step (initial m addr) tr s) (r' : Run step s tr' s') {c : ℕ}
    {t : SocketThread} (ht : s'.thread c = some t) (hpc : t.pc = .read ∨ t.pc = .finished) :
    (tr'.filterMap (chunkRead c)).map (react t.socket) <:+ tr'.filterMap (reaction c) := by
  have hafter := (reactions_run (r.append r') c).1 t ht
  have hidle : t.pending = [] := by rcases hpc with h | h <;> simp [SocketThread.pending,h]
  rw [hidle,List.append_nil,List.filterMap_append,List.filterMap_append,List.map_append] at hafter
  cases hu : s.thread c with
  | none =>
    obtain ⟨hr,hch⟩ := (reactions_run r c).2 hu
    rw [hr,hch,List.nil_append,List.map_nil,List.nil_append] at hafter
    exact ⟨[],hafter.symm⟩
  | some u =>
    have hbefore := (reactions_run r c).1 u hu
    obtain ⟨t',ht',hsock⟩ := socket_kept (run_safe r) r' hu
    obtain rfl := Option.some.inj (ht.symm.trans ht')
    rw [← hsock] at hbefore
    rw [← hbefore,List.append_assoc] at hafter
    exact ⟨u.pending,(List.append_cancel_left hafter).symm⟩

/- While a client is connected, what it is owed and what is begun is what it is sent and
what it is owed then. -/
theorem broadcasts_paid {m : Fd} {addr : SockaddrIn} {tr tr' : List (State × Action)}
    {s s' : State} (r : Run step (initial m addr) tr s) (r' : Run step s tr' s')
    (hclear : ∀ x ∈ tr ++ tr', InsertClear x.1 x.2) (hfull : ∀ x ∈ tr', fullSend x = true)
    {c : ℕ} {fd : Fd} (hl : s.Listens c fd) (hl' : s'.Listens c fd) :
    s.owed fd ++ tr'.filterMap begun = tr'.filterMap (delivered c) ++ s'.owed fd := by
  have hin := hl.entered (run_safe r)
  suffices h : s'.Entered c ∧ (s'.Listens c fd →
      s.owed fd ++ tr'.filterMap begun = tr'.filterMap (delivered c) ++ s'.owed fd) from h.2 hl'
  clear hl'
  induction r' with
  | start => exact ⟨hin,fun _ => by simp⟩
  | @next tr' u a u' r' h ih =>
    have hbefore (x : State × Action) (hx : x ∈ tr ++ tr') : x ∈ tr ++ (tr' ++ [(u,a)]) := by
      rw [← List.append_assoc]
      exact List.mem_append_left _ hx
    obtain ⟨hu,heq⟩ := ih (fun x hx => hclear x (hbefore x hx))
      fun x hx => hfull x (List.mem_append_left _ hx)
    obtain ⟨⟨hs,_⟩,hr⟩ := registered_run (r.append r') fun x hx => hclear x (hbefore x hx)
    have hstep := step_cases h
    refine ⟨hu.step hstep,fun hlu => ?_⟩
    have hl := listens_before hs hstep hu hlu
    have hpay := owed_step hs (hs.step h) hstep
      (hfull (u,a) (List.mem_append_right _ (List.mem_singleton_self _))) hl.1
      (hr.known fd c hl.1 hl.2)
    rw [filterMap_snoc,filterMap_snoc,← List.append_assoc,heq hl,List.append_assoc,hpay,
      List.append_assoc]

/- Once a thread has come to rest, the chat messages it has read are in the log. -/
theorem chats_begun {m : Fd} {addr : SockaddrIn} {tr tr' : List (State × Action)}
    {s s' : State} (r : Run step (initial m addr) tr s) (r' : Run step s tr' s') {c : ℕ}
    {t : SocketThread} (ht : s'.thread c = some t) (hpc : t.pc = .read ∨ t.pc = .finished) :
    (((tr'.filterMap (chunkRead c)).map (react t.socket)).filterMap Reaction.payload).Sublist
      (tr'.filterMap begun) := by
  have hshown := (reactions_since r r' ht hpc).sublist.filterMap Reaction.payload
  have hbegun : ((tr'.filterMap (reaction c)).filterMap Reaction.payload).Sublist
      (tr'.filterMap begun) := by
    rw [List.filterMap_filterMap]
    exact filterMap_sublist tr' fun x d h => reaction_begun h
  exact hshown.trans hbegun

end TcpProjects.ChatServer
