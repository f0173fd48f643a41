import TcpProjects.ChatSelect.Attribution

/-! # Where the select-based server rests

As long as no client closes, the server comes to rest between two arrivals, if its `send`s
return. It rests in `select`, or in the `read` of one client, for its name or behind an
empty text; there, and while a `send` blocks, all other clients wait with it. -/

namespace TcpProjects.ChatSelect
open ChatServer Transition

variable {ι : Type*} [DecidableEq ι] {clients : ι → Client} {s s' : Server ι} {a : Action ι} {i : ι}

/- Nobody has closed, and the server closes nothing. -/
structure Open (clients : ι → Client) (s : Server ι) : Prop where
  wired : Wired clients s
  opened : ∀ i ∈ s.present,s.closed i = false

theorem Open.fed (h : Open clients s) (he : Effect clients s a s') : Fed s := by
  have hgets {fd : Fd} {i : ι} {size : ℕ} {chunk : Bytes} (hp : (fd,i) ∈ s.clientSockets)
      (hread : s.read clients i size = some chunk) : 0 < s.available i := by
    refine (h.wired.read_length hread).2.resolve_right fun hclosed => ?_
    cases (h.opened i (Server.mem_present hp)).symm.trans hclosed
  unfold Fed
  cases he with
  | accepts hpc _ | reads hpc _ | accepted hpc _ _ | passed hpc | sent hpc | killed hpc _ =>
    rw [hpc]
    trivial
  | named hpc hread =>
    rw [hpc]
    exact hgets (h.wired.naming _ _ _ hpc) hread
  | skipped hpc hnot =>
    rw [hpc]
    exact fun hmem => absurd hmem hnot
  | again hpc hmem hread _ | printed hpc hmem hread _ =>
    rw [hpc]
    exact fun _ => hgets ((h.wired.iterator _ _ hpc).subset List.mem_cons_self) hread
  | failed hpc hmem hclosed hend =>
    have hp := (h.wired.iterator _ _ hpc).subset List.mem_cons_self
    cases (h.opened _ (Server.mem_present hp)).symm.trans hclosed

theorem Open.effect (h : Open clients s) (he : Effect clients s a s') : Open clients s' ∧ s'.left < s.left := by
  have hkept : ∀ i ∈ s'.present,i ∈ s.present := by
    cases he with
    | @accepted newSocket i pending readfds hpc hpending hfresh =>
      intro i' hi'
      rw [Server.present,List.map_append,List.map_singleton,List.append_assoc] at hi'
      rw [Server.present,hpending]
      exact hi'
    | _ => exact fun i' hi' => hi'
  have hclosed : s'.closed = s.closed := by cases he <;> rfl
  refine ⟨⟨h.wired.effect he,fun i hi => ?_⟩,h.wired.left_lt (h.fed he) he⟩
  rw [hclosed]
  exact h.opened i (hkept i hi)

theorem Open.waits (h : Open clients s) (hnone : ∀ a : Action ι,a.ofServer = true → s.step clients a = none) :
    Idle s ∨ ∃ i,Blocked s i := by
  rcases h.wired.waits (fun a ha => hnone a (own_ofServer ha)) with hidle | hblocked | hsending | hkilled
  · exact Or.inl hidle
  · exact Or.inr hblocked
  · obtain ⟨i,fd,rest,readfds,hpc⟩ := hsending
    have hsent := hnone .sent rfl
    rw [Server.step,Server.sendReturns,hpc] at hsent
    cases hsent
  · obtain ⟨i,hi,hclosed⟩ := h.wired.killed hkilled
    cases (h.opened i hi).symm.trans hclosed

/-! ### One client that is waited for -/

/- The client whose bytes or whose end arrive. -/
def Action.arrivesFrom : Action ι → Option ι
  | .deliver i _ | .close i => some i
  | _ => none

structure Same (s s' : Server ι) : Prop where
  pc : s'.pc = s.pc
  clientSockets : s'.clientSockets = s.clientSockets
  consumed : s'.consumed = s.consumed
  stdout : s'.stdout = s.stdout

/- What the clients and the connections do. -/
theorem step_same (ha : a.ofServer = false) (hs : s.step clients a = some s') : Same s s' := by
  cases a with
  | accept newSocket | failed | sent | sigpipe | server => cases ha
  | connect i' =>
    rw [Server.step] at hs
    split_ifs at hs
    obtain rfl := Option.some.inj hs
    exact ⟨rfl,rfl,rfl,rfl⟩
  | deliver i' n =>
    rw [Server.step] at hs
    split_ifs at hs
    obtain rfl := Option.some.inj hs
    exact ⟨rfl,rfl,rfl,rfl⟩
  | close i' =>
    rw [Server.step] at hs
    split_ifs at hs
    obtain rfl := Option.some.inj hs
    exact ⟨rfl,rfl,rfl,rfl⟩

omit [DecidableEq ι] in
theorem Same.trans {s'' : Server ι} (h : Same s s') (h' : Same s' s'') : Same s s'' :=
  ⟨h'.pc.trans h.pc,h'.clientSockets.trans h.clientSockets,h'.consumed.trans h.consumed,
    h'.stdout.trans h.stdout⟩

theorem readable_other (ha : a.ofServer = false) (hfrom : a.arrivesFrom ≠ some i)
    (hs : s.step clients a = some s') : s'.readable i = s.readable i := by
  have hother {i' : ι} (he : some i' ≠ some i) : i ≠ i' := fun hi => he (congrArg some hi.symm)
  cases a with
  | accept newSocket | failed | sent | sigpipe | server => cases ha
  | connect i' =>
    rw [Server.step] at hs
    split_ifs at hs
    obtain rfl := Option.some.inj hs
    rfl
  | deliver i' n =>
    rw [Server.step] at hs
    split_ifs at hs
    obtain rfl := Option.some.inj hs
    rw [Server.readable,Server.readable,Server.available,Server.available]
    simp only [Function.update_of_ne (hother hfrom)]
  | close i' =>
    rw [Server.step] at hs
    split_ifs at hs
    obtain rfl := Option.some.inj hs
    rw [Server.readable,Server.readable]
    simp only [Function.update_of_ne (hother hfrom)]
    rfl

theorem Blocked.step (h : Blocked s i) (ha : a.arrivesFrom ≠ some i) (hs : s.step clients a = some s') :
    Blocked s' i ∧ Same s s' := by
  cases hserver : a.ofServer with
  | true => exact absurd (step_effect hserver hs) h.no_effect
  | false =>
    have hsame := step_same hserver hs
    refine ⟨⟨(readable_other hserver ha hs).trans h.1,?_⟩,hsame⟩
    rw [hsame.pc]
    exact h.2

/- Whatever the others send, nothing of it is read. -/
theorem Blocked.run {tr : List (Server ι × Action ι)} (h : Blocked s i)
    (r : Run (Server.step clients) s tr s') (ha : ∀ x ∈ tr,x.2.arrivesFrom ≠ some i) :
    Blocked s' i ∧ Same s s' := by
  refine r.guarded (I := fun u => Blocked u i ∧ Same s u) (fun _ a => a.arrivesFrom ≠ some i)
    ⟨h,rfl,rfl,rfl,rfl⟩ ?_ ha
  rintro u a u' ⟨hu,hsame⟩ ha hs
  obtain ⟨hu',hnext⟩ := hu.step ha hs
  exact ⟨hu',hsame.trans hnext⟩

/- Nor while the text of one client is being sent. -/
theorem Sending.run {tr : List (Server ι × Action ι)} (h : Sending s i)
    (r : Run (Server.step clients) s tr s') (ha : ∀ x ∈ tr,x.2 ≠ .sent ∧ x.2 ≠ .sigpipe) : Same s s' := by
  refine (r.guarded (I := fun u => Sending u i ∧ Same s u) (fun _ a => a ≠ .sent ∧ a ≠ .sigpipe)
    ⟨h,rfl,rfl,rfl,rfl⟩ ?_ ha).2
  rintro u a u' ⟨hu,hsame⟩ ⟨hsent,hsigpipe⟩ hs
  cases hserver : a.ofServer with
  | false =>
    have hnext := step_same hserver hs
    refine ⟨?_,hsame.trans hnext⟩
    obtain ⟨fd,rest,readfds,hpc⟩ := hu
    exact ⟨fd,rest,readfds,hnext.pc.trans hpc⟩
  | true =>
    obtain ⟨fd,rest,readfds,hpc⟩ := hu
    cases a with
    | connect | deliver | close => cases hserver
    | sent => exact absurd rfl hsent
    | sigpipe => exact absurd rfl hsigpipe
    | accept newSocket =>
      obtain ⟨_,_,_,hpc',_⟩ := Server.acceptClient_some hs
      cases hpc.symm.trans hpc'
    | failed =>
      obtain ⟨_,_,_,_,hpc',_⟩ := Server.readFails_some hs
      cases hpc.symm.trans hpc'
    | server =>
      rw [Server.step,Server.runServer,hpc] at hs
      cases hs

/-! ### The result -/

/-- As long as no client of the server has closed, the server makes a bounded number of steps,
and comes to rest if its `send`s return. It waits in `select` for all clients, in the
`read` of one, or in the `send` to one; then it does nothing before that client has sent
more or closed, or `send` has returned. At rest in `select` all that has come is printed,
if names and messages came whole. -/
theorem select_server_rests (clients : ι → Client) (username : Buffer 704) (message : Buffer 2048)
    {tr : List (Server ι × Action ι)} {s : Server ι}
    (r : Run (Server.step clients) (Server.start username message) tr s) :
    ((∀ i ∈ s.present,s.closed i = false) →
      (∀ tr' s',Run (Server.step clients) s tr' s' → (∀ x ∈ tr',x.2.ofServer = true) →
        tr'.length ≤ (s.work+1)*(2*s.present.length+5)) ∧
      ∃ tr' s',Run (Server.step clients) s tr' s' ∧ (∀ x ∈ tr',x.2.ofServer = true) ∧
        (Idle s' ∨ ∃ i,Blocked s' i)) ∧
    ((∀ a : Action ι,a.ownStep = true → s.step clients a = none) ↔
      Idle s ∨ (∃ i,Blocked s i) ∨ (∃ i,Sending s i) ∨ s.pc = .killed) ∧
    (∀ i,Blocked s i → ∀ tr' s',Run (Server.step clients) s tr' s' →
      (∀ x ∈ tr',x.2.arrivesFrom ≠ some i) → Blocked s' i ∧ Same s s') ∧
    (∀ i,Sending s i → ∀ tr' s',Run (Server.step clients) s tr' s' →
      (∀ x ∈ tr',x.2 ≠ .sent ∧ x.2 ≠ .sigpipe) → Same s s') ∧
    ((∀ x ∈ tr,Good clients x.1 x.2) → Idle s → ∀ p ∈ s.clientSockets,
      s.printedFor p.1 = linesOf (clients p.2) (Client.begun (s.delivered p.2))) := by
  have hwired := run_wired r
  have hstep (u : Server ι) (a : Action ι) (u' : Server ι) (hu : Open clients u)
      (ha : a.ofServer = true) (hs : u.step clients a = some u') : Open clients u' ∧ u'.left < u.left :=
    hu.effect (step_effect ha hs)
  refine ⟨fun hopen => ⟨fun tr' s' r' ha => ?_,?_⟩,⟨hwired.waits,?_⟩,?_,?_,?_⟩
  · have hlen := (r'.length_le (fun _ a => a.ofServer = true) Server.left ⟨hwired,hopen⟩ hstep ha).2
    have hbound := hwired.left_le
    omega
  · obtain ⟨tr',s',r',ha,hnone⟩ :=
      exists_settled (fun _ (a : Action ι) => a.ofServer = true) Server.left hstep ⟨hwired,hopen⟩
    have hopen' := r'.guarded (fun _ (a : Action ι) => a.ofServer = true) ⟨hwired,hopen⟩
      (fun u a u' hu ha hs => (hstep u a u' hu ha hs).1) ha
    exact ⟨tr',s',r',ha,hopen'.waits hnone⟩
  · rintro (hidle | ⟨i,hblocked⟩ | ⟨i,hsending⟩ | hkilled) a ha
    · exact no_step (fun _ => hidle.no_effect) (own_ofServer ha)
    · exact no_step (fun _ => hblocked.no_effect) (own_ofServer ha)
    · exact hsending.no_own_step ha
    · exact killed_no_step hkilled (own_ofServer ha)
  · intro i hblocked tr' s' r' ha
    exact hblocked.run r' ha
  · intro i hsending tr' s' r' ha
    exact hsending.run r' ha
  · intro hgood hidle p hp
    exact hidle.printed (r.guarded (Good clients) (inv_start username message)
      (fun _ _ _ h hg hs => h.step hg hs) hgood) hp

/- Bob connects, and his message comes while the server is waiting for it. -/
def apart : List (Action Unit) :=
  [.connect (),.deliver () 32,.server,.accept 4,.server,.server,.server,.server,.server,
    .deliver () 2048,.server,.sent]

/- The server waits for his name, and for no one; then for his message to be sent back. -/
theorem select_server_rests_bob :
    (∀ tr' s',Run (Server.step fun _ => bob) (runBob (apart.take 4)).2 tr' s' →
      (∀ x ∈ tr',x.2.ofServer = true) → tr'.length ≤ 238) ∧
    (∀ tr' s',Run (Server.step fun _ => bob) (runBob [.connect (),.server,.accept 4]).2 tr' s' →
      (∀ x ∈ tr',x.2.arrivesFrom ≠ some ()) → s'.stdout = []) ∧
    (∀ tr' s',Run (Server.step fun _ => bob) (runBob (apart.take 11)).2 tr' s' →
      (∀ x ∈ tr',x.2 ≠ .sent ∧ x.2 ≠ .sigpipe) → s'.pc = .send 4 () [] [4]) ∧
    (runBob (apart ++ [.server])).2.printedFor 4 =
      [.connected (ascii "bob"),.message (ascii "bob") (ascii "hi")] := by
  have hrun (actions : List (Action Unit))
      (h : (exec (Server.step fun _ => bob) (Server.start (.zero 704) (.zero 2048)) actions).isSome = true) :
      Run (Server.step fun _ => bob) (Server.start (.zero 704) (.zero 2048)) (runBob actions).1
        (runBob actions).2 := runOf_run _ _ _ h
  refine ⟨fun tr' s' r' ha => ?_,fun tr' s' r' ha => ?_,fun tr' s' r' ha => ?_,?_⟩
  · have hbound := ((select_server_rests _ _ _ (hrun (apart.take 4) (by decide +kernel))).1
      (by decide +kernel)).1 tr' s' r' ha
    refine hbound.trans (Nat.le_of_eq ?_)
    decide +kernel
  · have hpc : (runBob [.connect (),.server,.accept 4]).2.readable () = false ∧
        (runBob [.connect (),.server,.accept 4]).2.pc = .readUsername 4 () [] ∧
        (runBob [.connect (),.server,.accept 4]).2.stdout = [] := by decide +kernel
    have hsame := (select_server_rests _ _ _ (hrun [.connect (),.server,.accept 4] (by decide +kernel))).2.2.1
      () ⟨hpc.1,Or.inl ⟨_,_,hpc.2.1⟩⟩ tr' s' r' ha
    exact hsame.2.stdout.trans hpc.2.2
  · have hpc : (runBob (apart.take 11)).2.pc = .send 4 () [] [4] := by decide +kernel
    have hsame := (select_server_rests _ _ _ (hrun (apart.take 11) (by decide +kernel))).2.2.2.1
      () ⟨_,_,_,hpc⟩ tr' s' r' ha
    exact hsame.pc.trans hpc
  · have hidle : Idle (runBob (apart ++ [.server])).2 := by decide +kernel
    have hgood : ∀ x ∈ (runBob (apart ++ [.server])).1,Good (fun _ => bob) x.1 x.2 := by decide +kernel
    have hmem : ((4,()) : Fd × Unit) ∈ (runBob (apart ++ [.server])).2.clientSockets := by decide +kernel
    have hprinted := (select_server_rests _ _ _ (hrun (apart ++ [.server]) (by decide +kernel))).2.2.2.2
    refine (hprinted hgood hidle _ hmem).trans ?_
    decide +kernel

end TcpProjects.ChatSelect
