import TcpProjects.ChatSelect.Rest

/-! # A client that has closed

`disconnectSocket` is never called: the socket of a client that has closed stays in the list,
and `select` reports it for ever. A pass prints once more, under the name of that client,
what the shared array holds, and sends it to the client, which can end the server; where
the array holds no text, the pass never ends. -/

namespace TcpProjects.ChatSelect
open ChatServer Transition

variable {ι : Type*} [DecidableEq ι] {clients : ι → Client} {s s' : Server ι} {a : Action ι}
  {fd : Fd} {i : ι}

/- The whole stream of client `i` was read, and the client has closed. -/
structure Gone (clients : ι → Client) (s : Server ι) (fd : Fd) (i : ι) : Prop where
  wired : Wired clients s
  listed : (fd,i) ∈ s.clientSockets
  closed : s.closed i = true
  ended : s.consumed i = (clients i).stream.length

namespace Gone

omit [DecidableEq ι] in
theorem available (h : Gone clients s fd i) : s.available i = 0 := by
  have hstream := h.wired.stream i
  have hended := h.ended
  unfold Server.available
  omega

omit [DecidableEq ι] in
theorem readable (h : Gone clients s fd i) : s.readable i = true := by
  rw [Server.readable,h.closed,Bool.or_true]

omit [DecidableEq ι] in
theorem reported (h : Gone clients s fd i) : fd ∈ s.readfds :=
  List.mem_map.mpr ⟨(fd,i),List.mem_filter.mpr ⟨h.listed,h.readable⟩,rfl⟩

omit [DecidableEq ι] in
theorem read (h : Gone clients s fd i) (size : ℕ) : s.read clients i size = some [] := by
  rw [Server.read,if_pos h.readable,h.available,Nat.min_zero,List.take_zero]

/- A socket that was read from has one client. -/
omit [DecidableEq ι] in
theorem owner (h : Gone clients s fd i) {i' : ι} (hp : (fd,i') ∈ s.clientSockets) : i' = i :=
  congrArg Prod.snd (List.inj_on_of_nodup_map h.wired.sockets hp h.listed rfl)

theorem effect (h : Gone clients s fd i) (he : Effect clients s a s') : Gone clients s' fd i := by
  have hwired := h.wired.effect he
  have hkept {chunk : Bytes} {i' : ι} {size : ℕ} (hread : s.read clients i' size = some chunk) :
      Function.update s.consumed i' (s.consumed i'+chunk.length) i = (clients i).stream.length := by
    by_cases hi : i = i'
    · subst hi
      obtain rfl := Option.some.inj ((h.read size).symm.trans hread)
      rw [Function.update_self,List.length_nil,Nat.add_zero,h.ended]
    · rw [Function.update_of_ne hi,h.ended]
  cases he with
  | accepted hpc hpending hfresh => exact ⟨hwired,List.mem_append_left _ h.listed,h.closed,h.ended⟩
  | named hpc hread => exact ⟨hwired,h.listed,h.closed,hkept hread⟩
  | again hpc hmem hread hempty => exact ⟨hwired,h.listed,h.closed,hkept hread⟩
  | printed hpc hmem hread htext => exact ⟨hwired,h.listed,h.closed,hkept hread⟩
  | _ => exact ⟨hwired,h.listed,h.closed,h.ended⟩

theorem step (h : Gone clients s fd i) (hs : s.step clients a = some s') : Gone clients s' fd i := by
  cases hserver : a.ofServer with
  | true => exact h.effect (step_effect hserver hs)
  | false =>
    have hsame := step_same hserver hs
    refine ⟨h.wired.step hs,hsame.clientSockets ▸ h.listed,?_,hsame.consumed ▸ h.ended⟩
    cases a with
    | accept newSocket | failed | sent | sigpipe | server => cases hserver
    | connect i' =>
      rw [Server.step] at hs
      split_ifs at hs
      obtain rfl := Option.some.inj hs
      exact h.closed
    | deliver i' n =>
      rw [Server.step] at hs
      split_ifs at hs
      obtain rfl := Option.some.inj hs
      exact h.closed
    | close i' =>
      rw [Server.step] at hs
      split_ifs at hs
      obtain rfl := Option.some.inj hs
      change Function.update s.closed i' true i = true
      by_cases hi : i = i'
      · rw [hi,Function.update_self]
      · rw [Function.update_of_ne hi,h.closed]

theorem run {tr : List (Server ι × Action ι)} (h : Gone clients s fd i)
    (r : Run (Server.step clients) s tr s') : Gone clients s' fd i :=
  r.invariant (I := fun u => Gone clients u fd i) h fun _ _ _ hu hs => hu.step hs

/- The server never waits in `select` again. -/
theorem waits (h : Gone clients s fd i) (hnone : ∀ a : Action ι,a.ownStep = true → s.step clients a = none) :
    (∃ j,j ≠ i ∧ Blocked s j) ∨ (∃ j,Sending s j) ∨ s.pc = .killed := by
  rcases h.wired.waits hnone with ⟨_,_,hquiet⟩ | ⟨j,hblocked⟩ | hother
  · cases (hquiet _ h.listed).symm.trans h.readable
  · refine Or.inl ⟨j,fun hj => ?_,hblocked⟩
    rw [hj] at hblocked
    cases hblocked.1.symm.trans h.readable
  · exact Or.inr hother

end Gone

/-! ### One line in each pass -/

/- The step that ends a pass over the list. -/
def endsPass (x : Server ι × Action ι) : Bool :=
  match x.1.pc,x.2 with
  | .readMessages [] _,.server => true
  | _,_ => false

/- A `read` of the socket that fails. -/
def failsAt (fd : Fd) (x : Server ι × Action ι) : Bool :=
  match x.1.pc,x.2 with
  | .readMessages ((fd',_) :: _) _,.failed => fd' = fd
  | _,_ => false

def passes (tr : List (Server ι × Action ι)) : ℕ := tr.countP endsPass
def failures (fd : Fd) (tr : List (Server ι × Action ι)) : ℕ := tr.countP (failsAt fd)

/- Whether the pass may end before the client is read. -/
def unowed (s : Server ι) (fd : Fd) (i : ι) : ℕ :=
  match s.pc with
  | .select | .killed => 0
  | .acceptClient readfds | .readUsername _ _ readfds => if fd ∈ readfds then 0 else 1
  | .readMessages rest readfds | .send _ _ rest readfds => if (fd,i) ∈ rest ∧ fd ∈ readfds then 0 else 1

theorem unowed_le (s : Server ι) (fd : Fd) (i : ι) : unowed s fd i ≤ 1 := by
  unfold unowed
  split <;> (try split_ifs) <;> omega

omit [DecidableEq ι] in
theorem printed_length (s : Server ι) (fd' : Fd) (line : Output) :
    ((s.print fd' line).printedFor fd).length = (s.printedFor fd).length+if fd = fd' then 1 else 0 := by
  by_cases h : fd = fd'
  · rw [h,printedFor_self,List.length_append,if_pos rfl]
    rfl
  · rw [printedFor_other h,if_neg h]
    rfl

theorem unowed_reading {rest : List (Fd × ι)} {readfds : List Fd} (hpc : s.pc = .readMessages rest readfds) :
    unowed s fd i = if (fd,i) ∈ rest ∧ fd ∈ readfds then 0 else 1 := by
  rw [unowed,hpc]

theorem unowed_sending {fd' : Fd} {i' : ι} {rest : List (Fd × ι)} {readfds : List Fd}
    (hpc : s.pc = .send fd' i' rest readfds) :
    unowed s fd i = if (fd,i) ∈ rest ∧ fd ∈ readfds then 0 else 1 := by
  rw [unowed,hpc]

omit [DecidableEq ι] in
theorem endsPass_false (h : (∀ readfds,s.pc ≠ .readMessages [] readfds) ∨ a ≠ .server) :
    endsPass (s,a) = false := by
  unfold endsPass
  split
  · next hpc ha => exact h.elim (fun hno => absurd hpc (hno _)) fun hno => absurd ha hno
  · rfl

omit [DecidableEq ι] in
theorem mem_rest {fd' : Fd} {i' : ι} {rest : List (Fd × ι)} (hfd : fd ≠ fd') :
    (fd,i) ∈ (fd',i') :: rest ↔ (fd,i) ∈ rest := by
  rw [List.mem_cons]
  exact or_iff_right fun he => hfd (Prod.mk.inj he).1

/- A pass that ends has printed a line for the client, its `read` has failed, or it began
before. -/
def Owes (s s' : Server ι) (a : Action ι) (fd : Fd) (i : ι) : Prop :=
  (if endsPass (s,a) then 1 else 0)+unowed s' fd i+(s.printedFor fd).length ≤
    (s'.printedFor fd).length+unowed s fd i+(if failsAt fd (s,a) then 1 else 0)

theorem owes_of (hends : endsPass (s,a) = false) (hnow : unowed s' fd i ≤ unowed s fd i)
    (hlines : s'.printedFor fd = s.printedFor fd) : Owes s s' a fd i := by
  rw [Owes,hends,hlines]
  simp only [Bool.false_eq_true,if_false]
  omega

theorem Gone.owes (h : Gone clients s fd i) (he : Effect clients s a s') : Owes s s' a fd i := by
  cases he with
  | accepts hpc hpending =>
    exact owes_of (endsPass_false (Or.inl (by simp [hpc])))
      (Nat.le_trans (Nat.le_of_eq (if_pos h.reported)) (Nat.zero_le _)) rfl
  | reads hpc hready =>
    exact owes_of (endsPass_false (Or.inl (by simp [hpc])))
      (Nat.le_trans (Nat.le_of_eq (if_pos ⟨h.listed,h.reported⟩)) (Nat.zero_le _)) rfl
  | @accepted newSocket i' pending readfds hpc hpending hfresh =>
    refine owes_of (endsPass_false (Or.inl (by simp [hpc]))) ?_ rfl
    rw [unowed,unowed,hpc]
  | @named newSocket i' readfds chunk hpc hread =>
    have hbefore : unowed s fd i = if fd ∈ readfds then 0 else 1 := by rw [unowed,hpc]
    rw [Owes,endsPass_false (Or.inl (by simp [hpc])),hbefore,unowed_reading rfl]
    simp only [h.listed,true_and]
    change _ ≤ ((Server.print _ _ _).printedFor fd).length+_+_
    rw [printed_length]
    change 0+_+_ ≤ (s.printedFor fd).length+_+_+_
    omega
  | passed hpc =>
    have hbefore : unowed s fd i = 1 := (unowed_reading hpc).trans (if_neg (by simp))
    rw [Owes,hbefore]
    change _+0+_ ≤ (s.printedFor fd).length+1+_
    split_ifs <;> omega
  | @skipped fd' i' rest readfds hpc hnot =>
    refine owes_of (endsPass_false (Or.inl (by simp [hpc]))) ?_ rfl
    rw [unowed_reading hpc,unowed_reading rfl]
    have hsame : ((fd,i) ∈ (fd',i') :: rest ∧ fd ∈ readfds) ↔ ((fd,i) ∈ rest ∧ fd ∈ readfds) :=
      and_congr_left fun hmem => mem_rest fun he => hnot (he ▸ hmem)
    simp only [hsame]
    exact Nat.le_refl _
  | @again fd' i' rest readfds chunk hpc hmem hread hempty =>
    refine owes_of (endsPass_false (Or.inl (by simp [hpc]))) ?_ rfl
    rw [unowed_reading hpc,unowed_reading rfl]
  | @printed fd' i' rest readfds chunk hpc hmem hread htext =>
    by_cases hfd : fd = fd'
    · rw [Owes,endsPass_false (Or.inl (by simp [hpc]))]
      have hle := unowed_le (s := ({ s.consume i' chunk with
        message := s.message.store chunk
        pc := .send fd' i' rest readfds } : Server ι).print fd'
          (.message (s.usernameAt fd') (cText (s.message.store chunk).val))) fd i
      change 0+_+_ ≤ ((Server.print _ _ _).printedFor fd).length+_+_
      rw [printed_length,if_pos hfd]
      change 0+_+_ ≤ (s.printedFor fd).length+1+_+_
      omega
    · refine owes_of (endsPass_false (Or.inl (by simp [hpc]))) ?_ (printedFor_other hfd)
      rw [unowed_reading hpc,unowed_sending rfl]
      simp only [mem_rest hfd]
      exact Nat.le_refl _
  | @failed fd' i' rest readfds hpc hmem hclosed hend =>
    by_cases hfd : fd = fd'
    · have hfails : failsAt fd (s,Action.failed) = true := by simp [failsAt,hpc,hfd]
      have hle := unowed_le (s.goto (.readMessages rest readfds)) fd i
      rw [Owes,endsPass_false (Or.inr (by simp)),hfails]
      change 0+_+_ ≤ (s.printedFor fd).length+_+1
      omega
    · refine owes_of (endsPass_false (Or.inr (by simp))) ?_ rfl
      rw [unowed_reading hpc,unowed_reading rfl]
      simp only [mem_rest hfd]
      exact Nat.le_refl _
  | @sent fd' i' rest readfds hpc =>
    refine owes_of (endsPass_false (Or.inr (by simp))) ?_ rfl
    rw [unowed_sending hpc,unowed_reading rfl]
  | killed hpc hclosed => exact owes_of (endsPass_false (Or.inr (by simp))) (Nat.zero_le _) rfl

theorem Gone.owes_step (h : Gone clients s fd i) (hs : s.step clients a = some s') : Owes s s' a fd i := by
  cases hserver : a.ofServer with
  | true => exact h.owes (step_effect hserver hs)
  | false =>
    have hsame := step_same hserver hs
    refine owes_of (endsPass_false (Or.inr fun he => ?_)) ?_ (by rw [Server.printedFor,hsame.stdout]; rfl)
    · rw [he] at hserver
      cases hserver
    · rw [unowed,unowed,hsame.pc]

/- Every pass that begins behind the end of the client prints one more line for it, or its
`read` fails. -/
theorem Gone.passes_le {tr : List (Server ι × Action ι)} (h : Gone clients s fd i)
    (r : Run (Server.step clients) s tr s') :
    passes tr+unowed s' fd i+(s.printedFor fd).length ≤
      (s'.printedFor fd).length+unowed s fd i+failures fd tr := by
  induction r with
  | start => exact Nat.le_of_eq (by rw [passes,failures,List.countP_nil,List.countP_nil]; omega)
  | @next tr u a u' r hs ih =>
    have hone := (h.run r).owes_step hs
    unfold Owes at hone
    rw [passes,failures,List.countP_append,List.countP_append,List.countP_singleton,List.countP_singleton]
    unfold passes failures at ih
    omega

/-! ### A pass that never ends -/

/- The iterator is at the client, and the array holds no text. -/
def Stuck (s : Server ι) (fd : Fd) (i : ι) : Prop :=
  (∃ rest readfds,s.pc = .readMessages ((fd,i) :: rest) readfds ∧ fd ∈ readfds) ∧
    cText s.message.val = []

/- The server reads the end of the stream again, or is told that the connection was reset. -/
theorem Stuck.step (h : Stuck s fd i) (hgone : Gone clients s fd i) (ha : a ≠ .failed)
    (hs : s.step clients a = some s') : Stuck s' fd i ∧ Same s s' := by
  obtain ⟨⟨rest,readfds,hpc,hmem⟩,htext⟩ := h
  cases hserver : a.ofServer with
  | false =>
    have hsame := step_same hserver hs
    refine ⟨⟨⟨rest,readfds,hsame.pc.trans hpc,hmem⟩,?_⟩,hsame⟩
    cases a with
    | accept newSocket | failed | sent | sigpipe | server => cases hserver
    | connect i' | deliver i' n | close i' =>
      rw [Server.step] at hs
      split_ifs at hs
      obtain rfl := Option.some.inj hs
      exact htext
  | true =>
    have hend {fd' : Fd} {i' : ι} {rest' : List (Fd × ι)} {readfds' : List Fd}
        (hpc' : s.pc = .readMessages ((fd',i') :: rest') readfds') :
        fd' = fd ∧ i' = i ∧ rest' = rest ∧ readfds' = readfds := by
      obtain ⟨hiterator,hfds⟩ := PC.readMessages.inj (hpc'.symm.trans hpc)
      obtain ⟨hhead,hrest⟩ := List.cons.inj hiterator
      exact ⟨(Prod.mk.inj hhead).1,(Prod.mk.inj hhead).2,hrest,hfds⟩
    cases step_effect hserver hs with
    | again hpc' hmem' hread hempty =>
      obtain ⟨rfl,rfl,rfl,rfl⟩ := hend hpc'
      obtain rfl := Option.some.inj ((hgone.read 2048).symm.trans hread)
      refine ⟨⟨⟨_,_,rfl,hmem⟩,hempty⟩,hpc.symm,rfl,?_,rfl⟩
      exact Function.update_eq_self_iff.mpr rfl
    | printed hpc' hmem' hread hprinted =>
      obtain ⟨rfl,rfl,rfl,rfl⟩ := hend hpc'
      obtain rfl := Option.some.inj ((hgone.read 2048).symm.trans hread)
      rw [store_nil] at hprinted
      exact absurd htext hprinted
    | skipped hpc' hnot =>
      obtain ⟨rfl,rfl,rfl,rfl⟩ := hend hpc'
      exact absurd hmem hnot
    | failed => exact absurd rfl ha
    | passed hpc' | sent hpc' => cases hpc'.symm.trans hpc
    | accepts hpc' _ | reads hpc' _ | accepted hpc' _ _ | named hpc' _ | killed hpc' _ =>
      cases hpc'.symm.trans hpc

theorem Stuck.run {tr : List (Server ι × Action ι)} (h : Stuck s fd i) (hgone : Gone clients s fd i)
    (r : Run (Server.step clients) s tr s') (ha : ∀ x ∈ tr,x.2 ≠ .failed) : Same s s' := by
  refine (r.guarded (I := fun u => (Stuck u fd i ∧ Gone clients u fd i) ∧ Same s u) (fun _ a => a ≠ .failed)
    ⟨⟨h,hgone⟩,rfl,rfl,rfl,rfl⟩ ?_ ha).2
  rintro u a u' ⟨⟨hu,hugone⟩,hsame⟩ ha hs
  obtain ⟨hu',hnext⟩ := hu.step hugone ha hs
  exact ⟨⟨hu',hugone.step hs⟩,hsame.trans hnext⟩

/- Behind the signal nothing is done. -/
theorem killed_run {tr : List (Server ι × Action ι)} (hpc : s.pc = .killed)
    (r : Run (Server.step clients) s tr s') : Same s s' := by
  refine (r.invariant (I := fun u => u.pc = .killed ∧ Same s u) ⟨hpc,rfl,rfl,rfl,rfl⟩ ?_).2
  rintro u a u' ⟨hu,hsame⟩ hs
  cases hserver : a.ofServer with
  | true => cases (killed_no_step hu hserver).symm.trans hs
  | false =>
    have hnext := step_same hserver hs
    exact ⟨hnext.pc.trans hu,hsame.trans hnext⟩

/-- A client that has closed, and of which the server has read everything, stays in the list
for ever, and `select` reports it. Every further pass over the list prints one more line in
the name of that client, unless a `read` of it fails; each such line is sent to it, where
`SIGPIPE` can end the server, and behind that nothing is done. A pass that comes to it with
no text in the array never ends as long as no `read` fails, so that nothing more is read
from anyone. -/
theorem closed_client_kept (clients : ι → Client) (username : Buffer 704) (message : Buffer 2048)
    {tr : List (Server ι × Action ι)} {s : Server ι}
    (r : Run (Server.step clients) (Server.start username message) tr s) {fd : Fd} {i : ι}
    (hlisted : (fd,i) ∈ s.clientSockets) (hclosed : s.closed i = true)
    (hended : s.consumed i = (clients i).stream.length) {tr' : List (Server ι × Action ι)}
    {s' : Server ι} (r' : Run (Server.step clients) s tr' s') :
    (fd,i) ∈ s'.clientSockets ∧ fd ∈ s'.readfds ∧
    ((∀ a : Action ι,a.ownStep = true → s'.step clients a = none) →
      (∃ j,j ≠ i ∧ Blocked s' j) ∨ (∃ j,Sending s' j) ∨ s'.pc = .killed) ∧
    passes tr'+(s.printedFor fd).length ≤ (s'.printedFor fd).length+failures fd tr'+1 ∧
    (Sending s' i → ∃ u,s'.step clients .sigpipe = some u ∧ u.pc = .killed) ∧
    (s'.pc = .killed → ∀ tr'' s'',Run (Server.step clients) s' tr'' s'' → Same s' s'') ∧
    (Stuck s' fd i → (s'.runServer clients).isSome = true ∧
      ∀ tr'' s'',Run (Server.step clients) s' tr'' s'' → (∀ x ∈ tr'',x.2 ≠ .failed) → Same s' s'') := by
  have hgone : Gone clients s fd i := ⟨run_wired r,hlisted,hclosed,hended⟩
  have hnow := hgone.run r'
  refine ⟨hnow.listed,hnow.reported,hnow.waits,?_,fun hsending => ?_,
    fun hpc tr'' s'' r'' => killed_run hpc r'',fun hstuck => ⟨?_,fun tr'' s'' r'' => hstuck.run hnow r''⟩⟩
  · have hpasses := hgone.passes_le r'
    have hle := unowed_le s fd i
    omega
  · obtain ⟨fd',rest,readfds,hpc⟩ := hsending
    refine ⟨s'.goto .killed,?_,rfl⟩
    rw [Server.step,Server.sendKills,hpc]
    exact if_pos hnow.closed
  · obtain ⟨rest,readfds,hpc,hmem⟩ := hstuck.1
    rw [Server.runServer,hpc]
    change (s'.runReadMessages clients readfds ((fd,i) :: rest)).isSome = true
    rw [Server.runReadMessages,if_pos hmem,hnow.read]
    rfl

/- Bob has closed behind his message. A pass later it is printed and sent once more, then his
connection is reset, and another pass later the server is killed. -/
def gone : List (Action Unit) := apart ++ [.server,.close ()]

theorem closed_client_kept_bob :
    (let s := (runBob (gone ++ [.server,.server,.sent,.server,.server,.failed,.server,.server,.server,
      .sigpipe])).2
    s.pc = .killed ∧ s.printedFor 4 = [.connected (ascii "bob"),.message (ascii "bob") (ascii "hi"),
      .message (ascii "bob") (ascii "hi"),.message (ascii "bob") (ascii "hi")]) ∧
    ∀ tr' s',Run (Server.step fun _ => bob) (runBob gone).2 tr' s' →
      passes tr'+2 ≤ (s'.printedFor 4).length+failures 4 tr'+1 := by
  refine ⟨by decide +kernel,fun tr' s' r' => ?_⟩
  have r : Run (Server.step fun _ => bob) (Server.start (.zero 704) (.zero 2048)) (runBob gone).1
    (runBob gone).2 := runOf_run _ _ _ (by decide +kernel)
  have hlisted : ((4,()) : Fd × Unit) ∈ (runBob gone).2.clientSockets := by decide +kernel
  have hlines : ((runBob gone).2.printedFor 4).length = 2 := by decide +kernel
  have hkept := closed_client_kept _ _ _ r hlisted (by decide +kernel) (by decide +kernel) r'
  rw [hlines] at hkept
  exact hkept.2.2.2.1

end TcpProjects.ChatSelect
