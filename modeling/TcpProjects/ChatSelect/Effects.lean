import TcpProjects.ChatSelect.Server

/-! # What the select-based server does in a step

The steps of the server apart from those of the clients, one case for each branch of
`runServer`, and what they keep whether or not names and messages come whole. -/

namespace TcpProjects.ChatSelect
open ChatServer Transition

/- The steps of the server. -/
def Action.ofServer {ι : Type*} : Action ι → Bool
  | .accept _ | .failed | .sent | .sigpipe | .server => true
  | .connect _ | .deliver _ _ | .close _ => false

section
variable {ι : Type*} [DecidableEq ι] (clients : ι → Client) (s : Server ι)

/- A socket is put into the list, a name or a text is read, a text is sent back, or the
iterator moves on; behind an empty text it stays. -/
inductive Effect : Action ι → Server ι → Prop
  | accepts (hpc : s.pc = .select) (hpending : s.pending ≠ []) :
      Effect .server (s.goto (.acceptClient s.readfds))
  | reads (hpc : s.pc = .select) (hready : s.readfds ≠ []) :
      Effect .server (s.goto (.readMessages s.clientSockets s.readfds))
  | accepted {newSocket : Fd} {i : ι} {pending : List ι} {readfds : List Fd}
      (hpc : s.pc = .acceptClient readfds) (hpending : s.pending = i :: pending)
      (hfresh : newSocket ∉ s.clientSockets.map Prod.fst) :
      Effect (.accept newSocket) { s with
        pc := .readUsername newSocket i readfds
        pending := pending
        clientSockets := s.clientSockets ++ [(newSocket,i)] }
  | named {newSocket : Fd} {i : ι} {readfds : List Fd} {chunk : Bytes}
      (hpc : s.pc = .readUsername newSocket i readfds) (hread : s.read clients i 22 = some chunk) :
      Effect .server ((((s.consume i chunk).storeUsername newSocket chunk).print newSocket
        (.connected (((s.consume i chunk).storeUsername newSocket chunk).usernameAt newSocket))).goto
          (.readMessages s.clientSockets readfds))
  | passed {readfds : List Fd} (hpc : s.pc = .readMessages [] readfds) : Effect .server (s.goto .select)
  | skipped {clientSocket : Fd} {i : ι} {rest : List (Fd × ι)} {readfds : List Fd}
      (hpc : s.pc = .readMessages ((clientSocket,i) :: rest) readfds) (hnot : clientSocket ∉ readfds) :
      Effect .server (s.goto (.readMessages rest readfds))
  | again {clientSocket : Fd} {i : ι} {rest : List (Fd × ι)} {readfds : List Fd} {chunk : Bytes}
      (hpc : s.pc = .readMessages ((clientSocket,i) :: rest) readfds) (hmem : clientSocket ∈ readfds)
      (hread : s.read clients i 2048 = some chunk) (hempty : cText (s.message.store chunk).val = []) :
      Effect .server { s.consume i chunk with
        message := s.message.store chunk
        pc := .readMessages ((clientSocket,i) :: rest) readfds }
  | printed {clientSocket : Fd} {i : ι} {rest : List (Fd × ι)} {readfds : List Fd} {chunk : Bytes}
      (hpc : s.pc = .readMessages ((clientSocket,i) :: rest) readfds) (hmem : clientSocket ∈ readfds)
      (hread : s.read clients i 2048 = some chunk) (htext : cText (s.message.store chunk).val ≠ []) :
      Effect .server ({ s.consume i chunk with
        message := s.message.store chunk
        pc := .send clientSocket i rest readfds }.print clientSocket
          (.message (s.usernameAt clientSocket) (cText (s.message.store chunk).val)))
  | failed {clientSocket : Fd} {i : ι} {rest : List (Fd × ι)} {readfds : List Fd}
      (hpc : s.pc = .readMessages ((clientSocket,i) :: rest) readfds) (hmem : clientSocket ∈ readfds)
      (hclosed : s.closed i = true) (hend : s.available i = 0) : Effect .failed (s.goto (.readMessages rest readfds))
  | sent {clientSocket : Fd} {i : ι} {rest : List (Fd × ι)} {readfds : List Fd}
      (hpc : s.pc = .send clientSocket i rest readfds) : Effect .sent (s.goto (.readMessages rest readfds))
  | killed {clientSocket : Fd} {i : ι} {rest : List (Fd × ι)} {readfds : List Fd}
      (hpc : s.pc = .send clientSocket i rest readfds) (hclosed : s.closed i = true) : Effect .sigpipe (s.goto .killed)

variable {clients s} {s' : Server ι} {a : Action ι}

theorem runServer_effect (h : s.runServer clients = some s') : Effect clients s .server s' := by
  match hpc : s.pc with
  | .select =>
    rw [Server.runServer,hpc] at h
    change s.runSelect = some s' at h
    unfold Server.runSelect at h
    split_ifs at h with hpending hready
    · obtain rfl := Option.some.inj h
      exact .accepts hpc hpending
    · obtain rfl := Option.some.inj h
      exact .reads hpc hready
  | .acceptClient readfds =>
    rw [Server.runServer,hpc] at h
    cases h
  | .readUsername newSocket i readfds =>
    rw [Server.runServer,hpc] at h
    obtain ⟨chunk,hchunk,rfl⟩ := Option.map_eq_some_iff.mp h
    exact .named hpc hchunk
  | .readMessages [] readfds =>
    rw [Server.runServer,hpc] at h
    obtain rfl := Option.some.inj h
    exact .passed hpc
  | .readMessages ((clientSocket,i) :: rest) readfds =>
    rw [Server.runServer,hpc] at h
    rcases Server.runReadMessages_cases h with ⟨hnot,rfl⟩ | ⟨hmem,chunk,hchunk,⟨hempty,rfl⟩ | ⟨htext,rfl⟩⟩
    · exact .skipped hpc hnot
    · exact .again hpc hmem hchunk hempty
    · exact .printed hpc hmem hchunk htext
  | .send _ _ _ _ =>
    rw [Server.runServer,hpc] at h
    cases h
  | .killed =>
    rw [Server.runServer,hpc] at h
    cases h

theorem step_effect (ha : a.ofServer = true) (h : s.step clients a = some s') : Effect clients s a s' := by
  cases a with
  | connect i => cases ha
  | deliver i n => cases ha
  | close i => cases ha
  | accept newSocket =>
    obtain ⟨i,pending,readfds,hpc,hpending,hfresh,rfl⟩ := Server.acceptClient_some h
    exact .accepted hpc hpending hfresh
  | failed =>
    obtain ⟨clientSocket,i,rest,readfds,hpc,hmem,hclosed,hend,rfl⟩ := Server.readFails_some h
    exact .failed hpc hmem hclosed hend
  | sent =>
    obtain ⟨clientSocket,i,rest,readfds,hpc,rfl⟩ := Server.sendReturns_some h
    exact .sent hpc
  | sigpipe =>
    obtain ⟨clientSocket,i,rest,readfds,hpc,hclosed,rfl⟩ := Server.sendKills_some h
    exact .killed hpc hclosed
  | server => exact runServer_effect h

/-! ### What every step keeps -/

/- The clients whose connection the server has, accepted or not. -/
def Server.present (s : Server ι) : List ι := s.clientSockets.map Prod.snd ++ s.pending

/- Whatever is read. -/
structure Wired (clients : ι → Client) (s : Server ι) : Prop where
  sockets : (s.clientSockets.map Prod.fst).Nodup
  owners : s.present.Nodup
  stream : ∀ i, s.consumed i ≤ s.delivered i ∧ s.delivered i ≤ (clients i).stream.length
  accepting : ∀ readfds, s.pc = .acceptClient readfds → s.pending ≠ []
  naming : ∀ fd i readfds, s.pc = .readUsername fd i readfds → (fd,i) ∈ s.clientSockets
  iterator : ∀ rest readfds, s.pc = .readMessages rest readfds → rest <:+ s.clientSockets
  sending : ∀ fd i rest readfds, s.pc = .send fd i rest readfds → (fd,i) :: rest <:+ s.clientSockets
  killed : s.pc = .killed → ∃ i ∈ s.present, s.closed i = true

omit [DecidableEq ι] in
theorem wired_start (username : Buffer 704) (message : Buffer 2048) :
    Wired clients (Server.start username message : Server ι) where
  sockets := List.nodup_nil
  owners := List.nodup_nil
  stream := fun _ => ⟨Nat.le_refl _,Nat.zero_le _⟩
  accepting := nofun
  naming := nofun
  iterator := nofun
  sending := nofun
  killed := nofun

namespace Wired

/- Nothing is read that has not come, and nothing is left out. -/
omit [DecidableEq ι] in
theorem read_length {i : ι} {size : ℕ} {chunk : Bytes} (h : Wired clients s)
    (hread : s.read clients i size = some chunk) :
    chunk.length = min size (s.available i) ∧ (0 < s.available i ∨ s.closed i = true) := by
  have hstream := h.stream i
  refine ⟨?_,?_⟩
  · rw [Server.read_some hread,List.length_take,List.length_drop]
    unfold Server.available
    omega
  · unfold Server.read at hread
    split_ifs at hread with hready
    rwa [Server.readable,Bool.or_eq_true,decide_eq_true_eq] at hready

omit [DecidableEq ι] in
theorem goto {pc : PC ι} (h : Wired clients s)
    (haccepting : ∀ readfds, pc = .acceptClient readfds → s.pending ≠ [])
    (hnaming : ∀ fd i readfds, pc ≠ .readUsername fd i readfds)
    (hiterator : ∀ rest readfds, pc = .readMessages rest readfds → rest <:+ s.clientSockets)
    (hsending : ∀ fd i rest readfds, pc ≠ .send fd i rest readfds)
    (hkilled : pc = .killed → ∃ i ∈ s.present, s.closed i = true) : Wired clients (s.goto pc) where
  sockets := h.sockets
  owners := h.owners
  stream := h.stream
  accepting := haccepting
  naming fd i readfds he := absurd he (hnaming fd i readfds)
  iterator := hiterator
  sending fd i rest readfds he := absurd he (hsending fd i rest readfds)
  killed := hkilled

theorem consume {i : ι} {size : ℕ} {chunk : Bytes} (h : Wired clients s)
    (hread : s.read clients i size = some chunk) (haccepting : ∀ readfds, s'.pc ≠ .acceptClient readfds)
    (hnaming : ∀ fd i readfds, s'.pc ≠ .readUsername fd i readfds)
    (hiterator : ∀ rest readfds, s'.pc = .readMessages rest readfds → rest <:+ s.clientSockets)
    (hsending : ∀ fd i rest readfds, s'.pc = .send fd i rest readfds → (fd,i) :: rest <:+ s.clientSockets)
    (halive : s'.pc ≠ .killed) (hsockets : s'.clientSockets = s.clientSockets) (hpending : s'.pending = s.pending)
    (hdelivered : s'.delivered = s.delivered)
    (hconsumed : s'.consumed = Function.update s.consumed i (s.consumed i+chunk.length)) :
    Wired clients s' where
  sockets := hsockets ▸ h.sockets
  owners := by
    rw [Server.present,hsockets,hpending]
    exact h.owners
  stream i' := by
    have hold := h.stream i'
    rw [hdelivered,hconsumed]
    by_cases hi : i' = i
    · subst hi
      have hlength := (h.read_length hread).1
      rw [Function.update_self]
      unfold Server.available at hlength
      omega
    · rwa [Function.update_of_ne hi]
  accepting readfds he := absurd he (haccepting readfds)
  naming fd i readfds he := absurd he (hnaming fd i readfds)
  iterator rest readfds he := by
    rw [hsockets]
    exact hiterator rest readfds he
  sending fd i rest readfds he := by
    rw [hsockets]
    exact hsending fd i rest readfds he
  killed he := absurd he halive

/- The iterator is put back, or moves on. -/
omit [DecidableEq ι] in
theorem readMessages {rest : List (Fd × ι)} {readfds : List Fd} (h : Wired clients s)
    (hrest : rest <:+ s.clientSockets) : Wired clients (s.goto (.readMessages rest readfds)) := by
  refine h.goto (fun _ he => by cases he) (fun _ _ _ he => by cases he) (fun rest' readfds' he => ?_)
    (fun _ _ _ _ he => by cases he) (fun he => by cases he)
  obtain ⟨rfl,_⟩ := PC.readMessages.inj he
  exact hrest

theorem effect (h : Wired clients s) (he : Effect clients s a s') : Wired clients s' := by
  cases he with
  | accepts hpc hpending =>
    exact h.goto (fun _ _ => hpending) (fun _ _ _ he => by cases he) (fun _ _ he => by cases he)
      (fun _ _ _ _ he => by cases he) (fun he => by cases he)
  | reads hpc hready => exact h.readMessages List.suffix_rfl
  | @accepted newSocket i pending readfds hpc hpending hfresh =>
    refine ⟨?_,?_,h.stream,(fun _ he => by cases he),fun fd i' readfds' he => ?_,(fun _ _ he => by cases he),
      (fun _ _ _ _ he => by cases he),(fun he => by cases he)⟩
    · rw [List.map_append,List.map_singleton,← List.concat_eq_append]
      exact h.sockets.concat hfresh
    · have howners := h.owners
      rw [Server.present,hpending] at howners
      rw [Server.present,List.map_append,List.map_singleton,List.append_assoc]
      exact howners
    · obtain ⟨rfl,rfl,_⟩ := PC.readUsername.inj he
      exact List.mem_append_right _ (List.mem_singleton_self _)
  | named hpc hread =>
    refine h.consume hread (fun _ he => by cases he) (fun _ _ _ he => by cases he) (fun rest readfds he => ?_)
      (fun _ _ _ _ he => by cases he) (fun he => by cases he) rfl rfl rfl rfl
    obtain ⟨rfl,_⟩ := PC.readMessages.inj he
    exact List.suffix_rfl
  | passed hpc =>
    exact h.goto (fun _ he => by cases he) (fun _ _ _ he => by cases he) (fun _ _ he => by cases he)
      (fun _ _ _ _ he => by cases he) (fun he => by cases he)
  | skipped hpc hnot => exact h.readMessages ((List.suffix_cons _ _).trans (h.iterator _ _ hpc))
  | again hpc hmem hread hempty =>
    refine h.consume hread (fun _ he => by cases he) (fun _ _ _ he => by cases he) (fun rest readfds he => ?_)
      (fun _ _ _ _ he => by cases he) (fun he => by cases he) rfl rfl rfl rfl
    obtain ⟨rfl,_⟩ := PC.readMessages.inj he
    exact h.iterator _ _ hpc
  | printed hpc hmem hread htext =>
    refine h.consume hread (fun _ he => by cases he) (fun _ _ _ he => by cases he)
      (fun _ _ he => by cases he) (fun fd i rest readfds he => ?_) (fun he => by cases he) rfl rfl rfl rfl
    obtain ⟨rfl,rfl,rfl,_⟩ := PC.send.inj he
    exact h.iterator _ _ hpc
  | failed hpc hmem hclosed hend => exact h.readMessages ((List.suffix_cons _ _).trans (h.iterator _ _ hpc))
  | sent hpc => exact h.readMessages ((List.suffix_cons _ _).trans (h.sending _ _ _ _ hpc))
  | killed hpc hclosed =>
    refine h.goto (fun _ he => by cases he) (fun _ _ _ he => by cases he) (fun _ _ he => by cases he)
      (fun _ _ _ _ he => by cases he) fun _ => ⟨_,?_,hclosed⟩
    exact List.mem_append_left _ (List.mem_map_of_mem ((h.sending _ _ _ _ hpc).subset List.mem_cons_self))

theorem step (h : Wired clients s) (hs : s.step clients a = some s') : Wired clients s' := by
  cases a with
  | accept newSocket => exact h.effect (step_effect rfl hs)
  | failed => exact h.effect (step_effect rfl hs)
  | sent => exact h.effect (step_effect rfl hs)
  | sigpipe => exact h.effect (step_effect rfl hs)
  | server => exact h.effect (step_effect rfl hs)
  | connect i =>
    rw [Server.step] at hs
    split_ifs at hs with hi
    obtain rfl := Option.some.inj hs
    rw [Server.connected,Bool.or_eq_true,decide_eq_true_eq,decide_eq_true_eq,not_or] at hi
    have hkilled (he : s.pc = .killed) : ∃ i' ∈ s.clientSockets.map Prod.snd ++ (s.pending ++ [i]),
        s.closed i' = true := by
      obtain ⟨i',hi',hclosed⟩ := h.killed he
      rw [← List.append_assoc]
      exact ⟨i',List.mem_append_left _ hi',hclosed⟩
    refine ⟨h.sockets,?_,h.stream,fun _ _ => by simp,h.naming,h.iterator,h.sending,hkilled⟩
    change (s.clientSockets.map Prod.snd ++ (s.pending ++ [i])).Nodup
    rw [← List.append_assoc,← List.concat_eq_append]
    refine List.Nodup.concat (fun hmem => ?_) h.owners
    rcases List.mem_append.mp hmem with hmem | hmem
    · exact hi.2 hmem
    · exact hi.1 hmem
  | deliver i n =>
    rw [Server.step] at hs
    split_ifs at hs with hi
    obtain rfl := Option.some.inj hs
    refine ⟨h.sockets,h.owners,fun i' => ?_,h.accepting,h.naming,h.iterator,h.sending,h.killed⟩
    have hold := h.stream i'
    change s.consumed i' ≤ Function.update s.delivered i _ i' ∧ Function.update s.delivered i _ i' ≤ _
    by_cases he : i' = i
    · subst he
      rw [Function.update_self]
      omega
    · rwa [Function.update_of_ne he]
  | close i =>
    rw [Server.step] at hs
    split_ifs at hs with hi
    obtain rfl := Option.some.inj hs
    refine ⟨h.sockets,h.owners,h.stream,h.accepting,h.naming,h.iterator,h.sending,fun he => ?_⟩
    obtain ⟨i',hi',hclosed⟩ := h.killed he
    refine ⟨i',hi',?_⟩
    change Function.update s.closed i true i' = true
    by_cases hi : i' = i
    · rw [hi,Function.update_self]
    · rwa [Function.update_of_ne hi]

end Wired

theorem run_wired {username : Buffer 704} {message : Buffer 2048} {tr : List (Server ι × Action ι)}
    (r : Run (Server.step clients) (Server.start username message) tr s) : Wired clients s :=
  r.invariant (wired_start username message) fun _ _ _ h hs => h.step hs

end

end TcpProjects.ChatSelect
