import TcpProjects.ChatServer.Reactions
import TcpProjects.ChatServer.Rest

/-! # What a departed client does to the server

`sendData` throws when `send` returns -1, and neither `distributeData` nor
`socketThread` catches, so the exception leaves the thread and the process ends.
When sends fail only towards peers that have gone away, the process survives a
run exactly if no send of the run was made to such a peer. -/

namespace TcpProjects.ChatServer
open Transition Locking

/- The connection a step sends to, from `distributeData` or from `sendEvent`. -/
def sentTo (x : State × Action) : Option ℕ :=
  match x.2 with
  | .client k (.sent _) => (x.1.thread k).bind fun t =>
    match t.pc with
    | .distribute _ (.loop (some it)) => x.1.shared.connectionAt it
    | .sendEvent => x.1.shared.connectionAt t.socket
    | _ => none
  | _ => none

/- `send` returns -1 exactly if the peer has gone away, and `close` succeeds. -/
def conforms (x : State × Action) : Bool :=
  match x.2 with
  | .client _ (.sent r) => (sentTo x).all fun c => r.isNone = x.1.gone c
  | .client _ (.closed ok) => ok
  | _ => true

def sendsAlive (x : State × Action) : Bool := (sentTo x).all fun c => !x.1.gone c

section Step
variable {m : Fd} {s s' : State} {a : Action}

theorem sentTo_some {k : ℕ} {t : SocketThread} {r : Option ℕ} (hs : Safe m s) (hk : Keys m s)
    (ht : s.thread k = some t) (h : Step s (.client k (.sent r)) s') :
    ∃ c, sentTo (s,.client k (.sent r)) = some c := by
  have own (hpc : t.pc = .sendEvent) : ∃ c, sentTo (s,.client k (.sent r)) = some c := by
    have hopen := hs.ownership.table_of_open ht (by rw [hpc]; rfl)
    exact ⟨k,by simpa [sentTo,ht,hpc] using Shared.connectionAt_eq_some.mpr hopen⟩
  have broadcast {p : Payload} {it : Fd} (hpc : t.pc = .distribute p (.loop (some it))) :
      ∃ c, sentTo (s,.client k (.sent r)) = some c := by
    obtain ⟨c,hc⟩ := sendTarget_open hs hk h (by simp [sendTarget,ht,hpc] : _ = some it)
    exact ⟨c,by simpa [sentTo,ht,hpc] using Shared.connectionAt_eq_some.mpr hc⟩
  cases h with
  | @client _ u _ g pc _ hu hst =>
    cases ht.symm.trans hu
    cases hst with
    | sendData hpc => exact broadcast hpc
    | sendThrow hpc => exact broadcast hpc
    | sendEvent hpc => exact own hpc
    | eventThrow hpc => exact own hpc

theorem terminated_effect (hs : Safe m s) (hk : Keys m s) (h : Step s a s')
    (hconf : conforms (s,a) = true) :
    s'.shared.terminated = (s.shared.terminated || !sendsAlive (s,a)) := by
  cases h with
  | acceptor _ ha =>
    cases ha <;> simp [sendsAlive,sentTo]
  | leave => simp [sendsAlive,sentTo]
  | @client k t ans g pc hrun ht hst =>
    have hsend {r : Option ℕ} (hr : ans = .sent r) : sendsAlive (s,.client k ans) = r.isSome := by
      subst hr
      obtain ⟨c,hc⟩ := sentTo_some hs hk ht (.client hrun ht hst)
      have hgone : r.isNone = s.gone c := by simpa [conforms,hc] using hconf
      rw [sendsAlive,hc,Option.all_some,← hgone]
      cases r <;> rfl
    rw [State.advance_shared,hrun,Bool.false_or]
    cases hst with
    | sendData hpc | sendEvent hpc => rw [hsend rfl,hrun]; rfl
    | sendThrow hpc | eventThrow hpc => rw [hsend rfl]; rfl
    | closeThrow hpc => cases hconf
    | _ => simpa [sendsAlive,sentTo] using hrun

end Step

theorem thread_untouched {s s' : State} {k j : ℕ} {ans : Answer}
    (h : Step s (.client k ans) s') (hj : j ≠ k) : s'.thread j = s.thread j := by
  cases h with
  | client _ _ _ => exact s.advance_other _ _ _ hj

theorem terminated_run {m : Fd} {addr : SockaddrIn} {tr : List (State × Action)} {s : State}
    (r : Run step (initial m addr) tr s) (hconf : ∀ x ∈ tr, conforms x = true) :
    s.shared.terminated = false ↔ ∀ x ∈ tr, sendsAlive x = true := by
  induction r with
  | start => simp [initial]
  | @next tr s a s' r h ih =>
    have hold := ih fun x hx => hconf x (List.mem_append_left _ hx)
    have hlast := hconf (s,a) (List.mem_append_right _ (List.mem_singleton_self _))
    obtain ⟨hs,hk⟩ := run_keys r
    rw [terminated_effect hs hk (step_cases h) hlast,Bool.or_eq_false_iff,hold]
    simp only [List.mem_append,List.mem_singleton,or_imp,forall_and,forall_eq,Bool.not_eq_false']

/- A thread waits at most for a mutex, whose owner does not wait. -/
theorem thread_goes_on {m : Fd} {addr : SockaddrIn} {tr : List (State × Action)} {s : State}
    (r : Run step (initial m addr) tr s) (hrun : s.shared.terminated = false) {k : ℕ} {t : SocketThread}
    (ht : s.thread k = some t) (hlive : t.pc ≠ .finished) :
    (∃ ans s', step s (.client k ans) = some s') ∨
      ∃ b, WaitsFor s.shared.owner s.wants (.client k) b ∧ ∃ ans s', step s (b.action ans) = some s' := by
  have hwants : s.wants (.client k) = t.pc.wants := by simp only [State.wants,ht,Option.bind_some]
  cases hw : t.pc.wants with
  | none => exact Or.inl (step_enabled hrun (hwants.trans hw) fun j hj => by cases hj; exact ⟨t,ht,hlive⟩)
  | some μ =>
    cases ho : s.shared.owner μ with
    | some b => exact Or.inr ⟨b,⟨μ,hwants.trans hw,ho⟩,(owner_goes_on r ho).2 hrun⟩
    | none =>
      have hread : t.pc ≠ .read := fun hpc => by
        rw [hpc] at hw
        cases hw
      obtain ⟨ans,u,_,h⟩ := socketThread_goes_on (k := k) (g := s.shared) (fun ν hν => by
        obtain rfl := Option.some.inj (hw.symm.trans hν)
        exact ho) hread hlive
      exact Or.inl ⟨ans,_,by simp [step,hrun,ht,h]; rfl⟩

/-- With sends that fail exactly towards departed peers: the process is alive, and
no step of a thread has moved another one, exactly if no send of the run was made
to a peer that had gone away. While it is alive, a thread that has ended owns no
mutex, and every other thread has a step, or waits for a mutex whose owner has one. -/
theorem server_survives {m : Fd} {addr : SockaddrIn} {tr : List (State × Action)} {s : State}
    (r : Run step (initial m addr) tr s) (hconf : ∀ x ∈ tr, conforms x = true) :
    ((s.shared.terminated = false ∧ ∀ i u k ans, tr[i]? = some (u,.client k ans) →
      ∀ j ≠ k, (stateAt tr s (i+1)).thread j = u.thread j) ↔
    ∀ x ∈ tr, sendsAlive x = true) ∧
    (s.shared.terminated = false → ∀ k t, s.thread k = some t →
      (t.pc = .finished → ∀ μ, s.shared.owner μ ≠ some (.client k)) ∧
      (t.pc ≠ .finished → (∃ ans s', step s (.client k ans) = some s') ∨
        ∃ b, WaitsFor s.shared.owner s.wants (.client k) b ∧
          ∃ ans s', step s (b.action ans) = some s')) := by
  rw [← terminated_run r hconf]
  refine ⟨⟨fun h => h.1,fun h => ⟨h,fun i u k ans hi j hj => ?_⟩⟩,fun hrun k t ht => ⟨fun hpc μ ho => ?_,?_⟩⟩
  · exact thread_untouched (step_cases (r.step_at hi)) hj
  · exact finished_holds_nothing ht hpc ((run_guards r μ _).mp ho)
  · exact thread_goes_on r hrun ht

/- Two clients join. The first goes away, and its thread reads the end of the stream and
deregisters it; the second then says `hi`. -/
def orderlyLeave : List Action :=
  acceptOn 4 ++
  clientSteps 0 (joinTo 1) ++
  acceptOn 5 ++
  clientSteps 1 (joinTo 2) ++
  [.leave 0] ++
  clientSteps 0 [.read none,.tick,.closed true,.tick,.tick,.tick,.tick] ++
  clientSteps 0 (distributeTo 1 33 ++ List.replicate 5 .tick) ++
  clientSteps 1 (.read (some (ascii "hi")) :: distributeTo 1 12)

theorem server_survives_orderly :
    let s := (runOf step (initial 3 ⟨0,0⟩) orderlyLeave).2
    s.shared.terminated = false ∧ s.shared.owner .mutex ≠ some (.client 0) ∧
      ((∃ ans s', step s (.client 1 ans) = some s') ∨
        ∃ b, WaitsFor s.shared.owner s.wants (.client 1) b ∧ ∃ ans s', step s (b.action ans) = some s') := by
  obtain ⟨halive,hthreads⟩ := server_survives
    (runOf_run step (initial 3 ⟨0,0⟩) orderlyLeave (by decide +kernel)) (by decide +kernel)
  have hrun := (halive.mpr (by decide +kernel)).1
  have hpcs : ((runOf step (initial 3 ⟨0,0⟩) orderlyLeave).2.thread 0).any (fun t => t.pc = .finished) = true ∧
      ((runOf step (initial 3 ⟨0,0⟩) orderlyLeave).2.thread 1).any (fun t => t.pc = .read) = true := by
    decide +kernel
  obtain ⟨t,ht,hended⟩ := (Option.any_eq_true _ _).mp hpcs.1
  obtain ⟨u,hu,hreads⟩ := (Option.any_eq_true _ _).mp hpcs.2
  rw [decide_eq_true_eq] at hended hreads
  exact ⟨hrun,(hthreads hrun 0 t ht).1 hended .mutex,
    (hthreads hrun 1 u hu).2 (by rw [hreads]; decide)⟩

/- The first client goes away while the second one's join message is sent. -/
def departedPeer : List Action :=
  acceptOn 4 ++
  clientSteps 0 (joinTo 1) ++
  acceptOn 5 ++
  clientSteps 1 [.tick,.tick] ++
  [.leave 0] ++
  clientSteps 1 [.sent none]

theorem server_not_surviving :
    ¬ ∀ (m : Fd) (addr : SockaddrIn) (tr : List (State × Action)) (s : State),
      Run step (initial m addr) tr s → (∀ x ∈ tr, conforms x = true) →
        s.shared.terminated = false := by
  intro h
  have hrun := runOf_run step (initial 3 ⟨0,0⟩) departedPeer (by decide +kernel)
  have halive := h 3 ⟨0,0⟩ _ _ hrun (by decide +kernel)
  have hdead : (runOf step (initial 3 ⟨0,0⟩) departedPeer).2.shared.terminated = true := by
    decide +kernel
  rw [halive] at hdead
  cases hdead

end TcpProjects.ChatServer
