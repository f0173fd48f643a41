import TcpProjects.ChatServer.Steps

/-! # One call of distributeData

A call under `mut`, for what `send` returns on each descriptor: every client is sent
the payload in turn, until a failed `send` throws. Nothing catches the exception
inside, so that neither the other clients get the payload nor `mut` is given back; and
what a short `send` left is not sent again. -/

namespace TcpProjects.ChatServer
open Transition

/-- What `send` returns on each descriptor for `size` bytes: all of them, a positive
short count, or -1 (`none`). -/
structure SendResults (size : ℕ) where
  result : Fd → Option ℕ
  count : ∀ fd n, result fd = some n → n = size ∨ 0 < n ∧ n < size

/- How a call ends; `thrown` is the `SendException` of `sendData`. Its constructor prints
through a pointer that is never set, and usually crashes before the throw: then too the
other clients get nothing. -/
inductive CallEnding where
  | returned
  | thrown (socket : Fd)
  deriving DecidableEq

/- The state after a call: who holds `mut`, and what each `send` took. -/
structure Distributed where
  ending : CallEnding
  mutex : Option Actor
  sent : List (Fd × Bytes)
  deriving DecidableEq

section Call
variable (clientSockets : OrderedMap Fd SockaddrIn) (data : Bytes) (results : SendResults data.length)
  (caller : Actor)

/- The loop of `distributeData`, with the iterator and what was sent so far. -/
def distributeFrom (it : Option Fd) (sent : List (Fd × Bytes)) : Distributed :=
  match it with
  | none => ⟨.returned,none,sent⟩
  | some fd =>
    match results.result fd with
    | none => ⟨.thrown fd,some caller,sent⟩
    | some n => distributeFrom (clientSockets.next fd) (sent ++ [(fd,data.take n)])
termination_by it.elim 0 fun fd => clientSockets.ahead fd+1
decreasing_by
  cases hn : clientSockets.next fd with
  | none => simp
  | some q => simpa using clientSockets.ahead_next hn

def distributeData : Distributed :=
  distributeFrom clientSockets data results caller clientSockets.begin []

end Call

/-! ### What a call does -/

section Effect
variable {clientSockets : OrderedMap Fd SockaddrIn} {data : Bytes}
  {results : SendResults data.length} {caller : Actor}

/- What is sent to the clients of a list if no `send` fails. -/
def taken (results : SendResults data.length) (fds : List Fd) : List (Fd × Bytes) :=
  fds.filterMap fun fd => (results.result fd).map fun n => (fd,data.take n)

theorem distributeFrom_pass {passed fds rest : List Fd} (caller : Actor) (sent : List (Fd × Bytes))
    (hkeys : clientSockets.keys = passed ++ fds ++ rest) (hok : ∀ fd ∈ fds, results.result fd ≠ none) :
    distributeFrom clientSockets data results caller (fds ++ rest).head? sent =
      distributeFrom clientSockets data results caller rest.head? (sent ++ taken results fds) := by
  induction fds generalizing passed sent with
  | nil => rw [List.nil_append,taken,List.filterMap_nil,List.append_nil]
  | cons fd fds ih =>
    obtain ⟨n,hn⟩ := Option.ne_none_iff_exists'.mp (hok fd (List.mem_cons_self ..))
    have hnext : clientSockets.next fd = (fds ++ rest).head? := by
      have hplace : clientSockets.keys = passed ++ fd :: (fds ++ rest) := by
        rw [hkeys,List.append_assoc,List.cons_append]
      exact clientSockets.next_keys hplace
    have htaken : taken results (fd :: fds) = (fd,data.take n) :: taken results fds := by
      simp [taken,hn]
    rw [List.cons_append,List.head?_cons,distributeFrom,hn]
    simp only [hnext]
    have hplace : clientSockets.keys = (passed ++ [fd]) ++ fds ++ rest := by simp [hkeys]
    rw [ih _ hplace fun q hq => hok q (List.mem_cons_of_mem fd hq),htaken,List.append_assoc,List.singleton_append]

theorem distributeData_returned (hok : ∀ fd ∈ clientSockets, results.result fd ≠ none) :
    distributeData clientSockets data results caller =
      ⟨.returned,none,taken results clientSockets.keys⟩ := by
  have hpass := distributeFrom_pass caller []
    (show clientSockets.keys = [] ++ clientSockets.keys ++ [] by simp)
    fun fd hfd => hok fd (clientSockets.mem_keys.mp hfd)
  rw [List.append_nil] at hpass
  rw [distributeData,clientSockets.begin_keys,hpass,List.head?_nil,distributeFrom,List.nil_append]

/- The first `send` that fails ends the call with the lock held. -/
theorem distributeData_thrown {fds rest : List Fd} {fd : Fd}
    (hkeys : clientSockets.keys = fds ++ fd :: rest) (hok : ∀ q ∈ fds, results.result q ≠ none)
    (hfail : results.result fd = none) :
    distributeData clientSockets data results caller =
      ⟨.thrown fd,some caller,taken results fds⟩ := by
  have hpass := distributeFrom_pass caller []
    (show clientSockets.keys = [] ++ fds ++ fd :: rest by simp [hkeys]) hok
  rw [distributeData,clientSockets.begin_keys,hkeys,hpass,List.head?_cons,distributeFrom,hfail,
    List.nil_append]

theorem first_failure {fds : List Fd} (h : ∃ fd ∈ fds, results.result fd = none) :
    ∃ before fd behind, fds = before ++ fd :: behind ∧ (∀ q ∈ before, results.result q ≠ none) ∧
      results.result fd = none := by
  obtain ⟨q,hq,hfail⟩ := h
  cases hf : fds.find? fun fd => decide (results.result fd = none) with
  | none => exact absurd (by simpa using hfail) (List.find?_eq_none.mp hf q hq)
  | some fd =>
    obtain ⟨hfd,before,behind,he,hok⟩ := List.find?_eq_some_iff_append.mp hf
    exact ⟨before,fd,behind,he,fun p hp => by simpa using hok p hp,by simpa using hfd⟩

/- What the client on a descriptor was sent. -/
def Distributed.sentTo (d : Distributed) (fd : Fd) : List Bytes :=
  d.sent.filterMap fun x => if x.1 = fd then some x.2 else none

theorem taken_sentTo {fds : List Fd} (hnodup : fds.Nodup) {fd : Fd} (hfd : fd ∈ fds) :
    (taken results fds).filterMap (fun x => if x.1 = fd then some x.2 else none) =
      ((results.result fd).map fun n => data.take n).toList := by
  induction fds with
  | nil => cases hfd
  | cons q fds ih =>
    obtain ⟨hq,hnodup⟩ := List.nodup_cons.mp hnodup
    have hcons : taken results (q :: fds) =
        ((results.result q).map fun n => (q,data.take n)).toList ++ taken results fds := by
      rw [taken,List.filterMap_cons]
      cases results.result q <;> rfl
    rw [hcons,List.filterMap_append]
    rcases List.mem_cons.mp hfd with rfl | hfd
    · have hrest : (taken results fds).filterMap (fun x => if x.1 = fd then some x.2 else none) = [] := by
        rw [List.filterMap_eq_nil_iff]
        intro x hx
        obtain ⟨p,hp,hx⟩ := List.mem_filterMap.mp hx
        obtain ⟨n,_,rfl⟩ := Option.map_eq_some_iff.mp hx
        rw [if_neg]
        exact fun he => hq (he ▸ hp)
      rw [hrest,List.append_nil]
      cases results.result fd <;> simp
    · have hne : q ≠ fd := fun he => hq (he ▸ hfd)
      rw [ih hnodup hfd]
      cases results.result q <;> simp [hne]

end Effect

/-- What the callers of `distributeData` rely on: each client whose connection has not
failed is sent the whole payload once, and the caller does not keep `mut`. -/
structure Isolating (clientSockets : OrderedMap Fd SockaddrIn) (data : Bytes)
    (results : SendResults data.length) (caller : Actor) (d : Distributed) : Prop where
  whole : ∀ fd ∈ clientSockets, results.result fd ≠ none → d.sentTo fd = [data]
  unlocked : d.mutex ≠ some caller

/-- A call keeps its promise exactly if every client takes the whole payload. -/
theorem distribute_isolating (clientSockets : OrderedMap Fd SockaddrIn) (data : Bytes)
    (results : SendResults data.length) (caller : Actor) :
    Isolating clientSockets data results caller
      (distributeData clientSockets data results caller) ↔
    ∀ fd ∈ clientSockets, results.result fd = some data.length := by
  constructor
  · intro h
    have hok : ∀ fd ∈ clientSockets, results.result fd ≠ none := by
      by_contra hex
      push Not at hex
      obtain ⟨before,fd,behind,hkeys,hbefore,hfail⟩ := first_failure
        (show ∃ fd ∈ clientSockets.keys, results.result fd = none by simpa using hex)
      have hkept := h.unlocked
      rw [distributeData_thrown hkeys hbefore hfail] at hkept
      exact hkept rfl
    intro fd hfd
    have hwhole := h.whole fd hfd (hok fd hfd)
    rw [distributeData_returned hok,Distributed.sentTo,
      taken_sentTo clientSockets.keys_nodup (clientSockets.mem_keys.mpr hfd)] at hwhole
    obtain ⟨n,hn⟩ := Option.ne_none_iff_exists'.mp (hok fd hfd)
    rw [hn,Option.map_some,Option.toList_some,List.cons.injEq,List.take_eq_self_iff] at hwhole
    rw [hn]
    rcases results.count fd n hn with rfl | ⟨_,hlt⟩
    · rfl
    · omega
  · intro h
    have hok : ∀ fd ∈ clientSockets, results.result fd ≠ none := fun fd hfd => by
      rw [h fd hfd]
      exact nofun
    rw [distributeData_returned hok]
    refine ⟨fun fd hfd _ => ?_,nofun⟩
    rw [Distributed.sentTo,taken_sentTo clientSockets.keys_nodup (clientSockets.mem_keys.mpr hfd),
      h fd hfd,Option.map_some,List.take_length,Option.toList_some]

/- Two clients, of which the first has gone away. -/
def departed : OrderedMap Fd SockaddrIn := (OrderedMap.empty.insert 4 ⟨0,0⟩).insert 5 ⟨0,0⟩

def departedResults (size : ℕ) : SendResults size where
  result fd := if fd = 4 then none else some size
  count fd n h := by
    split_ifs at h
    exact Or.inl (Option.some.inj h).symm

/- The second one is sent nothing, and the lock stays held. -/
theorem distribute_not_isolating :
    ¬ ∀ (clientSockets : OrderedMap Fd SockaddrIn) (data : Bytes)
      (results : SendResults data.length) (caller : Actor),
      Isolating clientSockets data results caller
        (distributeData clientSockets data results caller) := by
  intro h
  have hbad := h departed (ascii "hi") (departedResults _) (.client 0)
  have hthrown : distributeData departed (ascii "hi") (departedResults _) (.client 0) =
      ⟨.thrown 4,some (.client 0),[]⟩ :=
    distributeData_thrown (show departed.keys = [] ++ 4 :: [5] by decide +kernel)
      (fun q hq => absurd hq List.not_mem_nil) rfl
  have hwhole := hbad.whole 5 (by decide +kernel) nofun
  rw [hthrown] at hwhole
  cases hwhole

/-! ### The call as steps of its thread -/

def took (x : State × Action) : Option (Fd × Bytes) :=
  match x.2 with
  | .client k (.sent (some n)) => (x.1.thread k).bind fun t =>
    match t.pc with
    | .distribute p (.loop (some it)) => some (it,(p.data t.stack t.socket).take n)
    | _ => none
  | _ => none

theorem took_tick (s : State) (k : ℕ) (tr : List (State × Action)) :
    ((s,.client k .tick) :: tr).filterMap took = tr.filterMap took := rfl

theorem step_client {s : State} {k : ℕ} {t : SocketThread} {ans : Answer} {g : Shared} {pc : PC}
    (hrun : s.shared.terminated = false) (ht : s.thread k = some t)
    (h : socketThread k t s.shared ans = some (g,pc)) :
    step s (.client k ans) = some (s.advance k t g pc) := by
  simp [step,hrun,ht,h,State.advance]

/-- The state in which a thread ends its call. -/
structure Ended (s : State) (k : ℕ) (t : SocketThread) (p : Payload) (d : Distributed) : Prop where
  mutex : s.shared.mutex = d.mutex
  terminated : s.shared.terminated = true ↔ d.ending ≠ .returned
  returned : d.ending = .returned → s.thread k = some { t with pc := p.after }

section Steps
variable {k : ℕ} {p : Payload} {data : Bytes}
  {clientSockets : OrderedMap Fd SockaddrIn}

theorem distributeFrom_run (results : SendResults data.length) (it : Option Fd) (sent : List (Fd × Bytes)) {s : State} {t : SocketThread}
    (hrun : s.shared.terminated = false) (ht : s.thread k = some t)
    (hpc : t.pc = .distribute p (.loop it)) (hdata : p.data t.stack t.socket = data)
    (hclients : s.shared.clientSockets = clientSockets) (hmutex : s.shared.mutex = some (.client k)) :
    ∃ tr s', Run step s tr s' ∧ (∀ x ∈ tr, x.2.client? = some k) ∧
      (distributeFrom clientSockets data results (.client k) it sent).sent = sent ++ tr.filterMap took ∧
      Ended s' k t p (distributeFrom clientSockets data results (.client k) it sent) := by
  fun_induction distributeFrom clientSockets data results (.client k) it sent generalizing s t with
  | case1 sent =>
    have hstep : step s (.client k .tick) =
        some (s.advance k t { s.shared with mutex := none } p.after) :=
      step_client hrun ht (by simp [socketThread,hpc])
    refine ⟨_,_,Run.next Run.start hstep,by simp [Action.client?],by simp [took],rfl,?_,fun _ => ?_⟩
    · simp [hrun]
    · exact State.advance_self ..
  | case2 sent fd hfail =>
    have hstep : step s (.client k (.sent none)) =
        some (s.advance k t { s.shared with terminated := true } t.pc) :=
      step_client hrun ht (by simp [socketThread,hpc])
    exact ⟨_,_,Run.next Run.start hstep,by simp [Action.client?],by simp [took],hmutex,by simp,nofun⟩
  | case3 sent fd n hn ih =>
    have hsend : step s (.client k (.sent (some n))) =
        some (s.advance k t s.shared (.distribute p (.next fd))) :=
      step_client hrun ht (by simp [socketThread,hpc])
    have hnext : step (s.advance k t s.shared (.distribute p (.next fd))) (.client k .tick) =
        some ((s.advance k t s.shared (.distribute p (.next fd))).advance k
          { t with pc := .distribute p (.next fd) } s.shared
          (.distribute p (.loop (clientSockets.next fd)))) :=
      step_client hrun (s.advance_self k t s.shared _) (by simp [socketThread,hclients])
    obtain ⟨tr,s',r,hown,hsent,hended⟩ := ih
      (s := (s.advance k t s.shared (.distribute p (.next fd))).advance k
        { t with pc := .distribute p (.next fd) } s.shared (.distribute p (.loop (clientSockets.next fd))))
      hrun (State.advance_self ..) rfl hdata hclients hmutex
    refine ⟨_,s',Run.cons hsend (Run.cons hnext r),?_,?_,?_⟩
    · exact List.forall_mem_cons.mpr ⟨rfl,List.forall_mem_cons.mpr ⟨rfl,hown⟩⟩
    · have htook : took (s,.client k (.sent (some n))) = some (fd,data.take n) := by
        simp [took,ht,hpc,hdata]
      rw [hsent,List.filterMap_cons_some htook,took_tick,List.append_assoc,List.singleton_append]
    · exact ⟨hended.mutex,hended.terminated,hended.returned⟩

/- The thread that has the processor to itself does what the call says, step by step. -/
theorem distributeData_run {s : State} {t : SocketThread} (hrun : s.shared.terminated = false)
    (ht : s.thread k = some t) (hpc : t.pc = .distribute p .lock) (hfree : s.shared.mutex = none)
    (results : SendResults (p.data t.stack t.socket).length) :
    let d := distributeData s.shared.clientSockets (p.data t.stack t.socket) results (.client k)
    ∃ tr s', Run step s tr s' ∧ (∀ x ∈ tr, x.2.client? = some k) ∧ tr.filterMap took = d.sent ∧
      Ended s' k t p d := by
  let g := { s.shared with mutex := some (.client k) }
  let s₁ := s.advance k t g (.distribute p .begin)
  let s₂ := s₁.advance k { t with pc := .distribute p .begin } g
    (.distribute p (.loop s.shared.clientSockets.begin))
  have hlock : step s (.client k .tick) = some s₁ :=
    step_client hrun ht (by simp [socketThread,hpc,hfree,g])
  have hbegin : step s₁ (.client k .tick) = some s₂ :=
    step_client hrun (State.advance_self ..) (by simp [socketThread,s₁,g])
  obtain ⟨tr,s',r,hown,hsent,hended⟩ := distributeFrom_run results
    s.shared.clientSockets.begin [] (s := s₂) hrun (State.advance_self ..) rfl rfl rfl rfl
  refine ⟨_,s',Run.cons hlock (Run.cons hbegin r),?_,?_,?_⟩
  · exact List.forall_mem_cons.mpr ⟨rfl,List.forall_mem_cons.mpr ⟨rfl,hown⟩⟩
  · rw [took_tick,took_tick]
    exact hsent.symm
  · exact ⟨hended.mutex,hended.terminated,hended.returned⟩

end Steps
end TcpProjects.ChatServer
