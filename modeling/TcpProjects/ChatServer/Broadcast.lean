import TcpProjects.Base.Interval
import TcpProjects.ChatServer.Descriptors
import TcpProjects.ChatServer.Reactions

/-! # Agreement of the broadcasts

A call of `distributeData` is an interval of the run, from its lock step to its
unlock step. As long as a client is a key of `clientSockets` the iterator can
neither skip it nor meet it twice, whatever the accept thread inserts meanwhile,
and the calls do not overlap; so two clients that are keys during the same calls
are sent the same payloads in the same order. -/

namespace TcpProjects.ChatServer
open Transition

/- The `x`-th step of a run is one of thread `k`, taken at the point `pc`. -/
def stepsFrom (tr : List (State × Action)) (x k : ℕ) (pc : PC) : Bool :=
  match tr[x]? with
  | some (u,.client j _) => j = k && (u.thread j).any (·.pc = pc)
  | _ => false

/- A call of `distributeData`, with the positions of its lock and its unlock step. -/
structure Call where
  thread : ℕ
  payload : Payload
  first : ℕ
  last : ℕ

namespace Call

structure Complete (tr : List (State × Action)) (c : Call) : Prop where
  order : c.first < c.last
  lock : stepsFrom tr c.first c.thread (.distribute c.payload .lock) = true
  unlock : stepsFrom tr c.last c.thread (.distribute c.payload (.loop none)) = true
  inside : ∀ x < c.last, c.first < x →
    stepsFrom tr x c.thread (.distribute c.payload (.loop none)) = false

def interval (c : Call) : ℕ × ℕ := (c.first,c.last)

def data (tr : List (State × Action)) (c : Call) : Bytes :=
  (tr[c.first]?.bind fun x => (x.1.thread c.thread).map fun t =>
    c.payload.data t.stack t.socket).getD []

end Call

/-- Client `c` is a key of `clientSockets`: the number of its connection is. -/
def IsKey (s : State) (c : ℕ) : Prop :=
  ∃ fd, s.shared.table fd = some (.connection c) ∧ fd ∈ s.shared.clientSockets

def KeyDuring (tr : List (State × Action)) (s : State) (call : Call) (c : ℕ) : Prop :=
  ∀ x, call.first < x → x ≤ call.last → IsKey (stateAt tr s x) c

/- The bytes a step of `distributeData` delivers to connection `c`. -/
def delivered (c : ℕ) (x : State × Action) : Option Bytes :=
  match x.2 with
  | .client k (.sent (some n)) => (x.1.thread k).bind fun t =>
    match t.pc with
    | .distribute p (.loop (some it)) =>
      if x.1.shared.table it = some (.connection c) then some ((p.data t.stack t.socket).take n)
      else none
    | _ => none
  | _ => none

/- A send of `distributeData` takes the whole buffer. -/
def fullSend (x : State × Action) : Bool :=
  match x.2 with
  | .client k (.sent r) => (x.1.thread k).all fun t =>
    match t.pc with
    | .distribute p (.loop (some _)) => r = some (p.data t.stack t.socket).length
    | _ => true
  | _ => true

/-- What connection `c` is sent during the given calls. -/
def deliveredDuring (tr : List (State × Action)) (calls : List Call) (c : ℕ) : List Bytes :=
  collect (fun x => if ∃ i ∈ calls.map Call.interval, i.1 < x ∧ x < i.2
    then tr[x]?.bind (delivered c) else none) 0 tr.length

theorem stepsFrom_iff {tr : List (State × Action)} {x k : ℕ} {pc : PC} :
    stepsFrom tr x k pc = true ↔
      ∃ u ans t, tr[x]? = some (u,.client k ans) ∧ u.thread k = some t ∧ t.pc = pc := by
  unfold stepsFrom
  constructor
  · intro h
    split at h
    · next u j ans hx =>
      simp only [Bool.and_eq_true,decide_eq_true_eq,Option.any_eq_true] at h
      obtain ⟨rfl,t,ht,hpc⟩ := h
      exact ⟨u,ans,t,hx,ht,hpc⟩
    · cases h
  · intro he
    obtain ⟨u,ans,t,hx,ht,hpc⟩ := he
    simp [hx,ht,hpc]

/-! ### One step of a call -/

/- The iterator has passed `fd`, so that the payload was sent there. -/
def DistributeAt.passed (fd : Fd) : DistributeAt → Bool
  | .lock => false
  | .begin => false
  | .loop none => true
  | .loop (some it) => fd < it
  | .next it => fd ≤ it

/-- Thread `k` is inside a call with the bytes `data`, connection `c` is open on
`fd`, and `sent` is what the call has delivered there. -/
def InCall (s : State) (k : ℕ) (p : Payload) (data : Bytes) (c : ℕ) (fd : Fd)
    (sent : List Bytes) : Prop :=
  ∃ t l, s.thread k = some t ∧ t.pc = .distribute p l ∧ l ≠ .lock ∧
    p.data t.stack t.socket = data ∧ s.shared.table fd = some (.connection c) ∧
    sent = if l.passed fd then [data] else []

section Step
variable {m : Fd} {s s' : State} {a : Action} {k c : ℕ} {t : SocketThread} {p : Payload}
  {data : Bytes} {fd : Fd} {sent : List Bytes}

theorem distribute_holdsMut {l : DistributeAt} (hpc : t.pc = .distribute p l) (hl : l ≠ .lock) :
    t.pc.holdsMut = true := by
  rw [hpc]
  cases l with
  | lock => exact absurd rfl hl
  | _ => rfl

/- While a thread is in its call, no other step sends a payload or closes. -/
theorem call_frame (hs : Safe m s) (h : Step s a s') (hk : ∀ ans, a ≠ .client k ans)
    (hin : InCall s k p data c fd sent) :
    InCall s' k p data c fd (sent ++ (delivered c (s,a)).toList) := by
  obtain ⟨t,l,ht,hpc,hl,hdata,hfd,hsent⟩ := hin
  have hown := distribute_holdsMut hpc hl
  have hthread : s'.thread k = some t := by
    rcases h.thread_frame hk with hsame | ⟨hnew,_⟩
    · exact hsame.trans ht
    · exact absurd (hs.ownership.thread_lt ht) (by omega)
  have hquiet : s'.shared.table fd = some (.connection c) ∧ delivered c (s,a) = none := by
    cases h with
    | acceptor _ ha =>
      refine ⟨?_,rfl⟩
      cases ha with
      | @accepted fd' addr _ hfree =>
        have hne : fd ≠ fd' := by
          intro hx
          subst hx
          rw [hfree] at hfd
          cases hfd
        simpa [hne] using hfd
      | _ => exact hfd
    | leave => exact ⟨hfd,rfl⟩
    | @client j u ans g pc _ hu hst =>
      have hidle : u.pc.holdsMut = false := by
        cases hm : u.pc.holdsMut with
        | false => rfl
        | true => exact absurd (hs.exclusive hu ht hm hown) fun he => hk ans (he ▸ rfl)
      refine ⟨?_,?_⟩
      · rcases hst.table_effect with ⟨hcl,_,_⟩ | ⟨htab,_⟩
        · rw [hcl] at hidle
          cases hidle
        · rw [State.advance_shared,htab]
          exact hfd
      · cases hst with
        | sendData hpc' =>
          rw [hpc'] at hidle
          cases hidle
        | sendEvent hpc' => simp [delivered,hu,hpc']
        | _ => rfl
  rw [hquiet.2,Option.toList_none,List.append_nil]
  exact ⟨t,l,hthread,hpc,hl,hdata,hquiet.1,hsent⟩

/- A step of the call itself sends to `fd` exactly when the iterator passes it. -/
theorem call_step {ans : Answer} (hs : Safe m s) (hrun : Step s (.client k ans) s')
    (hin : InCall s k p data c fd sent) (hfull : fullSend (s,.client k ans) = true)
    (hkey : fd ∈ s.shared.clientSockets)
    (hend : ∀ t, s.thread k = some t → t.pc ≠ .distribute p (.loop none)) :
    InCall s' k p data c fd (sent ++ (delivered c (s,.client k ans)).toList) := by
  obtain ⟨t,l,ht,hpc,hl,hdata,hfd,hsent⟩ := hin
  subst hsent
  cases hrun with
  | @client _ u _ g pc _ hu hst =>
    cases ht.symm.trans hu
    cases hst with
    | distributeBegin hpc' =>
      cases hpc.symm.trans hpc'
      obtain ⟨q,hq,hle⟩ := s.shared.clientSockets.begin_le hkey
      refine ⟨_,_,s.advance_self ..,rfl,by simp,hdata,hfd,?_⟩
      simp [DistributeAt.passed,hq,hle,delivered]
    | @sendData _ it n hpc' =>
      cases hpc.symm.trans hpc'
      have hn : n = data.length := by
        simpa [fullSend,ht,hpc,hdata] using hfull
      have hit : s.shared.table it = some (.connection c) ↔ fd = it := by
        constructor
        · intro h
          exact hs.ownership.fd_unique hfd h
        · intro hx
          subst hx
          exact hfd
      refine ⟨_,_,s.advance_self ..,rfl,by simp,hdata,hfd,?_⟩
      simp only [DistributeAt.passed,delivered,ht,hpc,Option.bind_some,hit,hn,hdata,List.take_length]
      by_cases he : fd = it
      · simp [he]
      · have hlt : fd ≤ it ↔ fd < it := ⟨fun h => lt_of_le_of_ne h he,le_of_lt⟩
        simp [he,hlt]
    | @sendThrow _ it hpc' =>
      cases hpc.symm.trans hpc'
      simp [fullSend,ht,hpc] at hfull
    | @distributeNext _ it hpc' =>
      cases hpc.symm.trans hpc'
      refine ⟨_,_,s.advance_self ..,rfl,by simp,hdata,hfd,?_⟩
      by_cases hle : fd ≤ it
      · cases hn : s.shared.clientSockets.next it with
        | none => simp [DistributeAt.passed,hle,delivered]
        | some q =>
          have hq := lt_of_le_of_lt hle (s.shared.clientSockets.mem_of_next hn).2
          simp [DistributeAt.passed,hle,delivered,hq]
      · obtain ⟨q,hq,hqle⟩ := s.shared.clientSockets.next_le hkey (not_le.mp hle)
        simp [DistributeAt.passed,hq,hle,delivered,not_lt.mpr hqle]
    | distributeUnlock hpc' =>
      cases hpc.symm.trans hpc'
      exact absurd hpc (hend t ht)
    | distributeLock hpc' _ =>
      cases hpc.symm.trans hpc'
      exact absurd rfl hl
    | _ => simp_all

end Step

/-! ### Whole calls -/

section Run
variable {m : Fd} {addr : SockaddrIn} {tr : List (State × Action)} {s : State}

theorem get_lt {x : ℕ} {y : State × Action} (h : tr[x]? = some y) : x < tr.length :=
  (List.getElem?_eq_some_iff.mp h).1

/- At every point of a call, what it has delivered to the client is the payload
or nothing, according to where the iterator stands. -/
theorem call_progress (r : Run step (initial m addr) tr s) (hfull : ∀ x ∈ tr, fullSend x = true)
    {call : Call} (hcall : call.Complete tr) {c : ℕ} (hkey : KeyDuring tr s call c) :
    ∃ fd, ∀ x, call.first < x → x ≤ call.last →
      InCall (stateAt tr s x) call.thread call.payload (call.data tr) c fd
        (collect (fun x => tr[x]?.bind (delivered c)) (call.first+1) x) := by
  obtain ⟨u₀,ans₀,t,hx₀,ht,hpc⟩ := stepsFrom_iff.mp hcall.lock
  obtain ⟨u₁,ans₁,t₁,hx₁,_,_⟩ := stepsFrom_iff.mp hcall.unlock
  obtain ⟨fd,hfd,_⟩ := hkey (call.first+1) (Nat.lt_succ_self _) hcall.order
  refine ⟨fd,fun x hx => ?_⟩
  induction x,hx using Nat.le_induction with
  | base =>
    intro _
    have hdata : call.data tr = call.payload.data t.stack t.socket := by
      simp [Call.data,hx₀,ht]
    have hstep := step_cases (r.step_at hx₀)
    generalize stateAt tr s (call.first+1) = s₁ at hstep hfd
    rw [hdata,collect_self]
    cases hstep with
    | @client _ u _ g pc _ hu hst =>
      cases ht.symm.trans hu
      cases hst with
      | distributeLock hpc' _ =>
        cases hpc.symm.trans hpc'
        exact ⟨_,.begin,u₀.advance_self ..,rfl,by simp,rfl,hfd,rfl⟩
      | _ => simp_all
  | succ x hx ih =>
    intro hle
    have hin := ih (by omega)
    have hlt : x < tr.length := Nat.lt_trans hle (get_lt hx₁)
    obtain ⟨⟨v,a⟩,hget⟩ : ∃ y, tr[x]? = some y := ⟨_,List.getElem?_eq_getElem hlt⟩
    have hs := r.invariant_at (fun _ _ => run_safe) hget
    have hstep := step_cases (r.step_at hget)
    rw [stateAt_get hget] at hin
    rw [collect_succ hx,hget,Option.bind_some]
    by_cases hk : ∃ ans, a = .client call.thread ans
    · obtain ⟨ans,rfl⟩ := hk
      have hmem : fd ∈ v.shared.clientSockets := by
        obtain ⟨fd',hfd',hmem⟩ := hkey x hx (by omega)
        rw [stateAt_get hget] at hfd' hmem
        obtain ⟨_,_,_,_,_,_,htab,_⟩ := hin
        rwa [hs.ownership.fd_unique htab hfd']
      have hend : ∀ t, v.thread call.thread = some t → t.pc ≠ .distribute call.payload (.loop none) := by
        intro t ht hpc
        have hno := hcall.inside x hle hx
        rw [stepsFrom_iff.mpr ⟨v,ans,t,hget,ht,hpc⟩] at hno
        cases hno
      exact call_step hs hstep hin (hfull _ (List.mem_of_getElem? hget)) hmem hend
    · exact call_frame hs hstep (fun ans he => hk ⟨ans,he⟩) hin

/- A whole call delivers its payload once to each client that is a key meanwhile. -/
theorem call_delivers (r : Run step (initial m addr) tr s) (hfull : ∀ x ∈ tr, fullSend x = true)
    {call : Call} (hcall : call.Complete tr) {c : ℕ} (hkey : KeyDuring tr s call c) :
    collect (fun x => tr[x]?.bind (delivered c)) (call.first+1) call.last = [call.data tr] := by
  obtain ⟨fd,hprog⟩ := call_progress r hfull hcall hkey
  obtain ⟨u,ans,t,hx,ht,hpc⟩ := stepsFrom_iff.mp hcall.unlock
  have hin := hprog call.last hcall.order (Nat.le_refl _)
  rw [stateAt_get hx] at hin
  obtain ⟨t',l,ht',hpc',_,_,_,hsent⟩ := hin
  cases ht.symm.trans ht'
  cases hpc.symm.trans hpc'
  rw [hsent]
  rfl

theorem calls_disjoint (r : Run step (initial m addr) tr s) (hfull : ∀ x ∈ tr, fullSend x = true)
    {call d : Call} (hcall : call.Complete tr) {c : ℕ} (hkey : KeyDuring tr s call c)
    (hd : d.Complete tr) (h : call.first < d.first) : call.last ≤ d.first := by
  by_contra hlt
  obtain ⟨fd,hprog⟩ := call_progress r hfull hcall hkey
  obtain ⟨u,ans,t,hx,ht,hpc⟩ := stepsFrom_iff.mp hd.lock
  have hin := hprog d.first h (by omega)
  have hs := r.invariant_at (fun _ _ => run_safe) hx
  rw [stateAt_get hx] at hin
  obtain ⟨t',l,ht',hpc',hl,_⟩ := hin
  have hm := (hs.locks.client call.thread).mpr ⟨t',ht',distribute_holdsMut hpc' hl⟩
  have hstep := step_cases (r.step_at hx)
  generalize stateAt tr s (d.first+1) = u' at hstep
  cases hstep with
  | @client _ v _ g pc _ hv hst =>
    cases ht.symm.trans hv
    cases hst with
    | distributeLock _ hfree =>
      rw [hfree] at hm
      cases hm
    | _ => simp_all

end Run

def Reaction.payload : Reaction → Option Bytes
  | .broadcast payload => some payload
  | _ => none

/-- Agreement: whatever calls of `distributeData` lie in the time in which the
clients `a` and `b` are both keys, each of the two is sent exactly the payloads
of these calls, in the order of the calls; and the chat payloads of one thread
are broadcast in the order in which it read them. -/
theorem broadcast_agreement {m : Fd} {addr : SockaddrIn} {tr : List (State × Action)} {s : State}
    (r : Run step (initial m addr) tr s) (hfull : ∀ x ∈ tr, fullSend x = true) :
    (∀ (a b : ℕ) (calls : List Call), calls.Pairwise (fun c d => c.first < d.first) →
      (∀ c ∈ calls, c.Complete tr ∧ KeyDuring tr s c a ∧ KeyDuring tr s c b) →
      deliveredDuring tr calls a = calls.map (Call.data tr) ∧
      deliveredDuring tr calls b = calls.map (Call.data tr)) ∧
    ∀ k t, s.thread k = some t →
      (tr.filterMap (reaction k)).filterMap Reaction.payload <+:
        ((tr.filterMap (chunkRead k)).map (react t.socket)).filterMap Reaction.payload := by
  have agree (c : ℕ) (calls : List Call) (horder : calls.Pairwise fun c d => c.first < d.first)
      (hcalls : ∀ d ∈ calls, d.Complete tr ∧ KeyDuring tr s d c) :
      deliveredDuring tr calls c = calls.map (Call.data tr) := by
    rw [deliveredDuring,collect_inside]
    · rw [List.flatMap_map,List.map_eq_flatMap]
      apply List.flatMap_congr
      intro d hd
      obtain ⟨hcomp,hkey⟩ := hcalls d hd
      exact call_delivers r hfull hcomp hkey
    · intro i hi
      obtain ⟨d,hd,rfl⟩ := List.mem_map.mp hi
      have hcomp := (hcalls d hd).1
      obtain ⟨_,_,_,hx,_,_⟩ := stepsFrom_iff.mp hcomp.unlock
      exact ⟨Nat.zero_le _,hcomp.order,Nat.le_of_lt (get_lt hx)⟩
    · rw [List.pairwise_map]
      apply horder.imp_of_mem
      intro d e hd he hlt
      exact calls_disjoint r hfull (hcalls d hd).1 (hcalls d hd).2 (hcalls e he).1 hlt
  refine ⟨?_,?_⟩
  · intro a b calls horder hcalls
    exact ⟨agree a calls horder fun d hd => ⟨(hcalls d hd).1,(hcalls d hd).2.1⟩,
      agree b calls horder fun d hd => ⟨(hcalls d hd).1,(hcalls d hd).2.2⟩⟩
  · intro k t ht
    have hreact := (reactions_run r k).1 t ht
    rw [← hreact,List.filterMap_append]
    exact List.prefix_append ..

/- Two clients join and each sends a text. -/
def twoClients : List Action :=
  acceptOn 4 ++
  clientSteps 0 (joinTo 1) ++
  acceptOn 5 ++
  clientSteps 1 (joinTo 2) ++
  clientSteps 0 (.read (some (ascii "hi")) :: distributeTo 2 12) ++
  clientSteps 1 (.read (some (ascii "ok")) :: distributeTo 2 12)

def twoClientsCalls : List Call :=
  [⟨1,.join,19,25⟩,⟨0,.chat (ascii "hi"),29,35⟩,⟨1,.chat (ascii "ok"),37,43⟩]

theorem broadcast_agreement_two :
    let tr := (runOf step (initial 3 ⟨0,0⟩) twoClients).1
    (deliveredDuring tr twoClientsCalls 0).map cText =
      [joinMessage 5,formattedMessage 4 (ascii "hi"),formattedMessage 5 (ascii "ok")] ∧
    deliveredDuring tr twoClientsCalls 0 = twoClientsCalls.map (Call.data tr) ∧
    deliveredDuring tr twoClientsCalls 1 = twoClientsCalls.map (Call.data tr) := by
  have hrun := runOf_run step (initial 3 ⟨0,0⟩) twoClients (by decide +kernel)
  have hcalls : ∀ c ∈ twoClientsCalls, c.first < c.last ∧ 19 ≤ c.first ∧ c.last ≤ 43 ∧
      stepsFrom (runOf step (initial 3 ⟨0,0⟩) twoClients).1 c.first c.thread
        (.distribute c.payload .lock) = true ∧
      stepsFrom (runOf step (initial 3 ⟨0,0⟩) twoClients).1 c.last c.thread
        (.distribute c.payload (.loop none)) = true ∧
      ∀ x < c.last, c.first < x → stepsFrom (runOf step (initial 3 ⟨0,0⟩) twoClients).1 x c.thread
        (.distribute c.payload (.loop none)) = false := by decide +kernel
  have hkeys : ∀ x ≤ 43, 19 < x →
      let u := stateAt (runOf step (initial 3 ⟨0,0⟩) twoClients).1
        (runOf step (initial 3 ⟨0,0⟩) twoClients).2 x
      (u.shared.table 4 = some (.connection 0) ∧ 4 ∈ u.shared.clientSockets) ∧
        u.shared.table 5 = some (.connection 1) ∧ 5 ∈ u.shared.clientSockets := by decide +kernel
  refine ⟨by decide +kernel,(broadcast_agreement hrun (by decide +kernel)).1 0 1 twoClientsCalls
    (by decide) ?_⟩
  intro c hc
  obtain ⟨horder,hlo,hhi,hlock,hunlock,hinside⟩ := hcalls c hc
  refine ⟨⟨horder,hlock,hunlock,hinside⟩,?_,?_⟩
  · intro x hx hx'
    exact ⟨4,(hkeys x (by omega) (by omega)).1⟩
  · intro x hx hx'
    exact ⟨5,(hkeys x (by omega) (by omega)).2⟩

end TcpProjects.ChatServer
