import TcpProjects.Lib.TCPServer

/-! # What the destructor of TCPServer closes

The maps may hold too much, but they never hold too little: `closeAllSockets`, and with it the
destructor, reaches every socket that the object has open. What it reaches beyond these was
closed before by a call of `closeAllSockets`. -/

namespace TcpProjects.Lib
open Transition ChatServer

variable {p p' : Process} {c : Call} {q : Fd}

namespace Process

def held (p : Process) (fd : Fd) : Prop := fd ∈ p.object.serverSockets ∨ fd ∈ p.object.clientSockets

theorem closeEach_kept {fds : List Fd} {table : Table} {ok : Fd → Bool}
    (h : q ∈ fds → ok q = false) : closeEach table fds ok q = table q := by
  induction fds generalizing table with
  | nil => rfl
  | cons fd fds ih =>
    rw [closeEach_cons,ih fun hq => h (List.mem_cons_of_mem _ hq)]
    by_cases hq : q = fd
    · subst hq
      rw [close_table,h List.mem_cons_self]
      rfl
    · exact close_other table _ hq

/- The number may be in one map, in the other, or in both. -/
theorem closeSocket_cases (p : Process) (fd : Fd) (ok : Bool) :
    p.closeSocket fd ok = p ∨ (p.closeSocket fd ok).table = Function.update p.table fd none ∧
      (∀ q,q ≠ fd → ((p.closeSocket fd ok).held q ↔ p.held q)) ∧
      (∀ q,q ∈ (p.closeSocket fd ok).object.serverSockets → q ∈ p.object.serverSockets) ∧
      (∀ q,q ∈ (p.closeSocket fd ok).object.clientSockets → q ∈ p.object.clientSockets) ∧
      ((p.closeSocket fd ok).held fd → fd ∈ p.object.serverSockets ∧ fd ∈ p.object.clientSockets) := by
  simp only [closeSocket,close,isServerSocket,isClientSocket,decide_eq_true_eq]
  by_cases hc : p.table fd ≠ none ∧ ok = true
  · simp only [if_pos hc]
    right
    split_ifs with hs hcl
    · refine ⟨rfl,fun q hq => ?_,fun q hq => ((OrderedMap.mem_erase ..).mp hq).2,fun q hq => hq,?_⟩
      · simp [held,hq]
      · rintro (hfd | hfd)
        · exact absurd rfl ((OrderedMap.mem_erase ..).mp hfd).1
        · exact ⟨hs,hfd⟩
    · refine ⟨rfl,fun q hq => ?_,fun q hq => hq,fun q hq => ((OrderedMap.mem_erase ..).mp hq).2,?_⟩
      · simp [held,hq]
      · rintro (hfd | hfd)
        · exact absurd hfd hs
        · exact absurd rfl ((OrderedMap.mem_erase ..).mp hfd).1
    · refine ⟨rfl,fun q _ => Iff.rfl,fun q hq => hq,fun q hq => hq,?_⟩
      rintro (hfd | hfd)
      · exact absurd hfd hs
      · exact absurd hfd hcl
  · simp only [if_neg hc]
    exact Or.inl trivial

end Process

/-! ### Nothing is lost -/

/- Every socket that the object has open is in a map. -/
def Reaches (p : Process) : Prop := ∀ fd,p.table fd = some .thisObject → p.held fd

theorem reaches_fresh (table : Fd → Bool) (server : SockaddrIn) : Reaches (fresh table server) := by
  intro fd h
  simp only [fresh] at h
  split_ifs at h
  cases h

theorem Reaches.step (h : Reaches p) (hstep : Lib.step p c = some p') : Reaches p' := by
  intro q hq
  cases c with
  | makeSocket newSocket =>
    cases newSocket with
    | none =>
      cases hstep
      exact h q hq
    | some fd =>
      simp only [Lib.step,Process.makeSocket] at hstep
      split_ifs at hstep with hfree
      cases hstep
      by_cases he : q = fd
      · exact Or.inl ((OrderedMap.mem_insert ..).mpr (Or.inl he))
      · change Function.update p.table fd _ q = _ at hq
        rw [Function.update_of_ne he] at hq
        exact (h q hq).imp_left fun hs => (OrderedMap.mem_insert ..).mpr (Or.inr hs)
  | acceptClient client =>
    cases client with
    | none =>
      cases hstep
      exact h q hq
    | some x =>
      obtain ⟨fd,addr⟩ := x
      simp only [Lib.step,Process.acceptClient] at hstep
      split_ifs at hstep with hfree
      cases hstep
      by_cases he : q = fd
      · exact Or.inr ((OrderedMap.mem_insert ..).mpr (Or.inl he))
      · change Function.update p.table fd _ q = _ at hq
        rw [Function.update_of_ne he] at hq
        exact (h q hq).imp_right fun hs => (OrderedMap.mem_insert ..).mpr (Or.inr hs)
  | closeSocket fd ok =>
    cases hstep
    rcases p.closeSocket_cases fd ok with he | ⟨htable,hheld,_⟩
    · rw [he] at hq ⊢
      exact h q hq
    · rw [htable] at hq
      by_cases he : q = fd
      · rw [he,Function.update_self] at hq
        cases hq
      · rw [Function.update_of_ne he] at hq
        exact (hheld q he).mpr (h q hq)
  | closeAllSockets clients servers =>
    cases hstep
    exact h q (Process.closeEach_some (Process.closeEach_some hq))
  | openElsewhere fd =>
    simp only [Lib.step] at hstep
    split_ifs at hstep with hfree
    cases hstep
    by_cases he : q = fd
    · simp [he] at hq
    · exact h q (by simpa [he] using hq)
  | closeElsewhere fd =>
    simp only [Lib.step] at hstep
    split_ifs at hstep with hother
    cases hstep
    by_cases he : q = fd
    · simp [he] at hq
    · exact h q (by simpa [he] using hq)

/-! ### What is held beyond -/

/- A number that is not open here, or stands in both maps. -/
def Stale (p : Process) (fd : Fd) : Prop :=
  p.held fd ∧ p.table fd ≠ some .thisObject ∨ fd ∈ p.object.serverSockets ∧ fd ∈ p.object.clientSockets

/- A call of `closeAllSockets` that closed the number. -/
def closesInAll (fd : Fd) (x : Process × Call) : Prop :=
  match x.2 with
  | .closeAllSockets clients servers =>
    fd ∈ x.1.object.clientSockets ∧ clients fd = true ∨ fd ∈ x.1.object.serverSockets ∧ servers fd = true
  | _ => False

theorem Stale.step (hstep : Lib.step p c = some p') (h : Stale p' q) : Stale p q ∨ closesInAll q (p,c) := by
  cases c with
  | makeSocket newSocket =>
    left
    cases newSocket with
    | none =>
      cases hstep
      exact h
    | some fd =>
      simp only [Lib.step,Process.makeSocket] at hstep
      split_ifs at hstep with hfree
      cases hstep
      by_cases he : q = fd
      · subst he
        rcases h with ⟨_,hno⟩ | ⟨_,hclient⟩
        · exact absurd (Function.update_self ..) hno
        · exact Or.inl ⟨Or.inr hclient,by rw [hfree]; simp⟩
      · simpa [Stale,Process.held,he] using h
  | acceptClient client =>
    left
    cases client with
    | none =>
      cases hstep
      exact h
    | some x =>
      obtain ⟨fd,addr⟩ := x
      simp only [Lib.step,Process.acceptClient] at hstep
      split_ifs at hstep with hfree
      cases hstep
      by_cases he : q = fd
      · subst he
        rcases h with ⟨_,hno⟩ | ⟨hserver,_⟩
        · exact absurd (Function.update_self ..) hno
        · exact Or.inl ⟨Or.inl hserver,by rw [hfree]; simp⟩
      · simpa [Stale,Process.held,he] using h
  | closeSocket fd ok =>
    left
    cases hstep
    rcases p.closeSocket_cases fd ok with he | ⟨htable,hheld,hserver,hclient,hboth⟩
    · rwa [he] at h
    · rcases h with ⟨hq,hno⟩ | ⟨hs,hc⟩
      · by_cases he : q = fd
        · subst he
          exact Or.inr (hboth hq)
        · rw [htable,Function.update_of_ne he] at hno
          exact Or.inl ⟨(hheld q he).mp hq,hno⟩
      · exact Or.inr ⟨hserver q hs,hclient q hc⟩
  | closeAllSockets clients servers =>
    cases hstep
    rcases h with ⟨hq,hno⟩ | hboth
    · by_cases hcloses : closesInAll q (p,.closeAllSockets clients servers)
      · exact Or.inr hcloses
      · simp only [closesInAll,not_or,not_and,Bool.not_eq_true] at hcloses
        left
        refine Or.inl ⟨hq,fun hopen => hno ?_⟩
        change Process.closeEach (Process.closeEach _ _ _) _ _ q = _
        rw [Process.closeEach_kept fun hmem => hcloses.2 (by simpa using hmem),
          Process.closeEach_kept fun hmem => hcloses.1 (by simpa using hmem)]
        exact hopen
    · exact Or.inl (Or.inr hboth)
  | openElsewhere fd =>
    left
    simp only [Lib.step] at hstep
    split_ifs at hstep with hfree
    cases hstep
    refine h.imp_left fun hx => ⟨hx.1,?_⟩
    by_cases he : q = fd
    · rw [he,hfree]
      simp
    · simpa [he] using hx.2
  | closeElsewhere fd =>
    left
    simp only [Lib.step] at hstep
    split_ifs at hstep with hother
    cases hstep
    refine h.imp_left fun hx => ⟨hx.1,?_⟩
    by_cases he : q = fd
    · rw [he,hother]
      simp
    · simpa [he] using hx.2

theorem stale_run {table : Fd → Bool} {server : SockaddrIn} {tr : List (Process × Call)}
    (r : Run step (fresh table server) tr p) (h : Stale p q) : ∃ x ∈ tr,closesInAll q x := by
  induction r with
  | start =>
    rcases h with ⟨hq | hq,_⟩ | ⟨hq,_⟩ <;> exact absurd hq (OrderedMap.not_mem_empty q)
  | next r hstep ih =>
    rcases Stale.step hstep h with hbefore | hcloses
    · obtain ⟨x,hx,hc⟩ := ih hbefore
      exact ⟨x,List.mem_append_left _ hx,hc⟩
    · exact ⟨_,List.mem_append_right _ (List.mem_singleton_self _),hcloses⟩

/-- In every run the maps reach all sockets that the object has open: `closeAllSockets`, where
`close` does not fail, leaves none of them open. A number that they hold beyond these was
closed by an earlier call of `closeAllSockets`. -/
theorem sockets_never_leak {table : Fd → Bool} {server : SockaddrIn} {tr : List (Process × Call)}
    {p : Process} (r : Run step (fresh table server) tr p) :
    (∀ fd,p.table fd = some .thisObject → p.held fd) ∧
    {fd | p.table fd = some .thisObject}.ncard ≤ p.getNumSockets ∧
    (∀ fd,(p.closeAllSockets (fun _ => true) fun _ => true).table fd ≠ some .thisObject) ∧
    ∀ fd,p.held fd → p.table fd ≠ some .thisObject → ∃ x ∈ tr,closesInAll fd x := by
  have hreaches : Reaches p := r.invariant (reaches_fresh table server) fun _ _ _ h hs => h.step hs
  refine ⟨hreaches,?_,fun fd hopen => ?_,fun fd hheld hno => stale_run r (Or.inl ⟨hheld,hno⟩)⟩
  · have hsub : {fd | p.table fd = some .thisObject} ⊆
        ((p.object.clientSockets.keys ++ p.object.serverSockets.keys).toFinset : Set Fd) := by
      intro fd hfd
      rcases hreaches fd hfd with hs | hc
      · simp [hs]
      · simp [hc]
    have hle := Set.ncard_le_ncard hsub (Finset.finite_toSet _)
    rw [Set.ncard_coe_finset] at hle
    refine hle.trans ((List.toFinset_card_le _).trans (Nat.le_of_eq ?_))
    rw [List.length_append,OrderedMap.length_keys,OrderedMap.length_keys]
    rfl
  · have hclients := Process.closeEach_some hopen
    rcases hreaches fd (Process.closeEach_some hclients) with hs | hc
    · change Process.closeEach _ _ _ fd = _ at hopen
      rw [Process.closeEach_closed (by simpa using hs) rfl] at hopen
      cases hopen
    · rw [Process.closeEach_closed (by simpa using hc) rfl] at hclients
      cases hclients

/- A server socket that was closed with all others, and whose number other code has now. -/
def staleCalls : List Call :=
  [.makeSocket (some 3),.closeAllSockets (fun _ => true) (fun _ => true),.openElsewhere 3,
    .acceptClient (some (4,⟨0,0⟩))]

theorem sockets_never_leak_stale :
    let r := runOf step (fresh (fun fd => fd < 3) ⟨0,0⟩) staleCalls
    r.2.getNumSockets = 2 ∧ {fd | r.2.table fd = some .thisObject}.ncard ≤ 2 ∧
      r.2.table 3 = some .elsewhere ∧ ∃ x ∈ r.1,closesInAll 3 x := by
  have hrun := runOf_run step (fresh (fun fd => fd < 3) ⟨0,0⟩) staleCalls (by decide +kernel)
  have hsize : (runOf step (fresh (fun fd => fd < 3) ⟨0,0⟩) staleCalls).2.getNumSockets = 2 := by
    decide +kernel
  have htable : (runOf step (fresh (fun fd => fd < 3) ⟨0,0⟩) staleCalls).2.table 3 = some .elsewhere := by
    decide +kernel
  obtain ⟨_,hcard,_,hstale⟩ := sockets_never_leak hrun
  rw [hsize] at hcard
  refine ⟨hsize,hcard,htable,hstale 3 (Or.inl (by decide +kernel)) ?_⟩
  rw [htable]
  decide

end TcpProjects.Lib
