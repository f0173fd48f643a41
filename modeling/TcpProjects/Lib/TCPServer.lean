import TcpProjects.Base.Transition
import TcpProjects.Base.OrderedMap
import TcpProjects.ChatServer.Server
import Mathlib.Data.Set.Card

/-! # The socket registry of TCPServer

`makeSocket`, `acceptClient`, `closeSocket` and `closeAllSockets` with the
descriptor table of the process, which also tells what this object has opened.
The maps `serverSockets` and `clientSockets` are exact as long as `closeAllSockets`
closes nothing: it does not take out of the maps what it closes. -/

namespace TcpProjects.Lib
open Transition ChatServer

/- Who opened a number that is open. -/
inductive Opener where
  | thisObject
  | elsewhere
  deriving DecidableEq

abbrev Table := Fd → Option Opener

structure TCPServer where
  server : SockaddrIn
  serverSockets : OrderedMap Fd SockaddrIn
  clientSockets : OrderedMap Fd SockaddrIn

structure Process where
  table : Table
  object : TCPServer

namespace Process

/-- `close`: -1 for a number that is not open, and when the system says so (`ok` is false);
the table is then as before. -/
def close (table : Table) (fd : Fd) (ok : Bool) : Table × Bool :=
  if table fd ≠ none ∧ ok = true then (Function.update table fd none,true) else (table,false)

/-- What `socket` returns is `newSocket`, -1 (`none`) or a number that is not open. -/
def makeSocket (p : Process) (newSocket : Option Fd) : Option Process :=
  match newSocket with
  | none => some p
  | some fd =>
    if p.table fd = none then
      some ⟨Function.update p.table fd (some .thisObject),
        { p.object with serverSockets := p.object.serverSockets.insert fd p.object.server }⟩
    else none

def acceptClient (p : Process) (client : Option (Fd × SockaddrIn)) : Option Process :=
  match client with
  | none => some p
  | some (fd,addr) =>
    if p.table fd = none then
      some ⟨Function.update p.table fd (some .thisObject),
        { p.object with clientSockets := p.object.clientSockets.insert fd addr }⟩
    else none

def isClientSocket (p : Process) (fd : Fd) : Bool := decide (fd ∈ p.object.clientSockets)
def isServerSocket (p : Process) (fd : Fd) : Bool := decide (fd ∈ p.object.serverSockets)

def closeSocket (p : Process) (fd : Fd) (ok : Bool) : Process :=
  match close p.table fd ok with
  | (_,false) => p
  | (table,true) =>
    if p.isServerSocket fd then
      ⟨table,{ p.object with serverSockets := p.object.serverSockets.erase fd }⟩
    else if p.isClientSocket fd then
      ⟨table,{ p.object with clientSockets := p.object.clientSockets.erase fd }⟩
    else ⟨table,p.object⟩

def closeEach (table : Table) (fds : List Fd) (ok : Fd → Bool) : Table :=
  fds.foldl (fun table fd => (close table fd (ok fd)).1) table

def closeAllSockets (p : Process) (clients servers : Fd → Bool) : Process :=
  let table := closeEach p.table p.object.clientSockets.keys clients
  ⟨closeEach table p.object.serverSockets.keys servers,p.object⟩

def getNumSockets (p : Process) : ℕ := p.object.clientSockets.size + p.object.serverSockets.size

end Process

/-- A call with what the system answers in it, or a change of the table that other code
of the process makes. -/
inductive Call where
  | makeSocket (newSocket : Option Fd)
  | acceptClient (client : Option (Fd × SockaddrIn))
  | closeSocket (fd : Fd) (ok : Bool)
  | closeAllSockets (clients servers : Fd → Bool)
  | openElsewhere (fd : Fd)
  | closeElsewhere (fd : Fd)

def step (p : Process) : Call → Option Process
  | .makeSocket newSocket => p.makeSocket newSocket
  | .acceptClient client => p.acceptClient client
  | .closeSocket fd ok => some (p.closeSocket fd ok)
  | .closeAllSockets clients servers => some (p.closeAllSockets clients servers)
  | .openElsewhere fd =>
    if p.table fd = none then
      some { p with table := Function.update p.table fd (some .elsewhere) }
    else none
  | .closeElsewhere fd =>
    if p.table fd = some .elsewhere then some { p with table := Function.update p.table fd none }
    else none

/-- A new object in a process in which other code may have descriptors open. -/
def fresh (table : Fd → Bool) (server : SockaddrIn) : Process where
  table fd := if table fd then some .elsewhere else none
  object := ⟨server,OrderedMap.empty,OrderedMap.empty⟩

/-! ### Closing -/

namespace Process

/- Closing a number that is not open leaves the table as it is, too. -/
theorem close_table (table : Table) (fd : Fd) (ok : Bool) :
    (close table fd ok).1 = if ok = true then Function.update table fd none else table := by
  unfold close
  by_cases hok : ok = true
  · by_cases hn : table fd = none
    · have hsame : Function.update table fd none = table := by rw [← hn,Function.update_eq_self]
      simp [hok,hn,hsame]
    · simp [hok,hn]
  · simp [hok]

theorem close_other (table : Table) {fd q : Fd} (ok : Bool) (h : q ≠ fd) :
    (close table fd ok).1 q = table q := by
  rw [close_table]
  split_ifs
  · rw [Function.update_of_ne h]
  · rfl

theorem close_some {table : Table} {fd q : Fd} {ok : Bool} {o : Opener}
    (h : (close table fd ok).1 q = some o) : table q = some o := by
  by_cases hq : q = fd
  · subst hq
    rw [close_table] at h
    split_ifs at h with hok
    · rw [Function.update_self] at h
      cases h
    · exact h
  · rwa [close_other table ok hq] at h

theorem closeEach_cons (table : Table) (fd : Fd) (fds : List Fd) (ok : Fd → Bool) :
    closeEach table (fd :: fds) ok = closeEach (close table fd (ok fd)).1 fds ok := rfl

theorem closeEach_some {fds : List Fd} {table : Table} {ok : Fd → Bool} {q : Fd} {o : Opener}
    (h : closeEach table fds ok q = some o) : table q = some o := by
  induction fds generalizing table with
  | nil => exact h
  | cons fd fds ih => exact close_some (ih (closeEach_cons table fd fds ok ▸ h))

theorem closeEach_refused {fds : List Fd} {table : Table} {ok : Fd → Bool}
    (h : ∀ fd ∈ fds, ok fd = false) : closeEach table fds ok = table := by
  induction fds with
  | nil => rfl
  | cons fd fds ih =>
    rw [closeEach_cons,h fd (List.mem_cons_self ..),close_table]
    exact ih fun q hq => h q (List.mem_cons_of_mem _ hq)

theorem closeEach_closed {fds : List Fd} {table : Table} {ok : Fd → Bool} {fd : Fd}
    (hfd : fd ∈ fds) (hok : ok fd = true) : closeEach table fds ok fd = none := by
  induction fds generalizing table with
  | nil => cases hfd
  | cons q fds ih =>
    rw [closeEach_cons]
    rcases List.mem_cons.mp hfd with rfl | hfd
    · cases hx : closeEach (close table fd (ok fd)).1 fds ok fd with
      | none => rfl
      | some o =>
        have hclosed := closeEach_some hx
        rw [close_table,if_pos hok,Function.update_self] at hclosed
        cases hclosed
    · exact ih hfd

theorem closeEach_untouched {fds : List Fd} {table : Table} {ok : Fd → Bool} {q : Fd}
    (h : q ∉ fds) : closeEach table fds ok q = table q := by
  induction fds generalizing table with
  | nil => rfl
  | cons fd fds ih =>
    simp only [List.mem_cons,not_or] at h
    rw [closeEach_cons,ih h.2,close_other table _ h.1]

end Process

/-! ### What the registry promises -/

/- The state of each number when the destructor calls `close` on it. -/
def closedInTurn (table : Table) (ok : Fd → Bool) : List Fd → List (Option Opener)
  | [] => []
  | fd :: fds => table fd :: closedInTurn (Process.close table fd (ok fd)).1 ok fds

/-- `TCPServer::~TCPServer` closes the client sockets and then the server sockets. -/
def destructorCloses (p : Process) (clients servers : Fd → Bool) : List (Option Opener) :=
  closedInTurn p.table clients p.object.clientSockets.keys ++
    closedInTurn (Process.closeEach p.table p.object.clientSockets.keys clients) servers
      p.object.serverSockets.keys

structure Exact (p : Process) : Prop where
  disjoint : ∀ fd ∈ p.object.clientSockets, fd ∉ p.object.serverSockets
  union : ∀ fd, fd ∈ p.object.serverSockets ∨ fd ∈ p.object.clientSockets ↔
    p.table fd = some .thisObject

/- The maps say what is open, their sizes say how much, and the destructor would close only
what this object has open. -/
structure Registered (p : Process) : Prop extends Exact p where
  count : p.getNumSockets = {fd | p.table fd = some .thisObject}.ncard
  destructor : ∀ clients servers, ∀ o ∈ destructorCloses p clients servers, o = some .thisObject

theorem closedInTurn_own {fds : List Fd} (hn : fds.Nodup) {table : Table} {ok : Fd → Bool}
    (h : ∀ fd ∈ fds, table fd = some .thisObject) :
    ∀ o ∈ closedInTurn table ok fds, o = some .thisObject := by
  induction fds generalizing table with
  | nil =>
    intro o ho
    cases ho
  | cons fd fds ih =>
    obtain ⟨hfd,hn⟩ := List.nodup_cons.mp hn
    intro o ho
    rcases List.mem_cons.mp ho with rfl | ho
    · exact h fd (List.mem_cons_self ..)
    · refine ih hn (fun q hq => ?_) o ho
      have hq' : q ≠ fd := fun he => hfd (he ▸ hq)
      rw [Process.close_other table _ hq']
      exact h q (List.mem_cons_of_mem _ hq)

theorem Exact.registered {p : Process} (h : Exact p) : Registered p := by
  have hc (fd : Fd) (hfd : fd ∈ p.object.clientSockets) : p.table fd = some .thisObject :=
    (h.union fd).mp (Or.inr hfd)
  have hs (fd : Fd) (hfd : fd ∈ p.object.serverSockets) : p.table fd = some .thisObject :=
    (h.union fd).mp (Or.inl hfd)
  refine ⟨h,?_,fun clients servers o ho => ?_⟩
  · have hset : {fd | p.table fd = some .thisObject} =
        ((p.object.clientSockets.keys ++ p.object.serverSockets.keys).toFinset : Set Fd) := by
      ext fd
      simp [← h.union fd,or_comm]
    have hnodup : (p.object.clientSockets.keys ++ p.object.serverSockets.keys).Nodup := by
      refine List.nodup_append.mpr ⟨OrderedMap.keys_nodup _,OrderedMap.keys_nodup _,?_⟩
      intro a ha b hb hab
      subst hab
      exact h.disjoint a (by simpa using ha) (by simpa using hb)
    rw [hset,Set.ncard_coe_finset,List.toFinset_card_of_nodup hnodup,List.length_append,
      OrderedMap.length_keys,OrderedMap.length_keys]
    rfl
  · rcases List.mem_append.mp ho with ho | ho
    · exact closedInTurn_own (OrderedMap.keys_nodup _) (fun fd hfd => hc fd (by simpa using hfd)) o ho
    · refine closedInTurn_own (OrderedMap.keys_nodup _) (fun fd hfd => ?_) o ho
      have hfd : fd ∈ p.object.serverSockets := by simpa using hfd
      rw [Process.closeEach_untouched (fun hx => h.disjoint fd (by simpa using hx) hfd)]
      exact hs fd hfd

/-! ### Steps -/

/- `closeAllSockets` is called only when it can close none of the sockets in the maps. -/
def closesNothing (x : Process × Call) : Bool :=
  match x.2 with
  | .closeAllSockets clients servers =>
    x.1.object.clientSockets.keys.all (fun fd => !clients fd) &&
      x.1.object.serverSockets.keys.all fun fd => !servers fd
  | _ => true

theorem closesNothing_iff {p : Process} {clients servers : Fd → Bool} :
    closesNothing (p,.closeAllSockets clients servers) = true ↔
      (∀ fd ∈ p.object.clientSockets.keys, clients fd = false) ∧
      ∀ fd ∈ p.object.serverSockets.keys, servers fd = false := by
  simp [closesNothing]

theorem exact_fresh (table : Fd → Bool) (server : SockaddrIn) : Exact (fresh table server) := by
  constructor
  · intro fd h
    exact absurd h (OrderedMap.not_mem_empty fd)
  · intro fd
    simp only [fresh,OrderedMap.not_mem_empty,or_self,false_iff]
    split_ifs <;> simp

/- `closeSocket` changes nothing, or takes the number out of the table and of the maps. -/
theorem Exact.closeSocket_effect {p : Process} (h : Exact p) (fd : Fd) (ok : Bool) :
    p.closeSocket fd ok = p ∨ (p.closeSocket fd ok).table = Function.update p.table fd none ∧
      (∀ q, q ∈ (p.closeSocket fd ok).object.serverSockets ↔ q ≠ fd ∧ q ∈ p.object.serverSockets) ∧
      ∀ q, q ∈ (p.closeSocket fd ok).object.clientSockets ↔ q ≠ fd ∧ q ∈ p.object.clientSockets := by
  have hout {m : OrderedMap Fd SockaddrIn} (hno : fd ∉ m) (q : Fd) : q ∈ m ↔ q ≠ fd ∧ q ∈ m := by
    constructor
    · intro hq
      exact ⟨fun he => hno (he ▸ hq),hq⟩
    · intro hq
      exact hq.2
  simp only [Process.closeSocket,Process.close,Process.isServerSocket,Process.isClientSocket,
    decide_eq_true_eq]
  by_cases hc : p.table fd ≠ none ∧ ok = true
  · simp only [if_pos hc]
    split_ifs with hs hcl
    · have hno : fd ∉ p.object.clientSockets := fun hx => h.disjoint fd hx hs
      exact Or.inr ⟨rfl,fun q => OrderedMap.mem_erase ..,hout hno⟩
    · exact Or.inr ⟨rfl,hout hs,fun q => OrderedMap.mem_erase ..⟩
    · exact Or.inr ⟨rfl,hout hs,hout hcl⟩
  · simp only [if_neg hc]
    exact Or.inl trivial

theorem Exact.closeSocket {p : Process} (h : Exact p) (fd : Fd) (ok : Bool) :
    Exact (p.closeSocket fd ok) := by
  rcases h.closeSocket_effect fd ok with he | ⟨htab,hs,hc⟩
  · rw [he]
    exact h
  · refine ⟨fun q hq => ?_,fun q => ?_⟩
    · rw [hs q]
      exact fun hx => h.disjoint q ((hc q).mp hq).2 hx.2
    · rw [hs q,hc q,← and_or_left,h.union q,htab]
      by_cases hq : q = fd <;> simp [hq]

theorem Exact.step {p p' : Process} {c : Call} (h : Exact p) (hc : closesNothing (p,c) = true)
    (hstep : Lib.step p c = some p') : Exact p' := by
  have hd := h.disjoint
  have hu := h.union
  have hnew {fd : Fd} (hfree : p.table fd = none) :
      fd ∉ p.object.serverSockets ∧ fd ∉ p.object.clientSockets := by
    have := hu fd
    rw [hfree] at this
    simpa [not_or] using this
  cases c with
  | makeSocket newSocket =>
    cases newSocket with
    | none =>
      cases hstep
      exact h
    | some fd =>
      simp only [Lib.step,Process.makeSocket] at hstep
      split_ifs at hstep with hfree
      cases hstep
      obtain ⟨hs,hcl⟩ := hnew hfree
      refine ⟨fun q hq => ?_,fun q => ?_⟩
      · have hne : q ≠ fd := fun he => hcl (he ▸ hq)
        simp [hne,hd q hq]
      · by_cases hq : q = fd <;> simp [hq,hu q]
  | acceptClient client =>
    cases client with
    | none =>
      cases hstep
      exact h
    | some x =>
      obtain ⟨fd,addr⟩ := x
      simp only [Lib.step,Process.acceptClient] at hstep
      split_ifs at hstep with hfree
      cases hstep
      obtain ⟨hs,hcl⟩ := hnew hfree
      refine ⟨fun q hq => ?_,fun q => ?_⟩
      · rcases (OrderedMap.mem_insert ..).mp hq with rfl | hq
        · exact hs
        · exact hd q hq
      · by_cases hq : q = fd <;> simp [hq,hu q]
  | closeSocket fd ok =>
    cases hstep
    exact h.closeSocket fd ok
  | closeAllSockets clients servers =>
    cases hstep
    obtain ⟨h1,h2⟩ := closesNothing_iff.mp hc
    have htab : (p.closeAllSockets clients servers).table = p.table := by
      simp only [Process.closeAllSockets]
      rw [Process.closeEach_refused h2,Process.closeEach_refused h1]
    exact ⟨hd,fun fd => by rw [htab]; exact hu fd⟩
  | openElsewhere fd =>
    simp only [Lib.step] at hstep
    split_ifs at hstep with hfree
    cases hstep
    refine ⟨hd,fun q => ?_⟩
    by_cases hq : q = fd
    · subst hq
      simp [hnew hfree]
    · simp [hq,hu q]
  | closeElsewhere fd =>
    simp only [Lib.step] at hstep
    split_ifs at hstep with hother
    cases hstep
    refine ⟨hd,fun q => ?_⟩
    by_cases hq : q = fd
    · subst hq
      have := hu q
      rw [hother] at this
      simpa using this
    · simp [hq,hu q]

/- A socket that `closeAllSockets` closes stays in its map. -/
theorem Exact.closesNothing {p p' : Process} {c : Call} (h' : Exact p')
    (hstep : Lib.step p c = some p') : closesNothing (p,c) = true := by
  cases c with
  | closeAllSockets clients servers =>
    cases hstep
    have hopen (fd : Fd) (hfd : fd ∈ p.object.serverSockets ∨ fd ∈ p.object.clientSockets) :
        Process.closeEach (Process.closeEach p.table p.object.clientSockets.keys clients)
          p.object.serverSockets.keys servers fd = some .thisObject := (h'.union fd).mp hfd
    refine closesNothing_iff.mpr ⟨fun fd hfd => ?_,fun fd hfd => ?_⟩
    · have hkept := Process.closeEach_some (hopen fd (Or.inr (by simpa using hfd)))
      by_contra hok
      rw [Process.closeEach_closed hfd (by simpa using hok)] at hkept
      cases hkept
    · have hkept := hopen fd (Or.inl (by simpa using hfd))
      by_contra hok
      rw [Process.closeEach_closed hfd (by simpa using hok)] at hkept
      cases hkept
  | _ => rfl

/-- The registry is right after every call of a run exactly if `closeAllSockets` never
closed anything in it. -/
theorem registry_of_sockets {table : Fd → Bool} {server : SockaddrIn}
    {tr : List (Process × Call)} {p : Process} (r : Run step (fresh table server) tr p) :
    (∀ i ≤ tr.length, Registered (stateAt tr p i)) ↔ ∀ x ∈ tr, closesNothing x = true := by
  constructor
  · intro h x hx
    obtain ⟨i,hi⟩ := List.mem_iff_getElem?.mp hx
    obtain ⟨hl,_⟩ := List.getElem?_eq_some_iff.mp hi
    exact (h (i+1) hl).toExact.closesNothing (r.step_at hi)
  · intro h i hi
    have hpre := r.prefix_at i hi
    refine (hpre.guarded (I := Exact) (fun p c => closesNothing (p,c) = true) (exact_fresh table server)
      (fun _ _ _ hp hc hs => hp.step hc hs) fun x hx => ?_).registered
    exact h x (List.mem_of_mem_take hx)

/- A server socket and a client; the client's number is closed and accepted again, and then
`closeAllSockets` can close nothing. -/
def registryCalls : List Call :=
  [.makeSocket (some 3),.acceptClient (some (4,⟨0,0⟩)),.closeSocket 4 true,
    .acceptClient (some (4,⟨0,0⟩)),.closeAllSockets (fun _ => false) (fun _ => false)]

theorem registry_of_sockets_reopened :
    let r := runOf step (fresh (fun fd => fd < 3) ⟨0,0⟩) registryCalls
    Registered r.2 ∧ r.2.getNumSockets = 2 := by
  have hrun := runOf_run step (fresh (fun fd => fd < 3) ⟨0,0⟩) registryCalls (by decide +kernel)
  have hall := (registry_of_sockets hrun).mpr (by decide +kernel) _ (Nat.le_refl _)
  rw [stateAt_length] at hall
  exact ⟨hall,by decide +kernel⟩

/- After `closeAllSockets` a number can come back as a client's while the maps still
have it as the server's. -/
theorem registry_of_sockets_not_exact :
    ¬ ∀ (table : Fd → Bool) (server : SockaddrIn) (tr : List (Process × Call)) (p : Process),
      Run step (fresh table server) tr p → Registered p := by
  intro h
  let calls : List Call :=
    [.makeSocket (some 3),.closeAllSockets (fun _ => true) (fun _ => true),
      .acceptClient (some (3,⟨0,0⟩))]
  have hrun := runOf_run step (fresh (fun fd => fd < 3) ⟨0,0⟩) calls (by decide +kernel)
  exact (h _ _ _ _ hrun).disjoint 3 (by decide +kernel) (by decide +kernel)

end TcpProjects.Lib
