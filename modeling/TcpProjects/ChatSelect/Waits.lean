import Mathlib.Algebra.Order.BigOperators.Group.Finset
import Mathlib.Data.Fintype.EquivFin
import TcpProjects.Base.Queues
import TcpProjects.ChatSelect.Effects

/-! # How long the select-based server goes on

As long as no `read` comes to the end of a stream, the server makes a bounded number of steps
between two arrivals: a pass behind `select` reads at least one byte. It then waits in
`select`, in the `read` of one client, for its name or behind an empty text, or in the
`send` to one client. -/

namespace TcpProjects.ChatSelect
open ChatServer Transition

variable {ι : Type*} [DecidableEq ι] {clients : ι → Client} {s s' : Server ι} {a : Action ι} {i : ι}

/-! ### The steps that are left -/

namespace Server
variable (s)

/- The bytes that have come and the connections, each of which begins a pass, and one pass
that reads nothing more. -/
def unread : ℕ := ∑ i ∈ s.present.toFinset,s.available i
def work : ℕ := s.unread+s.pending.length+1

/- A client is to be read in the rest of the pass. -/
def Due (rest : List (Fd × ι)) (readfds : List Fd) : Prop :=
  ∃ p ∈ rest,p.1 ∈ readfds ∧ s.readable p.2 = true

instance (rest : List (Fd × ι)) (readfds : List Fd) : Decidable (s.Due rest readfds) :=
  inferInstanceAs (Decidable (∃ p ∈ rest,p.1 ∈ readfds ∧ s.readable p.2 = true))

/- The passes behind the current one, and the steps of this one. -/
def passesLeft : ℕ :=
  match s.pc with
  | .select | .readUsername _ _ _ => s.work
  | .acceptClient _ => s.work-1
  | .readMessages rest readfds | .send _ _ rest readfds =>
    if s.Due rest readfds then s.work-1 else s.work
  | .killed => 0

def stepsLeft : ℕ :=
  match s.pc with
  | .select | .killed => 0
  | .acceptClient _ => 2*s.present.length+4
  | .readUsername _ _ _ => 2*s.present.length+3
  | .readMessages rest readfds => if s.Due rest readfds then 2*rest.length+2 else 2*rest.length+1
  | .send _ _ rest readfds => if s.Due rest readfds then 2*rest.length+3 else 2*rest.length+2

def left : ℕ := s.passesLeft*(2*s.present.length+5)+s.stepsLeft

variable {s}

omit [DecidableEq ι] in
theorem mem_present {p : Fd × ι} (hp : p ∈ s.clientSockets) : p.2 ∈ s.present :=
  List.mem_append_left _ (List.mem_map_of_mem hp)

omit [DecidableEq ι] in
theorem rest_length {rest : List (Fd × ι)} (hrest : rest <:+ s.clientSockets) :
    rest.length ≤ s.present.length := by
  have hle := hrest.length_le
  rw [present,List.length_append,List.length_map]
  omega

omit [DecidableEq ι] in
theorem due_skip {fd : Fd} {rest : List (Fd × ι)} {readfds : List Fd} (hfd : fd ∉ readfds) :
    s.Due ((fd,i) :: rest) readfds ↔ s.Due rest readfds := by
  unfold Due
  rw [List.exists_mem_cons_iff]
  exact or_iff_right fun h => hfd h.1

/- The client that is due pays for the pass in which it is read. -/
theorem left_reading {rest : List (Fd × ι)} {readfds : List Fd} (hpc : s.pc = .readMessages rest readfds) :
    (s.Due rest readfds ∧ s.passesLeft+1 = s.work ∧ s.stepsLeft = 2*rest.length+2) ∨
    (¬ s.Due rest readfds ∧ s.passesLeft = s.work ∧ s.stepsLeft = 2*rest.length+1) := by
  rw [passesLeft,stepsLeft,hpc]
  by_cases hdue : s.Due rest readfds
  · exact Or.inl ⟨hdue,congrArg (·+1) (if_pos hdue),if_pos hdue⟩
  · exact Or.inr ⟨hdue,if_neg hdue,if_neg hdue⟩

theorem left_sending {fd : Fd} {rest : List (Fd × ι)} {readfds : List Fd}
    (hpc : s.pc = .send fd i rest readfds) :
    (s.Due rest readfds ∧ s.passesLeft+1 = s.work ∧ s.stepsLeft = 2*rest.length+3) ∨
    (¬ s.Due rest readfds ∧ s.passesLeft = s.work ∧ s.stepsLeft = 2*rest.length+2) := by
  rw [passesLeft,stepsLeft,hpc]
  by_cases hdue : s.Due rest readfds
  · exact Or.inl ⟨hdue,congrArg (·+1) (if_pos hdue),if_pos hdue⟩
  · exact Or.inr ⟨hdue,if_neg hdue,if_neg hdue⟩

/- Fewer passes, or as many and fewer steps. -/
theorem left_lt (hpresent : s'.present = s.present) (hsteps : s'.stepsLeft < 2*s.present.length+5)
    (h : s'.passesLeft < s.passesLeft ∨ s'.passesLeft ≤ s.passesLeft ∧ s'.stepsLeft < s.stepsLeft) :
    s'.left < s.left := by
  unfold left
  rw [hpresent]
  rcases h with hpasses | ⟨hpasses,hless⟩
  · have hmul := Nat.mul_le_mul_right (2*s.present.length+5) hpasses
    rw [Nat.succ_mul] at hmul
    omega
  · have hmul := Nat.mul_le_mul_right (2*s.present.length+5) hpasses
    omega

/- The iterator goes on, and no client is read that was due. -/
theorem left_goto {rest : List (Fd × ι)} {readfds : List Fd} (hall : rest.length ≤ s.present.length)
    (h : (s.Due rest readfds ∧ s.passesLeft+1 = s.work ∧ 2*rest.length+2 < s.stepsLeft) ∨
      (¬ s.Due rest readfds ∧ s.passesLeft = s.work ∧ 2*rest.length+1 < s.stepsLeft)) :
    (s.goto (.readMessages rest readfds)).left < s.left := by
  have hnow := left_reading (s := s.goto (.readMessages rest readfds)) rfl
  change (s.Due rest readfds ∧ _ = s.work ∧ _) ∨ (¬ s.Due rest readfds ∧ _ = s.work ∧ _) at hnow
  rcases h with ⟨hdue,_,_⟩ | ⟨hdue,_,_⟩
  · rcases hnow with ⟨_,_,_⟩ | ⟨hnone,_⟩
    · exact left_lt rfl (by omega) (by omega)
    · exact absurd hdue hnone
  · rcases hnow with ⟨hsome,_⟩ | ⟨_,_,_⟩
    · exact absurd hsome hdue
    · exact left_lt rfl (by omega) (by omega)

theorem unread_consume {k : ℕ} (hi : i ∈ s.present) (hk : k ≤ s.available i)
    (hpresent : s'.present = s.present) (hdelivered : s'.delivered = s.delivered)
    (hconsumed : s'.consumed = Function.update s.consumed i (s.consumed i+k)) :
    s'.unread+k = s.unread := by
  have hother (x : ι) (hx : x ≠ i) : s'.available x = s.available x := by
    rw [available,available,hdelivered,hconsumed,Function.update_of_ne hx]
  have hself : s'.available i+k = s.available i := by
    unfold available at hk ⊢
    rw [hdelivered,hconsumed,Function.update_self]
    omega
  have hsum := Queues.sum_change (List.mem_toFinset.mpr hi) hother
  unfold unread
  rw [hpresent]
  omega

end Server

/- The `read` that the server is in gets a byte. -/
def Fed (s : Server ι) : Prop :=
  match s.pc with
  | .readUsername _ i _ => 0 < s.available i
  | .readMessages ((fd,i) :: _) readfds => fd ∈ readfds → 0 < s.available i
  | _ => True

namespace Wired
open Server

/- What is left behind a read of a byte. -/
theorem work_read {t : Server ι} {size : ℕ} {chunk : Bytes} (h : Wired clients s)
    (hsize : 0 < size) (hi : i ∈ s.present) (hpos : 0 < s.available i)
    (hread : s.read clients i size = some chunk)
    (hpresent : t.present = s.present) (hpending : t.pending = s.pending)
    (hdelivered : t.delivered = s.delivered)
    (hconsumed : t.consumed = Function.update s.consumed i (s.consumed i+chunk.length)) :
    t.work < s.work := by
  have hlength := (h.read_length hread).1
  have hsum := unread_consume hi (by omega) hpresent hdelivered hconsumed
  unfold work
  rw [hpending]
  omega

/- A name is read, and the pass begins. -/
theorem left_named {t : Server ι} {newSocket : Fd} {readfds : List Fd} {chunk : Bytes}
    (h : Wired clients s) (hpc : s.pc = .readUsername newSocket i readfds) (hpos : 0 < s.available i)
    (hread : s.read clients i 22 = some chunk)
    (hpresent : t.present = s.present) (hpending : t.pending = s.pending)
    (hdelivered : t.delivered = s.delivered)
    (hconsumed : t.consumed = Function.update s.consumed i (s.consumed i+chunk.length))
    (hnow : t.pc = .readMessages s.clientSockets readfds) : t.left < s.left := by
  have hwork := h.work_read (by decide) (mem_present (h.naming _ _ _ hpc)) hpos hread
    hpresent hpending hdelivered hconsumed
  have hall := rest_length (s := s) List.suffix_rfl
  have hpasses : s.passesLeft = s.work := by rw [passesLeft,hpc]
  rcases left_reading hnow with ⟨_,_,_⟩ | ⟨_,_,_⟩
  · exact Server.left_lt hpresent (by omega) (Or.inl (by omega))
  · exact Server.left_lt hpresent (by omega) (Or.inl (by omega))

/- A text is read; it is empty, or it is sent back. -/
theorem left_read {t : Server ι} {fd : Fd} {rest : List (Fd × ι)} {readfds : List Fd} {chunk : Bytes}
    (h : Wired clients s) (hpc : s.pc = .readMessages ((fd,i) :: rest) readfds)
    (hpos : 0 < s.available i) (hread : s.read clients i 2048 = some chunk)
    (hpresent : t.present = s.present) (hpending : t.pending = s.pending)
    (hdelivered : t.delivered = s.delivered)
    (hconsumed : t.consumed = Function.update s.consumed i (s.consumed i+chunk.length))
    (hnow : t.pc = .readMessages ((fd,i) :: rest) readfds ∨ t.pc = .send fd i rest readfds) :
    t.left < s.left := by
  have hrest := h.iterator _ _ hpc
  have hwork := h.work_read (by decide) (mem_present (hrest.subset List.mem_cons_self)) hpos hread
    hpresent hpending hdelivered hconsumed
  have hall := rest_length hrest
  have hbefore := left_reading hpc
  rw [List.length_cons] at hall hbefore
  rcases hnow with hnow | hnow
  · have hafter := left_reading hnow
    rw [List.length_cons] at hafter
    rcases hbefore with ⟨_,_,_⟩ | ⟨_,_,_⟩
    · exact Server.left_lt hpresent (by omega) (by omega)
    · exact Server.left_lt hpresent (by omega) (by omega)
  · have hafter := left_sending hnow
    rcases hbefore with ⟨_,_,_⟩ | ⟨_,_,_⟩
    · exact Server.left_lt hpresent (by omega) (by omega)
    · exact Server.left_lt hpresent (by omega) (by omega)

/- Each step of the server leaves less, as long as no `read` comes to the end of a stream. -/
theorem left_lt (h : Wired clients s) (hfed : Fed s) (he : Effect clients s a s') : s'.left < s.left := by
  unfold Fed at hfed
  cases he with
  | accepts hpc hpending =>
    refine Server.left_lt rfl (show 2*s.present.length+4 < _ by omega) (Or.inl ?_)
    rw [passesLeft,passesLeft,hpc]
    change s.work-1 < s.work
    unfold work
    omega
  | reads hpc hready =>
    have hdue : s.Due s.clientSockets s.readfds := by
      obtain ⟨fd,hfd⟩ := List.exists_mem_of_ne_nil _ hready
      obtain ⟨p,hp,rfl⟩ := List.mem_map.mp hfd
      exact ⟨p,(List.mem_filter.mp hp).1,hfd,(List.mem_filter.mp hp).2⟩
    have hall := rest_length (s := s) List.suffix_rfl
    have hpasses : s.passesLeft = s.work := by rw [passesLeft,hpc]
    rcases left_reading (s := s.goto (.readMessages s.clientSockets s.readfds)) rfl with
      ⟨_,hless,hsteps⟩ | ⟨hnot,_,_⟩
    · change _ = s.work at hless
      exact Server.left_lt rfl (by omega) (Or.inl (by omega))
    · exact absurd hdue hnot
  | @accepted newSocket i pending readfds hpc hpending hfresh =>
    have hpresent : (s.clientSockets ++ [(newSocket,i)]).map Prod.snd ++ pending = s.present := by
      rw [present,hpending,List.map_append,List.map_singleton,List.append_assoc]
      rfl
    have hsteps : s.stepsLeft = 2*s.present.length+4 := by rw [stepsLeft,hpc]
    have hnow : 2*((s.clientSockets ++ [(newSocket,i)]).map Prod.snd ++ pending).length+3 =
        2*s.present.length+3 := by rw [hpresent]
    refine Server.left_lt hpresent (hnow.trans_lt (by omega)) (Or.inr ⟨?_,hnow.trans_lt (by omega)⟩)
    rw [passesLeft,passesLeft,hpc]
    change unread _+pending.length+1 ≤ s.work-1
    unfold work unread
    rw [present,hpresent,hpending,List.length_cons]
    exact Nat.le_refl _
  | named hpc hread =>
    rw [hpc] at hfed
    exact h.left_named hpc hfed hread rfl rfl rfl rfl rfl
  | passed hpc =>
    rcases left_reading hpc with ⟨⟨p,hp,_⟩,_⟩ | ⟨_,hpasses,hsteps⟩
    · cases hp
    · refine Server.left_lt rfl (show 0 < _ by omega) (Or.inr ⟨?_,show 0 < _ by omega⟩)
      exact Nat.le_of_eq hpasses.symm
  | @skipped fd i rest readfds hpc hnot =>
    have hall := rest_length (h.iterator _ _ hpc)
    rw [List.length_cons] at hall
    refine left_goto (by omega) ?_
    have hbefore := left_reading hpc
    rw [due_skip hnot,List.length_cons] at hbefore
    rcases hbefore with ⟨hdue,hpasses,_⟩ | ⟨hdue,hpasses,_⟩
    · exact Or.inl ⟨hdue,hpasses,by omega⟩
    · exact Or.inr ⟨hdue,hpasses,by omega⟩
  | again hpc hmem hread hempty =>
    rw [hpc] at hfed
    exact h.left_read hpc (hfed hmem) hread rfl rfl rfl rfl (Or.inl rfl)
  | printed hpc hmem hread htext =>
    rw [hpc] at hfed
    exact h.left_read hpc (hfed hmem) hread rfl rfl rfl rfl (Or.inr rfl)
  | failed hpc hmem hclosed hend =>
    rw [hpc] at hfed
    have hpos := hfed hmem
    omega
  | @sent fd i rest readfds hpc =>
    have hall := rest_length (h.sending _ _ _ _ hpc)
    rw [List.length_cons] at hall
    refine left_goto (by omega) ?_
    rcases left_sending hpc with ⟨hdue,hpasses,_⟩ | ⟨hdue,hpasses,_⟩
    · exact Or.inl ⟨hdue,hpasses,by omega⟩
    · exact Or.inr ⟨hdue,hpasses,by omega⟩
  | killed hpc hclosed =>
    refine Server.left_lt rfl (show 0 < _ by omega) (Or.inr ⟨Nat.zero_le _,?_⟩)
    rcases left_sending hpc with ⟨_,_,hsteps⟩ | ⟨_,_,hsteps⟩
    · exact (show 0 < s.stepsLeft by omega)
    · exact (show 0 < s.stepsLeft by omega)

theorem left_le (h : Wired clients s) : s.left ≤ (s.work+1)*(2*s.present.length+5) := by
  have hpasses : s.passesLeft ≤ s.work ∧ s.stepsLeft ≤ 2*s.present.length+4 := by
    cases hpc : s.pc with
    | select | acceptClient readfds | readUsername newSocket i readfds | killed =>
      rw [passesLeft,stepsLeft,hpc]
      dsimp only
      omega
    | readMessages rest readfds =>
      have hle := rest_length (h.iterator _ _ hpc)
      rcases left_reading hpc with ⟨_,_,_⟩ | ⟨_,_,_⟩
      · omega
      · omega
    | send fd i rest readfds =>
      have hle := rest_length (h.sending _ _ _ _ hpc)
      rw [List.length_cons] at hle
      rcases left_sending hpc with ⟨_,_,_⟩ | ⟨_,_,_⟩
      · omega
      · omega
  have hmul := Nat.mul_le_mul_right (2*s.present.length+5) hpasses.1
  unfold Server.left
  rw [Nat.succ_mul s.work]
  omega

/- In a run in which every `read` gets a byte. -/
theorem run_length (h : Wired clients s) {tr : List (Server ι × Action ι)}
    (r : Run (Server.step clients) s tr s') (hfed : ∀ x ∈ tr,x.2.ofServer = true ∧ Fed x.1) :
    tr.length ≤ (s.work+1)*(2*s.present.length+5) := by
  have hlength := (r.length_le (I := Wired clients) (fun u a => a.ofServer = true ∧ Fed u) Server.left h
    (fun u a u' hu hua hs => ⟨hu.step hs,hu.left_lt hua.2 (step_effect hua.1 hs)⟩) hfed).2
  have hbound := h.left_le
  omega

end Wired

/-! ### Waiting -/

/- Nothing has come. -/
def Idle (s : Server ι) : Prop :=
  s.pc = .select ∧ s.pending = [] ∧ ∀ p ∈ s.clientSockets,s.readable p.2 = false

instance (s : Server ι) : Decidable (Idle s) :=
  inferInstanceAs (Decidable (s.pc = .select ∧ s.pending = [] ∧
    ∀ p ∈ s.clientSockets,s.readable p.2 = false))

/- The server is in a `read` of client `i`, which has sent nothing more. -/
def Blocked (s : Server ι) (i : ι) : Prop :=
  s.readable i = false ∧ ((∃ fd readfds,s.pc = .readUsername fd i readfds) ∨
    ∃ fd rest readfds,s.pc = .readMessages ((fd,i) :: rest) readfds ∧ fd ∈ readfds)

/- The server sends the text of client `i` back to it; no client ever reads. -/
def Sending (s : Server ι) (i : ι) : Prop := ∃ fd rest readfds,s.pc = .send fd i rest readfds

/- Steps that need no answer of the connection. -/
def Action.ownStep : Action ι → Bool
  | .accept _ | .server => true
  | _ => false

omit [DecidableEq ι] in
theorem read_none {size : ℕ} : s.read clients i size = none ↔ s.readable i = false := by
  unfold Server.read
  split_ifs with h
  · rw [h]
    exact ⟨fun hn => (by cases hn),fun hn => (by cases hn)⟩
  · exact ⟨fun _ => Bool.eq_false_of_not_eq_true h,fun _ => rfl⟩

omit [DecidableEq ι] in
theorem acceptClient_none (h : ∀ readfds,s.pc ≠ .acceptClient readfds) (newSocket : Fd) :
    s.acceptClient newSocket = none := by
  unfold Server.acceptClient
  split
  · next hpc _ => exact absurd hpc (h _)
  · rfl

theorem no_step (h : ∀ s', ¬ Effect clients s a s') (ha : a.ofServer = true) : s.step clients a = none :=
  Option.eq_none_iff_forall_ne_some.mpr fun s' hs => h s' (step_effect ha hs)

theorem Idle.no_effect (h : Idle s) : ¬ Effect clients s a s' := by
  obtain ⟨hpc,hpending,hquiet⟩ := h
  have hready : s.readfds = [] := by
    rw [Server.readfds,List.filter_eq_nil_iff.mpr fun p hp => by rw [hquiet p hp]; decide]
    rfl
  intro he
  cases he with
  | accepts _ hne => exact hne hpending
  | reads _ hne => exact hne hready
  | accepted hpc' _ _ | named hpc' _ | passed hpc' | skipped hpc' _ | again hpc' _ _ _
    | printed hpc' _ _ _ | failed hpc' _ _ _ | sent hpc' | killed hpc' _ => cases hpc.symm.trans hpc'

theorem Blocked.no_effect (h : Blocked s i) : ¬ Effect clients s a s' := by
  obtain ⟨hquiet,hat⟩ := h
  have hread {size : ℕ} {chunk : Bytes} (hread : s.read clients i size = some chunk) : False := by
    cases (read_none.mpr hquiet).symm.trans hread
  intro he
  rcases hat with ⟨fd,readfds,hpc⟩ | ⟨fd,rest,readfds,hpc,hmem⟩
  · cases he with
    | named hpc' hread' =>
      obtain ⟨rfl,rfl,rfl⟩ := PC.readUsername.inj (hpc.symm.trans hpc')
      exact hread hread'
    | accepts hpc' _ | reads hpc' _ | accepted hpc' _ _ | passed hpc' | skipped hpc' _ | again hpc' _ _ _
      | printed hpc' _ _ _ | failed hpc' _ _ _ | sent hpc' | killed hpc' _ => cases hpc.symm.trans hpc'
  · cases he with
    | skipped hpc' hnot =>
      cases hpc.symm.trans hpc'
      exact hnot hmem
    | again hpc' _ hread' _ =>
      cases hpc.symm.trans hpc'
      exact hread hread'
    | printed hpc' _ hread' _ =>
      cases hpc.symm.trans hpc'
      exact hread hread'
    | failed hpc' _ hclosed _ =>
      cases hpc.symm.trans hpc'
      rw [Server.readable,hclosed,Bool.or_true] at hquiet
      cases hquiet
    | accepts hpc' _ | reads hpc' _ | accepted hpc' _ _ | named hpc' _ | passed hpc' | sent hpc'
      | killed hpc' _ => cases hpc.symm.trans hpc'

omit [DecidableEq ι] in
theorem own_ofServer (ha : a.ownStep = true) : a.ofServer = true := by
  cases a with
  | accept newSocket => rfl
  | server => rfl
  | connect i | deliver i n | close i | failed | sent | sigpipe => cases ha

theorem Sending.no_own_step (h : Sending s i) (ha : a.ownStep = true) : s.step clients a = none := by
  obtain ⟨fd,rest,readfds,hpc⟩ := h
  cases a with
  | accept newSocket => exact acceptClient_none (fun _ he => by cases hpc.symm.trans he) newSocket
  | server => rw [Server.step,Server.runServer,hpc]
  | connect i | deliver i n | close i | failed | sent | sigpipe => cases ha

theorem killed_no_step (hpc : s.pc = .killed) (ha : a.ofServer = true) : s.step clients a = none := by
  refine no_step (fun s' he => ?_) ha
  cases he with
  | accepts hpc' _ | reads hpc' _ | accepted hpc' _ _ | named hpc' _ | passed hpc' | skipped hpc' _
    | again hpc' _ _ _ | printed hpc' _ _ _ | failed hpc' _ _ _ | sent hpc' | killed hpc' _ =>
    cases hpc.symm.trans hpc'

/- There is no other place to wait in. -/
theorem Wired.waits (h : Wired clients s) (hnone : ∀ a : Action ι,a.ownStep = true → s.step clients a = none) :
    Idle s ∨ (∃ i,Blocked s i) ∨ (∃ i,Sending s i) ∨ s.pc = .killed := by
  have hserver : s.runServer clients = none := hnone .server rfl
  match hpc : s.pc with
  | .select =>
    rw [Server.runServer,hpc] at hserver
    change s.runSelect = none at hserver
    unfold Server.runSelect at hserver
    split_ifs at hserver with hpending hready
    rw [ne_eq,not_not] at hpending hready
    have hquiet := List.filter_eq_nil_iff.mp (List.map_eq_nil_iff.mp hready)
    exact Or.inl ⟨hpc,hpending,fun p hp => Bool.eq_false_of_not_eq_true (hquiet p hp)⟩
  | .acceptClient readfds =>
    obtain ⟨i,pending,hpending⟩ := List.exists_cons_of_ne_nil (h.accepting _ hpc)
    obtain ⟨newSocket,hfresh⟩ := Infinite.exists_notMem_finset (s.clientSockets.map Prod.fst).toFinset
    have haccept := hnone (.accept newSocket) rfl
    rw [List.mem_toFinset] at hfresh
    change s.acceptClient newSocket = none at haccept
    rw [Server.acceptClient,hpc,hpending] at haccept
    dsimp only at haccept
    rw [if_neg hfresh] at haccept
    cases haccept
  | .readUsername fd i readfds =>
    rw [Server.runServer,hpc] at hserver
    change s.runReadUsername clients fd i readfds = none at hserver
    exact Or.inr (Or.inl ⟨i,read_none.mp (Option.map_eq_none_iff.mp hserver),Or.inl ⟨fd,readfds,hpc⟩⟩)
  | .readMessages [] readfds =>
    rw [Server.runServer,hpc] at hserver
    cases hserver
  | .readMessages ((fd,i) :: rest) readfds =>
    rw [Server.runServer,hpc] at hserver
    change s.runReadMessages clients readfds ((fd,i) :: rest) = none at hserver
    rw [Server.runReadMessages] at hserver
    split_ifs at hserver with hmem
    exact Or.inr (Or.inl ⟨i,read_none.mp (Option.map_eq_none_iff.mp hserver),
      Or.inr ⟨fd,rest,readfds,hpc,hmem⟩⟩)
  | .send fd i rest readfds => exact Or.inr (Or.inr (Or.inl ⟨i,fd,rest,readfds,hpc⟩))
  | .killed => exact Or.inr (Or.inr (Or.inr rfl))

end TcpProjects.ChatSelect
