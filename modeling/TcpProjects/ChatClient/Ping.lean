import Mathlib.Data.List.Basic
import TcpProjects.Base.Transition

/-! # The ping command

The input thread in `CommandPing::getPing`, the receive thread in
`EventListenerHandler::onPingEvent` and a server that answers each request once.
`waitForCall` locks a mutex that nobody holds and so does not wait; a call measures
a round trip exactly if the receive thread happens to take turns enough for its reply
before it returns. -/

namespace TcpProjects.ChatClient
open Transition

/- Points of `getPing`, with the number of the call, which also stands for its
listener; `idle` is between two commands. -/
inductive InputPC where
  | idle
  | sendRequest (call : ℕ)
  | waitForCall (call : ℕ)
  | unregister (call : ℕ)
  deriving DecidableEq

/- Points of the receive thread: `recv`, the entry of `onPingEvent` and its loop over
`listeners`, with the call whose request is being answered. -/
inductive ReceivePC where
  | recv
  | onPingEvent (request : ℕ)
  | loop (request : ℕ) (it : Option ℕ)
  | next (request : ℕ) (it : ℕ)
  deriving DecidableEq

/- `locked` is the mutex of each listener, `requests` and `replies` are on the way to
the server and back; `called` records the calls of `onEventPing`, each with the
listener and the call whose request was answered. -/
structure Client where
  input : InputPC
  receiver : ReceivePC
  calls : ℕ
  listeners : List ℕ
  locked : ℕ → Bool
  requests : List ℕ
  replies : List ℕ
  called : List (ℕ × ℕ)

inductive Turn where
  | input
  | receiver
  | server
  deriving DecidableEq

/-- `registerEventListener`, `sendRequest`, `waitForCall`, `unregisterEventListener`. -/
def getPing (s : Client) : Option Client :=
  match s.input with
  | .idle => some { s with
      listeners := s.listeners ++ [s.calls]
      locked := Function.update s.locked s.calls false
      calls := s.calls + 1
      input := .sendRequest s.calls }
  | .sendRequest c => some { s with requests := s.requests ++ [c], input := .waitForCall c }
  | .waitForCall c =>
    if s.locked c then none
    else some { s with locked := Function.update s.locked c true, input := .unregister c }
  | .unregister c => some { s with listeners := s.listeners.filter (· ≠ c), input := .idle }

/-- The element after `i` in the list of listeners. Where the input thread has removed `i`
meanwhile, the node is freed under the iterator; the loop is taken to end there. -/
def successor (listeners : List ℕ) (i : ℕ) : Option ℕ :=
  ((listeners.dropWhile (· ≠ i)).drop 1).head?

def onPingEvent (s : Client) : Option Client :=
  match s.receiver with
  | .recv => match s.replies with
    | [] => none
    | c :: rest => some { s with replies := rest, receiver := .onPingEvent c }
  | .onPingEvent c => some { s with receiver := .loop c s.listeners.head? }
  | .loop _ none => some { s with receiver := .recv }
  -- onEventPing unlocks the mutex, whoever holds it
  | .loop c (some i) => some { s with
      locked := Function.update s.locked i false
      called := s.called ++ [(i,c)]
      receiver := .next c i }
  | .next c i => some { s with receiver := .loop c (successor s.listeners i) }

def answer (s : Client) : Option Client :=
  match s.requests with
  | [] => none
  | c :: rest => some { s with requests := rest, replies := s.replies ++ [c] }

def turn (s : Client) : Turn → Option Client
  | .input => getPing s
  | .receiver => onPingEvent s
  | .server => answer s

def Client.start : Client where
  input := .idle
  receiver := .recv
  calls := 0
  listeners := []
  locked := fun _ => false
  requests := []
  replies := []
  called := []

/- The call that returns in a step. -/
def returns (x : Client × Turn) : Option ℕ :=
  match x.2, x.1.input with
  | .input, .unregister c => some c
  | _, _ => none

/-! ### What is on the way -/

def InputPC.current : InputPC → Option ℕ
  | .idle => none
  | .sendRequest c => some c
  | .waitForCall c => some c
  | .unregister c => some c

/- The receive thread has the reply to `c` and has not yet called a listener. -/
def ReceivePC.handling (c : ℕ) : ReceivePC → ℕ
  | .onPingEvent d => if d = c then 1 else 0
  | .loop d (some _) => if d = c then 1 else 0
  | _ => 0

/- The requests of call `c` and the replies to it that have not reached a listener. -/
def Client.outstanding (s : Client) (c : ℕ) : ℕ :=
  s.requests.count c + s.replies.count c + s.receiver.handling c

/-- One listener at most is registered, that of the current call; its mutex is free
until the call has passed `waitForCall`; and the request of the call is on the way or
answered with a call of this listener, once. -/
structure OneListener (s : Client) : Prop where
  listeners : s.listeners = s.input.current.toList
  numbered : ∀ c, s.input.current = some c → c + 1 = s.calls
  free : ∀ c, s.input = .sendRequest c ∨ s.input = .waitForCall c → s.locked c = false
  fresh : ∀ c, s.calls ≤ c ∨ s.input = .sendRequest c →
    s.outstanding c = 0 ∧ s.called.count (c,c) = 0
  balance : ∀ c, s.input = .waitForCall c ∨ s.input = .unregister c →
    s.outstanding c + s.called.count (c,c) = 1
  own : ∀ c i, s.input.current = some c → s.receiver = .loop c (some i) → i = c

namespace OneListener
variable {s s' : Client}

theorem of_start : OneListener .start := by
  constructor <;> simp [Client.start,InputPC.current,Client.outstanding,ReceivePC.handling]

theorem getPing_step (hi : OneListener s) (h : getPing s = some s') : OneListener s' := by
  have hl := hi.listeners
  unfold getPing at h
  split at h
  · next hpc =>
    cases h
    have hnew := (hi.fresh s.calls (Or.inl (Nat.le_refl _))).1
    constructor
    · simp [hl,hpc,InputPC.current]
    · simp [InputPC.current]
    · simp
    · intro c hc
      apply hi.fresh c
      simp only [InputPC.sendRequest.injEq] at hc
      omega
    · simp
    · intro c i hc hr
      cases hc
      change s.receiver = _ at hr
      simp [Client.outstanding,hr,ReceivePC.handling] at hnew
  · next c hpc =>
    cases h
    have hcalls := hi.numbered c (by rw [hpc]; rfl)
    constructor
    · simpa [hpc,InputPC.current] using hl
    · simpa [hpc,InputPC.current] using hi.numbered
    · simpa [hpc] using hi.free
    · intro d hd
      simp only [reduceCtorEq,or_false] at hd
      have hcd : c ≠ d := by omega
      have hold := hi.fresh d (Or.inl hd)
      simpa [Client.outstanding,hcd] using hold
    · intro d hd
      have hdc : c = d := by simpa using hd
      subst hdc
      have hold := hi.fresh c (Or.inr hpc)
      simp only [Client.outstanding,List.count_append,List.count_singleton_self] at hold ⊢
      omega
    · simpa [hpc,InputPC.current] using hi.own
  · next c hpc =>
    split_ifs at h
    cases h
    constructor
    · simpa [hpc,InputPC.current] using hl
    · simpa [hpc,InputPC.current] using hi.numbered
    · simp
    · simpa [hpc,Client.outstanding] using hi.fresh
    · simpa [hpc,Client.outstanding] using hi.balance
    · simpa [hpc,InputPC.current] using hi.own
  · next c hpc =>
    cases h
    constructor
    · simp [hl,hpc,InputPC.current]
    · simp [InputPC.current]
    · simp
    · simpa [hpc,Client.outstanding] using hi.fresh
    · simp
    · simp [InputPC.current]

/- A step of the receive thread or the server that only moves a request along. -/
theorem moved (hi : OneListener s) (hinput : s'.input = s.input) (hcalls : s'.calls = s.calls)
    (hlisteners : s'.listeners = s.listeners) (hlocked : s'.locked = s.locked)
    (hcalled : s'.called = s.called) (hout : ∀ c, s'.outstanding c = s.outstanding c)
    (hown : ∀ c i, s.input.current = some c → s'.receiver = .loop c (some i) → i = c) :
    OneListener s' := by
  constructor
  · rw [hlisteners,hinput]
    exact hi.listeners
  · rw [hinput,hcalls]
    exact hi.numbered
  · rw [hinput,hlocked]
    exact hi.free
  · intro c
    rw [hinput,hcalls,hout,hcalled]
    exact hi.fresh c
  · intro c
    rw [hinput,hout,hcalled]
    exact hi.balance c
  · rw [hinput]
    exact hown

/- The list has no second element to go on to. -/
theorem successor_none (hi : OneListener s) (i : ℕ) : successor s.listeners i = none := by
  rw [hi.listeners]
  cases s.input.current with
  | none => rfl
  | some c => by_cases hc : c = i <;> simp [successor,hc]

theorem head_current (hi : OneListener s) {c : ℕ} (hc : s.input.current = some c) :
    s.listeners.head? = some c := by
  rw [hi.listeners,hc]
  rfl

theorem current_of_waiting {c : ℕ} (hc : s.input = .waitForCall c ∨ s.input = .unregister c) :
    s.input.current = some c := by
  cases hc with
  | inl h => rw [h]; rfl
  | inr h => rw [h]; rfl

/- The entry of `onPingEvent` with nobody registered drops the reply. -/
theorem onPingEvent_begin {c : ℕ} (hi : OneListener s) (hpc : s.receiver = .onPingEvent c) :
    OneListener { s with receiver := .loop c s.listeners.head? } := by
  cases hcur : s.input.current with
  | some d =>
    have hhead := hi.head_current hcur
    refine hi.moved rfl rfl rfl rfl rfl ?_ ?_
    · intro e
      simp [Client.outstanding,hpc,hhead,ReceivePC.handling]
    · intro e i he hr
      rw [hcur] at he
      change ReceivePC.loop c s.listeners.head? = _ at hr
      rw [hhead] at hr
      cases hr
      exact Option.some.inj he
  | none =>
    have hidle : s.input = .idle := by
      cases hin : s.input with
      | idle => rfl
      | _ => rw [hin] at hcur; cases hcur
    have hhead : s.listeners.head? = none := by
      rw [hi.listeners,hcur]
      rfl
    constructor
    · exact hi.listeners
    · exact hi.numbered
    · exact hi.free
    · intro d hd
      have hold := hi.fresh d hd
      simp only [Client.outstanding,hpc,hhead,ReceivePC.handling] at hold ⊢
      omega
    · simp [hidle]
    · simp [hidle,InputPC.current]

/- The call of a listener: of the current call's listener if the reply answers the
current call. -/
theorem onEventPing {c i : ℕ} (hi : OneListener s) (hpc : s.receiver = .loop c (some i)) :
    OneListener { s with
      locked := Function.update s.locked i false
      called := s.called ++ [(i,c)]
      receiver := .next c i } := by
  constructor
  · exact hi.listeners
  · exact hi.numbered
  · intro d hd
    have hold := hi.free d hd
    by_cases hdi : d = i <;> simp [hdi,hold]
  · intro d hd
    have hold := hi.fresh d hd
    by_cases hcd : c = d
    · simp [Client.outstanding,hpc,ReceivePC.handling,hcd] at hold
    · simpa [Client.outstanding,hpc,ReceivePC.handling,hcd] using hold
  · intro d hd
    have hold := hi.balance d hd
    by_cases hcd : c = d
    · subst hcd
      have hic : i = c := hi.own c i (current_of_waiting hd) hpc
      simp only [Client.outstanding,hpc,ReceivePC.handling,if_true,List.count_append,hic,
        List.count_singleton_self] at hold ⊢
      omega
    · simpa [Client.outstanding,hpc,ReceivePC.handling,hcd] using hold
  · intro d j _ hr
    cases hr

theorem onPingEvent_step (hi : OneListener s) (h : onPingEvent s = some s') : OneListener s' := by
  unfold onPingEvent at h
  split at h
  · next hpc =>
    split at h
    · cases h
    · next c rest hq =>
      cases h
      refine hi.moved rfl rfl rfl rfl rfl ?_ ?_
      · intro d
        simp only [Client.outstanding,hpc,hq,List.count_cons,beq_iff_eq,ReceivePC.handling]
        omega
      · intro d i _ hr
        cases hr
  · next c hpc =>
    cases h
    exact hi.onPingEvent_begin hpc
  · next c hpc =>
    cases h
    refine hi.moved rfl rfl rfl rfl rfl ?_ ?_
    · intro d
      simp only [Client.outstanding,hpc,ReceivePC.handling]
    · intro d i _ hr
      cases hr
  · next c i hpc =>
    cases h
    exact hi.onEventPing hpc
  · next c i hpc =>
    cases h
    refine hi.moved rfl rfl rfl rfl rfl ?_ ?_
    · intro d
      simp only [Client.outstanding,hpc,hi.successor_none,ReceivePC.handling]
    · intro d j _ hr
      rw [hi.successor_none] at hr
      cases hr

theorem answer_step (hi : OneListener s) (h : answer s = some s') : OneListener s' := by
  unfold answer at h
  split at h
  · cases h
  · next c rest hq =>
    cases h
    refine hi.moved rfl rfl rfl rfl rfl ?_ ?_
    · intro d
      simp only [Client.outstanding,hq,List.count_cons,List.count_append,List.count_nil]
      omega
    · exact hi.own

end OneListener

theorem run_oneListener {tr : List (Client × Turn)} {s : Client} (r : Run turn .start tr s) :
    OneListener s := by
  refine r.invariant OneListener.of_start ?_
  intro s a s' hi h
  cases a with
  | input => exact hi.getPing_step h
  | receiver => exact hi.onPingEvent_step h
  | server => exact hi.answer_step h

/- The mutex of a fresh listener is free: `waitForCall` can always go on. -/
theorem waitForCall_enabled {tr : List (Client × Turn)} {s : Client} (r : Run turn .start tr s)
    {c : ℕ} (hc : s.input = .waitForCall c) : (turn s .input).isSome = true := by
  have hfree := (run_oneListener r).free c (Or.inr hc)
  simp [turn,getPing,hc,hfree]

/-! ### The turns that a reply takes -/

/- The call whose request is sent in a step. -/
def sends (x : Client × Turn) : Option ℕ :=
  match x.2, x.1.input with
  | .input, .sendRequest c => some c
  | _, _ => none

/- The turns of the receive thread up to its next `recv`. -/
def ReceivePC.left : ReceivePC → ℕ
  | .recv => 0
  | .onPingEvent _ => 4
  | .loop _ (some _) => 3
  | .next _ _ => 2
  | .loop _ none => 1

/- The turns of the receive thread up to the listener that is called for `c`. -/
def ReceivePC.toCall (c : ℕ) : ReceivePC → ℕ
  | .onPingEvent d => if d = c then 2 else 0
  | .loop d (some _) => if d = c then 1 else 0
  | _ => 0

/- Replies come in the order of the requests. -/
def Client.inFlight (s : Client) : List ℕ := s.replies ++ s.requests

/- The turns of the receive thread before a request that is sent now is answered: five for
each reply before it. -/
def Client.turnsNeeded (s : Client) : ℕ := s.receiver.left + 5*s.inFlight.length + 3

/- What is left of these turns. -/
def Client.owed (s : Client) (c : ℕ) : ℕ :=
  if c ∈ s.inFlight then s.receiver.left + 5*s.inFlight.idxOf c + 3 else s.receiver.toCall c

def receiverTurns (tr : List (Client × Turn)) : ℕ := (tr.filter fun x => x.2 = .receiver).length

/- Between the request and the return of each call, the receive thread takes the turns
that the reply needs. -/
def Prompt (tr : List (Client × Turn)) : Prop :=
  ∀ j < tr.length, ∀ i < j, ∀ y ∈ tr[j]?, ∀ c ∈ returns y, ∀ x ∈ tr[i]?, sends x = some c →
    x.1.turnsNeeded ≤ receiverTurns ((tr.take j).drop (i+1))

instance (tr : List (Client × Turn)) : Decidable (Prompt tr) := by
  delta Prompt
  infer_instance

def Client.Asked (s : Client) (c : ℕ) : Prop := s.input = .waitForCall c ∨ s.input = .unregister c

section
variable {s s' : Client} {c : ℕ} {a : Turn} {tr : List (Client × Turn)}

theorem sends_eq_some {x : Client × Turn} : sends x = some c ↔ x.2 = .input ∧ x.1.input = .sendRequest c := by
  obtain ⟨s,a⟩ := x
  unfold sends
  split
  · next ha hin => simp [show a = .input from ha,show s.input = _ from hin]
  · next hno =>
    exact ⟨fun h => (by cases h),fun h => absurd h.2 (hno c h.1)⟩

theorem returns_eq_some {x : Client × Turn} : returns x = some c ↔ x.2 = .input ∧ x.1.input = .unregister c := by
  obtain ⟨s,a⟩ := x
  unfold returns
  split
  · next ha hin => simp [show a = .input from ha,show s.input = _ from hin]
  · next hno =>
    exact ⟨fun h => (by cases h),fun h => absurd h.2 (hno c h.1)⟩

theorem mem_inFlight : c ∈ s.inFlight ↔ 0 < s.requests.count c + s.replies.count c := by
  rw [Client.inFlight,← List.count_pos_iff,List.count_append]
  omega

/- Nothing is owed once the listener was called. -/
theorem OneListener.owed_eq_zero (hi : OneListener s) (hc : s.Asked c) :
    s.owed c = 0 ↔ (c,c) ∈ s.called := by
  have hb := hi.balance c hc
  have hcall : s.receiver.toCall c = 0 ↔ s.receiver.handling c = 0 := by
    unfold ReceivePC.toCall ReceivePC.handling
    split <;> simp
  rw [← List.count_pos_iff]
  unfold Client.owed
  unfold Client.outstanding at hb
  split_ifs with hmem
  · rw [mem_inFlight] at hmem
    exact ⟨fun he => (by cases he),fun hpos => (by omega)⟩
  · rw [mem_inFlight] at hmem
    rw [hcall]
    omega

/- The request is sent behind all others. -/
theorem OneListener.owed_sent (hi : OneListener s) (hpc : s.input = .sendRequest c)
    (h : turn s .input = some s') : s'.owed c = s.turnsNeeded := by
  have hfresh := (hi.fresh c (Or.inr hpc)).1
  simp only [turn,getPing,hpc] at h
  cases h
  have hno : c ∉ s.inFlight := by
    rw [mem_inFlight]
    unfold Client.outstanding at hfresh
    omega
  have hflight : (s.replies ++ (s.requests ++ [c])) = s.inFlight ++ [c] := (List.append_assoc _ _ _).symm
  unfold Client.owed Client.turnsNeeded
  change (if c ∈ s.replies ++ (s.requests ++ [c]) then
    s.receiver.left + 5*(s.replies ++ (s.requests ++ [c])).idxOf c + 3 else _) = _
  rw [hflight,if_pos (List.mem_append_right _ (List.mem_singleton_self c)),
    List.idxOf_append_of_notMem hno,List.idxOf_cons_self]
  rfl

/- A turn of the receive thread is one less of those that are owed. -/
theorem OneListener.owed_receiver (hi : OneListener s) (hc : s.Asked c)
    (h : onPingEvent s = some s') : s'.owed c = s.owed c - 1 := by
  have hb := hi.balance c hc
  have hhead := hi.head_current (OneListener.current_of_waiting hc)
  unfold onPingEvent at h
  split at h
  · next hpc =>
    split at h
    · cases h
    · next d rest hq =>
      cases h
      unfold Client.owed Client.inFlight
      simp only [Client.outstanding,hq,hpc,List.count_cons,beq_iff_eq,ReceivePC.handling] at hb
      by_cases hdc : d = c
      · subst hdc
        have hlater : d ∉ rest ++ s.requests := by
          rw [← List.count_pos_iff,List.count_append]
          simp only [if_true] at hb
          omega
        simp [hq,hpc,hlater,ReceivePC.left,ReceivePC.toCall]
      · simp only [hq,hpc,List.cons_append,List.mem_cons,Ne.symm hdc,false_or,
          List.idxOf_cons_ne _ hdc,ReceivePC.left,ReceivePC.toCall,if_neg hdc]
        split_ifs <;> omega
  · next d hpc =>
    cases h
    unfold Client.owed Client.inFlight
    simp only [hpc,hhead,ReceivePC.left,ReceivePC.toCall]
    split_ifs <;> omega
  · next d hpc =>
    cases h
    unfold Client.owed Client.inFlight
    simp only [hpc,ReceivePC.left,ReceivePC.toCall]
    split_ifs <;> omega
  · next d i hpc =>
    cases h
    unfold Client.owed Client.inFlight
    simp only [hpc,ReceivePC.left,ReceivePC.toCall]
    split_ifs <;> omega
  · next d i hpc =>
    cases h
    unfold Client.owed Client.inFlight
    simp only [hpc,hi.successor_none,ReceivePC.left,ReceivePC.toCall]
    split_ifs <;> omega

/- The server moves a request along; what is in flight stays as it is. -/
theorem owed_answer (h : answer s = some s') : s'.owed c = s.owed c := by
  unfold answer at h
  split at h
  · cases h
  · next d rest hq =>
    cases h
    unfold Client.owed Client.inFlight
    rw [hq,List.append_assoc,List.singleton_append]

/- Only the input thread numbers the calls and moves on in them. -/
theorem turn_other (ha : a ≠ .input) (h : turn s a = some s') : s'.calls = s.calls ∧ s'.input = s.input := by
  cases a with
  | input => exact absurd rfl ha
  | receiver =>
    simp only [turn,onPingEvent] at h
    split at h
    · split at h <;> cases h
      exact ⟨rfl,rfl⟩
    all_goals
      cases h
      exact ⟨rfl,rfl⟩
  | server =>
    simp only [turn,answer] at h
    split at h <;> cases h
    exact ⟨rfl,rfl⟩

/- A step within a call, or the one that sends its request. -/
theorem OneListener.asked_step (hi : OneListener s) (h : turn s a = some s') (hc : s'.Asked c) :
    (s.Asked c ∧ s'.owed c = s.owed c - receiverTurns [(s,a)]) ∨ a = .input ∧ s.input = .sendRequest c := by
  cases a with
  | receiver =>
    unfold Client.Asked at hc
    rw [(turn_other (by simp) h).2] at hc
    exact Or.inl ⟨hc,hi.owed_receiver hc h⟩
  | server =>
    have howed : s'.owed c = s.owed c := owed_answer h
    unfold Client.Asked at hc
    rw [(turn_other (by simp) h).2] at hc
    exact Or.inl ⟨hc,howed⟩
  | input =>
    simp only [turn,getPing] at h
    split at h
    · cases h
      rcases hc with hc | hc <;> cases hc
    · next d hpc =>
      cases h
      rcases hc with hc | hc
      · cases hc
        exact Or.inr ⟨rfl,hpc⟩
      · cases hc
    · next d hpc =>
      split_ifs at h
      cases h
      rcases hc with hc | hc
      · cases hc
      · cases hc
        exact Or.inl ⟨Or.inl hpc,rfl⟩
    · cases h
      rcases hc with hc | hc <;> cases hc

/- A call sends one request. -/
theorem run_sent (r : Run turn .start tr s) {x : Client × Turn} (hx : x ∈ tr) (hs : sends x = some c) :
    c < s.calls ∧ s.input ≠ .sendRequest c := by
  induction r with
  | start => cases hx
  | @next tr s a s' r h ih =>
    have hnumbered := (run_oneListener r).numbered
    have hold : (c < s.calls ∧ s.input ≠ .sendRequest c) ∨ a = .input ∧ s.input = .sendRequest c := by
      rcases List.mem_append.mp hx with hx | hx
      · exact Or.inl (ih hx)
      · rw [List.mem_singleton.mp hx] at hs
        exact Or.inr (sends_eq_some.mp hs)
    have hother (ha : a ≠ .input) : c < s'.calls ∧ s'.input ≠ .sendRequest c := by
      rw [(turn_other ha h).1,(turn_other ha h).2]
      exact hold.resolve_right fun hin => ha hin.1
    cases a with
    | receiver => exact hother (by simp)
    | server => exact hother (by simp)
    | input =>
      simp only [turn,getPing] at h
      split at h
      · next hpc =>
        cases h
        rcases hold with ⟨hlt,_⟩ | ⟨_,hin⟩
        · exact ⟨Nat.lt_succ_of_lt hlt,fun he => by cases he; exact Nat.lt_irrefl _ hlt⟩
        · cases hpc.symm.trans hin
      · next d hpc =>
        cases h
        refine ⟨?_,fun he => by cases he⟩
        rcases hold with ⟨hlt,_⟩ | ⟨_,hin⟩
        · exact hlt
        · have hlast := hnumbered c (by rw [hin]; rfl)
          change c < s.calls
          omega
      · next d hpc =>
        split_ifs at h
        cases h
        rcases hold with ⟨hlt,_⟩ | ⟨_,hin⟩
        · exact ⟨hlt,fun he => by cases he⟩
        · cases hpc.symm.trans hin
      · next d hpc =>
        cases h
        rcases hold with ⟨hlt,_⟩ | ⟨_,hin⟩
        · exact ⟨hlt,fun he => by cases he⟩
        · cases hpc.symm.trans hin

/- Since its request, a call owes so many turns less. -/
theorem run_owed (r : Run turn .start tr s) (hc : s.Asked c) :
    (∃ (i : ℕ) (x : Client × Turn), tr[i]? = some x ∧ sends x = some c) ∧
    ∀ (i : ℕ) (x : Client × Turn), tr[i]? = some x → sends x = some c →
      s.owed c = x.1.turnsNeeded - receiverTurns (tr.drop (i+1)) := by
  induction r with
  | start => rcases hc with hc | hc <;> cases hc
  | @next tr s a s' r h ih =>
    have hi := run_oneListener r
    rcases hi.asked_step h hc with ⟨hasked,howed⟩ | ⟨rfl,hpc⟩
    · obtain ⟨⟨i,x,hx,hs⟩,hall⟩ := ih hasked
      have hlt := (List.getElem?_eq_some_iff.mp hx).1
      refine ⟨⟨i,x,by rw [List.getElem?_append_left hlt]; exact hx,hs⟩,fun k y hy hsent => ?_⟩
      rcases Nat.lt_or_ge k tr.length with hk | hk
      · rw [List.getElem?_append_left hk] at hy
        have hbound : k+1 ≤ tr.length := hk
        rw [howed,hall k y hy hsent,List.drop_append_of_le_length hbound]
        unfold receiverTurns
        rw [List.filter_append,List.length_append,Nat.sub_sub]
      · have hlast : k = tr.length := by
          have hbound := (List.getElem?_eq_some_iff.mp hy).1
          rw [List.length_append,List.length_singleton] at hbound
          omega
        subst hlast
        rw [List.getElem?_concat_length] at hy
        obtain rfl := Option.some.inj hy
        have hpc := (sends_eq_some.mp hsent).2
        rcases hasked with hw | hw <;> cases hw.symm.trans hpc
    · have hsent : sends (s,.input) = some c := sends_eq_some.mpr ⟨rfl,hpc⟩
      refine ⟨⟨tr.length,(s,.input),List.getElem?_concat_length,hsent⟩,fun k y hy hs => ?_⟩
      rcases Nat.lt_or_ge k tr.length with hk | hk
      · rw [List.getElem?_append_left hk] at hy
        exact absurd hpc (run_sent r (List.mem_of_getElem? hy) hs).2
      · have hlast : k = tr.length := by
          have hbound := (List.getElem?_eq_some_iff.mp hy).1
          rw [List.length_append,List.length_singleton] at hbound
          omega
        subst hlast
        rw [List.getElem?_concat_length] at hy
        obtain rfl := Option.some.inj hy
        have hnone : (tr ++ [(s,Turn.input)]).drop (tr.length+1) = [] := by simp
        rw [hi.owed_sent hpc h,hnone]
        rfl

end

/-- Each call returns after the answer to its own request has called its own listener,
exactly if the receive thread takes the turns that the reply needs between the request
and the return. -/
theorem ping_round_trip {tr : List (Client × Turn)} {s : Client} (r : Run turn .start tr s) :
    (∀ x ∈ tr, ∀ c, returns x = some c → (c,c) ∈ x.1.called) ↔ Prompt tr := by
  have hpoint {j : ℕ} {y : Client × Turn} {c : ℕ} (hy : tr[j]? = some y) (hc : returns y = some c) :
      ((c,c) ∈ y.1.called ↔ y.1.owed c = 0) ∧
      (∃ i < j, ∃ x, tr[i]? = some x ∧ sends x = some c) ∧
      ∀ i < j, ∀ x, tr[i]? = some x → sends x = some c →
        y.1.owed c = x.1.turnsNeeded - receiverTurns ((tr.take j).drop (i+1)) := by
    have hj := (List.getElem?_eq_some_iff.mp hy).1
    have hbefore := r.prefix_at j (Nat.le_of_lt hj)
    rw [stateAt_get hy] at hbefore
    have hasked : y.1.Asked c := Or.inr (returns_eq_some.mp hc).2
    obtain ⟨⟨i,x,hx,hs⟩,hall⟩ := run_owed hbefore hasked
    have hlength := (List.getElem?_eq_some_iff.mp hx).1
    rw [List.length_take] at hlength
    have hget {k : ℕ} (hk : k < j) : (tr.take j)[k]? = tr[k]? := List.getElem?_take_of_lt hk
    refine ⟨((run_oneListener hbefore).owed_eq_zero hasked).symm,
      ⟨i,by omega,x,(hget (by omega)).symm.trans hx,hs⟩,fun k hk z hz hsent => ?_⟩
    exact hall k z ((hget hk).trans hz) hsent
  constructor
  · intro h j _ i hij y hy c hc x hx hs
    obtain ⟨hcalled,_,howed⟩ := hpoint hy hc
    have hzero := hcalled.mp (h y (List.mem_of_getElem? hy) c hc)
    rw [howed i hij x hx hs] at hzero
    exact Nat.sub_eq_zero_iff_le.mp hzero
  · intro h y hy c hc
    obtain ⟨j,hy⟩ := List.mem_iff_getElem?.mp hy
    obtain ⟨hcalled,⟨i,hij,x,hx,hs⟩,howed⟩ := hpoint hy hc
    rw [hcalled,howed i hij x hx hs]
    have hj := (List.getElem?_eq_some_iff.mp hy).1
    exact Nat.sub_eq_zero_of_le (h j hj i hij y hy c hc x hx hs)

/- Two calls; the server's reply is dispatched before the input thread goes on. -/
def promptReply : List Turn :=
  [.input,.input,.server,.receiver,.receiver,.receiver,.input,.input,
    .input,.input,.receiver,.server,.receiver,.receiver,.receiver,.receiver,.input,.input]

theorem ping_round_trip_prompt :
    (runOf turn .start promptReply).1.filterMap returns = [0,1] ∧
      ∀ x ∈ (runOf turn .start promptReply).1, ∀ c, returns x = some c → (c,c) ∈ x.1.called :=
  ⟨by decide +kernel,(ping_round_trip (runOf_run turn .start promptReply (by decide +kernel))).mpr
    (by decide +kernel)⟩

/- Without the condition a call returns before the server has seen its request. -/
theorem ping_not_round_trip :
    ¬ ∀ (tr : List (Client × Turn)) (s : Client), Run turn .start tr s →
      ∀ x ∈ tr, ∀ c, returns x = some c → (c,c) ∈ x.1.called := by
  intro h
  have hrun := runOf_run turn .start [.input,.input,.input,.input] (by decide +kernel)
  have hcalled := h _ _ hrun
  have hbad : ∃ x ∈ (runOf turn .start [.input,.input,.input,.input]).1,
      returns x = some 0 ∧ (0,0) ∉ x.1.called := by decide +kernel
  obtain ⟨x,hx,hret,hno⟩ := hbad
  exact hno (hcalled x hx 0 hret)

end TcpProjects.ChatClient
