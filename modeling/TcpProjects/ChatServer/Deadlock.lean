import TcpProjects.Base.Locking
import TcpProjects.ChatServer.Invariant

/-! # The two mutexes

`mut` and `stdoutMut` are locked and unlocked by hand. In every run each of them
is owned by the one thread that stands between its lock and its unlock; there no
thread locks again, so that the owner of a mutex can always go on. -/

namespace TcpProjects.ChatServer
open Transition Locking

/- `mutex` is the server's `mut`. -/
inductive Mutex where
  | mutex
  | stdoutMut
  deriving DecidableEq

def Shared.owner (g : Shared) : Mutex → Option Actor
  | .mutex => g.mutex
  | .stdoutMut => g.stdoutMut

/-! ### Program points -/

/- The mutex that the next step locks. -/
def PC.wants : PC → Option Mutex
  | .distribute _ .lock => some .mutex
  | .print _ .lock => some .stdoutMut
  | .closeSocket .lock => some .mutex
  | .eraseThread .lock => some .mutex
  | _ => none

def AcceptPC.wants : AcceptPC → Option Mutex
  | .lock _ => some .mutex
  | _ => none

/- Between `stdoutMut.lock()` and `stdoutMut.unlock()`. -/
def PC.holdsStdoutMut : PC → Bool
  | .print _ .unlock => true
  | _ => false

def PC.holds (pc : PC) : Mutex → Bool
  | .mutex => pc.holdsMut
  | .stdoutMut => pc.holdsStdoutMut

def AcceptPC.holds (pc : AcceptPC) : Mutex → Bool
  | .mutex => pc.holdsMut
  | .stdoutMut => false

def State.wants (s : State) : Actor → Option Mutex
  | .acceptor => s.acceptor.wants
  | .client k => (s.thread k).bind fun t => t.pc.wants

def State.holds (s : State) (m : Mutex) : Actor → Prop
  | .acceptor => s.acceptor.holds m = true
  | .client k => ∃ t, s.thread k = some t ∧ t.pc.holds m = true

def Actor.action (a : Actor) (ans : Answer) : Action :=
  match a with
  | .acceptor => .acceptor ans
  | .client k => .client k ans

theorem PC.holds_one {pc : PC} (h : pc.holdsMut = true) : pc.holdsStdoutMut = false := by
  cases pc <;> first | rfl | cases h

/- At a lock nothing is held. -/
theorem PC.holds_of_wants {pc : PC} {m : Mutex} (h : pc.wants = some m) (n : Mutex) :
    pc.holds n = false := by
  cases pc with
  | distribute p l => cases l <;> cases n <;> first | rfl | cases h
  | print p l => cases l <;> cases n <;> first | rfl | cases h
  | closeSocket l => cases l <;> cases n <;> first | rfl | cases h
  | eraseThread l => cases l <;> cases n <;> first | rfl | cases h
  | _ => cases h

theorem AcceptPC.holds_of_wants {pc : AcceptPC} {m : Mutex} (h : pc.wants = some m) (n : Mutex) :
    pc.holds n = false := by
  cases pc <;> cases n <;> first | rfl | cases h

theorem State.not_holds_of_wants {s : State} {a : Actor} {m : Mutex} (h : s.wants a = some m)
    (n : Mutex) : ¬ s.holds n a := by
  cases a with
  | acceptor =>
    have hno := AcceptPC.holds_of_wants h n
    simp [State.holds,hno]
  | client k =>
    obtain ⟨t,ht,hw⟩ := Option.bind_eq_some_iff.mp h
    have hno := PC.holds_of_wants hw n
    simp [State.holds,ht,hno]

/-! ### Steps -/

section Effects
variable {k : ℕ} {t : SocketThread} {g g' : Shared} {ans : Answer} {pc : PC}

theorem SocketStep.stdoutMut_effect (h : SocketStep k t g ans g' pc) :
    g.stdoutMut = none ∧ g'.stdoutMut = some (.client k) ∧ pc.holdsStdoutMut = true ∨
    g'.stdoutMut = none ∧ t.pc.holdsStdoutMut = true ∧ pc.holdsStdoutMut = false ∨
    g'.stdoutMut = g.stdoutMut ∧ pc.holdsStdoutMut = t.pc.holdsStdoutMut := by
  cases h with
  | read hpc =>
    exact Or.inr (Or.inr ⟨rfl,by rw [afterRead_keeps PC.holdsStdoutMut rfl rfl fun _ => rfl,hpc]⟩)
  | @distributeUnlock p hpc => cases p <;> simp [hpc,PC.holdsStdoutMut,Payload.after]
  | @printUnlock p hpc => cases p <;> simp [hpc,PC.holdsStdoutMut,Payload.afterPrint]
  | sendThrow hpc | eventThrow hpc | closeThrow hpc => exact Or.inr (Or.inr ⟨rfl,rfl⟩)
  | _ => simp [*,PC.holdsStdoutMut]

/- The step at a lock takes the mutex, which was free; no other step takes one. -/
theorem SocketStep.lock_effect (h : SocketStep k t g ans g' pc) :
    (∀ m, t.pc.wants = some m → g.owner m = none ∧ g'.owner m = some (.client k)) ∧
    (t.pc.wants = none → ∀ m, g'.owner m = some (.client k) → g.owner m = some (.client k)) := by
  cases h with
  | distributeLock hpc hm | printLock hpc hm | closeLock hpc hm | eraseLock hpc hm =>
    rw [hpc]
    refine ⟨fun m hw => ?_,fun hn => ?_⟩
    · cases hw
      exact ⟨hm,rfl⟩
    · cases hn
  | distributeUnlock hpc | closeUnlock hpc | eraseUnlock hpc | printUnlock hpc =>
    rw [hpc]
    refine ⟨fun m hw => ?_,fun _ m hm => ?_⟩
    · cases hw
    · cases m <;> first | exact hm | cases hm
  | _ =>
    rw [‹t.pc = _›]
    refine ⟨fun m hw => ?_,fun _ m hm => ?_⟩
    · cases hw
    · cases m <;> exact hm

end Effects

theorem lock_step {s s' : State} {a : Actor} {ans : Answer} (h : step s (a.action ans) = some s') :
    (∀ m, s.wants a = some m → s.shared.owner m = none ∧ s'.shared.owner m = some a) ∧
    (s.wants a = none → ∀ m, s'.shared.owner m = some a → s.shared.owner m = some a) := by
  cases a with
  | acceptor =>
    cases step_cases h with
    | acceptor _ ha =>
      cases ha with
      | lock hpc hm =>
        refine ⟨fun m hw => ?_,fun hn => ?_⟩
        · simp only [State.wants,hpc,AcceptPC.wants,Option.some.injEq] at hw
          subst hw
          exact ⟨hm,rfl⟩
        · simp [State.wants,hpc,AcceptPC.wants] at hn
      | _ =>
        simp only [State.wants,‹s.acceptor = _›]
        refine ⟨fun m hw => ?_,fun _ m hm => ?_⟩
        · cases hw
        · cases m <;> first | exact hm | cases hm
  | client k =>
    cases step_cases h with
    | client _ ht hst =>
      simp only [State.wants,ht,Option.bind_some,State.advance_shared]
      exact hst.lock_effect

/- Only a lock can make a thread wait: at every other point it has a step. -/
theorem socketThread_enabled {k : ℕ} {t : SocketThread} {g : Shared} (hwants : t.pc.wants = none)
    (hlive : t.pc ≠ .finished) : ∃ ans r, socketThread k t g ans = some r := by
  obtain ⟨socket,id,stack,pc⟩ := t
  cases pc with
  | distribute p l =>
    cases l with
    | lock => cases hwants
    | begin => exact ⟨.tick,_,rfl⟩
    | loop it =>
      cases it with
      | none => exact ⟨.tick,_,rfl⟩
      | some it => exact ⟨.sent (some 0),_,rfl⟩
    | next it => exact ⟨.tick,_,rfl⟩
  | print p l =>
    cases l with
    | lock => cases hwants
    | unlock => exact ⟨.tick,_,rfl⟩
  | read => exact ⟨.read none,_,rfl⟩
  | sendEvent => exact ⟨.sent (some 0),_,rfl⟩
  | closeSocket l =>
    cases l with
    | lock => cases hwants
    | close => exact ⟨.closed true,_,rfl⟩
    | _ => exact ⟨.tick,_,rfl⟩
  | eraseThread l =>
    cases l with
    | lock => cases hwants
    | _ => exact ⟨.tick,_,rfl⟩
  | finished => exact absurd rfl hlive

theorem runServer_enabled {s : State} (hwants : s.acceptor.wants = none) :
    ∃ ans s', runServer s ans = some s' := by
  obtain ⟨shared,acceptor,id,accepted,started,thread,gone⟩ := s
  cases acceptor with
  | accept => exact ⟨.refused,_,rfl⟩
  | lock fd => cases hwants
  | newThread fd => exact ⟨.started ⟨.zero _,.zero _⟩,_,rfl⟩
  | _ => exact ⟨.tick,_,rfl⟩

theorem step_enabled {s : State} (hrun : s.shared.terminated = false) {a : Actor}
    (hwants : s.wants a = none)
    (hlive : ∀ k, a = .client k → ∃ t, s.thread k = some t ∧ t.pc ≠ .finished) :
    ∃ ans s', step s (a.action ans) = some s' := by
  cases a with
  | acceptor =>
    obtain ⟨ans,s',h⟩ := runServer_enabled hwants
    exact ⟨ans,s',by simpa [Actor.action,step,hrun] using h⟩
  | client k =>
    obtain ⟨t,ht,hne⟩ := hlive k rfl
    simp only [State.wants,ht,Option.bind_some] at hwants
    obtain ⟨ans,r,h⟩ := socketThread_enabled (k := k) (g := s.shared) hwants hne
    exact ⟨ans,_,by simp [Actor.action,step,hrun,ht,h]; rfl⟩

/-! ### Every run -/

theorem stdoutMut_step {s s' : State} {a : Action} (hfresh : s.thread s.started = none)
    (hg : Guards s.shared.stdoutMut (s.holds .stdoutMut)) (h : Step s a s') :
    Guards s'.shared.stdoutMut (s'.holds .stdoutMut) := by
  cases h with
  | leave => exact hg
  | @client k t ans g pc _ ht hst =>
    have hbefore : s.holds .stdoutMut (.client k) ↔ t.pc.holdsStdoutMut = true := by
      simp [State.holds,ht,PC.holds]
    have hafter : (s.advance k t g pc).holds .stdoutMut (.client k) ↔ pc.holdsStdoutMut = true := by
      simp [State.holds,State.advance_self,PC.holds]
    refine hg.step (i := .client k) (fun b hb => ?_) ?_
    · cases b with
      | acceptor => rfl
      | client j =>
        have hj : j ≠ k := fun h => hb (h ▸ rfl)
        simp only [State.holds,s.advance_other _ _ _ hj]
    · rcases hst.stdoutMut_effect with ⟨hfree,ho,hin⟩ | ⟨ho,hout,hin⟩ | ⟨ho,hsame⟩
      · exact .lock hfree ho (hafter.mpr hin)
      · exact .unlock ho (hbefore.mpr hout) (fun h => by rw [hafter.mp h] at hin; cases hin)
      · exact .stay ho (by rw [hafter,hbefore,hsame])
  | acceptor _ ha =>
    refine hg.step (i := .acceptor) (fun b hb => ?_) (.stay (by cases ha <;> rfl) ?_)
    · cases b with
      | acceptor => exact absurd rfl hb
      | client k =>
        cases ha with
        | newThread hpc =>
          by_cases hk : k = s.started
          · subst hk
            simp [State.holds,hfresh,PC.holds,PC.holdsStdoutMut]
          · simp [State.holds,hk]
        | _ => rfl
    · simp [State.holds,AcceptPC.holds]

theorem run_guards {m : Fd} {addr : SockaddrIn} {tr : List (State × Action)} {s : State}
    (r : Run step (initial m addr) tr s) (μ : Mutex) : Guards (s.shared.owner μ) (s.holds μ) := by
  cases μ with
  | mutex =>
    have hl := (run_safe r).locks
    intro a
    cases a with
    | acceptor => exact hl.acceptor
    | client k => exact hl.client k
  | stdoutMut =>
    induction r with
    | start =>
      intro a
      cases a <;> simp [initial,Shared.owner,State.holds,AcceptPC.holds]
    | next r h ih => exact stdoutMut_step (run_safe r).ownership.fresh ih (step_cases h)

theorem finished_holds_nothing {s : State} {k : ℕ} {t : SocketThread} {μ : Mutex}
    (ht : s.thread k = some t) (hpc : t.pc = .finished) : ¬ s.holds μ (.client k) := by
  rintro ⟨u,hu,hh⟩
  obtain rfl := Option.some.inj (ht.symm.trans hu)
  rw [hpc] at hh
  cases μ <;> cases hh

/- Who holds a mutex waits for none. -/
theorem owner_goes_on {m : Fd} {addr : SockaddrIn} {tr : List (State × Action)} {s : State}
    (r : Run step (initial m addr) tr s) {μ : Mutex} {a : Actor} (ho : s.shared.owner μ = some a) :
    s.wants a = none ∧ (s.shared.terminated = false → ∃ ans s', step s (a.action ans) = some s') := by
  have hholds := (run_guards r μ a).mp ho
  have hidle : s.wants a = none := by
    cases hw : s.wants a with
    | none => rfl
    | some ν => exact absurd hholds (State.not_holds_of_wants hw μ)
  refine ⟨hidle,fun hrun => step_enabled hrun hidle fun k hk => ?_⟩
  subst hk
  obtain ⟨t,ht,hh⟩ := hholds
  exact ⟨t,ht,fun hpc => finished_holds_nothing ht hpc ⟨t,ht,hh⟩⟩

/-- Each mutex is held by at most one thread and no thread holds both; nothing is
held at a lock nor after the end; who holds a mutex can go on, and so no set of
threads can wait for one another. -/
theorem deadlock_free {m : Fd} {addr : SockaddrIn} {tr : List (State × Action)} {s : State}
    (r : Run step (initial m addr) tr s) :
    (∀ μ a, s.shared.owner μ = some a ↔ s.holds μ a) ∧
    (∀ μ a b, s.holds μ a → s.holds μ b → a = b) ∧
    (∀ a, ¬ (s.holds .mutex a ∧ s.holds .stdoutMut a)) ∧
    (∀ a μ ν, s.wants a = some μ → ¬ s.holds ν a) ∧
    (∀ k t μ, s.thread k = some t → t.pc = .finished → ¬ s.holds μ (.client k)) ∧
    (∀ a b, WaitsFor s.shared.owner s.wants a b → s.wants b = none ∧
      (s.shared.terminated = false → ∃ ans s', step s (b.action ans) = some s')) ∧
    ∀ S : Set Actor, S.Nonempty → ¬ ∀ a ∈ S, ∃ b ∈ S, WaitsFor s.shared.owner s.wants a b := by
  have hg := run_guards r
  refine ⟨hg,fun μ a b => (hg μ).exclusive,?_,fun a μ ν hw => State.not_holds_of_wants hw ν,
    fun k t μ ht hpc => finished_holds_nothing ht hpc,fun a b hw => ?_,
    fun S hne => no_circular_wait (fun μ a ho => (owner_goes_on r ho).1) hne⟩
  · intro a hboth
    cases a with
    | acceptor => cases hboth.2
    | client k =>
      obtain ⟨⟨t,ht,h1⟩,u,hu,h2⟩ := hboth
      obtain rfl := Option.some.inj (ht.symm.trans hu)
      rw [PC.holds,PC.holds_one h1] at h2
      cases h2
  · obtain ⟨μ,_,ho⟩ := hw
    exact owner_goes_on r ho

/- Two clients join; the first is inside `distributeData` and the second waits for `mut`. -/
def waitingSchedule : List Action := acceptOn 4 ++ acceptOn 5 ++ clientSteps 0 [.tick]

theorem deadlock_free_waiting :
    let s := (runOf step (initial 3 ⟨0,0⟩) waitingSchedule).2
    WaitsFor s.shared.owner s.wants (.client 1) (.client 0) ∧ s.wants (.client 0) = none ∧
      ∃ ans s', step s (Action.client 0 ans) = some s' := by
  have hwaits : WaitsFor (runOf step (initial 3 ⟨0,0⟩) waitingSchedule).2.shared.owner
      (runOf step (initial 3 ⟨0,0⟩) waitingSchedule).2.wants (.client 1) (.client 0) :=
    ⟨.mutex,by decide +kernel,by decide +kernel⟩
  obtain ⟨hholder,hgo⟩ := (deadlock_free (runOf_run step (initial 3 ⟨0,0⟩) waitingSchedule
    (by decide +kernel))).2.2.2.2.2.1 _ _ hwaits
  exact ⟨hwaits,hholder,hgo (by decide +kernel)⟩

end TcpProjects.ChatServer
