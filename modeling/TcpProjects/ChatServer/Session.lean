import TcpProjects.ChatServer.Reactions

/-! # Sessions in the broadcast log

The log is the sequence of the texts handed to `distributeData`, in the order in
which the calls take `mut`. For one name it should read as sessions: connected,
chat messages, disconnected, again connected. A thread closes its descriptor
before it announces the disconnect, so the next client with the same number can
announce itself in between; without that overlap, and only then, the log of every
name is made of sessions. -/

namespace TcpProjects.ChatServer
open Transition

/-! ### Sessions -/

inductive Mark where
  | connected
  | chat
  | disconnected
  deriving DecidableEq

/- A session is open or not; a mark that does not fit has no next state. -/
def Mark.next : Bool → Mark → Option Bool
  | false, .connected => some true
  | true, .chat => some true
  | true, .disconnected => some false
  | _, _ => none

/- The marks of the name `Client-n` in a text of the log. -/
def markOf (n : Fd) (text : Bytes) : Option Mark :=
  if text = joinMessage n then some .connected
  else if text = quitMessage n then some .disconnected
  else if (username n ++ ascii ": ").isPrefixOf text then some .chat
  else none

/-- The state of the sessions of `Client-n` after a log, `none` if it is not a
sequence of sessions. -/
def sessions (n : Fd) (log : List Bytes) : Option Bool :=
  (log.filterMap (markOf n)).foldlM Mark.next false

theorem sessions_snoc (n : Fd) (log : List Bytes) (text : Bytes) :
    sessions n (log ++ [text]) = (sessions n log).bind fun b =>
      match markOf n text with
      | some mark => Mark.next b mark
      | none => some b := by
  rw [sessions,filterMap_snoc,List.foldlM_append]
  cases markOf n text <;> simp [sessions]

def Payload.mark : Payload → Mark
  | .join => .connected
  | .chat _ => .chat
  | .quit => .disconnected

/- The marks of a thread fit: it joins when no session is open and afterwards speaks
and quits in an open one. -/
theorem Payload.mark_next (p : Payload) {b : Bool} (h : b = true ↔ p ≠ .join) :
    ∃ b', Mark.next b p.mark = some b' ∧ (b' = true ↔ p ≠ .quit) := by
  cases p with
  | join =>
    have hb : b = false := by simpa using h
    exact ⟨true,by rw [hb]; rfl,by simp⟩
  | quit =>
    have hb : b = true := by simpa using h
    exact ⟨false,by rw [hb]; rfl,by simp⟩
  | chat m =>
    have hb : b = true := by simpa using h
    exact ⟨true,by rw [hb]; rfl,by simp⟩

theorem prefix_iff_formatted (n : Fd) (text : Bytes) :
    (username n ++ ascii ": ").isPrefixOf text = true ↔ ∃ m, text = formattedMessage n m := by
  rw [List.isPrefixOf_iff_prefix]
  constructor
  · intro hx
    obtain ⟨m,hm⟩ := hx
    exact ⟨m,hm.symm⟩
  · intro hx
    obtain ⟨m,rfl⟩ := hx
    exact ⟨m,rfl⟩

/- The texts of a thread mark its own name and no other. -/
theorem markOf_text (n socket : Fd) (p : Payload) :
    markOf n (p.text socket) = if socket = n then some p.mark else none := by
  have hchat (m : Bytes) : (username n ++ ascii ": ").isPrefixOf (formattedMessage socket m) = true ↔
      socket = n := by
    rw [prefix_iff_formatted]
    constructor
    · intro hx
      obtain ⟨m',h⟩ := hx
      exact (formattedMessage_inj h).1
    · intro hx
      subst hx
      exact ⟨m,rfl⟩
  cases p with
  | join =>
    have hq := joinMessage_ne_quitMessage socket n
    have hf : ¬ (username n ++ ascii ": ").isPrefixOf (joinMessage socket) = true := by
      rw [prefix_iff_formatted]
      intro hx
      obtain ⟨m,h⟩ := hx
      exact joinMessage_ne_formattedMessage _ _ _ h
    simp only [markOf,Payload.text,joinMessage_injective.eq_iff,hq,hf,Bool.false_eq_true,if_false,Payload.mark]
  | quit =>
    have hj : quitMessage socket ≠ joinMessage n := (joinMessage_ne_quitMessage n socket).symm
    have hf : ¬ (username n ++ ascii ": ").isPrefixOf (quitMessage socket) = true := by
      rw [prefix_iff_formatted]
      intro hx
      obtain ⟨m,h⟩ := hx
      exact quitMessage_ne_formattedMessage _ _ _ h
    simp only [markOf,Payload.text,quitMessage_injective.eq_iff,hj,hf,Bool.false_eq_true,if_false,Payload.mark]
  | chat m =>
    have hj : formattedMessage socket m ≠ joinMessage n :=
      (joinMessage_ne_formattedMessage n socket m).symm
    have hq : formattedMessage socket m ≠ quitMessage n :=
      (quitMessage_ne_formattedMessage n socket m).symm
    simp only [markOf,Payload.text,hj,hq,if_false,hchat,Payload.mark]

/-! ### The log of a run -/

/- The text a step announces: it takes `mut` for a call of `distributeData`. -/
def announced (x : State × Action) : Option Bytes :=
  match x.2 with
  | .client k .tick => (x.1.thread k).bind fun t =>
    match t.pc with
    | .distribute p .lock => some (p.text t.socket)
    | _ => none
  | _ => none

def broadcastLog (tr : List (State × Action)) : List Bytes := tr.filterMap announced

/- The thread has announced its client and not yet its leaving. -/
def PC.inSession : PC → Bool
  | .distribute .join .lock => false
  | .distribute .quit .lock => true
  | .distribute .quit _ => false
  | .print .quit _ => false
  | .eraseThread _ => false
  | .finished => false
  | _ => true

/- The thread has closed its descriptor and not yet announced it. -/
def PC.unannounced : PC → Bool
  | .distribute .quit .lock => true
  | .closeSocket .lock => false
  | .closeSocket .close => false
  | .closeSocket _ => true
  | _ => false

theorem PC.inSession_closed (pc : PC) : (pc.inSession && pc.closed) = pc.unannounced := by
  cases pc with
  | distribute p l => cases p <;> cases l <;> rfl
  | print p l => cases p <;> rfl
  | closeSocket l => cases l <;> rfl
  | _ => rfl

/- No join message takes `mut` while another thread that had the same number is
between its close and the lock of its quit message. -/
def JoinClear (x : State × Action) : Prop :=
  ∀ k ans t, x.2 = .client k ans → x.1.thread k = some t → t.pc = .distribute .join .lock →
    ∀ j u, x.1.thread j = some u → u.socket = t.socket → u.pc.unannounced = false

theorem announced_none {k : ℕ} {s : State} {t : SocketThread} {ans : Answer}
    (ht : s.thread k = some t) (hpc : ∀ p, t.pc ≠ .distribute p .lock) :
    announced (s,.client k ans) = none := by
  cases ans with
  | tick =>
    simp only [announced,ht,Option.bind_some]
  | _ => rfl

theorem SocketStep.session_effect {k : ℕ} {s : State} {t : SocketThread} {g : Shared} {ans : Answer}
    {pc : PC} (ht : s.thread k = some t) (h : SocketStep k t s.shared ans g pc) :
    (∃ p, t.pc = .distribute p .lock ∧ pc = .distribute p .begin ∧
      announced (s,.client k ans) = some (p.text t.socket)) ∨
    (announced (s,.client k ans) = none ∧ pc.inSession = t.pc.inSession) := by
  cases h with
  | @distributeLock p hpc _ => exact Or.inl ⟨p,hpc,rfl,by simp [announced,ht,hpc]⟩
  | read hpc => exact Or.inr ⟨rfl,by rw [afterRead_keeps PC.inSession rfl rfl fun _ => rfl,hpc]⟩
  | sendThrow hpc | eventThrow hpc | closeThrow hpc => exact Or.inr ⟨rfl,rfl⟩
  | @distributeBegin p hpc | @sendData p it n hpc | @distributeNext p it hpc | @printLock p hpc _ =>
    refine Or.inr ⟨announced_none ht (by simp [hpc]),?_⟩
    rw [hpc]
    cases p <;> rfl
  | @distributeUnlock p hpc | @printUnlock p hpc =>
    refine Or.inr ⟨announced_none ht (by simp [hpc]),?_⟩
    rw [hpc]
    cases p <;> rfl
  | sendEvent hpc | closeLock hpc _ | close hpc | isServerSocket hpc _ | notServerSocket hpc _
  | eraseServer hpc | isClientSocket hpc _ | notClientSocket hpc _ | eraseClient hpc
  | closeUnlock hpc | eraseLock hpc _ | eraseThread hpc | eraseUnlock hpc =>
    refine Or.inr ⟨announced_none ht (by simp [hpc]),?_⟩
    rw [hpc]
    rfl

/-! ### The sessions of the threads -/

/- The number under which a thread is in a session. -/
def State.session (s : State) (k : ℕ) : Option Fd :=
  (s.thread k).bind fun t => if t.pc.inSession then some t.socket else none

theorem State.session_eq {s : State} {k : ℕ} {n : Fd} :
    s.session k = some n ↔ ∃ t, s.thread k = some t ∧ t.pc.inSession = true ∧ t.socket = n := by
  simp [State.session,Option.bind_eq_some_iff]

/- A step announces nothing and moves no session, or one thread announces
itself, speaks or takes its leave. -/
theorem Step.session_effect {m : Fd} {s s' : State} {a : Action} (hs : Safe m s) (h : Step s a s') :
    (announced (s,a) = none ∧ s'.session = s.session) ∨
    ∃ k t p, s.thread k = some t ∧ t.pc = .distribute p .lock ∧ (∃ ans, a = .client k ans) ∧
      announced (s,a) = some (p.text t.socket) ∧
      s.session k = (if p = .join then none else some t.socket) ∧
      s'.session = Function.update s.session k (if p = .quit then none else some t.socket) := by
  cases h with
  | acceptor _ ha =>
    refine Or.inl ⟨rfl,?_⟩
    cases ha with
    | newThread hpc =>
      funext j
      by_cases hj : j = s.started
      · subst hj
        simp [State.session,hs.ownership.fresh,PC.inSession]
      · simp [State.session,hj]
    | _ => rfl
  | leave => exact Or.inl ⟨rfl,rfl⟩
  | @client k t ans g pc _ ht hst =>
    have hother (j : ℕ) (hj : j ≠ k) : (s.advance k t g pc).session j = s.session j := by
      rw [State.session,s.advance_other _ _ _ hj]
      rfl
    rcases hst.session_effect ht with ⟨p,hpc,hpc',hann⟩ | ⟨hann,hsame⟩
    · refine Or.inr ⟨k,t,p,ht,hpc,⟨ans,rfl⟩,hann,?_,?_⟩
      · cases p <;> simp [State.session,ht,hpc,PC.inSession]
      · funext j
        by_cases hj : j = k
        · subst hj
          cases p <;> simp [State.session,State.advance_self,hpc',PC.inSession]
        · rw [Function.update_of_ne hj]
          exact hother j hj
    · refine Or.inl ⟨hann,?_⟩
      funext j
      by_cases hj : j = k
      · subst hj
        simp [State.session,State.advance_self,ht,hsame]
      · exact hother j hj

/- For a thread that is about to announce itself, the number is in a session
exactly if an old thread of that number has not announced its leaving. -/
theorem joinClear_iff {m : Fd} {s : State} {k : ℕ} {t : SocketThread} {ans : Answer} (hs : Safe m s)
    (ht : s.thread k = some t) (hpc : t.pc = .distribute .join .lock) :
    JoinClear (s,.client k ans) ↔ ∀ j, s.session j ≠ some t.socket := by
  have hopen := hs.ownership.table_of_open ht (by rw [hpc]; rfl)
  constructor
  · intro hclear j hj
    obtain ⟨u,hu,hin,hsock⟩ := State.session_eq.mp hj
    have hno := hclear k ans t rfl ht hpc j u hu hsock
    rw [← PC.inSession_closed,hin,Bool.true_and] at hno
    have hu' := hs.ownership.table_of_open hu hno
    rw [hsock,hopen] at hu'
    cases hu'
    cases ht.symm.trans hu
    rw [hpc] at hin
    cases hin
  · intro hfree k' ans' t' ha ht' _ j u hu hsock
    cases ha
    cases ht.symm.trans ht'
    cases hun : u.pc.unannounced with
    | false => rfl
    | true =>
      rw [← PC.inSession_closed,Bool.and_eq_true] at hun
      exact absurd (State.session_eq.mpr ⟨u,hu,hun.1,hsock⟩) (hfree j)

/-- The log of every name is made of sessions, and the one of name `n` is open
exactly while somebody is in a session under `n`, who is then the only one. -/
structure Sessions (session : ℕ → Option Fd) (log : List Bytes) : Prop where
  state : ∀ n, ∃ b, sessions n log = some b ∧ (b = true ↔ ∃ k, session k = some n)
  unique : ∀ n j k, session j = some n → session k = some n → j = k

namespace Sessions
variable {session : ℕ → Option Fd} {log : List Bytes} {k : ℕ} {n : Fd} {p : Payload}

theorem update_unique (hi : Sessions session log) (halone : ∀ j, session j = some n → j = k)
    {q : Fd} {i j : ℕ}
    (hj : Function.update session k (if p = .quit then none else some n) j = some q)
    (hq : Function.update session k (if p = .quit then none else some n) i = some q) : j = i := by
  have hold (u : ℕ) (hu : Function.update session k (if p = .quit then none else some n) u = some q) :
      u = k ∧ n = q ∨ session u = some q := by
    by_cases huk : u = k
    · rw [huk,Function.update_self] at hu
      split_ifs at hu
      cases hu
      exact Or.inl ⟨huk,rfl⟩
    · rw [Function.update_of_ne huk] at hu
      exact Or.inr hu
  by_cases hn : n = q
  · subst hn
    have hk (u : ℕ) (hu : Function.update session k (if p = .quit then none else some n) u = some n) :
        u = k := (hold u hu).elim And.left (halone u)
    rw [hk j hj,hk i hq]
  · have hsame (u : ℕ)
        (hu : Function.update session k (if p = .quit then none else some n) u = some q) :
        session u = some q := (hold u hu).elim (fun h => absurd h.2 hn) id
    exact hi.unique q j i (hsame j hj) (hsame i hq)

/- Under the number that is announced, the session opens and closes with its only
member. -/
theorem update_member (hbefore : session k = if p = .join then none else some n)
    (halone : ∀ j, session j = some n → j = k) :
    ((∃ j, session j = some n) ↔ p ≠ .join) ∧
    ((∃ j, Function.update session k (if p = .quit then none else some n) j = some n) ↔
      p ≠ .quit) := by
  refine ⟨⟨?_,?_⟩,⟨?_,?_⟩⟩
  · intro hx he
    obtain ⟨j,hj⟩ := hx
    subst he
    rw [halone j hj,hbefore] at hj
    cases hj
  · intro hp
    exact ⟨k,by rw [hbefore,if_neg hp]⟩
  · intro hx he
    obtain ⟨j,hj⟩ := hx
    subst he
    by_cases hjk : j = k
    · rw [hjk,Function.update_self] at hj
      cases hj
    · rw [Function.update_of_ne hjk] at hj
      exact hjk (halone j hj)
  · intro hp
    exact ⟨k,by rw [Function.update_self,if_neg hp]⟩

/- One announcement: `k`, alone under `n`, joins, speaks or quits. -/
theorem announce (hi : Sessions session log) (hbefore : session k = if p = .join then none else some n)
    (halone : ∀ j, session j = some n → j = k) :
    Sessions (Function.update session k (if p = .quit then none else some n)) (log ++ [p.text n]) := by
  refine ⟨?_,fun q j i => hi.update_unique halone⟩
  intro q
  obtain ⟨b,hb,hbq⟩ := hi.state q
  rw [sessions_snoc,hb,Option.bind_some,markOf_text]
  by_cases hn : n = q
  · subst hn
    obtain ⟨hopen,hclosed⟩ := update_member hbefore halone
    rw [if_pos rfl,hclosed]
    exact p.mark_next (hbq.trans hopen)
  · rw [if_neg hn]
    refine ⟨b,rfl,hbq.trans (exists_congr fun j => ?_)⟩
    by_cases hjk : j = k
    · subst hjk
      rw [hbefore,Function.update_self]
      cases p <;> simp [hn]
    · rw [Function.update_of_ne hjk]

end Sessions

theorem Sessions.step {m : Fd} {s s' : State} {a : Action} {log : List Bytes} (hs : Safe m s)
    (hi : Sessions s.session log) (h : Step s a s') (hclear : JoinClear (s,a)) :
    Sessions s'.session (log ++ (announced (s,a)).toList) := by
  rcases h.session_effect hs with ⟨hann,hsame⟩ | ⟨k,t,p,ht,hpc,⟨ans,rfl⟩,hann,hbefore,hafter⟩
  · rw [hann,hsame,Option.toList_none,List.append_nil]
    exact hi
  · rw [hann,hafter,Option.toList_some]
    apply hi.announce hbefore
    -- Under the number of the thread nobody else is in a session.
    intro j hj
    by_cases hp : p = .join
    · subst hp
      exact absurd hj ((joinClear_iff hs ht hpc).mp hclear j)
    · rw [if_neg hp] at hbefore
      exact hi.unique _ j k hj hbefore

theorem Sessions.of_initial (m : Fd) (addr : SockaddrIn) : Sessions (initial m addr).session [] := by
  refine ⟨fun n => ⟨false,rfl,?_⟩,?_⟩
  · simp [State.session,initial]
  · intro n j k h
    cases h

theorem run_sessions {m : Fd} {addr : SockaddrIn} {tr : List (State × Action)} {s : State}
    (r : Run step (initial m addr) tr s) (hclear : ∀ x ∈ tr, JoinClear x) :
    Sessions s.session (broadcastLog tr) := by
  induction r with
  | start => exact Sessions.of_initial m addr
  | @next tr s a s' r h ih =>
    have hlast := hclear (s,a) (List.mem_append_right _ (List.mem_singleton_self _))
    rw [broadcastLog,filterMap_snoc]
    exact (ih fun x hx => hclear x (List.mem_append_left _ hx)).step (run_safe r) (step_cases h) hlast

/- A log that is not made of sessions does not become one by going on. -/
theorem sessions_prefix {n : Fd} {log : List Bytes} {o : Option Bytes}
    (h : (sessions n (log ++ o.toList)).isSome = true) : (sessions n log).isSome = true := by
  cases o with
  | none => rwa [Option.toList_none,List.append_nil] at h
  | some text =>
    rw [Option.toList_some,sessions_snoc] at h
    cases hs : sessions n log with
    | none =>
      rw [hs] at h
      cases h
    | some b => rfl

/-- The log of every name is made of sessions exactly if no thread announced its
client while an old thread of the same number had closed and not announced it. -/
theorem session_bracketing {m : Fd} {addr : SockaddrIn} {tr : List (State × Action)} {s : State}
    (r : Run step (initial m addr) tr s) :
    (∀ n, (sessions n (broadcastLog tr)).isSome = true) ↔ ∀ x ∈ tr, JoinClear x := by
  constructor
  · intro hlog
    induction r with
    | start => exact fun x hx => by cases hx
    | @next tr s a s' r h ih =>
      rw [broadcastLog] at hlog
      simp only [filterMap_snoc] at hlog
      have hclear := ih fun n => sessions_prefix (hlog n)
      intro x hx
      rcases List.mem_append.mp hx with hx | hx
      · exact hclear x hx
      obtain rfl := List.mem_singleton.mp hx
      -- The last step: an open session under the number would be announced again.
      intro k ans t ha ht hpc
      cases ha
      refine (joinClear_iff (run_safe r) ht hpc).mpr ?_ k ans t rfl ht hpc
      intro j hj
      obtain ⟨b,hb,hbn⟩ := (run_sessions r hclear).state t.socket
      have hopen : b = true := hbn.mpr ⟨j,hj⟩
      have hann : announced (s,.client k ans) = some (Payload.join.text t.socket) := by
        cases step_cases h with
        | client _ hu hst =>
          cases ht.symm.trans hu
          cases hst with
          | distributeLock _ _ => simp [announced,hu,hpc]
          | _ => simp_all
      have hbad := hlog t.socket
      rw [hann,Option.toList_some,sessions_snoc,markOf_text,if_pos rfl] at hbad
      change ((sessions t.socket (broadcastLog tr)).bind _).isSome = true at hbad
      rw [hb,hopen] at hbad
      cases hbad
  · intro hclear n
    obtain ⟨b,hb,_⟩ := (run_sessions r hclear).state n
    rw [hb]
    rfl

/- The first client leaves and is announced, then its number joins again. -/
def rejoin : List Action :=
  reuseSchedule ++ clientSteps 0 (distributeTo 1 33) ++ clientSteps 1 (joinTo 1)

theorem session_bracketing_rejoin :
    let tr := (runOf step (initial 3 ⟨0,0⟩) rejoin).1
    broadcastLog tr = [joinMessage 4,formattedMessage 4 (ascii "hi"),quitMessage 4,joinMessage 4] ∧
      ∀ n, (sessions n (broadcastLog tr)).isSome = true := by
  have hrun := runOf_run step (initial 3 ⟨0,0⟩) rejoin (by decide +kernel)
  have hall : ∀ x ∈ (runOf step (initial 3 ⟨0,0⟩) rejoin).1, ∀ j < x.1.started,
      (x.1.thread j).all (fun u => (x.2.client?.bind x.1.thread).all fun t =>
        t.pc ≠ .distribute .join .lock || u.socket ≠ t.socket || !u.pc.unannounced) = true := by
    decide +kernel
  refine ⟨by decide +kernel,(session_bracketing hrun).mpr ?_⟩
  intro x hx k ans t ha ht hpc j u hu hsock
  have hsafe := hrun.invariant_mem (fun _ _ => run_safe) hx
  have hu' := hall x hx j (hsafe.ownership.thread_lt hu)
  rw [hu,ha] at hu'
  simpa [Action.client?,ht,hpc,hsock] using hu'

/- The second client on number 4 announces itself before the first one's leaving
is announced. -/
def overlap : List Action :=
  reuseSchedule ++ clientSteps 1 (joinTo 1) ++ clientSteps 0 (distributeTo 1 33)

theorem session_not_bracketed :
    ¬ ∀ (m : Fd) (addr : SockaddrIn) (tr : List (State × Action)) (s : State),
      Run step (initial m addr) tr s → ∀ n, (sessions n (broadcastLog tr)).isSome = true := by
  intro h
  have hrun := runOf_run step (initial 3 ⟨0,0⟩) overlap (by decide +kernel)
  have hbad : sessions 4 (broadcastLog (runOf step (initial 3 ⟨0,0⟩) overlap).1) = none := by
    decide +kernel
  have hgood := h 3 ⟨0,0⟩ _ _ hrun 4
  rw [hbad] at hgood
  cases hgood

end TcpProjects.ChatServer
