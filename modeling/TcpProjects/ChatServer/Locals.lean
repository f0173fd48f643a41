import TcpProjects.ChatServer.Steps

/-! # The local arrays of `socketThread`

The server with the memory of its threads: each has five arrays, which start
with whatever is on its stack and are filled by `sprintf` and `read`. The
branches are taken on what the arrays hold, and `send` gets bytes of them. The
old contents decide no branch; they are sent with the join and quit arrays, whose
whole size is sent, unless the text fills its array. -/

namespace TcpProjects.ChatServer
open Transition

structure Locals where
  username : Buffer maxUsername
  message : Buffer maxMessage
  formattedMessage : Buffer (maxMessage+maxUsername+2)
  quitMessage : Buffer (maxUsername+17)
  joinMessage : Buffer (maxUsername+14)

namespace Locals

/- The three `sprintf` at the start of `socketThread`. -/
def prepare (l : Locals) (socket : Fd) : Locals :=
  let username := l.username.sprintf (ChatServer.username socket)
  { l with
    username := username
    quitMessage := l.quitMessage.sprintf (cText username.val ++ ascii " has disconnected")
    joinMessage := l.joinMessage.sprintf (cText username.val ++ ascii " has connected") }

/- `read` and `message[sizeRead] = 0`. -/
def store (l : Locals) (chunk : Bytes) : Locals :=
  { l with message := (l.message.store chunk).set chunk.length nul }

def format (l : Locals) : Locals :=
  let text := cText l.username.val ++ ascii ": " ++ cText l.message.val
  { l with formattedMessage := l.formattedMessage.sprintf text }

/- The body of the loop after a `read` that returned a positive number. -/
def received (l : Locals) (chunk : Bytes) : Locals × PC :=
  let l := l.store chunk
  if l.message.val.head? = some slash then
    (l,if cText l.message.val = requestPing then .sendEvent else .read)
  else (l.format,.distribute (.chat (cText l.message.val)) .lock)

/- The bytes handed over to `distributeData`. -/
def bytes (l : Locals) : Payload → Bytes
  | .join => l.joinMessage.val
  | .quit => l.quitMessage.val
  | .chat _ => cText l.formattedMessage.val

def stack (l : Locals) : Stack := ⟨l.quitMessage,l.joinMessage⟩

end Locals

/-! ### The server with its memory -/

structure Machine where
  server : State
  locals : ℕ → Locals

/- `read` stores no more than `sizeof(message)` bytes. -/
def Action.fits : Action → Bool
  | .client _ (.read (some chunk)) => chunk.length ≤ maxMessage
  | _ => true

/- The old stack contents of a new thread are those of `l`, whatever the action says. -/
def Action.fill (l : Locals) : Action → Action
  | .acceptor (.started _) => .acceptor (.started l.stack)
  | a => a

def State.goto (s : State) (k : ℕ) (pc : PC) : State :=
  { s with thread := Function.update s.thread k ((s.thread k).map fun t => { t with pc := pc }) }

namespace Machine

def start (masterSocket : Fd) (addr : SockaddrIn) (contents : ℕ → Locals) : Machine :=
  ⟨initial masterSocket addr,contents⟩

/- The memory after an action that leads the server to `s`. -/
def after (m : Machine) (contents : ℕ → Locals) (s : State) : Action → Machine
  | .acceptor (.started _) =>
    let k := m.server.started
    ⟨s,match s.thread k with
      | some t => Function.update m.locals k ((contents k).prepare t.socket)
      | none => m.locals⟩
  | .client k (.read (some (c :: chunk))) =>
    let r := (m.locals k).received (c :: chunk)
    ⟨s.goto k r.2,Function.update m.locals k r.1⟩
  | _ => ⟨s,m.locals⟩

/-- A step with the memory, where the arrays of the `k`-th thread start with `contents k`. -/
def step (contents : ℕ → Locals) (m : Machine) (a : Action) : Option Machine :=
  if a.fits then
    (ChatServer.step m.server (a.fill (contents m.server.started))).map (m.after contents · a)
  else none

end Machine

/- What a step hands over to `send`, where `payload k socket p` is what the pointer of
the `k`-th thread shows. -/
def sends (payload : ℕ → Fd → Payload → Bytes) (s : State) : Action → Option (Fd × Bytes)
  | .client k (.sent _) => (s.thread k).bind fun t =>
    match t.pc with
    | .distribute p (.loop (some it)) => some (it,payload k t.socket p)
    | .sendEvent => some (t.socket,eventPing)
    | _ => none
  | _ => none

/- The sequence of the bytes passed to every `send` of a run, with their descriptors. -/
def sent (tr : List (Machine × Action)) : List (Fd × Bytes) :=
  tr.filterMap fun x => sends (fun k _ p => (x.1.locals k).bytes p) x.1.server x.2

theorem receive_cases (chunk : Bytes) : receive chunk =
    if (chunk ++ [nul]).head? = some slash then
      if cText chunk = requestPing then .ping else .unknown (cText chunk)
    else .chat (cText chunk) := by
  rw [receive]
  simp only [cText_terminated]

/- The branch is the one of the chunk, whatever the array held. -/
theorem Locals.received_pc (l : Locals) {chunk : Bytes} (hne : chunk ≠ [])
    (hsize : chunk.length ≤ maxMessage) : (l.received chunk).2 = afterRead (some chunk) := by
  have htext : cText (l.store chunk).message.val = cText chunk := l.message.cText_terminate hsize
  have hhead : (l.store chunk).message.val.head? = (chunk ++ [nul]).head? := by
    obtain ⟨c,r,rfl⟩ := List.exists_cons_of_ne_nil hne
    rw [Locals.store,Buffer.set_val,Buffer.store_val _ hsize]
    rfl
  simp only [received,htext,hhead,afterRead,hne,if_false,receive_cases]
  split_ifs <;> rfl

theorem SocketStep.received_pc {k : ℕ} {t : SocketThread} {g g' : Shared} {c : Byte} {chunk : Bytes}
    {pc : PC} (h : SocketStep k t g (.read (some (c :: chunk))) g' pc) (l : Locals)
    (hsize : (c :: chunk).length ≤ maxMessage) : pc = (l.received (c :: chunk)).2 := by
  rw [l.received_pc (List.cons_ne_nil c chunk) hsize]
  cases h
  rfl

theorem State.goto_eq {s : State} {k : ℕ} {t : SocketThread} (ht : s.thread k = some t) :
    s.goto k t.pc = s := by
  rw [State.goto,ht,Option.map_some,← ht,Function.update_eq_self]

namespace Machine
variable {contents : ℕ → Locals} {m m' : Machine} {a : Action}

/- With the memory the server takes the same steps. -/
theorem after_server {s : State} (hfits : a.fits = true)
    (h : ChatServer.step m.server (a.fill (contents m.server.started)) = some s) :
    (m.after contents s a).server = s := by
  cases a with
  | acceptor ans => cases ans <;> rfl
  | client k ans =>
    cases ans with
    | read r =>
      match r with
      | none => rfl
      | some [] => rfl
      | some (c :: chunk) =>
        cases step_cases h with
        | @client _ t _ g pc _ _ hs =>
          rw [after,← hs.received_pc (m.locals k) (by simpa [Action.fits] using hfits)]
          exact State.goto_eq (State.advance_self _ k t g pc)
    | _ => rfl
  | leave c => rfl

theorem step_server (h : step contents m a = some m') : a.fits = true ∧
    ChatServer.step m.server (a.fill (contents m.server.started)) = some m'.server ∧
    m' = m.after contents m'.server a := by
  rw [step] at h
  split_ifs at h with hfits
  obtain ⟨s,hs,rfl⟩ := Option.map_eq_some_iff.mp h
  rw [after_server hfits hs]
  exact ⟨hfits,hs,rfl⟩

theorem run_server {tr : List (Machine × Action)} {m₀ : Machine} (r : Run (step contents) m₀ tr m) :
    Run ChatServer.step m₀.server
      (tr.map fun x => (x.1.server,x.2.fill (contents x.1.server.started))) m.server :=
  r.map server (fun m a => a.fill (contents m.server.started)) fun _ _ _ h => (step_server h).2.1

end Machine

/-! ### What the arrays hold -/

/- The part of the name that fits into `username`. -/
def name (socket : Fd) : Bytes := (username socket).take maxUsername

theorem name_nulFree (socket : Fd) : NulFree (name socket) := fun c hc =>
  username_nulFree socket c (List.mem_of_mem_take hc)

/- The bytes of a call, given the old contents of the arrays. -/
def Locals.payload (l : Locals) (socket : Fd) : Payload → Bytes
  | .join => (l.joinMessage.sprintf (name socket ++ ascii " has connected")).val
  | .quit => (l.quitMessage.sprintf (name socket ++ ascii " has disconnected")).val
  | .chat text => (name socket ++ ascii ": " ++ text).take (maxMessage+maxUsername+2)

structure Locals.Holds (l old : Locals) (t : SocketThread) : Prop where
  stack : t.stack = old.stack
  username : cText l.username.val = name t.socket
  join : l.bytes .join = old.payload t.socket .join
  quit : l.bytes .quit = old.payload t.socket .quit
  chat : ∀ text i,t.pc = .distribute (.chat text) i →
    l.bytes (.chat text) = old.payload t.socket (.chat text) ∧ text.length ≤ maxMessage

namespace Locals
variable {l old : Locals} {t : SocketThread}

theorem Holds.bytes (h : l.Holds old t) {p : Payload} {i : DistributeAt} (hpc : t.pc = .distribute p i) :
    l.bytes p = old.payload t.socket p := by
  cases p with
  | join => exact h.join
  | quit => exact h.quit
  | chat text => exact (h.chat text i hpc).1

theorem prepare_holds {old : Locals} {socket : Fd} (hstack : t.stack = old.stack)
    (hsocket : t.socket = socket) (hpc : t.pc = .distribute .join .lock) :
    (old.prepare socket).Holds old t := by
  subst hsocket
  have hname : cText (old.username.sprintf (ChatServer.username t.socket)).val = name t.socket :=
    old.username.cText_sprintf_take (username_nulFree t.socket)
  refine ⟨hstack,hname,?_,?_,fun text i h => ?_⟩
  · simp only [Locals.bytes,prepare,payload,hname]
  · simp only [Locals.bytes,prepare,payload,hname]
  · rw [hpc] at h
    cases h

/- A chunk that was read is formatted behind the name. -/
theorem Holds.received (h : l.Holds old t) (chunk : Bytes) :
    (l.received chunk).1.Holds old { t with pc := (l.received chunk).2 } := by
  rw [Locals.received]
  split_ifs with hslash hping
  · exact ⟨h.stack,h.username,h.join,h.quit,fun text i hi => nomatch hi⟩
  · exact ⟨h.stack,h.username,h.join,h.quit,fun text i hi => nomatch hi⟩
  · refine ⟨h.stack,h.username,h.join,h.quit,fun text i hi => ?_⟩
    cases hi
    have hfree : NulFree (name t.socket ++ ascii ": " ++ cText (l.store chunk).message.val) :=
      ((name_nulFree t.socket).append (by decide +kernel)).append (cText_nulFree _)
    have husername : cText (l.store chunk).username.val = name t.socket := h.username
    have hlength : (cText (l.store chunk).message.val).length ≤ maxMessage :=
      (List.takeWhile_sublist _).length_le.trans (l.store chunk).message.property.le
    refine ⟨?_,hlength⟩
    simp only [Locals.bytes,format,husername,payload]
    exact Buffer.cText_sprintf_take _ hfree

end Locals

/- A call for a chat text goes on, or begins after a `read`. -/
theorem SocketStep.chat_from {k : ℕ} {t : SocketThread} {g g' : Shared} {ans : Answer} {text : Bytes}
    {i : DistributeAt} (h : SocketStep k t g ans g' (.distribute (.chat text) i)) :
    (∃ j,t.pc = .distribute (.chat text) j) ∨ ∃ c chunk,ans = .read (some (c :: chunk)) := by
  generalize hpc : PC.distribute (.chat text) i = pc at h
  cases h with
  | distributeLock hfrom => cases hpc; exact Or.inl ⟨_,hfrom⟩
  | distributeBegin hfrom => cases hpc; exact Or.inl ⟨_,hfrom⟩
  | sendData hfrom => cases hpc; exact Or.inl ⟨_,hfrom⟩
  | sendThrow hfrom => exact Or.inl ⟨_,hpc.symm⟩
  | distributeNext hfrom => cases hpc; exact Or.inl ⟨_,hfrom⟩
  | @distributeUnlock p => cases p <;> cases hpc
  | @printUnlock p => cases p <;> cases hpc
  | @read r =>
    match r with
    | none => cases hpc
    | some [] => cases hpc
    | some (c :: chunk) => exact Or.inr ⟨c,chunk,rfl⟩
  | eventThrow => exact Or.inl ⟨_,hpc.symm⟩
  | closeThrow => exact Or.inl ⟨_,hpc.symm⟩
  | _ => cases hpc

/- Between two chunks the arrays stay as they are. -/
theorem Locals.Holds.go {l old : Locals} {k : ℕ} {t : SocketThread} {g g' : Shared} {ans : Answer}
    {pc : PC} (h : l.Holds old t) (hstep : SocketStep k t g ans g' pc)
    (hread : ∀ c chunk,ans ≠ .read (some (c :: chunk))) : l.Holds old { t with pc := pc } := by
  refine ⟨h.stack,h.username,h.join,h.quit,fun text i hi => ?_⟩
  obtain rfl : pc = .distribute (.chat text) i := hi
  rcases hstep.chat_from with ⟨j,hj⟩ | ⟨c,chunk,hc⟩
  · exact h.chat text j hj
  · exact absurd hc (hread c chunk)

namespace Machine
variable {contents : ℕ → Locals} {m m' : Machine} {a : Action}

/-- The arrays of every thread hold what they were filled with. -/
def Filled (contents : ℕ → Locals) (m : Machine) : Prop :=
  ∀ k t,m.server.thread k = some t → (m.locals k).Holds (contents k) t

theorem Filled.after (h : Filled contents m) {s : State} (hfits : a.fits = true)
    (hs : ChatServer.step m.server (a.fill (contents m.server.started)) = some s) :
    Filled contents (m.after contents s a) := by
  intro j u hu
  rw [after_server hfits hs] at hu
  cases a with
  | acceptor ans =>
    cases ans with
    | started stack =>
      cases step_cases hs with
      | acceptor _ ha =>
        cases ha with
        | @newThread fd _ hpc =>
          simp only [Machine.after,Function.update_self]
          by_cases hj : j = m.server.started
          · subst hj
            obtain rfl : _ = u := by simpa using hu
            rw [Function.update_self]
            exact Locals.prepare_holds rfl rfl rfl
          · rw [Function.update_of_ne hj]
            exact h j u (by simpa [hj] using hu)
    | _ =>
      cases step_cases hs with
      | acceptor _ ha => cases ha <;> exact h j u hu
  | client k ans =>
    have hother (hlocals : m.after contents s (.client k ans) = ⟨s,m.locals⟩)
        (hread : ∀ c chunk,ans ≠ .read (some (c :: chunk))) :
        ((m.after contents s (.client k ans)).locals j).Holds (contents j) u := by
      rw [hlocals]
      cases step_cases hs with
      | client _ ht hstep =>
        rcases m.server.advance_thread.mp hu with ⟨rfl,rfl⟩ | ⟨_,hold⟩
        · exact (h j _ ht).go hstep hread
        · exact h j u hold
    cases ans with
    | read r =>
      match r with
      | none => exact hother rfl (by simp)
      | some [] => exact hother rfl (by simp)
      | some (c :: chunk) =>
        cases step_cases hs with
        | @client _ t _ _ pc _ ht hstep =>
          have hpc := hstep.received_pc (m.locals k) (by simpa [Action.fits] using hfits)
          rcases m.server.advance_thread.mp hu with ⟨rfl,rfl⟩ | ⟨hj,hold⟩
          · simp only [Machine.after,Function.update_self,hpc]
            exact (h j t ht).received (c :: chunk)
          · simp only [Machine.after,Function.update_of_ne hj]
            exact h j u hold
    | _ => exact hother rfl (by simp)
  | leave c =>
    cases step_cases hs with
    | leave => exact h j u hu

theorem Filled.run {tr : List (Machine × Action)} {masterSocket : Fd} {addr : SockaddrIn}
    (r : Run (step contents) (start masterSocket addr contents) tr m) : Filled contents m := by
  have h₀ : Filled contents (start masterSocket addr contents) := by
    intro k t ht
    cases ht
  refine r.invariant h₀ fun m a m' h hs => ?_
  obtain ⟨hfits,hserver,hafter⟩ := step_server hs
  rw [hafter]
  exact h.after hfits hserver

end Machine

/-! ### The bytes and the payloads -/

theorem name_short {socket : Fd} (h : socket < 10^8) : name socket = username socket := by
  have hd : (decimal socket).length ≤ 8 := (decimal_length_le (by decide)).mpr h
  have htext : (ascii "Client-").length = 7 := by decide
  refine List.take_of_length_le ?_
  rw [username,List.length_append,maxUsername]
  omega

/- For the numbers whose name fits, the bytes are those of `Payload.data`. -/
theorem Locals.payload_data (l : Locals) {socket : Fd} (h : socket < 10^8) (p : Payload)
    (hp : ∀ text,p = .chat text → text.length ≤ maxMessage) :
    l.payload socket p = p.data l.stack socket := by
  cases p with
  | join => simp only [payload,Payload.data,name_short h,ChatServer.joinMessage,stack]
  | quit => simp only [payload,Payload.data,name_short h,ChatServer.quitMessage,stack]
  | chat text =>
    have hd : (decimal socket).length ≤ 8 := (decimal_length_le (by decide)).mpr h
    have hname : (ascii "Client-").length = 7 := by decide
    have hcolon : (ascii ": ").length = 2 := by decide
    have htext := hp text rfl
    simp only [payload,Payload.data,ChatServer.formattedMessage,name_short h]
    refine List.take_of_length_le ?_
    simp only [ChatServer.username,List.length_append,maxUsername,maxMessage] at htext ⊢
    omega

/- With the memory, the bytes of a call are the data of its payload. -/
theorem run_bytes {contents : ℕ → Locals} {tr : List (Machine × Action)} {m : Machine}
    {masterSocket : Fd} {addr : SockaddrIn}
    (r : Run (Machine.step contents) (Machine.start masterSocket addr contents) tr m) {k : ℕ}
    {t : SocketThread} (ht : m.server.thread k = some t) (hsocket : t.socket < 10^8) {p : Payload}
    {i : DistributeAt} (hpc : t.pc = .distribute p i) :
    (m.locals k).bytes p = p.data t.stack t.socket := by
  have h := Machine.Filled.run r k t ht
  rw [h.bytes hpc,h.stack]
  exact Locals.payload_data _ hsocket p fun text hp => (h.chat text i (hp ▸ hpc)).2

end TcpProjects.ChatServer
