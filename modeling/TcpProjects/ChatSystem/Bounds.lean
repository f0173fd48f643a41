import TcpProjects.ChatServer.Locals
import TcpProjects.ChatClient.ServerData

/-! # The bounds of the chat arrays

Every store of `socketThread` into its five arrays and of `getServerDataThread` into
its buffer, as `sprintf`, `read`, `recv` and the terminators make them. The memory of
the server model is what these stores leave. They stay within the arrays exactly if no
`read` and no `recv` fills its array: the terminator goes behind what was received. -/

namespace TcpProjects.ChatServer

/- The arrays of `socketThread`. -/
inductive Local where
  | username
  | message
  | formattedMessage
  | quitMessage
  | joinMessage
  deriving DecidableEq

def Local.size : Local → ℕ
  | .username => maxUsername
  | .message => maxMessage
  | .formattedMessage => maxMessage+maxUsername+2
  | .quitMessage => maxUsername+17
  | .joinMessage => maxUsername+14

structure Store where
  array : Local
  write : Write
  deriving DecidableEq

def Store.Inside (x : Store) : Prop := x.write.Inside x.array.size

instance (x : Store) : Decidable x.Inside := inferInstanceAs (Decidable (x.write.Inside x.array.size))

/- `sprintf` stores the text and its terminator. -/
def Store.sprintf (array : Local) (text : Bytes) : Store := ⟨array,0,text ++ [nul]⟩

namespace Locals

def apply (l : Locals) (x : Store) : Locals :=
  match x.array with
  | .username => { l with username := l.username.write x.write }
  | .message => { l with message := l.message.write x.write }
  | .formattedMessage => { l with formattedMessage := l.formattedMessage.write x.write }
  | .quitMessage => { l with quitMessage := l.quitMessage.write x.write }
  | .joinMessage => { l with joinMessage := l.joinMessage.write x.write }

/- The stores at the start of `socketThread`. -/
def prepareStores (l : Locals) (socket : Fd) : List Store :=
  let username := cText (l.username.sprintf (ChatServer.username socket)).val
  [.sprintf .username (ChatServer.username socket),
    .sprintf .quitMessage (username ++ ascii " has disconnected"),
    .sprintf .joinMessage (username ++ ascii " has connected")]

def formatStores (l : Locals) : List Store :=
  [.sprintf .formattedMessage (cText l.username.val ++ ascii ": " ++ cText l.message.val)]

/- The stores of a round of the loop in which `read` returned a chunk. -/
def receivedStores (l : Locals) (chunk : Bytes) : List Store :=
  [⟨.message,0,chunk⟩,⟨.message,chunk.length,[nul]⟩] ++
  if (l.store chunk).message.val.head? = some slash then [] else (l.store chunk).formatStores

/- The loop, for what its `read` calls return before the last one; a return of 0 is the last. -/
def loopStores (l : Locals) : List Bytes → List Store
  | [] => []
  | chunk :: chunks =>
    if chunk = [] then [] else l.receivedStores chunk ++ (l.received chunk).1.loopStores chunks

def socketThreadStores (l : Locals) (socket : Fd) (chunks : List Bytes) : List Store :=
  l.prepareStores socket ++ (l.prepare socket).loopStores chunks

/-! ### The memory of the server model -/

theorem prepare_stores (l : Locals) (socket : Fd) :
    l.prepare socket = (l.prepareStores socket).foldl apply l := by
  simp only [prepare,prepareStores,List.foldl_cons,List.foldl_nil,apply,Store.sprintf,
    Buffer.sprintf_write]

theorem store_stores (l : Locals) (chunk : Bytes) :
    l.store chunk = [(⟨.message,0,chunk⟩ : Store),⟨.message,chunk.length,[nul]⟩].foldl apply l := by
  simp only [store,List.foldl_cons,List.foldl_nil,apply,Buffer.store_write,Buffer.set_write]

theorem format_stores (l : Locals) : l.format = l.formatStores.foldl apply l := by
  simp only [format,formatStores,List.foldl_cons,List.foldl_nil,apply,Store.sprintf,
    Buffer.sprintf_write]

/- The arrays after a chunk are what the stores leave in them. -/
theorem received_stores (l : Locals) (chunk : Bytes) :
    (l.received chunk).1 = (l.receivedStores chunk).foldl apply l := by
  rw [received,receivedStores,List.foldl_append,← store_stores]
  split_ifs
  · rfl
  · rfl
  · exact (l.store chunk).format_stores

/-! ### The bounds -/

theorem sprintf_inside {array : Local} {text : Bytes} :
    (Store.sprintf array text).Inside ↔ text.length < array.size := by
  simp only [Store.sprintf,Store.Inside,Write.Inside,List.length_append,List.length_singleton]
  omega

theorem username_length {socket : Fd} (h : socket < 2^20) : (ChatServer.username socket).length ≤ 14 := by
  have hd : (decimal socket).length ≤ 7 :=
    (decimal_length_le (by decide)).mpr (Nat.lt_of_lt_of_le h (by decide))
  have htext : (ascii "Client-").length = 7 := by decide
  rw [ChatServer.username,List.length_append]
  omega

/- The name fits its array. -/
theorem prepare_username (l : Locals) {socket : Fd} (h : socket < 2^20) :
    cText (l.prepare socket).username.val = ChatServer.username socket := by
  have hlength := username_length h
  exact l.username.cText_sprintf (username_nulFree socket) (by rw [maxUsername]; omega)

theorem prepareStores_inside (l : Locals) {socket : Fd} (h : socket < 2^20) :
    ∀ x ∈ l.prepareStores socket, x.Inside := by
  have hlength := username_length h
  have hname : cText (l.username.sprintf (ChatServer.username socket)).val = ChatServer.username socket :=
    l.prepare_username h
  have hquit : (ascii " has disconnected").length = 17 := by decide
  have hjoin : (ascii " has connected").length = 14 := by decide
  intro x hx
  rw [prepareStores,hname] at hx
  simp only [List.mem_cons,List.not_mem_nil,or_false] at hx
  rcases hx with rfl | rfl | rfl
  · rw [sprintf_inside,Local.size,maxUsername]
    omega
  · rw [sprintf_inside,Local.size,maxUsername,List.length_append]
    omega
  · rw [sprintf_inside,Local.size,maxUsername,List.length_append]
    omega

/- The name stays as it is while chunks are received. -/
theorem received_username (l : Locals) (chunk : Bytes) : (l.received chunk).1.username = l.username := by
  rw [received]
  split_ifs <;> rfl

theorem receivedStores_inside {l : Locals} {socket : Fd} {chunk : Bytes} (h : socket < 2^20)
    (hname : cText l.username.val = ChatServer.username socket) (hchunk : chunk.length < maxMessage) :
    ∀ x ∈ l.receivedStores chunk, x.Inside := by
  have hlength := username_length h
  have htext : cText (l.store chunk).message.val = cText chunk :=
    l.message.cText_terminate (Nat.le_of_lt hchunk)
  have hshort : (cText chunk).length ≤ chunk.length := (List.takeWhile_sublist _).length_le
  have hcolon : (ascii ": ").length = 2 := by decide
  have husername : cText (l.store chunk).username.val = ChatServer.username socket := hname
  intro x hx
  rcases List.mem_append.mp hx with hx | hx
  · simp only [List.mem_cons,List.not_mem_nil,or_false] at hx
    rcases hx with rfl | rfl
    · simp only [Store.Inside,Write.Inside,Local.size]
      omega
    · simp only [Store.Inside,Write.Inside,Local.size,List.length_singleton]
      omega
  · split_ifs at hx
    · cases hx
    · obtain rfl := List.mem_singleton.mp hx
      rw [sprintf_inside,husername,htext,Local.size,List.length_append,List.length_append]
      rw [maxMessage] at hchunk ⊢
      unfold maxUsername
      omega

/- The terminator of every chunk is stored. -/
theorem terminator_mem {l : Locals} {chunks : List Bytes} (hne : ∀ c ∈ chunks, c ≠ []) {chunk : Bytes}
    (h : chunk ∈ chunks) : (⟨.message,chunk.length,[nul]⟩ : Store) ∈ l.loopStores chunks := by
  induction chunks generalizing l with
  | nil => cases h
  | cons c chunks ih =>
    rw [loopStores,if_neg (hne c (List.mem_cons_self ..))]
    rcases List.mem_cons.mp h with rfl | h
    · exact List.mem_append_left _ (List.mem_append_left _ (by simp))
    · exact List.mem_append_right _ (ih (fun d hd => hne d (List.mem_cons_of_mem c hd)) h)

theorem loopStores_inside {l : Locals} {socket : Fd} {chunks : List Bytes} (h : socket < 2^20)
    (hname : cText l.username.val = ChatServer.username socket)
    (hchunks : ∀ c ∈ chunks, c.length < maxMessage) : ∀ x ∈ l.loopStores chunks, x.Inside := by
  induction chunks generalizing l with
  | nil => exact fun x hx => absurd hx List.not_mem_nil
  | cons c chunks ih =>
    intro x hx
    rw [loopStores] at hx
    split_ifs at hx
    · cases hx
    · rcases List.mem_append.mp hx with hx | hx
      · exact receivedStores_inside h hname (hchunks c (List.mem_cons_self ..)) x hx
      · exact ih (by rw [received_username,hname]) (fun d hd => hchunks d (List.mem_cons_of_mem c hd)) x hx

end Locals
end TcpProjects.ChatServer

namespace TcpProjects.ChatClient
open ChatServer

/- The size of `buffer` in `getServerDataThread`. -/
def bufferSize : ℕ := maxMessage+maxUsername+2

/- The stores of a round of `getServerDataThread` in which `recv` returned a chunk. -/
def chunkStores (chunk : Bytes) : List Write := [⟨0,chunk⟩,⟨chunk.length,[nul]⟩]

def getServerDataStores (chunks : List Bytes) : List Write := chunks.flatMap chunkStores

/- What the stores leave is what the string functions of the thread see. -/
theorem chunkStores_text (buffer : Buffer bufferSize) {chunk : Bytes} (h : chunk.length < bufferSize) :
    cText ((chunkStores chunk).foldl Buffer.write buffer).val = cText (chunk ++ [nul]) := by
  rw [cText_terminated,← buffer.cText_terminate (Nat.le_of_lt h),chunkStores]
  simp only [List.foldl_cons,List.foldl_nil,Buffer.store_write,Buffer.set_write]

end TcpProjects.ChatClient

namespace TcpProjects.ChatSystem
open ChatServer ChatClient

/-- All stores of both sides stay within their arrays exactly if neither a `read` nor a
`recv` returns as many bytes as it asked for. -/
theorem stores_inside (l : Locals) {socket : Fd} (hsocket : socket < 2^20)
    {chunks : List Bytes} (hchunks : ∀ c ∈ chunks, c ≠ []) (received : List Bytes) :
    ((∀ x ∈ l.socketThreadStores socket chunks, x.Inside) ∧
      ∀ w ∈ getServerDataStores received, w.Inside bufferSize) ↔
    (∀ c ∈ chunks, c.length < maxMessage) ∧ ∀ c ∈ received, c.length < bufferSize := by
  constructor
  · intro ⟨hserver,hclient⟩
    constructor
    · intro c hc
      have hx := hserver _ (List.mem_append_right _
        (Locals.terminator_mem hchunks hc))
      simpa [Store.Inside,Write.Inside,Local.size,Nat.succ_le_iff] using hx
    · intro c hc
      have hw := hclient ⟨c.length,[nul]⟩ (List.mem_flatMap.mpr ⟨c,hc,by simp [chunkStores]⟩)
      simpa [Write.Inside,Nat.succ_le_iff] using hw
  · intro ⟨hserver,hclient⟩
    constructor
    · intro x hx
      rcases List.mem_append.mp hx with hx | hx
      · exact l.prepareStores_inside hsocket x hx
      · exact Locals.loopStores_inside hsocket (l.prepare_username hsocket) hserver x hx
    · intro w hw
      obtain ⟨c,hc,hw⟩ := List.mem_flatMap.mp hw
      have hlt := hclient c hc
      simp only [chunkStores,List.mem_cons,List.not_mem_nil,or_false] at hw
      rcases hw with rfl | rfl
      · simp only [Write.Inside]
        omega
      · simp only [Write.Inside,List.length_singleton]
        omega

/- Arrays that hold zeros. -/
def zeroLocals : Locals := ⟨.zero _,.zero _,.zero _,.zero _,.zero _⟩

/- The largest number, with a text and a request. -/
theorem stores_inside_largest :
    (∀ x ∈ zeroLocals.socketThreadStores 1048575 [ascii "hi",ascii "/request/Ping"], x.Inside) ∧
      ∀ w ∈ getServerDataStores [ascii "Client-4: hi"], w.Inside bufferSize :=
  (stores_inside zeroLocals (by decide) (by decide) _).mpr ⟨by decide,by decide⟩

/- A `read` that fills `message` has its terminator stored behind the array. -/
theorem store_outside :
    ¬ ∀ (l : Locals) (socket : Fd) (chunks : List Bytes), socket < 2^20 →
      (∀ c ∈ chunks, c ≠ [] ∧ c.length ≤ maxMessage) →
        ∀ x ∈ l.socketThreadStores socket chunks, x.Inside := by
  intro h
  let chunk : Bytes := List.replicate maxMessage (byte 'a')
  have hlength : chunk.length = maxMessage := List.length_replicate
  have hne : chunk ≠ [] := fun he => by
    rw [he] at hlength
    cases hlength
  have hchunks : ∀ c ∈ [chunk], c ≠ [] ∧ c.length ≤ maxMessage := by
    intro c hc
    obtain rfl := List.mem_singleton.mp hc
    exact ⟨hne,Nat.le_of_eq hlength⟩
  have hx := h zeroLocals 4 [chunk] (by decide) hchunks _ (List.mem_append_right _
    (Locals.terminator_mem (fun c hc => (hchunks c hc).1) (List.mem_singleton_self chunk)))
  simp only [Store.Inside,Write.Inside,Local.size,hlength,List.length_singleton] at hx
  omega

end TcpProjects.ChatSystem
