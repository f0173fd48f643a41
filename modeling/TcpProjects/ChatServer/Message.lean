import TcpProjects.Base.CString

/-! # Texts of the threaded chat server

The strings the server builds and compares (`TCPChatServer.cpp`, `Event.cpp`,
`Request.cpp`) and the sizes of `max.h`. A client's name is made from the
number of its descriptor. -/

namespace TcpProjects.ChatServer

abbrev Fd := ℕ

def maxMessage : ℕ := 2048
def maxUsername : ℕ := 16

def slash : Byte := byte '/'

/-- `Request::Request`. -/
def requestHandle (handle : String) : Bytes := ascii "/request/" ++ ascii handle
/-- `Event::Event`. -/
def responseHandle (handle : String) : Bytes := ascii "/event/" ++ ascii handle
def requestPing : Bytes := requestHandle "Ping"
def eventPing : Bytes := responseHandle "Ping"

def username (socket : Fd) : Bytes := ascii "Client-" ++ decimal socket
def quitMessage (socket : Fd) : Bytes := username socket ++ ascii " has disconnected"
def joinMessage (socket : Fd) : Bytes := username socket ++ ascii " has connected"
def formattedMessage (socket : Fd) (message : Bytes) : Bytes :=
  username socket ++ ascii ": " ++ message

/-! ### The texts name their client -/

theorem username_append_inj {n m : Fd} {c d : Byte} {x y : Bytes} (hc : ¬ IsDigit c)
    (hd : ¬ IsDigit d) (h : username n ++ c :: x = username m ++ d :: y) :
    n = m ∧ c = d ∧ x = y := by
  simp only [username,List.append_assoc] at h
  exact decimal_append_inj hc hd (List.append_cancel_left h)

theorem joinMessage_eq (n : Fd) :
    joinMessage n = username n ++ byte ' ' :: ascii "has connected" := rfl
theorem quitMessage_eq (n : Fd) :
    quitMessage n = username n ++ byte ' ' :: ascii "has disconnected" := rfl
theorem formattedMessage_eq (n : Fd) (m : Bytes) :
    formattedMessage n m = username n ++ byte ':' :: (byte ' ' :: m) := by
  simp only [formattedMessage,List.append_assoc]
  rfl

theorem joinMessage_injective : Function.Injective joinMessage := fun n m h =>
  (username_append_inj (by decide) (by decide) (joinMessage_eq n ▸ joinMessage_eq m ▸ h)).1
theorem quitMessage_injective : Function.Injective quitMessage := fun n m h =>
  (username_append_inj (by decide) (by decide) (quitMessage_eq n ▸ quitMessage_eq m ▸ h)).1

theorem formattedMessage_inj {n m : Fd} {a b : Bytes}
    (h : formattedMessage n a = formattedMessage m b) : n = m ∧ a = b := by
  rw [formattedMessage_eq,formattedMessage_eq] at h
  obtain ⟨hn,_,ht⟩ := username_append_inj (by decide) (by decide) h
  exact ⟨hn,(List.cons.inj ht).2⟩

theorem joinMessage_ne_quitMessage (n m : Fd) : joinMessage n ≠ quitMessage m := by
  intro h
  rw [joinMessage_eq,quitMessage_eq] at h
  exact absurd (username_append_inj (by decide) (by decide) h).2.2 (by decide)

theorem joinMessage_ne_formattedMessage (n m : Fd) (a : Bytes) :
    joinMessage n ≠ formattedMessage m a := by
  intro h
  rw [joinMessage_eq,formattedMessage_eq] at h
  exact absurd (username_append_inj (by decide) (by decide) h).2.1 (by decide)

theorem quitMessage_ne_formattedMessage (n m : Fd) (a : Bytes) :
    quitMessage n ≠ formattedMessage m a := by
  intro h
  rw [quitMessage_eq,formattedMessage_eq] at h
  exact absurd (username_append_inj (by decide) (by decide) h).2.1 (by decide)

theorem username_nulFree (n : Fd) : NulFree (username n) :=
  NulFree.append (by decide +kernel) (decimal_nulFree n)
theorem joinMessage_nulFree (n : Fd) : NulFree (joinMessage n) :=
  (username_nulFree n).append (by decide +kernel)
theorem quitMessage_nulFree (n : Fd) : NulFree (quitMessage n) :=
  (username_nulFree n).append (by decide +kernel)
theorem formattedMessage_nulFree (n : Fd) {m : Bytes} (h : NulFree m) :
    NulFree (formattedMessage n m) :=
  ((username_nulFree n).append (by decide +kernel)).append h

/-! ### What `socketThread` makes of a chunk -/

/-- The branch `socketThread` takes for what `read` stored in `message`. -/
inductive Received where
  | ping
  | unknown (text : Bytes)
  | chat (text : Bytes)
  deriving DecidableEq

/-- `message[sizeRead] = 0`, then the test of `message[0]` and the comparison
with the request handle. -/
def receive (chunk : Bytes) : Received :=
  let message := chunk ++ [nul]
  if message.head? = some slash then
    if cText message = requestPing then .ping else .unknown (cText message)
  else .chat (cText message)

theorem receive_ping_iff (chunk : Bytes) : receive chunk = .ping ↔ cText chunk = requestPing := by
  simp only [receive,cText_terminated]
  split_ifs with h1 h2
  · simp [h2]
  · simp [h2]
  · simp only [false_iff]
    intro h
    apply h1
    apply head_of_cText
    rw [cText_terminated,h]
    rfl

/-! ### Payloads of `distributeData` -/

/-- Initial contents of the arrays that are sent with their full size. -/
structure Stack where
  quitMessage : Buffer (maxUsername + 17)
  joinMessage : Buffer (maxUsername + 14)

/-- The three calls of `distributeData` in `socketThread`. -/
inductive Payload where
  | join
  | quit
  | chat (message : Bytes)
  deriving DecidableEq

namespace Payload

/-- The string `sprintf` formats for a call. -/
def text (socket : Fd) : Payload → Bytes
  | .join => ChatServer.joinMessage socket
  | .quit => ChatServer.quitMessage socket
  | .chat message => formattedMessage socket message

/-- The bytes handed over: the join and quit arrays go with `sizeof`, and so
with the old stack contents behind their text, a chat text with `strlen`. -/
def data (stack : Stack) (socket : Fd) : Payload → Bytes
  | .join => (stack.joinMessage.sprintf (ChatServer.joinMessage socket)).val
  | .quit => (stack.quitMessage.sprintf (ChatServer.quitMessage socket)).val
  | .chat message => formattedMessage socket message

/- Every payload starts with the `C` of the name. -/
theorem cText_data_head (stack : Stack) (socket : Fd) (p : Payload) :
    ∃ r, cText (p.data stack socket) = byte 'C' :: r := by
  cases p with
  | join => exact stack.joinMessage.cText_sprintf_head _ (by decide)
  | quit => exact stack.quitMessage.cText_sprintf_head _ (by decide)
  | chat m => exact ⟨_,cText_head _ _ (by decide)⟩

/- What a string function sees of the bytes is the text, as long as the number is
short enough for the text to fit its array. -/
theorem cText_data (stack : Stack) {socket : Fd} (hs : socket < 10^8) (p : Payload)
    (hp : ∀ m, p = .chat m → NulFree m) : cText (p.data stack socket) = p.text socket := by
  have hlen : (decimal socket).length ≤ 8 := (decimal_length_le (by decide)).mpr hs
  have hjoin : (joinMessage socket).length = (decimal socket).length + 21 := by
    simp only [joinMessage,username,List.length_append]
    have h1 : (ascii "Client-").length = 7 := by decide
    have h2 : (ascii " has connected").length = 14 := by decide
    omega
  have hquit : (quitMessage socket).length = (decimal socket).length + 24 := by
    simp only [quitMessage,username,List.length_append]
    have h1 : (ascii "Client-").length = 7 := by decide
    have h2 : (ascii " has disconnected").length = 17 := by decide
    omega
  cases p with
  | join =>
    apply stack.joinMessage.cText_sprintf (joinMessage_nulFree socket)
    simp only [maxUsername]
    omega
  | quit =>
    apply stack.quitMessage.cText_sprintf (quitMessage_nulFree socket)
    simp only [maxUsername]
    omega
  | chat m => exact cText_of_nulFree (formattedMessage_nulFree socket (hp m rfl))

end Payload

end TcpProjects.ChatServer
