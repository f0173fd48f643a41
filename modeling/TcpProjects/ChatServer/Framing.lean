import TcpProjects.Base.Chunks
import TcpProjects.ChatServer.Reactions

/-! # From messages to chunks, towards the server

A client writes bare strings, and `socketThread` treats what one `read` returns
as one message. Its reactions are therefore those to the chunks; they are those
to the messages sent exactly if every `read` returned one message. -/

namespace TcpProjects.ChatServer
open Transition

/- What the sender of a message expects of the server. -/
def expected (socket : Fd) (message : Bytes) : Reaction :=
  if message = requestPing then .reply eventPing
  else if message.head? = some slash then .unknownRequest message
  else .broadcast (formattedMessage socket message)

/- What leaves the server: a payload for all, or a reply. -/
def Reaction.output : Reaction → Option Bytes
  | .broadcast payload => some payload
  | .reply message => some message
  | .unknownRequest _ => none

theorem react_of_nulFree (socket : Fd) {message : Bytes} (hne : message ≠ [])
    (hm : NulFree message) : react socket message = expected socket message := by
  have hhead : (message ++ [nul]).head? = message.head? := by
    cases message with
    | nil => exact absurd rfl hne
    | cons c r => rfl
  have htext : cText (message ++ [nul]) = message := by
    rw [cText_terminated,cText_of_nulFree hm]
  have hping : requestPing.head? = some slash := by decide
  simp only [react,receive,hhead,htext,expected]
  by_cases hr : message = requestPing
  · simp [hr,hping]
  · by_cases hs : message.head? = some slash
    · simp [hr,hs]
    · simp [hr,hs]

theorem expected_injective {socket : Fd} {a b : Bytes} (h : expected socket a = expected socket b) :
    a = b := by
  simp only [expected] at h
  split_ifs at h with h1 h2 h3 h4 h5 h6
  · rw [h1,h2]
  · exact Reaction.unknownRequest.inj h
  · exact (formattedMessage_inj (Reaction.broadcast.inj h)).2

/-- The reactions of a thread to a stream of messages, none of which and no chunk of which
fills the array: those to the chunks it was read in, and those to the messages exactly if
the chunks are the messages. -/
theorem reactions_to_chunks {m : Fd} {addr : SockaddrIn} {tr : List (State × Action)} {s : State}
    (r : Run step (initial m addr) tr s) {k : ℕ} {t : SocketThread} (ht : s.thread k = some t)
    (hidle : t.pending = []) {messages : List Bytes}
    (hmsg : ∀ a ∈ messages, a ≠ [] ∧ a.length < maxMessage ∧ NulFree a)
    (_hsize : ∀ c ∈ tr.filterMap (chunkRead k), c.length < maxMessage)
    (hcut : Chunking (tr.filterMap (chunkRead k)) messages.flatten) :
    tr.filterMap (reaction k) = (tr.filterMap (chunkRead k)).map (expected t.socket) ∧
    (tr.filterMap (reaction k) = messages.map (expected t.socket) ↔
      tr.filterMap (chunkRead k) = messages) := by
  have hnul : ∀ x ∈ messages.flatten, x ≠ 0 := by
    intro x hx
    obtain ⟨a,ha,hxa⟩ := List.mem_flatten.mp hx
    exact (hmsg a ha).2.2 x hxa
  have hreact := (reactions_run r k).1 t ht
  rw [hidle,List.append_nil] at hreact
  have hchunks : tr.filterMap (reaction k) = (tr.filterMap (chunkRead k)).map (expected t.socket) := by
    rw [hreact]
    apply List.map_congr_left
    intro c hc
    obtain ⟨hne,hfree⟩ := hcut.forall_mem hnul c hc
    exact react_of_nulFree t.socket hne hfree
  refine ⟨hchunks,?_⟩
  rw [hchunks]
  exact hcut.map_eq_iff (fun a b _ _ h => expected_injective h) hnul
    ⟨fun a ha => (hmsg a ha).1,rfl⟩

/- One client sends a text, a ping request and an unknown request, each read whole. -/
def wholeReads : List Action :=
  acceptOn 4 ++
  clientSteps 0 (joinTo 1) ++
  clientSteps 0 (.read (some (ascii "hi")) :: distributeTo 1 12) ++
  clientSteps 0 [.read (some requestPing),.sent (some 11)] ++
  clientSteps 0 [.read (some (ascii "/x"))]

theorem reactions_to_whole_reads :
    (runOf step (initial 3 ⟨0,0⟩) wholeReads).1.filterMap (reaction 0) =
      [.broadcast (formattedMessage 4 (ascii "hi")),.reply eventPing,.unknownRequest (ascii "/x")] := by
  have hrun := runOf_run step (initial 3 ⟨0,0⟩) wholeReads (by decide +kernel)
  have hthread : ((runOf step (initial 3 ⟨0,0⟩) wholeReads).2.thread 0).any (fun t =>
      t.socket = 4 && t.pending = []) = true := by decide +kernel
  have hread : (runOf step (initial 3 ⟨0,0⟩) wholeReads).1.filterMap (chunkRead 0) =
      [ascii "hi",requestPing,ascii "/x"] := by decide +kernel
  obtain ⟨t,ht,htt⟩ := (Option.any_eq_true _ _).mp hthread
  simp only [Bool.and_eq_true,decide_eq_true_eq] at htt
  have hall := (reactions_to_chunks hrun ht htt.2 (by decide +kernel) (by rw [hread]; decide)
    ⟨by rw [hread]; decide,by rw [hread]⟩).2.mpr hread
  rw [hall,htt.1]
  decide +kernel

/- The client's two messages `a` and `b` are returned by one `read`. -/
def mergedRead : List Action :=
  acceptOn 4 ++
  clientSteps 0 (joinTo 1) ++
  clientSteps 0 (.read (some (ascii "ab")) :: distributeTo 1 12)

/- The reactions do depend on how the stream is cut: `a` and `b` read at once are
broadcast as the one message `ab`. -/
theorem reactions_not_to_messages :
    ¬ ∀ (m : Fd) (addr : SockaddrIn) (tr : List (State × Action)) (s : State) (k : ℕ)
      (t : SocketThread) (messages : List Bytes), Run step (initial m addr) tr s →
      s.thread k = some t → t.pending = [] →
      (∀ a ∈ messages, a ≠ [] ∧ a.length < maxMessage ∧ NulFree a) →
      (∀ c ∈ tr.filterMap (chunkRead k), c.length < maxMessage) →
      Chunking (tr.filterMap (chunkRead k)) messages.flatten →
      (tr.filterMap (reaction k)).filterMap Reaction.output =
        (messages.map (expected t.socket)).filterMap Reaction.output := by
  intro h
  have hrun := runOf_run step (initial 3 ⟨0,0⟩) mergedRead (by decide +kernel)
  have hthread : ((runOf step (initial 3 ⟨0,0⟩) mergedRead).2.thread 0).any (fun t =>
      t.socket = 4 && t.pending = []) = true := by decide +kernel
  have hread : (runOf step (initial 3 ⟨0,0⟩) mergedRead).1.filterMap (chunkRead 0) =
      [ascii "ab"] := by decide +kernel
  obtain ⟨t,ht,htt⟩ := (Option.any_eq_true _ _).mp hthread
  simp only [Bool.and_eq_true,decide_eq_true_eq] at htt
  have hreactions := h 3 ⟨0,0⟩ _ _ 0 t [ascii "a",ascii "b"] hrun ht htt.2 (by decide +kernel)
    (by rw [hread]; decide) ⟨by rw [hread]; decide,by rw [hread]; decide⟩
  rw [htt.1] at hreactions
  revert hreactions
  decide +kernel

end TcpProjects.ChatServer
