import TcpProjects.ChatClient.CommandHandler
import TcpProjects.ChatClient.Input
import TcpProjects.ChatSystem.Screens

/-! # From the keyboard to the screens

The commands of the chat client and what they send, put between the input thread and
the connection. Of the lines that a user types, each read by itself, the ones that are
no commands come to the screens of the others, and each `/ping` is answered once. -/

namespace TcpProjects.ChatSystem
open Transition ChatServer ChatClient

/- `CommandHelp`, `CommandQuit` and `CommandPing`. -/
inductive ClientCommand where
  | help
  | quit
  | ping
  deriving DecidableEq

def ClientCommand.getLabel : ClientCommand → Bytes
  | .help => ascii "help"
  | .quit => ascii "quit"
  | .ping => ascii "ping"

/- What `execute` sends; `getPing` sends the request and does not wait for the reply. -/
def ClientCommand.execute : ClientCommand → List Bytes
  | .help => []
  | .quit => []
  | .ping => [requestPing]

/-- The messages that go to the server in a round of the input thread: `sendData` of an
empty text sends no byte. -/
def messages (handler : CommandHandler ClientCommand) : Passed → List Bytes
  | .sendData payload => if payload = [] then [] else [payload]
  | .handleCommand context =>
    ((handler.handleCommand ClientCommand.getLabel context).filterMap Effect.executed).flatMap
      fun e => e.1.execute

/- The label that `handleCommand` looks up. -/
def commandLabel (context : Bytes) : Bytes := context.takeWhile (· ≠ space)

/- A line that asks for a ping. -/
def isPingLine (line : Bytes) : Bool :=
  line.head? = some slash && commandLabel line.tail = ascii "ping"

/- A line that is a chat message. -/
def isChatLine (line : Bytes) : Bool := line ≠ [] && line.head? ≠ some slash

/- With the ping command registered, whatever the others are and in whatever order. -/
theorem messages_command {handler : CommandHandler ClientCommand}
    (hping : ClientCommand.ping ∈ handler.commands) (context : Bytes) :
    messages handler (.handleCommand context) =
      if commandLabel context = ascii "ping" then [requestPing] else [] := by
  have hlabel : context.takeWhile (· ≠ space) = commandLabel context := rfl
  simp only [messages,CommandHandler.handleCommand,substr_findFirstOf,executed_handleFrom,hlabel]
  generalize commandLabel context = label
  cases hf : handler.commands.find? fun c => decide (c.getLabel = label) with
  | none =>
    have hno : ClientCommand.ping.getLabel ≠ label := by
      simpa using List.find?_eq_none.mp hf _ hping
    exact (if_neg fun he => hno he.symm).symm
  | some c =>
    have hc : c.getLabel = label := by simpa using List.find?_some hf
    rw [← hc]
    cases c with
    | help | quit =>
      rw [if_neg (by decide)]
      rfl
    | ping =>
      rw [if_pos (by rfl)]
      rfl

theorem messages_line {handler : CommandHandler ClientCommand}
    (hping : ClientCommand.ping ∈ handler.commands) (line : Bytes) :
    messages handler (lineRound line) =
      if isPingLine line then [requestPing] else if isChatLine line then [line] else [] := by
  by_cases hslash : line.head? = some slash
  · rw [lineRound,if_pos hslash,messages_command hping]
    by_cases hp : commandLabel line.tail = ascii "ping"
    · simp [isPingLine,hslash,hp]
    · simp [isPingLine,isChatLine,hslash,hp]
  · rw [lineRound,if_neg hslash]
    by_cases hnil : line = []
    · simp [messages,isPingLine,isChatLine,hnil]
    · simp [messages,isPingLine,isChatLine,hslash,hnil]

theorem chatText_line {line : Bytes} (hfree : NulFree line) (hslash : line.head? ≠ some slash) :
    chatText line = some line := by
  have htext : cText (line ++ [nul]) = line := by rw [cText_terminated,cText_of_nulFree hfree]
  have hhead : (line ++ [nul]).head? ≠ some slash := by
    cases line with
    | nil => decide
    | cons c line => exact hslash
  simp only [chatText,receive,if_neg hhead,htext]

theorem isPing_line {line : Bytes} (hfree : NulFree line) (hslash : line.head? ≠ some slash) :
    isPing line = false := by
  rw [isPing,decide_eq_false_iff_not,cText_of_nulFree hfree]
  intro he
  rw [he] at hslash
  exact hslash (by decide)

section Lines
variable {handler : CommandHandler ClientCommand} (hping : ClientCommand.ping ∈ handler.commands)
  {typed : List Bytes} (hfree : ∀ l ∈ typed, NulFree l)
include hping hfree

theorem chats_typed : ((typed.map lineRound).flatMap (messages handler)).filterMap chatText =
    typed.filter isChatLine := by
  induction typed with
  | nil => rfl
  | cons l typed ih =>
    have hrest := ih fun k hk => hfree k (List.mem_cons_of_mem l hk)
    have hrequest : chatText requestPing = none := by decide
    rw [List.map_cons,List.flatMap_cons,List.filterMap_append,hrest,messages_line hping]
    by_cases hp : isPingLine l = true
    · have hno : isChatLine l = false := by
        simp only [isPingLine,Bool.and_eq_true,decide_eq_true_eq] at hp
        simp [isChatLine,hp.1]
      simp [hp,hno,hrequest]
    · by_cases hc : isChatLine l = true
      · have hslash : l.head? ≠ some slash := by
          simp only [isChatLine,Bool.and_eq_true,decide_eq_true_eq] at hc
          exact hc.2
        simp [hp,hc,chatText_line (hfree l (List.mem_cons_self ..)) hslash]
      · simp [hp,hc]

theorem pings_typed : ((typed.map lineRound).flatMap (messages handler)).countP isPing =
    typed.countP isPingLine := by
  induction typed with
  | nil => rfl
  | cons l typed ih =>
    have hrest := ih fun k hk => hfree k (List.mem_cons_of_mem l hk)
    have hrequest : isPing requestPing = true := by decide
    rw [List.map_cons,List.flatMap_cons,List.countP_append,hrest,messages_line hping,
      List.countP_cons]
    by_cases hp : isPingLine l = true
    · simp [hp,hrequest,Nat.add_comm]
    · by_cases hc : isChatLine l = true
      · have hslash : l.head? ≠ some slash := by
          simp only [isChatLine,Bool.and_eq_true,decide_eq_true_eq] at hc
          exact hc.2
        simp [hp,hc,isPing_line (hfree l (List.mem_cons_self ..)) hslash]
      · simp [hp,hc]

end Lines

theorem sent_since {s s' : System} {tr : List (System × Event)} (r : Run chat s tr s') (c : ℕ) :
    s'.sent c = s.sent c ++ tr.filterMap (sentBy c) := by
  induction r with
  | start => simp
  | @next tr u e u' r h ih =>
    rw [filterMap_snoc,← List.append_assoc,← ih]
    cases e with
    | server a =>
      rw [(chat_server h).2.1]
      simp [sentBy]
    | send d message =>
      simp only [chat] at h
      split_ifs at h
      cases h
      by_cases hd : d = c
      · subst hd
        simp [sentBy,Queues.push]
      · simp [sentBy,Queues.push,hd,Ne.symm hd]
    | receive d =>
      simp only [chat] at h
      split at h <;> cases h
      simp [sentBy]

/-- What a user types in a smooth run, each line read by itself and the ping command being
registered, until everything has settled: the lines that are no commands are displayed,
with the user's name and in their order, by every client that is connected meanwhile; and
each `/ping` makes one ping event, beside those for the requests that were on their way
before. -/
theorem typed_lines_reach_screens {m : Fd} {addr : SockaddrIn} {tr tr' : List (System × Event)}
    {s s' : System} (r : Run chat (System.start m addr) tr s) (r' : Run chat s tr' s')
    (hsmooth : ∀ x ∈ tr ++ tr', Smooth x) {c : ℕ} (hc : Settled s' c) {t : SocketThread}
    (ht : s'.server.thread c = some t) {handler : CommandHandler ClientCommand}
    (hping : ClientCommand.ping ∈ handler.commands) {typed : List Bytes}
    (htyped : ∀ l ∈ typed, NulFree l ∧ newline ∉ l ∧ l.length < maxMessage)
    (message : Buffer maxMessage)
    (hsends : tr'.filterMap (sentBy c) = (getInputThread message (whileUp (typed.map
      fun l => l ++ [newline]))).flatMap (messages handler)) :
    (∀ d fd, s.server.Listens d fd → s'.server.Listens d fd → Settled s' d →
      ((typed.filter isChatLine).map (formattedMessage t.socket)).Sublist
        (tr'.filterMap (displayed d))) ∧
    s'.events c = s.events c + (s.up c).countP isPing + answering s.server c +
      (s.down c).countP isEvent + typed.countP isPingLine := by
  have hfree : ∀ l ∈ typed, NulFree l := fun l hl => (htyped l hl).1
  rw [getInputThread_lines message htyped] at hsends
  refine ⟨fun d fd hl hl' hd => ?_,?_⟩
  · have hscreen := chat_screen r r' hsmooth hc hd hl hl' ht
    rwa [hsends,chats_typed hping hfree] at hscreen
  · have hbefore := run_balanced r c
    have hafter := run_balanced (r.append r') c
    have hidle : answering s'.server c = 0 := by
      rcases hc.server.threads c t ht with hpc | hpc <;> simp [answering,ht,hpc]
    rw [sent_since r' c,List.countP_append,hsends,pings_typed hping hfree,hc.up,
      hc.down,hidle,List.countP_nil,List.countP_nil] at hafter
    omega

/- The commands in the order in which a client may register them. -/
def clientCommands : CommandHandler ClientCommand := ⟨[.ping,.help,.quit]⟩

theorem typed_lines_reach_screens_two :
    let s := (runOf chat (System.start 3 ⟨0,0⟩) bothJoined).2
    let r' := runOf chat s saysAndAsks
    [formattedMessage 4 (ascii "hi")].Sublist (r'.1.filterMap (displayed 1)) ∧
      r'.2.events 0 = 1 := by
  have hrun := runOf_run chat (System.start 3 ⟨0,0⟩) bothJoined (by decide +kernel)
  have hrun' := runOf_run chat (runOf chat (System.start 3 ⟨0,0⟩) bothJoined).2 saysAndAsks
    (by decide +kernel)
  have hacc : (runOf chat (System.start 3 ⟨0,0⟩) bothJoined).2.server.acceptor = .accept := by
    decide +kernel
  have hacc' : (runOf chat (runOf chat (System.start 3 ⟨0,0⟩) bothJoined).2
      saysAndAsks).2.server.acceptor = .accept := by decide +kernel
  have hrest := atRest_of_started (run_server (hrun.append hrun')) hacc' (by decide +kernel)
    (by decide +kernel) (by decide +kernel)
  have hthread : ((runOf chat (runOf chat (System.start 3 ⟨0,0⟩) bothJoined).2
      saysAndAsks).2.server.thread 0).any (fun t => t.socket = 4) = true := by decide +kernel
  obtain ⟨t,ht,hsock⟩ := (Option.any_eq_true _ _).mp hthread
  rw [decide_eq_true_eq] at hsock
  have hcommands : ClientCommand.ping ∈ clientCommands.commands := List.mem_cons_self ..
  have htyped : ∀ l ∈ [ascii "hi",ascii "/ping now",[]],
      NulFree l ∧ newline ∉ l ∧ l.length < maxMessage := by decide +kernel
  obtain ⟨hscreen,hevents⟩ := typed_lines_reach_screens hrun hrun'
    (smooth_of_started (hrun.append hrun') (by decide +kernel)) (c := 0)
    ⟨hrest,by decide +kernel,by decide +kernel⟩ ht hcommands htyped (.zero _) (by decide +kernel)
  have hdisplayed := hscreen 1 5 (listens_accept hacc (by decide +kernel))
    (listens_accept hacc' (by decide +kernel)) ⟨hrest,by decide +kernel,by decide +kernel⟩
  rw [hsock] at hdisplayed
  have hchat : ([ascii "hi",ascii "/ping now",[]].filter isChatLine).map (formattedMessage 4) =
      [formattedMessage 4 (ascii "hi")] := by decide +kernel
  rw [hchat] at hdisplayed
  exact ⟨hdisplayed,hevents.trans (by decide +kernel)⟩

end TcpProjects.ChatSystem
