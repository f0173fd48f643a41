import TcpProjects.Base.Chunks
import TcpProjects.Base.Lines
import TcpProjects.ChatServer.Message

/-! # What the client makes of its standard input

`getInputThread` reads into one array, round after round, and takes for the line that
was typed what stands before the first newline or terminator in it. It does not look at
the count that `read` returns. If every `read` returns one line, the lines are passed on
up to the end of the input; but each round passes something on, so that the rounds at
the end of the input, and lines that come together, make it wrong. -/

namespace TcpProjects.ChatClient
open ChatServer Lines

def newline : Byte := byte '\n'

/- What a round passes on: to `sendData`, or to `handleCommand`. -/
inductive Passed where
  | sendData (payload : Bytes)
  | handleCommand (context : Bytes)
  deriving DecidableEq

def Passed.payload : Passed → Option Bytes
  | .sendData payload => some payload
  | .handleCommand _ => none

def Passed.context : Passed → Option Bytes
  | .sendData _ => none
  | .handleCommand context => some context

/- `strcspn` for one character: the bytes before it or the terminator. -/
def strcspn (b : Bytes) (c : Byte) : ℕ := ((cText b).takeWhile (· ≠ c)).length

/- `memmove(message, message+1, strlen(message))`. -/
def cutSlash (message : Buffer maxMessage) : Buffer maxMessage :=
  message.write ⟨0,(message.val.tail ++ [nul]).take (cText message.val).length⟩

/- `read` and the cut at the newline; -1 (`none`) and 0 store nothing. -/
def readLine (message : Buffer maxMessage) (r : Option Bytes) : Buffer maxMessage :=
  let message := r.elim message message.store
  message.set (strcspn message.val newline) nul

def passOn (message : Buffer maxMessage) : Buffer maxMessage × Passed :=
  if message.val.head? = some slash then
    (cutSlash message,.handleCommand (cText (cutSlash message).val))
  else (message,.sendData (cText message.val))

/- A round of the loop, for what `read` returns. -/
def inputRound (message : Buffer maxMessage) (r : Option Bytes) : Buffer maxMessage × Passed :=
  passOn (readLine message r)

/- What the system answers in a round: the result of `read`, and whether `sendData`
returns. -/
structure Round where
  read : Option Bytes
  sent : Bool

/- The rounds that are begun while `isRunning` holds; an exception ends the loop. -/
def getInputThread (message : Buffer maxMessage) : List Round → List Passed
  | [] => []
  | r :: rounds =>
    let next := inputRound message r.read
    next.2 :: if next.2.payload.isSome = true ∧ r.sent = false then []
      else getInputThread next.1 rounds

/- The server is up: every `sendData` returns. -/
def whileUp (reads : List Bytes) : List Round := reads.map fun chunk => ⟨some chunk,true⟩

structure Exactly (typed : List Bytes) (passed : List Passed) : Prop where
  sent : passed.filterMap Passed.payload = typed.filter fun l => l.head? ≠ some slash
  commands : passed.filterMap Passed.context =
    (typed.filter fun l => l.head? = some slash).map List.tail

/-- The thread with `message` on its stack, for a standard input that comes in the given
chunks and then is at its end: whenever it is looked at after its `k`-th `read` at the
end, it has passed on what was typed, and it has sent nothing since the end. -/
structure SendsTyped (message : Buffer maxMessage) (typed chunks : List Bytes) : Prop where
  exactly : ∀ k, Exactly typed (getInputThread message (whileUp (chunks ++ List.replicate k [])))
  quiet : ∀ k, ∀ p ∈ (getInputThread message (whileUp (chunks ++ List.replicate k []))).drop
    chunks.length, p.payload = none

/-! ### One thing a round -/

theorem getInputThread_length (message : Buffer maxMessage) (reads : List Bytes) :
    (getInputThread message (whileUp reads)).length = reads.length := by
  induction reads generalizing message with
  | nil => rfl
  | cons chunk reads ih =>
    have hrest := ih (inputRound message (some chunk)).1
    simp only [whileUp] at hrest
    simp [whileUp,getInputThread,hrest]

theorem passed_length (passed : List Passed) : passed.length =
    (passed.filterMap Passed.payload).length + (passed.filterMap Passed.context).length := by
  induction passed with
  | nil => rfl
  | cons p passed ih =>
    cases p with
    | sendData payload =>
      simp only [List.filterMap_cons,Passed.payload,Passed.context,List.length_cons]
      omega
    | handleCommand context =>
      simp only [List.filterMap_cons,Passed.payload,Passed.context,List.length_cons]
      omega

theorem Exactly.length {typed : List Bytes} {passed : List Passed} (h : Exactly typed passed) :
    passed.length = typed.length := by
  have hsplit := List.length_eq_length_filter_add (l := typed) fun l => decide (l.head? = some slash)
  have hnot : (typed.filter fun l => !decide (l.head? = some slash)) =
      typed.filter fun l => decide (l.head? ≠ some slash) := by simp
  rw [hnot] at hsplit
  rw [passed_length,h.sent,h.commands,List.length_map]
  omega

/-! ### A line a read -/

/- The cut of a line is where its newline stands. -/
theorem strcspn_line {line : Bytes} (hfree : NulFree line) (hnl : newline ∉ line) (rest : Bytes) :
    strcspn (line ++ newline :: rest) newline = line.length := by
  have htext : cText (line ++ newline :: rest) = line ++ newline :: cText rest := by
    rw [cText,List.takeWhile_append_of_pos (by simpa [NulFree] using hfree)]
    exact congrArg _ (cText_head newline _ (by decide))
  have hno : ∀ c ∈ line, decide (c ≠ newline) = true := fun c hc => by
    simpa using fun he : c = newline => hnl (he ▸ hc)
  rw [strcspn,htext,List.takeWhile_append_of_pos hno]
  simp

/- The array after a whole line was read and its newline cut off. -/
theorem readLine_line (message : Buffer maxMessage) {line : Bytes} (hfree : NulFree line)
    (hnl : newline ∉ line) (hfit : line.length < maxMessage) :
    (readLine message (some (line ++ [newline]))).val =
      line ++ nul :: message.val.drop (line.length+1) := by
  have hstored : (message.store (line ++ [newline])).val =
      line ++ newline :: message.val.drop (line.length+1) := by
    rw [message.store_val (by rw [List.length_append,List.length_singleton]; omega),
      List.length_append,List.length_singleton,List.append_assoc,List.singleton_append]
  simp only [readLine,Option.elim_some]
  rw [Buffer.set_val,hstored,strcspn_line hfree hnl,List.set_append_right _ _ (Nat.le_refl _),Nat.sub_self]
  rfl

def lineRound (line : Bytes) : Passed :=
  if line.head? = some slash then .handleCommand line.tail else .sendData line

/- A slash is moved out of the array. -/
theorem cutSlash_text {message : Buffer maxMessage} {line rest : Bytes} (hfree : NulFree line)
    (h : message.val = slash :: line ++ nul :: rest) : cText (cutSlash message).val = line := by
  have htext : cText message.val = slash :: line := by
    rw [h]
    exact cText_append_nul (fun c hc => by
      rcases List.mem_cons.mp hc with rfl | hc
      · decide
      · exact hfree c hc) rest
  have hmoved : (message.val.tail ++ [nul]).take (cText message.val).length = line ++ [nul] := by
    rw [htext,h,List.cons_append,List.tail_cons,List.length_cons,List.append_cons line nul rest,
      List.append_assoc]
    exact List.take_left' (by simp)
  have hsize : line.length+2 ≤ maxMessage := by
    have hb := message.property
    rw [h] at hb
    simp only [List.cons_append,List.length_cons,List.length_append] at hb
    omega
  rw [cutSlash,hmoved,Buffer.write_val]
  simp only [List.take_zero,List.nil_append,List.append_assoc,List.singleton_append]
  rw [List.take_append,List.take_of_length_le (by omega)]
  obtain ⟨n,hn⟩ : ∃ n, maxMessage-line.length = n+1 := ⟨maxMessage-line.length-1,by omega⟩
  rw [hn,List.take_succ_cons]
  exact cText_append_nul hfree _

theorem passOn_line {message : Buffer maxMessage} {line rest : Bytes} (hfree : NulFree line)
    (h : message.val = line ++ nul :: rest) : (passOn message).2 = lineRound line := by
  rw [passOn,lineRound]
  cases line with
  | nil =>
    have hnul : message.val.head? ≠ some slash := by
      rw [h,List.nil_append,List.head?_cons]
      decide
    rw [if_neg hnul,if_neg (by decide),h]
    rfl
  | cons c line =>
    rw [h,List.cons_append,List.head?_cons,List.head?_cons]
    split_ifs with hslash
    · obtain rfl := Option.some.inj hslash
      rw [cutSlash_text (fun d hd => hfree d (List.mem_cons_of_mem _ hd)) h,List.tail_cons]
    · exact congrArg _ (cText_append_nul hfree _)

theorem inputRound_line (message : Buffer maxMessage) {line : Bytes} (hfree : NulFree line)
    (hnl : newline ∉ line) (hfit : line.length < maxMessage) :
    (inputRound message (some (line ++ [newline]))).2 = lineRound line :=
  passOn_line hfree (readLine_line message hfree hnl hfit)

theorem getInputThread_lines (message : Buffer maxMessage) {typed : List Bytes}
    (htyped : ∀ l ∈ typed, NulFree l ∧ newline ∉ l ∧ l.length < maxMessage) :
    getInputThread message (whileUp (typed.map fun l => l ++ [newline])) = typed.map lineRound := by
  induction typed generalizing message with
  | nil => rfl
  | cons l typed ih =>
    obtain ⟨hfree,hnl,hfit⟩ := htyped l (List.mem_cons_self ..)
    have hrest := ih (inputRound message (some (l ++ [newline]))).1
      fun m hm => htyped m (List.mem_cons_of_mem l hm)
    rw [whileUp] at hrest
    rw [whileUp,List.map_cons,List.map_cons,getInputThread,inputRound_line message hfree hnl hfit,hrest]
    simp

theorem exactly_lines (typed : List Bytes) : Exactly typed (typed.map lineRound) := by
  induction typed with
  | nil => exact ⟨rfl,rfl⟩
  | cons l typed ih =>
    have hround (h : l.head? = some slash) : lineRound l = .handleCommand l.tail := if_pos h
    have hround' (h : l.head? ≠ some slash) : lineRound l = .sendData l := if_neg h
    by_cases h : l.head? = some slash
    · constructor
      · rw [List.map_cons,hround h,List.filter_cons_of_neg (by simpa using h)]
        exact ih.sent
      · rw [List.map_cons,hround h,List.filter_cons_of_pos (by simpa using h)]
        exact congrArg (l.tail :: ·) ih.commands
    · constructor
      · rw [List.map_cons,hround' h,List.filter_cons_of_pos (by simpa using h)]
        exact congrArg (l :: ·) ih.sent
      · rw [List.map_cons,hround' h,List.filter_cons_of_neg (by simpa using h)]
        exact ih.commands

/-! ### The end of the input -/

/-- Whatever was typed and however it comes, the thread does not pass on just that: it
can be right only while it has made as many rounds as there are lines, as it is before
the end of the input if every `read` returns a line. -/
theorem input_never_exact (message : Buffer maxMessage) {typed : List Bytes}
    (htyped : ∀ l ∈ typed, NulFree l ∧ newline ∉ l ∧ l.length < maxMessage) (chunks : List Bytes) :
    ¬ SendsTyped message typed chunks ∧
    (∀ k, Exactly typed (getInputThread message (whileUp (chunks ++ List.replicate k []))) →
      chunks.length+k = typed.length) ∧
    (chunks = typed.map (fun l => l ++ [newline]) →
      Exactly typed (getInputThread message (whileUp chunks))) := by
  have hcount (k : ℕ)
      (h : Exactly typed (getInputThread message (whileUp (chunks ++ List.replicate k [])))) :
      chunks.length+k = typed.length := by
    have hlength := h.length
    rwa [getInputThread_length,List.length_append,List.length_replicate] at hlength
  refine ⟨fun h => ?_,hcount,fun hchunks => ?_⟩
  · have := hcount (typed.length+1) (h.exactly _)
    omega
  · rw [hchunks,getInputThread_lines message htyped]
    exact exactly_lines typed

/- A line and a command, each read by itself. -/
theorem input_never_exact_lines :
    Exactly [ascii "hi",ascii "/help"]
      (getInputThread (.zero _) (whileUp [ascii "hi\n",ascii "/help\n"])) :=
  (input_never_exact (.zero _) (by decide +kernel) _).2.2 (by decide +kernel)

/- Two lines that come in one `read`: the second is lost, and the first is sent again at
the end of the input. -/
theorem input_lines_together :
    unlines newline [ascii "a",ascii "b"] = ascii "a\nb\n" ∧
    getInputThread (.zero _) (whileUp [ascii "a\nb\n",[]]) = [.sendData (ascii "a"),.sendData (ascii "a")] ∧
    ¬ SendsTyped (.zero _) [ascii "a",ascii "b"] [ascii "a\nb\n"] := by
  have htwice : getInputThread (.zero _) (whileUp [ascii "a\nb\n",[]]) =
      [.sendData (ascii "a"),.sendData (ascii "a")] := by decide +kernel
  refine ⟨by decide +kernel,htwice,fun h => ?_⟩
  have hsent := (h.exactly 1).sent
  have hreads : [ascii "a\nb\n"] ++ List.replicate 1 [] = [ascii "a\nb\n",[]] := rfl
  rw [hreads,htwice] at hsent
  revert hsent
  decide +kernel

end TcpProjects.ChatClient
