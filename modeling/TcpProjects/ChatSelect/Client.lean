import TcpProjects.ChatClient.Input

/-! # What a client sends

`main` of `client.cpp` sends its arrays whole: 32 bytes for the name, 2048 for each message.
Behind the line they hold what stood there before. -/

namespace TcpProjects.ChatSelect
open ChatClient (newline strcspn strcspn_line)

/- A line that is typed, without its newline. -/
structure TypedLine (k : ℕ) (line : Bytes) : Prop where
  nulFree : NulFree line
  oneLine : newline ∉ line
  length_le : line.length ≤ k

instance (k : ℕ) (line : Bytes) : Decidable (TypedLine k line) :=
  decidable_of_iff (NulFree line ∧ newline ∉ line ∧ line.length ≤ k)
    ⟨fun h => ⟨h.1,h.2.1,h.2.2⟩,fun h => ⟨h.nulFree,h.oneLine,h.length_le⟩⟩

/- `fgets` of a line that fits, and the cut of its newline. -/
def getLine {n : ℕ} (array : Buffer n) (line : Bytes) : Buffer n :=
  let array := array.sprintf (line ++ [newline])
  array.set (strcspn array.val newline) nul

/- The records that are sent for the messages, from the array as it was before. -/
def records (message : Buffer 2048) : List Bytes → List Bytes
  | [] => []
  | line :: lines => (getLine message line).val :: records (getLine message line) lines

/- What is typed, and what the two arrays of `main` hold before. -/
structure Client where
  username : Bytes
  messages : List Bytes
  usernameArray : Buffer 32
  messageArray : Buffer 2048
  username_typed : TypedLine 30 username
  messages_typed : ∀ m ∈ messages, m ≠ [] ∧ TypedLine 2046 m

def Client.stream (c : Client) : Bytes :=
  (getLine c.usernameArray c.username).val ++ (records c.messageArray c.messages).flatten

/-! ### The records in the stream -/

theorem getLine_val {n k : ℕ} (array : Buffer n) {line : Bytes} (h : TypedLine k line)
    (hfit : line.length+1 < n) : ∃ rest, (getLine array line).val = line ++ nul :: rest := by
  obtain ⟨m,hm⟩ : ∃ m, n-line.length = m+1+1 := ⟨n-line.length-2,by omega⟩
  have hstored : (array.sprintf (line ++ [newline])).val =
      line ++ newline :: (nul :: array.val.drop ((line ++ [newline]).length+1)).take (m+1) := by
    rw [array.sprintf_val,List.append_assoc,List.take_append,List.take_of_length_le (by omega),hm]
    rfl
  refine ⟨(nul :: array.val.drop ((line ++ [newline]).length+1)).take (m+1),?_⟩
  rw [getLine,Buffer.set_val,hstored,strcspn_line h.nulFree h.oneLine,
    List.set_append_right _ _ (Nat.le_refl _),Nat.sub_self]
  rfl

theorem records_length (message : Buffer 2048) (lines : List Bytes) :
    (records message lines).flatten.length = 2048*lines.length := by
  induction lines generalizing message with
  | nil => rfl
  | cons line lines ih =>
    have hrecord := (getLine message line).property
    rw [records,List.flatten_cons,List.length_append,ih,hrecord,List.length_cons]
    omega

theorem records_drop (message : Buffer 2048) {lines : List Bytes} {j : ℕ} {line : Bytes}
    (hlines : ∀ m ∈ lines, TypedLine 2046 m) (hj : lines[j]? = some line) :
    ∃ rest, (records message lines).flatten.drop (2048*j) = line ++ nul :: rest := by
  induction lines generalizing message j with
  | nil => cases hj
  | cons l lines ih =>
    have hrecord := (getLine message l).property
    cases j with
    | zero =>
      obtain rfl := Option.some.inj hj
      have htyped := hlines l List.mem_cons_self
      have hlength := htyped.length_le
      obtain ⟨rest,hval⟩ := getLine_val message htyped (by omega)
      refine ⟨rest ++ (records (getLine message l) lines).flatten,?_⟩
      rw [Nat.mul_zero,List.drop_zero,records,List.flatten_cons,hval,List.append_assoc,List.cons_append]
    | succ j =>
      have hskip : 2048*(j+1) = (getLine message l).val.length+2048*j := by omega
      rw [records,List.flatten_cons,hskip,List.drop_length_add_append]
      exact ih _ (fun m hm => hlines m (List.mem_cons_of_mem l hm)) hj

namespace Client
variable (c : Client)

theorem stream_length : c.stream.length = 32+2048*c.messages.length := by
  have hname := (getLine c.usernameArray c.username).property
  rw [stream,List.length_append,hname,records_length]

theorem stream_username : ∃ rest, c.stream = c.username ++ nul :: rest := by
  have hlength := c.username_typed.length_le
  obtain ⟨rest,hval⟩ := getLine_val c.usernameArray c.username_typed (by omega)
  refine ⟨rest ++ (records c.messageArray c.messages).flatten,?_⟩
  rw [stream,hval,List.append_assoc,List.cons_append]

theorem stream_message {j : ℕ} {m : Bytes} (hj : c.messages[j]? = some m) :
    ∃ rest, c.stream.drop (32+2048*j) = m ++ nul :: rest := by
  have hname := (getLine c.usernameArray c.username).property
  rw [stream,List.drop_append,hname,Nat.add_sub_cancel_left,List.drop_of_length_le (by omega)]
  exact records_drop _ (fun m hm => (c.messages_typed m hm).2) hj

end Client

/- A text is read if its terminator is. -/
theorem cText_read {line rest : Bytes} {n : ℕ} (hfree : NulFree line) (hn : line.length < n)
    (old : Bytes) : cText ((line ++ nul :: rest).take n ++ old) = line := by
  obtain ⟨m,hm⟩ : ∃ m, n-line.length = m+1 := ⟨n-line.length-1,by omega⟩
  rw [List.take_append,List.take_of_length_le (Nat.le_of_lt hn),hm,List.append_assoc,List.take_succ_cons,
    List.cons_append]
  exact cText_append_nul hfree _

end TcpProjects.ChatSelect
