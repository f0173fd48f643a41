import TcpProjects.Base.Lines
import TcpProjects.Protocol.ReceiveLoop

/-! # Message packets

The bytes of a packet are made by the constructor; the two properties can be assigned
afterwards, and the bytes stay what they were. Author and message can be told from the
bytes if the author holds no line feed. -/

namespace TcpProjects.Protocol
open Lines

def lineFeed : Byte := byte '\n'

/-! ### ASCII -/

def IsAscii (s : Text) : Prop := ∀ c ∈ s, c.val < 128

theorem getString_getBytes {s : Text} (h : IsAscii s) : getString (getBytes s) = s := by
  rw [getString,getBytes,List.map_map]
  conv_rhs => rw [← List.map_id s]
  refine List.map_congr_left fun c hc => ?_
  have hlt := h c hc
  simp only [Function.comp_apply,dif_pos hlt,id]
  rw [if_pos hlt]

theorem getBytes_append (s t : Text) : getBytes (s ++ t) = getBytes s ++ getBytes t :=
  List.map_append

theorem getBytes_ascii {s : Text} {b : Byte} (hb : b ∈ getBytes s) : b.val < 128 := by
  obtain ⟨c,_,rfl⟩ := List.mem_map.mp hb
  split_ifs with hc
  · exact hc
  · decide

theorem getByte_lineFeed (c : CodeUnit) :
    (if h : c.val < 128 then (⟨c.val,Nat.lt_trans h (by decide)⟩ : Byte) else byte '?') = lineFeed ↔ c = char '\n' := by
  have hlf : lineFeed.val = 10 := by decide
  have hchar : (char '\n').val = 10 := by decide
  split_ifs with hc
  · rw [Fin.ext_iff,Fin.ext_iff,hlf,hchar]
  · have hne : c ≠ char '\n' := by
      rintro rfl
      omega
    exact iff_of_false (by decide) hne

/- A line feed stands where one stood in the text. -/
theorem count_getBytes (s : Text) : (getBytes s).count lineFeed = s.count (char '\n') := by
  rw [getBytes,List.count,List.countP_map,List.count]
  refine List.countP_congr fun c _ => ?_
  simp only [Function.comp_apply,beq_iff_eq]
  exact getByte_lineFeed c

theorem messagePacket_lines (author message : Text) :
    messagePacket author message = getBytes author ++ lineFeed :: getBytes message := by
  have hlf : getBytes (text "\n") = [lineFeed] := by decide
  rw [messagePacket,getBytes_append,getBytes_append,hlf,List.append_assoc,List.singleton_append]

/-! ### The object -/

/- `packet` has no setter. -/
structure MessagePacket where
  author : Text
  message : Text
  packet : Bytes
  deriving DecidableEq

inductive Assignment where
  | author (value : Text)
  | message (value : Text)

inductive SocketCall where
  | connect
  | send (data : Bytes)
  | shutdown
  | close

namespace MessagePacket

def new (author message : Text) : MessagePacket := ⟨author,message,messagePacket author message⟩

def assign (p : MessagePacket) : Assignment → MessagePacket
  | .author value => { p with author := value }
  | .message value => { p with message := value }

def equals (p obj : MessagePacket) : Bool := obj.author == p.author && obj.message == p.message
def getASCII (p : MessagePacket) : Text := getString p.packet
def getPacket (p : MessagePacket) : Bytes := p.packet
def getPacketLength (p : MessagePacket) : ℕ := p.packet.length
def sendPacket (p : MessagePacket) : List SocketCall := [.connect,.send p.packet,.shutdown,.close]
def toString (p : MessagePacket) : Text := text "MessagePacket: " ++ p.author ++ text "::" ++ p.message

theorem equals_iff {p q : MessagePacket} : p.equals q = true ↔ q.author = p.author ∧ q.message = p.message := by
  unfold equals
  rw [Bool.and_eq_true,beq_iff_eq,beq_iff_eq]

end MessagePacket

/-! ### What the bytes tell -/

/- The author and the message of a packet whose author holds no line feed. -/
def receivePacket (packet : Bytes) : Text × Text :=
  (getString (packet.takeWhile (· ≠ lineFeed)),getString ((packet.dropWhile (· ≠ lineFeed)).drop 1))

theorem receivePacket_new {author message : Text} (h : char '\n' ∉ author) :
    receivePacket (MessagePacket.new author message).getPacket =
      (getString (getBytes author),getString (getBytes message)) := by
  have hno : ∀ b ∈ getBytes author, decide (b ≠ lineFeed) = true := by
    intro b hb
    have hcount := count_getBytes author
    rw [List.count_eq_zero_of_not_mem h,List.count_eq_zero] at hcount
    refine decide_eq_true ?_
    rintro rfl
    exact hcount hb
  show receivePacket (messagePacket author message) = _
  rw [messagePacket_lines,receivePacket,List.takeWhile_append_of_pos hno,List.dropWhile_append_of_pos hno]
  simp

theorem getBytes_inj {s t : Text} (hs : IsAscii s) (ht : IsAscii t) : getBytes s = getBytes t ↔ s = t := by
  refine ⟨fun h => ?_,congrArg getBytes⟩
  rw [← getString_getBytes hs,h,getString_getBytes ht]

/- The bytes and the number of line feeds in the author give the encoded fields. -/
theorem messagePacket_inj {author1 message1 author2 message2 : Text} :
    messagePacket author1 message1 = messagePacket author2 message2 ∧
        author1.count (char '\n') = author2.count (char '\n') ↔
      getBytes author1 = getBytes author2 ∧ getBytes message1 = getBytes message2 := by
  rw [messagePacket_lines,messagePacket_lines,← count_getBytes,← count_getBytes]
  refine ⟨fun h => (append_cons_inj_of_count h.2).mp h.1,fun h => ?_⟩
  rw [h.1,h.2]
  exact ⟨rfl,rfl⟩

/-- Equal packets have equal bytes. Packets with equal bytes whose authors hold equally
many line feeds agree in the encodings of both fields, and are equal if the texts are
ASCII; then a receiver reads both fields, if there is no line feed in the author. -/
theorem packet_determines_fields (author1 message1 author2 message2 : Text) :
    let p := MessagePacket.new author1 message1
    let q := MessagePacket.new author2 message2
    (p.equals q = true → p.getPacket = q.getPacket) ∧
    (p.getPacket = q.getPacket ∧ author1.count (char '\n') = author2.count (char '\n') ↔
      getBytes author1 = getBytes author2 ∧ getBytes message1 = getBytes message2) ∧
    (IsAscii author1 ∧ IsAscii message1 ∧ IsAscii author2 ∧ IsAscii message2 →
      (p.getPacket = q.getPacket ∧ author1.count (char '\n') = author2.count (char '\n') ↔
        p.equals q = true)) ∧
    (char '\n' ∉ author1 ∧ IsAscii author1 ∧ IsAscii message1 →
      receivePacket p.getPacket = (author1,message1)) := by
  intro p q
  refine ⟨fun h => ?_,messagePacket_inj,fun h => ?_,fun h => ?_⟩
  · obtain ⟨ha,hm⟩ := MessagePacket.equals_iff.mp h
    show messagePacket author1 message1 = messagePacket author2 message2
    rw [show author2 = author1 from ha,show message2 = message1 from hm]
  · obtain ⟨ha1,hm1,ha2,hm2⟩ := h
    rw [MessagePacket.equals_iff]
    refine messagePacket_inj.trans ?_
    rw [getBytes_inj ha1 ha2,getBytes_inj hm1 hm2]
    exact and_congr eq_comm eq_comm
  · obtain ⟨hno,ha,hm⟩ := h
    rw [receivePacket_new hno,getString_getBytes ha,getString_getBytes hm]

/- A line feed can belong to either field, and what is not ASCII is sent as a question
mark. -/
theorem packet_ambiguous :
    ((MessagePacket.new (text "a\n") (text "b")).getPacket =
        (MessagePacket.new (text "a") (text "\nb")).getPacket ∧
      (MessagePacket.new (text "a\n") (text "b")).equals (.new (text "a") (text "\nb")) = false) ∧
    (MessagePacket.new (text "é") (text "b")).getPacket =
        (MessagePacket.new (text "?") (text "b")).getPacket ∧
      (MessagePacket.new (text "é") (text "b")).equals (.new (text "?") (text "b")) = false := by
  decide +kernel

/-! ### Assignments -/

/- The values that assignments leave in the two properties. -/
def lastAuthor : Text → List Assignment → Text
  | author,[] => author
  | _,.author value :: as => lastAuthor value as
  | author,.message _ :: as => lastAuthor author as

def lastMessage : Text → List Assignment → Text
  | message,[] => message
  | message,.author _ :: as => lastMessage message as
  | _,.message value :: as => lastMessage value as

namespace MessagePacket

def assignAll (p : MessagePacket) (as : List Assignment) : MessagePacket := as.foldl assign p

/- No assignment reaches the bytes. -/
theorem assignAll_eq (p : MessagePacket) (as : List Assignment) :
    p.assignAll as = ⟨lastAuthor p.author as,lastMessage p.message as,p.packet⟩ := by
  unfold assignAll
  induction as generalizing p with
  | nil => rfl
  | cons a as ih =>
    rw [List.foldl_cons,ih]
    cases a <;> rfl

/- `GetASCII` shows what was constructed, `toString` and `Equals` what was assigned. -/
theorem assignAll_views (author message : Text) (as : List Assignment) (obj : MessagePacket) :
    ((new author message).assignAll as).getASCII = getString (messagePacket author message) ∧
    ((new author message).assignAll as).toString =
      (new (lastAuthor author as) (lastMessage message as)).toString ∧
    ((new author message).assignAll as).equals obj =
      (new (lastAuthor author as) (lastMessage message as)).equals obj := by
  rw [assignAll_eq]
  exact ⟨rfl,rfl,rfl⟩

/- Whatever is assigned, every byte that is sent is ASCII. -/
theorem assignAll_ascii (author message : Text) (as : List Assignment) :
    ∀ b ∈ ((new author message).assignAll as).getPacket, b.val < 128 := by
  intro b hb
  rw [assignAll_eq] at hb
  exact getBytes_ascii hb

/- `Author`, a line feed and `Message`, as they are now. -/
def fields (p : MessagePacket) : Text := p.author ++ text "\n" ++ p.message

/- The bytes are those of the current fields, in every method that uses them. -/
structure InStep (p : MessagePacket) : Prop where
  packet : p.getPacket = getBytes p.fields
  length : p.getPacketLength = (getBytes p.fields).length
  sent : p.sendPacket = [.connect,.send (getBytes p.fields),.shutdown,.close]

theorem inStep_iff {p : MessagePacket} : InStep p ↔ p.packet = getBytes p.fields := by
  refine ⟨fun h => h.packet,fun h => ⟨h,?_,?_⟩⟩
  · unfold getPacketLength
    rw [h]
  · unfold sendPacket
    rw [h]

theorem InStep.equal_bytes {p q : MessagePacket} (hp : InStep p) (hq : InStep q)
    (h : p.equals q = true) : p.getPacket = q.getPacket := by
  obtain ⟨ha,hm⟩ := equals_iff.mp h
  rw [hp.packet,hq.packet,fields,fields,ha,hm]

end MessagePacket

/- Assignments after which the fields are encoded as the constructor's arguments were. -/
def Kept (author message : Text) (as : List Assignment) : Prop :=
  getBytes (lastAuthor author as ++ text "\n" ++ lastMessage message as) =
    getBytes (author ++ text "\n" ++ message)

instance (author message : Text) (as : List Assignment) : Decidable (Kept author message as) :=
  inferInstanceAs (Decidable (_ = _))

theorem inStep_assignAll (author message : Text) (as : List Assignment) :
    ((MessagePacket.new author message).assignAll as).InStep ↔ Kept author message as := by
  rw [MessagePacket.inStep_iff,MessagePacket.assignAll_eq]
  exact eq_comm

/-- After any assignments to two packets: bytes, length and what is sent follow the
fields of both, and the packets have equal bytes if they are equal, exactly if the
fields of both are encoded as they were when the packets were made. -/
theorem packet_in_step (author1 message1 author2 message2 : Text) (as1 as2 : List Assignment) :
    let p := (MessagePacket.new author1 message1).assignAll as1
    let q := (MessagePacket.new author2 message2).assignAll as2
    (p.InStep ∧ q.InStep ∧ (p.equals q = true → p.getPacket = q.getPacket)) ↔
      Kept author1 message1 as1 ∧ Kept author2 message2 as2 := by
  intro p q
  have hp : p.InStep ↔ Kept author1 message1 as1 := inStep_assignAll author1 message1 as1
  have hq : q.InStep ↔ Kept author2 message2 as2 := inStep_assignAll author2 message2 as2
  rw [← hp,← hq]
  exact ⟨fun h => ⟨h.1,h.2.1⟩,fun h => ⟨h.1,h.2,h.1.equal_bytes h.2⟩⟩

/- The message is replaced, and the old one is sent. -/
theorem packet_stale : ¬ ∀ (author1 message1 author2 message2 : Text) (as1 as2 : List Assignment),
    let p := (MessagePacket.new author1 message1).assignAll as1
    let q := (MessagePacket.new author2 message2).assignAll as2
    p.InStep ∧ q.InStep ∧ (p.equals q = true → p.getPacket = q.getPacket) := by
  intro h
  obtain ⟨hstep,_⟩ := h (text "a") (text "b") [] [] [.message (text "c")] []
  exact absurd hstep.packet (by decide +kernel)

end TcpProjects.Protocol
