import TcpProjects.PacketInterceptor.PrintPacket

/-! # What the interceptor logs of a packet

`recvfrom` stores each datagram over the start of one buffer, in which longer
older ones remain; the header lengths come from the datagram, unchecked. The log
of a datagram is made of its own bytes exactly if both headers lie in it. -/

namespace TcpProjects.PacketInterceptor
open Cell

/- An item of the log: a field of several bytes in network order, a bit field of one
byte times `scale`, or a cell of a dump. -/
inductive Item where
  | text (s : Bytes)
  | number (bytes : List ℕ)
  | bits (i shift width scale : ℕ)
  | dump (c : Cell)
  deriving DecidableEq

abbrev Packet := ℕ → Byte

def bigEndian (packet : Packet) (bytes : List ℕ) : ℕ :=
  bytes.foldl (fun n i => 256*n+(packet i).val) 0

def bitField (b : Byte) (shift width : ℕ) : ℕ := b.val/2^shift%2^width

namespace Item

def render (packet : Packet) : Item → Bytes
  | .text s => s
  | .number bytes => decimal (bigEndian packet bytes)
  | .bits i shift width scale => decimal (bitField (packet i) shift width*scale)
  | .dump c => c.render packet

/- The positions of the buffer that are read for an item. -/
def positions : Item → List ℕ
  | .text _ => []
  | .number bytes => bytes
  | .bits i _ _ _ => [i]
  | .dump c => c.position.toList

def cell : Item → Option Cell
  | .dump c => some c
  | _ => none

end Item

abbrev Log := List Item

/-! ### The packet handlers -/

def ipprotoTcp : Byte := ⟨6,by decide⟩

def ihl (packet : Packet) : ℕ := bitField (packet 0) 0 4
def protocol (packet : Packet) : Byte := packet 9
def doff (packet : Packet) (tcpheader : ℕ) : ℕ := bitField (packet (tcpheader+12)) 4 4

/- `inet_ntoa` of the address at a position. -/
def inetNtoa (packet : Packet) (i : ℕ) : Bytes :=
  decimal (packet i).val ++ ascii "." ++ decimal (packet (i+1)).val ++ ascii "." ++
    decimal (packet (i+2)).val ++ ascii "." ++ decimal (packet (i+3)).val

def line (label : String) (value : List Item) : Log :=
  [.text (ascii label)] ++ value ++ [.text (ascii "\n")]

/- `none` is the return of -1 for a packet from another source than the target. -/
def printIpHeader (target : Option Bytes) (packet : Packet) : Option Log :=
  if target.all (fun a => a = inetNtoa packet 12) then
    some (line "   |- Identification    : " [.number [4,5]])
  else none

def tcpHeader (tcpheader : ℕ) : Log :=
  [.text (ascii "\n\n***********************TCP Packet*************************\n"),
    .text (ascii "\n"),.text (ascii "TCP Header\n")] ++
  line "   |- Sequence Number    : " [.number [tcpheader+4,tcpheader+5,tcpheader+6,tcpheader+7]] ++
  line "   |- Acknowledge Number : " [.number [tcpheader+8,tcpheader+9,tcpheader+10,tcpheader+11]] ++
  line "   |- Header Length      : " [.bits (tcpheader+12) 4 4 1,.text (ascii " DWORDS or "),
    .bits (tcpheader+12) 4 4 4,.text (ascii " BYTES")] ++
  [.text (ascii " \n|- FLAGS\n")] ++
  line "   |- Urgent Flag          : " [.bits (tcpheader+13) 5 1 1] ++
  line "   |- Acknowledgement Flag : " [.bits (tcpheader+13) 4 1 1] ++
  line "   |- Push Flag            : " [.bits (tcpheader+13) 3 1 1] ++
  line "   |- Reset Flag           : " [.bits (tcpheader+13) 2 1 1] ++
  line "   |- Synchronise Flag     : " [.bits (tcpheader+13) 1 1 1] ++
  line "   |- Finish Flag          : " [.bits (tcpheader+13) 0 1 1] ++
  line "   |- Checksum       : " [.number [tcpheader+16,tcpheader+17]]

def dump (label : String) (packet : ℕ) (size : ℤ) : Log :=
  .text (ascii label) :: (printPacket packet size).map .dump

def printTcpPacket (target : Option Bytes) (packet : Packet) (size : ℕ) : Log :=
  let iphdrlen := ihl packet*4
  match printIpHeader target packet with
  | none => []
  | some log =>
    log ++ tcpHeader iphdrlen ++
    dump "IP Header\n" 0 iphdrlen ++
    dump "TCP Header\n" iphdrlen (doff packet iphdrlen*4 : ℕ) ++
    dump "packet Payload\n" (iphdrlen+doff packet iphdrlen*4)
      ((size : ℤ)-(doff packet iphdrlen*4 : ℕ)-(ihl packet*4 : ℕ)) ++
    [.text (ascii "\n###########################################################")]

def processPacket (target : Option Bytes) (packet : Packet) (size : ℕ) : Log :=
  if protocol packet = ipprotoTcp then printTcpPacket target packet size else []

/- `recvfrom(local_socket, packet, 65536, ..)`: the bytes behind the datagram are those of
older ones. -/
def recvfrom (packet : Packet) (datagram : Bytes) : Packet × ℕ :=
  (fun i => (datagram.take 65536).getD i (packet i),(datagram.take 65536).length)

/-- The loop of `main`: the logs of the datagrams received one after another. -/
def main (target : Option Bytes) : Packet → List Bytes → List Log
  | _,[] => []
  | packet,datagram :: rest =>
    let r := recvfrom packet datagram
    processPacket target r.1 r.2 :: main target r.1 rest

/-! ### What a log is printed from -/

theorem line_cell (label : String) {value : List Item} (h : value.filterMap Item.cell = []) :
    (line label value).filterMap Item.cell = [] := by
  simp only [line,List.filterMap_append,h]
  rfl

theorem dump_cell (label : String) (packet : ℕ) (size : ℤ) :
    (dump label packet size).filterMap Item.cell = printPacket packet size := by
  rw [dump,List.filterMap_cons_none rfl,List.filterMap_map]
  exact List.filterMap_some

theorem tcpHeader_cell (tcpheader : ℕ) : (tcpHeader tcpheader).filterMap Item.cell = [] := by
  have hnone : ∀ x ∈ tcpHeader tcpheader, x.cell = none := by
    simp [tcpHeader,line,Item.cell]
  exact List.filterMap_eq_nil_iff.mpr hnone

/- The last field that is printed of the TCP header is the checksum. -/
theorem tcpHeader_positions {tcpheader : ℕ} {x : Item} (hx : x ∈ tcpHeader tcpheader) {i : ℕ}
    (hi : i ∈ x.positions) : i < tcpheader+18 := by
  have hall : ∀ x ∈ tcpHeader tcpheader, ∀ i ∈ x.positions, i < tcpheader+18 := by
    simp [tcpHeader,line,Item.positions]
  exact hall x hx i hi

theorem dump_positions {label : String} {packet : ℕ} {size : ℤ} {x : Item}
    (hx : x ∈ dump label packet size) {i : ℕ} (hi : i ∈ x.positions) :
    packet ≤ i ∧ i < packet+size.toNat := by
  rcases List.mem_cons.mp hx with rfl | hx
  · cases hi
  · obtain ⟨c,hc,rfl⟩ := List.mem_map.mp hx
    exact printPacket_position hc (by simpa [Item.positions] using hi)

/- The three dumps cover the datagram in both columns, and nothing is printed from
behind it. -/
structure Complete (n : ℕ) (log : Log) : Prop where
  hex : (log.filterMap Item.cell).filterMap hexCell = List.range n
  char : (log.filterMap Item.cell).filterMap charCell = List.range n
  own : ∀ x ∈ log, ∀ i ∈ x.positions, i < n

/- The datagram holds what is printed of the TCP header, and both headers by their own
lengths. -/
def Fits (datagram : Bytes) : Prop :=
  let iphdrlen := (datagram.getD 0 nul).val%16*4
  iphdrlen+18 ≤ datagram.length ∧
    iphdrlen+(datagram.getD (iphdrlen+12) nul).val/16*4 ≤ datagram.length

instance (datagram : Bytes) : Decidable (Fits datagram) :=
  inferInstanceAs (Decidable (_ ∧ _))

section Packet
variable (packet : Packet) (n : ℕ)

/- The dumps are three ranges laid end to end. -/
theorem printTcpPacket_cells (f : Cell → Option ℕ)
    (hf : ∀ packet size, (printPacket packet size).filterMap f = List.range' packet size.toNat) :
    ((printTcpPacket none packet n).filterMap Item.cell).filterMap f =
      List.range (max (ihl packet*4+doff packet (ihl packet*4)*4) n) := by
  simp only [printTcpPacket,printIpHeader,Option.all_none,if_true,List.filterMap_append,
    line_cell _ (show [Item.number [4,5]].filterMap Item.cell = [] from rfl),tcpHeader_cell,
    dump_cell,hf,Int.toNat_natCast]
  have hend : [Item.text (ascii "\n###########################################################")].filterMap
      Item.cell = [] := rfl
  rw [hend]
  generalize ihl packet*4 = h
  generalize doff packet h*4 = d
  have hpayload : ((n : ℤ)-d-h).toNat = n-(h+d) := by omega
  have hall : h+d+(n-(h+d)) = max (h+d) n := by omega
  have hstart : List.range' 0 h ++ List.range' h d = List.range' 0 (h+d) := by
    simpa using List.range'_append_1 (s := 0) (m := h) (n := d)
  have hrest : List.range' 0 (h+d) ++ List.range' (h+d) (n-(h+d)) = List.range' 0 (max (h+d) n) := by
    simpa [hall] using List.range'_append_1 (s := 0) (m := h+d) (n := n-(h+d))
  simp only [List.filterMap_nil,List.nil_append,List.append_nil,hpayload,hstart,hrest,
    List.range_eq_range']

/- The positions read for the log, those of the checksum among them. -/
theorem printTcpPacket_positions :
    (∀ x ∈ printTcpPacket none packet n,∀ i ∈ x.positions,
      i < max 6 (max (ihl packet*4+18) (max (ihl packet*4+doff packet (ihl packet*4)*4) n))) ∧
    ∃ x ∈ printTcpPacket none packet n,ihl packet*4+17 ∈ x.positions := by
  simp only [printTcpPacket,printIpHeader,Option.all_none,if_true]
  constructor
  · intro x hx i hi
    simp only [List.mem_append] at hx
    rcases hx with ((((hx | hx) | hx) | hx) | hx) | hx
    · have hline : ∀ x ∈ line "   |- Identification    : " [.number [4,5]],∀ i ∈ x.positions,i < 6 := by
        simp [line,Item.positions]
      have := hline x hx i hi
      omega
    · have := tcpHeader_positions hx hi
      omega
    · have := dump_positions hx hi
      omega
    · have := dump_positions hx hi
      omega
    · have := dump_positions hx hi
      omega
    · rw [List.mem_singleton.mp hx] at hi
      cases hi
  · refine ⟨.number [ihl packet*4+16,ihl packet*4+17],?_,by simp [Item.positions]⟩
    simp [tcpHeader,line]

/- Whatever the lengths are, the log is complete unless it reaches behind the datagram. -/
theorem complete_iff : Complete n (printTcpPacket none packet n) ↔
    ihl packet*4+18 ≤ n ∧ ihl packet*4+doff packet (ihl packet*4)*4 ≤ n := by
  have hhex := printTcpPacket_cells packet n hexCell printPacket_hex
  have hchar := printTcpPacket_cells packet n charCell printPacket_char
  obtain ⟨hpositions,x,hx,hchecksum⟩ := printTcpPacket_positions packet n
  constructor
  · rintro ⟨hex,-,own⟩
    have hlast := own x hx _ hchecksum
    have hlength := congrArg List.length (hhex.symm.trans hex)
    simp only [List.length_range] at hlength
    omega
  · rintro ⟨hheader,hboth⟩
    rw [max_eq_right hboth] at hhex hchar
    refine ⟨hhex,hchar,fun x hx i hi => ?_⟩
    have := hpositions x hx i hi
    omega

end Packet

/-! ### The reused buffer -/

theorem recvfrom_get (packet : Packet) {datagram : Bytes} (h : datagram.length ≤ 65535) {i : ℕ}
    (hi : i < datagram.length) : (recvfrom packet datagram).1 i = datagram.getD i nul := by
  have htake : datagram.take 65536 = datagram := List.take_of_length_le (by omega)
  simp [recvfrom,htake,hi]

theorem recvfrom_size (packet : Packet) {datagram : Bytes} (h : datagram.length ≤ 65535) :
    (recvfrom packet datagram).2 = datagram.length := by
  have htake : datagram.take 65536 = datagram := List.take_of_length_le (by omega)
  rw [recvfrom,htake]

/- The log of a datagram is that of the buffer in which it was received. -/
theorem main_get (target : Option Bytes) (packet : Packet) (ds : List Bytes) {i : ℕ} {d : Bytes}
    (hi : ds[i]? = some d) : ∃ old,(main target packet ds)[i]? =
      some (processPacket target (recvfrom old d).1 (recvfrom old d).2) := by
  induction ds generalizing packet i with
  | nil => cases hi
  | cons datagram rest ih =>
    cases i with
    | zero =>
      cases hi
      exact ⟨packet,rfl⟩
    | succ i => exact ih _ hi

/- What is read of the header lengths is the datagram's own as far as it fits. -/
theorem fits_iff (old : Packet) {d : Bytes} (hlow : 20 ≤ d.length) (hhigh : d.length ≤ 65535) :
    (ihl (recvfrom old d).1*4+18 ≤ d.length ∧
      ihl (recvfrom old d).1*4+doff (recvfrom old d).1 (ihl (recvfrom old d).1*4)*4 ≤ d.length) ↔
    Fits d := by
  have hihl : ihl (recvfrom old d).1 = (d.getD 0 nul).val%16 := by
    rw [ihl,recvfrom_get old hhigh (by omega),bitField]
    simp
  rw [hihl,Fits]
  refine and_congr_right fun hheader => ?_
  have hdoff : doff (recvfrom old d).1 ((d.getD 0 nul).val%16*4) =
      (d.getD ((d.getD 0 nul).val%16*4+12) nul).val/16 := by
    rw [doff,recvfrom_get old hhigh (by omega),bitField]
    have := (d.getD ((d.getD 0 nul).val%16*4+12) nul).isLt
    omega
  rw [hdoff]

theorem logged_own_bytes (packet : Packet) (ds : List Bytes) (i : ℕ) (d : Bytes)
    (hi : ds[i]? = some d) (hlow : 20 ≤ d.length) (hhigh : d.length ≤ 65535)
    (htcp : d.getD 9 nul = ipprotoTcp) :
    ∃ log,(main none packet ds)[i]? = some log ∧ (Complete d.length log ↔ Fits d) := by
  obtain ⟨old,hlog⟩ := main_get none packet ds hi
  refine ⟨_,hlog,?_⟩
  have hprotocol : protocol (recvfrom old d).1 = ipprotoTcp :=
    (recvfrom_get old hhigh (by omega)).trans htcp
  rw [processPacket,if_pos hprotocol,recvfrom_size old hhigh,complete_iff]
  exact fits_iff old hlow hhigh

def octets (l : List ℕ) : Bytes := l.map fun n => ⟨n%256,Nat.mod_lt _ (by decide)⟩

/- An IP header of 20 bytes with protocol TCP, and a TCP header of 20. -/
def ipHeader : Bytes := octets [0x45,0,0,0,0,0,0,0,64,6,0,0,127,0,0,1,127,0,0,1]
def tcpSegment : Bytes := octets [0,80,0,80,0,0,0,1,0,0,0,1,0x50,0x10,0,0,0,0,0,0]

theorem logged_own_bytes_segment :
    ∃ log,(main none (fun _ => nul) [ipHeader ++ tcpSegment ++ ascii "hello",ipHeader ++ tcpSegment])[1]? =
      some log ∧ (Complete (ipHeader ++ tcpSegment).length log ↔ Fits (ipHeader ++ tcpSegment)) :=
  logged_own_bytes _ _ 1 (ipHeader ++ tcpSegment) rfl (by decide) (by decide) (by decide)

/- The fields and the dumps of a datagram that is only an IP header are those of the
segment received before. -/
theorem logged_bytes_left_over :
    ipHeader.length = 20 ∧ ipHeader.getD 9 nul = ipprotoTcp ∧
    ∃ log,(main none (fun _ => nul) [ipHeader ++ tcpSegment,ipHeader])[1]? = some log ∧
      ¬Complete ipHeader.length log := by
  refine ⟨by decide,by decide,?_⟩
  obtain ⟨old,hlog⟩ := main_get none (fun _ => nul) [ipHeader ++ tcpSegment,ipHeader]
    (show [ipHeader ++ tcpSegment,ipHeader][1]? = some ipHeader from rfl)
  refine ⟨_,hlog,?_⟩
  have hprotocol : protocol (recvfrom old ipHeader).1 = ipprotoTcp :=
    (recvfrom_get old (by decide) (by decide)).trans (by decide)
  rw [processPacket,if_pos hprotocol,recvfrom_size old (by decide),complete_iff _ _,
    fits_iff old (by decide) (by decide)]
  decide

end TcpProjects.PacketInterceptor
