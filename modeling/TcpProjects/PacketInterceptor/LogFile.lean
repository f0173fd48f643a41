import TcpProjects.PacketInterceptor.HexDump
import TcpProjects.PacketInterceptor.Interceptor

/-! # The log can be read back

What the loop of `main` hands to the stream of `log.txt`, and a reader for it: the line
above the first dump begins a packet, the lines of the dumps give its bytes, and all other lines, in which
the fields of the headers stand, are passed over. -/

namespace TcpProjects.PacketInterceptor
open Cell Lines

/-! ### The file -/

/- The buffer behind each call of `recvfrom`. -/
def buffers : Packet → List Bytes → List Packet
  | _,[] => []
  | packet,datagram :: rest =>
    let r := recvfrom packet datagram
    r.1 :: buffers r.1 rest

def written (log : Log) (packet : Packet) : Bytes := log.flatMap (Item.render packet)

/- The text that is handed to the stream. The run ends by a signal and closes nothing, so that
what stands in the buffer of the stream then does not come into the file. -/
def logFile (target : Option Bytes) (packet : Packet) (ds : List Bytes) : Bytes :=
  (List.zipWith written (main target packet ds) (buffers packet ds)).flatten

/- Whether a datagram is logged. -/
def logged (target : Option Bytes) (d : Bytes) : Bool :=
  decide (d.getD 9 nul = ipprotoTcp) && target.all fun a => a = inetNtoa (fun i => d.getD i nul) 12

/-! ### The reader -/

def heading : Bytes := ascii "IP Header"

/- The margin of a dump, and the blank before its first byte. -/
def margin : Bytes := ascii "    "

/- From the last line on: the bytes above the next heading, and the packets below it. -/
def readLines : List Bytes → Bytes × List Bytes
  | [] => ([],[])
  | line :: rest =>
    let (above,packets) := readLines rest
    if line = heading then ([],above :: packets)
    else if line.take 4 = margin then (undumpLine line ++ above,packets)
    else (above,packets)

def readText (text : Bytes) : Bytes × List Bytes := readLines (lines lineFeed text)

def readLog (file : Bytes) : List Bytes := (readText file).2

/-! ### Lines that are passed over -/

def Passed (line : Bytes) : Prop := line ≠ heading ∧ line.take 4 ≠ margin ∧ lineFeed ∉ line

instance (line : Bytes) : Decidable (Passed line) :=
  inferInstanceAs (Decidable (line ≠ heading ∧ line.take 4 ≠ margin ∧ lineFeed ∉ line))

/- A text of such lines. -/
def Quiet (text : Bytes) : Prop := ∃ lns, text = unlines lineFeed lns ∧ ∀ l ∈ lns,Passed l

theorem Quiet.append {t u : Bytes} (ht : Quiet t) (hu : Quiet u) : Quiet (t ++ u) := by
  obtain ⟨lns,rfl,hlns⟩ := ht
  obtain ⟨lns',rfl,hlns'⟩ := hu
  refine ⟨lns ++ lns',List.flatMap_append.symm,fun l hl => ?_⟩
  rcases List.mem_append.mp hl with hl | hl
  · exact hlns l hl
  · exact hlns' l hl

theorem readLines_passed {lns rest : List Bytes} (h : ∀ l ∈ lns,Passed l) :
    readLines (lns ++ rest) = readLines rest := by
  induction lns with
  | nil => rfl
  | cons l lns ih =>
    have hl := h l List.mem_cons_self
    rw [List.cons_append,readLines,ih fun k hk => h k (List.mem_cons_of_mem l hk)]
    dsimp only
    rw [if_neg hl.1,if_neg hl.2.1]

theorem Quiet.read {t : Bytes} (h : Quiet t) (rest : Bytes) : readText (t ++ rest) = readText rest := by
  obtain ⟨lns,rfl,hlns⟩ := h
  rw [readText,lines_append (fun l hl => (hlns l hl).2.2),readLines_passed hlns]
  rfl

/- The numbers in a line do not break it. -/
theorem decimal_lineFeed (n : ℕ) : lineFeed ∉ decimal n := by
  intro h
  exact absurd (decimal_digit h) (by decide)

theorem readText_heading (rest : Bytes) :
    readText (ascii "IP Header\n" ++ rest) = ([],(readText rest).1 :: (readText rest).2) := by
  have hline : ascii "IP Header\n" = unlines lineFeed [heading] := by decide
  have hwhole : ∀ l ∈ [heading],lineFeed ∉ l := by decide
  rw [hline,readText,lines_append hwhole]
  rfl

/-! ### The lines of a dump -/

theorem dumpLine_margin {r : Bytes} (h : r ≠ []) : (dumpLine r).take 4 = margin ∧ dumpLine r ≠ heading := by
  obtain ⟨b,r,rfl⟩ := List.exists_cons_of_ne_nil h
  have hfirst : ∃ rest,dumpLine (b :: r) = margin ++ rest := by
    refine ⟨hexText b ++ ((List.range 15).map Nat.succ).flatMap (hexColumn (b :: r)) ++
      ascii "         " ++ (b :: r).map textChar,?_⟩
    rw [dumpLine,List.range_succ_eq_map]
    rfl
  obtain ⟨rest,hrest⟩ := hfirst
  rw [hrest]
  refine ⟨List.take_left' rfl,fun he => ?_⟩
  cases he

theorem readLines_dump {rows : List Bytes} (rest : List Bytes) (h : ∀ r ∈ rows,r ≠ [] ∧ r.length ≤ 16) :
    readLines (rows.map dumpLine ++ rest) = (rows.flatten ++ (readLines rest).1,(readLines rest).2) := by
  induction rows with
  | nil => rfl
  | cons r rows ih =>
    obtain ⟨hne,hlength⟩ := h r List.mem_cons_self
    obtain ⟨hmargin,hheading⟩ := dumpLine_margin hne
    rw [List.map_cons,List.cons_append,readLines,ih fun k hk => h k (List.mem_cons_of_mem r hk)]
    dsimp only
    rw [if_neg hheading,if_pos hmargin,undumpLine_dumpLine r hlength,List.flatten_cons,List.append_assoc]

theorem readText_dump (a rest : Bytes) :
    readText (hexDump a ++ rest) = (a ++ (readText rest).1,(readText rest).2) := by
  have hrows : ∀ r ∈ (List.range ((a.length+15)/16)).map (row a),r ≠ [] ∧ r.length ≤ 16 := by
    intro r hr
    obtain ⟨k,hk,rfl⟩ := List.mem_map.mp hr
    have hlt := List.mem_range.mp hk
    have hlength := row_length a k
    refine ⟨fun he => ?_,by omega⟩
    rw [he,List.length_nil] at hlength
    omega
  have hall : ((List.range ((a.length+15)/16)).map (row a)).flatten = a := by
    rw [← List.flatMap_def,flatMap_row,List.take_of_length_le (by omega)]
  have hwhole : ∀ l ∈ (List.range ((a.length+15)/16)).map fun k => dumpLine (row a k),lineFeed ∉ l := by
    intro l hl
    obtain ⟨k,_,rfl⟩ := List.mem_map.mp hl
    exact dumpLine_lineFeed _
  have hread := readLines_dump (lines lineFeed rest) hrows
  rw [List.map_map,hall] at hread
  rw [readText,hexDump_lines,lines_append hwhole]
  exact hread

/-! ### A dump at any position of the buffer -/

def slice (packet : Packet) (p n : ℕ) : Bytes := (List.range n).map fun i => packet (p+i)

theorem slice_get (packet : Packet) (p : ℕ) {n i : ℕ} (hi : i < n) :
    (slice packet p n).getD i nul = packet (p+i) := by
  rw [List.getD_eq_getElem?_getD,slice,List.getElem?_map,List.getElem?_range hi]
  rfl

/- The cell `p` positions further on. -/
def Cell.shift (p : ℕ) : Cell → Cell
  | .text s => .text s
  | .hex i => .hex (p+i)
  | .char i => .char (p+i)

theorem rowText_shift (p first count : ℕ) :
    rowText p first count = (rowText 0 first count).map (Cell.shift p) := by
  simp [rowText,Cell.shift,blanks,newline]

theorem printByte_shift (p size i : ℕ) : printByte p size i = (printByte 0 size i).map (Cell.shift p) := by
  simp only [printByte,rowText_shift p]
  split_ifs <;> simp [Cell.shift]

theorem printPacket_shift (p : ℕ) (size : ℤ) :
    printPacket p size = (printPacket 0 size).map (Cell.shift p) := by
  rw [printPacket,printPacket,List.map_flatMap]
  exact List.flatMap_congr fun i _ => printByte_shift p _ i

theorem Cell.render_shift {packet packet' : Packet} {p : ℕ} {c : Cell}
    (h : ∀ i,c.position = some i → packet' i = packet (p+i)) :
    (c.shift p).render packet = c.render packet' := by
  cases c with
  | text s => rfl
  | hex i => simp only [Cell.shift,Cell.render,h i rfl]
  | char i => simp only [Cell.shift,Cell.render,h i rfl]

/- A dump shows the bytes from the pointer on. -/
theorem written_dump (packet : Packet) (p : ℕ) (size : ℤ) (label : String) :
    written (dump label p size) packet = ascii label ++ hexDump (slice packet p size.toNat) := by
  have hlength : (slice packet p size.toNat).length = size.toNat := by
    rw [slice,List.length_map,List.length_range]
  have hsize : printPacket 0 size = printPacket 0 (size.toNat : ℕ) := by
    rw [printPacket,printPacket,Int.toNat_natCast]
  rw [written,dump,List.flatMap_cons,hexDump,hlength,printPacket_shift,List.map_map,List.flatMap_map,hsize]
  refine congrArg (ascii label ++ ·) (List.flatMap_congr fun c hc => ?_)
  refine Cell.render_shift fun i hi => slice_get packet p ?_
  have hpos := (printPacket_position hc hi).2
  omega

/-! ### The fields -/

theorem written_append (log log' : Log) (packet : Packet) :
    written (log ++ log') packet = written log packet ++ written log' packet := List.flatMap_append

/- The beginning of a line that is passed over, whatever follows. -/
def Opening (o : Bytes) : Prop :=
  4 ≤ o.length ∧ o.take 4 ≠ margin ∧ o.take 4 ≠ heading.take 4 ∧ lineFeed ∉ o

instance (o : Bytes) : Decidable (Opening o) :=
  inferInstanceAs (Decidable (4 ≤ o.length ∧ o.take 4 ≠ margin ∧ o.take 4 ≠ heading.take 4 ∧ lineFeed ∉ o))

theorem quiet_line (before : Bytes) {label : String} {value : List Item} {packet : Packet}
    (hlabel : Opening (before ++ ascii label)) (hvalue : lineFeed ∉ written value packet) :
    Quiet (before ++ written (line label value) packet) := by
  obtain ⟨hlength,hmargin,hheading,hwhole⟩ := hlabel
  have htake : (before ++ ascii label ++ written value packet).take 4 = (before ++ ascii label).take 4 :=
    List.take_append_of_le_length hlength
  refine ⟨[before ++ ascii label ++ written value packet],?_,fun l hl => ?_⟩
  · rw [line,written_append,written_append]
    change before ++ (ascii label ++ [] ++ _ ++ (ascii "\n" ++ [])) = (_ ++ [lineFeed]) ++ []
    simp only [List.append_nil,List.append_assoc]
    rfl
  · obtain rfl := List.mem_singleton.mp hl
    refine ⟨fun he => hheading ?_,fun he => hmargin (htake.symm.trans he),?_⟩
    · rw [← htake,he]
    · rw [List.mem_append,not_or]
      exact ⟨hwhole,hvalue⟩

theorem quiet_tcpHeader (packet : Packet) (tcpheader : ℕ) : Quiet (written (tcpHeader tcpheader) packet) := by
  have hnumber (bytes : List ℕ) : lineFeed ∉ written [.number bytes] packet := by
    simpa [written,Item.render] using decimal_lineFeed _
  have hbits (i shift : ℕ) : lineFeed ∉ written [.bits i shift 1 1] packet := by
    simpa [written,Item.render] using decimal_lineFeed _
  have hlength : lineFeed ∉ written [.bits (tcpheader+12) 4 4 1,.text (ascii " DWORDS or "),
      .bits (tcpheader+12) 4 4 4,.text (ascii " BYTES")] packet := by
    have hor : lineFeed ∉ ascii " DWORDS or " := by decide
    have hbytes : lineFeed ∉ ascii " BYTES" := by decide
    simp [written,Item.render,decimal_lineFeed,hor,hbytes]
  have htitle : Quiet (written [.text (ascii "\n\n***********************TCP Packet*************************\n"),
      .text (ascii "\n"),.text (ascii "TCP Header\n")] packet) := by
    have htext : ascii "\n\n***********************TCP Packet*************************\n" ++
        (ascii "\n" ++ (ascii "TCP Header\n" ++ [])) = unlines lineFeed [[],[],
          ascii "***********************TCP Packet*************************",[],ascii "TCP Header"] := by
      decide +kernel
    exact ⟨_,htext,by decide +kernel⟩
  have hflags : Quiet (written [.text (ascii " \n|- FLAGS\n")] packet) := by
    have htext : ascii " \n|- FLAGS\n" ++ [] = unlines lineFeed [ascii " ",ascii "|- FLAGS"] := by
      decide +kernel
    exact ⟨_,htext,by decide +kernel⟩
  have hline {label : String} {value : List Item} (hlabel : Opening (ascii label))
      (hvalue : lineFeed ∉ written value packet) : Quiet (written (line label value) packet) :=
    quiet_line [] hlabel hvalue
  simp only [tcpHeader,written_append]
  refine Quiet.append ?_ (hline (by decide) (hnumber _))
  iterate 6 refine Quiet.append ?_ (hline (by decide) (hbits _ _))
  refine Quiet.append (Quiet.append (Quiet.append (Quiet.append htitle ?_) ?_) ?_) hflags
  · exact hline (by decide) (hnumber _)
  · exact hline (by decide) (hnumber _)
  · exact hline (by decide) hlength

/-! ### One packet -/

/- What stands behind the last newline of a packet. -/
def hashes : Bytes := ascii "###########################################################"

def tcpStart (packet : Packet) : ℕ := ihl packet*4
def payloadStart (packet : Packet) : ℕ := tcpStart packet+doff packet (tcpStart packet)*4

/- The text of a packet in front of `rest`, behind the end of the packet before. -/
theorem readText_packet {target : Option Bytes} {packet : Packet} {n : ℕ} {before : Bytes} (rest : Bytes)
    (htarget : target.all (fun a => a = inetNtoa packet 12) = true)
    (hbefore : before = [] ∨ before = hashes) :
    readText (before ++ (written (printTcpPacket target packet n) packet ++ rest)) =
      ([],(slice packet 0 (tcpStart packet) ++ (slice packet (tcpStart packet) (doff packet (tcpStart packet)*4) ++
        (slice packet (payloadStart packet) (n-payloadStart packet) ++ (readText (hashes ++ rest)).1))) ::
          (readText (hashes ++ rest)).2) := by
  have hfirst : Quiet (before ++ written (line "   |- Identification    : " [.number [4,5]]) packet) := by
    have hnumber : lineFeed ∉ written [.number [4,5]] packet := by
      simpa [written,Item.render] using decimal_lineFeed _
    rcases hbefore with rfl | rfl
    · exact quiet_line [] (by decide) hnumber
    · exact quiet_line hashes (by decide) hnumber
  have hend : written [.text (ascii "\n###########################################################")] packet =
      ascii "\n" ++ hashes := by
    have htext : ascii "\n###########################################################" ++ [] =
        ascii "\n" ++ hashes := by decide +kernel
    exact htext
  have hpayload : ((n : ℤ)-(doff packet (tcpStart packet)*4 : ℕ)-(ihl packet*4 : ℕ)).toNat =
      n-payloadStart packet := by
    unfold payloadStart tcpStart
    omega
  have hblank : Quiet (ascii "\n") := ⟨[[]],by decide,by decide⟩
  have htcp : Quiet (ascii "TCP Header\n") := ⟨[ascii "TCP Header"],by decide,by decide⟩
  have hlabel : Quiet (ascii "packet Payload\n") := ⟨[ascii "packet Payload"],by decide,by decide⟩
  have hlog : printTcpPacket target packet n = line "   |- Identification    : " [.number [4,5]] ++
      tcpHeader (tcpStart packet) ++ dump "IP Header\n" 0 (tcpStart packet) ++
      dump "TCP Header\n" (tcpStart packet) (doff packet (tcpStart packet)*4 : ℕ) ++
      dump "packet Payload\n" (payloadStart packet)
        ((n : ℤ)-(doff packet (tcpStart packet)*4 : ℕ)-(ihl packet*4 : ℕ)) ++
      [.text (ascii "\n###########################################################")] := by
    simp only [printTcpPacket,printIpHeader,htarget,if_true]
    rfl
  simp only [hlog,written_append,written_dump,hend,Int.toNat_natCast,hpayload,List.append_assoc]
  rw [← List.append_assoc before,hfirst.read,(quiet_tcpHeader packet _).read,readText_heading,readText_dump,
    htcp.read,readText_dump,hlabel.read,readText_dump,hblank.read]

/-! ### The whole file -/

theorem slice_recvfrom (old : Packet) {d : Bytes} (hhigh : d.length ≤ 65535) {p n : ℕ}
    (hend : p+n ≤ d.length) : slice (recvfrom old d).1 p n = (d.drop p).take n := by
  refine List.ext_getElem (by simp [slice]; omega) fun i hi _ => ?_
  have hlt : i < n := by simpa [slice] using hi
  have hget := recvfrom_get old hhigh (i := p+i) (by omega)
  rw [List.getD_eq_getElem?_getD,List.getElem?_eq_getElem (by omega)] at hget
  simpa [slice] using hget

/- The three dumps of a datagram that holds its headers are laid end to end. -/
theorem slices (old : Packet) {d : Bytes} (hlow : 20 ≤ d.length) (hhigh : d.length ≤ 65535) (hfits : Fits d)
    (rest : Bytes) :
    slice (recvfrom old d).1 0 (tcpStart (recvfrom old d).1) ++
      (slice (recvfrom old d).1 (tcpStart (recvfrom old d).1)
          (doff (recvfrom old d).1 (tcpStart (recvfrom old d).1)*4) ++
        (slice (recvfrom old d).1 (payloadStart (recvfrom old d).1)
          (d.length-payloadStart (recvfrom old d).1) ++ rest)) = d ++ rest := by
  have hboth : tcpStart (recvfrom old d).1+doff (recvfrom old d).1 (tcpStart (recvfrom old d).1)*4 ≤ d.length :=
    ((fits_iff old hlow hhigh).mpr hfits).2
  unfold payloadStart
  generalize tcpStart (recvfrom old d).1 = h at hboth ⊢
  generalize doff (recvfrom old d).1 h*4 = k at hboth ⊢
  rw [slice_recvfrom old hhigh (by omega),slice_recvfrom old hhigh (by omega),
    slice_recvfrom old hhigh (by omega),List.drop_zero]
  have hlast : (d.drop (h+k)).take (d.length-(h+k)) = d.drop (h+k) :=
    List.take_of_length_le (by rw [List.length_drop])
  rw [hlast,← List.append_assoc,← List.append_assoc,← List.take_add,List.take_append_drop]

/- Whether a datagram is logged can be seen from its first twenty bytes. -/
theorem processPacket_logged (target : Option Bytes) (old : Packet) {d : Bytes} (hlow : 20 ≤ d.length)
    (hhigh : d.length ≤ 65535) :
    (logged target d = true → target.all (fun a => a = inetNtoa (recvfrom old d).1 12) = true) ∧
    processPacket target (recvfrom old d).1 (recvfrom old d).2 =
      if logged target d then printTcpPacket target (recvfrom old d).1 d.length else [] := by
  have hget {i : ℕ} (hi : i < 20) : (recvfrom old d).1 i = d.getD i nul := recvfrom_get old hhigh (by omega)
  have hprotocol : protocol (recvfrom old d).1 = d.getD 9 nul := hget (by decide)
  have hsource : inetNtoa (recvfrom old d).1 12 = inetNtoa (fun i => d.getD i nul) 12 := by
    simp only [inetNtoa,hget (show 12 < 20 by decide),hget (show 12+1 < 20 by decide),
      hget (show 12+2 < 20 by decide),hget (show 12+3 < 20 by decide)]
  have hlogged : logged target d = true ↔ d.getD 9 nul = ipprotoTcp ∧
      target.all (fun a => a = inetNtoa (fun i => d.getD i nul) 12) = true := by
    rw [logged,Bool.and_eq_true,decide_eq_true_eq]
  rw [processPacket,recvfrom_size old hhigh,hprotocol,hsource]
  refine ⟨fun h => (hlogged.mp h).2,?_⟩
  by_cases htcp : d.getD 9 nul = ipprotoTcp
  · cases htarget : target.all fun a => a = inetNtoa (fun i => d.getD i nul) 12 with
    | true => rw [if_pos htcp,if_pos (hlogged.mpr ⟨htcp,htarget⟩)]
    | false =>
      rw [if_pos htcp,if_neg fun h => by cases htarget.symm.trans (hlogged.mp h).2]
      simp only [printTcpPacket,printIpHeader,hsource,htarget,Bool.false_eq_true,if_false]
  · rw [if_neg htcp,if_neg fun h => htcp (hlogged.mp h).1]

theorem logFile_cons (target : Option Bytes) (old : Packet) (d : Bytes) (ds : List Bytes) :
    logFile target old (d :: ds) =
      written (processPacket target (recvfrom old d).1 (recvfrom old d).2) (recvfrom old d).1 ++
        logFile target (recvfrom old d).1 ds := rfl

theorem readText_logFile (target : Option Bytes) (old : Packet) {ds : List Bytes} {before : Bytes}
    (hbefore : before = [] ∨ before = hashes)
    (hds : ∀ d ∈ ds,20 ≤ d.length ∧ d.length ≤ 65535 ∧ (logged target d = true → Fits d)) :
    readText (before ++ logFile target old ds) = ([],ds.filter (logged target)) := by
  induction ds generalizing old before with
  | nil =>
    have hnone : lines lineFeed before = [] := by
      refine lines_none ?_
      rcases hbefore with rfl | rfl
      · decide
      · decide
    change readLines (lines lineFeed (before ++ [])) = _
    rw [List.append_nil,hnone]
    rfl
  | cons d ds ih =>
    obtain ⟨hlow,hhigh,hfits⟩ := hds d List.mem_cons_self
    have hrest := fun x hx => hds x (List.mem_cons_of_mem d hx)
    obtain ⟨htarget,hlog⟩ := processPacket_logged target old hlow hhigh
    rw [logFile_cons,hlog]
    cases hd : logged target d with
    | true =>
      rw [if_pos rfl,readText_packet _ (htarget hd) hbefore,ih _ (Or.inr rfl) hrest,
        slices old hlow hhigh (hfits hd),List.filter_cons_of_pos hd,List.append_nil]
    | false =>
      rw [if_neg Bool.false_ne_true,List.filter_cons_of_neg (by simp [hd])]
      exact ih _ hbefore hrest

/-- The log of a whole run gives back every datagram that was logged, in order and byte for
byte, whatever the buffer held before, if each of them holds the headers that it announces. -/
theorem log_reads_back (target : Option Bytes) (packet : Packet) (ds : List Bytes)
    (hds : ∀ d ∈ ds,20 ≤ d.length ∧ d.length ≤ 65535 ∧ (logged target d = true → Fits d)) :
    readLog (logFile target packet ds) = ds.filter (logged target) :=
  congrArg Prod.snd (readText_logFile target packet (Or.inl rfl) hds)

/- Two segments from the target, and between them one from another address. -/
theorem log_reads_back_target :
    let other : Bytes := octets [0x45,0,0,0,0,0,0,0,64,6,0,0,127,0,0,2,127,0,0,1] ++ tcpSegment
    readLog (logFile (some (ascii "127.0.0.1")) (fun _ => nul)
      [ipHeader ++ tcpSegment ++ ascii "hello",other,ipHeader ++ tcpSegment]) =
        [ipHeader ++ tcpSegment ++ ascii "hello",ipHeader ++ tcpSegment] := by
  have hread := log_reads_back (some (ascii "127.0.0.1")) (fun _ => nul)
    [ipHeader ++ tcpSegment ++ ascii "hello",
      octets [0x45,0,0,0,0,0,0,0,64,6,0,0,127,0,0,2,127,0,0,1] ++ tcpSegment,ipHeader ++ tcpSegment]
    (by decide)
  exact hread.trans (by decide)

end TcpProjects.PacketInterceptor
