import TcpProjects.Base.Lines
import TcpProjects.PacketInterceptor.PrintPacket

/-! # The hex dump can be read back

`print_packet` writes one line for every sixteen bytes. The cells of a line stand at
fixed columns, blank where the last line has no byte, and its text column holds no
newline, so that the bytes can be read off the lines. -/

namespace TcpProjects.PacketInterceptor
open Cell Lines

/- What is written for an array of bytes. -/
def hexDump (a : Bytes) : Bytes := (printPacket 0 a.length).flatMap (Cell.render fun i => a.getD i nul)

def lineFeed : Byte := byte '\n'

/- The bytes of line `k`. -/
def row (a : Bytes) (k : ℕ) : Bytes := (a.drop (16*k)).take 16

def hexText (b : Byte) : Bytes := [hexDigit (b.val/16),hexDigit (b.val%16)]

def textChar (b : Byte) : Byte := if 32 ≤ b.val ∧ b.val ≤ 128 then b else byte '.'

/- Column `j` of the hex part of a line. -/
def hexColumn (r : Bytes) (j : ℕ) : Bytes := (r[j]?).elim (ascii "   ") fun b => ascii " " ++ hexText b

def dumpLine (r : Bytes) : Bytes :=
  ascii "   " ++ (List.range 16).flatMap (hexColumn r) ++ ascii "         " ++ r.map textChar

/-! ### The rounds of print_packet -/

/- A round without what follows the last byte. -/
def printBody (packet i : ℕ) : List Cell :=
  (if i ≠ 0 ∧ i % 16 = 0 then rowText packet (i-16) 16 else []) ++
  (if i % 16 = 0 then [.text (ascii "   ")] else []) ++ [.text (ascii " "),.hex (packet+i)]

def printLast (packet i : ℕ) : List Cell :=
  List.replicate (15-i%16) (.text (ascii "   ")) ++ rowText packet (i-i%16) (i%16+1)

theorem printByte_body (packet size i : ℕ) :
    printByte packet size i = printBody packet i ++ if i = size-1 then printLast packet i else [] := rfl

theorem printPacket_body (packet n : ℕ) : printPacket packet (n+1 : ℕ) =
    (List.range (n+1)).flatMap (printBody packet) ++ printLast packet n := by
  have hbody : (List.range n).flatMap (printByte packet (n+1)) =
      (List.range n).flatMap (printBody packet) := by
    refine List.flatMap_congr fun i hi => ?_
    have hlt := List.mem_range.mp hi
    rw [printByte_body,if_neg (by omega),List.append_nil]
  have hlast : printByte packet (n+1) n = printBody packet n ++ printLast packet n := by
    rw [printByte_body,if_pos (by omega)]
  rw [printPacket,Int.toNat_natCast,List.range_succ,List.flatMap_append,List.flatMap_append,hbody,
    List.flatMap_singleton,List.flatMap_singleton,hlast,List.append_assoc]

/- The hex part of row `k` up to `count` bytes, and a whole row. -/
def hexCells (packet k count : ℕ) : List Cell :=
  [.text (ascii "   ")] ++
    (List.range' (16*k) count).flatMap fun i => [.text (ascii " "),.hex (packet+i)]

def rowCells (packet k count : ℕ) : List Cell :=
  hexCells packet k count ++ List.replicate (16-count) (.text (ascii "   ")) ++
    rowText packet (16*k) count

theorem hexCells_succ (packet k count : ℕ) : hexCells packet k (count+1) =
    hexCells packet k count ++ [.text (ascii " "),.hex (packet+(16*k+count))] := by
  rw [hexCells,hexCells,List.range'_concat,List.flatMap_append,List.flatMap_singleton,Nat.one_mul,
    List.append_assoc]

theorem hexCells_first (packet k : ℕ) : hexCells packet k 1 =
    [.text (ascii "   ")] ++ [.text (ascii " "),.hex (packet+16*k)] := by
  rw [hexCells,List.range'_one,List.flatMap_singleton]

/- Between two rounds: the rows before the current one are written whole, and the hex
part of the current row up to here. -/
theorem rounds_body (packet m : ℕ) : (List.range (m+1)).flatMap (printBody packet) =
    ((List.range (m/16)).flatMap fun k => rowCells packet k 16) ++ hexCells packet (m/16) (m%16+1) := by
  induction m with
  | zero => rfl
  | succ m ih =>
    rw [List.range_succ,List.flatMap_append,List.flatMap_singleton,ih,printBody]
    by_cases hrow : (m+1) % 16 = 0
    · have hfull : m%16+1 = 16 := by omega
      have hnext : (m+1)/16 = m/16+1 := by omega
      have hstart : m+1-16 = 16*(m/16) := by omega
      have hcell : m+1 = 16*(m/16+1) := by omega
      have hrowCells : rowCells packet (m/16) 16 =
          hexCells packet (m/16) 16 ++ rowText packet (16*(m/16)) 16 := by
        rw [rowCells,Nat.sub_self,List.replicate_zero,List.append_nil]
      rw [if_pos ⟨Nat.succ_ne_zero m,hrow⟩,if_pos hrow,hfull,hrow,hnext,List.range_succ,List.flatMap_append,
        List.flatMap_singleton,hrowCells,hexCells_first,← hcell,hstart]
      simp only [List.append_assoc]
    · have hcount : (m+1)%16 = m%16+1 := by omega
      have hsame : (m+1)/16 = m/16 := by omega
      have hcell : 16*(m/16)+(m%16+1) = m+1 := by omega
      rw [if_neg (fun h => hrow h.2),if_neg hrow,hcount,hsame,hexCells_succ packet (m/16) (m%16+1),hcell]
      simp only [List.nil_append,List.append_assoc]

/- A dump is its rows, one for every sixteen positions. -/
theorem printPacket_rows (packet n : ℕ) : printPacket packet n =
    (List.range ((n+15)/16)).flatMap fun k => rowCells packet k (min 16 (n-16*k)) := by
  cases n with
  | zero => rfl
  | succ m =>
    have hrows : (m+1+15)/16 = m/16+1 := by omega
    have hlast : min 16 (m+1-16*(m/16)) = m%16+1 := by omega
    have hstart : m-m%16 = 16*(m/16) := by omega
    have hmissing : 15-m%16 = 16-(m%16+1) := by omega
    have hfull : ((List.range (m/16)).flatMap fun k => rowCells packet k (min 16 (m+1-16*k))) =
        (List.range (m/16)).flatMap fun k => rowCells packet k 16 := by
      refine List.flatMap_congr fun k hk => ?_
      have hlt := List.mem_range.mp hk
      rw [show min 16 (m+1-16*k) = 16 by omega]
    rw [printPacket_body,rounds_body,printLast,hrows,List.range_succ,List.flatMap_append,
      List.flatMap_singleton,hfull,hlast,rowCells,hstart,hmissing]
    simp

/-! ### The lines -/

section Render
variable (a : Bytes)

theorem row_length (k : ℕ) : (row a k).length = min 16 (a.length-16*k) := by
  rw [row,List.length_take,List.length_drop]

theorem row_get {k j : ℕ} (h : j < (row a k).length) : (row a k)[j] = a.getD (16*k+j) nul := by
  have hlt := h
  rw [row_length] at hlt
  rw [List.getD_eq_getElem?_getD,List.getElem?_eq_getElem (by omega)]
  simp [row]

theorem row_eq (k : ℕ) : row a k =
    (List.range (row a k).length).map fun j => a.getD (16*k+j) nul := by
  refine List.ext_getElem (by rw [List.length_map,List.length_range]) fun j h _ => ?_
  rw [row_get a h,List.getElem_map,List.getElem_range]

/- The bytes that the cells of a row print. -/
def rendered (l : List Cell) : Bytes := l.flatMap (Cell.render fun i => a.getD i nul)

theorem rendered_append (l m : List Cell) : rendered a (l ++ m) = rendered a l ++ rendered a m :=
  List.flatMap_append

theorem render_char (i : ℕ) : Cell.render (fun i => a.getD i nul) (.char i) = [textChar (a.getD i nul)] := by
  rw [Cell.render,textChar]
  split_ifs <;> rfl

theorem rendered_text (k : ℕ) : rendered a (rowText 0 (16*k) (row a k).length) =
    ascii "         " ++ (row a k).map textChar ++ [lineFeed] := by
  have hchars : rendered a ((List.range' (16*k) (row a k).length).map fun j => .char (0+j)) =
      (row a k).map textChar := by
    rw [rendered,List.flatMap_map,List.range'_eq_map_range,List.flatMap_map]
    conv_rhs => rw [row_eq a k,List.map_map,List.map_eq_flatMap]
    refine List.flatMap_congr fun j _ => ?_
    rw [render_char,Nat.zero_add]
    rfl
  rw [rowText,rendered_append,rendered_append,hchars]
  rfl

theorem rendered_hex (k : ℕ) : rendered a (hexCells 0 k (row a k).length) =
    ascii "   " ++ (List.range (row a k).length).flatMap (hexColumn (row a k)) := by
  rw [hexCells,rendered_append,rendered,rendered,List.flatMap_assoc,List.range'_eq_map_range,
    List.flatMap_map]
  refine congrArg _ (List.flatMap_congr fun j hj => ?_)
  have hlt := List.mem_range.mp hj
  rw [hexColumn,List.getElem?_eq_getElem hlt,row_get a hlt,Nat.zero_add]
  rfl

/- The blanks stand where the missing columns are. -/
theorem rendered_missing (k n : ℕ) : rendered a (List.replicate n (.text (ascii "   "))) =
    ((List.range n).map ((row a k).length+·)).flatMap (hexColumn (row a k)) := by
  induction n with
  | zero => rfl
  | succ n ih =>
    rw [List.replicate_succ',rendered_append,ih,List.range_succ,List.map_append,List.flatMap_append,
      List.map_singleton,List.flatMap_singleton,hexColumn,List.getElem?_eq_none (Nat.le_add_right _ n)]
    rfl

/- A row is printed as its line. -/
theorem rendered_row (k : ℕ) :
    rendered a (rowCells 0 k (row a k).length) = dumpLine (row a k) ++ [lineFeed] := by
  have hcolumns : List.range 16 = List.range (row a k).length ++
      (List.range (16-(row a k).length)).map ((row a k).length+·) := by
    rw [← List.range_add,Nat.add_sub_cancel' (by rw [row_length]; exact Nat.min_le_left _ _)]
  rw [rowCells,rendered_append,rendered_append,rendered_hex,rendered_missing a k,rendered_text,dumpLine,
    hcolumns,List.flatMap_append]
  simp only [List.append_assoc]

/- The dump is the lines of its rows. -/
theorem hexDump_lines : hexDump a =
    unlines lineFeed ((List.range ((a.length+15)/16)).map fun k => dumpLine (row a k)) := by
  rw [hexDump,printPacket_rows,List.flatMap_assoc,unlines,List.flatMap_map]
  refine List.flatMap_congr fun k _ => ?_
  rw [← row_length]
  exact rendered_row a k

/-! ### Columns -/

variable {a} (r : Bytes)

theorem hexColumn_length (j : ℕ) : (hexColumn r j).length = 3 := by
  unfold hexColumn
  cases r[j]? <;> rfl

/- Column `j` of the hex part stands at the same offset on every line. -/
theorem dumpLine_column {j : ℕ} (hj : j < 16) : ((dumpLine r).drop (3+3*j)).take 3 = hexColumn r j := by
  have hstart : (ascii "   ").length = 3 := rfl
  rw [dumpLine,List.append_assoc,List.append_assoc,← hstart,List.drop_length_add_append]
  exact column (hexColumn_length r) hj _

/- And so does the text column. -/
theorem dumpLine_text : (dumpLine r).drop 60 = r.map textChar := by
  have hlen : ((ascii "   ") ++ (List.range 16).flatMap (hexColumn r) ++ ascii "         ").length = 60 := by
    rw [List.length_append,List.length_append,length_columns (hexColumn_length r)]
    rfl
  rw [dumpLine,← hlen,List.drop_left]

theorem hexDigit_lineFeed {n : ℕ} (h : n < 16) : hexDigit n ≠ lineFeed := by
  revert n
  decide +kernel

theorem textChar_lineFeed (b : Byte) : textChar b ≠ lineFeed := by
  unfold textChar
  split_ifs with hb
  · intro he
    rw [he] at hb
    exact absurd hb.1 (by decide)
  · decide

theorem hexColumn_lineFeed (j : ℕ) : lineFeed ∉ hexColumn r j := by
  unfold hexColumn
  cases r[j]? with
  | none => decide
  | some b =>
    have hhigh := hexDigit_lineFeed (n := b.val/16) (by omega)
    have hlow := hexDigit_lineFeed (n := b.val%16) (by omega)
    simp [hexText,hhigh.symm,hlow.symm]
    decide

theorem dumpLine_lineFeed : lineFeed ∉ dumpLine r := by
  simp only [dumpLine,List.mem_append,List.mem_flatMap,List.mem_map,not_or,not_exists,not_and]
  exact ⟨⟨⟨by decide,fun j _ => hexColumn_lineFeed r j⟩,by decide⟩,fun b _ => textChar_lineFeed b⟩

/-! ### Reading a dump -/

def hexValue (c : Byte) : ℕ := (ascii "0123456789ABCDEF").idxOf c

/- A blank column holds no byte. -/
def undumpColumn : Bytes → Option Byte
  | [_,h,l] => if h = byte ' ' then none else
    some ⟨(hexValue h*16+hexValue l) % 256,Nat.mod_lt _ (by decide)⟩
  | _ => none

def undumpLine (line : Bytes) : Bytes :=
  (List.range 16).filterMap fun j => undumpColumn ((line.drop (3+3*j)).take 3)

def undump (output : Bytes) : Bytes := (lines lineFeed output).flatMap undumpLine

theorem hexValue_hexDigit {n : ℕ} (h : n < 16) : hexValue (hexDigit n) = n ∧ hexDigit n ≠ byte ' ' := by
  revert n
  decide +kernel

theorem undumpColumn_hexColumn (j : ℕ) : undumpColumn (hexColumn r j) = r[j]? := by
  unfold hexColumn
  cases r[j]? with
  | none => rfl
  | some b =>
    obtain ⟨hhigh,hblank⟩ := hexValue_hexDigit (n := b.val/16) (by omega)
    obtain ⟨hlow,_⟩ := hexValue_hexDigit (n := b.val%16) (by omega)
    change (if hexDigit (b.val/16) = byte ' ' then none else some _) = some b
    rw [if_neg hblank]
    refine congrArg some (Fin.ext ?_)
    change (hexValue (hexDigit (b.val/16))*16+hexValue (hexDigit (b.val%16))) % 256 = b.val
    rw [hhigh,hlow]
    omega

theorem filterMap_get {r : Bytes} {n : ℕ} (h : r.length ≤ n) : (List.range n).filterMap (r[·]?) = r := by
  induction r generalizing n with
  | nil => simp
  | cons b r ih =>
    obtain ⟨m,rfl⟩ := Nat.exists_eq_succ_of_ne_zero (n := n) (by
      rintro rfl
      cases h)
    have hfirst : (b :: r)[0]? = some b := rfl
    rw [List.range_succ_eq_map,List.filterMap_cons_some hfirst,List.filterMap_map]
    exact congrArg (b :: ·) (ih (Nat.le_of_succ_le_succ h))

theorem undumpLine_dumpLine (h : r.length ≤ 16) : undumpLine (dumpLine r) = r := by
  have hcolumns : ∀ j ∈ List.range 16, undumpColumn (((dumpLine r).drop (3+3*j)).take 3) = r[j]? := by
    intro j hj
    rw [dumpLine_column r (List.mem_range.mp hj),undumpColumn_hexColumn]
  rw [undumpLine,List.filterMap_congr hcolumns,filterMap_get h]

variable (a)

theorem lines_hexDump : lines lineFeed (hexDump a) =
    (List.range ((a.length+15)/16)).map fun k => dumpLine (row a k) := by
  rw [hexDump_lines]
  refine lines_unlines fun l hl => ?_
  obtain ⟨k,_,rfl⟩ := List.mem_map.mp hl
  exact dumpLine_lineFeed _

theorem flatMap_row (n : ℕ) : (List.range n).flatMap (row a) = a.take (16*n) := by
  induction n with
  | zero => rfl
  | succ n ih =>
    rw [List.range_succ,List.flatMap_append,List.flatMap_singleton,ih,row,Nat.mul_succ,List.take_add]

theorem undump_hexDump : undump (hexDump a) = a := by
  rw [undump,lines_hexDump,List.flatMap_map]
  have hrows : ∀ k ∈ List.range ((a.length+15)/16), undumpLine (dumpLine (row a k)) = row a k :=
    fun k _ => undumpLine_dumpLine _ (by rw [row_length]; exact Nat.min_le_left _ _)
  rw [List.flatMap_congr hrows,flatMap_row,List.take_of_length_le (by omega)]

/-- Every array is printed on `⌈n/16⌉` lines. On line `k` the bytes of the row stand in
its columns, the missing columns are blank, and the text column starts at offset 60 and
shows one character for each byte. The array is read back from the dump, and no other
array has the same dump. -/
theorem print_packet_lossless :
    (lines lineFeed (hexDump a)).length = (a.length+15)/16 ∧
    unlines lineFeed (lines lineFeed (hexDump a)) = hexDump a ∧
    (∀ k line, (lines lineFeed (hexDump a))[k]? = some line →
      (∀ j < 16, (line.drop (3+3*j)).take 3 =
        if 16*k+j < a.length then ascii " " ++ hexText (a.getD (16*k+j) nul) else ascii "   ") ∧
      line.drop 60 = ((a.drop (16*k)).take 16).map textChar ∧ lineFeed ∉ line) ∧
    undump (hexDump a) = a ∧ ∀ b, hexDump b = hexDump a → b = a := by
  have hlines := lines_hexDump a
  refine ⟨?_,?_,?_,undump_hexDump a,?_⟩
  · rw [hlines,List.length_map,List.length_range]
  · rw [hlines,← hexDump_lines]
  · intro k line hk
    obtain ⟨i,hi,rfl⟩ : ∃ i, (List.range ((a.length+15)/16))[k]? = some i ∧ dumpLine (row a i) = line := by
      rw [hlines,List.getElem?_map] at hk
      exact Option.map_eq_some_iff.mp hk
    obtain ⟨_,rfl⟩ := List.getElem?_eq_some_iff.mp hi
    rw [List.getElem_range]
    refine ⟨fun j hj => ?_,dumpLine_text _,dumpLine_lineFeed _⟩
    rw [dumpLine_column _ hj,hexColumn]
    split_ifs with hin
    · have hlt : j < (row a k).length := by
        rw [row_length]
        omega
      rw [List.getElem?_eq_getElem hlt,row_get a hlt]
      rfl
    · have hout : (row a k).length ≤ j := by
        rw [row_length]
        omega
      rw [List.getElem?_eq_none hout]
      rfl
  · intro b hb
    rw [← undump_hexDump b,hb,undump_hexDump a]

example : lines lineFeed (hexDump (ascii "Hi\n")) =
    [ascii "    48 69 0A" ++ List.replicate 48 (byte ' ') ++ ascii "Hi."] := by decide +kernel

end Render
end TcpProjects.PacketInterceptor
