import TcpProjects.Base.CString
import Mathlib.Data.List.Range

/-! # The hex dump of the packet interceptor

What `print_packet` writes is a list of cells: fixed text, and cells that name the
position in the packet buffer from which they are printed. It prints every
position of its range in both columns, once and in order. -/

namespace TcpProjects.PacketInterceptor

/- `hex` is a byte printed with `%02X` and `char` one of the text column. -/
inductive Cell where
  | text (s : Bytes)
  | hex (i : ℕ)
  | char (i : ℕ)
  deriving DecidableEq

namespace Cell

def hexDigit (n : ℕ) : Byte := (ascii "0123456789ABCDEF").getD n nul

def render (packet : ℕ → Byte) : Cell → Bytes
  | .text s => s
  | .hex i => [hexDigit ((packet i).val/16),hexDigit ((packet i).val%16)]
  | .char i => if 32 ≤ (packet i).val ∧ (packet i).val ≤ 128 then [packet i] else [byte '.']

/- The position of a cell of the hex column, and of one of the text column. -/
def hexCell : Cell → Option ℕ
  | .hex i => some i
  | _ => none

def charCell : Cell → Option ℕ
  | .char i => some i
  | _ => none

/- The position of the buffer that is read for a cell. -/
def position : Cell → Option ℕ
  | .text _ => none
  | .hex i => some i
  | .char i => some i

end Cell

open Cell

/-! ### print_packet -/

def blanks : Cell := .text (ascii "         ")
def newline : Cell := .text (ascii "\n")

/- The text column of a row: `count` characters from `first` on. -/
def rowText (packet first count : ℕ) : List Cell :=
  [blanks] ++ (List.range' first count).map (fun j => .char (packet+j)) ++ [newline]

/- One round of the loop of `print_packet`; a row's text is printed at the start of the
next row, and the last one's after the last byte, behind blanks for the missing cells. -/
def printByte (packet size i : ℕ) : List Cell :=
  (if i ≠ 0 ∧ i % 16 = 0 then rowText packet (i-16) 16 else []) ++
  (if i % 16 = 0 then [.text (ascii "   ")] else []) ++
  [.text (ascii " "),.hex (packet+i)] ++
  if i = size-1 then
    List.replicate (15-i%16) (.text (ascii "   ")) ++ rowText packet (i-i%16) (i%16+1)
  else []

/- `packet` is the position the pointer stands at; for a negative size nothing is printed. -/
def printPacket (packet : ℕ) (size : ℤ) : List Cell :=
  (List.range size.toNat).flatMap (printByte packet size.toNat)

theorem rowText_hex (packet first count : ℕ) : (rowText packet first count).filterMap hexCell = [] := by
  have hmap : ((List.range' first count).map fun j => Cell.char (packet+j)).filterMap hexCell = [] := by
    rw [List.filterMap_map,List.filterMap_eq_nil_iff]
    intro j _
    rfl
  simp only [rowText,List.filterMap_append,hmap]
  rfl

theorem rowText_char (packet first count : ℕ) :
    (rowText packet first count).filterMap charCell = List.range' (packet+first) count := by
  have hmap : ((List.range' first count).map fun j => Cell.char (packet+j)).filterMap charCell =
      List.range' (packet+first) count := by
    rw [List.filterMap_map,← List.map_add_range',← List.filterMap_eq_map]
    rfl
  have hblanks : [blanks].filterMap charCell = [] := rfl
  have hnewline : [newline].filterMap charCell = [] := rfl
  rw [rowText,List.filterMap_append,List.filterMap_append,hmap,hblanks,hnewline,List.nil_append,
    List.append_nil]

theorem printByte_hex (packet size i : ℕ) : (printByte packet size i).filterMap hexCell = [packet+i] := by
  have hindent : [Cell.text (ascii "   ")].filterMap hexCell = [] := rfl
  have hcell : [Cell.text (ascii " "),.hex (packet+i)].filterMap hexCell = [packet+i] := rfl
  have hmissing : ∀ n, (List.replicate n (Cell.text (ascii "   "))).filterMap hexCell = [] :=
    fun n => List.filterMap_replicate_of_none rfl
  simp only [printByte,List.filterMap_append,hcell]
  split_ifs <;> simp [rowText_hex,hindent,hmissing]

/- What a round adds to the text column. -/
theorem printByte_char (packet size i : ℕ) : (printByte packet size i).filterMap charCell =
    (if i ≠ 0 ∧ i % 16 = 0 then List.range' (packet+(i-16)) 16 else []) ++
    if i = size-1 then List.range' (packet+(i-i%16)) (i%16+1) else [] := by
  have hindent : [Cell.text (ascii "   ")].filterMap charCell = [] := rfl
  have hcell : [Cell.text (ascii " "),.hex (packet+i)].filterMap charCell = [] := rfl
  have hmissing : ∀ n, (List.replicate n (Cell.text (ascii "   "))).filterMap charCell = [] :=
    fun n => List.filterMap_replicate_of_none rfl
  simp only [printByte,List.filterMap_append,hcell]
  split_ifs <;> simp [rowText_char,hindent,hmissing]

/- The hex column. -/
theorem printPacket_hex (packet : ℕ) (size : ℤ) :
    (printPacket packet size).filterMap hexCell = List.range' packet size.toNat := by
  simp only [printPacket,List.filterMap_flatMap,printByte_hex]
  rw [← List.map_eq_flatMap,List.range'_eq_map_range]

/- Before the last byte, the text column stands at the start of the row. -/
theorem rows_char (packet size k : ℕ) (hk : k < size) :
    ((List.range k).flatMap (printByte packet size)).filterMap charCell =
      List.range' packet ((k-1)/16*16) := by
  induction k with
  | zero => rfl
  | succ k ih =>
    rw [List.range_succ,List.flatMap_append,List.filterMap_append,ih (by omega),
      List.flatMap_singleton,printByte_char,if_neg (by omega : k ≠ size-1),List.append_nil]
    split_ifs with hrow
    · have hlast : (k-1)/16*16 = k-16 := by omega
      have hnext : (k+1-1)/16*16 = k-16+16 := by omega
      rw [hlast,hnext,List.range'_append_1]
    · have hsame : (k+1-1)/16*16 = (k-1)/16*16 := by omega
      rw [hsame,List.append_nil]

/- The text column. -/
theorem printPacket_char (packet : ℕ) (size : ℤ) :
    (printPacket packet size).filterMap charCell = List.range' packet size.toNat := by
  unfold printPacket
  generalize size.toNat = n
  cases n with
  | zero => rfl
  | succ n =>
    rw [List.range_succ,List.flatMap_append,List.filterMap_append,rows_char packet _ n (by omega),
      List.flatMap_singleton,printByte_char,if_pos (by omega : n = n+1-1)]
    split_ifs with hrow
    · have hlast : (n-1)/16*16 = n-16 := by omega
      have hrest : n-n%16 = n-16+16 := by omega
      have hsize : n+1 = n-16+16+(n%16+1) := by omega
      rw [hlast,hrest,← List.append_assoc,List.range'_append_1,List.range'_append_1,← hsize]
    · have hlast : (n-1)/16*16 = n-n%16 := by omega
      have hsize : n+1 = n-n%16+(n%16+1) := by omega
      rw [hlast,List.nil_append,List.range'_append_1,← hsize]

/- A dump is printed from the positions of its range. -/
theorem printPacket_position {packet : ℕ} {size : ℤ} {x : Cell} (hx : x ∈ printPacket packet size)
    {i : ℕ} (hi : x.position = some i) : packet ≤ i ∧ i < packet+size.toNat := by
  cases x with
  | text s => cases hi
  | hex j =>
    have hm : i ∈ (printPacket packet size).filterMap hexCell := List.mem_filterMap.mpr ⟨_,hx,hi⟩
    rwa [printPacket_hex,List.mem_range'_1] at hm
  | char j =>
    have hm : i ∈ (printPacket packet size).filterMap charCell := List.mem_filterMap.mpr ⟨_,hx,hi⟩
    rwa [printPacket_char,List.mem_range'_1] at hm

end TcpProjects.PacketInterceptor
