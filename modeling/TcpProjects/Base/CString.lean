import Mathlib.Data.List.Basic
import Mathlib.Data.List.TakeWhile
import Mathlib.Data.Nat.Digits.Defs

/-! # Bytes, C strings and `sprintf` into arrays

A C string function sees an array up to its first NUL (`cText`). `%d` of a
non-negative number prints `decimal`. `Buffer n` is a `char[n]`: whatever is
stored, exactly `n` bytes belong to it. -/

namespace TcpProjects

abbrev Byte := Fin 256
abbrev Bytes := List Byte

/-- The terminator of C strings. -/
def nul : Byte := 0

def byte (c : Char) : Byte := ⟨c.toNat % 256,Nat.mod_lt _ (by decide)⟩
def ascii (s : String) : Bytes := s.toList.map byte

/-! ### C strings -/

/-- The string a `char *` denotes: the bytes before the first NUL. -/
def cText (b : Bytes) : Bytes := b.takeWhile (· ≠ 0)

def NulFree (b : Bytes) : Prop := ∀ c ∈ b, c ≠ 0

instance (b : Bytes) : Decidable (NulFree b) := inferInstanceAs (Decidable (∀ c ∈ b, c ≠ 0))

theorem NulFree.append {a b : Bytes} (ha : NulFree a) (hb : NulFree b) : NulFree (a ++ b) := by
  intro c hc
  rcases List.mem_append.mp hc with hc | hc
  · exact ha c hc
  · exact hb c hc

theorem cText_nulFree (b : Bytes) : NulFree (cText b) := by
  intro c hc
  simpa using List.mem_takeWhile_imp hc

theorem cText_append_nul {a : Bytes} (h : NulFree a) (r : Bytes) : cText (a ++ 0 :: r) = a := by
  unfold cText
  rw [List.takeWhile_append_of_pos (by simpa [NulFree] using h)]
  simp

theorem cText_of_nulFree {a : Bytes} (h : NulFree a) : cText a = a := by
  unfold cText
  exact List.takeWhile_eq_self_iff.mpr (by simpa [NulFree] using h)

/- A string function sees nothing behind a terminator. -/
theorem cText_stop (a r : Bytes) : cText (a ++ nul :: r) = cText a := by
  induction a with
  | nil => rfl
  | cons c a ih =>
    unfold cText at ih ⊢
    rw [List.cons_append,List.takeWhile_cons,List.takeWhile_cons,ih]

/- Storing the terminator behind a chunk does not change the text of a chunk
that holds a NUL itself. -/
theorem cText_terminated (a : Bytes) : cText (a ++ [nul]) = cText a := cText_stop a []

theorem cText_head (c : Byte) (b : Bytes) (hc : c ≠ 0) : cText (c :: b) = c :: cText b := by
  unfold cText
  rw [List.takeWhile_cons_of_pos (by simpa using hc)]

theorem head_of_cText {b r : Bytes} {c : Byte} (h : cText b = c :: r) : b.head? = some c := by
  cases b with
  | nil => cases h
  | cons d b =>
    by_cases hd : d = 0
    · subst hd
      cases h
    · rw [cText_head d b hd] at h
      rw [(List.cons.inj h).1]
      rfl

/-! ### Decimal numbers -/

/-- `%d` of a number that is not negative. -/
def decimal (n : ℕ) : Bytes := (Nat.toDigits 10 n).map byte

def IsDigit (b : Byte) : Prop := 48 ≤ b.val ∧ b.val ≤ 57

instance (b : Byte) : Decidable (IsDigit b) :=
  inferInstanceAs (Decidable (48 ≤ b.val ∧ b.val ≤ 57))

theorem toDigits_char {n : ℕ} {c : Char} (h : c ∈ Nat.toDigits 10 n) :
    48 ≤ c.toNat ∧ c.toNat ≤ 57 := by
  have hd := Nat.isDigit_of_mem_toDigits (by decide) (by decide) h
  simp only [Char.isDigit,Bool.and_eq_true,decide_eq_true_eq,ge_iff_le,UInt32.le_iff_toNat_le] at hd
  exact hd

theorem decimal_digit {n : ℕ} {b : Byte} (h : b ∈ decimal n) : IsDigit b := by
  obtain ⟨c,hc,rfl⟩ := List.mem_map.mp h
  have hd := toDigits_char hc
  simp only [IsDigit,byte]
  omega

theorem decimal_nulFree (n : ℕ) : NulFree (decimal n) := by
  intro b hb h0
  have hd := decimal_digit hb
  rw [h0] at hd
  exact absurd hd.1 (by decide)

theorem decimal_length_le {n k : ℕ} (hk : 0 < k) : (decimal n).length ≤ k ↔ n < 10^k := by
  rw [decimal,List.length_map]
  exact Nat.length_toDigits_le_iff (by decide) hk

theorem decimal_injective : Function.Injective decimal := by
  intro n m h
  have inj {k : ℕ} {c : Char} (hc : c ∈ Nat.toDigits 10 k) : c.toNat % 256 = c.toNat :=
    Nat.mod_eq_of_lt (by have hd := toDigits_char hc; omega)
  have hl : Nat.toDigits 10 n = Nat.toDigits 10 m := by
    have hlen := congrArg List.length h
    simp only [decimal,List.length_map] at hlen
    refine List.ext_getElem hlen fun i hi hj => ?_
    have he : byte (Nat.toDigits 10 n)[i] = byte (Nat.toDigits 10 m)[i] := by
      have hg := congrArg (fun l => l[i]?) h
      simpa [decimal,hi,hj] using hg
    have hv := congrArg Fin.val he
    simp only [byte,inj (List.getElem_mem hi),inj (List.getElem_mem hj)] at hv
    exact Char.toNat_inj.mp hv
  simpa using congrArg (fun l => Nat.ofDigitChars 10 l 0) hl

/- A printed number is read back from a text in which no digit follows it. -/
theorem decimal_append_inj {n m : ℕ} {c d : Byte} {x y : Bytes} (hc : ¬ IsDigit c)
    (hd : ¬ IsDigit d) (h : decimal n ++ c :: x = decimal m ++ d :: y) :
    n = m ∧ c = d ∧ x = y := by
  have split (k : ℕ) (e : Byte) (z : Bytes) (he : ¬ IsDigit e) :
      (decimal k ++ e :: z).takeWhile (fun b => decide (IsDigit b)) = decimal k := by
    rw [List.takeWhile_append_of_pos fun b hb => by simpa using decimal_digit hb]
    simp [he]
  have hn : decimal n = decimal m := by
    rw [← split n c x hc,h,split m d y hd]
  rw [hn] at h
  have ht := List.append_cancel_left h
  exact ⟨decimal_injective hn,(List.cons.inj ht).1,(List.cons.inj ht).2⟩

/-! ### Arrays -/

/-- The contents of a `char[n]`. -/
def Buffer (n : ℕ) := { b : Bytes // b.length = n }

instance {n : ℕ} : DecidableEq (Buffer n) := inferInstanceAs (DecidableEq { b : Bytes // b.length = n })

def Buffer.zero (n : ℕ) : Buffer n := ⟨List.replicate n 0,List.length_replicate ..⟩

/-- The array after `sprintf` has stored `text` and its terminator: the bytes
behind the terminator are the old ones. -/
def Buffer.sprintf {n : ℕ} (b : Buffer n) (text : Bytes) : Buffer n :=
  ⟨(text ++ 0 :: b.val.drop (text.length+1)).take n,by
    have hb := b.property
    simp only [List.length_take,List.length_append,List.length_cons,List.length_drop]
    omega⟩

theorem Buffer.cText_sprintf {n : ℕ} (b : Buffer n) {text : Bytes} (h : NulFree text)
    (hfit : text.length < n) : cText (b.sprintf text).val = text := by
  have he : (b.sprintf text).val = text ++ 0 :: (b.val.drop (text.length+1)).take (n-text.length-1) := by
    simp only [sprintf,List.take_append,List.take_of_length_le (Nat.le_of_lt hfit)]
    obtain ⟨k,hk⟩ : ∃ k, n-text.length = k+1 := ⟨n-text.length-1,by omega⟩
    rw [hk,List.take_succ_cons]
    rfl
  rw [he,cText_append_nul h]

theorem Buffer.sprintf_val {n : ℕ} (b : Buffer n) (text : Bytes) :
    (b.sprintf text).val = (text ++ 0 :: b.val.drop (text.length+1)).take n := rfl

/- Of a text that does not fit, a string function sees the part within the array. -/
theorem Buffer.cText_sprintf_take {n : ℕ} (b : Buffer n) {text : Bytes} (h : NulFree text) :
    cText (b.sprintf text).val = text.take n := by
  rcases Nat.lt_or_ge text.length n with hfit | hlong
  · rw [b.cText_sprintf h hfit,List.take_of_length_le (Nat.le_of_lt hfit)]
  · rw [b.sprintf_val,List.take_append_of_le_length hlong]
    exact cText_of_nulFree fun c hc => h c (List.mem_of_mem_take hc)

/- Other contents: every byte is different. -/
def Buffer.other {n : ℕ} (b : Buffer n) : Buffer n :=
  ⟨b.val.map (· + 1),by rw [List.length_map]; exact b.property⟩

/- The array after `read` has stored a chunk over its start. -/
def Buffer.store {n : ℕ} (b : Buffer n) (chunk : Bytes) : Buffer n :=
  ⟨(chunk ++ b.val.drop chunk.length).take n,by
    have hb := b.property
    simp only [List.length_take,List.length_append,List.length_drop]
    omega⟩

/- Assignment to an element; one behind the array changes nothing of it. -/
def Buffer.set {n : ℕ} (b : Buffer n) (i : ℕ) (c : Byte) : Buffer n :=
  ⟨b.val.set i c,by rw [List.length_set]; exact b.property⟩

theorem Buffer.set_val {n : ℕ} (b : Buffer n) (i : ℕ) (c : Byte) : (b.set i c).val = b.val.set i c := rfl

theorem Buffer.store_val {n : ℕ} (b : Buffer n) {chunk : Bytes} (h : chunk.length ≤ n) :
    (b.store chunk).val = chunk ++ b.val.drop chunk.length := by
  have hb := b.property
  exact List.take_of_length_le (by simp only [List.length_append,List.length_drop]; omega)

/- Nothing of the old contents is seen behind a terminated chunk. -/
theorem Buffer.cText_terminate {n : ℕ} (b : Buffer n) {chunk : Bytes} (h : chunk.length ≤ n) :
    cText ((b.store chunk).set chunk.length nul).val = cText chunk := by
  have he : ((b.store chunk).set chunk.length nul).val =
      chunk ++ (b.val.drop chunk.length).set 0 nul := by
    rw [set_val,b.store_val h,List.set_append_right _ _ (Nat.le_refl chunk.length),Nat.sub_self]
  rw [he]
  cases b.val.drop chunk.length with
  | nil => rw [List.set_nil,List.append_nil]
  | cons c r => exact cText_stop chunk r

/- What a string function sees of the stored text starts as the text does. -/
theorem Buffer.cText_sprintf_head {n : ℕ} (b : Buffer (n+1)) {c : Byte} (text : Bytes) (hc : c ≠ 0) :
    ∃ r, cText (b.sprintf (c :: text)).val = c :: r := by
  simp only [sprintf,List.cons_append,List.take_succ_cons]
  exact ⟨_,cText_head c _ hc⟩

/-! ### Stores and the bounds of an array -/

/- Bytes that are stored from an index of an array on. -/
structure Write where
  index : ℕ
  bytes : Bytes
  deriving DecidableEq

/-- The store stays within an array of `n` bytes. -/
def Write.Inside (w : Write) (n : ℕ) : Prop := w.index+w.bytes.length ≤ n

instance (w : Write) (n : ℕ) : Decidable (w.Inside n) :=
  inferInstanceAs (Decidable (w.index+w.bytes.length ≤ n))

/- The array after a store, of which only the part within it is seen. -/
def Buffer.write {n : ℕ} (b : Buffer n) (w : Write) : Buffer n :=
  ⟨(b.val.take w.index ++ (w.bytes ++ b.val.drop (w.index+w.bytes.length))).take n,by
    have hb := b.property
    simp only [List.length_take,List.length_append,List.length_drop]
    omega⟩

theorem Buffer.write_val {n : ℕ} (b : Buffer n) (w : Write) : (b.write w).val =
    (b.val.take w.index ++ (w.bytes ++ b.val.drop (w.index+w.bytes.length))).take n := rfl

/- The bytes of the store stand in the array as far as it reaches. -/
theorem Buffer.write_inside {n : ℕ} (b : Buffer n) {w : Write} {k : ℕ} (hk : k < w.bytes.length)
    (hn : w.index+k < n) : (b.write w).val[w.index+k]? = w.bytes[k]? := by
  have hb := b.property
  have hindex : (b.val.take w.index).length = w.index := by
    rw [List.length_take]
    omega
  rw [b.write_val,List.getElem?_take_of_lt hn,List.getElem?_append_right (by omega),hindex,
    Nat.add_sub_cancel_left,List.getElem?_append_left hk]

theorem Buffer.write_outside {n : ℕ} (b : Buffer n) {w : Write} {i : ℕ}
    (hi : i < w.index ∨ w.index+w.bytes.length ≤ i) : (b.write w).val[i]? = b.val[i]? := by
  have hb := b.property
  rcases Nat.lt_or_ge i n with hn | hn
  · rw [b.write_val,List.getElem?_take_of_lt hn]
    rcases hi with hi | hi
    · have hin : i < (b.val.take w.index).length := by
        rw [List.length_take]
        omega
      rw [List.getElem?_append_left hin,List.getElem?_take_of_lt hi]
    · have hindex : (b.val.take w.index).length = w.index := by
        rw [List.length_take]
        omega
      have hback : w.index+w.bytes.length+(i-w.index-w.bytes.length) = i := by omega
      rw [List.getElem?_append_right (by omega),hindex,List.getElem?_append_right (by omega),
        List.getElem?_drop,hback]
  · have hw := (b.write w).property
    rw [List.getElem?_eq_none (by omega),List.getElem?_eq_none (by omega)]

theorem Buffer.sprintf_write {n : ℕ} (b : Buffer n) (text : Bytes) :
    b.sprintf text = b.write ⟨0,text ++ [nul]⟩ := by
  apply Subtype.ext
  rw [b.sprintf_val,b.write_val]
  simp [nul]

theorem Buffer.store_write {n : ℕ} (b : Buffer n) (chunk : Bytes) : b.store chunk = b.write ⟨0,chunk⟩ := by
  apply Subtype.ext
  rw [b.write_val]
  simp [store]

theorem Buffer.set_write {n : ℕ} (b : Buffer n) (i : ℕ) (c : Byte) : b.set i c = b.write ⟨i,[c]⟩ := by
  obtain ⟨l,hl⟩ := b
  apply Subtype.ext
  change l.set i c = (l.take i ++ c :: l.drop (i+1)).take n
  rcases Nat.lt_or_ge i l.length with hlt | hge
  · rw [List.set_eq_take_append_cons_drop,if_pos hlt]
    refine (List.take_of_length_le ?_).symm
    simp only [List.length_append,List.length_take,List.length_cons,List.length_drop]
    omega
  · have htake : l.take i = l := List.take_of_length_le hge
    rw [List.set_eq_of_length_le hge,htake,List.take_append_of_le_length (Nat.le_of_eq hl.symm)]
    exact (List.take_of_length_le (Nat.le_of_eq hl)).symm

end TcpProjects
