import TcpProjects.Base.Numerals
import TcpProjects.Lib.TCPServer

/-! # The two ways to set a server's address

The constructor of `TCPServer` reads the address with `inet_pton`, `setServer` with
`inet_addr`, and neither looks at whether it could be read. The bytes of `sin_addr` and
`sin_port` are taken as they stand, the first one most significant. -/

namespace TcpProjects.Lib
open ChatServer Numerals

/-! ### inet_pton and inet_addr -/

def zero : Byte := byte '0'
def dot : Byte := byte '.'

/- `ddd` of the standard dotted-decimal form. A zero stands alone or behind other digits. -/
def decimalPart (s : Bytes) : Option ℕ :=
  if s.length ≤ 3 ∧ (s.head? = some zero → s = [zero]) then (numeral 10 s).filter (· ≤ 255) else none

def inetPton (address : Bytes) : Option ℕ :=
  match address.splitOn dot with
  | [a,b,c,d] => (decimalPart a).bind fun a => (decimalPart b).bind fun b =>
    (decimalPart c).bind fun c => (decimalPart d).map fun d => ((a*256+b)*256+c)*256+d
  | _ => none

/- A number as in C: hexadecimal behind `0x`, else octal behind `0`. -/
def numberPart (s : Bytes) : Option ℕ :=
  if s.head? = some zero then
    if s[1]? = some (byte 'x') ∨ s[1]? = some (byte 'X') then numeral 16 (s.drop 2) else numeral 8 s
  else numeral 10 s

/- The last part fills all bytes that are left. -/
def joinParts : ℕ → List Bytes → Option ℕ
  | 0,_ => none
  | _,[] => none
  | k+1,[p] => (numberPart p).filter (· < 256^(k+1))
  | k+1,p :: q :: parts => ((numberPart p).filter (· < 256)).bind fun a =>
    (joinParts k (q :: parts)).map fun r => a*256^k+r

def inetAddr (address : Bytes) : Option ℕ := joinParts 4 (address.splitOn dot)

/-! ### The constructor and setServer -/

/- Conversion to `unsigned short` and to `short`. -/
def unsignedShort (z : ℤ) : ℤ := (BitVec.ofInt 16 z).toNat
def short (z : ℤ) : ℤ := (BitVec.ofInt 16 z).toInt

/- The parameter is a `uint16_t`. -/
def htons (z : ℤ) : BitVec 16 := BitVec.ofInt 16 z

/- `inet_pton` stores nothing if it fails, so that the zeros of `memset` stay. -/
def TCPServer.new (address : Bytes) (port : ℤ) : TCPServer where
  server := ⟨BitVec.ofNat 32 ((inetPton address).getD 0),htons (unsignedShort port)⟩
  serverSockets := .empty
  clientSockets := .empty

/- `inet_addr` returns -1 if it fails. -/
def TCPServer.setServer (t : TCPServer) (address : Bytes) (port : ℤ) : TCPServer :=
  { t with server := ⟨BitVec.ofNat 32 ((inetAddr address).getD (2^32-1)),htons (short port)⟩ }

theorem unsignedShort_htons (z : ℤ) : htons (unsignedShort z) = htons z := by
  unfold htons unsignedShort
  rw [BitVec.ofInt_natCast,BitVec.ofNat_toNat,BitVec.setWidth_eq]

theorem short_htons (z : ℤ) : htons (short z) = htons z := BitVec.ofInt_toInt

theorem decimalPart_eq_some {s : Bytes} {v : ℕ} : decimalPart s = some v ↔
    (s.length ≤ 3 ∧ (s.head? = some zero → s = [zero])) ∧ numeral 10 s = some v ∧ v ≤ 255 := by
  unfold decimalPart
  split_ifs with hform
  · rw [Option.filter_eq_some_iff,decide_eq_true_eq]
    exact (and_iff_right hform).symm
  · exact ⟨fun h => (by cases h),fun h => absurd h.1 hform⟩

theorem decimalPart_le {s : Bytes} {v : ℕ} (h : decimalPart s = some v) : v ≤ 255 :=
  (decimalPart_eq_some.mp h).2.2

/- Without leading zeros, C reads the same number. -/
theorem numberPart_decimal {s : Bytes} {v : ℕ} (h : decimalPart s = some v) : numberPart s = some v := by
  obtain ⟨⟨_,hleading⟩,hnumeral,_⟩ := decimalPart_eq_some.mp h
  by_cases hzero : s.head? = some zero
  · obtain rfl := hleading hzero
    exact (show numberPart [zero] = numeral 10 [zero] by decide).trans hnumeral
  · rw [numberPart,if_neg hzero]
    exact hnumeral

/-! ### Addresses that both store alike -/

/- Four decimal parts. -/
def Plain (address : Bytes) : Prop :=
  (address.splitOn dot).length = 4 ∧ ∀ p ∈ address.splitOn dot, decimalPart p ≠ none

instance (address : Bytes) : Decidable (Plain address) := inferInstanceAs (Decidable (_ ∧ _))

theorem inetPton_eq_some {address : Bytes} {n : ℕ} : inetPton address = some n ↔
    ∃ a b c d va vb vc vd, address.splitOn dot = [a,b,c,d] ∧
      (decimalPart a = some va ∧ decimalPart b = some vb ∧ decimalPart c = some vc ∧
        decimalPart d = some vd) ∧ n = ((va*256+vb)*256+vc)*256+vd := by
  unfold inetPton
  split
  next a b c d hparts =>
    simp only [Option.bind_eq_some_iff,Option.map_eq_some_iff,hparts]
    constructor
    · rintro ⟨va,ha,vb,hb,vc,hc,vd,hd,rfl⟩
      exact ⟨a,b,c,d,va,vb,vc,vd,rfl,⟨ha,hb,hc,hd⟩,rfl⟩
    · rintro ⟨_,_,_,_,va,vb,vc,vd,he,⟨ha,hb,hc,hd⟩,rfl⟩
      cases he
      exact ⟨va,ha,vb,hb,vc,hc,vd,hd,rfl⟩
  next hparts =>
    refine ⟨nofun,?_⟩
    rintro ⟨a,b,c,d,_,_,_,_,he,_⟩
    exact absurd he (hparts a b c d)

theorem joinParts_four {a b c d : Bytes} {n : ℕ} : joinParts 4 [a,b,c,d] = some n ↔
    ∃ wa wb wc wd, (numberPart a = some wa ∧ numberPart b = some wb ∧ numberPart c = some wc ∧
      numberPart d = some wd) ∧ (wa < 256 ∧ wb < 256 ∧ wc < 256 ∧ wd < 256) ∧
        n = ((wa*256+wb)*256+wc)*256+wd := by
  simp only [joinParts,Option.bind_eq_some_iff,Option.map_eq_some_iff,Option.filter_eq_some_iff,
    decide_eq_true_eq]
  constructor
  · rintro ⟨wa,⟨ha,ha'⟩,_,⟨wb,⟨hb,hb'⟩,_,⟨wc,⟨hc,hc'⟩,wd,⟨hd,hd'⟩,rfl⟩,rfl⟩,rfl⟩
    exact ⟨wa,wb,wc,wd,⟨ha,hb,hc,hd⟩,⟨ha',hb',hc',by omega⟩,by omega⟩
  · rintro ⟨wa,wb,wc,wd,⟨ha,hb,hc,hd⟩,⟨ha',hb',hc',hd'⟩,rfl⟩
    exact ⟨wa,⟨ha,ha'⟩,_,⟨wb,⟨hb,hb'⟩,_,⟨wc,⟨hc,hc'⟩,wd,⟨hd,by omega⟩,rfl⟩,rfl⟩,by omega⟩

theorem Plain.read {address : Bytes} (h : Plain address) :
    ∃ n, inetPton address = some n ∧ inetAddr address = some n := by
  obtain ⟨hlength,hall⟩ := h
  match hparts : address.splitOn dot with
  | [a,b,c,d] =>
    rw [hparts] at hall
    simp only [List.forall_mem_cons,Option.ne_none_iff_exists'] at hall
    obtain ⟨⟨va,ha⟩,⟨vb,hb⟩,⟨vc,hc⟩,⟨vd,hd⟩,_⟩ := hall
    refine ⟨_,inetPton_eq_some.mpr ⟨a,b,c,d,va,vb,vc,vd,hparts,⟨ha,hb,hc,hd⟩,rfl⟩,?_⟩
    rw [inetAddr,hparts]
    have hale := decimalPart_le ha
    have hble := decimalPart_le hb
    have hcle := decimalPart_le hc
    have hdle := decimalPart_le hd
    exact joinParts_four.mpr ⟨va,vb,vc,vd,⟨numberPart_decimal ha,numberPart_decimal hb,
      numberPart_decimal hc,numberPart_decimal hd⟩,by omega,rfl⟩
  | [] | [_] | [_,_] | [_,_,_] | _ :: _ :: _ :: _ :: _ :: _ =>
    rw [hparts] at hlength
    simp at hlength

theorem plain_of_read {address : Bytes} {n : ℕ} (h : inetPton address = some n) : Plain address := by
  obtain ⟨a,b,c,d,va,vb,vc,vd,hparts,⟨ha,hb,hc,hd⟩,_⟩ := inetPton_eq_some.mp h
  refine ⟨by rw [hparts]; rfl,?_⟩
  simp [hparts,ha,hb,hc,hd]

end TcpProjects.Lib
