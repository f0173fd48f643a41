import TcpProjects.Base.CString
import Mathlib.Data.List.Infix

/-! # Texts of the C# protocol

`Encoding.ASCII` in both directions, and the search for the end marker
(`data.IndexOf("<EOF>") > -1`), which follows the rules of the current culture. -/

namespace TcpProjects.Protocol

/-- A `char` of C#: a UTF-16 code unit. -/
abbrev CodeUnit := Fin 65536
abbrev Text := List CodeUnit

def char (c : Char) : CodeUnit := ⟨c.toNat % 65536,Nat.mod_lt _ (by decide)⟩
def text (s : String) : Text := s.toList.map char

def questionMark : CodeUnit := char '?'

/-- `Encoding.ASCII.GetString`: a byte that is not ASCII is read as a question mark. -/
def getString (buffer : Bytes) : Text :=
  buffer.map fun b => if b.val < 128 then ⟨b.val,by omega⟩ else questionMark

/-- `Encoding.ASCII.GetBytes`. -/
def getBytes (s : Text) : Bytes :=
  s.map fun c => if h : c.val < 128 then ⟨c.val,by omega⟩ else byte '?'

theorem getString_append (a b : Bytes) : getString (a ++ b) = getString a ++ getString b :=
  List.map_append ..

def eof : Text := text "<EOF>"

/-- What a search in the current culture passes over: certain characters that do not
print, none of which is in the marker. An ordinal search ignores nothing. -/
structure Culture where
  ignores : CodeUnit → Bool
  marker : ∀ c ∈ eof, ignores c = false

def Culture.ordinal : Culture := ⟨fun _ => false,fun _ _ => rfl⟩

/-- `data.IndexOf("<EOF>") > -1`. -/
def Culture.found (κ : Culture) (data : Text) : Bool :=
  decide (eof <:+: data.filter fun c => !κ.ignores c)

namespace Culture
variable (κ : Culture)

/- More text does not hide the marker. -/
theorem found_append {data : Text} (h : κ.found data = true) (more : Text) :
    κ.found (data ++ more) = true := by
  simp only [found,decide_eq_true_eq,List.filter_append] at h ⊢
  exact h.trans (List.prefix_append _ _).isInfix

/- A marker that stands in the text is found in every culture. -/
theorem found_of_infix {data : Text} (h : eof <:+: data) : κ.found data = true := by
  have hkept : eof.filter (fun c => !κ.ignores c) = eof := by
    rw [List.filter_eq_self]
    intro c hc
    rw [κ.marker c hc]
    rfl
  simp only [found,decide_eq_true_eq]
  have hf := h.filter fun c => !κ.ignores c
  rwa [hkept] at hf

end Culture
end TcpProjects.Protocol
