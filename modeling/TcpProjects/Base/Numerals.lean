import TcpProjects.Base.CString

/-! # Numerals

Unsigned numerals in a base up to sixteen, read from the left. -/

namespace TcpProjects.Numerals

def digitValue (c : Byte) : Option ℕ :=
  if 48 ≤ c.val ∧ c.val ≤ 57 then some (c.val-48)
  else if 65 ≤ c.val ∧ c.val ≤ 70 then some (c.val-55)
  else if 97 ≤ c.val ∧ c.val ≤ 102 then some (c.val-87)
  else none

def digit (base : ℕ) (c : Byte) : Option ℕ := (digitValue c).filter (· < base)

/- `n` is the number read so far. -/
def numeralFrom (base n : ℕ) : Bytes → Option ℕ
  | [] => some n
  | c :: s => (digit base c).bind fun d => numeralFrom base (base*n+d) s

def numeral (base : ℕ) (s : Bytes) : Option ℕ := if s = [] then none else numeralFrom base 0 s

variable {base n v : ℕ} {c : Byte} {s : Bytes}

theorem numeral_eq_some : numeral base s = some v ↔ s ≠ [] ∧ numeralFrom base 0 s = some v := by
  unfold numeral
  split_ifs with hs <;> simp [hs]

/-! ### Printed numbers -/

theorem numeralFrom_snoc : numeralFrom base n (s ++ [c]) =
    (numeralFrom base n s).bind fun m => (digit base c).map fun d => base*m+d := by
  induction s generalizing n with
  | nil =>
    rw [List.nil_append,numeralFrom,numeralFrom,Option.bind_some]
    cases digit base c <;> rfl
  | cons b s ih =>
    rw [List.cons_append,numeralFrom,numeralFrom,Option.bind_assoc]
    congr 1
    funext d
    exact ih

/- The last digit apart. -/
theorem decimal_eq (n : ℕ) :
    decimal n = (if n < 10 then [] else decimal (n/10)) ++ [byte (Nat.digitChar (n%10))] := by
  unfold decimal
  rw [Nat.toDigits_eq_if (by decide)]
  split_ifs with h
  · rw [Nat.mod_eq_of_lt h]
    rfl
  · rw [List.map_append]
    rfl

theorem digit_digitChar {d : ℕ} (h : d < 10) : digit 10 (byte (Nat.digitChar d)) = some d := by
  have hall : ∀ d < 10, digit 10 (byte (Nat.digitChar d)) = some d := by decide
  exact hall d h

/-- What `%d` prints is read as the number. -/
theorem numeral_decimal (n : ℕ) : numeral 10 (decimal n) = some n := by
  have hne (m : ℕ) : decimal m ≠ [] := by
    rw [decimal_eq]
    exact List.append_ne_nil_of_right_ne_nil _ (List.cons_ne_nil _ _)
  rw [numeral_eq_some]
  refine ⟨hne n,?_⟩
  induction n using Nat.strong_induction_on with
  | _ n ih =>
    rw [decimal_eq,numeralFrom_snoc,digit_digitChar (Nat.mod_lt _ (by decide))]
    split_ifs with h
    · rw [numeralFrom,Option.bind_some,Option.map_some,Nat.mul_zero,Nat.zero_add,Nat.mod_eq_of_lt h]
    · rw [ih (n/10) (by omega),Option.bind_some,Option.map_some,Nat.div_add_mod]

end TcpProjects.Numerals
