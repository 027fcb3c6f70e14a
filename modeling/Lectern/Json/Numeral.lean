-- Numbers in JSON, one digit at a time.
import Lectern.Json.Fault
import Lectern.Json.Value

namespace Lectern.Json

/-- Digits in a row: their value in base ten and how many they are. -/
structure Digits where
  value : Nat
  count : Nat
deriving DecidableEq

/-- No digit. -/
def Digits.none : Digits := ⟨0, 0⟩

/-- One more digit at the end. -/
def Digits.push (d : Digits) (n : Nat) : Digits := ⟨d.value * 10 + n, d.count + 1⟩

/-- A number as it is written: a sign, the digits before and after the
point, and the exponent with its sign. -/
structure Numeral where
  negative : Bool
  whole : Digits
  fraction : Digits
  exponentNegative : Bool
  exponent : Digits
deriving DecidableEq

namespace Numeral

/-- A number of which only the sign is read. -/
def ofSign (negative : Bool) : Numeral := ⟨negative, .none, .none, false, .none⟩

/-- The number as a decimal. -/
def decimal (n : Numeral) : Decimal where
  negative := n.negative
  digits := n.whole.value * Nat.pow 10 n.fraction.count + n.fraction.value
  exponent :=
    (if n.exponentNegative then -(n.exponent.value : Int) else n.exponent.value)
      - n.fraction.count

/-- The value of a number. Without a fraction and an exponent it is whole,
and then it must not have too many digits. -/
def value (limits : Limits) (n : Numeral) : Except Fault Value :=
  if n.fraction.count = 0 ∧ n.exponent.count = 0 then
    if limits.digits < n.whole.count then .error (.longNumber n.whole.count)
    else .ok (.int (if n.negative then -(n.whole.value : Int) else n.whole.value))
  else .ok (.float n.decimal.nearest)

end Numeral

/-- Where a reader stands inside a number. A point, or the letter of an
exponent, belongs to the number only if a digit follows, so its place is
kept until then. -/
inductive NumeralPart
  | sign
  | zero
  | whole
  | point (place : Place)
  | fraction
  | letter (place : Place)
  | exponentSign (place : Place)
  | exponent
deriving DecidableEq

end Lectern.Json
