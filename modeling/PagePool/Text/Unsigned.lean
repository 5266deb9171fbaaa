/-!
Unsigned numbers of 64 bits in settings: ASCII digits behind at most one plus sign.
-/

namespace PagePool.Text

/-- The value of a string of decimal digits. -/
def digitsValue (digits : List Char) : Nat :=
  digits.foldl (fun value c => 10 * value + (c.toNat - '0'.toNat)) 0

/-- The digits of a number without the sign in front. -/
def unsignedDigits (text : String) : List Char :=
  match text.toList with
  | '+' :: digits => digits
  | digits => digits

/-- Reads a number below 2 ^ 64; blanks, other signs and other digits are refused. -/
def unsigned? (text : String) : Option Nat :=
  let digits := unsignedDigits text
  let value := digitsValue digits
  if digits ≠ [] ∧ digits.all Char.isDigit ∧ value < 1 <<< 64 then some value else none

end PagePool.Text
