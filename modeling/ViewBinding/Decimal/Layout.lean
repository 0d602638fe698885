import ViewBinding.Decimal.Shortest

/-!
# Laying out a decimal

A decimal is written positionally, with zeros filled in between its digits and the point, or in
scientific form with one digit before the point.
-/

namespace ViewBinding.Decimal

/-- The exponent of the first digit. -/
def Digits.leading (d : Digits) : Int :=
  d.point - 1

/-- No digit stands after the point. -/
def Digits.isInteger (d : Digits) : Bool :=
  d.digits.length ≤ d.point

/-- All digits in their places; a number without fraction ends at its last digit. -/
def Digits.positional (d : Digits) : List Char :=
  if d.point ≤ 0 then ['0', '.'] ++ List.replicate (-d.point).toNat '0' ++ d.digits
  else if d.isInteger then d.digits ++ List.replicate (d.point.toNat - d.digits.length) '0'
  else d.digits.take d.point.toNat ++ '.' :: d.digits.drop d.point.toNat

/-- One digit, the others after a point, and the exponent of the first with its sign. -/
def Digits.scientific (d : Digits) : List Char :=
  let sign := if d.leading < 0 then '-' else '+'
  let exponent := 'e' :: sign :: Nat.toDigits 10 d.leading.natAbs
  match d.digits with
  | [] => exponent
  | [digit] => digit :: exponent
  | digit :: others => digit :: '.' :: (others ++ exponent)

/-- Puts a minus sign before a negative number. -/
def signed (negative : Bool) (digits : List Char) : List Char :=
  if negative then '-' :: digits else digits

end ViewBinding.Decimal
