/-!
# Reading a decimal

The text of a number is a sign, digits with a point somewhere among them, and an exponent; sign,
point and exponent may be missing. Words stand for infinity and for what is no number, in any case of
letters. The number read is the one nearest to what the text spells.
-/

namespace ViewBinding.Decimal

/-- The natural number that digits spell. -/
def digitsValue (digits : List Char) : Nat :=
  digits.foldl (fun n c => 10 * n + (c.toNat - '0'.toNat)) 0

/-- A sign and what follows it. -/
def takeSign : List Char → Bool × List Char
  | '-' :: rest => (true, rest)
  | '+' :: rest => (false, rest)
  | rest => (false, rest)

/-- The exponent that a number ends with, zero if it is missing. -/
def exponent? : List Char → Option Int
  | [] => some 0
  | mark :: rest =>
    let (negative, digits) := takeSign rest
    if (mark = 'e' || mark = 'E') && !digits.isEmpty && digits.all Char.isDigit then
      let size : Int := digitsValue digits
      some (if negative then -size else size)
    else none

/-- A number without sign. -/
def unsigned? (text : List Char) : Option Float :=
  let word := text.map Char.toLower
  if word = ['i', 'n', 'f'] || word = ['i', 'n', 'f', 'i', 'n', 'i', 't', 'y'] then some (1.0 / 0.0)
  else if word = ['n', 'a', 'n'] then some (0.0 / 0.0)
  else
    let whole := text.takeWhile Char.isDigit
    let rest := text.dropWhile Char.isDigit
    let (fraction, rest) := match rest with
      | '.' :: rest => (rest.takeWhile Char.isDigit, rest.dropWhile Char.isDigit)
      | rest => ([], rest)
    if whole.isEmpty && fraction.isEmpty then none
    else (exponent? rest).map fun written =>
      let exponent : Int := written - fraction.length
      Float.ofScientific (digitsValue (whole ++ fraction)) (exponent < 0) exponent.natAbs

/-- The number that a text spells. -/
def read? (text : String) : Option Float :=
  let (negative, digits) := takeSign text.toList
  (unsigned? digits).map fun size => if negative then -size else size

end ViewBinding.Decimal
