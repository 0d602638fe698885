/-!
# What a floating-point number stands for

A finite number of 64 bits is a natural number times a power of two, with a sign. Everything that is
decided about the text of a number is decided on that pair in exact arithmetic.
-/

namespace ViewBinding.Decimal

inductive Binary where
  | nan
  | infinite (negative : Bool)
  /-- The number `mantissa * 2 ^ exponent`, or its negative. -/
  | finite (negative : Bool) (mantissa : Nat) (exponent : Int)
  deriving DecidableEq, Repr

/-- The least exponent, that of the numbers next to zero. -/
def Binary.leastExponent : Int := -1074

/-- The least mantissa of a number that is not next to zero. -/
def Binary.unit : Nat := 1 <<< 52

/-- Reads sign, exponent and fraction off the bits. -/
def Binary.ofFloat (x : Float) : Binary :=
  let bits := x.toBits.toNat
  let negative := bits >>> 63 == 1
  let biased := (bits >>> 52) % 2048
  let fraction := bits % unit
  if biased = 2047 then
    if fraction = 0 then .infinite negative else .nan
  else if biased = 0 then .finite negative fraction leastExponent
  else .finite negative (unit + fraction) (biased - 1075)

/-- Equality of numbers. Nothing is equal to what is not a number, and zero has no sign. -/
def Binary.same : Binary → Binary → Bool
  | .infinite a, .infinite b => a == b
  | .finite a m e, .finite b n f => m == 0 && n == 0 || a == b && m == n && e == f
  | _, _ => false

/-- The integer a number is, if it is one. -/
def Binary.integer? : Binary → Option Int
  | .finite negative mantissa exponent =>
    let divisor := 1 <<< (-exponent).toNat
    if mantissa % divisor = 0 then
      let size : Nat := (mantissa / divisor) <<< exponent.toNat
      some (if negative then -size else size)
    else none
  | _ => none

end ViewBinding.Decimal
