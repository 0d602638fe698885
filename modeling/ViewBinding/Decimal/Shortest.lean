import ViewBinding.Decimal.Binary

/-!
# The fewest digits that read back

A decimal reads back as a number of 64 bits when it lies between the midpoints to the neighbouring
numbers. Of the decimals that do, `shortest` takes one with the fewest digits, and of those the
nearest to the number. It looks at the grids of one, two, … seventeen digits in turn; on each grid
only the two points next to the number have to be tried.
-/

namespace ViewBinding.Decimal

/-- The decimal with these digits, whose point stands after the first `point` of them. -/
structure Digits where
  digits : List Char
  point : Int
  deriving DecidableEq, Repr

/-- Which of two equally near decimals is taken. -/
inductive Tie where
  | even
  | up
  deriving DecidableEq, Repr

/-- The decimal `count * 10 ^ exponent`, without zeros at its end. -/
def Digits.ofGrid (count : Nat) (exponent : Int) : Digits :=
  let written := Nat.toDigits 10 count
  ⟨(written.reverse.dropWhile (· == '0')).reverse, exponent + written.length⟩

/-- The exponent of the leading decimal digit of `mantissa * 2 ^ exponent`. -/
def leadingExponent (mantissa : Nat) (exponent : Int) : Int :=
  let above := mantissa <<< exponent.toNat
  let below := 1 <<< (-exponent).toNat
  if below ≤ above then (Nat.toDigits 10 (above / below)).length - 1
  else -((Nat.toDigits 10 ((below + above - 1) / above - 1)).length : Int)

/--
The point of the grid `10 ^ grid` that reads back as `mantissa * 2 ^ exponent`, if there is one. All
quantities are compared after both sides are multiplied by the powers that make them natural.
-/
def nearestOnGrid (tie : Tie) (mantissa : Nat) (exponent grid : Int) : Option Nat :=
  let quarter := exponent - 2
  let perPoint := (Nat.pow 10 grid.toNat) <<< (-quarter).toNat
  let perQuarter := (Nat.pow 10 (-grid).toNat) <<< quarter.toNat
  let gap := if mantissa = Binary.unit ∧ Binary.leastExponent < exponent then 1 else 2
  let lowest := (4 * mantissa - gap) * perQuarter
  let highest := (4 * mantissa + 2) * perQuarter
  let value := 4 * mantissa * perQuarter
  let readsBack (count : Nat) : Bool :=
    if mantissa % 2 = 0 then lowest ≤ count * perPoint && count * perPoint ≤ highest
    else lowest < count * perPoint && count * perPoint < highest
  let floor := value / perPoint
  match readsBack floor, readsBack (floor + 1) with
  | false, false => none
  | true, false => some floor
  | false, true => some (floor + 1)
  | true, true =>
    match compare (2 * value) ((2 * floor + 1) * perPoint) with
    | .lt => some floor
    | .gt => some (floor + 1)
    | .eq =>
      match tie with
      | .up => some (floor + 1)
      | .even => some (if floor % 2 = 0 then floor else floor + 1)

/-- The shortest decimal that reads back as the positive number `mantissa * 2 ^ exponent`. -/
def shortest (tie : Tie) (mantissa : Nat) (exponent : Int) : Digits :=
  let leading := leadingExponent mantissa exponent
  let grids := (List.range 17).map fun n : Nat => leading - n
  let hit := grids.findSome? fun grid =>
    (nearestOnGrid tie mantissa exponent grid).map fun count => Digits.ofGrid count grid
  hit.getD ⟨['0'], 1⟩

end ViewBinding.Decimal
