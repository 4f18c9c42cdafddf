import ArchiveStore.Decimal.Shortest
/-!
# Writing decimals

How a float is written once its digits are chosen: positionally or with an exponent, with or
without a plus sign in the exponent, and which way a tie between two nearest decimals goes.
A `Decimal.Notation` records these decisions; `Decimal.Notation.render` writes a float by
one, with a sign in front of negative values and `0.0` for zero. The two notations the
inspection tool prints with are `Decimal.debugNotation` and `Decimal.jsonNotation`.
-/

namespace ArchiveStore

namespace Decimal

/-- The decisions of a decimal notation. -/
structure Notation where
  /-- Values whose leading digit has a decimal exponent `e` with `plainFrom ≤ e < plainBelow`
  are written positionally, the others with an exponent. -/
  plainFrom : Int
  plainBelow : Int
  /-- Whether a positive exponent is written with a plus sign. -/
  expPlus : Bool
  /-- Which of two equally near shortest decimals is taken. -/
  tie : Tie
  /-- The texts of NaN and infinity. -/
  nan : String
  inf : String
deriving DecidableEq, Repr

/-- Debugging output: positional for exponents from -4 to 15, ties up, `NaN` and `inf`. -/
def debugNotation : Notation := ⟨-4, 16, false, .up, "NaN", "inf"⟩

/-- JSON output: positional for exponents from -5 to 15, a signed exponent otherwise, ties to
even. JSON has no NaN or infinity; a JSON writer must not ask for them. -/
def jsonNotation : Notation := ⟨-5, 16, true, .toEven, "null", "null"⟩

/-- The decimal digits of a natural. -/
def digitsOf (n : Nat) : List Char := Nat.toDigits 10 n

/-- Lays out the digits `ds` of a decimal whose leading digit has exponent `e`. -/
def Notation.layout (n : Notation) (ds : List Char) (e : Int) : String :=
  if n.plainFrom ≤ e ∧ e < n.plainBelow then
    let point := e + 1
    if point ≥ ds.length then
      String.ofList (ds ++ List.replicate (point.toNat - ds.length) '0' ++ ['.', '0'])
    else if point > 0 then
      String.ofList (ds.take point.toNat ++ '.' :: ds.drop point.toNat)
    else String.ofList (['0', '.'] ++ List.replicate (-point).toNat '0' ++ ds)
  else
    let mantissa := match ds with
      | [d] => [d]
      | d :: rest => d :: '.' :: rest
      | [] => []
    let sign := if e < 0 then "-" else if n.expPlus then "+" else ""
    String.ofList mantissa ++ "e" ++ sign ++ toString e.natAbs

/-- A float written in a notation. -/
def Notation.render (n : Notation) (x : Binary64) : String :=
  let sign := if x.signBit then "-" else ""
  if x.isNaN then n.nan
  else if x.isInfinite then sign ++ n.inf
  else if x.isZero then sign ++ "0.0"
  else
    let d := shortest (Binary.ofFloat x) n.tie
    let ds := digitsOf d.digits
    sign ++ n.layout ds (d.exp + ds.length - 1)

end Decimal

end ArchiveStore
