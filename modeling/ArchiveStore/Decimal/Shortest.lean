import ArchiveStore.Document.Value
/-!
# Shortest decimals

A finite binary64 value stands for every real that rounds to it: from halfway to its lower
neighbour to halfway to its upper one, the ends included exactly when its significand is even.
`Decimal.shortest` picks, among the decimals in that interval, one with the fewest significant
digits, and of those the one nearest to the value; an exact tie between two goes by a rule.

The search follows the definition: for `n = 1, 2, …` digits it takes the grid of decimals
with `n` significant digits around the value, and tests the value's two neighbours on that
grid with `Decimal.readsBack`. All arithmetic is exact, on naturals.
-/

namespace ArchiveStore

namespace Decimal

/-- A finite non-negative binary64 value, `m * 2 ^ q`. -/
structure Binary where
  m : Nat
  q : Int
  /-- The gap to the value below is half the gap to the value above. -/
  narrowBelow : Bool
deriving DecidableEq, Repr

/-- The magnitude of a finite value. -/
def Binary.ofFloat (x : Binary64) : Binary :=
  let e := x.exponentField
  let f := x.fractionField
  if e = 0 then ⟨f, -1074, false⟩ else ⟨Nat.pow 2 52 + f, (e : Int) - 1075, f == 0 && e > 1⟩

/-- `digits * 10 ^ exp`. -/
structure Dec where
  digits : Nat
  exp : Int
deriving DecidableEq, Repr

/-- Which of two equally near decimals is taken. -/
inductive Tie where
  | toEven
  | up
deriving DecidableEq, Repr

/-- Compares `a * 10 ^ i` with `n * 2 ^ j`, exactly. -/
def cmpScaled (a : Nat) (i : Int) (n : Nat) (j : Int) : Ordering :=
  compare (a * Nat.pow 10 i.toNat * Nat.pow 2 (-j).toNat) (n * Nat.pow 2 j.toNat * Nat.pow 10 (-i).toNat)

/-- Whether a decimal lies among the reals that round to `x`. -/
def Binary.readsBack (x : Binary) (d : Dec) : Bool :=
  let lo := if x.narrowBelow then 4 * x.m - 1 else 4 * x.m - 2
  let hi := 4 * x.m + 2
  let incl := x.m % 2 == 0
  let cl := cmpScaled d.digits d.exp lo (x.q - 2)
  let ch := cmpScaled d.digits d.exp hi (x.q - 2)
  (cl == .gt || (incl && cl == .eq)) && (ch == .lt || (incl && ch == .eq))

/-- `⌊m * 2 ^ q / 10 ^ k⌋`. -/
def floorScaled (m : Nat) (q k : Int) : Nat :=
  (m * Nat.pow 2 q.toNat * Nat.pow 10 (-k).toNat) / (Nat.pow 2 (-q).toNat * Nat.pow 10 k.toNat)

/-- The least `k` with `m * 2 ^ q < 10 ^ k`, for a positive `m`, searched from an estimate. -/
def Binary.scale (x : Binary) : Int :=
  -- log10 2 < 0.30103, so this starts at or below the answer by at most two.
  let bits : Int := (Nat.log2 x.m : Int) + x.q
  let start := (bits * 30103) / 100000 - 2
  let below (k : Int) : Bool := cmpScaled 1 k x.m x.q == .gt
  match (List.range 8).find? (fun (i : Nat) => below (start + (i : Int))) with
  | some i => start + (i : Int)
  | none => start + 8

/-- The nearer of two neighbouring decimals `a * 10 ^ e` and `(a + 1) * 10 ^ e` to `x`, both
reading back; `tie` decides when they are equally near. -/
def Binary.nearer (x : Binary) (a : Nat) (e : Int) (tie : Tie) : Nat :=
  -- compare twice the value with the sum of the two candidates
  match cmpScaled (2 * a + 1) e x.m (x.q + 1) with
  | .lt => a + 1
  | .gt => a
  | .eq => match tie with
    | .up => a + 1
    | .toEven => if a % 2 == 0 then a else a + 1

/-- The decimal with `n` significant digits that reads back as `x`, if there is one; `k` is
`x.scale`. -/
def Binary.onGrid (x : Binary) (k : Int) (tie : Tie) (n : Nat) : Option Dec :=
  let e := k - n
  let a := floorScaled x.m x.q e
  let lowHit := x.readsBack ⟨a, e⟩
  let highHit := x.readsBack ⟨a + 1, e⟩
  if lowHit && highHit then some ⟨x.nearer a e tie, e⟩
  else if lowHit then some ⟨a, e⟩
  else if highHit then some ⟨a + 1, e⟩
  else none

/-- Trailing zeros of the digits moved into the exponent. -/
def Dec.strip (d : Dec) (fuel : Nat := 20) : Dec :=
  match fuel with
  | 0 => d
  | fuel + 1 =>
    if d.digits ≠ 0 ∧ d.digits % 10 = 0 then Dec.strip ⟨d.digits / 10, d.exp + 1⟩ fuel else d

/-- The exact decimal value of `x`. -/
def Binary.exact (x : Binary) : Dec :=
  if x.q ≥ 0 then ⟨x.m * Nat.pow 2 x.q.toNat, 0⟩ else ⟨x.m * Nat.pow 5 (-x.q).toNat, x.q⟩

/-- The shortest decimal that reads back as a positive `x`, nearest to it among those. -/
def shortest (x : Binary) (tie : Tie) : Dec :=
  let k := x.scale
  match (List.range 17).findSome? fun i => x.onGrid k tie (i + 1) with
  | some d => d.strip
  | none => x.exact.strip

end Decimal

end ArchiveStore
