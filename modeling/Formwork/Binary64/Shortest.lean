import Formwork.Binary64

/-! The shortest decimal that reads back to a given double: of all decimals that lie in the interval
rounding to the number, those on the coarsest grid of powers of ten, and of these the nearest. -/

namespace Formwork.Binary64

structure Decimal where
  digits : Nat
  exponent : Int
deriving DecidableEq, Repr

/-- Where an exact tie between two equally short decimals goes. -/
inductive Tie where
  | toEven
  | up
deriving DecidableEq, Repr

/-- The interval of magnitudes that round to the number at a rank, and the number itself, all in
halves of a unit. The ends belong to it exactly when the rank is even. -/
structure Rounding where
  low : Nat
  exact : Nat
  high : Nat
  closed : Bool

def roundingAt (rank : Nat) : Rounding where
  low := unitsAt (rank - 1) + unitsAt rank
  exact := 2 * unitsAt rank
  high := unitsAt rank + unitsAt (rank + 1)
  closed := rank % 2 == 0

/-- One step of the grid `10 ^ exponent` against one half unit: the magnitude `d * 10 ^ exponent` is
`d * step.1` where a magnitude of `h` half units is `h * step.2`. -/
def gridStep : Int → Nat × Nat
  | .ofNat e => (Nat.pow 10 e * Nat.pow 2 1075, 1)
  | .negSucc e => (Nat.pow 2 1075, Nat.pow 10 (e + 1))

def Rounding.holds (r : Rounding) (exponent : Int) (d : Nat) : Bool :=
  let (step, scale) := gridStep exponent
  let x := d * step
  if r.closed then r.low * scale ≤ x && x ≤ r.high * scale
  else r.low * scale < x && x < r.high * scale

def Rounding.prefersUpper (r : Rounding) (tie : Tie) (exponent : Int) (below : Nat) : Bool :=
  let (step, scale) := gridStep exponent
  match compare (2 * (r.exact * scale)) ((2 * below + 1) * step), tie with
  | .lt, _ => false
  | .gt, _ => true
  | .eq, .up => true
  | .eq, .toEven => below % 2 == 1

/-- The point of the grid that lies in the interval and is nearest to the number, if there is one.
Only the two neighbours of the number on the grid need a test. -/
def Rounding.pointOn? (r : Rounding) (tie : Tie) (exponent : Int) : Option Decimal :=
  let below := r.exact * (gridStep exponent).2 / (gridStep exponent).1
  match r.holds exponent below, r.holds exponent (below + 1) with
  | true, true =>
    some ⟨if r.prefersUpper tie exponent below then below + 1 else below, exponent⟩
  | true, false => some ⟨below, exponent⟩
  | false, true => some ⟨below + 1, exponent⟩
  | false, false => none

/-- The exponents of the grids, the coarsest first: no finite number reaches `10 ^ 309`, and the grid
`10 ^ -324` has a point in every interval. -/
def gridExponents : List Int := (List.range 634).map fun i => 309 - Int.ofNat i

def shortest (tie : Tie) (x : Binary64) : Decimal :=
  if x.rank = 0 then ⟨0, 0⟩
  else ((gridExponents.findSome? ((roundingAt x.rank).pointOn? tie)).getD ⟨0, 0⟩)

end Formwork.Binary64
