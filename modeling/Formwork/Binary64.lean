/-! Finite double-precision numbers, held as a sign and a rank: the place of the magnitude when the
non-negative finite doubles are counted upwards from zero. Ranks order numbers as the numbers
themselves are ordered, so comparisons are comparisons of integers. -/

namespace Formwork

/-- The rank at which the finite numbers end. -/
def Binary64.rankEnd : Nat := 0x7FF0000000000000

/-- The number of ranks from a power of two to the next. -/
def Binary64.binade : Nat := 0x10000000000000

structure Binary64 where
  negative : Bool
  rank : Nat
  rank_lt : rank < Binary64.rankEnd
deriving DecidableEq

namespace Binary64

/-- The magnitude at a rank, in units of the least positive number, which is `2 ^ -1074`. -/
def unitsAt (rank : Nat) : Nat :=
  if rank < 2 * binade then rank else (binade + rank % binade) * Nat.pow 2 (rank / binade - 1)

/-- The quotient rounded to the nearest natural number, a half going to the even neighbour. -/
def divNearest (num den : Nat) : Nat :=
  let q := num / den
  let r := num % den
  if 2 * r < den then q else if den < 2 * r then q + 1 else q + q % 2

/-- The rank of the number nearest to `num / den`. It reaches `rankEnd` when the quotient is too
large for a finite number. -/
def rankNearest (num den : Nat) : Nat :=
  let units := num * Nat.pow 2 1074
  let dropped := (units / den).log2 - 52
  dropped * binade + divNearest units (den * Nat.pow 2 dropped)

def ofQuotient? (negative : Bool) (num den : Nat) : Option Binary64 :=
  if h : rankNearest num den < rankEnd then some ⟨negative, rankNearest num den, h⟩ else none

def signedZero (negative : Bool) : Binary64 := ⟨negative, 0, by decide⟩

def zero : Binary64 := signedZero false

instance : Inhabited Binary64 := ⟨zero⟩

/-- The number nearest to an integer; beyond the finite range, the greatest number of its sign. -/
def ofInt (i : Int) : Binary64 :=
  ⟨i < 0, min (rankNearest i.natAbs 1) (rankEnd - 1), by unfold rankEnd; omega⟩

def ofBool (b : Bool) : Binary64 := ofInt (if b then 1 else 0)

def place (x : Binary64) : Int := if x.negative then -(x.rank : Int) else x.rank

def lt (x y : Binary64) : Bool := x.place < y.place

def same (x y : Binary64) : Bool := x.place == y.place

def unsignZero (x : Binary64) : Binary64 := ⟨x.negative && x.rank != 0, x.rank, x.rank_lt⟩

theorem place_unsignZero (x : Binary64) : x.unsignZero.place = x.place := by
  by_cases h : x.rank = 0 <;> simp [unsignZero, place, h]

/-- Numbers at one place differ at most in the sign of zero. -/
theorem unsignZero_eq_iff {x y : Binary64} : x.unsignZero = y.unsignZero ↔ x.place = y.place := by
  constructor
  · intro h
    rw [← place_unsignZero x, h, place_unsignZero]
  · intro h
    obtain ⟨nx, rx, hx⟩ := x
    obtain ⟨ny, ry, hy⟩ := y
    have hr : rx = ry := by
      cases nx <;> cases ny <;> simp [place] at h <;> omega
    subst hr
    by_cases h0 : rx = 0
    · simp [unsignZero, h0]
    · cases nx <;> cases ny <;> simp [place] at h <;> simp [unsignZero] <;> omega

theorem same_iff {x y : Binary64} : x.same y = true ↔ x.place = y.place := by
  simp [same]

theorem divNearest_near (num : Nat) {den : Nat} (h : 0 < den) :
    2 * (divNearest num den * den) ≤ 2 * num + den ∧
      2 * num ≤ 2 * (divNearest num den * den) + den := by
  have e : den * (num / den) + num % den = num := Nat.div_add_mod num den
  have l : num % den < den := Nat.mod_lt _ h
  unfold divNearest
  generalize num / den = q at *
  generalize num % den = r at *
  have h1 : (q + 1) * den = den * q + den := by rw [Nat.add_mul, Nat.mul_comm]; simp
  have h0 : q * den = den * q := Nat.mul_comm ..
  generalize den * q = p at *
  have hp : q % 2 = 0 ∨ q % 2 = 1 := by omega
  rcases hp with hp | hp <;> simp only [hp, Nat.add_zero] <;> split <;> (try split) <;> omega

end Binary64

end Formwork
