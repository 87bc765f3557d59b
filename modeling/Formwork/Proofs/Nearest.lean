import Mathlib.Algebra.Group.Int.Defs
import Mathlib.Algebra.Group.Nat.Defs
import Mathlib.Order.Monotone.Basic
import Formwork.Comparator
import Formwork.Dialect.Common

/-! Whole numbers as doubles: comparing two of them compares the nearest numbers with 53 binary digits,
so the comparators are exact as long as no two numbers have the same nearest one. -/

namespace Formwork

namespace Binary64

theorem divNearest_mul_self (c : Nat) {d : Nat} (hd : 0 < d) : divNearest (c * d) d = c := by
  simp [divNearest, Nat.mul_div_cancel c hd, hd]

theorem divNearest_mul_mul (a d : Nat) {c : Nat} (hc : 0 < c) :
    divNearest (a * c) (d * c) = divNearest a d := by
  have hdiv : a * c / (d * c) = a / d := Nat.mul_div_mul_right a d hc
  have hmod : a * c % (d * c) = a % d * c := Nat.mul_mod_mul_right c a d
  have hlow : 2 * (a % d * c) < d * c ↔ 2 * (a % d) < d := by
    rw [← Nat.mul_assoc]
    exact Nat.mul_lt_mul_right hc
  have hhigh : d * c < 2 * (a % d * c) ↔ d < 2 * (a % d) := by
    rw [← Nat.mul_assoc]
    exact Nat.mul_lt_mul_right hc
  simp only [divNearest, hdiv, hmod, hlow, hhigh]

theorem divNearest_le_divNearest {a b : Nat} (h : a ≤ b) {d : Nat} (hd : 0 < d) :
    divNearest a d ≤ divNearest b d := by
  obtain ⟨ha, -⟩ := divNearest_near a hd
  obtain ⟨-, hb⟩ := divNearest_near b hd
  by_contra hlt
  have hstep : divNearest b d + 1 ≤ divNearest a d := Nat.not_le.mp hlt
  have hproduct := Nat.mul_le_mul_right d hstep
  rw [Nat.add_mul, Nat.one_mul] at hproduct
  have hsame : a = b := by omega
  exact hlt (hsame ▸ Nat.le_refl _)

/-- What the last of 53 binary digits is worth in a number of this size. -/
def grain (n : Nat) : Nat := 2 ^ (n.log2 - 52)

def nearestNat (n : Nat) : Nat := divNearest n (grain n) * grain n

def nearest (i : Int) : Int := if i < 0 then -(nearestNat i.natAbs : Int) else nearestNat i.natAbs

theorem grain_pos (n : Nat) : 0 < grain n := Nat.two_pow_pos _

theorem nearestNat_of_dvd {n : Nat} (h : grain n ∣ n) : nearestNat n = n := by
  obtain ⟨c, hc⟩ := h
  have hdiv : divNearest n (grain n) = c := by
    have hself := divNearest_mul_self c (grain_pos n)
    rwa [Nat.mul_comm c, ← hc] at hself
  rw [nearestNat, hdiv, Nat.mul_comm, ← hc]

theorem nearestNat_of_le {n : Nat} (h : n ≤ 2 ^ 53) : nearestNat n = n := by
  by_cases htop : n = 2 ^ 53
  · subst htop
    decide
  · have hlog : n.log2 - 52 = 0 := by
      by_cases hn : n = 0
      · subst hn
        decide
      · have := (Nat.log2_lt hn).mpr (show n < 2 ^ 53 by omega)
        omega
    refine nearestNat_of_dvd ?_
    rw [grain, hlog]
    exact Nat.one_dvd n

theorem significand_bounds {n : Nat} (hn : n ≠ 0) :
    binade ≤ divNearest (n * 2 ^ 52) (2 ^ n.log2) ∧
      divNearest (n * 2 ^ 52) (2 ^ n.log2) ≤ 2 * binade := by
  have hpos : 0 < 2 ^ n.log2 := Nat.two_pow_pos _
  have hbinade : binade = 2 ^ 52 := rfl
  have hlow : binade * 2 ^ n.log2 ≤ n * 2 ^ 52 := by
    rw [hbinade, Nat.mul_comm]
    exact Nat.mul_le_mul_right _ (Nat.log2_self_le hn)
  have hhigh : n * 2 ^ 52 ≤ 2 * binade * 2 ^ n.log2 := by
    have hlt : n ≤ 2 ^ n.log2 * 2 := Nat.le_of_lt (Nat.pow_succ 2 _ ▸ Nat.lt_log2_self)
    calc n * 2 ^ 52 ≤ 2 ^ n.log2 * 2 * 2 ^ 52 := Nat.mul_le_mul_right _ hlt
      _ = 2 * binade * 2 ^ n.log2 := by rw [hbinade]; ac_rfl
  constructor
  · simpa only [divNearest_mul_self _ hpos] using divNearest_le_divNearest hlow hpos
  · simpa only [divNearest_mul_self _ hpos] using divNearest_le_divNearest hhigh hpos

theorem significand_mul_eq {n : Nat} :
    divNearest (n * 2 ^ 52) (2 ^ n.log2) * 2 ^ n.log2 = nearestNat n * 2 ^ 52 := by
  rcases Nat.le_total n.log2 52 with hle | hle
  · have hpower : 2 ^ 52 = 2 ^ (52 - n.log2) * 2 ^ n.log2 := by
      rw [← Nat.pow_add, Nat.sub_add_cancel hle]
    have hgrain : grain n = 1 := by rw [grain, Nat.sub_eq_zero_of_le hle, Nat.pow_zero]
    have hself : nearestNat n = n := nearestNat_of_dvd (hgrain ▸ Nat.one_dvd n)
    rw [hself, hpower, ← Nat.mul_assoc, divNearest_mul_self _ (Nat.two_pow_pos _)]
  · have hpower : 2 ^ n.log2 = grain n * 2 ^ 52 := by
      rw [grain, ← Nat.pow_add, Nat.sub_add_cancel hle]
    rw [hpower, divNearest_mul_mul _ _ (Nat.two_pow_pos 52), nearestNat, Nat.mul_assoc]

theorem log2_mul_two_pow {n : Nat} (hn : n ≠ 0) (k : Nat) : (n * 2 ^ k).log2 = n.log2 + k := by
  rw [Nat.log2_eq_iff (Nat.mul_ne_zero hn (Nat.ne_of_gt (Nat.two_pow_pos k)))]
  constructor
  · rw [Nat.pow_add]
    exact Nat.mul_le_mul_right _ (Nat.log2_self_le hn)
  · rw [Nat.add_right_comm, Nat.pow_add]
    exact Nat.mul_lt_mul_of_pos_right Nat.lt_log2_self (Nat.two_pow_pos k)

theorem nearestNat_zero : nearestNat 0 = 0 := by decide

theorem rankNearest_zero : rankNearest 0 1 = 0 := by
  simp only [rankNearest, Nat.zero_mul]
  rfl

theorem rankNearest_one {n : Nat} (hn : n ≠ 0) :
    rankNearest n 1 = (n.log2 + 1022) * binade + divNearest (n * 2 ^ 52) (2 ^ n.log2) := by
  unfold rankNearest
  generalize hunit : 1074 = unit
  generalize hk : 1022 = k
  obtain rfl : unit = 52 + k := by omega
  have hdropped : (n * 2 ^ (52 + k) / 1).log2 - 52 = n.log2 + k := by
    rw [Nat.div_one, log2_mul_two_pow hn]
    omega
  have hscale : divNearest (n * 2 ^ (52 + k)) (1 * 2 ^ (n.log2 + k)) =
      divNearest (n * 2 ^ 52) (2 ^ n.log2) := by
    rw [Nat.one_mul, Nat.pow_add, Nat.pow_add, ← Nat.mul_assoc]
    exact divNearest_mul_mul _ _ (Nat.two_pow_pos k)
  simp only [Nat.pow_eq, hdropped, hscale]

theorem unitsAt_grid (q : Nat) {m : Nat} (hlow : binade ≤ m) (hhigh : m ≤ 2 * binade) :
    unitsAt (q * binade + m) = m * 2 ^ q := by
  have hpos : 0 < binade := by decide
  have hgrid (k s : Nat) (hs : s < binade) : unitsAt ((k + 1) * binade + s) = (binade + s) * 2 ^ k := by
    have hdiv : ((k + 1) * binade + s) / binade = k + 1 := by
      rw [Nat.mul_comm, Nat.mul_add_div hpos, Nat.div_eq_of_lt hs, Nat.add_zero]
    have hmod : ((k + 1) * binade + s) % binade = s := by
      rw [Nat.mul_comm, Nat.mul_add_mod, Nat.mod_eq_of_lt hs]
    unfold unitsAt
    split
    · next hsmall =>
      have hk : k = 0 := by
        by_contra hne
        have := Nat.mul_le_mul_right binade (show 2 ≤ k + 1 by omega)
        omega
      subst hk
      omega
    · rw [hdiv, hmod]
      rfl
  rcases Nat.lt_or_eq_of_le hhigh with hlt | rfl
  · have hrest := hgrid q (m - binade) (by omega)
    have hsame : q * binade + m = (q + 1) * binade + (m - binade) := by
      rw [Nat.add_mul]
      omega
    rw [hsame, hrest, Nat.add_sub_cancel' hlow]
  · have hnext := hgrid (q + 1) 0 hpos
    have hsame : q * binade + 2 * binade = (q + 1 + 1) * binade + 0 := by
      rw [Nat.add_zero, Nat.add_assoc, ← Nat.add_mul]
    rw [hsame, hnext, Nat.add_zero, Nat.pow_succ]
    ac_rfl

theorem unitsAt_strictMono : StrictMono unitsAt := by
  refine strictMono_nat_of_lt_succ fun r => ?_
  rcases Nat.lt_or_ge r binade with hlt | hge
  · have hself : unitsAt r = r := if_pos (by omega)
    have hnext : unitsAt (r + 1) = r + 1 := if_pos (by omega)
    omega
  · have hpos : 0 < binade := by decide
    have hdiv : r / binade * binade + r % binade = r := Nat.div_add_mod' r binade
    have hmod : r % binade < binade := Nat.mod_lt r hpos
    have hone : 1 ≤ r / binade := (Nat.one_le_div_iff hpos).mpr hge
    have hsplit : r = (r / binade - 1) * binade + (binade + r % binade) := by
      rw [Nat.sub_mul, Nat.one_mul]
      have := Nat.mul_le_mul_right binade hone
      omega
    generalize r / binade - 1 = q at hsplit
    generalize r % binade = s at hsplit hmod
    rw [hsplit, Nat.add_assoc, unitsAt_grid q (by omega) (by omega), unitsAt_grid q (by omega) (by omega)]
    exact Nat.mul_lt_mul_of_pos_right (Nat.lt_succ_self _) (Nat.two_pow_pos q)

theorem unitsAt_rankNearest (n : Nat) : unitsAt (rankNearest n 1) = nearestNat n * 2 ^ 1074 := by
  by_cases hn : n = 0
  · have hunits : unitsAt 0 = 0 := by decide
    simp only [hn, rankNearest_zero, nearestNat_zero, hunits, Nat.zero_mul]
  · obtain ⟨hlow, hhigh⟩ := significand_bounds hn
    rw [rankNearest_one hn, unitsAt_grid _ hlow hhigh]
    generalize hunit : 1074 = unit
    generalize hk : 1022 = k
    obtain rfl : unit = 52 + k := by omega
    rw [Nat.pow_add, ← Nat.mul_assoc, significand_mul_eq, Nat.mul_assoc, ← Nat.pow_add]

theorem rankNearest_lt_iff {m n : Nat} :
    rankNearest m 1 < rankNearest n 1 ↔ nearestNat m < nearestNat n := by
  rw [← unitsAt_strictMono.lt_iff_lt, unitsAt_rankNearest, unitsAt_rankNearest]
  generalize 1074 = unit
  exact Nat.mul_lt_mul_right (Nat.two_pow_pos unit)

theorem rankNearest_lt_rankEnd {n : Nat} (h : n < 2 ^ 64) : rankNearest n 1 < rankEnd := by
  by_cases hn : n = 0
  · rw [hn, rankNearest_zero]
    decide
  · have hlog : n.log2 < 64 := (Nat.log2_lt hn).mpr h
    have hsignificand := (significand_bounds hn).2
    have hend : (63 + 1022) * binade + 2 * binade < rankEnd := by decide
    have hproduct := Nat.mul_le_mul_right binade (show n.log2 + 1022 ≤ 63 + 1022 by omega)
    rw [rankNearest_one hn]
    omega

theorem place_ofInt {i : Int} (h : i.natAbs < 2 ^ 64) :
    (ofInt i).place =
      if i < 0 then -(rankNearest i.natAbs 1 : Int) else rankNearest i.natAbs 1 := by
  have hrank := rankNearest_lt_rankEnd h
  have hmin : min (rankNearest i.natAbs 1) (rankEnd - 1) = rankNearest i.natAbs 1 :=
    Nat.min_eq_left (by omega)
  simp only [ofInt, place, hmin, decide_eq_true_eq]

theorem place_ofInt_lt_iff {i j : Int} (hi : i.natAbs < 2 ^ 64) (hj : j.natAbs < 2 ^ 64) :
    (ofInt i).place < (ofInt j).place ↔ nearest i < nearest j := by
  have hij := rankNearest_lt_iff (m := i.natAbs) (n := j.natAbs)
  have hji := rankNearest_lt_iff (m := j.natAbs) (n := i.natAbs)
  have hzi := rankNearest_lt_iff (m := 0) (n := i.natAbs)
  have hzj := rankNearest_lt_iff (m := 0) (n := j.natAbs)
  rw [rankNearest_zero, nearestNat_zero] at hzi hzj
  rw [place_ofInt hi, place_ofInt hj, nearest, nearest]
  generalize rankNearest i.natAbs 1 = ri at *
  generalize rankNearest j.natAbs 1 = rj at *
  generalize nearestNat i.natAbs = ni at *
  generalize nearestNat j.natAbs = nj at *
  by_cases hineg : i < 0 <;> by_cases hjneg : j < 0 <;> simp only [hineg, hjneg, if_true, if_false] <;> omega

theorem nearestNat_bounds {n : Nat} (hn : n ≠ 0) :
    2 ^ n.log2 ≤ nearestNat n ∧ nearestNat n ≤ 2 ^ (n.log2 + 1) := by
  have hbinade : binade = 2 ^ 52 := rfl
  obtain ⟨hlow, hhigh⟩ := significand_bounds hn
  have hself := significand_mul_eq (n := n)
  have hleft := Nat.mul_le_mul_right (2 ^ n.log2) hlow
  have hright := Nat.mul_le_mul_right (2 ^ n.log2) hhigh
  rw [hself, hbinade] at hleft hright
  rw [Nat.pow_succ]
  omega

theorem nearestNat_le_nearestNat {m n : Nat} (h : m ≤ n) : nearestNat m ≤ nearestNat n := by
  by_cases hm : m = 0
  · rw [hm, nearestNat_zero]
    exact Nat.zero_le _
  have hn : n ≠ 0 := by omega
  have hlog : m.log2 ≤ n.log2 := (Nat.le_log2 hn).mpr ((Nat.log2_self_le hm).trans h)
  rcases Nat.lt_or_eq_of_le hlog with hlt | heq
  · calc nearestNat m ≤ 2 ^ (m.log2 + 1) := (nearestNat_bounds hm).2
      _ ≤ 2 ^ n.log2 := Nat.pow_le_pow_right (by decide) hlt
      _ ≤ nearestNat n := (nearestNat_bounds hn).1
  · have hgrain : grain m = grain n := by rw [grain, heq, grain]
    rw [nearestNat, nearestNat, hgrain]
    exact Nat.mul_le_mul_right _ (divNearest_le_divNearest h (grain_pos n))

theorem nearest_le_nearest {i j : Int} (h : i ≤ j) : nearest i ≤ nearest j := by
  unfold nearest
  by_cases hi : i < 0 <;> by_cases hj : j < 0 <;> simp only [hi, hj, if_true, if_false]
  · have hle := nearestNat_le_nearestNat (show j.natAbs ≤ i.natAbs by omega)
    omega
  · omega
  · omega
  · have hle := nearestNat_le_nearestNat (show i.natAbs ≤ j.natAbs by omega)
    omega

/-- A whole number of 64 bits is within 1024 of the nearest double. -/
theorem nearest_near {i : Int} (h : i.natAbs < 2 ^ 64) : (nearest i - i).natAbs ≤ 1024 := by
  have hgrain : grain i.natAbs ≤ 2 ^ 11 := by
    by_cases hn : i.natAbs = 0
    · rw [hn]
      decide
    · have hlog : i.natAbs.log2 < 64 := (Nat.log2_lt hn).mpr h
      exact Nat.pow_le_pow_right (by decide) (by omega)
  have hnear := divNearest_near i.natAbs (grain_pos i.natAbs)
  unfold nearest nearestNat
  generalize divNearest i.natAbs (grain i.natAbs) * grain i.natAbs = n at *
  split <;> omega

theorem nearest_of_natAbs_le {i : Int} (h : i.natAbs ≤ 2 ^ 53) : nearest i = i := by
  rw [nearest, nearestNat_of_le h]
  split <;> omega

end Binary64

namespace Comparator

open Binary64

/-- Two whole numbers of 64 bits are equal to the comparators if and only if they have the same nearest
double, and all others are in their exact order. Up to `2 ^ 53` no two have the same, and of any size none
that are more than 2048 apart. -/
theorem holds_int_iff [Dialect] {i j : Int} (hi : -2 ^ 63 ≤ i ∧ i < 2 ^ 64) (hj : -2 ^ 63 ≤ j ∧ j < 2 ^ 64) :
    (equal.holds (.int i) (.int j) = true ↔ nearest i = nearest j) ∧
    (greaterThan.holds (.int i) (.int j) = true ↔ j < i ∧ nearest i ≠ nearest j) ∧
    (lessThan.holds (.int i) (.int j) = true ↔ i < j ∧ nearest i ≠ nearest j) ∧
    (nearest i = nearest j → (i - j).natAbs ≤ 2048) ∧
    (i.natAbs ≤ 2 ^ 53 → j.natAbs ≤ 2 ^ 53 → (nearest i = nearest j ↔ i = j)) := by
  have hi' : i.natAbs < 2 ^ 64 := by omega
  have hj' : j.natAbs < 2 ^ 64 := by omega
  have hlt := place_ofInt_lt_iff hi' hj'
  have hgt := place_ofInt_lt_iff hj' hi'
  have hmono : i ≤ j → nearest i ≤ nearest j := nearest_le_nearest
  have hanti : j ≤ i → nearest j ≤ nearest i := nearest_le_nearest
  refine ⟨?_, ?_, ?_, fun hsame => ?_, fun hismall hjsmall => ?_⟩
  · have hholds : equal.holds (.int i) (.int j) = true ↔ (ofInt i).place = (ofInt j).place := same_iff
    rw [hholds]
    omega
  · have hholds : greaterThan.holds (.int i) (.int j) = true ↔ (ofInt j).place < (ofInt i).place := by
      simp [holds, order?, Json.looseNumber?, compare_gt_iff_gt]
    rw [hholds]
    omega
  · have hholds : lessThan.holds (.int i) (.int j) = true ↔ (ofInt i).place < (ofInt j).place := by
      simp [holds, order?, Json.looseNumber?, compare_lt_iff_lt]
    rw [hholds]
    omega
  · have hnear := nearest_near hi'
    have hnear' := nearest_near hj'
    omega
  · rw [nearest_of_natAbs_le hismall, nearest_of_natAbs_le hjsmall]

theorem greaterThan_holds_of_odd :
    greaterThan.holds (.int 9007199254740995) (.int 9007199254740993) = true := by
  have hnearest : nearest 9007199254740995 ≠ nearest 9007199254740993 := by decide +kernel
  exact (holds_int_iff (by decide) (by decide)).2.1.mpr ⟨by decide, hnearest⟩

theorem equal_holds_of_ne :
    (9007199254740993 : Int) ≠ 9007199254740992 ∧
    equal.holds (.int 9007199254740993) (.int 9007199254740992) = true ∧
    greaterThan.holds (.int 9007199254740993) (.int 9007199254740992) = false := by
  decide +kernel

end Comparator

end Formwork
