import FilterQuery.Proofs.Number.Binary64
import Mathlib.Algebra.Order.Field.Basic
import Mathlib.Algebra.Order.Field.Rat

/-!
# Rounding to the nearest datum

Decimal text is rounded to the datum nearest to it, and of two that are equally near to the one with
the even significand.  An infinity counts as the power of two that follows the largest finite datum,
so what is past the middle between the two is infinite.

The units of a datum that is rounded to are doubled just as often as leaves its significand
fifty-three bits.  Data whose units are doubled at least as often lie on a grid, on which rounding
finds the nearest point; all others are smaller than a power of two on that grid, which does not
exceed what is rounded, so they are farther off than a datum on the grid.

Main results:

- `isNearest_ofRatio`: a fraction is rounded to the nearest datum.
- `isNearest_ofDecimal`, `isNearest_ofInt`, `isNearest_ofDigits`: so is a decimal number, whatever
  its power of ten.
- `negative_ofDigits`: the sign is the one that is written.
-/

namespace FilterQuery.Number.Binary64

/-! ## Nearest data -/

/-- The number that a datum stands for without its sign, where an infinity counts as the power of
two that follows the largest finite datum. -/
def magnitude (x : Binary64) : ℚ :=
  x.units / 2 ^ 1074

/-- Whether a datum is nearest to a number, and of two that are equally near the one with the even
significand. -/
structure IsNearest (r : ℚ) (x : Binary64) : Prop where
  number : x.isNaN = false
  nearest : ∀ y : Binary64, y.isNaN = false → |r - x.magnitude| ≤ |r - y.magnitude|
  even : ∀ y : Binary64, y.isNaN = false → |r - y.magnitude| = |r - x.magnitude| →
    y.magnitude ≠ x.magnitude → x.significand % 2 = 0

/-- How far two whole numbers are from each other. -/
def distance (m n : Nat) : Nat :=
  ((m : Int) - n).natAbs

/-- A multiple lies a step or more below another one, is that one or the next, or lies two steps or
more above it. -/
theorem multiple_cases (k q d : Nat) :
    k * d + d ≤ q * d ∨ k = q ∨ k = q + 1 ∨ q * d + d + d ≤ k * d := by
  rcases Nat.lt_trichotomy k q with hbelow | heq | habove
  · left
    rw [← Nat.succ_mul]
    exact Nat.mul_le_mul_right d hbelow
  · exact .inr (.inl heq)
  · rcases Nat.eq_or_lt_of_le habove with heq | hfar
    · exact .inr (.inr (.inl heq.symm))
    · right; right; right
      rw [← Nat.succ_mul, ← Nat.succ_mul]
      exact Nat.mul_le_mul_right d hfar

/-- A quotient is rounded to the nearest whole number, and of two that are equally near to the even
one. -/
theorem roundQuotient_nearest (n k : Nat) {d : Nat} (h : 0 < d) :
    distance n (roundQuotient n d * d) ≤ distance n (k * d) ∧
      (distance n (k * d) = distance n (roundQuotient n d * d) → k ≠ roundQuotient n d →
        roundQuotient n d % 2 = 0) := by
  have hsplit := Nat.div_add_mod' n d
  have hrest := Nat.mod_lt n h
  have hmultiple := multiple_cases k (n / d) d
  unfold distance roundQuotient
  dsimp only
  generalize n / d = q at hsplit hmultiple
  generalize n % d = r at hsplit hrest
  have hnext : (q + 1) * d = q * d + d := Nat.succ_mul q d
  rcases Nat.lt_trichotomy (2 * r) d with hdown | hhalf | hup
  · rw [if_pos hdown]
    rcases hmultiple with hbelow | rfl | rfl | habove <;> omega
  · rw [if_neg (by omega), if_neg (by omega)]
    rcases Nat.mod_two_eq_zero_or_one q with heven | hodd
    · rw [heven, Nat.add_zero]
      rcases hmultiple with hbelow | rfl | rfl | habove <;> omega
    · rw [hodd]
      rcases hmultiple with hbelow | rfl | rfl | habove <;> omega
  · rw [if_neg (by omega), if_pos hup]
    rcases hmultiple with hbelow | rfl | rfl | habove <;> omega

/-! ## Grids of data -/

/-- The fields of a datum of a given rank, as far as that of infinity. -/
theorem fields_ofWord (negative : Bool) {word : Nat} (h : word ≤ 2047 * Nat.pow 2 52) :
    (ofWord negative word).exponent.val = word / 2 ^ 52 ∧
      (ofWord negative word).fraction.val = word % 2 ^ 52 := by
  unfold ofWord
  split
  · exact ⟨rfl, rfl⟩
  · next hlarge =>
      simp only [Nat.pow_eq] at h hlarge ⊢
      omega

/-- A datum with an exponent field that is not zero has a bit in front of its fraction. -/
theorem units_of_exponent {x : Binary64} {e : Nat} (h : x.exponent.val = e + 1) :
    x.significand = 2 ^ 52 + x.fraction.val ∧ x.units = (2 ^ 52 + x.fraction.val) * 2 ^ e := by
  have hsignificand : x.significand = 2 ^ 52 + x.fraction.val := if_neg (by omega)
  have hscale : x.scale = e := by
    rw [scale, h, Nat.add_sub_cancel]
  refine ⟨hsignificand, ?_⟩
  rw [units, hsignificand, hscale]
  rfl

/-- A point of a grid is a datum that has the point's parity, unless the grid is too coarse. -/
theorem units_ofWord_grid (negative : Bool) {grid m : Nat} (hgrid : grid ≤ 2045)
    (hmost : m ≤ 2 ^ 53) (hleast : grid = 0 ∨ 2 ^ 52 ≤ m) :
    (ofWord negative (grid * Nat.pow 2 52 + m)).units = m * 2 ^ grid ∧
      (ofWord negative (grid * Nat.pow 2 52 + m)).significand % 2 = m % 2 := by
  have hword : grid * Nat.pow 2 52 + m ≤ 2047 * Nat.pow 2 52 := by
    simp only [Nat.pow_eq]
    omega
  rcases fields_ofWord negative hword with ⟨hexponent, hfraction⟩
  generalize ofWord negative (grid * Nat.pow 2 52 + m) = x at hexponent hfraction ⊢
  simp only [Nat.pow_eq] at hexponent hfraction
  rcases Nat.lt_trichotomy m (2 ^ 53) with hsmall | rfl | hlarge
  · by_cases hfirst : m < 2 ^ 52
    · -- Only units that are not doubled have so few bits in front of them.
      have hzero : x.exponent.val = 0 := by omega
      have hsignificand : x.significand = m := by
        rw [significand, if_pos hzero]
        omega
      have hunits : x.units = m * 2 ^ grid := by
        have hunit : grid = 0 := by omega
        rw [units, hsignificand, scale, hzero, hunit, Nat.pow_eq]
      exact ⟨hunits, by rw [hsignificand]⟩
    · have hnext : x.exponent.val = grid + 1 := by omega
      have hbits : 2 ^ 52 + x.fraction.val = m := by omega
      rcases units_of_exponent hnext with ⟨hsignificand, hunits⟩
      rw [hbits] at hsignificand hunits
      exact ⟨hunits, by rw [hsignificand]⟩
  · -- The next power of two is the first datum whose units are doubled once more.
    have hnext : x.exponent.val = grid + 1 + 1 := by omega
    have hbits : x.fraction.val = 0 := by omega
    rcases units_of_exponent hnext with ⟨hsignificand, hunits⟩
    rw [hbits, Nat.add_zero] at hsignificand hunits
    refine ⟨?_, by rw [hsignificand]; rfl⟩
    rw [hunits, Nat.pow_succ 2 grid, Nat.pow_succ 2 52, Nat.mul_assoc, Nat.mul_comm 2]
  · omega

/-- A datum whose units are doubled less often than those of a grid has fewer units than a power of
two on the grid. -/
theorem units_lt_of_scale_lt {x : Binary64} {grid : Nat} (h : x.scale < grid) :
    x.units < 2 ^ 52 * 2 ^ grid := by
  have hfraction : x.fraction.val < 2 ^ 52 := x.fraction.isLt
  have hsignificand : x.significand < 2 ^ 53 := by
    unfold significand
    simp only [Nat.pow_eq]
    split <;> omega
  calc x.units < 2 ^ 53 * 2 ^ x.scale :=
        Nat.mul_lt_mul_of_pos_right hsignificand (Nat.two_pow_pos _)
    _ = 2 ^ 52 * 2 ^ (x.scale + 1) := by
        rw [← Nat.pow_add, ← Nat.pow_add]
        congr 1
        omega
    _ ≤ 2 ^ 52 * 2 ^ grid := Nat.mul_le_mul_left _ (Nat.pow_le_pow_right (by decide) h)

/-- The units of a datum are on a grid, or they are fewer than a power of two on the grid. -/
theorem units_grid_or_small (y : Binary64) (grid : Nat) :
    (∃ k, y.units = k * 2 ^ grid) ∨ 0 < grid ∧ y.units < 2 ^ 52 * 2 ^ grid := by
  rcases Nat.lt_or_ge y.scale grid with hfine | hcoarse
  · exact .inr ⟨by omega, units_lt_of_scale_lt hfine⟩
  · left
    refine ⟨y.significand * 2 ^ (y.scale - grid), ?_⟩
    rw [Nat.mul_assoc, ← Nat.pow_add, Nat.sub_add_cancel hcoarse]
    rfl

/-- An infinity counts as the power of two that follows the largest finite datum. -/
theorem units_infinity (negative : Bool) {most : Nat} (hmost : 2046 = most) :
    (infinity negative).units = 2 ^ 52 * 2 ^ most := by
  rcases fields_ofWord negative (Nat.le_refl (2047 * Nat.pow 2 52)) with ⟨hexponent, hfraction⟩
  have hnext : (infinity negative).exponent.val = most + 1 :=
    (hexponent.trans (Nat.mul_div_cancel 2047 (Nat.two_pow_pos 52))).trans (by omega)
  have hbits : (infinity negative).fraction.val = 0 :=
    hfraction.trans (Nat.mul_mod_left 2047 (2 ^ 52))
  rw [(units_of_exponent hnext).2, hbits, Nat.add_zero]

/-- No number has more units than an infinity. -/
theorem units_le_infinity {y : Binary64} (h : y.isNaN = false) {most : Nat}
    (hmost : 2046 = most) : y.units ≤ 2 ^ 52 * 2 ^ most := by
  have hexponent : y.exponent.val < 2048 := y.exponent.isLt
  by_cases hinfinite : y.exponent.val = 2047
  · have hbits : y.fraction.val = 0 := by simpa [isNaN, hinfinite] using h
    have hnext : y.exponent.val = most + 1 := by omega
    rw [(units_of_exponent hnext).2, hbits, Nat.add_zero]
  · exact (units_lt_of_scale_lt (by unfold scale; omega)).le

/-! ## Fractions -/

/-- A quotient is rounded to one of the two whole numbers around it. -/
theorem roundQuotient_bounds (n d : Nat) :
    n / d ≤ roundQuotient n d ∧ roundQuotient n d ≤ n / d + 1 := by
  unfold roundQuotient
  dsimp only
  split
  · omega
  · split <;> omega

/-- The grid is as coarse as leaves fifty-three bits to a quotient, unless it is the finest one. -/
theorem grid_bounds (units : Nat) {d : Nat} (hd : 0 < d) {grid : Nat}
    (h : (units / d).log2 - 52 = grid) :
    (grid = 0 ∨ 2 ^ 52 * (d * 2 ^ grid) ≤ units) ∧ units < 2 ^ 53 * (d * 2 ^ grid) := by
  have hpower : ∀ bits, 2 ^ bits * (d * 2 ^ grid) = d * 2 ^ (bits + grid) := fun bits => by
    rw [Nat.pow_add, Nat.mul_left_comm]
  rw [hpower, hpower]
  constructor
  · rcases Nat.eq_zero_or_pos grid with hzero | hpos
    · exact .inl hzero
    · have hsome : units / d ≠ 0 := by
        intro hzero
        rw [hzero] at h
        simp at h
        omega
      have hbits : 2 ^ (52 + grid) ≤ units / d := (Nat.le_log2 hsome).mp (by omega)
      exact .inr ((Nat.mul_le_mul_left d hbits).trans (Nat.mul_div_le units d))
  · have hbits : units / d < 2 ^ (53 + grid) :=
      Nat.lt_of_lt_of_le Nat.lt_log2_self (Nat.pow_le_pow_right (by decide) (by omega))
    rw [Nat.mul_comm]
    exact (Nat.div_lt_iff_lt_mul hd).mp hbits

/-- No datum is nearer than infinity to what is not smaller than it, and each of the others is
farther off. -/
theorem distance_infinity_le (negative : Bool) {units d most : Nat} (hd : 0 < d)
    (hmost : 2046 = most) (h : 2 ^ 52 * 2 ^ most * d ≤ units) {y : Binary64}
    (hy : y.isNaN = false) :
    distance units ((infinity negative).units * d) ≤ distance units (y.units * d) ∧
      (distance units (y.units * d) = distance units ((infinity negative).units * d) →
        y.units = (infinity negative).units) := by
  have hle := units_le_infinity hy hmost
  have hsmaller := Nat.mul_le_mul_right d hle
  rw [units_infinity negative hmost]
  refine ⟨by unfold distance; omega, fun hsame => ?_⟩
  by_contra hne
  have hless := Nat.mul_lt_mul_of_pos_right (Nat.lt_of_le_of_ne hle hne) hd
  unfold distance at hsame
  omega

/-- No datum is nearer than the point of a grid that something is rounded to, unless the grid is too
coarse for it, and of an equally near one the point differs only if it is even. -/
theorem distance_point_le {units d grid : Nat} (hd : 0 < d)
    (hleast : grid = 0 ∨ 2 ^ 52 * (d * 2 ^ grid) ≤ units) (y : Binary64) :
    distance units (roundQuotient units (d * 2 ^ grid) * 2 ^ grid * d) ≤
        distance units (y.units * d) ∧
      (distance units (y.units * d) =
          distance units (roundQuotient units (d * 2 ^ grid) * 2 ^ grid * d) →
        y.units ≠ roundQuotient units (d * 2 ^ grid) * 2 ^ grid →
          roundQuotient units (d * 2 ^ grid) % 2 = 0) := by
  have hstep : 0 < d * 2 ^ grid := Nat.mul_pos hd (Nat.two_pow_pos grid)
  have hpoint : ∀ k, k * 2 ^ grid * d = k * (d * 2 ^ grid) := fun k => by
    rw [Nat.mul_assoc, Nat.mul_comm (2 ^ grid)]
  rw [hpoint]
  rcases units_grid_or_small y grid with ⟨k, hk⟩ | ⟨hpos, hsmall⟩
  · have hnearest := roundQuotient_nearest units k hstep
    rw [hk, hpoint]
    exact ⟨hnearest.1, fun hsame hne => hnearest.2 hsame fun heq => hne (by rw [heq])⟩
  · -- A datum between the points of the grid is smaller than a point that is no farther off.
    have hnearest := (roundQuotient_nearest units (2 ^ 52) hstep).1
    have hbelow := hleast.resolve_left (by omega)
    have hless := Nat.mul_lt_mul_of_pos_right hsmall hd
    rw [hpoint] at hless
    unfold distance at hnearest ⊢
    exact ⟨by omega, fun hsame _ => by omega⟩

/-- The datum that a fraction is rounded to is the nearest one, by the distance in units times the
denominator. -/
theorem units_ofRatio_nearest (negative : Bool) (n : Nat) {d : Nat} (hd : 0 < d) {places : Nat}
    (hplaces : 1074 = places) {y : Binary64} (hy : y.isNaN = false) :
    distance (n * 2 ^ places) ((ofRatio negative n d).units * d) ≤
        distance (n * 2 ^ places) (y.units * d) ∧
      (distance (n * 2 ^ places) (y.units * d) =
          distance (n * 2 ^ places) ((ofRatio negative n d).units * d) →
        y.units ≠ (ofRatio negative n d).units →
          (ofRatio negative n d).significand % 2 = 0) := by
  obtain ⟨grid, hgrid⟩ : ∃ grid, (n * 2 ^ places / d).log2 - 52 = grid := ⟨_, rfl⟩
  have hpower : Nat.pow 2 grid = 2 ^ grid := rfl
  rw [ofRatio_eq hplaces hgrid, hpower]
  generalize n * 2 ^ places = units at hgrid ⊢
  rcases grid_bounds units hd hgrid with ⟨hleast, hmost⟩
  have hstep : 0 < d * 2 ^ grid := Nat.mul_pos hd (Nat.two_pow_pos grid)
  have hbounds := roundQuotient_bounds units (d * 2 ^ grid)
  have hround : roundQuotient units (d * 2 ^ grid) ≤ 2 ^ 53 :=
    hbounds.2.trans ((Nat.div_lt_iff_lt_mul hstep).mpr hmost)
  have hfull : grid = 0 ∨ 2 ^ 52 ≤ roundQuotient units (d * 2 ^ grid) :=
    hleast.imp_right fun hle => ((Nat.le_div_iff_mul_le hstep).mpr hle).trans hbounds.1
  rcases Nat.lt_or_ge 2045 grid with hlarge | hfinite
  · -- What is rounded is at least as large as an infinity, which is the largest datum.
    obtain ⟨most, hmost⟩ : ∃ most, 2046 = most := ⟨_, rfl⟩
    have hrank : 2047 * Nat.pow 2 52 ≤
        grid * Nat.pow 2 52 + roundQuotient units (d * 2 ^ grid) := by
      have hfull := hfull.resolve_left (by omega)
      simp only [Nat.pow_eq] at hfull ⊢
      omega
    have hinfinity : 2 ^ 52 * 2 ^ most * d ≤ units := by
      refine Nat.le_trans ?_ (hleast.resolve_left (by omega))
      rw [Nat.mul_assoc, Nat.mul_comm (2 ^ most)]
      exact Nat.mul_le_mul_left _ (Nat.mul_le_mul_left d
        (Nat.pow_le_pow_right (by decide) (by omega)))
    rw [ofWord_of_large hrank]
    rcases distance_infinity_le negative hd hmost hinfinity hy with ⟨hnearest, hunique⟩
    exact ⟨hnearest, fun hsame hne => absurd (hunique hsame) hne⟩
  · rcases units_ofWord_grid negative hfinite hround hfull with ⟨hunits, hparity⟩
    rw [hparity, hunits]
    exact distance_point_le hd hleast y

/-- How far a fraction is from a datum, in units and with the denominator taken out. -/
theorem abs_sub_magnitude (n : Nat) {d : Nat} (hd : 0 < d) {places : Nat} (hplaces : 1074 = places)
    (x : Binary64) :
    |(n : ℚ) / d - x.magnitude| =
      (distance (n * 2 ^ places) (x.units * d) : ℚ) / ((d * 2 ^ places : Nat) : ℚ) := by
  have hdenominator : (d : ℚ) ≠ 0 := by exact_mod_cast hd.ne'
  have hunit : (2 : ℚ) ^ places ≠ 0 := pow_ne_zero _ (by norm_num)
  have hpos : (0 : ℚ) < ((d * 2 ^ places : Nat) : ℚ) := by
    exact_mod_cast Nat.mul_pos hd (Nat.two_pow_pos places)
  have hdistance : (distance (n * 2 ^ places) (x.units * d) : ℚ) =
      |(n : ℚ) * 2 ^ places - d * x.units| := by
    rw [distance, Nat.cast_natAbs, Int.cast_abs]
    push_cast
    rw [mul_comm (x.units : ℚ)]
  rw [magnitude, hplaces, div_sub_div _ _ hdenominator hunit, abs_div, hdistance]
  push_cast at hpos ⊢
  rw [abs_of_pos hpos]

/-- A fraction is rounded to the nearest datum. -/
theorem isNearest_ofRatio (negative : Bool) (n : Nat) {d : Nat} (hd : 0 < d) :
    IsNearest ((n : ℚ) / d) (ofRatio negative n d) := by
  obtain ⟨places, hplaces⟩ : ∃ places, 1074 = places := ⟨_, rfl⟩
  have hpos : (0 : ℚ) < ((d * 2 ^ places : Nat) : ℚ) := by
    exact_mod_cast Nat.mul_pos hd (Nat.two_pow_pos places)
  refine ⟨isNaN_ofWord negative _, fun y hy => ?_, fun y hy hsame hne => ?_⟩
  · rw [abs_sub_magnitude n hd hplaces, abs_sub_magnitude n hd hplaces,
      div_le_div_iff_of_pos_right hpos]
    exact_mod_cast (units_ofRatio_nearest negative n hd hplaces hy).1
  · rw [abs_sub_magnitude n hd hplaces, abs_sub_magnitude n hd hplaces,
      div_left_inj' hpos.ne'] at hsame
    refine (units_ofRatio_nearest negative n hd hplaces hy).2 (by exact_mod_cast hsame) ?_
    exact fun hunits => hne (by rw [magnitude, magnitude, hunits])

/-! ## Decimal numbers -/

/-- Zero of either sign is the nearest datum to zero. -/
theorem isNearest_zero (negative : Bool) : IsNearest 0 (zero negative) := by
  rcases units_ofWord_grid negative (Nat.zero_le 2045) (Nat.zero_le (2 ^ 53)) (.inl rfl) with
    ⟨hunits, hparity⟩
  have hmagnitude : (zero negative).magnitude = 0 := by
    have hzero : (zero negative).units = 0 := hunits.trans (Nat.zero_mul _)
    rw [magnitude, hzero, Nat.cast_zero, zero_div]
  refine ⟨isNaN_ofWord negative 0, fun y _ => ?_, fun _ _ _ _ => hparity⟩
  rw [hmagnitude, sub_self, abs_zero]
  exact abs_nonneg _

/-- A decimal number is rounded to the nearest datum, whatever its power of ten. -/
theorem isNearest_ofDecimal (negative : Bool) (digits : Nat) (power : Int) :
    IsNearest ((digits : ℚ) * 10 ^ power) (ofDecimal negative digits power) := by
  rcases Nat.eq_zero_or_pos digits with rfl | hpos
  · rw [Nat.cast_zero, zero_mul]
    exact isNearest_zero negative
  · rw [ofDecimal_eq negative hpos]
    split
    · next hpower =>
        obtain ⟨zeros, rfl⟩ := Int.eq_ofNat_of_zero_le hpower
        have hnearest := isNearest_ofRatio negative (digits * Nat.pow 10 zeros) Nat.one_pos
        simpa using hnearest
    · next hpower =>
        obtain ⟨places, hplaces⟩ : ∃ places : Nat, -power = places :=
          Int.eq_ofNat_of_zero_le (by omega)
        have hten : (10 : ℚ) ^ power = ((10 ^ places : Nat) : ℚ)⁻¹ := by
          rw [← neg_neg power, hplaces, zpow_neg, zpow_natCast]
          push_cast
          rfl
        rw [hten, ← div_eq_mul_inv, hplaces, Int.toNat_natCast]
        exact isNearest_ofRatio negative digits (Nat.pow_pos (by decide))

/-- An integer is rounded to the nearest datum. -/
theorem isNearest_ofInt (n : Int) : IsNearest n.natAbs (ofInt n) := by
  have hnearest := isNearest_ofDecimal (decide (n < 0)) n.natAbs 0
  rwa [zpow_zero, mul_one] at hnearest

/-- What digits before and after a point denote is rounded to the nearest datum. -/
theorem isNearest_ofDigits (negative : Bool) (whole decimals : List Char) (power : Int) :
    IsNearest ((Text.digitsValue (whole ++ decimals) : ℚ) * 10 ^ (power - decimals.length))
      (ofDigits negative whole decimals power) :=
  isNearest_ofDecimal negative _ _

/-- The sign of a datum of a given rank is the one that is given. -/
theorem negative_ofWord (negative : Bool) (word : Nat) :
    (ofWord negative word).negative = negative := by
  unfold ofWord
  split <;> rfl

/-- A number that is read from digits has the sign that is written. -/
theorem negative_ofDigits (negative : Bool) (whole decimals : List Char) (power : Int) :
    (ofDigits negative whole decimals power).negative = negative := by
  unfold ofDigits ofDecimal
  split_ifs <;> exact negative_ofWord negative _

end FilterQuery.Number.Binary64
