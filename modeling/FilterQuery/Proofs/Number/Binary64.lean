import FilterQuery.Number.Shortest
import Mathlib.Algebra.Order.Ring.Nat
import Mathlib.Data.Nat.Log

/-!
# Decimal numbers and the data nearest to them

Which datum is nearest to a decimal number depends on the number only, not on how many of its
zeros are written as digits.  A datum is the nearest one to its own exact value, so the shortest
digits of a finite datum always denote it.

Main results:

- `ofRatio_mul_right`: the nearest datum to a fraction does not change when it is expanded.
- `ofDecimal_mul_pow`: zeros at the end may be digits or be part of the power of ten.
- `isNaN_ofDigits`: what is written as a number is read as a number or an infinity.
- `ofDecimal_shortest`: the shortest digits of a datum denote it.
-/

namespace FilterQuery.Number.Binary64

/-! ## Fractions -/

/-- Rounding a fraction does not change when it is expanded. -/
theorem roundQuotient_mul_right (n d : Nat) {c : Nat} (h : 0 < c) :
    roundQuotient (n * c) (d * c) = roundQuotient n d := by
  have hquotient : n * c / (d * c) = n / d := Nat.mul_div_mul_right n d h
  have hrest : n * c % (d * c) = n % d * c := Nat.mul_mod_mul_right c n d
  have hbelow : 2 * (n % d * c) < d * c ↔ 2 * (n % d) < d := by
    rw [← Nat.mul_assoc, Nat.mul_lt_mul_right h]
  have habove : d * c < 2 * (n % d * c) ↔ d < 2 * (n % d) := by
    rw [← Nat.mul_assoc, Nat.mul_lt_mul_right h]
  simp only [roundQuotient, hquotient, hrest, hbelow, habove]

/-- The datum nearest to a fraction, by how often the unit of `2 ^ -1074` is doubled for it. -/
theorem ofRatio_eq {negative : Bool} {n d places scale : Nat} (hplaces : 1074 = places)
    (hscale : (n * 2 ^ places / d).log2 - 52 = scale) :
    ofRatio negative n d = ofWord negative
      (scale * Nat.pow 2 52 + roundQuotient (n * 2 ^ places) (d * Nat.pow 2 scale)) := by
  subst hscale
  rw [ofRatio, hplaces]
  rfl

/-- The nearest datum to a fraction does not change when it is expanded. -/
theorem ofRatio_mul_right (negative : Bool) (n d : Nat) {c : Nat} (h : 0 < c) :
    ofRatio negative (n * c) (d * c) = ofRatio negative n d := by
  obtain ⟨places, hplaces⟩ : ∃ places, 1074 = places := ⟨_, rfl⟩
  have hunits : n * c * 2 ^ places = n * 2 ^ places * c := Nat.mul_right_comm n c _
  have hquotient : n * c * 2 ^ places / (d * c) = n * 2 ^ places / d := by
    rw [hunits, Nat.mul_div_mul_right _ d h]
  rw [ofRatio_eq hplaces rfl, ofRatio_eq hplaces rfl, hquotient, hunits, Nat.mul_right_comm d c,
    roundQuotient_mul_right _ _ h]

/-- A fraction below half a unit is nearest to zero. -/
theorem ofRatio_of_small {negative : Bool} {n d size : Nat} (hn : n < 2 ^ size)
    (hd : 2 ^ (size + 1075) ≤ d) : ofRatio negative n d = zero negative := by
  obtain ⟨places, hplaces⟩ : ∃ places, 1074 = places := ⟨_, rfl⟩
  have hhalf : 2 * (n * 2 ^ places) < d := by
    have hunits : n * 2 ^ places < 2 ^ (size + places) := by
      rw [Nat.pow_add]
      exact Nat.mul_lt_mul_of_pos_right hn (Nat.two_pow_pos places)
    have hdouble : 2 ^ (size + 1075) = 2 ^ (size + places) * 2 := by
      rw [← Nat.pow_succ, ← hplaces]
    omega
  have hquotient : n * 2 ^ places / d = 0 := Nat.div_eq_of_lt (by omega)
  have hrest : n * 2 ^ places % d = n * 2 ^ places := Nat.mod_eq_of_lt (by omega)
  have hscale : (n * 2 ^ places / d).log2 - 52 = 0 := by
    rw [hquotient]
    rfl
  have hunit : d * Nat.pow 2 0 = d := Nat.mul_one d
  have hround : roundQuotient (n * 2 ^ places) (d * Nat.pow 2 0) = 0 := by
    rw [hunit, roundQuotient, hquotient, hrest, if_pos hhalf]
  rw [ofRatio_eq hplaces hscale, hround]
  rfl

/-- A rank past the largest finite one is that of infinity. -/
theorem ofWord_of_large {negative : Bool} {word : Nat} (h : 2047 * Nat.pow 2 52 ≤ word) :
    ofWord negative word = infinity negative := by
  rw [infinity, ofWord, ofWord, dif_neg (Nat.not_lt.mpr h), dif_neg (Nat.lt_irrefl _)]

/-- A whole number past the largest finite datum is nearest to infinity. -/
theorem ofRatio_of_large {negative : Bool} {n size : Nat} (hsize : 1025 ≤ size)
    (hn : 2 ^ size ≤ n) : ofRatio negative n 1 = infinity negative := by
  obtain ⟨places, hplaces⟩ : ∃ places, 1074 = places := ⟨_, rfl⟩
  have hunits : 2 ^ (size + places) ≤ n * 2 ^ places / 1 := by
    rw [Nat.div_one, Nat.pow_add]
    exact Nat.mul_le_mul_right _ hn
  have hpos : n * 2 ^ places / 1 ≠ 0 := by
    have hpower := Nat.two_pow_pos (size + places)
    omega
  have hlog : size + places ≤ (n * 2 ^ places / 1).log2 := (Nat.le_log2 hpos).mpr hunits
  have hrank : 2047 * Nat.pow 2 52 ≤ ((n * 2 ^ places / 1).log2 - 52) * Nat.pow 2 52 :=
    Nat.mul_le_mul_right _ (by omega)
  rw [ofRatio_eq hplaces rfl]
  exact ofWord_of_large (Nat.le_add_right_of_le hrank)

/-! ## Decimal numbers -/

/-- A power of ten is at least the power of two with three times its exponent. -/
theorem two_pow_le_ten_pow (n : Nat) : 2 ^ (3 * n) ≤ 10 ^ n := by
  rw [Nat.pow_mul]
  exact Nat.pow_le_pow_left (by decide) n

/-- The powers that are decided at once are decided rightly. -/
theorem ofDecimal_eq (negative : Bool) {digits : Nat} (h : 0 < digits) (power : Int) :
    ofDecimal negative digits power =
      if 0 ≤ power then ofRatio negative (digits * 10 ^ power.toNat) 1
      else ofRatio negative digits (10 ^ (-power).toNat) := by
  rw [ofDecimal, if_neg (by omega)]
  by_cases hlarge : 400 < power
  · have hdigits : 2 ^ (3 * power.toNat) ≤ digits * 10 ^ power.toNat :=
      Nat.le_trans (two_pow_le_ten_pow _) (Nat.le_mul_of_pos_left _ h)
    rw [if_pos hlarge, if_pos (by omega), ofRatio_of_large (by omega) hdigits]
  · rw [if_neg hlarge]
    by_cases hsmall : power + (digits.log2 + 1) < -400
    · have hpower : 2 ^ (digits.log2 + 1 + 1075) ≤ 10 ^ (-power).toNat :=
        Nat.le_trans (Nat.pow_le_pow_right (by decide) (by omega)) (two_pow_le_ten_pow _)
      rw [if_pos hsmall, if_neg (by omega), ofRatio_of_small Nat.lt_log2_self hpower]
    · rw [if_neg hsmall]
      rfl

/-- Zeros at the end may be digits or be part of the power of ten. -/
theorem ofDecimal_mul_pow (negative : Bool) (digits zeros : Nat) (power : Int) :
    ofDecimal negative (digits * 10 ^ zeros) power = ofDecimal negative digits (power + zeros) := by
  have hten : ∀ n, 0 < 10 ^ n := fun n => Nat.pow_pos (by decide)
  rcases Nat.eq_zero_or_pos digits with rfl | hpos
  · simp [ofDecimal]
  · rw [ofDecimal_eq negative (Nat.mul_pos hpos (hten zeros)), ofDecimal_eq negative hpos]
    by_cases hpower : 0 ≤ power
    · have hsum : (power + zeros).toNat = zeros + power.toNat := by omega
      rw [if_pos hpower, if_pos (by omega), hsum, Nat.pow_add, Nat.mul_assoc]
    · rw [if_neg hpower]
      by_cases hmoved : 0 ≤ power + zeros
      · have hsum : zeros = (power + zeros).toNat + (-power).toNat := by omega
        have hexpand := ofRatio_mul_right negative (digits * 10 ^ (power + zeros).toNat) 1
          (hten (-power).toNat)
        rw [Nat.mul_assoc, ← Nat.pow_add, ← hsum, Nat.one_mul] at hexpand
        rw [if_pos hmoved, hexpand]
      · have hsum : (-power).toNat = (-(power + zeros)).toNat + zeros := by omega
        rw [if_neg hmoved, hsum, Nat.pow_add, ofRatio_mul_right negative _ _ (hten zeros)]

/-! ## The absence of a number -/

/-- A rank is that of a number or of an infinity. -/
theorem isNaN_ofWord (negative : Bool) (word : Nat) : (ofWord negative word).isNaN = false := by
  unfold ofWord
  split
  · next h =>
      have hexponent : word / Nat.pow 2 52 ≠ 2047 := by
        simp only [Nat.pow_eq] at h ⊢
        omega
      simp [isNaN, hexponent]
  · simp [isNaN]

/-- A decimal number is read as a number or an infinity. -/
theorem isNaN_ofDecimal (negative : Bool) (digits : Nat) (power : Int) :
    (ofDecimal negative digits power).isNaN = false := by
  unfold ofDecimal
  repeat' split
  all_goals exact isNaN_ofWord negative _

/-- A finite datum is a number. -/
theorem isNaN_of_isFinite {x : Binary64} (h : x.isFinite = true) : x.isNaN = false := by
  have hexponent : x.exponent.val ≠ 2047 := by simpa [isFinite] using h
  simp [isNaN, hexponent]

/-- What is neither a number nor the absence of one is an infinity. -/
theorem eq_infinity {x : Binary64} (hfinite : ¬x.isFinite = true) (hnan : ¬x.isNaN = true) :
    x = infinity x.negative := by
  obtain ⟨negative, exponent, fraction⟩ := x
  have hexponent : exponent.val = 2047 := by simpa [isFinite] using hfinite
  have hfraction : fraction.val = 0 := by simpa [isNaN, hexponent] using hnan
  rw [infinity, ofWord, dif_neg (Nat.lt_irrefl _), mk.injEq]
  exact ⟨rfl, Fin.ext hexponent, Fin.ext hfraction⟩

/-- What is written as a number is read as a number or an infinity. -/
theorem isNaN_ofDigits (negative : Bool) (whole decimals : List Char) (power : Int) :
    (ofDigits negative whole decimals power).isNaN = false :=
  isNaN_ofDecimal negative _ _

/-! ## Exact values -/

/-- The significand of a datum that is not zero has fifty-three binary digits, or fewer if its unit
is not doubled. -/
theorem significand_bounds {x : Binary64} (h : x.isZero = false) :
    0 < x.significand ∧ x.significand < 2 ^ 53 ∧ (x.scale = 0 ∨ 2 ^ 52 ≤ x.significand) := by
  have hfraction : x.fraction.val < 2 ^ 52 := x.fraction.isLt
  have hsome : x.exponent.val ≠ 0 ∨ x.fraction.val ≠ 0 := by
    by_contra hnone
    simp_all [isZero]
  unfold significand scale
  split
  · simp only [Nat.pow_eq] at *
    omega
  · simp only [Nat.pow_eq] at *
    omega

/-- The units of a datum show how often they were doubled. -/
theorem log2_units {x : Binary64} (h : x.isZero = false) : x.units.log2 - 52 = x.scale := by
  rcases significand_bounds h with ⟨hpos, hbound, hfull⟩
  have hunits : x.units ≠ 0 := Nat.mul_ne_zero (by omega) (Nat.two_pow_pos _).ne'
  have hmost : x.units < 2 ^ (53 + x.scale) := by
    rw [Nat.pow_add]
    exact Nat.mul_lt_mul_of_pos_right hbound (Nat.two_pow_pos _)
  have hlog := (Nat.log2_lt hunits).mpr hmost
  rcases hfull with hunit | hfull
  · omega
  · have hleast : 2 ^ (52 + x.scale) ≤ x.units := by
      rw [Nat.pow_add]
      exact Nat.mul_le_mul_right _ hfull
    have hdoubled := (Nat.le_log2 hunits).mpr hleast
    omega

/-- The rank of a datum counts its significand from the unit that it has. -/
theorem word_eq (x : Binary64) : x.scale * Nat.pow 2 52 + x.significand = x.word := by
  unfold word scale significand
  split
  · next hzero => simp [hzero]
  · next hpos =>
      rw [← Nat.add_assoc, ← Nat.succ_mul, Nat.succ_eq_add_one,
        Nat.sub_add_cancel (Nat.pos_of_ne_zero hpos)]

/-- A datum is the nearest one to its own exact value. -/
theorem ofRatio_units {x : Binary64} (hfinite : x.isFinite = true) (hzero : x.isZero = false)
    {places : Nat} (hplaces : 1074 = places) : ofRatio x.negative x.units (2 ^ places) = x := by
  have hunit := Nat.two_pow_pos places
  have hscale : (x.units * 2 ^ places / 2 ^ places).log2 - 52 = x.scale := by
    rw [Nat.mul_div_cancel _ hunit, log2_units hzero]
  have hround : roundQuotient (x.units * 2 ^ places) (2 ^ places * Nat.pow 2 x.scale) =
      x.significand := by
    rw [Nat.mul_comm (2 ^ places), roundQuotient_mul_right _ _ hunit]
    exact roundQuotient_mul x.significand (Nat.two_pow_pos x.scale)
  rw [ofRatio_eq hplaces hscale, hround, word_eq, ofWord_word hfinite]

/-- A datum is the nearest one to its own exact decimal digits. -/
theorem ofDecimal_exactUnits {x : Binary64} (hfinite : x.isFinite = true)
    (hzero : x.isZero = false) : ofDecimal x.negative x.exactUnits (-1074) = x := by
  obtain ⟨places, hplaces⟩ : ∃ places, 1074 = places := ⟨_, rfl⟩
  have hpos : 0 < x.units :=
    Nat.mul_pos (significand_bounds hzero).1 (Nat.two_pow_pos _)
  have hfive : 0 < 5 ^ places := Nat.pow_pos (by decide)
  have hdigits : x.exactUnits = x.units * 5 ^ places := by
    rw [exactUnits, hplaces]
    rfl
  have hpower : (-(-1074 : Int)).toNat = places := hplaces
  have hten : 10 ^ (-(-1074 : Int)).toNat = 2 ^ places * 5 ^ places := by
    rw [hpower, ← Nat.mul_pow]
  rw [hdigits, ofDecimal_eq _ (Nat.mul_pos hpos hfive), if_neg (by decide), hten,
    ofRatio_mul_right _ _ _ hfive, ofRatio_units hfinite hzero hplaces]

/-- The shortest digits of a datum denote it. -/
theorem ofDecimal_shortest {x : Binary64} (hfinite : x.isFinite = true) (hzero : x.isZero = false) :
    ofDecimal x.negative x.shortest.digits x.shortest.power = x := by
  rw [shortest]
  cases hsearch : (List.range' 1 17).findSome? fun kept =>
      x.nearest? ((naturalDigits x.exactUnits).length - kept) with
  | none =>
      rw [Option.getD_none]
      exact ofDecimal_exactUnits hfinite hzero
  | some form =>
      rcases List.exists_of_findSome?_eq_some hsearch with ⟨kept, _, hnearest⟩
      rw [Option.getD_some]
      exact nearest?_reads_back hnearest

end FilterQuery.Number.Binary64
