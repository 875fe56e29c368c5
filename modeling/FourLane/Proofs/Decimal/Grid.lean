import FourLane.Register.Text
import FourLane.Proofs.Binary32.Magnitudes

/-!
# Decimals on grids

Numbers are counted in `10 ^ -149` here, so that the magnitude with bits `b` is the whole number
`exact (unitsOfBits b)`, and `Reads b y` says that `y` is rounded to it. The numbers that are rounded
to a magnitude have no gaps, so on a grid only the two points around the magnitude need a look: every
other point lies outside of them, and if it reads back then the point before it does
(`nearestOnGrid?_none`), which is nearer as well (`nearestOnGrid?_some`).

A decimal of `k` digits is such a point on the grid on which the magnitude has `k` digits
(`outside_of_hasDigits`), although it may lie on a finer grid. So the first grid with a point that reads
back gives the fewest digits, and the nearest of the decimals with so many (`shortest_spec`).
-/

namespace FourLane.Decimal

open Binary32 (RoundsTo unitsOfBits roundUnits midpoint)

variable {b place : Nat} {y z : ℚ}

/-! ## Numbers that are rounded to a magnitude -/

/-- The number `y` is rounded to the magnitude with bits `b`. -/
def Reads (b : Nat) (y : ℚ) : Prop := RoundsTo (y / decimalUnit) b

theorem decimalUnit_pos : 0 < decimalUnit := Nat.pow_pos (by decide)

theorem cast_decimalUnit_pos : (0 : ℚ) < decimalUnit := Nat.cast_pos.2 decimalUnit_pos

theorem reads_exact (b : Nat) : Reads b (Decimal.exact (unitsOfBits b)) := by
  rw [Reads, Decimal.exact, Nat.cast_mul, mul_div_cancel_right₀ _ cast_decimalUnit_pos.ne']
  exact Binary32.roundsTo_unitsOfBits b

theorem Reads.pos (hb : 0 < b) (h : Reads b y) : 0 < y := by
  obtain ⟨c, rfl⟩ : ∃ c, b = c + 1 := ⟨b - 1, by omega⟩
  have hmid : 0 < midpoint c := (Nat.cast_nonneg _).trans_lt (Binary32.lt_midpoint c).1
  have hquot : 0 < y / decimalUnit := hmid.trans_le (h.lower c rfl)
  exact (div_pos_iff_of_pos_right cast_decimalUnit_pos).1 hquot

/-- What lies between two numbers that are read as a magnitude is read as it too. -/
theorem Reads.between {x : ℚ} (hx : Reads b x) (hz : Reads b z) (h₀ : 0 ≤ x) (hxy : x ≤ y)
    (hyz : y ≤ z) : Reads b y :=
  RoundsTo.between hx hz (div_nonneg h₀ cast_decimalUnit_pos.le)
    (div_le_div_of_nonneg_right hxy cast_decimalUnit_pos.le)
    (div_le_div_of_nonneg_right hyz cast_decimalUnit_pos.le)

/-! ## The two points around a magnitude -/

/-- The last point of a grid that is not above a magnitude. -/
def lowPoint (units place : Nat) : Nat := Decimal.exact units / 10 ^ place

/-- The number at a point of a grid. -/
def pointValue (place point : Nat) : ℚ := (point * 10 ^ place : Nat)

theorem lowPoint_le (units place : Nat) :
    pointValue place (lowPoint units place) ≤ Decimal.exact units :=
  Nat.cast_le.2 (Nat.div_mul_le_self ..)

theorem lt_lowPoint_add_one (units place : Nat) :
    (Decimal.exact units : ℚ) < pointValue place (lowPoint units place + 1) :=
  Nat.cast_lt.2 ((Nat.div_lt_iff_lt_mul (Nat.pow_pos (by decide))).1 (Nat.lt_succ_self _))

theorem lt_middle_iff (units place : Nat) :
    2 * Decimal.exact units < (2 * lowPoint units place + 1) * 10 ^ place ↔
      (Decimal.exact units : ℚ) <
        (pointValue place (lowPoint units place) + pointValue place (lowPoint units place + 1)) / 2 := by
  rw [lt_div_iff₀ two_pos, mul_comm, pointValue, pointValue, ← Nat.cast_add,
    show lowPoint units place * 10 ^ place + (lowPoint units place + 1) * 10 ^ place =
      (2 * lowPoint units place + 1) * 10 ^ place by ring]
  exact_mod_cast Iff.rfl

/-- `y` is not strictly between the two points around a magnitude. -/
def Outside (units place : Nat) (y : ℚ) : Prop :=
  y ≤ pointValue place (lowPoint units place) ∨ pointValue place (lowPoint units place + 1) ≤ y

/-- The test of the library is reading back. -/
theorem readsBack_iff {point : Nat} :
    readsBack (unitsOfBits b) place point = true ↔ Reads b (pointValue place point) := by
  obtain ⟨c, hunits, hc⟩ := Binary32.exists_roundsTo (point * 10 ^ place) decimalUnit_pos
  rw [readsBack, hunits, beq_iff_eq, Binary32.unitsOfBits_strictMono.injective.eq_iff]
  exact ⟨fun h => h ▸ hc, fun h => hc.unique h⟩

theorem Reads.low (h : Reads b y) (hb : 0 < b)
    (hle : y ≤ pointValue place (lowPoint (unitsOfBits b) place)) :
    Reads b (pointValue place (lowPoint (unitsOfBits b) place)) :=
  h.between (reads_exact b) (h.pos hb).le hle (lowPoint_le _ _)

theorem Reads.high (h : Reads b y)
    (hle : pointValue place (lowPoint (unitsOfBits b) place + 1) ≤ y) :
    Reads b (pointValue place (lowPoint (unitsOfBits b) place + 1)) :=
  (reads_exact b).between h (Nat.cast_nonneg _) (lt_lowPoint_add_one _ _).le hle

/-- No number below the lower point is nearer than it, and none above the upper point is nearer than
that. -/
theorem abs_low_le {units : Nat} (hle : y ≤ pointValue place (lowPoint units place)) :
    |pointValue place (lowPoint units place) - Decimal.exact units| ≤ |y - Decimal.exact units| := by
  have hlow := lowPoint_le units place
  rw [abs_of_nonpos (by linarith), abs_of_nonpos (by linarith)]
  linarith

theorem abs_high_le {units : Nat} (hle : pointValue place (lowPoint units place + 1) ≤ y) :
    |pointValue place (lowPoint units place + 1) - Decimal.exact units| ≤ |y - Decimal.exact units| := by
  have hhigh := lt_lowPoint_add_one units place
  rw [abs_of_nonneg (by linarith), abs_of_nonneg (by linarith)]
  linarith

/-- The choice between the two points. -/
theorem nearestOnGrid?_cases (units place : Nat) :
    (nearestOnGrid? units place = none ∧ ¬ readsBack units place (lowPoint units place) ∧
      ¬ readsBack units place (lowPoint units place + 1)) ∨
    (nearestOnGrid? units place = some (lowPoint units place) ∧
      readsBack units place (lowPoint units place) ∧
      (2 * Decimal.exact units < (2 * lowPoint units place + 1) * 10 ^ place ∨
        ¬ readsBack units place (lowPoint units place + 1))) ∨
    (nearestOnGrid? units place = some (lowPoint units place + 1) ∧
      readsBack units place (lowPoint units place + 1) ∧
      (¬ 2 * Decimal.exact units < (2 * lowPoint units place + 1) * 10 ^ place ∨
        ¬ readsBack units place (lowPoint units place))) := by
  have hchoice : nearestOnGrid? units place =
      if readsBack units place (lowPoint units place) &&
          (2 * Decimal.exact units < (2 * lowPoint units place + 1) * 10 ^ place ||
            !readsBack units place (lowPoint units place + 1)) then some (lowPoint units place)
      else if readsBack units place (lowPoint units place + 1) then some (lowPoint units place + 1)
      else none :=
    rfl
  rw [hchoice]
  by_cases hside : 2 * Decimal.exact units < (2 * lowPoint units place + 1) * 10 ^ place <;>
    cases readsBack units place (lowPoint units place) <;>
    cases readsBack units place (lowPoint units place + 1) <;> simp [hside]

/-- Where a grid offers no choice, what is read back lies strictly between its two points. -/
theorem nearestOnGrid?_none (hb : 0 < b) (h : nearestOnGrid? (unitsOfBits b) place = none)
    (hy : Reads b y) : ¬ Outside (unitsOfBits b) place y := by
  rcases nearestOnGrid?_cases (unitsOfBits b) place with ⟨-, hlow, hhigh⟩ | ⟨hsome, -⟩ | ⟨hsome, -⟩
  · rw [readsBack_iff] at hlow hhigh
    rintro (hle | hle)
    · exact hlow (hy.low hb hle)
    · exact hhigh (hy.high hle)
  · cases hsome.symm.trans h
  · cases hsome.symm.trans h

/-- `z` reads back and is as near to the magnitude as any number outside that reads back. -/
structure NearestOutside (b place : Nat) (z : ℚ) : Prop where
  reads : Reads b z
  least : ∀ y, Reads b y → Outside (unitsOfBits b) place y →
    |z - Decimal.exact (unitsOfBits b)| ≤ |y - Decimal.exact (unitsOfBits b)|

/-- The choice of a grid is read back, and nearest among the numbers outside that are. -/
theorem nearestOnGrid?_some (hb : 0 < b) {point : Nat}
    (h : nearestOnGrid? (unitsOfBits b) place = some point) :
    NearestOutside b place (pointValue place point) ∧ point ≤ lowPoint (unitsOfBits b) place + 1 := by
  have haround : pointValue place (lowPoint (unitsOfBits b) place) <
      pointValue place (lowPoint (unitsOfBits b) place + 1) :=
    (lowPoint_le _ _).trans_lt (lt_lowPoint_add_one _ _)
  rcases nearestOnGrid?_cases (unitsOfBits b) place with
    ⟨hnone, -⟩ | ⟨hsome, hreads, hside⟩ | ⟨hsome, hreads, hside⟩
  · cases hnone.symm.trans h
  · obtain rfl := Option.some.inj (hsome.symm.trans h)
    rw [readsBack_iff] at hreads hside
    rw [lt_middle_iff] at hside
    refine ⟨⟨hreads, ?_⟩, Nat.le_succ _⟩
    rintro y hy (hlow | hhigh)
    · exact abs_low_le hlow
    · have hmiddle := (hside.resolve_right (not_not.2 (hy.high hhigh))).le
      exact (Binary32.abs_sub_le_of_le_middle haround hmiddle).1.trans (abs_high_le hhigh)
  · obtain rfl := Option.some.inj (hsome.symm.trans h)
    rw [readsBack_iff] at hreads hside
    rw [lt_middle_iff] at hside
    refine ⟨⟨hreads, ?_⟩, le_rfl⟩
    rintro y hy (hlow | hhigh)
    · have hmiddle := not_lt.1 (hside.resolve_right (not_not.2 (hy.low hb hlow)))
      exact (Binary32.abs_sub_le_of_middle_le haround hmiddle).1.trans (abs_low_le hlow)
    · exact abs_high_le hhigh

/-! ## From coarse grids to fine ones -/

/-- The search ends at the coarsest grid with a choice. -/
theorem firstOnGrids_cases (choose : Nat → Option Nat) (last place : Nat) :
    (firstOnGrids choose last place = onGrid 0 last ∧
      ∀ q, 0 < q → q ≤ place → choose q = none) ∨
    ∃ p ≤ place, ∃ point, choose p = some point ∧
      firstOnGrids choose last place = onGrid p point ∧
      ∀ q, p < q → q ≤ place → choose q = none := by
  induction place with
  | zero => exact .inl ⟨rfl, fun q hpos hle => by omega⟩
  | succ place ih =>
    -- A grid that the search has passed without a point is the next one or was passed before.
    have hpassed : choose (place + 1) = none → ∀ q, (q ≤ place → choose q = none) →
        q ≤ place + 1 → choose q = none := fun hnone q hbefore hq =>
      hq.eq_or_lt.elim (fun heq => heq ▸ hnone) fun hlt => hbefore (Nat.le_of_lt_succ hlt)
    rw [firstOnGrids]
    cases h : choose (place + 1) with
    | some point => exact .inr ⟨place + 1, le_rfl, point, h, rfl, fun q hlt hle => by omega⟩
    | none =>
      refine ih.imp ?_ ?_
      · rintro ⟨heq, hnone⟩
        exact ⟨heq, fun q hpos => hpassed h q (hnone q hpos)⟩
      · rintro ⟨p, hp, point, hpoint, heq, hnone⟩
        exact ⟨p, hp.trans place.le_succ, point, hpoint, heq, fun q hlt => hpassed h q (hnone q hlt)⟩

/-- What the search ends with, on its grid and on all the grids before. -/
theorem firstOnGrids_spec (hb : 0 < b) (place : Nat) :
    ∃ p ≤ place, ∃ point,
      firstOnGrids (nearestOnGrid? (unitsOfBits b)) (Decimal.exact (unitsOfBits b)) place =
        onGrid p point ∧
      NearestOutside b p (pointValue p point) ∧ point ≤ lowPoint (unitsOfBits b) p + 1 ∧
      ∀ q, p < q → q ≤ place → nearestOnGrid? (unitsOfBits b) q = none := by
  rcases firstOnGrids_cases (nearestOnGrid? (unitsOfBits b)) (Decimal.exact (unitsOfBits b)) place with
    ⟨heq, hnone⟩ | ⟨p, hp, point, hpoint, heq, hnone⟩
  · refine ⟨0, place.zero_le, _, heq, ⟨?_, fun y _ _ => ?_⟩, ?_, hnone⟩
    · rw [pointValue, Nat.pow_zero, Nat.mul_one]
      exact reads_exact b
    · rw [pointValue, Nat.pow_zero, Nat.mul_one, sub_self, abs_zero]
      exact abs_nonneg _
    · rw [lowPoint, Nat.pow_zero, Nat.div_one]
      exact Nat.le_succ _
  · obtain ⟨hnearest, hle⟩ := nearestOnGrid?_some hb hpoint
    exact ⟨p, hp, point, heq, hnearest, hle, hnone⟩

/-! ## Digits -/

/-- At most `k` significant digits write `d`: zeros at either end do not count. -/
def HasDigits (k : Nat) (d : ℚ) : Prop := ∃ m e : Int, |m| < 10 ^ k ∧ d = m * (10 : ℚ) ^ e

theorem HasDigits.neg {k : Nat} (h : HasDigits k y) : HasDigits k (-y) := by
  obtain ⟨m, e, hm, rfl⟩ := h
  exact ⟨-m, e, by rwa [abs_neg], by push_cast; ring⟩

theorem HasDigits.mul_zpow {k : Nat} (h : HasDigits k y) (i : Int) : HasDigits k (y * (10 : ℚ) ^ i) := by
  obtain ⟨m, e, hm, rfl⟩ := h
  exact ⟨m, e + i, hm, by rw [zpow_add₀ (by norm_num), mul_assoc]⟩

theorem hasDigits_abs {k : Nat} : HasDigits k |y| ↔ HasDigits k y := by
  rcases abs_choice y with h | h <;> rw [h]
  exact ⟨fun hneg => neg_neg y ▸ hneg.neg, HasDigits.neg⟩

theorem outside_of_lt {units k : Nat} (hlow : 10 ^ (place + k) ≤ Decimal.exact units)
    (hy : y < (10 ^ (place + k) : Nat)) : Outside units place y := by
  have hpoint : 10 ^ k ≤ lowPoint units place := by
    rw [lowPoint, Nat.le_div_iff_mul_le (Nat.pow_pos (by decide)), ← Nat.pow_add, Nat.add_comm]
    exact hlow
  have hpower : 10 ^ (place + k) ≤ lowPoint units place * 10 ^ place := by
    rw [Nat.pow_add, Nat.mul_comm]
    exact Nat.mul_le_mul_right _ hpoint
  exact .inl (hy.le.trans (Nat.cast_le.2 hpower))

/-- No point of a grid lies strictly between two neighbours. -/
theorem outside_of_point (units place : Nat) (n : Int) : Outside units place (n * (10 : ℚ) ^ place) := by
  have hpow : (0 : ℚ) ≤ 10 ^ place := by positivity
  unfold Outside pointValue
  rcases le_or_gt n (lowPoint units place) with hle | hlt
  · have hcast : (n : ℚ) ≤ lowPoint units place := by exact_mod_cast hle
    exact .inl ((mul_le_mul_of_nonneg_right hcast hpow).trans_eq (by push_cast; ring))
  · have hcast : ((lowPoint units place : ℚ) + 1) ≤ n := by exact_mod_cast hlt
    exact .inr ((mul_le_mul_of_nonneg_right hcast hpow).trans_eq' (by push_cast; ring))

/-- On the grid on which a magnitude has `k + 1` digits, no decimal of so many digits is strictly
between the two points around it. -/
theorem outside_of_hasDigits {units k : Nat} (hlow : 10 ^ (place + k) ≤ Decimal.exact units)
    (hdigits : HasDigits (k + 1) y) : Outside units place y := by
  obtain ⟨m, e, hm, rfl⟩ := hdigits
  rcases lt_or_ge ((m : ℚ) * 10 ^ e) (10 ^ (place + k) : Nat) with hlt | hge
  · exact outside_of_lt hlow hlt
  · -- With fewer than `k + 2` digits so large a number is a point of the grid.
    have hpos : (0 : ℚ) < (10 : ℚ) ^ e := zpow_pos (by norm_num) e
    have hm' : (m : ℚ) < (10 : ℚ) ^ ((k : ℤ) + 1) := by
      have hcast : (m : ℚ) < (10 ^ (k + 1) : Int) := Int.cast_lt.2 (lt_of_abs_lt hm)
      exact_mod_cast hcast
    have hexp : (place : ℤ) + k < k + 1 + e := by
      have hpowers : (10 : ℚ) ^ ((place : ℤ) + k) < 10 ^ ((k : ℤ) + 1 + e) := by
        calc (10 : ℚ) ^ ((place : ℤ) + k) = (10 ^ (place + k) : Nat) := by push_cast; norm_cast
          _ ≤ m * 10 ^ e := hge
          _ < 10 ^ ((k : ℤ) + 1) * 10 ^ e := mul_lt_mul_of_pos_right hm' hpos
          _ = 10 ^ ((k : ℤ) + 1 + e) := (zpow_add₀ (by norm_num) _ _).symm
      exact (zpow_lt_zpow_iff_right₀ (by norm_num)).1 hpowers
    obtain ⟨r, rfl⟩ : ∃ r : Nat, e = r + place := ⟨(e - place).toNat, by omega⟩
    have hpoint : (m : ℚ) * 10 ^ ((r : ℤ) + place) = (m * 10 ^ r : Int) * (10 : ℚ) ^ place := by
      rw [zpow_add₀ (by norm_num)]
      push_cast
      rw [zpow_natCast, zpow_natCast, mul_assoc]
    rw [hpoint]
    exact outside_of_point units place _

theorem length_decimal_bounds {n : Nat} (h : 0 < n) :
    10 ^ ((Text.decimal n).length - 1) ≤ n ∧ n < 10 ^ ((Text.decimal n).length - 1 + 1) := by
  have hpos : 0 < (Text.decimal n).length := Nat.length_toDigits_pos
  constructor
  · rcases Nat.eq_zero_or_pos ((Text.decimal n).length - 1) with hzero | hmore
    · rw [hzero, Nat.pow_zero]
      exact h
    · refine not_lt.1 fun hlt => ?_
      have hle : (Text.decimal n).length ≤ (Text.decimal n).length - 1 :=
        (Nat.length_toDigits_le_iff (by decide) hmore).2 hlt
      omega
  · rw [Nat.sub_add_cancel hpos]
    exact (Nat.length_toDigits_le_iff (by decide) hpos).1 le_rfl

/-- Of the decimals that read back `y` has the fewest digits, `k`, and no other with so many is nearer
to the magnitude. -/
structure ReadsShortest (b k : Nat) (y : ℚ) : Prop where
  reads : Reads b y
  digits : HasDigits k y
  fewest : ∀ z, Reads b z → ∀ j < k, ¬ HasDigits j z
  nearest : ∀ z, Reads b z → HasDigits k z →
    |y - Decimal.exact (unitsOfBits b)| ≤ |z - Decimal.exact (unitsOfBits b)|

theorem hasDigits_point {k point : Nat} (h : point ≤ 10 ^ (k + 1)) :
    HasDigits (k + 1) (pointValue place point) := by
  unfold pointValue
  rcases h.lt_or_eq with hlt | rfl
  · refine ⟨point, place, ?_, by push_cast; rfl⟩
    rw [Nat.abs_cast]
    exact_mod_cast hlt
  · refine ⟨1, (k + 1 + place : Nat), ?_, ?_⟩
    · rw [abs_one]
      exact_mod_cast Nat.one_lt_pow (Nat.succ_ne_zero k) (by decide : 1 < 10)
    · rw [zpow_natCast, Int.cast_one, one_mul, ← Nat.pow_add, Nat.cast_pow, Nat.cast_ofNat]

theorem not_hasDigits_zero (h : 0 < y) : ¬ HasDigits 0 y := by
  rintro ⟨m, e, hm, rfl⟩
  obtain rfl := Int.abs_lt_one_iff.1 hm
  simp at h

/-- The decimal that the library finds reads back, no shorter one does, and none of its length is
nearer. -/
theorem shortest_spec (hb : 0 < b) :
    ∃ k p point, shortest (unitsOfBits b) = onGrid p point ∧ 0 < point ∧
      ReadsShortest b k (pointValue p point) := by
  have hunits : 0 < unitsOfBits b := (Nat.zero_le _).trans_lt (Binary32.unitsOfBits_strictMono hb)
  obtain ⟨hlow, hhigh⟩ := length_decimal_bounds (Nat.mul_pos hunits decimalUnit_pos)
  rw [← Decimal.exact] at hlow hhigh
  obtain ⟨last, hlast⟩ : ∃ last, (Text.decimal (Decimal.exact (unitsOfBits b))).length - 1 = last :=
    ⟨_, rfl⟩
  rw [hlast] at hlow hhigh
  obtain ⟨p, hp, point, heq, hnearest, hpoint, hnone⟩ := firstOnGrids_spec hb last
  obtain ⟨k, rfl⟩ : ∃ k, last = p + k := ⟨last - p, by omega⟩
  have hbound : lowPoint (unitsOfBits b) p < 10 ^ (k + 1) := by
    rw [lowPoint, Nat.div_lt_iff_lt_mul (Nat.pow_pos (by decide)), ← Nat.pow_add, Nat.add_comm]
    exact hhigh
  refine ⟨k + 1, p, point, by rw [shortest, hlast, heq], ?_, hnearest.reads,
    hasDigits_point (hpoint.trans hbound), fun z hz j hj hdigits => ?_, fun z hz hdigits =>
      hnearest.least z hz (outside_of_hasDigits hlow hdigits)⟩
  · have hpos := Nat.cast_pos.1 (hnearest.reads.pos hb)
    exact Nat.pos_of_mul_pos_right hpos
  · cases j with
    | zero => exact not_hasDigits_zero (hz.pos hb) hdigits
    | succ j =>
      -- The grid on which the magnitude has `j + 1` digits came before.
      have hgrid : p + k = p + k - j + j := by omega
      rw [hgrid] at hlow
      exact nearestOnGrid?_none hb (hnone (p + k - j) (by omega) (by omega)) hz
        (outside_of_hasDigits hlow hdigits)

end FourLane.Decimal
