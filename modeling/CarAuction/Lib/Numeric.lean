import Mathlib.Data.Rat.Floor
import Mathlib.Algebra.Order.Round
import Mathlib.Tactic.Linarith
import Mathlib.Tactic.NormNum
import Mathlib.Tactic.FieldSimp
import Mathlib.Tactic.Positivity
import Mathlib.Tactic.Push

/- SQL `NUMERIC(p, s)` columns. A column value is a whole number of units of
   `10^-s` of fewer than `10^p` units in absolute value; the bound is a field, so
   a value that does not fit cannot be built. A rational number is written to the
   column by rounding it to the nearest unit, halves away from zero, and raises an
   error (`none`) when the rounded value has too many digits. -/
namespace Sql

/-- The nearest integer, halves away from zero. -/
def roundAway (x : ℚ) : ℤ := if 0 ≤ x then ⌊x + 1/2⌋ else -⌊-x + 1/2⌋

theorem roundAway_neg (x : ℚ) : roundAway (-x) = -roundAway x := by
  unfold roundAway
  rcases lt_trichotomy x 0 with h | rfl | h
  · rw [if_pos (by linarith), if_neg (by linarith), neg_neg]
  · norm_num
  · rw [if_neg (by linarith), if_pos h.le, neg_neg]

theorem roundAway_of_nonneg {x : ℚ} (h : 0 ≤ x) : roundAway x = ⌊x + 1/2⌋ := if_pos h

@[simp] theorem roundAway_intCast (n : ℤ) : roundAway n = n := by
  have key : ∀ m : ℤ, ⌊(m : ℚ) + 1/2⌋ = m := fun m => by
    rw [Int.floor_intCast_add]; norm_num
  unfold roundAway
  split
  · exact key n
  · have := key (-n)
    push_cast at this
    rw [this, neg_neg]

theorem roundAway_mono {x y : ℚ} (h : x ≤ y) : roundAway x ≤ roundAway y := by
  have key : ∀ a b : ℚ, 0 ≤ a → a ≤ b → roundAway a ≤ roundAway b := fun a b ha hab => by
    rw [roundAway_of_nonneg ha, roundAway_of_nonneg (ha.trans hab)]
    exact Int.floor_le_floor (by linarith)
  rcases le_total 0 x with hx | hx
  · exact key x y hx h
  · rcases le_total 0 y with hy | hy
    · have h0 : roundAway (0 : ℚ) = 0 := by exact_mod_cast roundAway_intCast 0
      have h1 := key 0 (-x) le_rfl (by linarith)
      have h2 := key 0 y le_rfl hy
      rw [h0, roundAway_neg] at h1
      omega
    · have := key (-y) (-x) (by linarith) (by linarith)
      rw [roundAway_neg, roundAway_neg] at this
      omega

/-- A rounded value stays below a bound exactly when the value is more than half a unit below it. -/
theorem natAbs_roundAway_lt {x : ℚ} {n : ℕ} :
    (roundAway x).natAbs < n ↔ |x| < n - 1/2 := by
  have key : ∀ y : ℚ, 0 ≤ y → ((roundAway y).natAbs < n ↔ y < n - 1/2) := fun y hy => by
    have h0 : 0 ≤ roundAway y := by
      rw [roundAway_of_nonneg hy]; exact Int.floor_nonneg.mpr (by linarith)
    rw [show (roundAway y).natAbs < n ↔ roundAway y < (n : ℤ) by omega, roundAway_of_nonneg hy,
      Int.floor_lt]
    push_cast
    constructor <;> intro h <;> linarith
  rcases le_total 0 x with h | h
  · rw [abs_of_nonneg h]; exact key x h
  · rw [abs_of_nonpos h, ← key (-x) (by linarith), roundAway_neg, Int.natAbs_neg]

/-- A value of a `NUMERIC(p, s)` column. -/
structure Numeric (p s : ℕ) where
  units : ℤ
  fits : units.natAbs < 10 ^ p
  deriving DecidableEq

namespace Numeric

variable {p s : ℕ}

theorem units_injective : Function.Injective (units : Numeric p s → ℤ) := by
  rintro ⟨a, _⟩ ⟨b, _⟩ rfl; rfl

instance : LinearOrder (Numeric p s) := LinearOrder.lift' units units_injective

theorem le_iff {a b : Numeric p s} : a ≤ b ↔ a.units ≤ b.units := Iff.rfl

instance : Zero (Numeric p s) := ⟨⟨0, by simp⟩⟩

/-- The number a column value stands for. -/
def toRat (d : Numeric p s) : ℚ := d.units / 10 ^ s

/-- Writing a number to the column: `none` is the numeric field overflow error. -/
def ofRat (p s : ℕ) (x : ℚ) : Option (Numeric p s) :=
  if h : (roundAway (x * 10 ^ s)).natAbs < 10 ^ p then some ⟨_, h⟩ else none

/-- The number has at most `s` decimals. -/
def HasScale (s : ℕ) (x : ℚ) : Prop := ∃ n : ℤ, x * 10 ^ s = n

instance {s : ℕ} {x : ℚ} : Decidable (HasScale s x) :=
  decidable_of_iff ((x * 10 ^ s).den = 1)
    ⟨fun h => ⟨_, ((Rat.den_eq_one_iff _).mp h).symm⟩, fun ⟨n, hn⟩ => by rw [hn, Rat.den_intCast]⟩

theorem toRat_mul_pow (d : Numeric p s) : d.toRat * 10 ^ s = d.units := by
  unfold toRat; field_simp

@[simp] theorem toRat_zero : (0 : Numeric p s).toRat = 0 := by
  show ((0 : ℤ) : ℚ) / 10 ^ s = 0
  simp

@[simp] theorem toRat_le {a b : Numeric p s} : a.toRat ≤ b.toRat ↔ a ≤ b := by
  rw [le_iff, toRat, toRat, div_le_div_iff_of_pos_right (by positivity), Int.cast_le]

@[simp] theorem toRat_lt {a b : Numeric p s} : a.toRat < b.toRat ↔ a < b := by
  rw [← not_le, toRat_le, not_le]

theorem hasScale_toRat (d : Numeric p s) : HasScale s d.toRat := ⟨d.units, d.toRat_mul_pow⟩

theorem ofRat_eq_some {x : ℚ} {d : Numeric p s} :
    ofRat p s x = some d ↔ d.units = roundAway (x * 10 ^ s) := by
  unfold ofRat
  split
  · next h =>
    rw [Option.some.injEq]
    exact ⟨fun e => by rw [← e], fun e => units_injective e.symm⟩
  · next h =>
    refine ⟨nofun, fun e => absurd ?_ h⟩
    rw [← e]; exact d.fits

@[simp] theorem ofRat_toRat (d : Numeric p s) : ofRat p s d.toRat = some d := by
  rw [ofRat_eq_some, toRat_mul_pow, roundAway_intCast]

/-- The write succeeds exactly when the number stays half a unit away from the column's bound. -/
theorem ofRat_isSome {x : ℚ} : (ofRat p s x).isSome ↔ |x| * 10 ^ s < 10 ^ p - 1/2 := by
  have h := natAbs_roundAway_lt (x := x * 10 ^ s) (n := 10 ^ p)
  rw [abs_mul, abs_of_pos (show (0 : ℚ) < 10 ^ s by positivity)] at h
  push_cast at h
  rw [← h]
  unfold ofRat
  split <;> simp_all

theorem ofRat_mono {x y : ℚ} {a b : Numeric p s} (hx : ofRat p s x = some a)
    (hy : ofRat p s y = some b) (h : x ≤ y) : a ≤ b := by
  rw [ofRat_eq_some] at hx hy
  rw [le_iff, hx, hy]
  exact roundAway_mono (mul_le_mul_of_nonneg_right h (by positivity))

/-- The column keeps the number itself exactly when it has no more decimals than the column. -/
theorem toRat_ofRat_eq {x : ℚ} {d : Numeric p s} (h : ofRat p s x = some d) :
    d.toRat = x ↔ HasScale s x := by
  constructor
  · intro e
    rw [← e]
    exact d.hasScale_toRat
  · rintro ⟨n, hn⟩
    rw [ofRat_eq_some, hn, roundAway_intCast] at h
    unfold toRat
    rw [h, ← hn]; field_simp

end Numeric

end Sql
