import Mathlib.Algebra.Group.Nat.Defs
import QueryCost.Binary64.Basic

/-!
# Rounding keeps the order

A double is a whole number of units, and beyond 53 binary places only multiples of a power of two are
doubles. Rounding to them is monotone (`roundUnits_mono`), and it leaves the doubles themselves as they
are (`roundUnits_of_isDouble`). Both together say that no rounded result passes a double that the exact
result does not pass.
-/
namespace QueryCost.Binary64

theorem div_le_roundDivEven (num den : Nat) : num / den ≤ roundDivEven num den := by
  unfold roundDivEven
  dsimp only
  split
  · exact Nat.le_refl _
  · split <;> omega

theorem roundDivEven_le_succ (num den : Nat) : roundDivEven num den ≤ num / den + 1 := by
  unfold roundDivEven
  dsimp only
  split
  · omega
  · split <;> omega

/-- With the same whole part, the larger remainder decides; else the whole parts do. -/
theorem roundDivEven_mono {num num' : Nat} (den : Nat) (le : num ≤ num') :
    roundDivEven num den ≤ roundDivEven num' den := by
  have whole : num / den ≤ num' / den := Nat.div_le_div_right le
  rcases Nat.lt_or_eq_of_le whole with less | same
  · calc
      roundDivEven num den ≤ num / den + 1 := roundDivEven_le_succ num den
      _ ≤ num' / den := less
      _ ≤ roundDivEven num' den := div_le_roundDivEven num' den
  · have parts := Nat.div_add_mod num den
    have parts' := Nat.div_add_mod num' den
    rw [← same] at parts'
    have remainder : num % den ≤ num' % den := by omega
    unfold roundDivEven
    dsimp only
    rw [← same]
    split
    · split
      · exact Nat.le_refl _
      · split <;> omega
    · split
      · split
        · omega
        · split <;> omega
      · split
        · omega
        · split <;> omega

theorem roundDivEven_mul (n : Nat) {den : Nat} (positive : 0 < den) :
    roundDivEven (n * den) den = n := by
  unfold roundDivEven
  simp [Nat.mul_div_cancel n positive, positive]

theorem lt_two_pow_spareBits (n : Nat) : n < 2 ^ (53 + spareBits n) := by
  unfold spareBits
  split
  next small => simpa using small
  next large =>
    have big : 2 ^ 53 ≤ n := by simpa using large
    have log : 53 ≤ n.log2 := (Nat.le_log2 (by omega)).mpr big
    have places : 53 + (n.log2 - 52) = n.log2 + 1 := by omega
    rw [places]
    exact Nat.lt_log2_self

/-- There are spare places only if all 53 are in use. -/
theorem two_pow_le_of_spareBits {n k : Nat} (spare : k < spareBits n) : 2 ^ (53 + k) ≤ n := by
  unfold spareBits at spare
  split at spare
  · omega
  next large =>
    have big : 2 ^ 53 ≤ n := by simpa using large
    have positive : n ≠ 0 := by
      have := Nat.two_pow_pos 53
      omega
    exact (Nat.le_log2 positive).mp (by omega)

theorem spareBits_le {n k : Nat} (less : n < 2 ^ (53 + k)) : spareBits n ≤ k := by
  apply Nat.le_of_not_lt
  intro more
  have reached := two_pow_le_of_spareBits more
  omega

theorem roundUnits_eq (num den : Nat) :
    roundUnits num den =
      roundDivEven num (den * 2 ^ spareBits (num / den)) * 2 ^ spareBits (num / den) := rfl

/-- What is rounded has at most 53 places, or one more if they carry over. -/
theorem roundDivEven_le_two_pow (num den : Nat) :
    roundDivEven num (den * 2 ^ spareBits (num / den)) ≤ 2 ^ 53 := by
  have whole : num / (den * 2 ^ spareBits (num / den)) < 2 ^ 53 := by
    rw [← Nat.div_div_eq_div_mul]
    apply Nat.div_lt_of_lt_mul
    rw [← Nat.pow_add, Nat.add_comm]
    exact lt_two_pow_spareBits (num / den)
  exact Nat.le_trans (roundDivEven_le_succ _ _) whole

theorem roundUnits_le_two_pow (num den : Nat) :
    roundUnits num den ≤ 2 ^ (53 + spareBits (num / den)) := by
  rw [roundUnits_eq, Nat.pow_add]
  exact Nat.mul_le_mul_right _ (roundDivEven_le_two_pow num den)

/-- Rounding does not fall below a power of two that the quotient reaches. -/
theorem two_pow_le_roundUnits {num den k : Nat} (spare : k < spareBits (num / den)) :
    2 ^ (53 + k) ≤ roundUnits num den := by
  have reached : 2 ^ (52 + spareBits (num / den)) ≤ num / den := by
    have places : 53 + (spareBits (num / den) - 1) = 52 + spareBits (num / den) := by omega
    rw [← places]
    exact two_pow_le_of_spareBits (by omega)
  have whole : 2 ^ 52 ≤ num / (den * 2 ^ spareBits (num / den)) := by
    rw [← Nat.div_div_eq_div_mul, Nat.le_div_iff_mul_le (Nat.two_pow_pos _), ← Nat.pow_add]
    exact reached
  calc
    2 ^ (53 + k) ≤ 2 ^ (52 + spareBits (num / den)) :=
      Nat.pow_le_pow_right (by decide) (by omega)
    _ = 2 ^ 52 * 2 ^ spareBits (num / den) := Nat.pow_add ..
    _ ≤ roundUnits num den :=
      Nat.mul_le_mul_right _ (Nat.le_trans whole (div_le_roundDivEven _ _))

/-- Either both quotients are rounded to the same spacing, or a power of two lies between the
results. -/
theorem roundUnits_mono {num num' : Nat} (den : Nat) (le : num ≤ num') :
    roundUnits num den ≤ roundUnits num' den := by
  have quotient : num / den ≤ num' / den := Nat.div_le_div_right le
  have spare : spareBits (num / den) ≤ spareBits (num' / den) :=
    spareBits_le (Nat.lt_of_le_of_lt quotient (lt_two_pow_spareBits _))
  rcases Nat.lt_or_eq_of_le spare with less | same
  · exact Nat.le_trans (roundUnits_le_two_pow num den) (two_pow_le_roundUnits less)
  · rw [roundUnits_eq, roundUnits_eq, ← same]
    exact Nat.mul_le_mul_right _ (roundDivEven_mono _ le)

/-- Numbers of units with 53 places of their own; a double has such a number. -/
def IsDouble (n : Nat) : Prop := ∃ significand places, significand ≤ 2 ^ 53 ∧
  n = significand * 2 ^ places

theorem isDouble_roundUnits (num den : Nat) : IsDouble (roundUnits num den) :=
  ⟨_, _, roundDivEven_le_two_pow num den, rfl⟩

theorem IsDouble.spareBits_dvd {n : Nat} (double : IsDouble n) : 2 ^ spareBits n ∣ n := by
  obtain ⟨significand, places, small, rfl⟩ := double
  rcases Nat.lt_or_eq_of_le small with less | full
  · have spare : spareBits (significand * 2 ^ places) ≤ places := by
      apply spareBits_le
      rw [Nat.pow_add]
      exact Nat.mul_lt_mul_of_pos_right less (Nat.two_pow_pos _)
    exact Nat.dvd_trans (Nat.pow_dvd_pow 2 spare) (Nat.dvd_mul_left _ _)
  · -- All places in use: the number is a power of two, and one place more is spare.
    rw [full, ← Nat.pow_add]
    have spare : spareBits (2 ^ (53 + places)) ≤ places + 1 :=
      spareBits_le (Nat.pow_lt_pow_right (by decide) (by omega))
    exact Nat.pow_dvd_pow 2 (by omega)

/-- Doubles stay as they are. -/
theorem roundUnits_of_isDouble {n : Nat} (double : IsDouble n) : roundUnits n 1 = n := by
  obtain ⟨quotient, multiple⟩ := double.spareBits_dvd
  rw [Nat.mul_comm] at multiple
  have spacing : roundDivEven n (2 ^ spareBits n) = quotient := calc
    roundDivEven n (2 ^ spareBits n)
      = roundDivEven (quotient * 2 ^ spareBits n) (2 ^ spareBits n) :=
        congrArg (roundDivEven · (2 ^ spareBits n)) multiple
    _ = quotient := roundDivEven_mul quotient (Nat.two_pow_pos _)
  rw [roundUnits_eq, Nat.div_one, Nat.one_mul, spacing]
  exact multiple.symm

theorem le_roundUnits {m n : Nat} (double : IsDouble m) (le : m ≤ n) : m ≤ roundUnits n 1 := by
  rw [← roundUnits_of_isDouble double]
  exact roundUnits_mono 1 le

theorem roundUnits_le {m n : Nat} (double : IsDouble m) (le : n ≤ m) : roundUnits n 1 ≤ m := by
  rw [← roundUnits_of_isDouble double]
  exact roundUnits_mono 1 le

end QueryCost.Binary64
