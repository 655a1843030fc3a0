import QueryCost.Proofs.ClosedSets
import QueryCost.Proofs.NumberOrder
import QueryCost.Proofs.Rounding

/-!
# Sums that do not fall

Numbers that are not negative are closed under sums and products, although both round. Adding one of
them does not lower a total (`le_add`), if the total is what arithmetic with doubles sees: a rounded
double, or an integer that has a double of its own. Beyond that an integer is rounded before it is added
to, and may fall by this alone.
-/
namespace QueryCost

namespace Binary64

/-- A double as arithmetic gives it. -/
def Rounded : Binary64 → Prop
  | finite _ units => IsDouble units ∧ units < overflowUnits
  | _ => True

theorem unitsOfOne_pos : 0 < unitsOfOne := by decide +kernel

/-- Rounding ends with a double in range, or beyond all of them. -/
theorem round_cases (negative : Bool) (num den : Nat) :
    (round negative num den = finite negative (roundUnits num den) ∧
      roundUnits num den < overflowUnits) ∨
    (round negative num den = infinite negative ∧ overflowUnits ≤ roundUnits num den) := by
  unfold round
  dsimp only
  by_cases inside : roundUnits num den < overflowUnits
  · exact .inl ⟨if_pos inside, inside⟩
  · exact .inr ⟨if_neg inside, Nat.le_of_not_lt inside⟩

theorem rounded_round (negative : Bool) (num den : Nat) : (round negative num den).Rounded := by
  rcases round_cases negative num den with ⟨ends, inside⟩ | ⟨ends, -⟩
  · rw [ends]
    exact ⟨isDouble_roundUnits num den, inside⟩
  · rw [ends]
    trivial

theorem rounded_zero (negative : Bool) : (finite negative 0).Rounded := by
  have inside : 0 < overflowUnits := by decide +kernel
  exact ⟨⟨0, 0, Nat.zero_le _, rfl⟩, inside⟩

/-- How two finite doubles are added: magnitudes are added under one sign, and otherwise the larger one
keeps its sign. -/
theorem add_finite_cases (s t : Bool) (m n : Nat) :
    (s = t ∧ (finite s m).add (finite t n) = round s (m + n) 1) ∨
    (s ≠ t ∧ m = n ∧ (finite s m).add (finite t n) = finite false 0) ∨
    (s ≠ t ∧ n < m ∧ (finite s m).add (finite t n) = round s (m - n) 1) ∨
    (s ≠ t ∧ m < n ∧ (finite s m).add (finite t n) = round t (n - m) 1) := by
  rw [add]
  by_cases same : s = t
  · rw [if_pos same]
    exact .inl ⟨same, rfl⟩
  by_cases equal : m = n
  · rw [if_neg same, if_pos equal]
    exact .inr (.inl ⟨same, equal, rfl⟩)
  by_cases less : n < m
  · rw [if_neg same, if_neg equal, if_pos less]
    exact .inr (.inr (.inl ⟨same, less, rfl⟩))
  · rw [if_neg same, if_neg equal, if_neg less]
    exact .inr (.inr (.inr ⟨same, by omega, rfl⟩))

theorem rounded_add (x y : Binary64) : (x.add y).Rounded := by
  cases x with
  | nan => trivial
  | infinite s =>
    cases y with
    | nan => trivial
    | infinite t =>
      rw [add]
      split <;> trivial
    | finite t n => trivial
  | finite s m =>
    cases y with
    | nan => trivial
    | infinite t => trivial
    | finite t n =>
      rcases add_finite_cases s t m n with ⟨-, sum⟩ | ⟨-, -, sum⟩ | ⟨-, -, sum⟩ | ⟨-, -, sum⟩
      · exact sum ▸ rounded_round s (m + n) 1
      · exact sum ▸ rounded_zero false
      · exact sum ▸ rounded_round s (m - n) 1
      · exact sum ▸ rounded_round t (n - m) 1

/-- An integer is converted by rounding. -/
theorem ofInt?_eq_some {n : Int} {x : Binary64} (converted : ofInt? n = some x) :
    x = round (n < 0) (n.natAbs * unitsOfOne) 1 := by
  unfold ofInt? at converted
  rcases round_cases (n < 0) (n.natAbs * unitsOfOne) 1 with ⟨ends, -⟩ | ⟨ends, -⟩
  · rw [ends] at converted ⊢
    exact (Option.some.inj converted).symm
  · rw [ends] at converted
    cases converted

/-- Integers of at most 53 places are doubles. -/
theorem ofInt?_of_small {n : Int} (small : n.natAbs ≤ 2 ^ 53) :
    ofInt? n = some (finite (n < 0) (n.natAbs * unitsOfOne)) ∧
      (finite (n < 0) (n.natAbs * unitsOfOne)).Rounded := by
  have power : unitsOfOne = 2 ^ 1074 := by decide +kernel
  have double : IsDouble (n.natAbs * unitsOfOne) := ⟨n.natAbs, 1074, small, by rw [power]⟩
  have inside : n.natAbs * unitsOfOne < overflowUnits :=
    Nat.lt_of_le_of_lt (Nat.mul_le_mul_right _ small) (by decide +kernel)
  refine ⟨?_, double, inside⟩
  unfold ofInt?
  rcases round_cases (n < 0) (n.natAbs * unitsOfOne) 1 with ⟨ends, -⟩ | ⟨-, outside⟩
  · rw [ends, roundUnits_of_isDouble double, finite?]
  · rw [roundUnits_of_isDouble double] at outside
    exact absurd inside (Nat.not_lt.mpr outside)

end Binary64

namespace Number

open Binary64

/-- The number is not below zero; NaN is not, either. -/
def NotNegative (x : Number) : Prop := x.lt (int 0) = false

theorem notNegative_int {n : Int} : (int n).NotNegative ↔ 0 ≤ n := by
  have positive : (0 : Int) < unitsOfOne := by exact_mod_cast unitsOfOne_pos
  simp only [NotNegative, lt, position, Position.lt, zero_mul, decide_eq_false_iff_not, not_lt]
  constructor
  · intro product
    by_contra negative
    have below := Int.mul_neg_of_neg_of_pos (Int.not_le.mp negative) positive
    omega
  · intro nonneg
    exact Int.mul_nonneg nonneg (Int.le_of_lt positive)

theorem notNegative_infinite {s : Bool} : (float (.infinite s)).NotNegative ↔ s = false := by
  cases s <;> simp [NotNegative, lt, position, Position.lt]

theorem notNegative_finite {s : Bool} {m : Nat} :
    (float (.finite s m)).NotNegative ↔ s = false ∨ m = 0 := by
  cases s <;> simp [NotNegative, lt, position, Position.lt, signed]

theorem notNegative_nan : (float .nan).NotNegative := rfl

theorem notNegative_round {s : Bool} {num : Nat} (den : Nat) (sign : s = false ∨ num = 0) :
    (float (round s num den)).NotNegative := by
  rcases sign with rfl | rfl
  · rcases round_cases false num den with ⟨ends, -⟩ | ⟨ends, -⟩
    · rw [ends]
      exact notNegative_finite.mpr (.inl rfl)
    · rw [ends]
      exact notNegative_infinite.mpr rfl
  · have zero : roundUnits 0 den = 0 := by simp [roundUnits, roundDivEven]
    rcases round_cases s 0 den with ⟨ends, -⟩ | ⟨-, outside⟩
    · rw [ends, zero]
      exact notNegative_finite.mpr (.inr rfl)
    · rw [zero] at outside
      exact absurd (rounded_zero s).2 (Nat.not_lt.mpr outside)

theorem notNegative_add {x y : Binary64} (left : (float x).NotNegative)
    (right : (float y).NotNegative) : (float (x.add y)).NotNegative := by
  cases x with
  | nan => exact notNegative_nan
  | infinite s =>
    cases y with
    | nan => exact notNegative_nan
    | infinite t =>
      rw [notNegative_infinite] at left right
      rw [left, right]
      exact notNegative_infinite.mpr rfl
    | finite t n => exact left
  | finite s m =>
    cases y with
    | nan => exact notNegative_nan
    | infinite t => exact right
    | finite t n =>
      rw [notNegative_finite] at left right
      rcases add_finite_cases s t m n with
        ⟨rfl, sum⟩ | ⟨-, -, sum⟩ | ⟨-, less, sum⟩ | ⟨-, less, sum⟩
      · rw [sum]
        apply notNegative_round
        rcases left with positive | rfl
        · exact .inl positive
        · rcases right with positive | rfl
          · exact .inl positive
          · exact .inr rfl
      · rw [sum]
        exact notNegative_finite.mpr (.inl rfl)
      · rw [sum]
        exact notNegative_round 1 (.inl (left.resolve_right (by omega)))
      · rw [sum]
        exact notNegative_round 1 (.inl (right.resolve_right (by omega)))

theorem notNegative_mul {x y : Binary64} (left : (float x).NotNegative)
    (right : (float y).NotNegative) : (float (x.mul y)).NotNegative := by
  cases x with
  | nan => exact notNegative_nan
  | infinite s =>
    cases y with
    | nan => exact notNegative_nan
    | infinite t =>
      rw [notNegative_infinite] at left right
      rw [left, right]
      exact notNegative_infinite.mpr rfl
    | finite t n =>
      rw [notNegative_infinite] at left
      rw [notNegative_finite] at right
      rw [Binary64.mul]
      split
      · exact notNegative_nan
      next nonzero =>
        rw [left, right.resolve_right nonzero]
        exact notNegative_infinite.mpr rfl
  | finite s m =>
    cases y with
    | nan => exact notNegative_nan
    | infinite t =>
      rw [notNegative_finite] at left
      rw [notNegative_infinite] at right
      rw [Binary64.mul]
      split
      · exact notNegative_nan
      next nonzero =>
        rw [right, left.resolve_right nonzero]
        exact notNegative_infinite.mpr rfl
    | finite t n =>
      rw [notNegative_finite] at left right
      apply notNegative_round
      rcases left with rfl | rfl
      · rcases right with rfl | rfl
        · exact .inl rfl
        · exact .inr (Nat.mul_zero _)
      · exact .inr (Nat.zero_mul _)

theorem notNegative_toBinary64 {a : Number} (notNegative : a.NotNegative) :
    OverflowOr (fun x => (float x).NotNegative) a.toBinary64 := by
  cases a with
  | float x => exact notNegative
  | int n =>
    rw [toBinary64]
    cases converted : ofInt? n with
    | none => rfl
    | some x =>
      have nonneg := notNegative_int.mp notNegative
      have sign : decide (n < 0) = false := decide_eq_false (by omega)
      rw [ofInt?_eq_some converted]
      exact notNegative_round 1 (.inl sign)

theorem closed_notNegative : Closed NotNegative := by
  apply Closed.of_parts
  · exact notNegative_int.mpr (by decide)
  · exact notNegative_int.mpr (by decide)
  · intro m n left right
    exact notNegative_int.mpr (Int.add_nonneg (notNegative_int.mp left) (notNegative_int.mp right))
  · intro m n left right
    exact notNegative_int.mpr (Int.mul_nonneg (notNegative_int.mp left) (notNegative_int.mp right))
  · exact notNegative_toBinary64
  · exact notNegative_add
  · exact notNegative_mul

theorem le_finite {s t : Bool} {m n : Nat} (le : signed s m ≤ signed t n) :
    (float (.finite s m)).le (float (.finite t n)) = true := by
  simp only [Number.le, position, Position.lt, Bool.or_eq_true, decide_eq_true_eq, beq_iff_eq,
    Position.units.injEq]
  omega

theorem le_top (s : Bool) (m : Nat) : (float (.finite s m)).le (float (.infinite false)) = true :=
  rfl

/-- What is rounded from above a double does not fall below it. -/
theorem le_round {m k : Nat} (double : IsDouble m) (le : m ≤ k) :
    (float (.finite false m)).le (float (round false k 1)) = true := by
  have kept := le_roundUnits double le
  rcases round_cases false k 1 with ⟨ends, -⟩ | ⟨ends, -⟩
  · rw [ends]
    apply le_finite
    simp only [signed, Bool.false_eq_true, if_false]
    omega
  · rw [ends]
    exact le_top false m

theorem neg_le_round (m k : Nat) :
    (float (.finite true m)).le (float (round false k 1)) = true := by
  rcases round_cases false k 1 with ⟨ends, -⟩ | ⟨ends, -⟩
  · rw [ends]
    apply le_finite
    simp only [signed, Bool.false_eq_true, if_false, if_true]
    omega
  · rw [ends]
    exact le_top true m

/-- A magnitude below that of a double stays below it, and so in range. -/
theorem neg_le_neg_round {m k : Nat} (rounded : (finite true m).Rounded) (le : k ≤ m) :
    (float (.finite true m)).le (float (round true k 1)) = true := by
  have kept := roundUnits_le rounded.1 le
  rcases round_cases true k 1 with ⟨ends, -⟩ | ⟨-, outside⟩
  · rw [ends]
    apply le_finite
    simp only [signed, if_true]
    omega
  · exact absurd rounded.2 (Nat.not_lt.mpr (Nat.le_trans outside kept))

theorem le_add_finite {s t : Bool} {m n : Nat} (rounded : (finite s m).Rounded)
    (notNegative : t = false ∨ n = 0) :
    (float (.finite s m)).le (float ((finite s m).add (finite t n))) = true := by
  rcases add_finite_cases s t m n with
    ⟨rfl, sum⟩ | ⟨differ, rfl, sum⟩ | ⟨differ, less, sum⟩ | ⟨differ, less, sum⟩
  · rw [sum]
    cases s with
    | false => exact le_round rounded.1 (Nat.le_add_right m n)
    | true =>
      have zero : n = 0 := notNegative.resolve_left (by simp)
      exact neg_le_neg_round rounded (by omega)
  · rw [sum]
    apply le_finite
    cases s with
    | false =>
      have zero : m = 0 := notNegative.resolve_left (fun t => differ t.symm)
      simp [signed, zero]
    | true => simp [signed]
  · rw [sum]
    cases s with
    | false =>
      have zero : n = 0 := notNegative.resolve_left (fun t => differ t.symm)
      exact le_round rounded.1 (by omega)
    | true => exact neg_le_neg_round rounded (by omega)
  · rw [sum]
    obtain rfl : t = false := notNegative.resolve_right (by omega)
    cases s with
    | false => exact absurd rfl differ
    | true => exact neg_le_round m (n - m)

/-- A rounded double does not fall by what is not negative, unless the sum is NaN. -/
theorem le_add_float {x y : Binary64} (rounded : x.Rounded) (notNegative : (float y).NotNegative)
    (number : ¬ (float (x.add y)).IsNaN) : (float x).le (float (x.add y)) = true := by
  cases x with
  | nan => exact absurd rfl number
  | infinite s =>
    cases y with
    | nan => exact absurd rfl number
    | infinite t =>
      rw [Binary64.add] at number ⊢
      by_cases same : s = t
      · rw [if_pos same]
        exact le_refl (by cases s <;> exact Option.some_ne_none _)
      · rw [if_neg same] at number
        exact absurd rfl number
    | finite t n => exact le_refl number
  | finite s m =>
    cases y with
    | nan => exact absurd rfl number
    | infinite t =>
      rw [notNegative_infinite] at notNegative
      rw [notNegative]
      exact le_top s m
    | finite t n => exact le_add_finite rounded (notNegative_finite.mp notNegative)

/-- A rounded double, or an integer of at most 53 places: arithmetic with doubles takes it as it is. -/
def Exact : Number → Prop
  | int n => n.natAbs ≤ 2 ^ 53
  | float x => x.Rounded

theorem Exact.toBinary64 {a : Number} (exact : a.Exact) :
    ∃ x, a.toBinary64 = .ok x ∧ x.Rounded ∧ (float x).position = a.position := by
  cases a with
  | float x => exact ⟨x, rfl, exact, rfl⟩
  | int n =>
    obtain ⟨converted, rounded⟩ := ofInt?_of_small exact
    refine ⟨_, by rw [Number.toBinary64, converted]; rfl, rounded, ?_⟩
    simp only [position, signed, Option.some.injEq, Position.units.injEq, decide_eq_true_eq,
      Int.natCast_mul]
    split
    · rw [← Int.neg_mul]
      congr 1
      omega
    · congr 1
      omega

/-- A sum is that of two integers, or of two doubles if one of them is no integer. -/
theorem add_success {a b c : Number} (sum : a.add b = .ok c) :
    (∃ m n, a = int m ∧ b = int n ∧ c = int (m + n)) ∨
    ((∀ m n, a = int m → b = int n → False) ∧
      ∃ x y, a.toBinary64 = .ok x ∧ b.toBinary64 = .ok y ∧ c = float (x.add y)) := by
  by_cases mixed : ∀ m n, a = int m → b = int n → False
  · rw [add_of_mixed mixed] at sum
    cases left : a.toBinary64 with
    | error fault =>
      rw [left] at sum
      cases sum
    | ok x =>
      cases right : b.toBinary64 with
      | error fault =>
        rw [left, right] at sum
        cases sum
      | ok y =>
        rw [left, right] at sum
        exact .inr ⟨mixed, x, y, rfl, rfl, (Except.ok.inj sum).symm⟩
  · push Not at mixed
    obtain ⟨m, n, rfl, rfl, -⟩ := mixed
    exact .inl ⟨m, n, rfl, rfl, (Except.ok.inj sum).symm⟩

/-- A sum that is a double is a rounded one. -/
theorem rounded_of_add {a b : Number} {x : Binary64} (sum : a.add b = .ok (float x)) : x.Rounded := by
  rcases add_success sum with ⟨_, _, _, _, integer⟩ | ⟨_, y, z, _, _, double⟩
  · cases integer
  · cases double
    exact rounded_add y z

/-- Adding what is not negative does not lower a total, if both are integers or the total is exact. -/
theorem le_add {a b c : Number} (sum : a.add b = .ok c) (notNegative : b.NotNegative)
    (number : ¬ c.IsNaN) (sound : (a.IsInteger ∧ b.IsInteger) ∨ a.Exact) : a.le c = true := by
  rcases add_success sum with ⟨m, n, rfl, rfl, rfl⟩ | ⟨mixed, x, y, left, right, rfl⟩
  · have nonneg := notNegative_int.mp notNegative
    exact le_int (by omega)
  · have exact : a.Exact := by
      refine sound.resolve_left ?_
      rintro ⟨⟨m, isInt⟩, n, isInt'⟩
      exact mixed m n isInt isInt'
    obtain ⟨z, converted, rounded, place⟩ := exact.toBinary64
    obtain rfl : z = x := Except.ok.inj (converted.symm.trans left)
    have kept := notNegative_toBinary64 notNegative
    rw [right] at kept
    have above := le_add_float rounded kept number
    unfold Number.le at above ⊢
    rw [← place]
    exact above

end Number

end QueryCost
