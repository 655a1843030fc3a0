import QueryCost.Proofs.MonotoneSums

/-!
# Arithmetic that keeps the order

Sums and products of doubles are rounded, and rounding keeps the order: with larger operands that are not
negative, the result is not lower as long as it is finite (`Binary64.UpTo.add`, `Binary64.UpTo.mul`). Integers
are exact until they meet a double. So two computations with the same steps can be compared number by number
(`Number.Rises.notAbove`) if corresponding numbers are of one kind, or if all integers in them have doubles of
their own.
-/
namespace QueryCost

namespace Binary64

theorem roundUnits_zero (den : Nat) : roundUnits 0 den = 0 := by
  simp [roundUnits, roundDivEven]

theorem round_zero (negative : Bool) (den : Nat) : round negative 0 den = finite negative 0 := by
  rcases round_cases negative 0 den with ⟨ends, -⟩ | ⟨-, outside⟩
  · rw [ends, roundUnits_zero]
  · rw [roundUnits_zero] at outside
    exact absurd (rounded_zero negative).2 (Nat.not_lt.mpr outside)

theorem round_of_rounded {negative : Bool} {units : Nat} (rounded : (finite negative units).Rounded) :
    round negative units 1 = finite negative units := by
  rcases round_cases negative units 1 with ⟨ends, -⟩ | ⟨-, outside⟩
  · rw [ends, roundUnits_of_isDouble rounded.1]
  · rw [roundUnits_of_isDouble rounded.1] at outside
    exact absurd rounded.2 (Nat.not_lt.mpr outside)

/-- A quotient is rounded the same way however it is extended. -/
theorem roundDivEven_mul_mul {c : Nat} (positive : 0 < c) (num den : Nat) :
    roundDivEven (c * num) (c * den) = roundDivEven num den := by
  have twice : 2 * (c * (num % den)) = c * (2 * (num % den)) := Nat.mul_left_comm 2 c _
  simp only [roundDivEven, Nat.mul_div_mul_left num den positive, Nat.mul_mod_mul_left, twice,
    Nat.mul_lt_mul_left positive]

theorem round_mul {c : Nat} (positive : 0 < c) (negative : Bool) (units : Nat) :
    round negative (c * units) c = round negative units 1 := by
  have same : roundUnits (c * units) c = roundUnits units 1 := by
    simp only [roundUnits, Nat.mul_div_cancel_left units positive, Nat.div_one, Nat.one_mul,
      roundDivEven_mul_mul positive]
  unfold round
  rw [same]

/-- A finite double that is not negative, and its magnitude. -/
def HasSize (x : Binary64) (m : Nat) : Prop := ∃ s, x = finite s m ∧ (s = false ∨ m = 0)

/-- Not above the other double, if that is finite. -/
def UpTo (x y : Binary64) : Prop :=
  y.isFinite = true → ∃ m n, x.HasSize m ∧ y.HasSize n ∧ m ≤ n

theorem signed_of_notNegative {s : Bool} {k : Nat} (sign : s = false ∨ k = 0) : signed s k = k := by
  rcases sign with rfl | rfl
  · rfl
  · cases s <;> rfl

theorem UpTo.refl {x : Binary64} (notNegative : (Number.float x).NotNegative) : x.UpTo x := by
  intro isFinite
  cases x with
  | finite s m =>
    have size : (finite s m).HasSize m := ⟨s, rfl, Number.notNegative_finite.mp notNegative⟩
    exact ⟨m, m, size, size, Nat.le_refl m⟩
  | _ => cases isFinite

theorem upTo_round {s t : Bool} {k l : Nat} (den : Nat) (sign : s = false ∨ k = 0)
    (sign' : t = false ∨ l = 0) (le : k ≤ l) : (round s k den).UpTo (round t l den) := by
  intro isFinite
  have mono := roundUnits_mono den le
  have zero : ∀ num, num = 0 → roundUnits num den = 0 := by
    rintro _ rfl
    exact roundUnits_zero den
  rcases round_cases t l den with ⟨ends', inside⟩ | ⟨ends', -⟩
  · rcases round_cases s k den with ⟨ends, -⟩ | ⟨-, outside⟩
    · exact ⟨_, _, ⟨s, ends, sign.imp_right (zero k)⟩, ⟨t, ends', sign'.imp_right (zero l)⟩, mono⟩
    · exact absurd inside (Nat.not_lt.mpr (Nat.le_trans outside mono))
  · rw [ends'] at isFinite
    cases isFinite

section Operations

variable {x x' y y' : Binary64} {m n : Nat}

theorem HasSize.add (left : x.HasSize m) (right : y.HasSize n) :
    ∃ s, x.add y = round s (m + n) 1 ∧ (s = false ∨ m + n = 0) := by
  obtain ⟨s, rfl, sign⟩ := left
  obtain ⟨t, rfl, sign'⟩ := right
  rcases add_finite_cases s t m n with ⟨rfl, sum⟩ | ⟨differ, rfl, sum⟩ | ⟨differ, less, sum⟩ |
    ⟨differ, less, sum⟩
  · refine ⟨s, sum, ?_⟩
    rcases sign with positive | rfl
    · exact .inl positive
    · rw [Nat.zero_add]
      exact sign'
  · -- Of two signs one is negative, and its magnitude is zero.
    obtain rfl : m = 0 := by
      rcases sign with rfl | zero
      · exact sign'.resolve_left (Ne.symm differ)
      · exact zero
    exact ⟨false, sum.trans (round_zero false 1).symm, .inl rfl⟩
  · have positive : s = false := sign.resolve_right (by omega)
    obtain rfl : n = 0 := sign'.resolve_left fun other => differ (positive.trans other.symm)
    exact ⟨s, sum, .inl positive⟩
  · have positive : t = false := sign'.resolve_right (by omega)
    obtain rfl : m = 0 := sign.resolve_left fun other => differ (other.trans positive.symm)
    exact ⟨t, by rw [sum, Nat.sub_zero, Nat.zero_add], .inl positive⟩

theorem HasSize.mul (left : x.HasSize m) (right : y.HasSize n) :
    ∃ s, x.mul y = round s (m * n) unitsOfOne ∧ (s = false ∨ m * n = 0) := by
  obtain ⟨s, rfl, sign⟩ := left
  obtain ⟨t, rfl, sign'⟩ := right
  refine ⟨s != t, by rw [mul], ?_⟩
  rcases sign with rfl | rfl
  · rcases sign' with rfl | rfl
    · exact .inl rfl
    · exact .inr (Nat.mul_zero m)
  · exact .inr (Nat.zero_mul n)

theorem isFinite_of_add (sum : (x.add y).isFinite = true) : x.isFinite = true ∧ y.isFinite = true := by
  cases x with
  | finite s m =>
    cases y with
    | finite t n => exact ⟨rfl, rfl⟩
    | _ => cases sum
  | nan => cases sum
  | infinite s =>
    cases y with
    | infinite t =>
      rw [add] at sum
      split at sum <;> cases sum
    | _ => cases sum

theorem isFinite_of_mul (product : (x.mul y).isFinite = true) :
    x.isFinite = true ∧ y.isFinite = true := by
  cases x with
  | nan => cases product
  | finite s m =>
    cases y with
    | finite t n => exact ⟨rfl, rfl⟩
    | nan => cases product
    | infinite t =>
      rw [mul] at product
      split at product <;> cases product
  | infinite s =>
    cases y with
    | finite t n =>
      rw [mul] at product
      split at product <;> cases product
    | _ => cases product

theorem UpTo.add (left : x.UpTo x') (right : y.UpTo y') : (x.add y).UpTo (x'.add y') := by
  intro isFinite
  have parts := isFinite_of_add isFinite
  obtain ⟨m, m', size, size', le⟩ := left parts.1
  obtain ⟨n, n', other, other', le'⟩ := right parts.2
  obtain ⟨s, sum, sign⟩ := size.add other
  obtain ⟨t, sum', sign'⟩ := size'.add other'
  rw [sum'] at isFinite
  rw [sum, sum']
  exact upTo_round 1 sign sign' (Nat.add_le_add le le') isFinite

theorem UpTo.mul (left : x.UpTo x') (right : y.UpTo y') : (x.mul y).UpTo (x'.mul y') := by
  intro isFinite
  have parts := isFinite_of_mul isFinite
  obtain ⟨m, m', size, size', le⟩ := left parts.1
  obtain ⟨n, n', other, other', le'⟩ := right parts.2
  obtain ⟨s, product, sign⟩ := size.mul other
  obtain ⟨t, product', sign'⟩ := size'.mul other'
  rw [product'] at isFinite
  rw [product, product']
  exact upTo_round unitsOfOne sign sign' (Nat.mul_le_mul le le') isFinite

end Operations

section Integers

variable {m n : Int} {x y : Binary64}

theorem ofInt?_isFinite (converted : ofInt? n = some y) : y.isFinite = true := by
  have rounded := ofInt?_eq_some converted
  unfold ofInt? at converted
  rw [← rounded] at converted
  cases y with
  | finite s k => rfl
  | _ => cases converted

theorem ofInt?_mono (nonneg : 0 ≤ m) (le : m ≤ n) (converted : ofInt? n = some y) :
    ∃ x, ofInt? m = some x ∧ x.UpTo y := by
  have sign : ∀ {k : Int}, 0 ≤ k → decide (k < 0) = false := fun nonneg => decide_eq_false (by omega)
  have units : m.natAbs * unitsOfOne ≤ n.natAbs * unitsOfOne := Nat.mul_le_mul_right _ (by omega)
  have upTo : (round (m < 0) (m.natAbs * unitsOfOne) 1).UpTo y := by
    rw [ofInt?_eq_some converted]
    exact upTo_round 1 (.inl (sign nonneg)) (.inl (sign (Int.le_trans nonneg le))) units
  obtain ⟨k, l, ⟨s, ends, signed⟩, size', below⟩ := upTo (ofInt?_isFinite converted)
  have isSome : ofInt? m = some (finite s k) := by
    unfold ofInt?
    rw [ends, finite?]
  exact ⟨_, isSome, fun _ => ⟨k, l, ⟨s, rfl, signed⟩, size', below⟩⟩

/-- The double of an integer of at most 53 places. -/
theorem ofInt?_of_le (nonneg : 0 ≤ n) (small : n ≤ 2 ^ 53) :
    ofInt? n = some (finite false (n.toNat * unitsOfOne)) ∧
      (finite false (n.toNat * unitsOfOne)).Rounded := by
  have sign : decide (n < 0) = false := decide_eq_false (by omega)
  have same : n.natAbs = n.toNat := by omega
  have converted := @ofInt?_of_small n (by omega)
  rw [sign, same] at converted
  exact converted

theorem ofInt?_add (first : 0 ≤ m) (second : 0 ≤ n) (small : m + n ≤ 2 ^ 53)
    (left : ofInt? m = some x) (right : ofInt? n = some y) : ofInt? (m + n) = some (x.add y) := by
  rw [(ofInt?_of_le first (by omega)).1] at left
  rw [(ofInt?_of_le second (by omega)).1] at right
  obtain rfl := Option.some.inj left
  obtain rfl := Option.some.inj right
  obtain ⟨converted, rounded⟩ := ofInt?_of_le (Int.add_nonneg first second) small
  have units : (m + n).toNat * unitsOfOne = m.toNat * unitsOfOne + n.toNat * unitsOfOne := by
    rw [Int.toNat_add first second, Nat.add_mul]
  rw [converted, add, if_pos rfl, ← units, round_of_rounded rounded]

theorem ofInt?_sign (nonneg : 0 ≤ n) (converted : ofInt? n = some y) : ∃ k, y = finite false k := by
  have sign : decide (n < 0) = false := decide_eq_false (by omega)
  have isFinite := ofInt?_isFinite converted
  rw [ofInt?_eq_some converted, sign] at isFinite ⊢
  rcases round_cases false (n.natAbs * unitsOfOne) 1 with ⟨ends, -⟩ | ⟨ends, -⟩
  · exact ⟨_, ends⟩
  · rw [ends] at isFinite
    cases isFinite

theorem ofInt?_mul (first : 0 ≤ m) (second : 0 ≤ n) (small : m * n ≤ 2 ^ 53)
    (left : ofInt? m = some x) (right : ofInt? n = some y) : ofInt? (m * n) = some (x.mul y) := by
  obtain ⟨converted, rounded⟩ := ofInt?_of_le (Int.mul_nonneg first second) small
  obtain ⟨k, rfl⟩ := ofInt?_sign first left
  obtain ⟨l, rfl⟩ := ofInt?_sign second right
  have product : (finite false k).mul (finite false l) = round false (k * l) unitsOfOne := by rw [mul]; rfl
  rw [converted, product]
  have exact : ∀ {i : Int} {j : Nat}, 0 ≤ i → i ≤ 2 ^ 53 → ofInt? i = some (finite false j) →
      j = i.toNat * unitsOfOne := by
    intro i j nonneg le converted
    rw [(ofInt?_of_le nonneg le).1] at converted
    cases converted
    rfl
  by_cases zero : m = 0 ∨ n = 0
  · -- The other factor may be too large to be exact, but the product is zero all the same.
    have units : k * l = 0 := by
      rcases zero with rfl | rfl
      · rw [exact (by decide) (by decide) left, Int.toNat_zero, Nat.zero_mul, Nat.zero_mul]
      · rw [exact (by decide) (by decide) right, Int.toNat_zero, Nat.zero_mul, Nat.mul_zero]
    have none : m * n = 0 := Int.mul_eq_zero.mpr zero
    rw [units, round_zero, none, Int.toNat_zero, Nat.zero_mul]
  · have left_le := Int.mul_le_mul_of_nonneg_left (show 1 ≤ n by omega) first
    have right_le := Int.mul_le_mul_of_nonneg_right (show 1 ≤ m by omega) second
    have units : k * l = unitsOfOne * ((m * n).toNat * unitsOfOne) := by
      rw [exact first (by omega) left, exact second (by omega) right, Int.toNat_mul first second]
      ring
    rw [units, round_mul unitsOfOne_pos, round_of_rounded rounded]

end Integers

end Binary64

namespace Number

open Binary64

/-- An integer that is not negative and has a double of its own, or a double. -/
def IsSmall : Number → Prop
  | int n => 0 ≤ n ∧ n ≤ 2 ^ 53
  | float _ => True

/-- Integers in their order, or doubles in theirs. Integers count as doubles where that is exact. -/
inductive UpTo : Number → Number → Prop
  | integers {m n : Int} (nonneg : 0 ≤ m) (le : m ≤ n) : UpTo (int m) (int n)
  | doubles {a b : Number} {x y : Binary64} (small : a.IsSmall) (small' : b.IsSmall)
      (left : a.toBinary64 = .ok x) (right : b.toBinary64 = .ok y) (upTo : x.UpTo y) : UpTo a b

theorem toBinary64_int {n : Int} {x : Binary64} :
    (int n).toBinary64 = .ok x ↔ ofInt? n = some x := by
  rw [toBinary64]
  cases ofInt? n <;> simp

theorem IsSmall.toBinary64 {a : Number} (small : a.IsSmall) : ∃ x, a.toBinary64 = .ok x := by
  cases a with
  | int n => exact ⟨_, toBinary64_int.mpr (ofInt?_of_le small.1 small.2).1⟩
  | float x => exact ⟨x, rfl⟩

/-- A small number has the place of its double. -/
theorem IsSmall.position {a : Number} {x : Binary64} (small : a.IsSmall)
    (converted : a.toBinary64 = .ok x) : (float x).position = a.position := by
  have exact : a.Exact ∨ ∃ y, a = float y := by
    cases a with
    | int n => exact .inl (by unfold Exact; have := small.1; have := small.2; omega)
    | float y => exact .inr ⟨y, rfl⟩
  rcases exact with exact | ⟨y, rfl⟩
  · obtain ⟨z, same, -, place⟩ := exact.toBinary64
    obtain rfl := Except.ok.inj (same.symm.trans converted)
    exact place
  · obtain rfl := Except.ok.inj converted
    rfl

theorem isFinite_iff {a : Number} :
    a.isFinite = .ok true ↔ ∃ x, a.toBinary64 = .ok x ∧ x.isFinite = true := by
  cases a with
  | float x => simp [isFinite, toBinary64]
  | int n =>
    simp only [toBinary64_int, isFinite]
    cases converted : ofInt? n with
    | none => simp
    | some x => exact ⟨fun _ => ⟨x, rfl, ofInt?_isFinite converted⟩, fun _ => rfl⟩

namespace UpTo

variable {a b : Number}

theorem refl (notNegative : a.NotNegative) : a.UpTo a := by
  cases a with
  | int n => exact .integers (notNegative_int.mp notNegative) (Int.le_refl n)
  | float x => exact .doubles trivial trivial rfl rfl (.refl notNegative)

theorem toBinary64 {y : Binary64} (upTo : a.UpTo b) (converted : b.toBinary64 = .ok y) :
    ∃ x, a.toBinary64 = .ok x ∧ x.UpTo y := by
  cases upTo with
  | integers nonneg le =>
    obtain ⟨x, left, below⟩ := ofInt?_mono nonneg le (toBinary64_int.mp converted)
    exact ⟨x, toBinary64_int.mpr left, below⟩
  | doubles small small' left right below =>
    obtain rfl := Except.ok.inj (right.symm.trans converted)
    exact ⟨_, left, below⟩

theorem int {m n : Int} (upTo : (Number.int m).UpTo (.int n)) : 0 ≤ m ∧ m ≤ n := by
  cases upTo with
  | integers nonneg le => exact ⟨nonneg, le⟩
  | doubles small small' left right below =>
    have convert := (ofInt?_of_le small.1 small.2).1.symm.trans (toBinary64_int.mp left)
    have convert' := (ofInt?_of_le small'.1 small'.2).1.symm.trans (toBinary64_int.mp right)
    obtain rfl := Option.some.inj convert
    obtain rfl := Option.some.inj convert'
    obtain ⟨_, _, ⟨_, ⟨⟩, -⟩, ⟨_, ⟨⟩, -⟩, units⟩ := below rfl
    have le : m.toNat ≤ n.toNat := Nat.le_of_mul_le_mul_right units unitsOfOne_pos
    have nonneg : 0 ≤ m := small.1
    have nonneg' : 0 ≤ n := small'.1
    exact ⟨nonneg, by omega⟩

/-- Below a finite number all numbers are finite. -/
theorem isFinite (upTo : a.UpTo b) (isFinite : b.isFinite = .ok true) : a.isFinite = .ok true := by
  obtain ⟨y, converted, isFinite⟩ := isFinite_iff.mp isFinite
  obtain ⟨x, left, below⟩ := upTo.toBinary64 converted
  obtain ⟨_, _, ⟨_, rfl, -⟩, -, -⟩ := below isFinite
  exact isFinite_iff.mpr ⟨_, left, rfl⟩

theorem le (upTo : a.UpTo b) (isFinite : b.isFinite = .ok true) : a.le b = true := by
  cases upTo with
  | integers nonneg le => exact le_int le
  | doubles small small' left right below =>
    obtain ⟨y, converted, isFinite⟩ := isFinite_iff.mp isFinite
    obtain rfl := Except.ok.inj (right.symm.trans converted)
    obtain ⟨m, n, ⟨s, rfl, sign⟩, ⟨t, rfl, sign'⟩, units⟩ := below isFinite
    have notAbove : (Number.float (.finite s m)).le (.float (.finite t n)) = true := by
      apply le_finite
      rw [signed_of_notNegative sign, signed_of_notNegative sign']
      exact_mod_cast units
    unfold Number.le at notAbove ⊢
    rw [← small.position left, ← small'.position right]
    exact notAbove

end UpTo

/-- A result of one operation on integers, or of another one on doubles as soon as a double takes part. -/
def Combined (onInts : Int → Int → Int) (onDoubles : Binary64 → Binary64 → Binary64)
    (a b c : Number) : Prop :=
  (∃ m n, a = int m ∧ b = int n ∧ c = int (onInts m n)) ∨
  ((∀ m n, a = int m → b = int n → False) ∧
    ∃ x y, a.toBinary64 = .ok x ∧ b.toBinary64 = .ok y ∧ c = float (onDoubles x y))

theorem combined_of_add {a b c : Number} (sum : a.add b = .ok c) :
    Combined (· + ·) Binary64.add a b c :=
  add_success sum

theorem combined_of_mul {a b c : Number} (product : a.mul b = .ok c) :
    Combined (· * ·) Binary64.mul a b c := by
  by_cases mixed : ∀ m n, a = int m → b = int n → False
  · rw [mul_of_mixed mixed] at product
    obtain ⟨x, left, product⟩ := except_bind_success product
    obtain ⟨y, right, product⟩ := except_bind_success product
    exact .inr ⟨mixed, x, y, left, right, (Except.ok.inj product).symm⟩
  · push Not at mixed
    obtain ⟨m, n, rfl, rfl, -⟩ := mixed
    exact .inl ⟨m, n, rfl, rfl, (Except.ok.inj product).symm⟩

/-- Both operations keep the order, and do the same to integers that have doubles of their own. -/
structure Rises (onInts : Int → Int → Int) (onDoubles : Binary64 → Binary64 → Binary64) : Prop where
  nonneg : ∀ {m n}, 0 ≤ m → 0 ≤ n → 0 ≤ onInts m n
  mono : ∀ {m m' n n'}, 0 ≤ m → m ≤ m' → 0 ≤ n → n ≤ n' → onInts m n ≤ onInts m' n'
  upTo : ∀ {x x' y y'}, x.UpTo x' → y.UpTo y' → (onDoubles x y).UpTo (onDoubles x' y')
  exact : ∀ {m n x y}, 0 ≤ m → 0 ≤ n → onInts m n ≤ 2 ^ 53 → ofInt? m = some x → ofInt? n = some y →
    ofInt? (onInts m n) = some (onDoubles x y)

theorem rises_add : Rises (· + ·) Binary64.add where
  nonneg := Int.add_nonneg
  mono := by
    intro m m' n n' _ le _ le'
    exact Int.add_le_add le le'
  upTo := Binary64.UpTo.add
  exact := ofInt?_add

theorem rises_mul : Rises (· * ·) Binary64.mul where
  nonneg := Int.mul_nonneg
  mono := by
    intro m m' n n' nonneg le nonneg' le'
    exact Int.mul_le_mul le le' nonneg' (Int.le_trans nonneg le)
  upTo := Binary64.UpTo.mul
  exact := ofInt?_mul

/-- What a number can contribute to a product of integers that are not negative. -/
def weight : Number → Nat
  | int n => max 1 n.toNat
  | float _ => 1

/-- Not above the other number, and of the same kind, except where the kinds are `mixed`: there all
integers are small. -/
structure NotAbove (mixed : Prop) (a b : Number) : Prop where
  upTo : a.UpTo b
  alike : mixed ∨ (a.IsInteger ↔ b.IsInteger)
  small : mixed → a.IsSmall ∧ b.IsSmall

section Combinations

variable {onInts : Int → Int → Int} {onDoubles : Binary64 → Binary64 → Binary64}
  {a a' b b' c c' : Number} {x y : Binary64} {mixed : Prop}

theorem Rises.isSmall (rises : Rises onInts onDoubles) (result : Combined onInts onDoubles a b c)
    (left : a.IsSmall) (right : b.IsSmall) (le : c.weight ≤ 2 ^ 53) : c.IsSmall := by
  rcases result with ⟨m, n, rfl, rfl, rfl⟩ | ⟨-, x, y, -, -, rfl⟩
  · have nonneg := rises.nonneg left.1 right.1
    have bound : (onInts m n).toNat ≤ 2 ^ 53 := Nat.le_trans (Nat.le_max_right _ _) le
    exact ⟨nonneg, by omega⟩
  · trivial

theorem Rises.toBinary64 (rises : Rises onInts onDoubles) (result : Combined onInts onDoubles a b c)
    (left : a.IsSmall) (right : b.IsSmall) (small : c.IsSmall) (hx : a.toBinary64 = .ok x)
    (hy : b.toBinary64 = .ok y) : c.toBinary64 = .ok (onDoubles x y) := by
  rcases result with ⟨m, n, rfl, rfl, rfl⟩ | ⟨-, x', y', hx', hy', rfl⟩
  · rw [toBinary64_int] at hx hy ⊢
    exact rises.exact left.1 right.1 small.2 hx hy
  · obtain rfl := Except.ok.inj (hx.symm.trans hx')
    obtain rfl := Except.ok.inj (hy.symm.trans hy')
    rfl

/-- One step of a computation: with the numbers before it the result does not fall, either. -/
theorem Rises.notAbove (rises : Rises onInts onDoubles) (left : NotAbove mixed a a')
    (right : NotAbove mixed b b') (result : Combined onInts onDoubles a b c)
    (result' : Combined onInts onDoubles a' b' c')
    (bound : mixed → c.weight ≤ 2 ^ 53 ∧ c'.weight ≤ 2 ^ 53) : NotAbove mixed c c' := by
  by_cases kinds : mixed
  · -- All numbers are what they are as doubles.
    obtain ⟨small, small'⟩ := left.small kinds
    obtain ⟨other, other'⟩ := right.small kinds
    have fits := rises.isSmall result small other (bound kinds).1
    have fits' := rises.isSmall result' small' other' (bound kinds).2
    obtain ⟨x', hx'⟩ := small'.toBinary64
    obtain ⟨y', hy'⟩ := other'.toBinary64
    obtain ⟨x, hx, below⟩ := left.upTo.toBinary64 hx'
    obtain ⟨y, hy, below'⟩ := right.upTo.toBinary64 hy'
    refine ⟨.doubles fits fits' ?_ ?_ (rises.upTo below below'), .inl kinds, fun _ => ⟨fits, fits'⟩⟩
    · exact rises.toBinary64 result small other fits hx hy
    · exact rises.toBinary64 result' small' other' fits' hx' hy'
  · have alike := left.alike.resolve_left kinds
    have alike' := right.alike.resolve_left kinds
    rcases result with ⟨m, n, rfl, rfl, rfl⟩ | ⟨doubles, x, y, hx, hy, rfl⟩
    · obtain ⟨m', rfl⟩ := alike.mp ⟨m, rfl⟩
      obtain ⟨n', rfl⟩ := alike'.mp ⟨n, rfl⟩
      rcases result' with ⟨_, _, ⟨⟩, ⟨⟩, rfl⟩ | ⟨doubles, -⟩
      · obtain ⟨nonneg, le⟩ := left.upTo.int
        obtain ⟨nonneg', le'⟩ := right.upTo.int
        refine ⟨.integers (rises.nonneg nonneg nonneg') (rises.mono nonneg le nonneg' le'), .inr ?_,
          fun other => absurd other kinds⟩
        exact ⟨fun _ => ⟨_, rfl⟩, fun _ => ⟨_, rfl⟩⟩
      · exact absurd rfl (doubles m' n' rfl)
    · rcases result' with ⟨m', n', rfl, rfl, rfl⟩ | ⟨-, x', y', hx', hy', rfl⟩
      · obtain ⟨m, rfl⟩ := alike.mpr ⟨m', rfl⟩
        obtain ⟨n, rfl⟩ := alike'.mpr ⟨n', rfl⟩
        exact absurd rfl (doubles m n rfl)
      · obtain ⟨_, same, below⟩ := left.upTo.toBinary64 hx'
        obtain ⟨_, same', below'⟩ := right.upTo.toBinary64 hy'
        obtain rfl := Except.ok.inj (hx.symm.trans same)
        obtain rfl := Except.ok.inj (hy.symm.trans same')
        refine ⟨.doubles trivial trivial rfl rfl (rises.upTo below below'), .inr ?_,
          fun other => absurd other kinds⟩
        constructor
        · rintro ⟨_, ⟨⟩⟩
        · rintro ⟨_, ⟨⟩⟩

end Combinations

section Weights

variable {a b c : Number} {mixed : Prop}

theorem one_le_weight (a : Number) : 1 ≤ a.weight := by
  cases a with
  | int n => exact Nat.le_max_left 1 _
  | float x => exact Nat.le_refl 1

theorem isSmall_of_weight (notNegative : a.NotNegative) (le : a.weight ≤ 2 ^ 53) : a.IsSmall := by
  cases a with
  | int n =>
    have nonneg := notNegative_int.mp notNegative
    have bound : n.toNat ≤ 2 ^ 53 := Nat.le_trans (Nat.le_max_right _ _) le
    exact ⟨nonneg, by omega⟩
  | float x => trivial

theorem weight_add (sum : a.add b = .ok c) : c.weight ≤ a.weight + b.weight := by
  rcases combined_of_add sum with ⟨m, n, rfl, rfl, rfl⟩ | ⟨-, x, y, -, -, rfl⟩
  · simp only [weight]
    omega
  · exact Nat.le_trans (one_le_weight a) (Nat.le_add_right _ _)

theorem weight_mul (product : a.mul b = .ok c) (left : a.IsSmall) (right : b.IsSmall) :
    c.weight ≤ a.weight * b.weight := by
  have one : 1 ≤ a.weight * b.weight := Nat.mul_le_mul (one_le_weight a) (one_le_weight b)
  rcases combined_of_mul product with ⟨m, n, rfl, rfl, rfl⟩ | ⟨-, x, y, -, -, rfl⟩
  · refine Nat.max_le.mpr ⟨one, ?_⟩
    rw [Int.toNat_mul left.1 right.1]
    exact Nat.mul_le_mul (Nat.le_max_right _ _) (Nat.le_max_right _ _)
  · exact one

theorem NotAbove.refl (notNegative : a.NotNegative) (bound : mixed → a.weight ≤ 2 ^ 53) :
    NotAbove mixed a a := by
  refine ⟨.refl notNegative, .inr Iff.rfl, fun kinds => ?_⟩
  have small := isSmall_of_weight notNegative (bound kinds)
  exact ⟨small, small⟩

theorem int_le {m n : Int} (le : (int m).le (int n) = true) : m ≤ n := by
  have positive : (0 : Int) < unitsOfOne := by exact_mod_cast unitsOfOne_pos
  obtain ⟨_, _, ⟨⟩, ⟨⟩, places⟩ := le_iff_places.mp le
  refine Int.le_of_mul_le_mul_right ?_ positive
  rcases places with below | same
  · simp only [Position.lt, decide_eq_true_eq] at below
    omega
  · simp only [Position.units.injEq] at same
    omega

theorem upTo_of_le {x y : Binary64} (notNegative : (float x).NotNegative)
    (notNegative' : (float y).NotNegative) (le : (float x).le (float y) = true) : x.UpTo y := by
  intro isFinite
  cases y with
  | finite t n =>
    have sign' := notNegative_finite.mp notNegative'
    cases x with
    | finite s m =>
      have sign := notNegative_finite.mp notNegative
      have units : m ≤ n := by
        simp only [Number.le, position, Position.lt, Bool.or_eq_true, decide_eq_true_eq, beq_iff_eq,
          Position.units.injEq, signed_of_notNegative sign, signed_of_notNegative sign'] at le
        omega
      exact ⟨m, n, ⟨s, rfl, sign⟩, ⟨t, rfl, sign'⟩, units⟩
    | infinite s =>
      rw [notNegative_infinite.mp notNegative] at le
      cases le
    | nan => cases le
  | _ => cases isFinite

theorem NotAbove.of_le (notNegative : a.NotNegative) (le : a.le b = true)
    (alike : mixed ∨ (a.IsInteger ↔ b.IsInteger))
    (bound : mixed → a.weight ≤ 2 ^ 53 ∧ b.weight ≤ 2 ^ 53) : NotAbove mixed a b := by
  have notNegative' : b.NotNegative := by
    cases negative : b.lt (int 0) with
    | false => exact negative
    | true => exact absurd (lt_of_le_of_lt le negative) (by rw [notNegative]; exact Bool.false_ne_true)
  have small : mixed → a.IsSmall ∧ b.IsSmall := fun kinds =>
    ⟨isSmall_of_weight notNegative (bound kinds).1, isSmall_of_weight notNegative' (bound kinds).2⟩
  refine ⟨?_, alike, small⟩
  by_cases integers : a.IsInteger ∧ b.IsInteger
  · obtain ⟨⟨m, rfl⟩, n, rfl⟩ := integers
    exact .integers (notNegative_int.mp notNegative) (int_le le)
  · obtain ⟨small, small'⟩ : a.IsSmall ∧ b.IsSmall := by
      rcases alike with kinds | alike
      · exact small kinds
      · cases a with
        | int m => exact absurd ⟨⟨m, rfl⟩, alike.mp ⟨m, rfl⟩⟩ integers
        | float x =>
          cases b with
          | int n => exact absurd ⟨alike.mpr ⟨n, rfl⟩, ⟨n, rfl⟩⟩ integers
          | float y => exact ⟨trivial, trivial⟩
    obtain ⟨x, left⟩ := small.toBinary64
    obtain ⟨y, right⟩ := small'.toBinary64
    refine .doubles small small' left right (upTo_of_le ?_ ?_ ?_)
    · unfold NotNegative lt at notNegative ⊢
      rw [small.position left]
      exact notNegative
    · unfold NotNegative lt at notNegative' ⊢
      rw [small'.position right]
      exact notNegative'
    · unfold Number.le at le ⊢
      rw [small.position left, small'.position right]
      exact le

end Weights

end Number

end QueryCost
