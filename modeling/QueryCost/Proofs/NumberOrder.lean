import QueryCost.Number

/-!
# The order of numbers

Integers and doubles are compared by their place on one line. NaN has no place, so it is neither below
nor above anything; between all other numbers the order is total. `IsHighest` says what the highest of
several costs is when a document may also cost nothing.
-/
namespace QueryCost

namespace Position

theorem lt_trans {a b c : Position} (first : a.lt b = true) (second : b.lt c = true) :
    a.lt c = true := by
  cases a <;> cases b <;> cases c <;> simp_all [lt]
  omega

/-- The line has no gaps in its order. -/
theorem lt_or_eq_of_not_lt {a b : Position} (no : a.lt b = false) : b.lt a = true ∨ b = a := by
  cases a <;> cases b <;> simp_all [lt]
  omega

end Position

namespace Number

/-- Not a number, and so without a place in the order. -/
def IsNaN (x : Number) : Prop := x.position = none

instance (x : Number) : Decidable x.IsNaN := inferInstanceAs (Decidable (_ = _))

theorem not_isNaN_int (n : Int) : ¬ (int n).IsNaN :=
  Option.some_ne_none _

theorem lt_of_isNaN_right {x y : Number} (nan : y.IsNaN) : x.lt y = false := by
  unfold IsNaN at nan
  unfold lt
  rw [nan]
  cases x.position <;> rfl

theorem not_isNaN_of_lt {x y : Number} (less : x.lt y = true) : ¬ y.IsNaN := by
  intro nan
  rw [lt_of_isNaN_right nan] at less
  cases less

theorem le_int {m n : Int} (le : m ≤ n) : (int m).le (int n) = true := by
  have scaled : m * (Binary64.unitsOfOne : Int) ≤ n * Binary64.unitsOfOne :=
    Int.mul_le_mul_of_nonneg_right le (Int.natCast_nonneg _)
  simp only [Number.le, position, Position.lt, Bool.or_eq_true, decide_eq_true_eq, beq_iff_eq,
    Position.units.injEq]
  exact Int.lt_or_eq_of_le scaled

theorem le_refl {x : Number} (number : ¬ x.IsNaN) : x.le x = true := by
  cases place : x.position with
  | none => exact absurd place number
  | some p => simp [le, place]

theorem lt_iff_places {x y : Number} : x.lt y = true ↔
    ∃ p q, x.position = some p ∧ y.position = some q ∧ p.lt q = true := by
  unfold lt
  cases x.position <;> cases y.position <;> simp

theorem le_iff_places {x y : Number} : x.le y = true ↔
    ∃ p q, x.position = some p ∧ y.position = some q ∧ (p.lt q = true ∨ p = q) := by
  unfold le
  cases x.position <;> cases y.position <;> simp

theorem le_of_lt {x y : Number} (less : x.lt y = true) : x.le y = true := by
  obtain ⟨p, q, px, py, below⟩ := lt_iff_places.mp less
  exact le_iff_places.mpr ⟨p, q, px, py, .inl below⟩

/-- Between numbers that are not NaN the order is total. -/
theorem le_of_not_lt {x y : Number} (hx : ¬ x.IsNaN) (hy : ¬ y.IsNaN) (no : x.lt y = false) :
    y.le x = true := by
  cases px : x.position with
  | none => exact absurd px hx
  | some p =>
    cases py : y.position with
    | none => exact absurd py hy
    | some q =>
      simp only [lt, px, py] at no
      simp only [le, px, py, Bool.or_eq_true, beq_iff_eq]
      exact Position.lt_or_eq_of_not_lt no

theorem lt_of_lt_of_le {x y z : Number} (first : x.lt y = true) (second : y.le z = true) :
    x.lt z = true := by
  obtain ⟨p, q, px, py, below⟩ := lt_iff_places.mp first
  obtain ⟨q', r, py', pz, notAbove⟩ := le_iff_places.mp second
  obtain rfl := Option.some.inj (py.symm.trans py')
  rcases notAbove with below' | rfl
  · exact lt_iff_places.mpr ⟨p, r, px, pz, Position.lt_trans below below'⟩
  · exact lt_iff_places.mpr ⟨p, q, px, pz, below⟩

theorem lt_of_le_of_lt {x y z : Number} (first : x.le y = true) (second : y.lt z = true) :
    x.lt z = true := by
  obtain ⟨p, q, px, py, notAbove⟩ := le_iff_places.mp first
  obtain ⟨q', r, py', pz, below⟩ := lt_iff_places.mp second
  obtain rfl := Option.some.inj (py.symm.trans py')
  rcases notAbove with below' | rfl
  · exact lt_iff_places.mpr ⟨p, r, px, pz, Position.lt_trans below' below⟩
  · exact lt_iff_places.mpr ⟨p, r, px, pz, below⟩

theorem le_trans {x y z : Number} (first : x.le y = true) (second : y.le z = true) :
    x.le z = true := by
  obtain ⟨p, q, px, py, notAbove⟩ := le_iff_places.mp first
  rcases notAbove with below | rfl
  · exact le_of_lt (lt_of_lt_of_le (lt_iff_places.mpr ⟨p, q, px, py, below⟩) second)
  · obtain ⟨q, r, py', pz, notAbove⟩ := le_iff_places.mp second
    exact le_iff_places.mpr ⟨q, r, px.trans (py.symm.trans py'), pz, notAbove⟩

theorem not_lt_of_le {x y : Number} (le : x.le y = true) : y.lt x = false := by
  have irreflexive : y.lt y = false := by
    unfold lt
    cases y.position with
    | none => rfl
    | some p => cases p <;> simp [Position.lt]
  cases less : y.lt x with
  | false => rfl
  | true => exact (lt_of_lt_of_le less le).symm.trans irreflexive

/-- The highest of zero and some costs: one of them, and none of them is above it. Costs that are NaN
do not count. -/
structure IsHighest (highest : Number) (costs : List Number) : Prop where
  mem : highest = int 0 ∨ highest ∈ costs
  zero_le : (int 0).le highest = true
  cost_le : ∀ cost ∈ costs, ¬ cost.IsNaN → cost.le highest = true

namespace IsHighest

theorem nil : IsHighest (int 0) [] :=
  ⟨Or.inl rfl, le_refl (not_isNaN_int 0), by simp⟩

theorem not_isNaN {highest : Number} {costs : List Number} (h : IsHighest highest costs) :
    ¬ highest.IsNaN := by
  intro nan
  have place : highest.position = none := nan
  have zero := h.zero_le
  simp [le, place] at zero

/-- One more cost replaces the highest one if it is above it, and changes nothing otherwise. -/
theorem snoc {highest : Number} {costs : List Number} (h : IsHighest highest costs)
    (cost : Number) :
    IsHighest (if highest.lt cost then cost else highest) (costs ++ [cost]) := by
  by_cases above : highest.lt cost = true
  · rw [if_pos above]
    refine ⟨by simp, le_trans h.zero_le (le_of_lt above), ?_⟩
    intro other member number
    rcases List.mem_append.mp member with old | new
    · exact le_trans (h.cost_le other old number) (le_of_lt above)
    · rw [List.mem_singleton.mp new]
      exact le_refl (not_isNaN_of_lt above)
  · rw [if_neg above]
    refine ⟨?_, h.zero_le, ?_⟩
    · rcases h.mem with zero | member
      · exact Or.inl zero
      · exact Or.inr (List.mem_append.mpr (Or.inl member))
    · intro other member number
      rcases List.mem_append.mp member with old | new
      · exact h.cost_le other old number
      · rw [List.mem_singleton.mp new] at number ⊢
        exact le_of_not_lt h.not_isNaN number (by simpa using above)

/-- All costs that are numbers are at most a positive maximum exactly if the highest of them is. -/
theorem le_iff {highest maximum : Number} {costs : List Number} (h : IsHighest highest costs)
    (positive : (int 0).lt maximum = true) :
    highest.le maximum = true ↔ ∀ cost ∈ costs, cost.le maximum = true ∨ cost.IsNaN := by
  constructor
  · intro le cost member
    by_cases nan : cost.IsNaN
    · exact .inr nan
    · exact .inl (le_trans (h.cost_le cost member nan) le)
  · intro bounded
    rcases h.mem with rfl | member
    · exact le_of_lt positive
    · exact (bounded highest member).resolve_right h.not_isNaN

end IsHighest

end Number

end QueryCost
