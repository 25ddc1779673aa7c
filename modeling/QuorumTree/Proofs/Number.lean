import Mathlib.Algebra.Order.Group.Int
import Mathlib.Algebra.Order.Ring.Int
import QuorumTree.Number
import QuorumTree.Power

/-!
Comparing numbers of every kind. Numbers that count are compared by what they count and the others
by their places; both come to comparing places, so equal numbers cannot be told apart by comparing.
-/

namespace QuorumTree.Number

/-- How many of the smallest floating-point number make up one. -/
def unit : Int :=
  2 ^ (-Binary64.leastExponent).toNat

theorem unit_pos : 0 < unit :=
  Int.pow_pos (by decide)

theorem place_whole (n : Int) : (whole n).place = .among (n * unit) := rfl

/-- A number that counts stands where the whole number stands that it counts. -/
theorem place_of_toInt? {number : Number} {n : Int} (h : number.toInt? = some n) :
    number.place = .among (n * unit) := by
  cases number with
  | truth value =>
      cases h
      rfl
  | whole value =>
      cases h
      rfl
  | real value => cases h

theorem place_ne_nowhere_of_toInt? {number : Number} {n : Int} (h : number.toInt? = some n) :
    number.place ≠ .nowhere := by
  rw [place_of_toInt? h]
  exact Place.noConfusion

theorem isWritable_whole (n : Int) :
    (whole n).isWritable = decide (n.natAbs < 10 ^ Text.maxDigits) := by
  simp only [isWritable, toInt?, Option.all_some, Text.isWritable]

theorem isWritable_natCast (n : Nat) :
    (whole n).isWritable = decide (n < 10 ^ Text.maxDigits) := by
  rw [isWritable_whole, Int.natAbs_natCast]

/-! ### Comparing by place -/

theorem lt_eq (a b : Number) : a.lt b = a.place.lt b.place := by
  cases ha : a.toInt? with
  | none => simp only [lt, ha]
  | some m =>
      cases hb : b.toInt? with
      | none => simp only [lt, ha, hb]
      | some n =>
          rw [place_of_toInt? ha, place_of_toInt? hb]
          simp only [lt, ha, hb, Place.lt, Int.mul_lt_mul_right unit_pos]

theorem same_eq (a b : Number) : a.same b = (a.place != .nowhere && a.place == b.place) := by
  cases ha : a.toInt? with
  | none => simp only [same, ha]
  | some m =>
      cases hb : b.toInt? with
      | none => simp only [same, ha, hb]
      | some n =>
          have hunit : unit ≠ 0 := Int.ne_of_gt unit_pos
          rw [place_of_toInt? ha, place_of_toInt? hb, Bool.eq_iff_iff]
          simp [same, ha, hb, hunit]

theorem le_eq (a b : Number) :
    a.le b = (a.place.lt b.place || (a.place != .nowhere && a.place == b.place)) := by
  rw [← lt_eq, ← same_eq]
  cases ha : a.toInt? with
  | none => simp only [le, ha]
  | some m =>
      cases hb : b.toInt? with
      | none => simp only [le, ha, hb]
      | some n =>
          rw [Bool.eq_iff_iff]
          simp only [le, lt, same, ha, hb, decide_eq_true_eq, Bool.or_eq_true]
          omega

theorem same_iff {a b : Number} : a.same b = true ↔ a.place ≠ .nowhere ∧ a.place = b.place := by
  rw [same_eq, Bool.and_eq_true, bne_iff_ne, beq_iff_eq]

theorem Place.not_lt_of_le {p q : Place} (h : (p.lt q || (p != .nowhere && p == q)) = true) :
    q.lt p = false := by
  rw [Bool.or_eq_true, Bool.and_eq_true, beq_iff_eq] at h
  rcases h with hlt | ⟨-, rfl⟩
  · cases p <;> cases q <;> simp_all [lt]
    omega
  · cases p <;> simp [lt]

/-- Comparing is consistent across all kinds of numbers, those that count nothing included. -/
theorem not_lt_of_le {a b : Number} (h : a.le b = true) : b.lt a = false := by
  rw [le_eq] at h
  rw [lt_eq]
  exact Place.not_lt_of_le h

theorem place_ne_nowhere_of_le {a b : Number} (h : a.le b = true) : b.place ≠ .nowhere := by
  intro hnowhere
  rw [le_eq, hnowhere] at h
  cases hplace : a.place <;> simp [hplace, Place.lt] at h

/-- What is not below a whole number is at least that number, unless it has no place at all. -/
theorem whole_le_iff {number : Number} (hplace : number.place ≠ .nowhere) {n : Int} :
    (whole n).le number = true ↔ number.lt (whole n) = false := by
  constructor
  · exact not_lt_of_le
  · intro h
    rw [lt_eq, place_whole] at h
    rw [le_eq, place_whole]
    cases hnumber : number.place with
    | nowhere => exact absurd hnumber hplace
    | bottom => simp [hnumber, Place.lt] at h
    | top => simp [Place.lt]
    | among multiple =>
        simp only [hnumber, Place.lt, decide_eq_false_iff_not] at h
        simp [Place.lt]
        omega

theorem whole_le_of_le {number : Number} {m n : Int} (h : (whole n).le number = true)
    (hmn : m ≤ n) : (whole m).le number = true := by
  have hunits : m * unit ≤ n * unit := Int.mul_le_mul_of_nonneg_right hmn (Int.le_of_lt unit_pos)
  rw [le_eq, place_whole] at h ⊢
  cases hnumber : number.place <;> simp [hnumber, Place.lt] at h ⊢
  omega

/-! ### Numbers given back -/

/-- A number is given back as an equal one, which counts if it did. -/
structure IsGivenBackAs (given back : Number) : Prop where
  same : given.same back = true
  counts : ∀ n, given.toInt? = some n → back.toInt? = some n

namespace IsGivenBackAs

theorem refl {number : Number} (h : number.place ≠ .nowhere) : number.IsGivenBackAs number :=
  ⟨same_iff.mpr ⟨h, rfl⟩, fun _ hcount => hcount⟩

variable {given back : Number}

theorem place_eq (h : given.IsGivenBackAs back) : back.place = given.place :=
  (same_iff.mp h.same).2.symm

theorem lt_eq (h : given.IsGivenBackAs back) (other : Number) : back.lt other = given.lt other := by
  rw [Number.lt_eq, Number.lt_eq, h.place_eq]

theorem le_eq (h : given.IsGivenBackAs back) (other : Number) : other.le back = other.le given := by
  rw [Number.le_eq, Number.le_eq, h.place_eq]

theorem rel_same {given back : Option Number} (h : Option.Rel IsGivenBackAs given back) :
    Option.Rel (fun given back => given.same back = true) given back := by
  cases h with
  | none => exact .none
  | some hback => exact .some hback.same

end IsGivenBackAs

end QuorumTree.Number
