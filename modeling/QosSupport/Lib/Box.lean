import Mathlib.Order.PiLex
import Mathlib.Order.BoundedOrder.Basic

/-!
# Boxes and intervals

Digit strings `ι → α` have two orders: the one of the numbers that they stand for (the first digit that
differs decides), and the one of each digit. An interval of the second is a box.

* `lex_of_box`: a box is a part of the interval of the same ends.
* `box_eq_interval_iff`: they are the same exactly if the ends agree up to one digit, and after it the lower
  end has the least digits and the upper end the greatest ones.
-/

namespace QosSupport
namespace Box

variable {ι α : Type} [LinearOrder ι] {a b x : ι → α}

/-! ## Digits -/

/-- The digits of `b` up to `k`, and the digit `d` after it. -/
def extend (b : ι → α) (k : ι) (d : α) : ι → α := fun i => if i ≤ k then b i else d

theorem extend_of_le {k i : ι} (h : i ≤ k) (d : α) : extend b k d i = b i := if_pos h

theorem extend_of_lt {k i : ι} (h : k < i) (d : α) : extend b k d i = d := if_neg (not_le.mpr h)

variable [LinearOrder α]

/-- The ends agree up to one digit, and all digits are possible after it. -/
def Aligned [BoundedOrder α] (a b : ι → α) : Prop :=
  ∃ k, a k ≤ b k ∧ (∀ i, i < k → a i = b i) ∧ ∀ i, k < i → a i = ⊥ ∧ b i = ⊤

/-- The number of `x` is from the one of `a` to the one of `b`. -/
def Between (a b x : ι → α) : Prop := toLex a ≤ toLex x ∧ toLex x ≤ toLex b

theorem toLex_lt_of_digit (k : ι) (hbefore : ∀ i, i < k → a i = b i) (hlt : a k < b k) : toLex a < toLex b :=
  ⟨k, hbefore, hlt⟩

/-- The first digit that differs. -/
theorem exists_digit_of_lt (h : toLex a < toLex b) : ∃ k, (∀ i, i < k → a i = b i) ∧ a k < b k := h

theorem extend_bot_le [BoundedOrder α] (b : ι → α) (k : ι) : extend b k ⊥ ≤ b := by
  intro i
  rcases le_or_gt i k with h | h
  · rw [extend_of_le h]
  · rw [extend_of_lt h]
    exact bot_le

theorem le_extend_top [BoundedOrder α] (a : ι → α) (k : ι) : a ≤ extend a k ⊤ := by
  intro i
  rcases le_or_gt i k with h | h
  · rw [extend_of_le h]
  · rw [extend_of_lt h]
    exact le_top

/-! ## Boxes -/

variable [WellFoundedLT ι]

theorem lex_of_box (h : a ≤ x ∧ x ≤ b) : Between a b x := ⟨Pi.toLex_monotone h.1, Pi.toLex_monotone h.2⟩

variable [BoundedOrder α]

/-- The ends of a box that is an interval, after the first digit that differs. -/
theorem aligned_of_eq {k : ι} (hbefore : ∀ i, i < k → a i = b i) (hlt : a k < b k)
    (h : ∀ x, Between a b x → a ≤ x ∧ x ≤ b) : Aligned a b := by
  refine ⟨k, hlt.le, hbefore, fun i hi => ⟨?_, ?_⟩⟩
  · have hlow : toLex a < toLex (extend b k ⊥) := by
      refine toLex_lt_of_digit k (fun j hj => ?_) ?_
      · rw [extend_of_le hj.le]
        exact hbefore j hj
      · rw [extend_of_le le_rfl]
        exact hlt
    have hbox := (h _ ⟨hlow.le, Pi.toLex_monotone (extend_bot_le b k)⟩).1 i
    rw [extend_of_lt hi] at hbox
    exact le_bot_iff.mp hbox
  · have hhigh : toLex (extend a k ⊤) < toLex b := by
      refine toLex_lt_of_digit k (fun j hj => ?_) ?_
      · rw [extend_of_le hj.le]
        exact hbefore j hj
      · rw [extend_of_le le_rfl]
        exact hlt
    have hbox := (h _ ⟨Pi.toLex_monotone (le_extend_top a k), hhigh.le⟩).2 i
    rw [extend_of_lt hi] at hbox
    exact top_le_iff.mp hbox

/-- A number between two aligned ends has their common digits. -/
theorem box_of_between (h : Aligned a b) (hx : Between a b x) : a ≤ x ∧ x ≤ b := by
  obtain ⟨k, -, hbefore, hafter⟩ := h
  -- induction on the digit, from the first one on
  have hsame : ∀ i, i < k → a i = x i := by
    intro i
    induction i using WellFoundedLT.induction with
    | ind i ih =>
      intro hi
      have hax : ∀ j, j < i → a j = x j := fun j hj => ih j hj (hj.trans hi)
      have hxb : ∀ j, j < i → x j = b j := fun j hj => (hax j hj).symm.trans (hbefore j (hj.trans hi))
      have hle := Pi.apply_le_of_toLex hx.1 hax
      have hge := Pi.apply_le_of_toLex hx.2 hxb
      rw [← hbefore i hi] at hge
      exact le_antisymm hle hge
  have hsame' : ∀ i, i < k → x i = b i := fun i hi => (hsame i hi).symm.trans (hbefore i hi)
  constructor
  · intro i
    rcases lt_trichotomy i k with hi | rfl | hi
    · exact (hsame i hi).le
    · exact Pi.apply_le_of_toLex hx.1 hsame
    · rw [(hafter i hi).1]
      exact bot_le
  · intro i
    rcases lt_trichotomy i k with hi | rfl | hi
    · exact (hsame' i hi).le
    · exact Pi.apply_le_of_toLex hx.2 hsame'
    · rw [(hafter i hi).2]
      exact le_top

/-- **When a box is an interval.** -/
theorem box_eq_interval_iff [OrderTop ι] :
    (∀ x, a ≤ x ∧ x ≤ b ↔ Between a b x) ↔ toLex b < toLex a ∨ Aligned a b := by
  constructor
  · intro h
    rcases lt_trichotomy (toLex a) (toLex b) with hlt | heq | hgt
    · obtain ⟨k, hbefore, hk⟩ := exists_digit_of_lt hlt
      exact .inr (aligned_of_eq hbefore hk fun x hx => (h x).mpr hx)
    · obtain rfl : a = b := toLex.injective heq
      exact .inr ⟨⊤, le_rfl, fun _ _ => rfl, fun i hi => absurd hi not_top_lt⟩
    · exact .inl hgt
  · rintro (hgt | h) x
    · refine ⟨lex_of_box, fun hx => absurd (hx.1.trans hx.2) (not_le.mpr hgt)⟩
    · exact ⟨lex_of_box, box_of_between h⟩

end Box
end QosSupport
