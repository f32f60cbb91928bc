import QosSupport.Js.Number
import Mathlib.Tactic.FieldSimp

/-!
# Sums, quotients and integer parts of Numbers

* `Number.add`, `Number.divNat`: `a + b`, and `a / n` for the length `n` of an array.
* `Number.parseInt`: `parseInt` of a Number, which goes through its text.
* `ofRat_intCast`, `foldl_add`: integers below `2 ^ 53` are exact, and so are their sums.
* `parseInt_divNat`: the quotient of such an integer is rounded, but not across an integer.
-/

namespace QosSupport
namespace Js

/-! ## Operations -/

/-- `a + b`. -/
def Number.add : Number → Number → Number
  | .fin a, .fin b => .ofRat (a + b)
  | .inf s, .inf t => if s = t then .inf s else .nan
  | .inf s, .fin _ => .inf s
  | .fin _, .inf t => .inf t
  | _, _ => .nan

/-- `a / n`, where `n` is positive and small enough to be exact. -/
def Number.divNat : Number → Nat → Number
  | .fin a, n => .ofRat (a / n)
  | .inf s, _ => .inf s
  | .nan, _ => .nan

/-- The integer part, towards zero. -/
def trunc (q : Rat) : Int := q.num.tdiv q.den

/-- `parseInt(a)`: the digits before the point. The text of a very small or a very large Number has an
exponent, of which nothing is read. -/
def Number.parseInt : Number → Number
  | .fin q =>
    if q = 0 ∨ (1 / 10 ^ 6 ≤ |q| ∧ |q| < 10 ^ 21) then .fin (trunc q)
    else Js.parseInt (Number.fin q).toStr
  | a => Js.parseInt a.toStr

/-- `-a`. -/
def Number.neg : Number → Number
  | .nan => .nan
  | .inf s => .inf !s
  | .fin q => .fin (-q)

/-! ## Integers -/

theorem ofRat_neg (q : Rat) : Number.ofRat (-q) = (Number.ofRat q).neg := by
  rcases lt_trichotomy q 0 with h | rfl | h
  · have hnum : q.num ≠ 0 := (Rat.num_neg.mpr h).ne
    have hpos : ¬ -q < 0 := by linarith
    simp only [Number.ofRat, Rat.neg_num, Rat.neg_den, neg_eq_zero, hnum, Int.natAbs_neg, h, hpos, if_true,
      if_false, decide_true, decide_false]
    split <;> simp [Number.neg]
  · simp [Number.ofRat, Number.neg]
  · have hnum : q.num ≠ 0 := (Rat.num_pos.mpr h).ne'
    have hneg : -q < 0 := by linarith
    have hpos : ¬ q < 0 := by linarith
    simp only [Number.ofRat, Rat.neg_num, Rat.neg_den, neg_eq_zero, hnum, Int.natAbs_neg, hneg, hpos,
      if_true, if_false, decide_true, decide_false]
    split <;> simp [Number.neg]

theorem roundNat_of_lt {n : Nat} (h : n < 2 ^ 53) : roundNat n = n := by
  rw [roundNat, if_pos]
  rcases Nat.eq_zero_or_pos n with rfl | hpos
  · decide
  · exact Nat.lt_succ_iff.mp ((Nat.log2_lt hpos.ne').mpr h)

/-- An integer below `2 ^ 53` is a double. -/
theorem ofRat_intCast {a : Int} (h : a.natAbs < 2 ^ 53) : Number.ofRat a = .fin a := by
  have hnat : ∀ n : Nat, n < 2 ^ 53 → Number.ofRat (n : Rat) = .fin n := by
    intro n hn
    rw [ofRat_natCast (by omega), roundNat_of_lt hn]
  rcases Int.natAbs_eq a with ha | ha
  · rw [ha, Int.cast_natCast]
    exact hnat _ h
  · rw [ha, Int.cast_neg, Int.cast_natCast, ofRat_neg, hnat _ h]
    rfl

theorem add_intCast {a b : Int} (h : (a + b).natAbs < 2 ^ 53) :
    Number.add (.fin a) (.fin b) = .fin ((a + b : Int) : Rat) := by
  rw [Number.add, ← Int.cast_add, ofRat_intCast h]

/-- A sum of integers, from left to right, is exact if it stays below `2 ^ 53`. -/
theorem foldl_add {B : Nat} (ps : List Int) (hps : ∀ p ∈ ps, p.natAbs ≤ B) (acc : Int)
    (h : acc.natAbs + ps.length * B < 2 ^ 53) :
    ps.foldl (fun m (p : Int) => Number.add m (.fin p)) (.fin acc) = .fin ((acc + ps.sum : Int) : Rat) := by
  induction ps generalizing acc with
  | nil => simp
  | cons p ps ih =>
    rw [List.length_cons, Nat.succ_mul] at h
    have hp := hps p List.mem_cons_self
    rw [List.foldl_cons, add_intCast (by omega), ih (fun q hq => hps q (List.mem_cons_of_mem _ hq)) _ (by omega),
      List.sum_cons, add_assoc]

/-! ## Quotients -/

/-- A double is not below an integer that its exact value is not below. -/
theorem le_roundMag {n d m : Nat} (hd : 0 < d) (hbit : lastBit n d ≤ 0) (hm : m * d ≤ n) :
    (m : Rat) ≤ roundMag n d := by
  have h0 : (lastBit n d).toNat = 0 := Int.toNat_eq_zero.mpr hbit
  unfold roundMag
  simp only [h0, pow_zero, mul_one]
  generalize (-lastBit n d).toNat = k
  have hdiv : m * 2 ^ k ≤ n * 2 ^ k / d := by
    rw [Nat.le_div_iff_mul_le hd]
    calc m * 2 ^ k * d = m * d * 2 ^ k := by ring
      _ ≤ n * 2 ^ k := Nat.mul_le_mul_right _ hm
  have hround := hdiv.trans (le_roundHalfEven (n * 2 ^ k) d)
  rw [le_div_iff₀ (by positivity)]
  exact_mod_cast hround

/-- Nor below one half of its exact value, if this is not too small. -/
theorem half_le_roundMag {n d : Nat} (hd : 0 < d) (hbit : (2 : Rat) ^ lastBit n d ≤ n / d) :
    (n : Rat) / d / 2 ≤ roundMag n d := by
  have hd' : (0 : Rat) < d := by exact_mod_cast hd
  rw [← two_pow_toNat, div_le_div_iff₀ (by positivity) hd'] at hbit
  unfold roundMag
  simp only
  generalize (lastBit n d).toNat = i at hbit ⊢
  generalize (-lastBit n d).toNat = k at hbit ⊢
  have hle : d * 2 ^ i ≤ n * 2 ^ k := by
    rw [mul_comm]
    exact_mod_cast hbit
  have hpos : 0 < d * 2 ^ i := by positivity
  have hq : 1 ≤ n * 2 ^ k / (d * 2 ^ i) := (Nat.one_le_div_iff hpos).mpr hle
  have hlt : n * 2 ^ k ≤ 2 * (d * 2 ^ i * (n * 2 ^ k / (d * 2 ^ i))) := by
    have hmod := Nat.div_add_mod (n * 2 ^ k) (d * 2 ^ i)
    have hmodlt := Nat.mod_lt (n * 2 ^ k) hpos
    have hmul : d * 2 ^ i ≤ d * 2 ^ i * (n * 2 ^ k / (d * 2 ^ i)) := Nat.le_mul_of_pos_right _ hq
    omega
  have hround : n * 2 ^ k ≤ 2 * (d * 2 ^ i * roundHalfEven (n * 2 ^ k) (d * 2 ^ i)) :=
    hlt.trans (Nat.mul_le_mul_left _ (Nat.mul_le_mul_left _ (le_roundHalfEven _ _)))
  have hcast : (n : Rat) * 2 ^ k ≤ 2 * (d * 2 ^ i * roundHalfEven (n * 2 ^ k) (d * 2 ^ i)) := by
    exact_mod_cast hround
  rw [div_div, div_le_div_iff₀ (by positivity) (by positivity)]
  linarith

theorem trunc_eq {r : Rat} {m : Nat} (h : (m : Rat) ≤ r) (h' : r < m + 1) : trunc r = m := by
  have h0 : 0 ≤ r := le_trans (by positivity) h
  rw [trunc, Int.tdiv_eq_ediv_of_nonneg (Rat.num_nonneg.mpr h0), ← Rat.floor_def', Int.floor_eq_iff]
  exact ⟨by exact_mod_cast h, by exact_mod_cast h'⟩

theorem trunc_neg (r : Rat) : trunc (-r) = -trunc r := by
  rw [trunc, trunc, Rat.neg_num, Rat.neg_den, Int.neg_tdiv]

/-- The double of a value between two integers is between them, and not at the upper one. -/
theorem ofRat_between {p : Rat} {m : Nat} (hge : 1 / 2 ^ 53 ≤ p) (hlt : p < 2 ^ 53) (hm : m ≤ p)
    (hm1 : p ≤ (m + 1) - (m + 1) / 2 ^ 53) :
    ∃ r : Rat, Number.ofRat p = .fin r ∧ m ≤ r ∧ r < m + 1 ∧ p / 2 ≤ r := by
  have h0 : 0 < p := lt_of_lt_of_le (by norm_num) hge
  have hval := natAbs_div_den h0
  obtain ⟨hlow, -⟩ := ilog2_spec (Int.natAbs_pos.mpr (Rat.num_pos.mpr h0).ne') p.den_pos
  rw [hval] at hlow
  have hlog : ilog2 p.num.natAbs p.den < 53 := by
    have hpow : (2 : Rat) ^ ilog2 p.num.natAbs p.den < 2 ^ (53 : Int) := lt_of_le_of_lt hlow hlt
    exact (zpow_lt_zpow_iff_right₀ (by norm_num)).mp hpow
  have hupper : roundMag p.num.natAbs p.den < (m + 1 : Nat) := by
    refine roundMag_lt h0 ?_
    push_cast
    exact hm1
  have hlower : (m : Rat) ≤ roundMag p.num.natAbs p.den := by
    refine le_roundMag p.den_pos ?_ ?_
    · unfold lastBit
      omega
    · rw [← hval, le_div_iff₀ (by exact_mod_cast p.den_pos)] at hm
      exact_mod_cast hm
  have hhalf : p / 2 ≤ roundMag p.num.natAbs p.den := by
    have hbit : (2 : Rat) ^ lastBit p.num.natAbs p.den ≤ p := by
      rcases max_choice (ilog2 p.num.natAbs p.den - 52) (-1074) with hb | hb
      · rw [lastBit, hb]
        exact (zpow_le_zpow_right₀ (by norm_num) (by omega)).trans hlow
      · rw [lastBit, hb]
        have hpow : (2 : Rat) ^ (-1074 : Int) ≤ 2 ^ (-53 : Int) :=
          zpow_le_zpow_right₀ (by norm_num) (by norm_num)
        refine hpow.trans (le_trans (le_of_eq ?_) hge)
        norm_num
    have hh := half_le_roundMag (n := p.num.natAbs) p.den_pos (hval.symm ▸ hbit)
    rwa [hval] at hh
  have hsmall : ¬ (2 : Rat) ^ 1024 ≤ roundMag p.num.natAbs p.den := by
    have hm' : ((m + 1 : Nat) : Rat) ≤ 2 ^ 1024 := by
      have hle : (m : Rat) + 1 ≤ 2 ^ 54 := by linarith
      push_cast
      exact hle.trans (pow_le_pow_right₀ (by norm_num) (by norm_num))
    exact not_le.mpr (hupper.trans_le hm')
  refine ⟨_, by rw [ofRat_pos h0, if_neg hsmall], hlower, ?_, hhalf⟩
  exact_mod_cast hupper

/-- A quotient of natural numbers is at least `1 / d` below the next integer. -/
theorem ofRat_natDiv {n d : Nat} (hn : 0 < n) (hd : 0 < d) (h : n + d ≤ 2 ^ 53) :
    ∃ r : Rat, Number.ofRat ((n : Rat) / d) = .fin r ∧ ((n / d : Nat) : Rat) ≤ r ∧
      r < ((n / d : Nat) : Rat) + 1 ∧ (n : Rat) / d / 2 ≤ r := by
  have hn' : (1 : Rat) ≤ n := by exact_mod_cast hn
  have hd' : (0 : Rat) < d := by exact_mod_cast hd
  have hd1 : (1 : Rat) ≤ d := by exact_mod_cast hd
  have hsum : (n : Rat) + d ≤ 2 ^ 53 := by exact_mod_cast h
  have hm : ((n / d : Nat) : Rat) * d ≤ n := by exact_mod_cast Nat.div_mul_le_self n d
  have hm1 : (n : Rat) + 1 ≤ (((n / d : Nat) : Rat) + 1) * d := by
    have hnat : n + 1 ≤ (n / d + 1) * d := by
      have hmod := Nat.div_add_mod n d
      have hmodlt := Nat.mod_lt n hd
      rw [Nat.add_mul, mul_comm (n / d)]
      omega
    exact_mod_cast hnat
  refine ofRat_between ?_ ?_ ?_ ?_
  · rw [div_le_div_iff₀ (by positivity) hd']
    nlinarith
  · rw [div_lt_iff₀ hd']
    nlinarith
  · rwa [le_div_iff₀ hd']
  · rw [div_le_iff₀ hd', sub_mul, div_mul_eq_mul_div]
    have hone : (((n / d : Nat) : Rat) + 1) * d / 2 ^ 53 ≤ 1 := by
      rw [div_le_one (by positivity)]
      linarith
    linarith

/-- The text of a Number that is neither very small nor very large has no exponent. -/
theorem parseInt_of_bounds {q : Rat} (h : 1 / 10 ^ 6 ≤ |q|) (h' : |q| < 10 ^ 21) :
    (Number.fin q).parseInt = .fin (trunc q) := by
  rw [Number.parseInt, if_pos (.inr ⟨h, h'⟩)]

/-- The quotient of natural numbers has such a text, and the integer part of its exact value. -/
theorem parseInt_natDiv {n d : Nat} (hn : 0 < n) (hd : 0 < d) (hd' : d ≤ 2 ^ 18) (h : n + d ≤ 2 ^ 53) :
    ∃ r : Rat, Number.ofRat ((n : Rat) / d) = .fin r ∧ 1 / 10 ^ 6 ≤ |r| ∧ |r| < 10 ^ 21 ∧
      trunc r = ((n / d : Nat) : Int) := by
  obtain ⟨r, hr, hlow, hhigh, hhalf⟩ := ofRat_natDiv hn hd h
  have hn' : (1 : Rat) ≤ n := by exact_mod_cast hn
  have hd0 : (0 : Rat) < d := by exact_mod_cast hd
  have hd2 : (d : Rat) ≤ 2 ^ 18 := by exact_mod_cast hd'
  have hr6 : 1 / 10 ^ 6 ≤ r := by
    refine le_trans ?_ hhalf
    rw [div_div, div_le_div_iff₀ (by positivity) (by positivity)]
    linarith
  have hr21 : r < 10 ^ 21 := by
    have hle : ((n / d : Nat) : Rat) ≤ n := by exact_mod_cast Nat.div_le_self _ _
    have hsum : (n : Rat) + d ≤ 2 ^ 53 := by exact_mod_cast h
    linarith
  have hr0 : 0 < r := lt_of_lt_of_le (by positivity) hr6
  rw [← abs_of_pos hr0] at hr6 hr21
  exact ⟨r, hr, hr6, hr21, trunc_eq hlow hhigh⟩

/-- **The integer part of a quotient** of an integer below `2 ^ 53` is the one of the exact value. -/
theorem parseInt_divNat {a : Int} {d : Nat} (hd : 0 < d) (hd' : d ≤ 2 ^ 18) (h : a.natAbs + d ≤ 2 ^ 53) :
    ((Number.fin a).divNat d).parseInt = .fin (a.tdiv d : Int) := by
  rcases Nat.eq_zero_or_pos a.natAbs with h0 | hpos
  · obtain rfl := Int.natAbs_eq_zero.mp h0
    simp [Number.divNat, Number.ofRat, Number.parseInt, trunc]
  · obtain ⟨r, hr, hr6, hr21, htrunc⟩ := parseInt_natDiv hpos hd hd' h
    -- the sign of the sum is the sign of the mean
    rcases Int.natAbs_eq a with ha | ha
    · have hfin : Number.ofRat ((a : Rat) / d) = .fin r := by
        rw [ha, Int.cast_natCast, hr]
      have hdiv : a.tdiv d = ((a.natAbs / d : Nat) : Int) := by
        conv_lhs => rw [ha]
        rfl
      rw [Number.divNat, hfin, parseInt_of_bounds hr6 hr21, htrunc, hdiv]
    · have hfin : Number.ofRat ((a : Rat) / d) = .fin (-r) := by
        rw [ha, Int.cast_neg, Int.cast_natCast, neg_div, ofRat_neg, hr]
        rfl
      have hdiv : a.tdiv d = -((a.natAbs / d : Nat) : Int) := by
        conv_lhs => rw [ha]
        rw [Int.neg_tdiv]
        rfl
      rw [← abs_neg] at hr6 hr21
      rw [Number.divNat, hfin, parseInt_of_bounds hr6 hr21, trunc_neg, htrunc, hdiv]

end Js
end QosSupport
