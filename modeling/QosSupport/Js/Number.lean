import Mathlib.Algebra.Order.Field.Power
import Mathlib.Data.List.TakeWhile
import Mathlib.Data.Rat.Floor
import Mathlib.Tactic.Linarith
import Mathlib.Tactic.Ring

/-!
# Number values of JavaScript

IEEE 754 doubles as exact rationals, with round to nearest, ties to even. The two zeros are one
value: no operation here tells them apart.

* `Number.ofRat`: rounding of an exact value; `Number.mul`, `Number.gt`: `*` and `>`.
* `toNumber`: `Number(s)` of a string; `parseInt`: `parseInt(s)`.
* `Number.toStr`: the conversion of a Number to a string (the shortest digits that round back).
* `toNumber_repr`, `gt_mono`: the decimal text of a natural number is read as that number, rounded,
  and rounding is monotone.
* `mul_lt_of_double`: the product of a double below one and a natural number stays below that number.
-/

namespace QosSupport
namespace Js

/-- A Number. -/
inductive Number where
  | nan
  | inf (neg : Bool)
  | fin (q : Rat)
  deriving DecidableEq

/-! ## Rounding -/

/-- The quotient `n / d`, rounded to the nearest integer, ties to even. -/
def roundHalfEven (n d : Nat) : Nat :=
  if 2 * (n % d) < d then n / d
  else if d < 2 * (n % d) then n / d + 1
  else if n / d % 2 = 0 then n / d else n / d + 1

/-- The greatest `k` with `2 ^ k ≤ n / d`, for `0 < n` and `0 < d`. -/
def ilog2 (n d : Nat) : Int :=
  let k : Int := (n.log2 : Int) - d.log2
  if d * 2 ^ k.toNat ≤ n * 2 ^ (-k).toNat then k else k - 1

/-- The exponent of the last bit of the double nearest to `n / d`. -/
def lastBit (n d : Nat) : Int := max (ilog2 n d - 52) (-1074)

/-- The double nearest to `n / d`, without regard to overflow. -/
def roundMag (n d : Nat) : Rat :=
  let e := lastBit n d
  (roundHalfEven (n * 2 ^ (-e).toNat) (d * 2 ^ e.toNat) : Nat) * 2 ^ e.toNat / 2 ^ (-e).toNat

/-- The Number nearest to an exact value. -/
def Number.ofRat (q : Rat) : Number :=
  if q.num = 0 then .fin 0
  else if 2 ^ 1024 ≤ roundMag q.num.natAbs q.den then .inf (decide (q < 0))
  else .fin (if q < 0 then -roundMag q.num.natAbs q.den else roundMag q.num.natAbs q.den)

/-- `a * b`. -/
def Number.mul : Number → Number → Number
  | .fin a, .fin b => .ofRat (a * b)
  | .inf s, .inf t => .inf (s != t)
  | .inf s, .fin b => if b = 0 then .nan else .inf (s != decide (b < 0))
  | .fin a, .inf t => if a = 0 then .nan else .inf (decide (a < 0) != t)
  | _, _ => .nan

/-- `a > b`. -/
def Number.gt : Number → Number → Bool
  | .fin a, .fin b => decide (b < a)
  | .inf s, .inf t => !s && t
  | .inf s, .fin _ => !s
  | .fin _, .inf t => t
  | _, _ => false

/-! ## Strings to Numbers -/

/-- White space and line terminators, as `trim` removes them. -/
def isSpace (c : Char) : Bool :=
  c.toNat ∈ [0x9, 0xA, 0xB, 0xC, 0xD, 0x20, 0xA0, 0x1680, 0x2028, 0x2029, 0x202F, 0x205F, 0x3000,
    0xFEFF] || (0x2000 ≤ c.toNat && c.toNat ≤ 0x200A)

def trim (cs : List Char) : List Char :=
  ((cs.dropWhile isSpace).reverse.dropWhile isSpace).reverse

/-- The value of a digit, up to base 36. -/
def digitVal (c : Char) : Option Nat :=
  if '0' ≤ c ∧ c ≤ '9' then some (c.toNat - '0'.toNat)
  else if 'a' ≤ c ∧ c ≤ 'z' then some (c.toNat - 'a'.toNat + 10)
  else if 'A' ≤ c ∧ c ≤ 'Z' then some (c.toNat - 'A'.toNat + 10)
  else none

def isDigitIn (base : Nat) (c : Char) : Bool := (digitVal c).any (· < base)

/-- The value of digits in a base. -/
def digitsVal (base : Nat) (cs : List Char) : Nat :=
  cs.foldl (fun v c => base * v + (digitVal c).getD 0) 0

/-- `10 ^ e`. -/
def tenPow (e : Int) : Rat := if 0 ≤ e then 10 ^ e.toNat else 1 / 10 ^ (-e).toNat

/-- The exponent part of a decimal literal. -/
def exponentPart : List Char → Option Int
  | [] => some 0
  | c :: cs =>
    if c = 'e' ∨ c = 'E' then
      let (neg, ds) : Bool × List Char :=
        match cs with
        | '-' :: ds => (true, ds)
        | '+' :: ds => (false, ds)
        | ds => (false, ds)
      if ds ≠ [] ∧ ds.all Char.isDigit then
        some (if neg then -(digitsVal 10 ds : Int) else digitsVal 10 ds)
      else none
    else none

/-- An unsigned decimal literal. -/
def unsignedDecimal (cs : List Char) : Option Rat :=
  let int := cs.takeWhile Char.isDigit
  let (frac, rest) : List Char × List Char :=
    match cs.dropWhile Char.isDigit with
    | '.' :: r => (r.takeWhile Char.isDigit, r.dropWhile Char.isDigit)
    | r => ([], r)
  if int = [] ∧ frac = [] then none
  else (exponentPart rest).map fun e =>
    (digitsVal 10 (int ++ frac) : Rat) * tenPow (e - frac.length)

/-- A literal with a base prefix. -/
def basedInteger (base : Nat) (cs : List Char) : Number :=
  if cs ≠ [] ∧ cs.all (isDigitIn base) then .ofRat (digitsVal base cs) else .nan

/-- A decimal literal or `Infinity`, after its sign. -/
def unsignedNumber (neg : Bool) (cs : List Char) : Number :=
  if cs = "Infinity".toList then .inf neg
  else match unsignedDecimal cs with
    | some q => .ofRat (if neg then -q else q)
    | none => .nan

/-- The Number of trimmed text. -/
def numberOfChars : List Char → Number
  | [] => .fin 0
  | '0' :: 'x' :: cs | '0' :: 'X' :: cs => basedInteger 16 cs
  | '0' :: 'o' :: cs | '0' :: 'O' :: cs => basedInteger 8 cs
  | '0' :: 'b' :: cs | '0' :: 'B' :: cs => basedInteger 2 cs
  | '-' :: cs => unsignedNumber true cs
  | '+' :: cs => unsignedNumber false cs
  | cs => unsignedNumber false cs

/-- `Number(s)`. -/
def toNumber (s : String) : Number := numberOfChars (trim s.toList)

/-- The digits that `parseInt` reads after the sign. -/
def parseDigits (neg : Bool) (cs : List Char) : Number :=
  let (base, ds) : Nat × List Char :=
    match cs with
    | '0' :: 'x' :: r | '0' :: 'X' :: r => (16, r)
    | r => (10, r)
  let ds := ds.takeWhile (isDigitIn base)
  if ds = [] then .nan
  else .ofRat (if neg then -(digitsVal base ds : Rat) else digitsVal base ds)

/-- `parseInt(s)`. -/
def parseInt (s : String) : Number :=
  match s.toList.dropWhile isSpace with
  | '-' :: cs => parseDigits true cs
  | '+' :: cs => parseDigits false cs
  | cs => parseDigits false cs

/-! ## Numbers to strings -/

/-- The greatest `k` with `10 ^ k ≤ q`, for `0 < q`. The estimate from the binary logarithm is off by
at most two. -/
def ilog10 (q : Rat) : Int :=
  let k : Int := ((q.num.natAbs.log2 : Int) - q.den.log2) * 30103 / 100000
  if q < tenPow k then (if q < tenPow (k - 1) then k - 2 else k - 1)
  else if tenPow (k + 1) ≤ q then k + 1 else k

/-- The `k` digits that round back to `q` and are closest to it, with the power of ten they count,
if there are some; `q < 10 ^ n`. -/
def digitsOf (q : Rat) (n : Int) (k : Nat) : Option (Nat × Int) :=
  let unit := tenPow (n - k)
  let lo := (q / unit).floor.toNat
  let ok (s : Nat) : Bool := Number.ofRat (s * unit) = .fin q
  let best := if ok lo ∧ (¬ ok (lo + 1) ∨ q - lo * unit ≤ (lo + 1) * unit - q) then some lo
    else if ok (lo + 1) then some (lo + 1) else none
  best.map fun s => if s = 10 ^ k then (s / 10, n + 1) else (s, n)

/-- The shortest digits that round back to `q`: the digits and the position of the point. -/
def shortest (q : Rat) : Nat × Int :=
  let n := ilog10 q + 1
  ((List.range 17).findSome? fun i => digitsOf q n (i + 1)).getD (0, n)

/-- The text of a positive Number with the digits `s` and the point at `n`. -/
def layout (s : Nat) (n : Int) : String :=
  let ds := (toString s).toList
  let k : Int := ds.length
  if k ≤ n ∧ n ≤ 21 then String.ofList (ds ++ List.replicate (n - k).toNat '0')
  else if 0 < n ∧ n ≤ 21 then String.ofList (ds.take n.toNat ++ '.' :: ds.drop n.toNat)
  else if -6 < n ∧ n ≤ 0 then String.ofList ('0' :: '.' :: List.replicate (-n).toNat '0' ++ ds)
  else
    let mant := match ds with
      | [d] => String.ofList [d]
      | d :: r => String.ofList (d :: '.' :: r)
      | [] => ""
    mant ++ "e" ++ (if 0 ≤ n - 1 then "+" else "") ++ toString (n - 1)

/-- The string of a Number. -/
def Number.toStr : Number → String
  | .nan => "NaN"
  | .inf neg => if neg then "-Infinity" else "Infinity"
  | .fin q =>
    if q = 0 then "0"
    else
      let (s, n) := shortest |q|
      (if q < 0 then "-" else "") ++ layout s n

example : (Number.mul (parseInt "1073741824") (.fin (2 ^ 30))).toStr = "1152921504606847000" := by
  decide +kernel

example : (parseInt "12px").toStr = "12" ∧ (parseInt "px").toStr = "NaN" := by decide +kernel

example : (toNumber " 1.5e3 ").toStr = "1500" ∧ (toNumber "1,5").toStr = "NaN" := by decide +kernel

/-! ## Rounding is monotone on natural numbers -/

theorem le_roundHalfEven (n d : Nat) : n / d ≤ roundHalfEven n d := by
  unfold roundHalfEven
  split <;> (try split) <;> (try split) <;> omega

theorem roundHalfEven_le (n d : Nat) : roundHalfEven n d ≤ n / d + 1 := by
  unfold roundHalfEven
  split <;> (try split) <;> (try split) <;> omega

theorem roundHalfEven_mono {n m d : Nat} (h : n ≤ m) : roundHalfEven n d ≤ roundHalfEven m d := by
  have hq : n / d ≤ m / d := Nat.div_le_div_right h
  rcases Nat.lt_or_ge (n / d) (m / d) with hlt | hge
  · have h1 := roundHalfEven_le n d
    have h2 := le_roundHalfEven m d
    omega
  · -- The same quotient: the remainders are in order.
    have he : n / d = m / d := Nat.le_antisymm hq hge
    have hr : n % d ≤ m % d := by
      have h1 := Nat.div_add_mod n d
      have h2 := Nat.div_add_mod m d
      rw [he] at h1
      omega
    unfold roundHalfEven
    rw [he]
    split <;> (try split) <;> (try split) <;> (try split) <;> (try split) <;> omega

/-- The double nearest to a natural number below the overflow threshold. -/
def roundNat (n : Nat) : Nat :=
  if n.log2 ≤ 52 then n else roundHalfEven n (2 ^ (n.log2 - 52)) * 2 ^ (n.log2 - 52)

/-- The bounds of a number that needs rounding, and of its double. -/
theorem roundNat_bounds {n : Nat} (h : 52 < n.log2) :
    2 ^ n.log2 ≤ roundNat n ∧ roundNat n ≤ 2 ^ (n.log2 + 1) := by
  have hn : n ≠ 0 := by rintro rfl; simp at h
  obtain ⟨e, he⟩ : ∃ e, n.log2 = e + 52 := ⟨n.log2 - 52, by omega⟩
  have hlo := Nat.log2_self_le hn
  have hhi : n < 2 ^ (n.log2 + 1) := Nat.lt_log2_self
  have hpos : 0 < 2 ^ e := Nat.two_pow_pos e
  unfold roundNat
  rw [if_neg (by omega), he, Nat.add_sub_cancel]
  rw [he] at hlo hhi
  have h1 : 2 ^ 52 ≤ n / 2 ^ e := by
    rw [Nat.le_div_iff_mul_le hpos, ← Nat.pow_add, Nat.add_comm]
    exact hlo
  have h2 : n / 2 ^ e < 2 ^ 53 := by
    rw [Nat.div_lt_iff_lt_mul hpos, ← Nat.pow_add]
    exact lt_of_lt_of_le hhi (Nat.pow_le_pow_right (by decide) (by omega))
  have h3 := le_roundHalfEven n (2 ^ e)
  have h4 := roundHalfEven_le n (2 ^ e)
  constructor
  · rw [Nat.pow_add, Nat.mul_comm]
    exact Nat.mul_le_mul_right _ (h1.trans h3)
  · rw [show e + 52 + 1 = 53 + e by omega, Nat.pow_add]
    exact Nat.mul_le_mul_right _ (by omega)

theorem log2_mono {n m : Nat} (h : n ≤ m) : n.log2 ≤ m.log2 := by
  rcases Nat.eq_zero_or_pos n with rfl | hn
  · simp
  · exact (Nat.le_log2 (by omega)).mpr ((Nat.log2_self_le (by omega)).trans h)

theorem roundNat_mono {n m : Nat} (h : n ≤ m) : roundNat n ≤ roundNat m := by
  have hlog : n.log2 ≤ m.log2 := log2_mono h
  by_cases hm : m.log2 ≤ 52
  · unfold roundNat
    rw [if_pos hm, if_pos (by omega)]
    exact h
  · have hbm := roundNat_bounds (n := m) (by omega)
    rcases Nat.lt_or_ge n.log2 m.log2 with hlt | hge
    · -- Different binades: a power of two lies between the two doubles.
      have hp : 2 ^ (n.log2 + 1) ≤ 2 ^ m.log2 := Nat.pow_le_pow_right (by decide) hlt
      by_cases hn : n.log2 ≤ 52
      · have : n < 2 ^ (n.log2 + 1) := Nat.lt_log2_self
        unfold roundNat at hbm ⊢
        rw [if_pos hn]
        omega
      · have hbn := roundNat_bounds (n := n) (by omega)
        omega
    · have he : n.log2 = m.log2 := by omega
      unfold roundNat
      rw [he, if_neg hm, if_neg hm]
      exact Nat.mul_le_mul_right _ (roundHalfEven_mono h)

theorem ilog2_one {n : Nat} (hn : n ≠ 0) : ilog2 n 1 = n.log2 := by
  have h1 : Nat.log2 1 = 0 := by decide
  have hlo := Nat.log2_self_le hn
  unfold ilog2
  simp only [h1, Int.ofNat_zero, Int.sub_zero, Nat.one_mul, Int.toNat_natCast, Int.toNat_neg_natCast,
    Nat.pow_zero, Nat.mul_one, if_pos hlo]

theorem roundMag_one {n : Nat} (hn : n ≠ 0) : roundMag n 1 = roundNat n := by
  have hpow : ∀ k : Nat, (2 : Rat) ^ k ≠ 0 := fun k => pow_ne_zero k (by decide)
  unfold roundMag lastBit roundNat
  rw [ilog2_one hn]
  by_cases h : n.log2 ≤ 52
  · have he : max ((n.log2 : Int) - 52) (-1074) = -((52 - n.log2 : Nat) : Int) := by omega
    rw [he, if_pos h]
    simp only [Int.neg_neg, Int.toNat_natCast, Int.toNat_neg_natCast, Nat.pow_zero, Nat.mul_one]
    have hr : roundHalfEven (n * 2 ^ (52 - n.log2)) 1 = n * 2 ^ (52 - n.log2) := by
      simp [roundHalfEven, Nat.mod_one]
    rw [hr]
    push_cast
    rw [pow_zero, mul_one, mul_div_assoc, div_self (hpow _), mul_one]
  · have he : max ((n.log2 : Int) - 52) (-1074) = ((n.log2 - 52 : Nat) : Int) := by omega
    rw [he, if_neg h]
    simp only [Int.toNat_natCast, Int.toNat_neg_natCast, Nat.pow_zero, Nat.mul_one, Nat.one_mul]
    push_cast
    rw [pow_zero, div_one]

/-- The Number of a natural number below `2 ^ 64`. -/
theorem ofRat_natCast {n : Nat} (h : n < 2 ^ 64) : Number.ofRat n = .fin (roundNat n) := by
  unfold Number.ofRat
  rcases Nat.eq_zero_or_pos n with rfl | hn
  · simp [roundNat]
  · have hlog : n.log2 < 64 := (Nat.log2_lt (by omega)).mpr h
    have hle : roundNat n ≤ 2 ^ 65 := by
      by_cases hl : n.log2 ≤ 52
      · unfold roundNat
        rw [if_pos hl]
        omega
      · exact (roundNat_bounds (by omega)).2.trans (Nat.pow_le_pow_right (by decide) (by omega))
    have hsmall : ¬ (2 : Rat) ^ 1024 ≤ (roundNat n : Rat) := by
      have h1 : ((roundNat n : Nat) : Rat) ≤ ((2 ^ 65 : Nat) : Rat) := by exact_mod_cast hle
      have h2 : ((2 ^ 65 : Nat) : Rat) < 2 ^ 1024 := by
        rw [Nat.cast_pow, Nat.cast_ofNat]
        exact pow_lt_pow_right₀ one_lt_two (by decide)
      exact not_le.mpr (lt_of_le_of_lt h1 h2)
    have hneg : ¬ ((n : Rat) < 0) := not_lt.mpr (Nat.cast_nonneg n)
    rw [Rat.num_natCast, Rat.den_natCast, Int.natAbs_natCast, roundMag_one (by omega),
      if_neg (by omega), if_neg hsmall, if_neg hneg]

/-- **A greater natural number exceeds what a smaller one exceeds.** -/
theorem gt_mono {n m : Nat} {b : Number} (hnm : n ≤ m) (hm : m < 2 ^ 64)
    (h : (Number.ofRat n).gt b = true) : (Number.ofRat m).gt b = true := by
  rw [ofRat_natCast (by omega)] at h
  rw [ofRat_natCast hm]
  cases b with
  | nan => exact h
  | inf t => exact h
  | fin q =>
    have hr : (roundNat n : Rat) ≤ roundNat m := by exact_mod_cast roundNat_mono hnm
    simp only [Number.gt, decide_eq_true_eq] at h ⊢
    exact lt_of_lt_of_le h hr

/-! ## The decimal text of a natural number -/

theorem isDigit_iff (c : Char) : c.isDigit = true ↔ 48 ≤ c.toNat ∧ c.toNat ≤ 57 := by
  exact Char.isDigit_iff_toNat

theorem isSpace_of_isDigit {c : Char} (h : c.isDigit = true) : isSpace c = false := by
  rw [isDigit_iff] at h
  simp only [isSpace, List.mem_cons, List.not_mem_nil, or_false, Bool.or_eq_false_iff,
    decide_eq_false_iff_not, Bool.and_eq_false_iff]
  omega

theorem trim_of_digits {cs : List Char} (h : ∀ c ∈ cs, c.isDigit = true) : trim cs = cs := by
  have hdrop : ∀ l : List Char, (∀ c ∈ l, c.isDigit = true) → l.dropWhile isSpace = l := by
    intro l hl
    cases l with
    | nil => rfl
    | cons c l =>
      exact List.dropWhile_cons_of_neg (by simp [isSpace_of_isDigit (hl c List.mem_cons_self)])
  unfold trim
  rw [hdrop cs h, hdrop cs.reverse (by simpa using h), List.reverse_reverse]

theorem digitsVal_ten {cs : List Char} (h : ∀ c ∈ cs, c.isDigit = true) :
    digitsVal 10 cs = Nat.ofDigitChars 10 cs 0 := by
  rw [Nat.ofDigitChars_eq_foldl]
  unfold digitsVal
  apply List.foldl_ext
  intro v c hc
  have hd := (isDigit_iff c).mp (h c hc)
  have hle : '0' ≤ c ∧ c ≤ '9' := by
    rw [Char.le_def, Char.le_def, UInt32.le_iff_toNat_le, UInt32.le_iff_toNat_le]
    exact hd
  simp only [digitVal, if_pos hle, Option.getD_some]

theorem unsignedDecimal_digits {cs : List Char} (hne : cs ≠ []) (h : ∀ c ∈ cs, c.isDigit = true) :
    unsignedDecimal cs = some (Nat.ofDigitChars 10 cs 0 : Rat) := by
  have ht : cs.takeWhile Char.isDigit = cs := List.takeWhile_eq_self_iff.mpr h
  have hd : cs.dropWhile Char.isDigit = [] := List.dropWhile_eq_nil_iff.mpr h
  unfold unsignedDecimal
  simp [ht, hd, hne, exponentPart, tenPow, digitsVal_ten h]

/-- The text of digits is read as a decimal literal. -/
theorem numberOfChars_digits {cs : List Char} (hne : cs ≠ []) (h : ∀ c ∈ cs, c.isDigit = true) :
    numberOfChars cs = .ofRat (Nat.ofDigitChars 10 cs 0 : Nat) := by
  have hinf : cs ≠ "Infinity".toList := by
    rintro rfl
    exact absurd (h 'I' (by decide)) (by decide)
  have hnum : unsignedNumber false cs = .ofRat (Nat.ofDigitChars 10 cs 0 : Nat) := by
    rw [unsignedNumber, if_neg hinf, unsignedDecimal_digits hne h]
    rfl
  -- No digit is a sign or the letter of a base prefix.
  have hnot : ∀ c, c.isDigit = false → c ∉ cs := by
    intro c hc hmem
    rw [h c hmem] at hc
    cases hc
  unfold numberOfChars
  split
  · exact absurd rfl hne
  · exact absurd (by simp) (hnot 'x' (by decide))
  · exact absurd (by simp) (hnot 'X' (by decide))
  · exact absurd (by simp) (hnot 'o' (by decide))
  · exact absurd (by simp) (hnot 'O' (by decide))
  · exact absurd (by simp) (hnot 'b' (by decide))
  · exact absurd (by simp) (hnot 'B' (by decide))
  · exact absurd (by simp) (hnot '-' (by decide))
  · exact absurd (by simp) (hnot '+' (by decide))
  · exact hnum

/-- `Number` reads the decimal text of a natural number. -/
theorem toNumber_repr (n : Nat) : toNumber (toString n) = .ofRat n := by
  have hd : ∀ c ∈ Nat.toDigits 10 n, c.isDigit = true := fun c hc =>
    Nat.isDigit_of_mem_toDigits (by decide) (by decide) hc
  unfold toNumber
  rw [show (toString n).toList = Nat.toDigits 10 n by simp, trim_of_digits hd,
    numberOfChars_digits Nat.toDigits_ne_nil hd, Nat.ofDigitChars_ten_toDigits]

/-! ## Products with a double below one -/

theorem two_mul_roundHalfEven_le (n d : Nat) : 2 * (d * roundHalfEven n d) ≤ 2 * n + d := by
  have hmod := Nat.div_add_mod n d
  unfold roundHalfEven
  split
  · omega
  · split
    · rw [Nat.mul_succ]
      omega
    · split
      · omega
      · rw [Nat.mul_succ]
        omega

/-- A power of two with an integer exponent, as `roundMag` computes it. -/
theorem two_pow_toNat (e : Int) : (2 : Rat) ^ e.toNat / 2 ^ (-e).toNat = 2 ^ e := by
  obtain ⟨k, rfl | rfl⟩ := e.eq_nat_or_neg
  · simp
  · simp

/-- The nearest double is at most half of its last bit above. -/
theorem roundMag_le {n d : Nat} (hd : 0 < d) :
    roundMag n d ≤ (n : Rat) / d + 2 ^ lastBit n d / 2 := by
  have hround := two_mul_roundHalfEven_le (n * 2 ^ (-lastBit n d).toNat) (d * 2 ^ (lastBit n d).toNat)
  have hpos : (0 : Rat) < 2 ^ lastBit n d := zpow_pos (by norm_num) _
  have hd' : (0 : Rat) < d := by exact_mod_cast hd
  have hp : (0 : Rat) < 2 ^ (lastBit n d).toNat := by positivity
  have hq : (0 : Rat) < 2 ^ (-lastBit n d).toNat := by positivity
  unfold roundMag
  simp only
  generalize roundHalfEven (n * 2 ^ (-lastBit n d).toNat) (d * 2 ^ (lastBit n d).toNat) = r at hround ⊢
  have hcast : 2 * ((d : Rat) * 2 ^ (lastBit n d).toNat * r) ≤
      2 * (n * 2 ^ (-lastBit n d).toNat) + d * 2 ^ (lastBit n d).toNat := by exact_mod_cast hround
  rw [← two_pow_toNat]
  calc (r : Rat) * 2 ^ (lastBit n d).toNat / 2 ^ (-lastBit n d).toNat
      = 2 * (d * 2 ^ (lastBit n d).toNat * r) / (2 * d * 2 ^ (-lastBit n d).toNat) := by
        field_simp
    _ ≤ (2 * (n * 2 ^ (-lastBit n d).toNat) + d * 2 ^ (lastBit n d).toNat) /
        (2 * d * 2 ^ (-lastBit n d).toNat) := by gcongr
    _ = n / d + 2 ^ (lastBit n d).toNat / 2 ^ (-lastBit n d).toNat / 2 := by
        field_simp

/-- The exponent of the first bit. -/
theorem ilog2_spec {n d : Nat} (hn : 0 < n) (hd : 0 < d) :
    (2 : Rat) ^ ilog2 n d ≤ n / d ∧ (n / d : Rat) < 2 ^ (ilog2 n d + 1) := by
  have hd' : (0 : Rat) < d := by exact_mod_cast hd
  have hn1 : (2 : Rat) ^ (n.log2 : Int) ≤ n := by
    rw [zpow_natCast]
    exact_mod_cast Nat.log2_self_le hn.ne'
  have hn2 : (n : Rat) < 2 ^ ((n.log2 : Int) + 1) := by
    rw [← Nat.cast_succ, zpow_natCast]
    exact_mod_cast Nat.lt_log2_self
  have hd1 : (2 : Rat) ^ (d.log2 : Int) ≤ d := by
    rw [zpow_natCast]
    exact_mod_cast Nat.log2_self_le hd.ne'
  have hd2 : (d : Rat) < 2 ^ ((d.log2 : Int) + 1) := by
    rw [← Nat.cast_succ, zpow_natCast]
    exact_mod_cast Nat.lt_log2_self
  unfold ilog2
  simp only
  generalize hk : (n.log2 : Int) - d.log2 = k
  have hfirst : d * 2 ^ k.toNat ≤ n * 2 ^ (-k).toNat ↔ (2 : Rat) ^ k ≤ n / d := by
    rw [← two_pow_toNat, div_le_div_iff₀ (by positivity) hd']
    rw [mul_comm ((2 : Rat) ^ k.toNat)]
    exact_mod_cast Iff.rfl
  split
  · rename_i h
    refine ⟨hfirst.mp h, ?_⟩
    rw [div_lt_iff₀ hd']
    calc (n : Rat) < 2 ^ ((n.log2 : Int) + 1) := hn2
      _ = 2 ^ (k + 1) * 2 ^ (d.log2 : Int) := by
        rw [← zpow_add₀ (by norm_num)]
        congr 1
        omega
      _ ≤ 2 ^ (k + 1) * d := by gcongr
  · rename_i h
    refine ⟨?_, ?_⟩
    · rw [le_div_iff₀ hd']
      calc (2 : Rat) ^ (k - 1) * d ≤ 2 ^ (k - 1) * 2 ^ ((d.log2 : Int) + 1) := by gcongr
        _ = 2 ^ (n.log2 : Int) := by
          rw [← zpow_add₀ (by norm_num)]
          congr 1
          omega
        _ ≤ n := hn1
    · rw [sub_add_cancel]
      exact not_le.mp fun hle => h (hfirst.mpr hle)

theorem ofRat_pos {q : Rat} (h0 : 0 < q) : Number.ofRat q =
    if 2 ^ 1024 ≤ roundMag q.num.natAbs q.den then .inf false
    else .fin (roundMag q.num.natAbs q.den) := by
  have hnum : q.num ≠ 0 := (Rat.num_pos.mpr h0).ne'
  have hneg : ¬ q < 0 := not_lt.mpr h0.le
  simp [Number.ofRat, hnum, hneg]

theorem natAbs_div_den {q : Rat} (h0 : 0 < q) : (q.num.natAbs : Rat) / q.den = q := by
  have hnum : ((q.num.natAbs : Int) : Rat) = q.num := by
    rw [Int.natAbs_of_nonneg (Rat.num_pos.mpr h0).le]
  rw [← Int.cast_natCast, hnum, Rat.num_div_den]

/-- A double below one is at least `2 ^ -53` below. -/
theorem le_of_double {q : Rat} (h : Number.ofRat q = .fin q) (h0 : 0 < q) (h1 : q < 1) :
    q ≤ 1 - 1 / 2 ^ 53 := by
  have hround : roundMag q.num.natAbs q.den = q := by
    rw [ofRat_pos h0] at h
    split at h
    · cases h
    · exact Number.fin.inj h
  obtain ⟨hlow, hhigh⟩ := ilog2_spec (Int.natAbs_pos.mpr (Rat.num_pos.mpr h0).ne') q.den_pos
  rw [natAbs_div_den h0] at hlow hhigh
  have hneg : ilog2 q.num.natAbs q.den < 0 := by
    by_contra hge
    have : (1 : Rat) ≤ 2 ^ ilog2 q.num.natAbs q.den := one_le_zpow₀ (by norm_num) (not_lt.mp hge)
    linarith
  by_cases hhalf : ilog2 q.num.natAbs q.den = -1
  · -- The last bit counts `2 ^ -53`, and `q` is a multiple of it.
    have hbit : lastBit q.num.natAbs q.den = -53 := by
      rw [lastBit, hhalf]
      rfl
    unfold roundMag at hround
    rw [hbit] at hround
    simp only [Int.reduceNeg, Int.reduceToNat, neg_neg, pow_zero, mul_one] at hround
    generalize roundHalfEven (q.num.natAbs * 2 ^ 53) q.den = r at hround
    have hr : r + 1 ≤ 2 ^ 53 := by
      rw [← hround, div_lt_one (by norm_num)] at h1
      exact_mod_cast h1
    have hr' : (r : Rat) ≤ 2 ^ 53 - 1 := by
      have : ((r + 1 : Nat) : Rat) ≤ ((2 ^ 53 : Nat) : Rat) := Nat.cast_le.mpr hr
      push_cast at this
      linarith
    calc q = r / 2 ^ 53 := hround.symm
      _ ≤ (2 ^ 53 - 1) / 2 ^ 53 := by gcongr
      _ = 1 - 1 / 2 ^ 53 := by norm_num
  · have hle : (2 : Rat) ^ (ilog2 q.num.natAbs q.den + 1) ≤ 2 ^ (-1 : Int) :=
      zpow_le_zpow_right₀ (by norm_num) (by omega)
    have hnum : (2 : Rat) ^ (-1 : Int) ≤ 1 - 1 / 2 ^ 53 := by norm_num
    exact (hhigh.le.trans hle).trans hnum

theorem roundMag_nonneg (n d : Nat) : 0 ≤ roundMag n d := by
  unfold roundMag
  positivity

/-- What is rounded is less than `n` if it is at least `n / 2 ^ 53` below `n`. -/
theorem roundMag_lt {p : Rat} (h0 : 0 < p) {n : Nat} (hp : p ≤ n - n / 2 ^ 53) :
    roundMag p.num.natAbs p.den < n := by
  have hn : (1 : Rat) ≤ n := by
    rcases Nat.eq_zero_or_pos n with rfl | hpos
    · simp at hp
      linarith
    · exact_mod_cast hpos
  have hpn : p < n := by
    have : (0 : Rat) < n / 2 ^ 53 := by positivity
    linarith
  have hup := roundMag_le (n := p.num.natAbs) p.den_pos
  obtain ⟨hlow, -⟩ := ilog2_spec (Int.natAbs_pos.mpr (Rat.num_pos.mpr h0).ne') p.den_pos
  rw [natAbs_div_den h0] at hup hlow
  have hbit : (2 : Rat) ^ lastBit p.num.natAbs p.den / 2 < n / 2 ^ 53 := by
    rcases max_choice (ilog2 p.num.natAbs p.den - 52) (-1074) with hb | hb
    · rw [lastBit, hb]
      calc (2 : Rat) ^ (ilog2 p.num.natAbs p.den - 52) / 2
          = 2 ^ ilog2 p.num.natAbs p.den / 2 ^ 53 := by
            rw [zpow_sub₀ (by norm_num)]
            ring
        _ ≤ p / 2 ^ 53 := by gcongr
        _ < n / 2 ^ 53 := by gcongr
    · rw [lastBit, hb]
      calc (2 : Rat) ^ (-1074 : Int) / 2 < 2 ^ (-1074 : Int) := half_lt_self (zpow_pos (by norm_num) _)
        _ ≤ 2 ^ (-53 : Int) := zpow_le_zpow_right₀ (by norm_num) (by norm_num)
        _ = 1 / 2 ^ 53 := by norm_num
        _ ≤ n / 2 ^ 53 := by gcongr
  linarith

/-- **The product of a double below one and a natural number `n`, rounded, is below `n`.** -/
theorem mul_lt_of_double {q : Rat} (h : Number.ofRat q = .fin q) (h0 : 0 ≤ q) (h1 : q < 1) {n : Nat}
    (hn : 0 < n) (hn' : n < 2 ^ 64) :
    ∃ r : Rat, Number.mul (.fin q) (.fin n) = .fin r ∧ 0 ≤ r ∧ r < n := by
  have hn0 : (0 : Rat) < n := by exact_mod_cast hn
  rcases h0.eq_or_lt with rfl | hpos
  · exact ⟨0, by simp [Number.mul, Number.ofRat], le_rfl, hn0⟩
  · have hp : 0 < q * n := mul_pos hpos hn0
    have hlt : roundMag (q * n).num.natAbs (q * n).den < n := by
      refine roundMag_lt hp ?_
      calc q * n ≤ (1 - 1 / 2 ^ 53) * n := by
            have := le_of_double h hpos h1
            gcongr
        _ = n - n / 2 ^ 53 := by ring
    have hsmall : ¬ (2 : Rat) ^ 1024 ≤ roundMag (q * n).num.natAbs (q * n).den := by
      have hcast : (n : Rat) < 2 ^ 64 := by exact_mod_cast hn'
      exact not_le.mpr ((hlt.trans hcast).trans_le (pow_le_pow_right₀ (by norm_num) (by norm_num)))
    exact ⟨_, by rw [Number.mul, ofRat_pos hp, if_neg hsmall], roundMag_nonneg _ _, hlt⟩

end Js
end QosSupport
