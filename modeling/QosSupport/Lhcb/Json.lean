import Mathlib.Algebra.Ring.Int.Defs
import Mathlib.Algebra.Ring.Nat

/-!
# JSON trees and Java numbers

* `Json`: the trees of Gson. A number keeps the text it was read from (`LazilyParsedNumber`).
* `Members`: the members of an object in order, each name once (`add` replaces).
* `javaInt`: `Integer.parseInt`; `intValue`: the `int` of a JSON number, which may have a fraction or an
  exponent and keeps the low 32 bits.
-/

namespace QosSupport
namespace Lhcb

/-- A tree of Gson. -/
inductive Json where
  | null
  | bool (b : Bool)
  | num (text : String)
  | str (s : String)
  | arr (elements : List Json)
  | obj (members : List (String × Json))

/-- The members of a `JsonObject`. -/
abbrev Members := List (String × Json)

namespace Members

/-- `has` -/
def has (ms : Members) (name : String) : Bool := (ms.lookup name).isSome

/-- `add`: a member of that name is replaced. -/
def add : Members → String → Json → Members
  | [], name, v => [(name, v)]
  | (n, w) :: ms, name, v => if n = name then (n, v) :: ms else (n, w) :: add ms name v

theorem lookup_cons (n m : String) (w : Json) (ms : Members) :
    List.lookup n ((m, w) :: ms) = if n = m then some w else ms.lookup n := by
  by_cases h : n = m
  · rw [if_pos h, h, List.lookup_cons_self]
  · have hb : (n == m) = false := by simpa using h
    rw [if_neg h, List.lookup_cons, hb]

theorem lookup_add (ms : Members) (name n : String) (v : Json) :
    (add ms name v).lookup n = if n = name then some v else ms.lookup n := by
  induction ms with
  | nil => exact lookup_cons n name v []
  | cons x ms ih =>
    obtain ⟨m, w⟩ := x
    simp only [add]
    split
    · rename_i h
      subst h
      rw [lookup_cons, lookup_cons]
      split <;> rfl
    · rename_i h
      rw [lookup_cons, lookup_cons, ih]
      split
      · rename_i hn
        rw [if_neg (hn ▸ h)]
      · rfl

end Members

/-! ## Java numbers -/

/-- The value that an `int` keeps of an integer: its low 32 bits. -/
def wrap32 (n : Int) : Int := n.bmod (2 ^ 32)

/-- The zeros of the decimal digits among the 16-bit characters. -/
def decimalZeros : List Nat :=
  [0x0030, 0x0660, 0x06F0, 0x07C0, 0x0966, 0x09E6, 0x0A66, 0x0AE6, 0x0B66, 0x0BE6, 0x0C66, 0x0CE6,
   0x0D66, 0x0E50, 0x0ED0, 0x0F20, 0x1040, 0x1090, 0x17E0, 0x1810, 0x1946, 0x19D0, 0x1A80, 0x1A90,
   0x1B50, 0x1BB0, 0x1C40, 0x1C50, 0xA620, 0xA8D0, 0xA900, 0xA9D0, 0xAA50, 0xABF0, 0xFF10]

/-- `Character.digit(c, 10)` -/
def javaDigit (c : Char) : Option Nat :=
  (decimalZeros.find? fun z => z ≤ c.toNat ∧ c.toNat < z + 10).map (c.toNat - ·)

/-- The number that digits write; `none` without a digit or with another character. -/
def javaDigits : List Char → Option Nat
  | [] => none
  | cs => cs.foldl (fun n c => n.bind fun n => (javaDigit c).map (n * 10 + ·)) (some 0)

/-- An optional sign and digits. -/
def javaSigned : List Char → Option Int
  | '-' :: cs => (javaDigits cs).map fun n => -(n : Int)
  | '+' :: cs => (javaDigits cs).map Int.ofNat
  | cs => (javaDigits cs).map Int.ofNat

/-- An optional sign and digits, with a value of `w` bits; `none` for `NumberFormatException`. -/
def javaInteger (w : Nat) (s : String) : Option Int :=
  (javaSigned s.toList).filter fun n => -2 ^ (w - 1) ≤ n ∧ n < 2 ^ (w - 1)

/-- `Integer.parseInt` -/
def javaInt (s : String) : Option Int := javaInteger 32 s

/-- `Long.parseLong` -/
def javaLong (s : String) : Option Int := javaInteger 64 s

/-- `n * 10 ^ e` without its fraction, towards zero. -/
def scaled (n : Int) (e : Int) : Int := if 0 ≤ e then n * 10 ^ e.toNat else n.tdiv (10 ^ (-e).toNat)

/-- `new BigDecimal(s).intValue()` before the low bits are taken: an optional sign, digits with an
optional point, and an optional exponent. -/
def bigDecimal (s : String) : Option Int :=
  let (neg, cs) := match s.toList with
    | '-' :: cs => (true, cs)
    | '+' :: cs => (false, cs)
    | cs => (false, cs)
  let mantissa := cs.takeWhile fun c => c ≠ 'e' ∧ c ≠ 'E'
  let int := mantissa.takeWhile (· ≠ '.')
  let fraction := (mantissa.dropWhile (· ≠ '.')).drop 1
  let exponent := match cs.dropWhile fun c => c ≠ 'e' ∧ c ≠ 'E' with
    | [] => some 0
    | _ :: e => (javaSigned e).filter fun n => -2 ^ 31 ≤ n ∧ n < 2 ^ 31
  match javaDigits (int ++ fraction), exponent with
  | some n, some e =>
    -- The scale must be an `int` too.
    if -2 ^ 31 ≤ fraction.length - e ∧ fraction.length - e < 2 ^ 31 then
      some (scaled (if neg then -n else n) (e - fraction.length))
    else none
  | _, _ => none

/-- `LazilyParsedNumber.intValue`; `none` for `NumberFormatException`. -/
def intValue (text : String) : Option Int :=
  (javaInt text).or (((javaLong text).or (bigDecimal text)).map wrap32)

/-! ## The text of an `int` -/

theorem javaDigit_isDigit {c : Char} (h : c.isDigit = true) :
    javaDigit c = some (c.toNat - '0'.toNat) := by
  have hz : 48 ≤ c.toNat ∧ c.toNat < 58 := by
    simp only [Char.isDigit, ge_iff_le, Bool.and_eq_true, decide_eq_true_eq] at h
    have h1 : 48 ≤ c.toNat := h.1
    have h2 : c.toNat ≤ 57 := h.2
    omega
  have hfind : decimalZeros.find? (fun z => z ≤ c.toNat ∧ c.toNat < z + 10) = some 48 := by
    rw [decimalZeros, List.find?_cons_of_pos]
    simpa using hz
  rw [javaDigit, hfind]
  rfl

theorem foldl_javaDigit {cs : List Char} (h : ∀ c ∈ cs, c.isDigit = true) (n : Nat) :
    cs.foldl (fun n c => n.bind fun n => (javaDigit c).map (n * 10 + ·)) (some n) =
      some (Nat.ofDigitChars 10 cs n) := by
  induction cs generalizing n with
  | nil => rfl
  | cons c cs ih =>
    rw [List.foldl_cons, javaDigit_isDigit (h c List.mem_cons_self), Nat.ofDigitChars_cons,
      ← ih (fun d hd => h d (List.mem_cons_of_mem _ hd)), Nat.mul_comm]
    rfl

theorem javaSigned_toDigits (n : Nat) : javaSigned (Nat.toDigits 10 n) = some (n : Int) := by
  have hd : ∀ c ∈ Nat.toDigits 10 n, c.isDigit = true := fun c hc =>
    Nat.isDigit_of_mem_toDigits (by decide) (by decide) hc
  have hv := foldl_javaDigit hd 0
  rw [Nat.ofDigitChars_ten_toDigits] at hv
  cases hcs : Nat.toDigits 10 n with
  | nil => exact absurd hcs Nat.toDigits_ne_nil
  | cons c cs =>
    rw [hcs] at hd hv
    have hc := hd c List.mem_cons_self
    have hdigits : javaDigits (c :: cs) = some n := hv
    unfold javaSigned
    split
    · rename_i heq
      cases heq
      exact absurd hc (by decide)
    · rename_i heq
      cases heq
      exact absurd hc (by decide)
    · rw [hdigits]
      rfl

/-- The text of an `int` that is not negative is read back. -/
theorem intValue_toString {n : Int} (h0 : 0 ≤ n) (hlt : n < 2 ^ 31) :
    intValue (toString n) = some n := by
  obtain ⟨m, rfl⟩ := Int.eq_ofNat_of_zero_le h0
  have hl : (toString (m : Int)).toList = Nat.toDigits 10 m := by
    show m.repr.toList = _
    simp
  have hint : javaInt (toString (m : Int)) = some (m : Int) := by
    rw [javaInt, javaInteger, hl, javaSigned_toDigits, Option.filter_some, if_pos]
    simp only [decide_eq_true_eq]
    omega
  rw [intValue, hint]
  rfl

end Lhcb
end QosSupport
