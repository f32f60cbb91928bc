import Mathlib.Data.List.Infix

/-!
# Glob patterns

The patterns of `KEYS` and `PSUBSCRIBE`, as far as literal characters and `*` go: `*` matches any
sequence of characters, the empty one included, and the whole subject must match.

* `Glob.ofString`: the pattern that a text denotes.
* `Glob.matchChars_iff`: a pattern matches exactly the texts that it denotes by concatenation.
-/

namespace QosSupport
namespace Redis

/-- One item of a pattern. -/
inductive GlobTok where
  /-- `*`: any sequence of characters. -/
  | star
  /-- The character itself. -/
  | lit (c : Char)
  deriving DecidableEq

abbrev Glob := List GlobTok

namespace Glob

/-- The pattern written as `s`. -/
def ofString (s : String) : Glob := s.toList.map fun c => if c = '*' then .star else .lit c

/-- Whether the pattern matches the whole of the text, by trying every length for `*`. -/
def matchChars : Glob → List Char → Bool
  | [], cs => cs.isEmpty
  | .lit _ :: _, [] => false
  | .lit c :: p, d :: cs => c == d && matchChars p cs
  | .star :: p, cs => cs.tails.any (matchChars p)

/-- Whether the pattern matches the text. -/
def matchString (p : Glob) (s : String) : Bool := matchChars p s.toList

/-- The texts that a pattern denotes. -/
def Denotes : Glob → List Char → Prop
  | [], cs => cs = []
  | .lit c :: p, cs => ∃ t, cs = c :: t ∧ Denotes p t
  | .star :: p, cs => ∃ a t, cs = a ++ t ∧ Denotes p t

theorem matchChars_iff (p : Glob) (cs : List Char) : matchChars p cs = true ↔ Denotes p cs := by
  induction p generalizing cs with
  | nil => simp [matchChars, Denotes]
  | cons tok p ih =>
    cases tok with
    | lit c =>
      cases cs with
      | nil => simp [matchChars, Denotes]
      | cons d cs =>
        simp only [matchChars, Bool.and_eq_true, beq_iff_eq, ih, Denotes, List.cons.injEq]
        constructor
        · rintro ⟨rfl, h⟩
          exact ⟨cs, ⟨rfl, rfl⟩, h⟩
        · rintro ⟨t, ⟨rfl, rfl⟩, h⟩
          exact ⟨rfl, h⟩
    | star =>
      simp only [matchChars, List.any_eq_true, List.mem_tails, ih, Denotes]
      constructor
      · rintro ⟨t, ⟨a, rfl⟩, h⟩
        exact ⟨a, t, rfl, h⟩
      · rintro ⟨a, t, rfl, h⟩
        exact ⟨t, ⟨a, rfl⟩, h⟩

/-- A literal prefix of the pattern is a prefix of the text. -/
theorem denotes_lits (l : List Char) (p : Glob) (cs : List Char) :
    Denotes (l.map .lit ++ p) cs ↔ ∃ t, cs = l ++ t ∧ Denotes p t := by
  induction l generalizing cs with
  | nil => simp
  | cons c l ih =>
    simp only [List.map_cons, List.cons_append, Denotes, ih]
    constructor
    · rintro ⟨t, rfl, u, rfl, h⟩
      exact ⟨u, rfl, h⟩
    · rintro ⟨t, rfl, h⟩
      exact ⟨l ++ t, rfl, t, rfl, h⟩

/-- A literal and a `*` match the literal and any text. -/
theorem denotes_field {p : Glob} {t : List Char} (h : Denotes p t) (l a : List Char) :
    Denotes (l.map .lit ++ .star :: p) (l ++ (a ++ t)) :=
  (denotes_lits l _ _).mpr ⟨a ++ t, rfl, a, t, rfl, h⟩

/-- A literal matches itself. -/
theorem denotes_self (l : List Char) : Denotes (l.map .lit) l := by
  have h := (denotes_lits l [] l).mpr ⟨[], by simp, rfl⟩
  rwa [List.append_nil] at h

/-- A literal text and a `*` match what begins with the text. -/
theorem matchString_star {p : Glob} {t : String} (hp : p = t.toList.map .lit ++ [.star]) (k : String) :
    p.matchString k = true ↔ ∃ name, k = t ++ name := by
  rw [matchString, matchChars_iff, hp, denotes_lits]
  constructor
  · rintro ⟨r, hk, -⟩
    exact ⟨String.ofList r, String.toList_inj.mp (by simpa using hk)⟩
  · rintro ⟨name, rfl⟩
    exact ⟨name.toList, by simp, name.toList, [], by simp, rfl⟩

end Glob

end Redis
end QosSupport
