import Mathlib.Data.List.Infix

/-!
# Backtracking regular expressions without alternatives

A sequence of literal texts and of repeated character classes, lazy (`*?`) or greedy (`*`), some of
them captured, as a backtracking matcher reads it: an earlier item is tried with its preferred length
first, and only if the rest fails with the next one.

* `run r cs`: the captures of the preferred match at the start of `cs`; `search r cs`: at the first
  position that has one.
* `lazyStar_eq`, `greedyStar_eq`: what a repetition takes, from where the rest matches.
* `run_captures`, `search_captures`: what is captured is in its class.
-/

namespace QosSupport
namespace Regex

/-- One item of an expression. -/
inductive Item where
  /-- A literal text. -/
  | lit (s : List Char)
  /-- `[..]*?`, with or without a capture. -/
  | lazy (cls : Char → Bool) (capture : Bool)
  /-- `[..]*`, with or without a capture. -/
  | greedy (cls : Char → Bool) (capture : Bool)

variable {α : Type}

/-- The shortest text of the class after which `k` succeeds, and what it gives. -/
def lazyStar (cls : Char → Bool) (k : List Char → Option α) : List Char → Option (List Char × α)
  | [] => (k []).map fun x => ([], x)
  | c :: cs =>
    match k (c :: cs) with
    | some x => some ([], x)
    | none => if cls c then (lazyStar cls k cs).map fun x => (c :: x.1, x.2) else none

/-- The longest text of the class after which `k` succeeds, and what it gives. -/
def greedyStar (cls : Char → Bool) (k : List Char → Option α) : List Char → Option (List Char × α)
  | [] => (k []).map fun x => ([], x)
  | c :: cs =>
    match if cls c then greedyStar cls k cs else none with
    | some x => some (c :: x.1, x.2)
    | none => (k (c :: cs)).map fun x => ([], x)

/-- Add a captured text. -/
def keep (capture : Bool) (x : List Char × List (List Char)) : List (List Char) :=
  if capture then x.1 :: x.2 else x.2

/-- The captures of the preferred match at the start of the text. -/
def run : List Item → List Char → Option (List (List Char))
  | [], _ => some []
  | .lit s :: r, cs => if s.isPrefixOf cs then run r (cs.drop s.length) else none
  | .lazy cls capture :: r, cs => (lazyStar cls (run r) cs).map (keep capture)
  | .greedy cls capture :: r, cs => (greedyStar cls (run r) cs).map (keep capture)

/-- The captures of the first match in the text. -/
def search (r : List Item) : List Char → Option (List (List Char))
  | [] => run r []
  | c :: cs => (run r (c :: cs)).or (search r cs)

/-! ## Repetitions -/

section Star

variable {cls : Char → Bool} {k : List Char → Option α} {t rest : List Char} {x : α}

/-- A lazy repetition takes the first text after which the rest matches. -/
theorem lazyStar_eq (ht : t.all cls = true) (hk : k rest = some x)
    (hmin : ∀ a b, a ++ b = t ++ rest → a.length < t.length → k b = none) :
    lazyStar cls k (t ++ rest) = some (t, x) := by
  induction t with
  | nil => cases rest <;> simp [lazyStar, hk]
  | cons c t ih =>
    simp only [List.all_cons, Bool.and_eq_true] at ht
    have h0 : k (c :: t ++ rest) = none := hmin [] _ rfl (by simp)
    have hrec := ih ht.2 fun a b hab hlen => hmin (c :: a) b (by simp [hab]) (by simpa using hlen)
    simp only [List.cons_append] at h0 ⊢
    simp only [lazyStar, h0, ht.1, hrec, if_true, Option.map_some]

/-- What a lazy repetition takes is in the class, and the rest matches after it. -/
theorem lazyStar_some {cs : List Char} (h : lazyStar cls k cs = some (t, x)) :
    t.all cls = true ∧ ∃ b, cs = t ++ b ∧ k b = some x := by
  induction cs generalizing t with
  | nil =>
    simp only [lazyStar, Option.map_eq_some_iff, Prod.mk.injEq] at h
    obtain ⟨y, hy, rfl, rfl⟩ := h
    exact ⟨rfl, [], rfl, hy⟩
  | cons c cs ih =>
    unfold lazyStar at h
    split at h
    · rename_i y hy
      simp only [Option.some.injEq, Prod.mk.injEq] at h
      obtain ⟨rfl, rfl⟩ := h
      exact ⟨rfl, c :: cs, rfl, hy⟩
    · split at h
      · rename_i hc
        simp only [Option.map_eq_some_iff, Prod.mk.injEq, Prod.exists] at h
        obtain ⟨t', x', h', rfl, rfl⟩ := h
        obtain ⟨hall, b, rfl, hk⟩ := ih h'
        exact ⟨by simp [hc, hall], b, rfl, hk⟩
      · cases h

/-- A lazy repetition succeeds no later than at any text after which the rest matches. -/
theorem lazyStar_le (ht : t.all cls = true) (hk : k rest = some x) :
    ∃ t' x', lazyStar cls k (t ++ rest) = some (t', x') ∧ t'.length ≤ t.length := by
  induction t with
  | nil => exact ⟨[], x, by cases rest <;> simp [lazyStar, hk], by simp⟩
  | cons c t ih =>
    simp only [List.all_cons, Bool.and_eq_true] at ht
    obtain ⟨t', x', h, hle⟩ := ih ht.2
    simp only [List.cons_append]
    cases h0 : k (c :: (t ++ rest)) with
    | some y => exact ⟨[], y, by simp [lazyStar, h0], by simp⟩
    | none => exact ⟨c :: t', x', by simp [lazyStar, h0, ht.1, h], by simpa using hle⟩

/-- A greedy repetition takes all it can, if the rest matches there. -/
theorem greedyStar_eq (ht : t.all cls = true) (hrest : ∀ c cs, rest = c :: cs → cls c = false)
    (hk : k rest = some x) : greedyStar cls k (t ++ rest) = some (t, x) := by
  induction t with
  | nil =>
    cases rest with
    | nil => simp [greedyStar, hk]
    | cons c cs => simp [greedyStar, hrest c cs rfl, hk]
  | cons c t ih =>
    simp only [List.all_cons, Bool.and_eq_true] at ht
    simp [greedyStar, ht.1, ih ht.2]

theorem greedyStar_some {cs : List Char} (h : greedyStar cls k cs = some (t, x)) :
    t.all cls = true ∧ ∃ b, cs = t ++ b ∧ k b = some x := by
  induction cs generalizing t x with
  | nil =>
    simp only [greedyStar, Option.map_eq_some_iff, Prod.mk.injEq] at h
    obtain ⟨y, hy, rfl, rfl⟩ := h
    exact ⟨rfl, [], rfl, hy⟩
  | cons c cs ih =>
    unfold greedyStar at h
    split at h
    · rename_i y hy
      split at hy
      · rename_i hc
        simp only [Option.some.injEq, Prod.mk.injEq] at h
        obtain ⟨rfl, rfl⟩ := h
        obtain ⟨hall, b, rfl, hk⟩ := ih hy
        exact ⟨by simp [hc, hall], b, rfl, hk⟩
      · cases hy
    · simp only [Option.map_eq_some_iff, Prod.mk.injEq] at h
      obtain ⟨y, hy, rfl, rfl⟩ := h
      exact ⟨rfl, c :: cs, rfl, hy⟩

end Star

/-! ## Expressions -/

theorem run_lit {s : List Char} {r : List Item} (cs : List Char) :
    run (.lit s :: r) (s ++ cs) = run r cs := by
  simp [run]

theorem run_lit_ne {s : List Char} {r : List Item} {cs : List Char} (h : ¬ s <+: cs) :
    run (.lit s :: r) cs = none := by
  simp [run, h]

theorem run_lit_some {s : List Char} {r : List Item} {cs : List Char} {x : List (List Char)}
    (h : run (.lit s :: r) cs = some x) : ∃ b, cs = s ++ b ∧ run r b = some x := by
  simp only [run, List.isPrefixOf_iff_prefix] at h
  split at h
  · rename_i hp
    obtain ⟨b, rfl⟩ := hp
    exact ⟨b, rfl, by simpa using h⟩
  · cases h

theorem run_greedy {cls : Char → Bool} {capture : Bool} {r : List Item} {t rest : List Char}
    {x : List (List Char)} (ht : t.all cls = true) (hrest : ∀ c cs, rest = c :: cs → cls c = false)
    (hk : run r rest = some x) :
    run (.greedy cls capture :: r) (t ++ rest) = some (keep capture (t, x)) := by
  simp only [run, greedyStar_eq ht hrest hk, Option.map_some]

theorem run_greedy_some {cls : Char → Bool} {capture : Bool} {r : List Item} {cs : List Char}
    {x : List (List Char)} (h : run (.greedy cls capture :: r) cs = some x) :
    ∃ t b y, t.all cls = true ∧ cs = t ++ b ∧ run r b = some y := by
  simp only [run, Option.map_eq_some_iff, Prod.exists] at h
  obtain ⟨t, y, h, -⟩ := h
  obtain ⟨ht, b, hb, hk⟩ := greedyStar_some h
  exact ⟨t, b, y, ht, hb, hk⟩

theorem run_lazy {cls : Char → Bool} {capture : Bool} {r : List Item} {t rest : List Char}
    {x : List (List Char)} (ht : t.all cls = true) (hk : run r rest = some x)
    (hmin : ∀ a b, a ++ b = t ++ rest → a.length < t.length → run r b = none) :
    run (.lazy cls capture :: r) (t ++ rest) = some (keep capture (t, x)) := by
  simp only [run, lazyStar_eq ht hk hmin, Option.map_some]

theorem search_of_run {r : List Item} {cs : List Char} {x : List (List Char)}
    (h : run r cs = some x) : search r cs = some x := by
  cases cs <;> simp [search, h]

/-- The classes of the captured repetitions. -/
def captured : List Item → List (Char → Bool)
  | [] => []
  | .lit _ :: r => captured r
  | .lazy cls capture :: r | .greedy cls capture :: r =>
    if capture then cls :: captured r else captured r

/-- **Captures** are in their classes. -/
theorem run_captures {r : List Item} {cs : List Char} {x : List (List Char)}
    (h : run r cs = some x) : List.Forall₂ (fun cls t => t.all cls = true) (captured r) x := by
  induction r generalizing cs x with
  | nil =>
    cases h
    exact .nil
  | cons item r ih =>
    cases item with
    | lit s =>
      simp only [run] at h
      split at h
      · exact ih h
      · cases h
    | lazy cls capture =>
      simp only [run, Option.map_eq_some_iff, Prod.exists] at h
      obtain ⟨t, y, h, rfl⟩ := h
      obtain ⟨hall, b, -, hk⟩ := lazyStar_some h
      cases capture with
      | false => exact ih hk
      | true => exact .cons hall (ih hk)
    | greedy cls capture =>
      simp only [run, Option.map_eq_some_iff, Prod.exists] at h
      obtain ⟨t, y, h, rfl⟩ := h
      obtain ⟨hall, b, -, hk⟩ := greedyStar_some h
      cases capture with
      | false => exact ih hk
      | true => exact .cons hall (ih hk)

theorem search_captures {r : List Item} {cs : List Char} {x : List (List Char)}
    (h : search r cs = some x) : List.Forall₂ (fun cls t => t.all cls = true) (captured r) x := by
  induction cs with
  | nil => exact run_captures h
  | cons c cs ih =>
    rcases Option.or_eq_some_iff.mp h with h | ⟨-, h⟩
    · exact run_captures h
    · exact ih h

end Regex
end QosSupport
