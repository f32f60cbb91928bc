import Mathlib.Order.Basic

/-!
# While loops

`run cond body n a` runs `while (cond) body` from the state `a`, for fewer than `n` rounds. `Ends` says
that the loop ends, and in which state.

* `ends_iff`, `ends_iff_of_not`: one round of the loop, and its exit.
* `Ends.inv`: what every round keeps holds when the loop ends, and there the condition is false.
* `ends_of_measure`: a loop ends if every round makes a measure smaller, as long as an invariant holds.
* `run_eq_none_of_stuck`: a loop with a round that changes nothing never ends.
-/

namespace QosSupport
namespace Loop

variable {α : Type} {cond : α → Prop} [DecidablePred cond] {body : α → α} {a b c : α}

/-- The state after the loop, if it needs fewer than `n` rounds. -/
def run (cond : α → Prop) [DecidablePred cond] (body : α → α) : Nat → α → Option α
  | 0, _ => none
  | n + 1, a => if cond a then run cond body n (body a) else some a

/-- The state after `n` rounds, or after the loop. -/
def after (cond : α → Prop) [DecidablePred cond] (body : α → α) : Nat → α → α
  | 0, a => a
  | n + 1, a => if cond a then after cond body n (body a) else a

/-- The loop ends in the state `b`. -/
def Ends (cond : α → Prop) [DecidablePred cond] (body : α → α) (a b : α) : Prop :=
  ∃ n, run cond body n a = some b

theorem run_succ (n : Nat) (h : cond a) : run cond body (n + 1) a = run cond body n (body a) := by
  rw [run, if_pos h]

theorem run_succ_of_not (n : Nat) (h : ¬ cond a) : run cond body (n + 1) a = some a := by
  rw [run, if_neg h]

/-- More rounds than needed change nothing. -/
theorem run_mono {n n' : Nat} (hle : n ≤ n') (h : run cond body n a = some b) :
    run cond body n' a = some b := by
  induction n generalizing a n' with
  | zero => cases h
  | succ n ih =>
    obtain ⟨k, rfl⟩ : ∃ k, n' = k + 1 := ⟨n' - 1, by omega⟩
    by_cases hc : cond a
    · rw [run_succ n hc] at h
      rw [run_succ k hc]
      exact ih (by omega) h
    · rw [run_succ_of_not n hc] at h
      rw [run_succ_of_not k hc]
      exact h

theorem ends_iff (h : cond a) : Ends cond body a b ↔ Ends cond body (body a) b := by
  constructor
  · rintro ⟨n, hn⟩
    cases n with
    | zero => cases hn
    | succ n => exact ⟨n, (run_succ n h).symm.trans hn⟩
  · rintro ⟨n, hn⟩
    exact ⟨n + 1, (run_succ n h).trans hn⟩

theorem ends_iff_of_not (h : ¬ cond a) : Ends cond body a b ↔ b = a := by
  constructor
  · rintro ⟨n, hn⟩
    cases n with
    | zero => cases hn
    | succ n =>
      rw [run_succ_of_not n h] at hn
      exact (Option.some.inj hn).symm
  · rintro rfl
    exact ⟨1, run_succ_of_not 0 h⟩

/-- **The invariant rule.** -/
theorem Ends.inv {I : α → Prop} (hstep : ∀ a, I a → cond a → I (body a)) (h : Ends cond body a b)
    (hi : I a) : I b ∧ ¬ cond b := by
  obtain ⟨n, hn⟩ := h
  induction n generalizing a with
  | zero => cases hn
  | succ n ih =>
    by_cases hc : cond a
    · exact ih (hstep a hi hc) ((run_succ n hc).symm.trans hn)
    · rw [run_succ_of_not n hc] at hn
      cases hn
      exact ⟨hi, hc⟩

/-- The condition is false where the loop ends. -/
theorem Ends.not_cond (h : Ends cond body a b) : ¬ cond b :=
  (h.inv (I := fun _ => True) (fun _ _ _ => trivial) trivial).2

/-- A loop ends in at most one state. -/
theorem Ends.unique (h : Ends cond body a b) (h' : Ends cond body a c) : b = c := by
  obtain ⟨n, hn⟩ := h
  induction n generalizing a with
  | zero => cases hn
  | succ n ih =>
    by_cases hc : cond a
    · exact ih ((ends_iff hc).mp h') ((run_succ n hc).symm.trans hn)
    · rw [run_succ_of_not n hc] at hn
      cases hn
      exact ((ends_iff_of_not hc).mp h').symm

/-- **The termination rule.** -/
theorem ends_of_measure (I : α → Prop) (m : α → Nat)
    (hstep : ∀ a, I a → cond a → I (body a) ∧ m (body a) < m a) (hi : I a) :
    ∃ b, Ends cond body a b ∧ I b ∧ ¬ cond b := by
  induction h : m a using Nat.strongRecOn generalizing a with
  | _ k ih =>
    by_cases hc : cond a
    · obtain ⟨hi', hlt⟩ := hstep a hi hc
      obtain ⟨b, hb, hpost⟩ := ih (m (body a)) (h ▸ hlt) hi' rfl
      exact ⟨b, (ends_iff hc).mpr hb, hpost⟩
    · exact ⟨a, (ends_iff_of_not hc).mpr rfl, hi, hc⟩

/-- Some rounds that lead to where the condition is false are the whole loop. -/
theorem ends_after {n : Nat} (h : ¬ cond (after cond body n a)) :
    Ends cond body a (after cond body n a) := by
  induction n generalizing a with
  | zero => exact (ends_iff_of_not h).mpr rfl
  | succ n ih =>
    by_cases hc : cond a
    · rw [after, if_pos hc] at h ⊢
      exact (ends_iff hc).mpr (ih h)
    · rw [after, if_neg hc]
      exact (ends_iff_of_not hc).mpr rfl

/-- A round that changes nothing is the last state of the loop. -/
theorem after_of_stuck (h : body a = a) (n : Nat) : after cond body n a = a := by
  induction n with
  | zero => rfl
  | succ n ih =>
    rw [after]
    split
    · rw [h, ih]
    · rfl

theorem run_eq_none_of_stuck (hc : cond a) (h : body a = a) (n : Nat) : run cond body n a = none := by
  induction n with
  | zero => rfl
  | succ n ih => rw [run_succ n hc, h, ih]

end Loop
end QosSupport
