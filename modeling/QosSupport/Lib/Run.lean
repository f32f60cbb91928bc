import Mathlib.Data.List.Basic

/-!
# Runs of a labelled step relation

A system is a relation `step s e s'`: from the state `s`, the event `e` may lead to `s'`.

* `Steps step P s es s'`: a run from `s` to `s'` over the events `es`, each of which meets the
  condition `P` (on the state before the step and the event). `P := Any` gives all runs.
* `Steps.inv`: a property that every step meeting `P` keeps holds at the end of every such run. A
  prefix of a run is a run, so this is a statement about every state on the way.
* `Steps.history`: a property of the events so far and the state, by induction on the last step.
* `Steps.congr`: a condition on the steps may be replaced by one that agrees with it where an invariant
  holds. With "the state after the step is good" this says exactly in which runs all states are.
* `Interleaves as bs cs`: the steps `cs` are those of `as` and `bs`, each in its order.
-/

namespace QosSupport
namespace Run

variable {St Ev : Type} {step : St → Ev → St → Prop} {P Q : St → Ev → Prop}

/-- The runs of `step` whose steps all meet `P`. -/
inductive Steps (step : St → Ev → St → Prop) (P : St → Ev → Prop) : St → List Ev → St → Prop
  | nil (s : St) : Steps step P s [] s
  | cons {s s₁ s' : St} {e : Ev} {es : List Ev} :
      P s e → step s e s₁ → Steps step P s₁ es s' → Steps step P s (e :: es) s'

/-- No condition on the steps. -/
def Any : St → Ev → Prop := fun _ _ => True

namespace Steps

variable {s s₁ s' : St} {e : Ev} {es es' : List Ev}

/-- **The invariant rule.** -/
theorem inv {I : St → Prop} (hstep : ∀ s e s', I s → P s e → step s e s' → I s')
    (h : Steps step P s es s') (hi : I s) : I s' := by
  induction h with
  | nil s => exact hi
  | cons hP hst _ ih => exact ih (hstep _ _ _ hi hP hst)

theorem mono (hPQ : ∀ s e, P s e → Q s e) (h : Steps step P s es s') : Steps step Q s es s' := by
  induction h with
  | nil s => exact .nil s
  | cons hP hst _ ih => exact .cons (hPQ _ _ hP) hst ih

theorem append (h : Steps step P s es s₁) (h' : Steps step P s₁ es' s') :
    Steps step P s (es ++ es') s' := by
  induction h with
  | nil s => exact h'
  | cons hP hst _ ih => exact .cons hP hst (ih h')

theorem one (hP : P s e) (hst : step s e s') : Steps step P s [e] s' :=
  .cons hP hst (.nil _)

/-- **The history rule**: what holds of a run without events, and is kept when a step is added at the end, holds
of every run. -/
theorem history {I : List Ev → St → Prop} (hnil : I [] s)
    (hsnoc : ∀ es s₁ e s₂, Steps step P s es s₁ → P s₁ e → step s₁ e s₂ → I es s₁ → I (es ++ [e]) s₂)
    (h : Steps step P s es s') : I es s' := by
  have hgen : ∀ {es₀ s₁}, Steps step P s es₀ s₁ → I es₀ s₁ → Steps step P s₁ es s' → I (es₀ ++ es) s' := by
    intro es₀ s₁ hbefore hI hrest
    clear h
    induction hrest generalizing es₀ with
    | nil s₁ => simpa using hI
    | @cons s₁ s₂ s' e es hP hst _ ih =>
      have hone := hbefore.append (one hP hst)
      simpa using ih hone (hsnoc _ _ _ _ hbefore hP hst hI)
  exact hgen (.nil s) hnil h

/-- The run before one of its events, and the event's step. -/
theorem split (h : Steps step P s (es ++ e :: es') s') :
    ∃ s₁ s₂, Steps step P s es s₁ ∧ P s₁ e ∧ step s₁ e s₂ ∧ Steps step P s₂ es' s' := by
  induction es generalizing s with
  | nil =>
    cases h with
    | cons hP hst h => exact ⟨s, _, .nil s, hP, hst, h⟩
  | cons x es ih =>
    cases h with
    | cons hP hst h =>
      obtain ⟨s₁, s₂, h₁, hP₁, hst₁, h₂⟩ := ih h
      exact ⟨s₁, s₂, .cons hP hst h₁, hP₁, hst₁, h₂⟩

/-- Two conditions that agree in every state that meets an invariant have the same runs. -/
theorem congr {I : St → Prop} (hstep : ∀ s e s', I s → P s e → step s e s' → I s')
    (hiff : ∀ s e, I s → (P s e ↔ Q s e)) (hi : I s) :
    Steps step P s es s' ↔ Steps step Q s es s' := by
  constructor
  · intro h
    induction h with
    | nil s => exact .nil s
    | cons hP hst _ ih => exact .cons ((hiff _ _ hi).mp hP) hst (ih (hstep _ _ _ hi hP hst))
  · intro h
    induction h with
    | nil s => exact .nil s
    | cons hQ hst _ ih =>
      have hP := (hiff _ _ hi).mpr hQ
      exact .cons hP hst (ih (hstep _ _ _ hi hP hst))

/-- So do two conditions that agree in every state. -/
theorem congr_all (hiff : ∀ s e, P s e ↔ Q s e) : Steps step P s es s' ↔ Steps step Q s es s' := by
  constructor
  · exact mono fun s e => (hiff s e).mp
  · exact mono fun s e => (hiff s e).mpr

end Steps

/-- `cs` has the items of `as` and those of `bs`, each in their order. -/
inductive Interleaves {α : Type} : List α → List α → List α → Prop
  | nil : Interleaves [] [] []
  /-- The first list goes on. -/
  | first {a : α} {as bs cs : List α} : Interleaves as bs cs → Interleaves (a :: as) bs (a :: cs)
  /-- The second list goes on. -/
  | second {b : α} {as bs cs : List α} : Interleaves as bs cs → Interleaves as (b :: bs) (b :: cs)

namespace Interleaves

variable {α β : Type} {as bs cs : List α}

theorem mem (h : Interleaves as bs cs) {c : α} (hc : c ∈ cs) : c ∈ as ∨ c ∈ bs := by
  induction h with
  | nil => cases hc
  | first _ ih =>
    rcases List.mem_cons.mp hc with rfl | hc
    · exact .inl List.mem_cons_self
    · exact (ih hc).imp_left (List.mem_cons_of_mem _)
  | second _ ih =>
    rcases List.mem_cons.mp hc with rfl | hc
    · exact .inr List.mem_cons_self
    · exact (ih hc).imp_right (List.mem_cons_of_mem _)

/-- Items that change nothing may be left out. -/
theorem foldl_eq (h : Interleaves as bs cs) {f : β → α → β} (ha : ∀ a ∈ as, ∀ x, f x a = x) (x : β) :
    cs.foldl f x = bs.foldl f x := by
  induction h generalizing x with
  | nil => rfl
  | first _ ih =>
    rw [List.foldl_cons, ha _ List.mem_cons_self]
    exact ih (fun a hmem => ha a (List.mem_cons_of_mem _ hmem)) x
  | second _ ih => exact ih ha _

end Interleaves

end Run
end QosSupport
