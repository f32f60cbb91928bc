import QosSupport.Lib.EventLoop

/-!
# One operation in a run with others

What one operation sees of a run (`Lib/EventLoop.lean`) in which other operations and the server's
environment act at the same time: its commands are answered, in order, with whatever the server replies at
that moment, and its callbacks run, in any order.

* `Thread`: what is left to do of one operation, and its variables; `Sys.thread σ o` for operation `o`.
* `Client.exchanges`: the commands of an operation that a run has executed, each with its reply.
* `thread_step`: a step of the system is a step of the thread (`Thread.Step`), or leaves it as it is.
* `thread_of_runs`: what holds when an operation starts, and is kept by the steps of its thread, holds of
  the operation and of what it has exchanged, in every state of every run.
* `Thread.Ahead`: the code before the first choice, for every reply; `Thread.Burst`: a burst of commands
  whose callbacks issue nothing.
-/

namespace QosSupport
namespace EventLoop

open Run

/-- What is left of an operation (module doc). -/
structure Thread (C R L : Type) where
  pipe : List (C × Option (R → Prog C R L))
  ready : List (Prog C R L)
  vars : L

section Thread

variable {S C R L O E : Type}

/-- What is left of operation `o`. -/
def Sys.thread (σ : Sys S C R L O) (o : Nat) : Thread C R L where
  pipe := (σ.pipe.filter fun p => p.op = o).map fun p => (p.cmd, p.cb)
  ready := (σ.ready.filter fun x => x.1 = o).map Prod.snd
  vars := σ.vars o

namespace Thread

/-- Nothing is left to do. -/
def Idle (x : Thread C R L) : Prop := x.pipe = [] ∧ x.ready = []

/-- One step of an operation and what it exchanges with the server, where `answers c r` says that `r` may be
the reply to `c`. -/
inductive Step (answers : C → R → Prop) : Thread C R L → List (C × R) → Thread C R L → Prop
  /-- The oldest command is answered; its callback becomes ready. -/
  | reply {c : C} {cb : Option (R → Prog C R L)} {rest : List (C × Option (R → Prog C R L))}
      {ready : List (Prog C R L)} {l : L} (r : R) : answers c r →
      Step answers ⟨(c, cb) :: rest, ready, l⟩ [(c, r)] ⟨rest, ready ++ (cb.map fun f => f r).toList, l⟩
  /-- A ready callback runs. -/
  | turn {pipe : List (C × Option (R → Prog C R L))} {a b : List (Prog C R L)} {j : Prog C R L} {l : L} :
      Step answers ⟨pipe, a ++ j :: b, l⟩ [] ⟨pipe ++ (j.issue l).1, a ++ b, (j.issue l).2⟩

/-- The first turn of an operation has run. -/
def start (j : Prog C R L) (l : L) : Thread C R L := ⟨(j.issue l).1, [], (j.issue l).2⟩

end Thread

namespace Client

variable {M : Client S C R L O E}

/-- The replies that the server can give to a command, in some state. -/
def Answers (M : Client S C R L O E) (c : C) (r : R) : Prop := ∃ s, (M.exec c s).2 = r

/-- The command of operation `o` that an event executes, with its reply. -/
def exchanged (M : Client S C R L O E) (o : Nat) (σ : Sys S C R L O) : Event O E → List (C × R)
  | .exec =>
    match σ.pipe with
    | [] => []
    | p :: _ => if p.op = o then [(p.cmd, (M.exec p.cmd σ.server).2)] else []
  | _ => []

/-- The commands of operation `o` that some events execute, in order, each with its reply. -/
def exchanges (M : Client S C R L O E) (o : Nat) (σ : Sys S C R L O) : List (Event O E) → List (C × R)
  | [] => []
  | e :: es =>
    M.exchanged o σ e ++
      match M.step σ e with
      | none => []
      | some σ' => exchanges M o σ' es

theorem exchanges_snoc {P : Sys S C R L O → Event O E → Prop} {σ σ₁ : Sys S C R L O} {es : List (Event O E)}
    (h : M.Runs P σ es σ₁) (o : Nat) (e : Event O E) :
    M.exchanges o σ (es ++ [e]) = M.exchanges o σ es ++ M.exchanged o σ₁ e := by
  induction h with
  | nil σ =>
    show M.exchanged o σ e ++ _ = [] ++ _
    cases M.step σ e <;> simp [exchanges]
  | cons _ hst _ ih =>
    have hstep : M.step _ _ = some _ := hst
    rw [List.cons_append, exchanges, exchanges, hstep]
    dsimp only
    rw [ih, List.append_assoc]

theorem thread_turn_ne (σ : Sys S C R L O) {o o' : Nat} (h : o ≠ o') (j : Prog C R L) :
    (σ.turn o' j).thread o = σ.thread o := by
  simp [Sys.thread, Sys.turn, Function.update_of_ne h, List.filter_map, Function.comp_def, h.symm]

theorem thread_turn_self (σ : Sys S C R L O) (o : Nat) (j : Prog C R L) :
    (σ.turn o j).thread o = ⟨(σ.thread o).pipe ++ (j.issue (σ.vars o)).1, (σ.thread o).ready,
      (j.issue (σ.vars o)).2⟩ := by
  simp [Sys.thread, Sys.turn, List.filter_map, Function.comp_def]

/-- Operations that have not been started have nothing to do. -/
def NoStrays (σ : Sys S C R L O) : Prop :=
  (∀ p ∈ σ.pipe, p.op < σ.ops.length) ∧ ∀ x ∈ σ.ready, x.1 < σ.ops.length

theorem getElem?_start {ops : List O} {op : O} {o : Nat} (h : o ≠ ops.length) :
    (ops ++ [op])[o]? = ops[o]? := by
  by_cases hlt : o < ops.length
  · exact List.getElem?_append_left hlt
  · rw [List.getElem?_eq_none (by simp; omega), List.getElem?_eq_none (by omega)]

theorem exchanged_none {σ : Sys S C R L O} (hs : NoStrays σ) {o : Nat} (ho : σ.ops[o]? = none)
    {e : Event O E} : M.exchanged o σ e = [] := by
  have hle := List.getElem?_eq_none_iff.mp ho
  cases e with
  | exec =>
    unfold exchanged
    dsimp only
    split
    · rfl
    · rename_i p rest hp
      have hlt := hs.1 p (by rw [hp]; exact List.mem_cons_self)
      exact if_neg (by omega)
  | _ => rfl

/-- **A step of the system, seen by an operation**: it starts now, its thread makes a step, or it stays as
it is. -/
theorem thread_step {σ σ' : Sys S C R L O} {e : Event O E} (h : M.Step σ e σ') (hs : NoStrays σ)
    (o : Nat) :
    (∃ op, σ.ops[o]? = none ∧ σ'.ops[o]? = some op ∧ M.exchanged o σ e = [] ∧
      σ'.thread o = Thread.start (M.code op) M.init) ∨
    σ'.ops[o]? = σ.ops[o]? ∧
      (Thread.Step M.Answers (σ.thread o) (M.exchanged o σ e) (σ'.thread o) ∨
        M.exchanged o σ e = [] ∧ σ'.thread o = σ.thread o) := by
  obtain ⟨op, rfl, rfl⟩ | ⟨p, rest, rfl, hp, rfl⟩ | ⟨a, o', j, b, rfl, hr, rfl⟩ | ⟨a, rfl, rfl⟩ :=
    step_cases h
  · by_cases ho : o = σ.ops.length
    · subst ho
      refine .inl ⟨op, by simp, by simp, rfl, ?_⟩
      have hpipe : σ.pipe.filter (fun p => p.op = σ.ops.length) = [] :=
        List.filter_eq_nil_iff.mpr fun p hp => by simpa using Nat.ne_of_lt (hs.1 p hp)
      have hready : σ.ready.filter (fun x => x.1 = σ.ops.length) = [] :=
        List.filter_eq_nil_iff.mpr fun x hx => by simpa using Nat.ne_of_lt (hs.2 x hx)
      rw [thread_turn_self]
      simp [Sys.thread, hpipe, hready, Thread.start]
    · rw [thread_turn_ne _ ho]
      refine .inr ⟨getElem?_start ho, .inr ⟨rfl, ?_⟩⟩
      simp [Sys.thread, Function.update_of_ne ho]
  · refine .inr ⟨rfl, ?_⟩
    obtain ⟨o', c, cb⟩ := p
    by_cases ho : o' = o
    · subst ho
      have hstep : Thread.Step M.Answers
          ⟨(c, cb) :: (rest.filter fun p => p.op = o').map fun p => (p.cmd, p.cb),
            (σ.thread o').ready, σ.vars o'⟩ _ _ := .reply (M.exec c σ.server).2 ⟨σ.server, rfl⟩
      left
      cases cb <;> simpa [Sys.thread, execute, exchanged, hp] using hstep
    · right
      cases cb <;> simp [Sys.thread, execute, exchanged, hp, ho]
  · refine .inr ⟨rfl, ?_⟩
    by_cases ho : o = o'
    · subst ho
      have hstep : Thread.Step M.Answers ⟨(σ.thread o).pipe,
          (a.filter fun x => x.1 = o).map Prod.snd ++ j :: (b.filter fun x => x.1 = o).map Prod.snd,
          σ.vars o⟩ _ _ := .turn
      rw [thread_turn_self]
      left
      simpa [Sys.thread, exchanged, hr] using hstep
    · rw [thread_turn_ne _ ho]
      right
      simp [Sys.thread, exchanged, hr, Ne.symm ho]
  · exact .inr ⟨rfl, .inr ⟨rfl, rfl⟩⟩

theorem noStrays_turn {σ : Sys S C R L O} (h : NoStrays σ) {o : Nat} (ho : o < σ.ops.length)
    (j : Prog C R L) : NoStrays (σ.turn o j) := by
  refine ⟨fun p hp => ?_, h.2⟩
  simp only [Sys.turn, List.mem_append, List.mem_map] at hp
  rcases hp with hp | ⟨q, -, rfl⟩
  · exact h.1 p hp
  · exact ho

theorem noStrays_step {σ σ' : Sys S C R L O} {e : Event O E} (h : M.Step σ e σ') (hs : NoStrays σ) :
    NoStrays σ' := by
  obtain ⟨op, rfl, rfl⟩ | ⟨p, rest, rfl, hp, rfl⟩ | ⟨a, o', j, b, rfl, hr, rfl⟩ | ⟨a, rfl, rfl⟩ :=
    step_cases h
  · refine noStrays_turn ⟨fun p hp => ?_, fun x hx => ?_⟩ ?_ _
    · exact Nat.lt_of_lt_of_le (hs.1 p hp) (by simp)
    · exact Nat.lt_of_lt_of_le (hs.2 x hx) (by simp)
    · simp
  · have hop := hs.1 p (by simp [hp])
    refine ⟨fun q hq => hs.1 q (by simp [hp, show q ∈ rest from hq]), fun x hx => ?_⟩
    cases hcb : p.cb with
    | none => exact hs.2 x (by simpa [execute, hcb] using hx)
    | some cb =>
      simp only [execute, hcb, List.mem_append, List.mem_singleton] at hx
      rcases hx with hx | rfl
      · exact hs.2 x hx
      · exact hop
  · have ho : o' < σ.ops.length := hs.2 (o', j) (by simp [hr])
    have hrest : NoStrays { σ with ready := a ++ b } := by
      refine ⟨hs.1, fun x hx => hs.2 x ?_⟩
      rw [hr]
      rcases List.mem_append.mp hx with hx | hx <;> simp [hx]
    exact noStrays_turn hrest ho j
  · exact hs

/-- **What an operation keeps**: if `I` holds of a thread that was just started with the code of `op` and has
exchanged nothing, and every step of a thread keeps it, it holds of `op` in every state of every run. -/
theorem thread_of_runs {I : List (C × R) → Thread C R L → Prop} {op : O}
    {P : Sys S C R L O → Event O E → Prop} (hstart : I [] (Thread.start (M.code op) M.init))
    (hstep : ∀ h x d y, I h x → Thread.Step M.Answers x d y → I (h ++ d) y) {s : S}
    {evs : List (Event O E)} {σ : Sys S C R L O} (h : M.Runs P (M.fresh s) evs σ) {o : Nat}
    (ho : σ.ops[o]? = some op) : I (M.exchanges o (M.fresh s) evs) (σ.thread o) := by
  have hinv : NoStrays σ ∧ (σ.ops[o]? = none → M.exchanges o (M.fresh s) evs = []) ∧
      (σ.ops[o]? = some op → I (M.exchanges o (M.fresh s) evs) (σ.thread o)) := by
    refine Steps.history (I := fun evs σ => NoStrays σ ∧
      (σ.ops[o]? = none → M.exchanges o (M.fresh s) evs = []) ∧
      (σ.ops[o]? = some op → I (M.exchanges o (M.fresh s) evs) (σ.thread o))) ?_ ?_ h
    · exact ⟨⟨by simp [fresh], by simp [fresh]⟩, fun _ => rfl, by simp [fresh]⟩
    · rintro evs σ e σ' hbefore - hst ⟨hs, hnone, hI⟩
      rw [exchanges_snoc hbefore]
      refine ⟨noStrays_step hst hs, ?_⟩
      obtain ⟨op', hold, hop, hno, hnew⟩ | ⟨hops, hthread⟩ := thread_step hst hs o
      · refine ⟨fun h => ?_, fun h => ?_⟩
        · rw [hop] at h
          cases h
        · obtain rfl : op' = op := Option.some.inj (hop.symm.trans h)
          rw [hnone hold, hno, hnew]
          exact hstart
      · rw [hops]
        refine ⟨fun h => ?_, fun h => ?_⟩
        · -- An operation that has not been started has no command.
          rw [hnone h, List.nil_append]
          exact exchanged_none hs h
        · rcases hthread with hth | ⟨hno, hth⟩
          · exact hstep _ _ _ _ (hI h) hth
          · rw [hno, List.append_nil, hth]
            exact hI h
  exact hinv.2.2 ho

end Client

namespace Thread

variable {answers : C → R → Prop} {x y : Thread C R L} {h d : List (C × R)}

/-- **Inversion of a step.** -/
theorem step_cases (hst : Step answers x d y) :
    (∃ c cb rest r, answers c r ∧ x.pipe = (c, cb) :: rest ∧ d = [(c, r)] ∧
      y = ⟨rest, x.ready ++ (cb.map fun f => f r).toList, x.vars⟩) ∨
    (∃ a j b, x.ready = a ++ j :: b ∧ d = [] ∧
      y = ⟨x.pipe ++ (j.issue x.vars).1, a ++ b, (j.issue x.vars).2⟩) := by
  cases hst with
  | reply r hr => exact .inl ⟨_, _, _, r, hr, rfl, rfl, rfl⟩
  | turn => exact .inr ⟨_, _, _, rfl, rfl, rfl⟩

theorem idle_step (hx : x.Idle) : ¬ Step answers x d y := by
  intro hst
  obtain ⟨c, cb, rest, r, -, hp, -⟩ | ⟨a, j, b, hr, -⟩ := step_cases hst
  · rw [hx.1] at hp
    cases hp
  · rw [hx.2] at hr
    simp at hr

/-! ## Code without a choice -/

/-- The thread, which has exchanged `h`, runs without a choice, and with the variables `l`, to where `Q` holds,
whatever the replies are. -/
inductive Ahead (answers : C → R → Prop) (Q : List (C × R) → Thread C R L → Prop) (l : L) :
    List (C × R) → Thread C R L → Prop
  /-- It is there. -/
  | here {h : List (C × R)} {x : Thread C R L} : Q h x → Ahead answers Q l h x
  /-- It waits for a reply that nobody reads. -/
  | send {h : List (C × R)} {c : C} {rest : List (C × Option (R → Prog C R L))} :
      (∀ r, answers c r → Ahead answers Q l (h ++ [(c, r)]) ⟨rest, [], l⟩) →
      Ahead answers Q l h ⟨(c, none) :: rest, [], l⟩
  /-- It waits for the reply to its only command. -/
  | call {h : List (C × R)} {c : C} {cb : R → Prog C R L} :
      (∀ r, answers c r → Ahead answers Q l (h ++ [(c, r)]) ⟨[], [cb r], l⟩) →
      Ahead answers Q l h ⟨[(c, some cb)], [], l⟩
  /-- Its only callback is ready. -/
  | turn {h : List (C × R)} {j : Prog C R L} : Ahead answers Q l h (start j l) →
      Ahead answers Q l h ⟨[], [j], l⟩

section Ahead

variable {Q : List (C × R) → Thread C R L → Prop} {l : L}

theorem ahead_step (hQ : ∀ h x d y, Q h x → Step answers x d y → Q (h ++ d) y)
    (ha : Ahead answers Q l h x) (hst : Step answers x d y) : Ahead answers Q l (h ++ d) y := by
  cases ha with
  | here hq => exact .here (hQ _ _ _ _ hq hst)
  | send ha =>
    obtain ⟨c, cb, rest, r, hr, hp, rfl, rfl⟩ | ⟨a, j, b, hr, -⟩ := step_cases hst
    · obtain ⟨hc, rfl⟩ := List.cons.inj hp
      obtain ⟨rfl, rfl⟩ := Prod.mk.inj hc
      exact ha r hr
    · simp at hr
  | call ha =>
    obtain ⟨c, cb, rest, r, hr, hp, rfl, rfl⟩ | ⟨a, j, b, hr, -⟩ := step_cases hst
    · obtain ⟨hc, rfl⟩ := List.cons.inj hp
      obtain ⟨rfl, rfl⟩ := Prod.mk.inj hc
      exact ha r hr
    · simp at hr
  | @turn _ j ha =>
    obtain ⟨c, cb, rest, r, -, hp, -⟩ | ⟨a, j', b, hr, rfl, rfl⟩ := step_cases hst
    · simp at hp
    · obtain ⟨rfl, rfl, rfl⟩ : a = [] ∧ j' = j ∧ b = [] := by
        cases a with
        | nil => simpa [eq_comm] using hr
        | cons => simp at hr
      rw [List.append_nil]
      exact ha

/-- Before it is there, the thread has something to do, and the variables are as they were. -/
theorem ahead_cases (ha : Ahead answers Q l h x) : Q h x ∨ ¬ x.Idle ∧ x.vars = l := by
  cases ha with
  | here hq => exact .inl hq
  | send | call | turn => exact .inr ⟨by simp [Idle], rfl⟩

end Ahead

/-! ## Bursts -/

section Burst

variable {α : Type} {cmd : α → C} {cb : α → R → Prog C R L} {l : L} {as : List α} {h₀ : List (C × R)}

/-- A burst of commands for the items `as`: after `h₀`, the items `log` were answered, in order, and the commands
for `asked` were not; of `log`, the callbacks of `done` have run and those of `waiting` are ready. -/
structure Burst (cmd : α → C) (cb : α → R → Prog C R L) (l : L) (as : List α) (h₀ h : List (C × R))
    (x : Thread C R L) (log done waiting : List (α × R)) (asked : List α) : Prop where
  exchanged : h = h₀ ++ log.map fun z => (cmd z.1, z.2)
  order : log.map Prod.fst ++ asked = as
  turns : (done ++ waiting).Perm log
  thread : x = ⟨asked.map fun a => (cmd a, some (cb a)), waiting.map fun z => cb z.1 z.2,
    Client.runTurns (done.map fun z => cb z.1 z.2) l⟩

theorem burst_start (h : List (C × R)) : Burst cmd cb l as h h
    ⟨as.map fun a => (cmd a, some (cb a)), [], l⟩ [] [] [] as :=
  ⟨by simp, rfl, .refl _, rfl⟩

/-- **One step of a burst.** -/
theorem burst_step (hquiet : ∀ a r, (cb a r).Quiet) {log done waiting : List (α × R)} {asked : List α}
    (hb : Burst cmd cb l as h₀ h x log done waiting asked) (hst : Step answers x d y) :
    ∃ log' done' waiting' asked', Burst cmd cb l as h₀ (h ++ d) y log' done' waiting' asked' := by
  obtain ⟨rfl, horder, hperm, rfl⟩ := hb
  obtain ⟨c, f, rest, r, hr, hp, rfl, rfl⟩ | ⟨a, j, b, hready, rfl, rfl⟩ := step_cases hst
  · obtain ⟨a, asked', rfl, hc, rfl⟩ := List.map_eq_cons_iff.mp hp
    obtain ⟨rfl, rfl⟩ := Prod.mk.inj hc
    refine ⟨log ++ [(a, r)], done, waiting ++ [(a, r)], asked', ?_, ?_, ?_, ?_⟩
    · simp
    · simpa using horder
    · rw [← List.append_assoc]
      exact hperm.append_right _
    · simp
  · obtain ⟨w₁, w₂, rfl, rfl, hw₂⟩ := List.map_eq_append_iff.mp hready
    obtain ⟨z, w₃, rfl, rfl, rfl⟩ := List.map_eq_cons_iff.mp hw₂
    refine ⟨log, done ++ [z], w₁ ++ w₃, asked, by rw [List.append_nil], horder, ?_, ?_⟩
    · refine .trans ?_ hperm
      rw [List.append_assoc]
      exact .append_left _ (by simpa using List.perm_middle.symm)
    · simp [(hquiet z.1 z.2).issue_eq, Client.runTurns]

end Burst

end Thread

end Thread

end EventLoop
end QosSupport
