import Mathlib.Data.List.Induction
import QosSupport.Lib.Run

/-!
# Callback programs over one pipelined connection

A client in the style of Node.js talks to a request/reply server over one connection. An
operation issues commands; each command may carry a callback, which runs after the reply has
arrived and issues further commands. Many operations run at the same time and share the
connection.

* `Prog C R L`: the code of one turn (a callback body, up to its end) over commands `C`, replies `R`
  and the operation's closure variables `L`; the callbacks it registers are part of the tree.
* `Sys`: the server, the commands issued and not executed yet (`pipe`, in issue order), the
  callbacks whose reply has arrived (`ready`), the operations started and their variables.
* `Client.step`: start an operation, execute the oldest command, run any ready callback, or let the
  environment of the server act. A callback may run at any time after its reply, in any order.
* `Client.Completes o s s' l`: a complete run of `o` alone takes the server from `s` to `s'` and
  leaves the variables `l`.

Two ways to compute what an operation does alone, without looking at schedules:

* `Client.effect`, for programs in which at most one pending callback issues commands
  (`Prog.Linear`): the final server of every complete run (`effect_of_completes`).
* `Client.front`: how far it runs without a choice, that is, with one pending callback at a time
  (`front_of_completes`); to the end, if no command is left there (`end_of_completes`). Where it stops
  at a burst of reads, all the callbacks of the burst run, in some order (`vars_of_burst`).

What the server keeps in every interleaving: `server_of_runs` gives an invariant of the server from what
each command does to it, for programs all of whose commands are known (`Prog.Issues`).

`exists_idle`, `exists_completes`: from every state all commands and callbacks can run to their end.
-/

namespace QosSupport
namespace EventLoop

open Run

/-- The code of one turn (module doc). -/
inductive Prog (C R L : Type) where
  /-- The turn ends. -/
  | done
  /-- Issue a command and ignore its reply. -/
  | send (c : C) (next : Prog C R L)
  /-- Issue a command with a callback. -/
  | call (c : C) (cb : R → Prog C R L) (next : Prog C R L)
  /-- Update the closure variables and go on with their new value. -/
  | upd (f : L → L) (k : L → Prog C R L)

namespace Prog

variable {C R L : Type}

/-- The commands that a turn issues, in order, and the closure variables after it. -/
def issue : Prog C R L → L → List (C × Option (R → Prog C R L)) × L
  | .done, l => ([], l)
  | .send c next, l => ((c, none) :: (next.issue l).1, (next.issue l).2)
  | .call c cb next, l => ((c, some cb) :: (next.issue l).1, (next.issue l).2)
  | .upd f k, l => (k (f l)).issue (f l)

/-- The turn issues no command. -/
def Quiet : Prog C R L → Prop
  | .done => True
  | .send _ _ => False
  | .call _ _ _ => False
  | .upd _ k => ∀ l, (k l).Quiet

/-- At most one callback of each turn issues commands, and closure variables never decide
which. -/
def Linear : Prog C R L → Prop
  | .done => True
  | .send _ next => next.Linear
  | .call _ cb next => ((∀ r, (cb r).Quiet) ∧ next.Linear) ∨ (next.Quiet ∧ ∀ r, (cb r).Linear)
  | .upd _ k => ∀ l, (k l).Quiet

theorem Quiet.issue_eq {j : Prog C R L} (h : j.Quiet) (l : L) : (j.issue l).1 = [] := by
  induction j generalizing l with
  | done => rfl
  | send => exact h.elim
  | call => exact h.elim
  | upd f k ih => exact ih _ (h _) _

theorem Quiet.linear {j : Prog C R L} (h : j.Quiet) : j.Linear := by
  cases j with
  | done => trivial
  | send => exact h.elim
  | call => exact h.elim
  | upd f k => exact h

/-- Every command of the turn and of its callbacks meets `G`. -/
def Issues (G : C → Prop) : Prog C R L → Prop
  | .done => True
  | .send c next => G c ∧ next.Issues G
  | .call c cb next => G c ∧ (∀ r, (cb r).Issues G) ∧ next.Issues G
  | .upd _ k => ∀ l, (k l).Issues G

/-- Every command of the callback meets `G`. -/
def IssuesCb (G : C → Prop) (cb : Option (R → Prog C R L)) : Prop :=
  ∀ f, cb = some f → ∀ r, (f r).Issues G

theorem Issues.mono {G H : C → Prop} (hGH : ∀ c, G c → H c) {j : Prog C R L} (h : j.Issues G) :
    j.Issues H := by
  induction j with
  | done => trivial
  | send c next ih => exact ⟨hGH c h.1, ih h.2⟩
  | call c cb next ihcb ih => exact ⟨hGH c h.1, fun r => ihcb r (h.2.1 r), ih h.2.2⟩
  | upd f k ih => exact fun l => ih l (h l)

theorem Issues.issue {G : C → Prop} {j : Prog C R L} (h : j.Issues G) (l : L) :
    ∀ p ∈ (j.issue l).1, G p.1 ∧ IssuesCb G p.2 := by
  induction j generalizing l with
  | done => simp [Prog.issue]
  | send c next ih =>
    intro p hp
    rcases List.mem_cons.mp hp with rfl | hp
    · exact ⟨h.1, nofun⟩
    · exact ih h.2 l p hp
  | call c cb next _ ih =>
    intro p hp
    rcases List.mem_cons.mp hp with rfl | hp
    · refine ⟨h.1, ?_⟩
      rintro f ⟨⟩
      exact h.2.1
    · exact ih h.2.2 l p hp
  | upd f k ih => exact ih _ (h _) _

end Prog

/-- A command issued by operation `op` and not executed yet. -/
structure Pending (C R L : Type) where
  op : Nat
  cmd : C
  cb : Option (R → Prog C R L)

/-- The state of the client and its server (module doc). An operation's id is its index in
`ops`. -/
structure Sys (S C R L O : Type) where
  server : S
  pipe : List (Pending C R L)
  ready : List (Nat × Prog C R L)
  ops : List O
  vars : Nat → L

/-- What can happen next. -/
inductive Event (O E : Type) where
  /-- A new operation is started: its first turn runs. -/
  | start (o : O)
  /-- The server executes the oldest command in the pipeline. -/
  | exec
  /-- The `i`-th ready callback runs. -/
  | run (i : Nat)
  /-- The server's environment acts (its clock, its other clients). -/
  | env (e : E)

/-- The operation's own steps: no new operation, no act of the environment. -/
def Event.Internal {O E : Type} : Event O E → Prop
  | .exec | .run _ => True
  | .start _ | .env _ => False

/-- A client: what commands do to the server and reply, the code of each operation, the closure
variables at its start, and the acts of the server's environment. -/
structure Client (S C R L O E : Type) where
  exec : C → S → S × R
  code : O → Prog C R L
  init : L
  env : E → S → S

namespace Sys

variable {S C R L O : Type}

/-- Operation `o` runs the turn `j`. -/
def turn (σ : Sys S C R L O) (o : Nat) (j : Prog C R L) : Sys S C R L O :=
  { σ with
    pipe := σ.pipe ++ (j.issue (σ.vars o)).1.map fun p => ⟨o, p.1, p.2⟩
    vars := Function.update σ.vars o (j.issue (σ.vars o)).2 }

@[simp] theorem turn_server (σ : Sys S C R L O) (o : Nat) (j : Prog C R L) :
    (σ.turn o j).server = σ.server := rfl

@[simp] theorem turn_ready (σ : Sys S C R L O) (o : Nat) (j : Prog C R L) :
    (σ.turn o j).ready = σ.ready := rfl

@[simp] theorem turn_ops (σ : Sys S C R L O) (o : Nat) (j : Prog C R L) :
    (σ.turn o j).ops = σ.ops := rfl

/-- No command is pending and no callback waits to run. -/
def Idle (σ : Sys S C R L O) : Prop := σ.pipe = [] ∧ σ.ready = []

end Sys

namespace Client

variable {S C R L O E : Type} (M : Client S C R L O E)

/-- The head `p` of the pipeline is executed; its callback becomes ready. -/
def execute (σ : Sys S C R L O) (p : Pending C R L) (rest : List (Pending C R L)) :
    Sys S C R L O :=
  { σ with
    server := (M.exec p.cmd σ.server).1
    pipe := rest
    ready := match p.cb with
      | none => σ.ready
      | some cb => σ.ready ++ [(p.op, cb (M.exec p.cmd σ.server).2)] }

/-- One step (module doc); `none` if the event is not possible. -/
def step (σ : Sys S C R L O) : Event O E → Option (Sys S C R L O)
  | .start o =>
    some ({ σ with
      ops := σ.ops ++ [o]
      vars := Function.update σ.vars σ.ops.length M.init }.turn σ.ops.length (M.code o))
  | .exec =>
    match σ.pipe with
    | [] => none
    | p :: rest => some (M.execute σ p rest)
  | .run i =>
    match σ.ready[i]? with
    | none => none
    | some (o, j) => some ({ σ with ready := σ.ready.eraseIdx i }.turn o j)
  | .env e => some { σ with server := M.env e σ.server }

/-- `step` as a relation. -/
def Step (σ : Sys S C R L O) (e : Event O E) (σ' : Sys S C R L O) : Prop := M.step σ e = some σ'

/-- The runs of the client whose steps all meet `P`. -/
abbrev Runs (P : Sys S C R L O → Event O E → Prop) := Steps M.Step P

/-- The state after some events, if all are possible. -/
def runAll (σ : Sys S C R L O) : List (Event O E) → Option (Sys S C R L O)
  | [] => some σ
  | e :: es => (M.step σ e).bind fun σ' => runAll σ' es

/-- The client before its first operation, on the server `s`. -/
def fresh (s : S) : Sys S C R L O :=
  { server := s, pipe := [], ready := [], ops := [], vars := fun _ => M.init }

/-- The client after the first turn of `o`, started alone on the server `s`. -/
def started (o : O) (s : S) : Sys S C R L O :=
  { (M.fresh s : Sys S C R L O) with ops := [o] }.turn 0 (M.code o)

/-- A complete run of `o`, alone, on the server `s` ends with the server `s'` and the closure
variables `l`. -/
def Completes (o : O) (s s' : S) (l : L) : Prop :=
  ∃ (evs : List (Event O E)) (σ : Sys S C R L O),
    M.Runs (fun _ e => e.Internal) (M.started o s) evs σ ∧ σ.Idle ∧ σ.server = s' ∧ σ.vars 0 = l

/-- Starting `o` alone is the first step of the client. -/
theorem step_start (o : O) (s : S) : M.step (M.fresh s) (.start o) = some (M.started o s) := by
  simp [step, started, fresh]

variable {M}

theorem runs_of_runAll {P : Sys S C R L O → Event O E → Prop} {evs : List (Event O E)}
    {σ σ' : Sys S C R L O} (h : M.runAll σ evs = some σ') (hP : ∀ τ, ∀ e ∈ evs, P τ e) :
    M.Runs P σ evs σ' := by
  induction evs generalizing σ with
  | nil =>
    cases h
    exact .nil _
  | cons e evs ih =>
    obtain ⟨σ₁, h₁, h⟩ := Option.bind_eq_some_iff.mp h
    exact .cons (hP σ e List.mem_cons_self) h₁
      (ih h fun τ x hx => hP τ x (List.mem_cons_of_mem _ hx))

/-! ## What one step can do -/

/-- **Inversion of a step**: everything that an event can do. -/
theorem step_cases {σ σ' : Sys S C R L O} {e : Event O E} (h : M.Step σ e σ') :
    (∃ o, e = .start o ∧ σ' = { σ with
      ops := σ.ops ++ [o]
      vars := Function.update σ.vars σ.ops.length M.init }.turn σ.ops.length (M.code o)) ∨
    (∃ p rest, e = .exec ∧ σ.pipe = p :: rest ∧ σ' = M.execute σ p rest) ∨
    (∃ a o j b, e = .run a.length ∧ σ.ready = a ++ (o, j) :: b ∧
      σ' = { σ with ready := a ++ b }.turn o j) ∨
    (∃ a, e = .env a ∧ σ' = { σ with server := M.env a σ.server }) := by
  unfold Step step at h
  cases e with
  | start o => exact .inl ⟨o, rfl, by simpa using h.symm⟩
  | exec =>
    cases hp : σ.pipe with
    | nil => simp [hp] at h
    | cons p rest =>
      simp only [hp, Option.some.injEq] at h
      exact .inr (.inl ⟨p, rest, rfl, rfl, h.symm⟩)
  | run i =>
    cases hr : σ.ready[i]? with
    | none => simp [hr] at h
    | some x =>
      obtain ⟨o, j⟩ := x
      simp only [hr, Option.some.injEq] at h
      obtain ⟨hi, hx⟩ := List.getElem?_eq_some_iff.mp hr
      have hlen : (σ.ready.take i).length = i := by simp; omega
      refine .inr (.inr (.inl ⟨σ.ready.take i, o, j, σ.ready.drop (i + 1), by rw [hlen], ?_, ?_⟩))
      · rw [← hx, ← List.drop_eq_getElem_cons hi, List.take_append_drop]
      · rw [← h, List.eraseIdx_eq_take_drop_succ]
  | env a => exact .inr (.inr (.inr ⟨a, rfl, by simpa using h.symm⟩))

/-- An internal step executes the oldest command or runs a ready callback. -/
theorem internal_cases {σ σ' : Sys S C R L O} {e : Event O E} (hi : e.Internal)
    (h : M.Step σ e σ') :
    (∃ p rest, σ.pipe = p :: rest ∧ σ' = M.execute σ p rest) ∨
    (∃ a o j b, σ.ready = a ++ (o, j) :: b ∧ σ' = { σ with ready := a ++ b }.turn o j) := by
  obtain ⟨o, rfl, -⟩ | ⟨p, rest, -, hp, h'⟩ | ⟨a, o, j, b, -, hr, h'⟩ | ⟨a, rfl, -⟩ := step_cases h
  · exact hi.elim
  · exact .inl ⟨p, rest, hp, h'⟩
  · exact .inr ⟨a, o, j, b, hr, h'⟩
  · exact hi.elim

/-! ## Invariants of the server -/

/-- Every command that is pending, or that a callback may still issue, meets `G`. -/
structure IssuesSys (G : C → Prop) (σ : Sys S C R L O) : Prop where
  pipe : ∀ p ∈ σ.pipe, G p.cmd ∧ Prog.IssuesCb G p.cb
  ready : ∀ x ∈ σ.ready, x.2.Issues G

theorem issuesSys_turn {G : C → Prop} {σ : Sys S C R L O} (h : IssuesSys G σ) (o : Nat)
    {j : Prog C R L} (hj : j.Issues G) : IssuesSys G (σ.turn o j) := by
  refine ⟨fun p hp => ?_, h.ready⟩
  rcases List.mem_append.mp hp with hp | hp
  · exact h.pipe p hp
  · obtain ⟨q, hq, rfl⟩ := List.mem_map.mp hp
    exact hj.issue _ q hq

/-- An event starts operations whose commands meet `G`, and the environment's acts keep `I`. -/
def Safe (M : Client S C R L O E) (G : C → Prop) (I : S → Prop) : Event O E → Prop
  | .start o => (M.code o).Issues G
  | .env a => ∀ s, I s → I (M.env a s)
  | .exec | .run _ => True

/-- **One step** keeps an invariant of the server that every command keeps. -/
theorem server_step {G : C → Prop} {I : S → Prop} (hG : ∀ c s, G c → I s → I (M.exec c s).1)
    {σ σ' : Sys S C R L O} {e : Event O E} (he : M.Safe G I e) (h : M.Step σ e σ')
    (hi : IssuesSys G σ ∧ I σ.server) : IssuesSys G σ' ∧ I σ'.server := by
  obtain ⟨hs, hI⟩ := hi
  obtain ⟨o, rfl, rfl⟩ | ⟨p, rest, rfl, hp, rfl⟩ | ⟨a, o, j, b, rfl, hr, rfl⟩ | ⟨a, rfl, rfl⟩ :=
    step_cases h
  · refine ⟨issuesSys_turn ?_ _ he, hI⟩
    exact ⟨hs.pipe, hs.ready⟩
  · obtain ⟨hc, hcb⟩ := hs.pipe p (by rw [hp]; exact List.mem_cons_self)
    refine ⟨⟨fun q hq => hs.pipe q (by rw [hp]; exact List.mem_cons_of_mem _ hq), ?_⟩, hG _ _ hc hI⟩
    intro x hx
    cases hcb' : p.cb with
    | none => exact hs.ready x (by simpa [execute, hcb'] using hx)
    | some cb =>
      simp only [execute, hcb', List.mem_append, List.mem_singleton] at hx
      rcases hx with hx | rfl
      · exact hs.ready x hx
      · exact hcb cb hcb' _
  · have hj : j.Issues G := hs.ready (o, j) (by simp [hr])
    refine ⟨issuesSys_turn ?_ o hj, hI⟩
    refine ⟨hs.pipe, fun x hx => hs.ready x ?_⟩
    rw [hr]
    rcases List.mem_append.mp hx with hx | hx <;> simp [hx]
  · exact ⟨⟨hs.pipe, hs.ready⟩, he _ hI⟩

/-- **Every run** of operations whose commands all keep an invariant of the server, whatever the
interleaving: the invariant holds, and every command still to come keeps it. -/
theorem issuesSys_of_runs {G : C → Prop} {I : S → Prop} (hG : ∀ c s, G c → I s → I (M.exec c s).1)
    {s : S} {σ : Sys S C R L O} {evs : List (Event O E)}
    (h : M.Runs (fun _ e => M.Safe G I e) (M.fresh s) evs σ) (hs : I s) :
    IssuesSys G σ ∧ I σ.server := by
  refine h.inv (I := fun τ => IssuesSys G τ ∧ I τ.server)
    (fun _ _ _ hi he hst => server_step hG he hst hi) ⟨⟨?_, ?_⟩, hs⟩
  · simp [fresh]
  · simp [fresh]

theorem server_of_runs {G : C → Prop} {I : S → Prop} (hG : ∀ c s, G c → I s → I (M.exec c s).1)
    {s : S} {σ : Sys S C R L O} {evs : List (Event O E)}
    (h : M.Runs (fun _ e => M.Safe G I e) (M.fresh s) evs σ) (hs : I s) : I σ.server :=
  (issuesSys_of_runs hG h hs).2

/-- A complete run of an operation, alone, keeps it too. -/
theorem server_inv_of_completes {G : C → Prop} {I : S → Prop}
    (hG : ∀ c s, G c → I s → I (M.exec c s).1) {o : O} {s s' : S} {l : L}
    (ho : (M.code o).Issues G) (h : M.Completes o s s' l) (hs : I s) : I s' := by
  obtain ⟨evs, σ, hrun, -, rfl, -⟩ := h
  refine server_of_runs hG (Steps.cons ?_ (M.step_start o s) (hrun.mono fun _ e he => ?_)) hs
  · exact ho
  · cases e with
    | exec | run => trivial
    | start | env => exact he.elim

/-! ## The effect of an operation alone -/

variable (M)

/-- What a turn and all its callbacks do to the server, each callback after the commands that
follow it in its turn. -/
def effect : Prog C R L → S → S
  | .done, s => s
  | .send c next, s => effect next (M.exec c s).1
  | .call c cb next, s => effect (cb (M.exec c s).2) (effect next (M.exec c s).1)
  | .upd _ _, s => s

/-- `effect` of issued commands. -/
def effectPipe : List (C × Option (R → Prog C R L)) → S → S
  | [], s => s
  | (c, none) :: rest, s => effectPipe rest (M.exec c s).1
  | (c, some cb) :: rest, s => M.effect (cb (M.exec c s).2) (effectPipe rest (M.exec c s).1)

/-- The final server that the pending commands and callbacks of `σ` lead to. -/
def outlook (σ : Sys S C R L O) : S :=
  σ.ready.foldr (fun x s => M.effect x.2 s)
    (M.effectPipe (σ.pipe.map fun p => (p.cmd, p.cb)) σ.server)

variable {M}

theorem effect_quiet {j : Prog C R L} (h : j.Quiet) (s : S) : M.effect j s = s := by
  cases j with
  | done => rfl
  | send => exact h.elim
  | call => exact h.elim
  | upd f k => rfl

/-- The commands of a turn have the turn's effect. -/
theorem effectPipe_issue {j : Prog C R L} (h : j.Linear) (l : L) (s : S) :
    M.effectPipe (j.issue l).1 s = M.effect j s := by
  induction j generalizing l s with
  | done => rfl
  | send c next ih => exact ih h l _
  | call c cb next _ ih =>
    have hn : next.Linear := h.elim (·.2) (·.1.linear)
    simp only [Prog.issue, effectPipe, effect, ih hn]
  | upd f k ih =>
    rw [Prog.issue, ih _ (h _).linear, effect_quiet (h _)]
    rfl

/-- The callback of a pending command issues no command. -/
def QuietCb (cb : Option (R → Prog C R L)) : Prop := ∀ f, cb = some f → ∀ r, (f r).Quiet

theorem effectPipe_append {a b : List (C × Option (R → Prog C R L))} (ha : ∀ p ∈ a, QuietCb p.2)
    (s : S) : M.effectPipe (a ++ b) s = M.effectPipe b (M.effectPipe a s) := by
  induction a generalizing s with
  | nil => rfl
  | cons p a ih =>
    obtain ⟨c, cb⟩ := p
    have ih := ih fun q hq => ha q (List.mem_cons_of_mem _ hq)
    cases cb with
    | none => exact ih _
    | some cb =>
      have hq := ha _ List.mem_cons_self cb rfl
      simp only [List.cons_append, effectPipe, ih, effect_quiet (hq _)]

theorem foldr_effect_quiet {l : List (Nat × Prog C R L)} (h : ∀ x ∈ l, x.2.Quiet) (s : S) :
    l.foldr (fun x s => M.effect x.2 s) s = s := by
  induction l with
  | nil => rfl
  | cons x l ih =>
    rw [List.foldr_cons, ih fun y hy => h y (List.mem_cons_of_mem _ hy),
      effect_quiet (h x List.mem_cons_self)]

/-- All items of the list are `q`, but at most one, which is `w`. -/
def Single {α : Type} (q w : α → Prop) : List α → Prop
  | [] => True
  | x :: xs => (q x ∧ Single q w xs) ∨ (w x ∧ ∀ y ∈ xs, q y)

section Single

variable {α : Type} {q w : α → Prop} {a b : List α} {x : α}

theorem Single.of_all (h : ∀ y ∈ a, q y) : Single q w a := by
  induction a with
  | nil => trivial
  | cons y a ih =>
    exact .inl ⟨h y List.mem_cons_self, ih fun z hz => h z (List.mem_cons_of_mem _ hz)⟩

theorem Single.append_right (h : Single q w a) (hb : ∀ y ∈ b, q y) : Single q w (a ++ b) := by
  induction a with
  | nil => exact .of_all hb
  | cons y a ih =>
    rcases h with ⟨hy, ha⟩ | ⟨hy, ha⟩
    · exact .inl ⟨hy, ih ha⟩
    · exact .inr ⟨hy, fun z hz => (List.mem_append.mp hz).elim (ha z) (hb z)⟩

theorem Single.append_left (ha : ∀ y ∈ a, q y) (h : Single q w b) : Single q w (a ++ b) := by
  induction a with
  | nil => exact h
  | cons y a ih =>
    exact .inl ⟨ha y List.mem_cons_self, ih fun z hz => ha z (List.mem_cons_of_mem _ hz)⟩

/-- One item of the list is `q` and the rest keeps the property, or it is `w` and the rest
is `q`. -/
theorem Single.split (h : Single q w (a ++ x :: b)) :
    (q x ∧ Single q w (a ++ b)) ∨ (w x ∧ ∀ y ∈ a ++ b, q y) := by
  induction a with
  | nil => exact h
  | cons y a ih =>
    rcases h with ⟨hy, h⟩ | ⟨hy, h⟩
    · rcases ih h with ⟨hx, hr⟩ | ⟨hx, hr⟩
      · exact .inl ⟨hx, .inl ⟨hy, hr⟩⟩
      · exact .inr ⟨hx, fun z hz => (List.mem_cons.mp hz).elim (· ▸ hy) (hr z)⟩
    · refine .inl ⟨h x (by simp), .inr ⟨hy, fun z hz => h z ?_⟩⟩
      rcases List.mem_append.mp hz with hz | hz <;> simp [hz]

end Single

/-- The callback of a pending command is `Linear`. -/
def LinearCb (cb : Option (R → Prog C R L)) : Prop := ∀ f, cb = some f → ∀ r, (f r).Linear

theorem single_issue {j : Prog C R L} (h : j.Linear) (l : L) :
    Single (fun p => QuietCb p.2) (fun p => LinearCb p.2) (j.issue l).1 := by
  induction j generalizing l with
  | done => trivial
  | send c next ih => exact .inl ⟨by rintro f ⟨⟩, ih h l⟩
  | call c cb next _ ih =>
    rcases h with ⟨hq, hn⟩ | ⟨hn, hl⟩
    · exact .inl ⟨by rintro f ⟨⟩; exact hq, ih hn l⟩
    · exact .inr ⟨by rintro f ⟨⟩; exact hl, by simp [hn.issue_eq l]⟩
  | upd f k ih => exact ih _ (h _).linear _

/-- At most one pending callback issues commands, and it is `Linear`. -/
def OneActive (σ : Sys S C R L O) : Prop :=
  (Single (·.2.Quiet) (·.2.Linear) σ.ready ∧ ∀ p ∈ σ.pipe, QuietCb p.cb) ∨
  ((∀ x ∈ σ.ready, x.2.Quiet) ∧ Single (fun p => QuietCb p.cb) (fun p => LinearCb p.cb) σ.pipe)

theorem single_map_pending {b : List (C × Option (R → Prog C R L))} (o : Nat)
    (h : Single (fun p => QuietCb p.2) (fun p => LinearCb p.2) b) :
    Single (fun p : Pending C R L => QuietCb p.cb) (fun p => LinearCb p.cb)
      (b.map fun p => ⟨o, p.1, p.2⟩) := by
  induction b with
  | nil => trivial
  | cons p b ih =>
    rcases h with ⟨hp, h⟩ | ⟨hp, h⟩
    · exact .inl ⟨hp, ih h⟩
    · refine .inr ⟨hp, fun y hy => ?_⟩
      obtain ⟨z, hz, rfl⟩ := List.mem_map.mp hy
      exact h z hz

theorem pipe_cmds (σ : Sys S C R L O) (o : Nat) (j : Prog C R L) :
    (σ.turn o j).pipe.map (fun p => (p.cmd, p.cb)) =
      σ.pipe.map (fun p => (p.cmd, p.cb)) ++ (j.issue (σ.vars o)).1 := by
  simp [Sys.turn, Function.comp_def]

theorem foldr_ready_insert {a b : List (Nat × Prog C R L)} {x : Nat × Prog C R L}
    (hx : x.2.Quiet) (s : S) :
    (a ++ x :: b).foldr (fun x s => M.effect x.2 s) s =
      (a ++ b).foldr (fun x s => M.effect x.2 s) s := by
  simp [List.foldr_append, effect_quiet hx]

/-- Executing a command keeps what the system leads to. -/
theorem outlook_execute {σ : Sys S C R L O} {p : Pending C R L} {rest : List (Pending C R L)}
    (hp : σ.pipe = p :: rest) : M.outlook (M.execute σ p rest) = M.outlook σ := by
  obtain ⟨o, c, cb⟩ := p
  cases cb <;> simp [outlook, execute, hp, effectPipe]

/-- Running a callback keeps what the system leads to, if it is quiet or the only active one. -/
theorem outlook_run {σ : Sys S C R L O} {a b : List (Nat × Prog C R L)} {o : Nat}
    {j : Prog C R L} (hr : σ.ready = a ++ (o, j) :: b) (h : j.Quiet ∨ (j.Linear ∧
      (∀ x ∈ a ++ b, x.2.Quiet) ∧ ∀ p ∈ σ.pipe, QuietCb p.cb)) :
    M.outlook ({ σ with ready := a ++ b }.turn o j) = M.outlook σ := by
  unfold outlook
  rw [pipe_cmds, hr]
  rcases h with hq | ⟨hl, hab, hpipe⟩
  · rw [foldr_ready_insert hq]
    simp [Sys.turn, hq.issue_eq]
  · rw [effectPipe_append fun p hp => by
      obtain ⟨q, hq, rfl⟩ := List.mem_map.mp hp; exact hpipe q hq]
    rw [effectPipe_issue hl, Sys.turn_ready, foldr_effect_quiet hab, List.foldr_append,
      List.foldr_cons, foldr_effect_quiet fun x hx => hab x (List.mem_append_left _ hx),
      foldr_effect_quiet fun x hx => hab x (List.mem_append_right _ hx)]
    rfl

/-- **One internal step** keeps that at most one callback is active, and the final server. -/
theorem oneActive_step {σ σ' : Sys S C R L O} {e : Event O E} (hi : e.Internal)
    (h : M.Step σ e σ') (ha : OneActive σ) : OneActive σ' ∧ M.outlook σ' = M.outlook σ := by
  obtain ⟨p, rest, hp, rfl⟩ | ⟨a, o, j, b, hr, rfl⟩ := internal_cases hi h
  · refine ⟨?_, outlook_execute hp⟩
    obtain ⟨op, c, cb⟩ := p
    rcases ha with ⟨hr, hq⟩ | ⟨hr, hs⟩
    · rw [hp] at hq
      refine .inl ⟨?_, fun x hx => hq x (List.mem_cons_of_mem _ hx)⟩
      have hcb := hq _ List.mem_cons_self
      cases cb with
      | none => exact hr
      | some cb => exact hr.append_right (by simpa using hcb cb rfl _)
    · rw [hp] at hs
      cases cb with
      | none => exact .inr ⟨hr, hs.elim (·.2) (.of_all ·.2)⟩
      | some cb =>
        rcases hs with ⟨hq, hs⟩ | ⟨hl, hs⟩
        · refine .inr ⟨fun x hx => ?_, hs⟩
          rcases List.mem_append.mp hx with hx | hx
          · exact hr x hx
          · simp only [List.mem_singleton] at hx
            subst hx
            exact hq cb rfl _
        · exact .inl ⟨.append_left hr (.inr ⟨hl cb rfl _, by simp⟩), hs⟩
  · rcases ha with ⟨hs, hq⟩ | ⟨hrq, hs⟩
    · rw [hr] at hs
      rcases hs.split with ⟨hj, hab⟩ | ⟨hj, hab⟩
      · refine ⟨.inl ⟨hab, fun p hp => ?_⟩, outlook_run hr (.inl hj)⟩
        simp only [Sys.turn, Prog.Quiet.issue_eq hj, List.map_nil, List.append_nil] at hp
        exact hq p hp
      · refine ⟨.inr ⟨hab, ?_⟩, outlook_run hr (.inr ⟨hj, hab, hq⟩)⟩
        exact .append_left hq (single_map_pending o (single_issue hj _))
    · rw [hr] at hrq
      have hj : j.Quiet := hrq (o, j) (by simp)
      refine ⟨.inr ⟨fun x hx => hrq x ?_, ?_⟩, outlook_run hr (.inl hj)⟩
      · rcases List.mem_append.mp hx with hx | hx <;> simp [hx]
      · simpa [Sys.turn, hj.issue_eq] using hs

/-- **Every complete run of a linear operation, alone, has the operation's effect.** -/
theorem effect_of_completes {o : O} {s s' : S} {l : L} (hl : (M.code o).Linear)
    (h : M.Completes o s s' l) : s' = M.effect (M.code o) s := by
  obtain ⟨evs, σ, hrun, ⟨hpipe, hready⟩, rfl, -⟩ := h
  have h0 : OneActive (M.started o s) ∧ M.outlook (M.started o s) = M.effect (M.code o) s := by
    refine ⟨.inr ⟨by simp [started, fresh, Sys.turn], ?_⟩, ?_⟩
    · exact single_map_pending 0 (single_issue hl _)
    · unfold outlook
      rw [started, pipe_cmds]
      exact effectPipe_issue hl _ _
  have hinv := hrun.inv (I := fun τ => OneActive τ ∧ M.outlook τ = M.effect (M.code o) s)
    (fun τ e τ' hτ he hst => by
      obtain ⟨h1, h2⟩ := oneActive_step he hst hτ.1
      exact ⟨h1, h2.trans hτ.2⟩) h0
  rw [← hinv.2]
  simp [outlook, hpipe, hready, effectPipe]

/-! ## Up to the first turn with several pending callbacks -/

/-- Commands that are left to execute, a server, and closure variables. -/
abbrev Front (S C R L : Type) := List (C × Option (R → Prog C R L)) × S × L

variable (M)

/-- How far a turn and its callbacks, alone, run without a choice: to the first command with a callback
that is followed by another command, or to the end (no command left). -/
def front : Prog C R L → S → L → Front S C R L
  | .done, s, l => ([], s, l)
  | .send c next, s, l => front next (M.exec c s).1 l
  | .call c cb next, s, l =>
    match next.issue l with
    | ([], l') => front (cb (M.exec c s).2) (M.exec c s).1 l'
    | (q :: rest, l') => ((c, some cb) :: q :: rest, s, l')
  | .upd f k, s, l => front (k (f l)) s (f l)

/-- `front` of issued commands. -/
def frontPipe : List (C × Option (R → Prog C R L)) → S → L → Front S C R L
  | [], s, l => ([], s, l)
  | (c, none) :: rest, s, l => frontPipe rest (M.exec c s).1 l
  | [(c, some cb)], s, l => M.front (cb (M.exec c s).2) (M.exec c s).1 l
  | (c, some cb) :: q :: rest, s, l => ((c, some cb) :: q :: rest, s, l)

variable {M}

theorem frontPipe_issue (j : Prog C R L) (s : S) (l : L) :
    M.frontPipe (j.issue l).1 s (j.issue l).2 = M.front j s l := by
  induction j generalizing s l with
  | done => rfl
  | send c next ih => exact ih _ l
  | call c cb next _ _ =>
    simp only [Prog.issue, front]
    split
    · rename_i l' h
      rw [h]
      rfl
    · rename_i q rest l' h
      rw [h]
      rfl
  | upd f k ih => exact ih _ s (f l)

/-- The system is at the front `x` of operation `0`. -/
structure At (x : Front S C R L) (σ : Sys S C R L O) : Prop where
  ready : σ.ready = []
  pipe : σ.pipe.map (fun p => (p.cmd, p.cb)) = x.1
  server : σ.server = x.2.1
  vars : σ.vars 0 = x.2.2
  op : ∀ p ∈ σ.pipe, p.op = 0

/-- The run of operation `0` alone is on its way to the front `x`. -/
def Toward (M : Client S C R L O E) (x : Front S C R L) (σ : Sys S C R L O) : Prop :=
  (σ.ready = [] ∧ M.frontPipe (σ.pipe.map fun p => (p.cmd, p.cb)) σ.server (σ.vars 0) = x ∧
    ∀ p ∈ σ.pipe, p.op = 0) ∨
  (∃ j, σ.ready = [(0, j)] ∧ σ.pipe = [] ∧ M.front j σ.server (σ.vars 0) = x)

theorem toward_turn {x : Front S C R L} {σ : Sys S C R L O} {j : Prog C R L} (hr : σ.ready = [])
    (hp : σ.pipe = []) (h : M.front j σ.server (σ.vars 0) = x) : Toward M x (σ.turn 0 j) := by
  refine .inl ⟨hr, ?_, ?_⟩
  · rw [pipe_cmds, hp, ← h, ← frontPipe_issue]
    simp [Sys.turn]
  · simp only [Sys.turn, hp, List.nil_append, List.mem_map]
    rintro p ⟨q, -, rfl⟩
    rfl

/-- One step on the way to the front, or away from it. -/
theorem toward_step {x : Front S C R L} {σ σ' : Sys S C R L O} {e : Event O E} (hi : e.Internal)
    (h : M.Step σ e σ') (hx : Toward M x σ) : Toward M x σ' ∨ At x σ := by
  obtain ⟨p, rest, hp, rfl⟩ | ⟨a, o, j, b, hr, rfl⟩ := internal_cases hi h
  · rcases hx with ⟨hr, hx, h0⟩ | ⟨j, -, hp', -⟩
    · obtain ⟨op, c, cb⟩ := p
      obtain rfl : op = 0 := h0 _ (by rw [hp]; exact List.mem_cons_self)
      cases cb with
      | none =>
        rw [hp] at hx h0
        exact .inl (.inl ⟨hr, hx, fun q hq => h0 q (List.mem_cons_of_mem _ hq)⟩)
      | some cb =>
        cases rest with
        | nil =>
          rw [hp] at hx
          exact .inl (.inr ⟨_, by simp [execute, hr], rfl, hx⟩)
        | cons q rest =>
          have hx' := hx
          rw [hp] at hx'
          exact .inr ⟨hr, by rw [hp, ← hx']; rfl, by rw [← hx']; rfl, by rw [← hx']; rfl, h0⟩
    · rw [hp'] at hp
      cases hp
  · rcases hx with ⟨hr', -⟩ | ⟨j', hr', hp, hx⟩
    · rw [hr'] at hr
      simp at hr
    · rw [hr'] at hr
      obtain ⟨rfl, hj⟩ : a = [] ∧ [(0, j')] = (o, j) :: b := by
        cases a with
        | nil => exact ⟨rfl, hr⟩
        | cons y a => simp at hr
      cases hj
      exact .inl (toward_turn rfl hp hx)

theorem at_of_toward {x : Front S C R L} {σ σ' : Sys S C R L O} {evs : List (Event O E)}
    (hx : Toward M x σ) (hrun : M.Runs (fun _ e => e.Internal) σ evs σ') (hidle : σ'.Idle) :
    ∃ σ₀ evs', At x σ₀ ∧ M.Runs (fun _ e => e.Internal) σ₀ evs' σ' := by
  induction hrun with
  | nil σ =>
    refine ⟨σ, [], ?_, .nil _⟩
    rcases hx with ⟨hr, hx, h0⟩ | ⟨j, h, -⟩
    · rw [hidle.1] at hx
      exact ⟨hr, by rw [hidle.1, ← hx]; rfl, by rw [← hx]; rfl, by rw [← hx]; rfl, h0⟩
    · rw [hidle.2] at h
      cases h
  | cons hi hst hrun ih =>
    rcases toward_step hi hst hx with hx' | hat
    · exact ih hx' hidle
    · exact ⟨_, _, hat, .cons hi hst hrun⟩

/-- **Every complete run of an operation, alone, passes its front.** -/
theorem front_of_completes {o : O} {s s' : S} {l : L} (h : M.Completes o s s' l) :
    ∃ (σ₀ σ : Sys S C R L O) (evs : List (Event O E)), At (M.front (M.code o) s M.init) σ₀ ∧
      M.Runs (fun _ e => e.Internal) σ₀ evs σ ∧ σ.Idle ∧ σ.server = s' ∧ σ.vars 0 = l := by
  obtain ⟨evs, σ, hrun, hidle, hs, hl⟩ := h
  have h0 : Toward M (M.front (M.code o) s M.init) (M.started o s) := toward_turn rfl rfl rfl
  obtain ⟨σ₀, evs', hat, hrun'⟩ := at_of_toward h0 hrun hidle
  exact ⟨σ₀, σ, evs', hat, hrun', hidle, hs, hl⟩

/-- **A run without a choice** ends at its front. -/
theorem end_of_completes {o : O} {s s' : S} {l : L} {x : S × L}
    (hx : M.front (M.code o) s M.init = ([], x)) (h : M.Completes o s s' l) : (s', l) = x := by
  obtain ⟨σ₀, σ, evs, hat, hrun, -, rfl, rfl⟩ := front_of_completes h
  rw [hx] at hat
  have hp : σ₀.pipe = [] := List.map_eq_nil_iff.mp hat.pipe
  cases hrun with
  | nil => exact Prod.ext hat.server hat.vars
  | cons hi hst _ =>
    obtain ⟨p, rest, h, -⟩ | ⟨a, o, j, b, h, -⟩ := internal_cases hi hst
    · rw [hp] at h
      cases h
    · rw [hat.ready] at h
      simp at h

/-! ## Properties of the closure variables -/

/-- The turn and its callbacks keep the property `I` of the closure variables. -/
def Keeps (I : L → Prop) : Prog C R L → Prop
  | .done => True
  | .send _ next => Keeps I next
  | .call _ cb next => (∀ r, Keeps I (cb r)) ∧ Keeps I next
  | .upd f k => ∀ l, I l → I (f l) ∧ Keeps I (k (f l))

/-- The callback of a pending command keeps `I`. -/
def KeepsCb (I : L → Prop) (cb : Option (R → Prog C R L)) : Prop :=
  ∀ f, cb = some f → ∀ r, Keeps I (f r)

theorem keeps_issue {I : L → Prop} {j : Prog C R L} (hj : Keeps I j) {l : L} (hl : I l) :
    I (j.issue l).2 ∧ ∀ p ∈ (j.issue l).1, KeepsCb I p.2 := by
  induction j generalizing l with
  | done => exact ⟨hl, by simp [Prog.issue]⟩
  | send c next ih =>
    obtain ⟨h1, h2⟩ := ih hj hl
    refine ⟨h1, fun p hp => ?_⟩
    rcases List.mem_cons.mp hp with rfl | hp
    · rintro f ⟨⟩
    · exact h2 p hp
  | call c cb next _ ih =>
    obtain ⟨h1, h2⟩ := ih hj.2 hl
    refine ⟨h1, fun p hp => ?_⟩
    rcases List.mem_cons.mp hp with rfl | hp
    · rintro f ⟨⟩
      exact hj.1
    · exact h2 p hp
  | upd f k ih => exact ih _ (hj l hl).2 (hj l hl).1

/-- All that is left to do in the run of operation `0` alone keeps `I`. -/
structure KeepsSys (I : L → Prop) (σ : Sys S C R L O) : Prop where
  vars : I (σ.vars 0)
  pipe : ∀ p ∈ σ.pipe, p.op = 0 ∧ KeepsCb I p.cb
  ready : ∀ x ∈ σ.ready, x.1 = 0 ∧ Keeps I x.2

theorem keepsSys_step {I : L → Prop} {σ σ' : Sys S C R L O} {e : Event O E} (hi : e.Internal)
    (h : M.Step σ e σ') (hk : KeepsSys I σ) : KeepsSys I σ' := by
  obtain ⟨p, rest, hp, rfl⟩ | ⟨a, o, j, b, hr, rfl⟩ := internal_cases hi h
  · obtain ⟨op, c, cb⟩ := p
    obtain ⟨h0, hcb⟩ := hk.pipe _ (by rw [hp]; exact List.mem_cons_self)
    refine ⟨hk.vars, fun q hq => hk.pipe q (by rw [hp]; exact List.mem_cons_of_mem _ hq), ?_⟩
    cases cb with
    | none => exact hk.ready
    | some cb =>
      intro x hx
      rcases List.mem_append.mp hx with hx | hx
      · exact hk.ready x hx
      · simp only [List.mem_singleton] at hx
        subst hx
        exact ⟨h0, hcb cb rfl _⟩
  · obtain ⟨rfl, hj⟩ := hk.ready (o, j) (by simp [hr])
    obtain ⟨h1, h2⟩ := keeps_issue hj hk.vars
    refine ⟨by simpa [Sys.turn] using h1, fun p hp => ?_, fun x hx => hk.ready x ?_⟩
    · rcases List.mem_append.mp hp with hp | hp
      · exact hk.pipe p hp
      · obtain ⟨q, hq, rfl⟩ := List.mem_map.mp hp
        exact ⟨rfl, h2 q hq⟩
    · rw [hr]
      rcases List.mem_append.mp hx with hx | hx <;> simp [hx]

theorem keeps_front {I : L → Prop} {j : Prog C R L} (hj : Keeps I j) (s : S) {l : L} (hl : I l) :
    I (M.front j s l).2.2 ∧ ∀ p ∈ (M.front j s l).1, KeepsCb I p.2 := by
  induction j generalizing s l with
  | done => exact ⟨hl, by simp [front]⟩
  | send c next ih => exact ih hj _ hl
  | call c cb next ihcb _ =>
    obtain ⟨h1, h2⟩ := keeps_issue hj.2 hl
    simp only [front]
    split
    · rename_i l' h
      rw [h] at h1
      exact ihcb _ (hj.1 _) _ h1
    · rename_i q rest l' h
      rw [h] at h1 h2
      refine ⟨h1, fun p hp => ?_⟩
      rcases List.mem_cons.mp hp with rfl | hp
      · rintro f ⟨⟩
        exact hj.1
      · exact h2 p hp
  | upd f k ih => exact ih _ (hj l hl).2 s (hj l hl).1

/-- **A property of the variables** that holds before the turn `j`, which the run reaches without a
choice and which keeps it, holds at the end of every complete run. -/
theorem vars_of_completes {I : L → Prop} {o : O} {s s₁ s' : S} {l l₁ : L} {j : Prog C R L}
    (hx : M.front (M.code o) s M.init = M.front j s₁ l₁) (hI : I l₁) (hj : Keeps I j)
    (h : M.Completes o s s' l) : I l := by
  obtain ⟨σ₀, σ, evs, hat, hrun, -, rfl, rfl⟩ := front_of_completes h
  obtain ⟨h1, h2⟩ := keeps_front (M := M) hj s₁ hI
  rw [hx] at hat
  have h0 : KeepsSys I σ₀ := by
    refine ⟨by rw [hat.vars]; exact h1, fun p hp => ⟨hat.op p hp, ?_⟩, by simp [hat.ready]⟩
    exact h2 (p.cmd, p.cb) (by rw [← hat.pipe]; exact List.mem_map_of_mem hp)
  exact (hrun.inv (fun _ _ _ hk hi hst => keepsSys_step hi hst hk) h0).vars

/-! ## A burst of reads

A turn that only reads, with callbacks that issue nothing, leaves one choice: the order in which the
callbacks run. -/

/-- The closure variables after quiet turns. -/
def runTurns (js : List (Prog C R L)) (l : L) : L := js.foldl (fun l j => (j.issue l).2) l

/-- The turns that the replies to the commands make ready, if the server is `s` for each of them. -/
def replies (M : Client S C R L O E) (s : S) (cmds : List (C × Option (R → Prog C R L))) :
    List (Prog C R L) :=
  cmds.filterMap fun p => p.2.map fun cb => cb (M.exec p.1 s).2

/-- The command reads the server `s`, and its callback issues nothing. -/
def ReadsQuietly (M : Client S C R L O E) (s : S) (p : C × Option (R → Prog C R L)) : Prop :=
  (M.exec p.1 s).1 = s ∧ QuietCb p.2

theorem front_quiet {j : Prog C R L} (h : j.Quiet) (s : S) (l : L) :
    M.front j s l = ([], s, (j.issue l).2) := by
  rw [← frontPipe_issue, h.issue_eq]
  rfl

/-- How far a burst of reads runs without a choice: some of its callbacks have run, in order. -/
theorem frontPipe_reads {s : S} {cmds : List (C × Option (R → Prog C R L))}
    (h : ∀ p ∈ cmds, ReadsQuietly M s p) (l : L) : ∃ done cmds',
      M.frontPipe cmds s l = (cmds', s, runTurns done l) ∧
      replies M s cmds = done ++ replies M s cmds' ∧ ∀ p ∈ cmds', ReadsQuietly M s p := by
  induction cmds with
  | nil => exact ⟨[], [], rfl, rfl, h⟩
  | cons p rest ih =>
    obtain ⟨c, cb⟩ := p
    obtain ⟨hread, hquiet⟩ := h _ List.mem_cons_self
    cases cb with
    | none =>
      obtain ⟨done, cmds', hfront, hreplies, hcmds⟩ := ih fun q hq => h q (List.mem_cons_of_mem _ hq)
      refine ⟨done, cmds', ?_, hreplies, hcmds⟩
      rw [← hfront, frontPipe, hread]
    | some cb =>
      cases rest with
      | nil =>
        refine ⟨[cb (M.exec c s).2], [], ?_, rfl, by simp⟩
        rw [frontPipe, front_quiet (hquiet cb rfl _), hread]
        rfl
      | cons q rest => exact ⟨[], _, rfl, rfl, h⟩

/-- The run of a burst of reads, alone: the callbacks `done` have run, the others of `all` wait for
their turn or for their reply. -/
structure InBurst (M : Client S C R L O E) (s : S) (l : L) (all : List (Prog C R L))
    (σ : Sys S C R L O) : Prop where
  server : σ.server = s
  pipe : ∀ p ∈ σ.pipe, p.op = 0 ∧ ReadsQuietly M s (p.cmd, p.cb)
  ready : ∀ x ∈ σ.ready, x.1 = 0 ∧ x.2.Quiet
  vars : ∃ done, σ.vars 0 = runTurns done l ∧ List.Perm
    (done ++ (σ.ready.map Prod.snd ++ replies M s (σ.pipe.map fun p => (p.cmd, p.cb)))) all

/-- **One step of a burst.** -/
theorem inBurst_step {s : S} {l : L} {all : List (Prog C R L)} {σ σ' : Sys S C R L O}
    {e : Event O E} (hi : e.Internal) (h : M.Step σ e σ') (hb : InBurst M s l all σ) :
    InBurst M s l all σ' := by
  obtain ⟨done, hvars, hperm⟩ := hb.vars
  obtain ⟨⟨op, c, cb⟩, rest, hp, rfl⟩ | ⟨a, o, j, b, hr, rfl⟩ := internal_cases hi h
  · obtain ⟨h0, hread, hquiet⟩ := hb.pipe _ (by rw [hp]; exact List.mem_cons_self)
    have hserver : (M.exec c σ.server).1 = s := by rw [hb.server]; exact hread
    have hrest : ∀ p ∈ rest, p.op = 0 ∧ ReadsQuietly M s (p.cmd, p.cb) := fun p hmem =>
      hb.pipe p (by rw [hp]; exact List.mem_cons_of_mem _ hmem)
    rw [hp] at hperm
    cases cb with
    | none => exact ⟨hserver, hrest, hb.ready, done, hvars, hperm⟩
    | some cb =>
      refine ⟨hserver, hrest, fun x hx => ?_, done, hvars, ?_⟩
      · rcases List.mem_append.mp hx with hx | hx
        · exact hb.ready x hx
        · rw [List.mem_singleton.mp hx]
          exact ⟨h0, hquiet cb rfl _⟩
      · simpa [execute, replies, hb.server] using hperm
  · obtain ⟨rfl, hj⟩ := hb.ready (o, j) (by simp [hr])
    have hissue : (j.issue (σ.vars 0)).1 = [] := hj.issue_eq _
    refine ⟨hb.server, ?_, fun x hx => hb.ready x ?_, done ++ [j], ?_, ?_⟩
    · simpa [Sys.turn, hissue] using hb.pipe
    · rw [hr]
      rcases List.mem_append.mp hx with hx | hx <;> simp [hx]
    · simp [Sys.turn, runTurns, hvars]
    · refine List.Perm.trans ?_ hperm
      rw [pipe_cmds, hr]
      simp only [hissue, List.append_nil, Sys.turn_ready, List.map_append, List.map_cons,
        List.append_assoc, List.singleton_append]
      exact List.Perm.append_left _ (List.perm_middle.symm.trans (by simp))

/-- **A burst of reads runs all its callbacks, in some order**: at the end of every complete run that
reaches it without a choice, the variables are those after the turns for its replies, once each. -/
theorem vars_of_burst {o : O} {s s₁ s' : S} {l l₁ : L} {j : Prog C R L}
    (hx : M.front (M.code o) s M.init = M.front j s₁ l₁)
    (hj : ∀ p ∈ (j.issue l₁).1, ReadsQuietly M s₁ p) (h : M.Completes o s s' l) :
    ∃ order, order.Perm (replies M s₁ (j.issue l₁).1) ∧
      l = runTurns order (j.issue l₁).2 := by
  obtain ⟨σ₀, σ, evs, hat, hrun, hidle, -, rfl⟩ := front_of_completes h
  obtain ⟨done, cmds', hfront, hreplies, hcmds⟩ := frontPipe_reads hj (j.issue l₁).2
  rw [hx, ← frontPipe_issue, hfront] at hat
  have h0 : InBurst M s₁ (j.issue l₁).2 (replies M s₁ (j.issue l₁).1) σ₀ := by
    refine ⟨hat.server, fun p hp => ⟨hat.op p hp, hcmds _ ?_⟩, by simp [hat.ready], done, hat.vars, ?_⟩
    · have hmem : (p.cmd, p.cb) ∈ σ₀.pipe.map fun p => (p.cmd, p.cb) := List.mem_map_of_mem hp
      rwa [hat.pipe] at hmem
    · rw [hat.ready, hat.pipe, hreplies]
      exact .refl _
  obtain ⟨order, hvars, hperm⟩ :=
    (hrun.inv (fun _ _ _ hb hi hst => inBurst_step hi hst hb) h0).vars
  rw [hidle.1, hidle.2] at hperm
  exact ⟨order, by simpa [replies] using hperm, hvars⟩

/-! ## Every operation can run to its end -/

/-- Every system from which the ready callback `j` is the last thing left to do can become idle. -/
def Drains (M : Client S C R L O E) (j : Prog C R L) : Prop :=
  ∀ (σ : Sys S C R L O) (o : Nat) (a : List (Nat × Prog C R L)), σ.pipe = [] →
    σ.ready = a ++ [(o, j)] → ∃ evs σ', M.Runs (fun _ e => e.Internal) σ evs σ' ∧ σ'.pipe = [] ∧
      σ'.ready = a

/-- The pending commands can all be executed. -/
theorem exec_all (σ : Sys S C R L O) : ∃ evs σ' b, M.Runs (fun _ e => e.Internal) σ evs σ' ∧
    σ'.pipe = [] ∧ σ'.ready = σ.ready ++ b ∧
    ∀ x ∈ b, ∃ p ∈ σ.pipe, ∃ cb r, p.cb = some cb ∧ x.2 = cb r := by
  obtain ⟨s, pipe, ready, ops, vars⟩ := σ
  induction pipe generalizing s ready with
  | nil => exact ⟨[], _, [], .nil _, rfl, by simp, by simp⟩
  | cons p rest ih =>
    obtain ⟨o, c, cb⟩ := p
    cases cb with
    | none =>
      obtain ⟨evs, σ', b, hrun, hp, hr, hb⟩ := ih (M.exec c s).1 ready
      refine ⟨.exec :: evs, σ', b, .cons trivial rfl hrun, hp, hr, fun x hx => ?_⟩
      obtain ⟨p, hp, h⟩ := hb x hx
      exact ⟨p, List.mem_cons_of_mem _ hp, h⟩
    | some cb =>
      obtain ⟨evs, σ', b, hrun, hp, hr, hb⟩ :=
        ih (M.exec c s).1 (ready ++ [(o, cb (M.exec c s).2)])
      refine ⟨.exec :: evs, σ', (o, cb (M.exec c s).2) :: b, .cons trivial rfl hrun, hp,
        by simpa using hr, fun x hx => ?_⟩
      rcases List.mem_cons.mp hx with rfl | hx
      · exact ⟨_, List.mem_cons_self, cb, _, rfl, rfl⟩
      · obtain ⟨p, hp, h⟩ := hb x hx
        exact ⟨p, List.mem_cons_of_mem _ hp, h⟩

/-- A list of callbacks that each can be run to their end. -/
theorem drain_all {a b : List (Nat × Prog C R L)} (hb : ∀ x ∈ b, Drains M x.2)
    {σ : Sys S C R L O} (hp : σ.pipe = []) (hr : σ.ready = a ++ b) :
    ∃ evs σ', M.Runs (fun _ e => e.Internal) σ evs σ' ∧ σ'.pipe = [] ∧ σ'.ready = a := by
  induction b using List.reverseRecOn generalizing σ with
  | nil => exact ⟨[], σ, .nil _, hp, by simpa using hr⟩
  | append_singleton b x ih =>
    obtain ⟨o, j⟩ := x
    obtain ⟨evs, σ₁, hrun, hp₁, hr₁⟩ :=
      hb (o, j) (by simp) σ o (a ++ b) hp (by rw [hr, List.append_assoc])
    obtain ⟨evs', σ₂, hrun', hp₂, hr₂⟩ := ih (fun y hy => hb y (by simp [hy])) hp₁ hr₁
    exact ⟨evs ++ evs', σ₂, hrun.append hrun', hp₂, hr₂⟩

theorem drains_of_callbacks {j : Prog C R L}
    (h : ∀ l, ∀ p ∈ (j.issue l).1, ∀ cb, p.2 = some cb → ∀ r, Drains M (cb r)) :
    Drains M j := by
  intro σ o a hp hr
  let σ₁ : Sys S C R L O := { σ with ready := a }.turn o j
  have hstep : M.Step σ (.run a.length) σ₁ := by
    simp [Step, step, hr, σ₁, List.eraseIdx_append_of_length_le]
  obtain ⟨evs, σ₂, b, hrun, hp₂, hr₂, hb⟩ := exec_all (M := M) σ₁
  have hcb : ∀ x ∈ b, Drains M x.2 := by
    intro x hx
    obtain ⟨p, hp', cb, r, hcb, hx⟩ := hb x hx
    simp only [σ₁, Sys.turn, hp, List.nil_append, List.mem_map] at hp'
    obtain ⟨q, hq, rfl⟩ := hp'
    rw [hx]
    exact h _ q hq cb hcb r
  obtain ⟨evs', σ₃, hrun', hp₃, hr₃⟩ := drain_all hcb hp₂ hr₂
  exact ⟨.run a.length :: (evs ++ evs'), σ₃, .cons trivial hstep (hrun.append hrun'), hp₃, hr₃⟩

/-- Every callback that a turn registers can be run to its end. -/
theorem drains_issue (j : Prog C R L) :
    ∀ l, ∀ p ∈ (j.issue l).1, ∀ cb, p.2 = some cb → ∀ r, Drains M (cb r) := by
  induction j with
  | done => simp [Prog.issue]
  | send c next ih =>
    intro l p hp cb hcb r
    rcases List.mem_cons.mp hp with rfl | hp
    · cases hcb
    · exact ih l p hp cb hcb r
  | call c f next ihf ih =>
    intro l p hp cb hcb r
    rcases List.mem_cons.mp hp with rfl | hp
    · cases hcb
      exact drains_of_callbacks (ihf r)
    · exact ih l p hp cb hcb r
  | upd f k ih => exact fun l => ih (f l) (f l)

/-- **Every system can become idle.** -/
theorem exists_idle (M : Client S C R L O E) (σ : Sys S C R L O) :
    ∃ evs σ', M.Runs (fun _ e => e.Internal) σ evs σ' ∧ σ'.Idle := by
  obtain ⟨evs, σ₁, b, hrun, hp, hr, -⟩ := exec_all (M := M) σ
  have hdrains : ∀ x ∈ σ.ready ++ b, Drains M x.2 := fun x _ =>
    drains_of_callbacks (drains_issue x.2)
  obtain ⟨evs', σ', hrun', hp', hr'⟩ := drain_all (a := []) hdrains hp (by rw [hr]; rfl)
  exact ⟨evs ++ evs', σ', hrun.append hrun', hp', hr'⟩

/-- **Every operation, started alone, can run to its end.** -/
theorem exists_completes (M : Client S C R L O E) (o : O) (s : S) :
    ∃ s' l, M.Completes o s s' l := by
  obtain ⟨evs, σ, hrun, hidle⟩ := exists_idle M (M.started o s)
  exact ⟨_, _, evs, σ, hrun, hidle, rfl, rfl⟩

end Client
end EventLoop
end QosSupport
