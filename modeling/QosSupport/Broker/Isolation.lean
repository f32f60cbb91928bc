import QosSupport.Broker.Effects

/-!
# Which database a command of the DAO runs in

All operations share one connection, whose selected database is state of the connection. An
operation selects its database (`Op.db`: `0` for credentials, `2` for the rest) and issues its data
commands in the same turn or in a later one, after replies; between the two, another operation may
select another database.

* `InOwnDb`: the next command, if it is a data command, runs in the database of its own operation.
  It fails in a run of two operations (`getCredentials_in_db2`).
* `Exclusive`: no operation selects a database while another one, which uses a different database,
  still has to issue data commands without selecting again (`Waiting`).
* `inOwnDb_of_exclusive`: in every run whose steps are all `Exclusive`, every data command runs in
  the database of its operation.

The invariant (`Aligned`, `Inv`): executing the pipeline in order finds each data command in its
database, and whoever waits to issue data commands uses the database selected at its end.
-/

namespace QosSupport
namespace Broker

open Redis EventLoop Run

/-- The database of the operation with id `i`. -/
def opDb (ops : List Op) (i : Nat) : Nat := (ops[i]?.map Op.db).getD 2

/-- The first command of the turn is a data command: it runs in whatever database is selected. -/
def Needs : P → Prop
  | .done => False
  | .send c _ => c.isData = true
  | .call c _ _ => c.isData = true
  | .upd _ k => ∃ l, Needs (k l)

/-- Operation `o` has a callback, ready or still waiting for its reply, that may issue data commands
without selecting a database. -/
def Waiting (ready : List (Nat × P)) (pipe : List (Pending Cmd Reply Locals)) (o : Nat) : Prop :=
  (∃ j, (o, j) ∈ ready ∧ Needs j) ∨
  (∃ p ∈ pipe, p.op = o ∧ ∃ cb r, p.cb = some cb ∧ Needs (cb r))

/-- The turn `j` of an operation selects a database. -/
def Selects (j : P) (l : Locals) : Prop := ∃ p ∈ (j.issue l).1, p.1.isData = false

/-- The condition on a step: an operation that selects its database finds no other one waiting to
issue data commands in a different database. -/
def Exclusive (σ : DaoSys) : Event Op Env → Prop
  | .start op => ∀ o, Waiting σ.ready σ.pipe o → opDb σ.ops o = op.db
  | .run i => ∀ o j, σ.ready[i]? = some (o, j) → Selects j (σ.vars o) →
      ∀ o', Waiting (σ.ready.eraseIdx i) σ.pipe o' → opDb σ.ops o' = opDb σ.ops o
  | .exec | .env _ => True

/-- The next command of the connection, if it is a data command, runs in the database of its
operation. -/
def InOwnDb (σ : DaoSys) : Prop :=
  ∀ p rest, σ.pipe = p :: rest → p.cmd.isData = true →
    ∃ op, σ.ops[p.op]? = some op ∧ σ.server.selected = op.db

/-! ## What the operations select -/

/-- Every `SELECT` of the program, in this turn or later, is of database `d`. -/
def Uses (d : Nat) : P → Prop := Prog.Issues fun c => c = .select d ∨ c.isData = true

/-- Every operation selects only its own database. -/
theorem uses_code (md5 : String → String) (op : Op) : Uses op.db (op.code md5) := by
  refine (issues_code md5 op).mono fun c hc => ?_
  rcases hc with h | ⟨h, -⟩ | ⟨now, db, h⟩
  · exact .inl h
  · exact .inr h
  · exact .inr (isData_cmds c h)

/-- The first turn of every operation selects its database before any data command. -/
theorem not_needs_code (md5 : String → String) (op : Op) : ¬ Needs (op.code md5) := by
  cases op with
  | addCSPConso t => cases t <;> simp [Op.code, addCSPConso, selectAsync, Needs, Cmd.isData]
  | _ =>
    simp [Op.code, Broker.registerCSP, Broker.registerUser, Broker.getAppropriateTurn, sendAll,
      registerUserCmds, Broker.getCredentials, createTurnCredentials, Broker.getAllCspInfo,
      Broker.getCSPInfos, Broker.getCSPConso, Broker.getTurnServers, Broker.deleteCSP,
      Broker.updateCSPQuotas, selectAsync, Needs, Cmd.isData]

/-! ## The invariant -/

/-- The selected database after a command. -/
def selStep (sel : Nat) : Cmd → Nat
  | .select n => n
  | _ => sel

/-- The selected database after the commands of the pipeline. -/
def after (sel : Nat) (pipe : List (Pending Cmd Reply Locals)) : Nat :=
  pipe.foldl (fun s p => selStep s p.cmd) sel

/-- In order, each data command of the pipeline finds the database of its operation selected. -/
def Aligned (ops : List Op) : Nat → List (Pending Cmd Reply Locals) → Prop
  | _, [] => True
  | sel, p :: rest =>
    (p.cmd.isData = true → sel = opDb ops p.op) ∧ Aligned ops (selStep sel p.cmd) rest

/-- The invariant of the runs whose steps are `Exclusive` (module doc). -/
structure Inv (σ : DaoSys) : Prop where
  pipe : ∀ p ∈ σ.pipe, p.op < σ.ops.length ∧
    (p.cmd = .select (opDb σ.ops p.op) ∨ p.cmd.isData = true) ∧
    ∀ cb, p.cb = some cb → ∀ r, Uses (opDb σ.ops p.op) (cb r)
  ready : ∀ x ∈ σ.ready, x.1 < σ.ops.length ∧ Uses (opDb σ.ops x.1) x.2
  aligned : Aligned σ.ops σ.server.selected σ.pipe
  waiting : ∀ o, Waiting σ.ready σ.pipe o → opDb σ.ops o = after σ.server.selected σ.pipe

theorem opDb_lt (ops : List Op) (i : Nat) : opDb ops i < 16 := by
  unfold opDb
  cases ops[i]? with
  | none => decide
  | some op => cases op <;> simp [Op.db]

theorem opDb_append {ops : List Op} {op : Op} {i : Nat} (h : i < ops.length) :
    opDb (ops ++ [op]) i = opDb ops i := by
  simp [opDb, List.getElem?_append_left h]

theorem opDb_last (ops : List Op) (op : Op) : opDb (ops ++ [op]) ops.length = op.db := by
  simp [opDb]

theorem selStep_data {c : Cmd} (h : c.isData = true) (sel : Nat) : selStep sel c = sel := by
  cases c <;> first | rfl | cases h

/-- A command selects as `selStep` says. -/
theorem exec_selected {c : Cmd} {d : Nat} (hd : d < 16) (h : c = .select d ∨ c.isData = true)
    (s : Server) : (exec c s).1.selected = selStep s.selected c := by
  rcases h with rfl | h
  · simp [exec, hd, selStep]
  · rw [exec_data h, selStep_data h]

theorem aligned_append {ops : List Op} {sel : Nat} {a b : List (Pending Cmd Reply Locals)} :
    Aligned ops sel (a ++ b) ↔ Aligned ops sel a ∧ Aligned ops (after sel a) b := by
  induction a generalizing sel with
  | nil => simp [Aligned, after]
  | cons p a ih => simp only [List.cons_append, Aligned, ih, and_assoc]; rfl

theorem aligned_ops {ops ops' : List Op} {sel : Nat} {pipe : List (Pending Cmd Reply Locals)}
    (h : ∀ p ∈ pipe, opDb ops' p.op = opDb ops p.op) (ha : Aligned ops sel pipe) :
    Aligned ops' sel pipe := by
  induction pipe generalizing sel with
  | nil => trivial
  | cons p pipe ih =>
    refine ⟨fun hd => ?_, ih (fun q hq => h q (List.mem_cons_of_mem _ hq)) ha.2⟩
    rw [h p List.mem_cons_self]
    exact ha.1 hd

/-! ## One turn -/

/-- A turn that does not need a selected database issues nothing, or selects first. -/
theorem issue_head {d : Nat} {j : P} (h : Uses d j) (hn : ¬ Needs j) (l : Locals) :
    (j.issue l).1 = [] ∨ ∃ cb rest, (j.issue l).1 = (.select d, cb) :: rest := by
  induction j generalizing l with
  | done => exact .inl rfl
  | send c next _ =>
    obtain rfl := h.1.resolve_right hn
    exact .inr ⟨_, _, rfl⟩
  | call c cb next _ _ =>
    obtain rfl := h.1.resolve_right hn
    exact .inr ⟨_, _, rfl⟩
  | upd f k ih => exact ih _ (h _) (fun hk => hn ⟨_, hk⟩) _

section Burst

variable {ops : List Op} {o d t : Nat} {b : List (Pending Cmd Reply Locals)}

/-- Commands of an operation with its database selected. -/
theorem aligned_own (hb : ∀ p ∈ b, p.op = o ∧ (p.cmd = .select d ∨ p.cmd.isData = true))
    (ho : opDb ops o = d) : Aligned ops d b ∧ after d b = d := by
  induction b with
  | nil => exact ⟨trivial, rfl⟩
  | cons p b ih =>
    obtain ⟨hp, hc⟩ := hb p List.mem_cons_self
    have hsel : selStep d p.cmd = d := by
      rcases hc with hc | hc
      · rw [hc]
        rfl
      · exact selStep_data hc d
    obtain ⟨h1, h2⟩ := ih fun q hq => hb q (List.mem_cons_of_mem _ hq)
    refine ⟨⟨fun _ => by rw [hp, ho], by rw [hsel]; exact h1⟩, ?_⟩
    show after (selStep d p.cmd) b = d
    rw [hsel]
    exact h2

/-- The same after another database, if they begin with a `SELECT`. -/
theorem aligned_burst (hb : ∀ p ∈ b, p.op = o ∧ (p.cmd = .select d ∨ p.cmd.isData = true))
    (ho : opDb ops o = d) (hh : t = d ∨ b = [] ∨ ∃ p rest, b = p :: rest ∧ p.cmd = .select d) :
    Aligned ops t b ∧ (b = [] ∨ after t b = d) := by
  rcases hh with rfl | rfl | ⟨p, rest, rfl, hp⟩
  · exact ⟨(aligned_own hb ho).1, .inr (aligned_own hb ho).2⟩
  · exact ⟨trivial, .inl rfl⟩
  · obtain ⟨h1, h2⟩ := aligned_own (fun q hq => hb q (List.mem_cons_of_mem _ hq)) ho
    have hsel : selStep t p.cmd = d := by rw [hp]; rfl
    refine ⟨⟨fun h => ?_, by rw [hsel]; exact h1⟩, .inr ?_⟩
    · rw [hp] at h
      cases h
    · show after (selStep t p.cmd) rest = d
      rw [hsel]
      exact h2

theorem after_of_data (hb : ∀ p ∈ b, p.cmd.isData = true) : after t b = t := by
  induction b with
  | nil => rfl
  | cons p b ih =>
    show after (selStep t p.cmd) b = t
    rw [selStep_data (hb p List.mem_cons_self)]
    exact ih fun q hq => hb q (List.mem_cons_of_mem _ hq)

end Burst

theorem after_append (sel : Nat) (a b : List (Pending Cmd Reply Locals)) :
    after sel (a ++ b) = after (after sel a) b := List.foldl_append

/-- Who waits after a turn waited before, or is the operation of the turn. -/
theorem waiting_turn {ready : List (Nat × P)} {pipe b : List (Pending Cmd Reply Locals)} {o o' : Nat}
    (hb : ∀ p ∈ b, p.op = o) (h : Waiting ready (pipe ++ b) o') :
    Waiting ready pipe o' ∨ (o' = o ∧ b ≠ []) := by
  rcases h with h | ⟨p, hp, ho, h⟩
  · exact .inl (.inl h)
  · rcases List.mem_append.mp hp with hp | hp
    · exact .inl (.inr ⟨p, hp, ho, h⟩)
    · exact .inr ⟨by rw [← ho, hb p hp], List.ne_nil_of_mem hp⟩

/-- **One turn** keeps the invariant, if its operation finds its database selected or selects it, and
selecting disturbs nobody. -/
theorem inv_turn {σ : DaoSys} {o : Nat} {j : P} (hi : Inv σ) (ho : o < σ.ops.length)
    (hu : Uses (opDb σ.ops o) j) (hn : Needs j → opDb σ.ops o = after σ.server.selected σ.pipe)
    (hx : Selects j (σ.vars o) → ∀ o', Waiting σ.ready σ.pipe o' → opDb σ.ops o' = opDb σ.ops o) :
    Inv (σ.turn o j) := by
  let b : List (Pending Cmd Reply Locals) := (j.issue (σ.vars o)).1.map fun p => ⟨o, p.1, p.2⟩
  have hiss := hu.issue (σ.vars o)
  have hb : ∀ p ∈ b, p.op = o ∧ (p.cmd = .select (opDb σ.ops o) ∨ p.cmd.isData = true) ∧
      ∀ cb, p.cb = some cb → ∀ r, Uses (opDb σ.ops o) (cb r) := by
    intro p hp
    obtain ⟨q, hq, rfl⟩ := List.mem_map.mp hp
    exact ⟨rfl, hiss q hq⟩
  have hhead : after σ.server.selected σ.pipe = opDb σ.ops o ∨ b = [] ∨
      ∃ p rest, b = p :: rest ∧ p.cmd = .select (opDb σ.ops o) := by
    by_cases hneed : Needs j
    · exact .inl (hn hneed).symm
    · rcases issue_head hu hneed (σ.vars o) with h | ⟨cb, rest, h⟩
      · exact .inr (.inl (by simp [b, h]))
      · exact .inr (.inr ⟨_, _, by simp only [b, h, List.map_cons]; rfl, rfl⟩)
  obtain ⟨hal, haf⟩ := aligned_burst (fun p hp => ⟨(hb p hp).1, (hb p hp).2.1⟩) rfl hhead
  have hpipe : (σ.turn o j).pipe = σ.pipe ++ b := rfl
  refine ⟨fun p hp => ?_, hi.ready, ?_, fun o' ho' => ?_⟩
  · rcases List.mem_append.mp (hpipe ▸ hp) with hp | hp
    · exact hi.pipe p hp
    · obtain ⟨hop, hc⟩ := hb p hp
      rw [hop]
      exact ⟨ho, hc⟩
  · rw [hpipe]
    exact aligned_append.mpr ⟨hi.aligned, hal⟩
  · rw [hpipe] at ho' ⊢
    rw [Sys.turn_server, Sys.turn_ops, after_append]
    rcases waiting_turn (fun p hp => (hb p hp).1) ho' with hw | ⟨rfl, hne⟩
    · by_cases hsel : Selects j (σ.vars o)
      · -- A `SELECT` in the turn: everybody who waits uses the same database.
        rw [hx hsel o' hw]
        refine (haf.resolve_left ?_).symm
        obtain ⟨p, hp, -⟩ := hsel
        exact List.ne_nil_of_mem (List.mem_map_of_mem hp)
      · rw [after_of_data, hi.waiting o' hw]
        intro p hp
        obtain ⟨q, hq, rfl⟩ := List.mem_map.mp hp
        cases hd : q.1.isData
        · exact absurd ⟨q, hq, hd⟩ hsel
        · rfl
    · exact (haf.resolve_left hne).symm

/-! ## Runs -/

theorem waiting_mono {a a' : List (Nat × P)} {b b' : List (Pending Cmd Reply Locals)} {o : Nat}
    (ha : ∀ x ∈ a, x ∈ a') (hb : ∀ p ∈ b, p ∈ b') (h : Waiting a b o) : Waiting a' b' o := by
  rcases h with ⟨j, hj, hn⟩ | ⟨p, hp, h⟩
  · exact .inl ⟨j, ha _ hj, hn⟩
  · exact .inr ⟨p, hb p hp, h⟩

/-- A new operation, before its first turn, keeps the invariant. -/
theorem inv_newOp {σ : DaoSys} (hi : Inv σ) (op : Op) (vars : Nat → Locals) :
    Inv { σ with ops := σ.ops ++ [op], vars := vars } := by
  have hlt : ∀ o, Waiting σ.ready σ.pipe o → o < σ.ops.length := by
    rintro o (⟨j, hj, -⟩ | ⟨p, hp, rfl, -⟩)
    · exact (hi.ready _ hj).1
    · exact (hi.pipe p hp).1
  refine ⟨fun p hp => ?_, fun x hx => ?_, ?_, fun o ho => ?_⟩
  · obtain ⟨h1, h2⟩ := hi.pipe p hp
    rw [opDb_append h1]
    exact ⟨by simp only [List.length_append]; omega, h2⟩
  · obtain ⟨h1, h2⟩ := hi.ready x hx
    rw [opDb_append h1]
    exact ⟨by simp only [List.length_append]; omega, h2⟩
  · exact aligned_ops (fun p hp => opDb_append (hi.pipe p hp).1) hi.aligned
  · rw [opDb_append (hlt o ho)]
    exact hi.waiting o ho

/-- Executing the oldest command keeps the invariant. -/
theorem inv_execute {md5 : String → String} {σ : DaoSys} {p : Pending Cmd Reply Locals}
    {rest : List (Pending Cmd Reply Locals)} (hi : Inv σ) (hp : σ.pipe = p :: rest) :
    Inv ((dao md5).execute σ p rest) := by
  have hmem : p ∈ σ.pipe := by rw [hp]; exact List.mem_cons_self
  have hrest : ∀ q ∈ rest, q ∈ σ.pipe := fun q hq => by rw [hp]; exact List.mem_cons_of_mem _ hq
  obtain ⟨hlt, hc, hcb⟩ := hi.pipe p hmem
  have hsel : ((dao md5).exec p.cmd σ.server).1.selected = selStep σ.server.selected p.cmd :=
    exec_selected (opDb_lt σ.ops p.op) hc σ.server
  have hal := hi.aligned
  have hw := hi.waiting
  rw [hp] at hal hw
  -- The callback of `p`, now ready, was pending before.
  have hready : ∀ x ∈ ((dao md5).execute σ p rest).ready, x ∈ σ.ready ∨
      ∃ cb r, p.cb = some cb ∧ x = (p.op, cb r) := by
    intro x hx
    cases hcb' : p.cb with
    | none => exact .inl (by simpa [Client.execute, hcb'] using hx)
    | some cb =>
      simp only [Client.execute, hcb', List.mem_append, List.mem_singleton] at hx
      exact hx.imp id fun h => ⟨cb, _, rfl, h⟩
  refine ⟨fun q hq => hi.pipe q (hrest q hq), fun x hx => ?_, ?_, fun o ho => ?_⟩
  · rcases hready x hx with h | ⟨cb, r, h, rfl⟩
    · exact hi.ready x h
    · exact ⟨hlt, hcb cb h r⟩
  · show Aligned σ.ops ((dao md5).exec p.cmd σ.server).1.selected rest
    rw [hsel]
    exact hal.2
  · show opDb σ.ops o = after ((dao md5).exec p.cmd σ.server).1.selected rest
    rw [hsel]
    refine hw o ?_
    rcases ho with ⟨j, hj, hn⟩ | ⟨q, hq, h⟩
    · rcases hready _ hj with h | ⟨cb, r, h, heq⟩
      · exact .inl ⟨j, h, hn⟩
      · cases heq
        exact .inr ⟨p, List.mem_cons_self, rfl, cb, r, h, hn⟩
    · exact .inr ⟨q, List.mem_cons_of_mem _ hq, h⟩

/-- **One step** that is `Exclusive` keeps the invariant. -/
theorem inv_step {md5 : String → String} {σ σ' : DaoSys} {e : Event Op Env} (hi : Inv σ)
    (hx : Exclusive σ e) (h : (dao md5).Step σ e σ') : Inv σ' := by
  obtain ⟨op, rfl, rfl⟩ | ⟨p, rest, rfl, hp, rfl⟩ | ⟨a, o, j, b, rfl, hr, rfl⟩ | ⟨a, rfl, rfl⟩ :=
    Client.step_cases h
  · have hlast := opDb_last σ.ops op
    refine inv_turn (inv_newOp hi op _) (by simp) ?_ ?_ ?_
    · rw [hlast]
      exact uses_code md5 op
    · intro hn
      exact absurd hn (not_needs_code md5 op)
    · intro _ o ho
      have hlt : o < σ.ops.length := by
        rcases ho with ⟨j, hj, -⟩ | ⟨p, hp, rfl, -⟩
        · exact (hi.ready _ hj).1
        · exact (hi.pipe p hp).1
      rw [hlast, opDb_append hlt]
      exact hx o ho
  · exact inv_execute hi hp
  · have hsub : ∀ x ∈ a ++ b, x ∈ σ.ready := by
      intro x hx
      rw [hr]
      rcases List.mem_append.mp hx with hx | hx <;> simp [hx]
    have hmem : (o, j) ∈ σ.ready := by simp [hr]
    have hi' : Inv { σ with ready := a ++ b } :=
      ⟨hi.pipe, fun x hx => hi.ready x (hsub x hx), hi.aligned,
        fun o ho => hi.waiting o (waiting_mono hsub (fun _ h => h) ho)⟩
    refine inv_turn hi' (hi.ready _ hmem).1 (hi.ready _ hmem).2 ?_ ?_
    · intro hn
      exact hi.waiting o (.inl ⟨j, hmem, hn⟩)
    · intro hs o' ho'
      refine hx o j (by simp [hr]) hs o' ?_
      simpa [hr, List.eraseIdx_append_of_length_le] using ho'
  · have hsel : ((dao md5).env a σ.server).selected = σ.server.selected := Env.act_selected a _
    exact ⟨hi.pipe, hi.ready, by simpa only [hsel] using hi.aligned,
      by simpa only [hsel] using hi.waiting⟩

/-- The client before its first operation. -/
theorem inv_fresh (md5 : String → String) (s : Server) : Inv ((dao md5).fresh s : DaoSys) := by
  refine ⟨by simp [Client.fresh], by simp [Client.fresh], trivial, ?_⟩
  rintro o (⟨j, hj, -⟩ | ⟨p, hp, -⟩)
  · simp [Client.fresh] at hj
  · simp [Client.fresh] at hp

theorem inOwnDb_of_inv {σ : DaoSys} (hi : Inv σ) : InOwnDb σ := by
  intro p rest hp hd
  have hlt := (hi.pipe p (by rw [hp]; exact List.mem_cons_self)).1
  have hal := hi.aligned
  rw [hp] at hal
  refine ⟨σ.ops[p.op], List.getElem?_eq_getElem hlt, ?_⟩
  rw [hal.1 hd]
  simp [opDb, List.getElem?_eq_getElem hlt]

/-- **Database isolation**: in every run whose steps are all `Exclusive`, from any state of the
server, each data command runs in the database of its operation. -/
theorem inOwnDb_of_exclusive (md5 : String → String) (s : Server) (evs : List (Event Op Env))
    (σ : DaoSys) (h : (dao md5).Runs Exclusive ((dao md5).fresh s) evs σ) : InOwnDb σ :=
  inOwnDb_of_inv (h.inv (fun _ _ _ hi hx hst => inv_step hi hx hst) (inv_fresh md5 s))

/-- An empty server with a new connection. -/
def emptyServer : Server := { now := 0, selected := 0, dbs := fun _ => ∅ }

/-- A user is registered while the credentials of another one are still to be written: the next
command writes them in database `0`. -/
theorem inOwnDb_credentials_then_user :
    ∃ σ : DaoSys, (dao id).Runs Exclusive ((dao id).fresh emptyServer)
        [.start (.getCredentials "u" "p"), .exec, .run 0, .start (.registerUser "c" "v")] σ ∧
      σ.pipe.head?.map Pending.cmd = some (.set (credentialKey "u") "u:orange.com:p") ∧
      σ.server.selected = 0 ∧ InOwnDb σ := by
  have hrun : ∃ σ : DaoSys, (dao id).Runs Exclusive ((dao id).fresh emptyServer)
      [.start (.getCredentials "u" "p"), .exec, .run 0, .start (.registerUser "c" "v")] σ ∧
      σ.pipe.head?.map Pending.cmd = some (.set (credentialKey "u") "u:orange.com:p") ∧
      σ.server.selected = 0 := by
    refine ⟨_, .cons ?_ rfl (.cons trivial rfl (.cons ?_ rfl (.cons ?_ rfl (.nil _)))), rfl, rfl⟩
    · rintro o (⟨j, hj, -⟩ | ⟨p, hp, -⟩)
      · cases hj
      · cases hp
    · rintro o j - - o' (⟨j, hj, -⟩ | ⟨p, hp, -⟩)
      · cases hj
      · cases hp
    · -- The callback of the pending `SET` issues no command.
      rintro o (⟨j, hj, -⟩ | ⟨p, hp, -, cb, r, hcb, hn⟩)
      · cases hj
      · obtain rfl := List.mem_singleton.mp hp
        cases hcb
        cases r <;> simp [createdCredentials, resolve, settle, Needs] at hn
  obtain ⟨σ, hrun, hcmd, hsel⟩ := hrun
  exact ⟨σ, hrun, hcmd, hsel, inOwnDb_of_exclusive id emptyServer _ σ hrun⟩

/-- The hash of a CSP is read between the `SELECT` of `getCredentials` and its `SET`: the credentials
are written in database `2`. -/
theorem getCredentials_in_db2 :
    ∃ σ : DaoSys, (dao id).Runs Any ((dao id).fresh emptyServer)
        [.start (.getCredentials "u" "p"), .exec, .start (.getCSPInfos "prov:c"), .exec, .run 0] σ ∧
      σ.pipe.head?.map Pending.cmd = some (.set (credentialKey "u") "u:orange.com:p") ∧
      σ.server.selected = 2 ∧ ¬ InOwnDb σ := by
  refine ⟨_, .cons trivial rfl (.cons trivial rfl (.cons trivial rfl (.cons trivial rfl
    (.cons trivial rfl (.nil _))))), rfl, rfl, fun h => ?_⟩
  obtain ⟨op, hop, hsel⟩ := h _ _ rfl rfl
  cases hop
  exact absurd hsel (by decide)

end Broker
end QosSupport
