import QosSupport.Broker.Dao

/-!
# What each operation of the DAO does alone

* `Op.cmds`: the commands with which an operation, started alone, changes its database.
* `server_of_completes`: every complete run of an operation, alone, selects its database, runs these
  commands there and changes nothing else.
* `front_getCSPInfos`, `front_getCspInfoAndConso` and so on: how far the operations that answer run
  without a choice, for what they answer (`readHash`, `quotaOf`).
-/

namespace QosSupport
namespace Broker

open Redis EventLoop Js

/-- The database of an operation. -/
def Op.db : Op → Nat
  | .getCredentials _ _ => 0
  | _ => 2

/-- The CSP under which `addCSPConso` charges a user: `null`, as text, if there is none; `none` if the
lookup fails. -/
def chargedCSP (now : Nat) (db : Db) (user : String) : Option String :=
  match find now db (usersKey user) with
  | none => some "null"
  | some ⟨.str csp, _⟩ => some csp
  | some ⟨.hash _, _⟩ => none

/-- The commands with which an operation changes its database (module doc). -/
def Op.cmds (md5 : String → String) (now : Nat) (db : Db) : Op → List Cmd
  | .registerCSP formDatas => registerCmds formDatas
  | .registerUser csp user => [.set (usersKey user) csp, .expire (usersKey user) ttlUser]
  | .getAppropriateTurn cspName clientname date _ =>
    let clientId := clientIdOf md5 cspName clientname date
    [.set (usersKey clientId) cspName, .expire (usersKey clientId) ttlUser]
  | .getCredentials clientId password =>
    [.set (credentialKey clientId) (md5 (clientId ++ ":" ++ realm ++ ":" ++ password))]
  | .deleteCSP cspkey =>
    [.rename (consoKey cspkey) (histoKey (consoKey cspkey)), .rename cspkey (histoKey cspkey)]
  | .updateCSPQuotas cspkey audioQuota videoQuota dataQuota =>
    [.hmset (text cspkey) (quotaFields audioQuota videoQuota dataQuota)]
  | .addCSPConso (some parsedTraffic) =>
    match chargedCSP now db parsedTraffic.user with
    | some csp => [.hincrby (consoKey (provKey csp)) "data" parsedTraffic.sent_bytes]
    | none => []
  | .addCSPConso none | .getAllCspInfo | .getCSPInfos _ | .getCSPConso _ | .getTurnServers => []

/-- The connection selects database `n`. -/
def selected (n : Nat) (s : Server) : Server := { s with selected := n }

/-- Run data commands in the selected database. -/
def within (cs : List Cmd) (s : Server) : Server :=
  { s with dbs := Function.update s.dbs s.selected (runCmds s.now cs (s.dbs s.selected)) }

/-- The server after an operation. -/
def Op.after (md5 : String → String) (op : Op) (s : Server) : Server :=
  within (op.cmds md5 s.now (s.dbs op.db)) (selected op.db s)

section Server

variable {s : Server} {c : Cmd} {cs : List Cmd}

@[simp] theorem within_nil (s : Server) : within [] s = s := by simp [within, runCmds]

theorem within_cons (h : c.isData = true) (s : Server) :
    within (c :: cs) s = within cs (exec c s).1 := by
  rw [exec_data h]
  simp [within, runCmds]

theorem exec_read (h : c.isData = true) (hw : c.writes = []) (s : Server) : (exec c s).1 = s := by
  rw [exec_data h]
  simp [execDb_read hw]

theorem exec_reply (h : c.isData = true) (s : Server) :
    (exec c s).2 = (execDb s.now c (s.dbs s.selected)).2 := by
  rw [exec_data h]

theorem exec_select {n : Nat} (hn : n < 16) (s : Server) :
    exec (.select n) s = (selected n s, .ok) := by
  simp [exec, hn, selected]

end Server

/-! ## The commands of each operation -/

/-- What an operation may issue, whatever the replies are: a `SELECT` of its database, reads, and the
commands of `Op.cmds`. -/
def Op.MayIssue (md5 : String → String) (op : Op) (c : Cmd) : Prop :=
  c = .select op.db ∨ (c.isData = true ∧ c.writes = []) ∨ ∃ now db, c ∈ op.cmds md5 now db

section Issues

variable {G : Cmd → Prop}

theorem issues_settle (o : Outcome) : (settle o).Issues G := fun _ => trivial

theorem issues_settleReply (r : Reply) : (settleReply r).Issues G := by
  cases r <;> exact issues_settle _

theorem issues_selectAsync {n : Nat} {k : P} (hn : G (.select n)) (h : k.Issues G) :
    (selectAsync n k).Issues G := by
  refine ⟨hn, fun r => ?_, trivial⟩
  unfold thenOk
  split
  · trivial
  · exact h

theorem issues_sendAll {cs : List Cmd} {next : P} (hcs : ∀ c ∈ cs, G c) (h : next.Issues G) :
    (sendAll cs next).Issues G := by
  induction cs with
  | nil => exact h
  | cons c cs ih =>
    exact ⟨hcs c List.mem_cons_self, ih fun x hx => hcs x (List.mem_cons_of_mem _ hx)⟩

/-- A burst of commands with callbacks. -/
theorem issues_foldr_call {α : Type} {l : List α} {cmd : α → Cmd} {cb : α → Reply → P}
    (hc : ∀ a, G (cmd a)) (hcb : ∀ a r, (cb a r).Issues G) :
    (l.foldr (fun a next => Prog.call (cmd a) (cb a) next) .done).Issues G := by
  induction l with
  | nil => trivial
  | cons a l ih => exact ⟨hc a, hcb a, ih⟩

/-- The commands of `registerUser`. -/
theorem issues_registerUser {csp user : String} {next : P} (hs : G (.select 2))
    (hc : ∀ c ∈ [Cmd.set (usersKey user) csp, .expire (usersKey user) ttlUser], G c)
    (h : next.Issues G) : (registerUser csp user next).Issues G := by
  refine issues_sendAll (fun c hc' => ?_) h
  rcases List.mem_cons.mp hc' with rfl | hc'
  · exact hs
  · exact hc c hc'

variable (hs : G (.select 2)) (hr : ∀ c : Cmd, c.isData = true → c.writes = [] → G c)

include hs hr

theorem issues_getCSPInfos {key : String} {k : Except Error (Option Hash) → P}
    (hk : ∀ x, (k x).Issues G) : (getCSPInfos key k).Issues G :=
  issues_selectAsync hs ⟨hr _ rfl rfl, fun _ => hk _, trivial⟩

theorem issues_getCSPConso {key : String} {k : Except Error (Option Hash) → P}
    (hk : ∀ x, (k x).Issues G) : (getCSPConso key k).Issues G :=
  issues_selectAsync hs ⟨hr _ rfl rfl, fun _ => hk _, trivial⟩

theorem issues_getCspInfoAndConso {csp : String}
    {k : Except String (Option String × Option String) → P} (hk : ∀ x, (k x).Issues G) :
    (getCspInfoAndConso csp k).Issues G := by
  refine issues_getCSPInfos hs hr fun x => ?_
  split
  · refine issues_getCSPConso hs hr fun y => ?_
    split <;> exact hk _
  · exact hk _

theorem issues_getTurnServers {k : Except Reason (List TurnServer) → P}
    (hk : ∀ x, (k x).Issues G) : (getTurnServers k).Issues G := by
  refine issues_selectAsync hs ⟨hr _ rfl rfl, fun r => ?_, trivial⟩
  unfold gotTurnKeys
  split
  · exact hk _
  · exact hk _
  · refine issues_foldr_call (fun _ => hr _ rfl rfl) fun turnName r => ?_
    unfold gotTurnServer
    split
    · exact hk _
    · intro l
      show Prog.Issues G (if _ then _ else _)
      split
      · exact hk _
      · trivial
  · trivial

theorem issues_quotaGate (csp clientId : String) (random : Rat) :
    (quotaGate csp clientId random).Issues G := by
  refine issues_getCspInfoAndConso hs hr fun x => ?_
  split
  · exact issues_settle _
  · split
    · exact issues_settle _
    · refine issues_getTurnServers hs hr fun y => ?_
      split <;> exact issues_settle _

theorem issues_getAllCspInfo : getAllCspInfo.Issues G := by
  refine ⟨hs, hr _ rfl rfl, fun r => ?_, trivial⟩
  unfold gotProvKeys
  split
  · refine issues_foldr_call (fun _ => hr _ rfl rfl) fun provKey r => ?_
    unfold gotCspInfo
    split
    · exact issues_settle _
    · trivial
    · intro l
      show Prog.Issues G (if _ then _ else _)
      split
      · exact issues_settle _
      · trivial
  · trivial

theorem issues_addCSPConso (t : Option TrafficRecord)
    (hc : ∀ csp u, t = some u → G (.hincrby (consoKey (provKey csp)) "data" u.sent_bytes)) :
    (addCSPConso t).Issues G := by
  cases t with
  | none => exact issues_selectAsync hs trivial
  | some t =>
    refine issues_selectAsync hs ⟨hr _ rfl rfl, fun r => ?_, trivial⟩
    unfold gotUser
    split
    · trivial
    · exact ⟨hc _ t rfl, fun _ => issues_settleReply _, trivial⟩
    · exact ⟨hc _ t rfl, fun _ => issues_settleReply _, trivial⟩

end Issues

/-- Every CSP may be the one of a user. -/
theorem exists_chargedCSP (user csp : String) : ∃ now db, chargedCSP now db user = some csp := by
  let db : Db := AList.insert (usersKey user) ⟨.str csp, none⟩ ∅
  have hfind : find 0 db (usersKey user) = some ⟨.str csp, none⟩ := by
    rw [find, AList.lookup_insert]
    rfl
  exact ⟨0, db, by simp only [chargedCSP, hfind]⟩

/-- **Every command that an operation issues**, in any turn. -/
theorem issues_code (md5 : String → String) (op : Op) : (op.code md5).Issues (op.MayIssue md5) := by
  have hs : op.MayIssue md5 (.select op.db) := .inl rfl
  have hr : ∀ c : Cmd, c.isData = true → c.writes = [] → op.MayIssue md5 c := fun c h1 h2 =>
    .inr (.inl ⟨h1, h2⟩)
  have hw : ∀ c now db, c ∈ op.cmds md5 now db → op.MayIssue md5 c := fun c now db h =>
    .inr (.inr ⟨now, db, h⟩)
  cases op with
  | registerCSP formDatas =>
    exact issues_selectAsync hs (issues_sendAll (fun c hc => hw c 0 ∅ hc) trivial)
  | registerUser csp user => exact issues_registerUser hs (fun c hc => hw c 0 ∅ hc) trivial
  | getAppropriateTurn csp name date random =>
    exact issues_registerUser hs (fun c hc => hw c 0 ∅ hc) (issues_quotaGate hs hr _ _ _)
  | getCredentials clientId password =>
    refine issues_selectAsync hs ⟨hw _ 0 ∅ (by simp [Op.cmds]), fun r => ?_, trivial⟩
    unfold createdCredentials
    split
    · trivial
    · exact issues_settle _
  | getAllCspInfo => exact issues_getAllCspInfo hs hr
  | getCSPInfos key => exact issues_getCSPInfos hs hr fun x => by cases x <;> exact issues_settle _
  | getCSPConso key => exact issues_getCSPConso hs hr fun x => by cases x <;> exact issues_settle _
  | getTurnServers =>
    refine issues_getTurnServers hs hr fun x => ?_
    cases x <;> exact issues_settle _
  | deleteCSP key =>
    refine ⟨hs, hw _ 0 ∅ (by simp [Op.cmds]), hw _ 0 ∅ (by simp [Op.cmds]), fun r => ?_, trivial⟩
    cases r <;> exact issues_settle _
  | updateCSPQuotas key a v d =>
    exact issues_selectAsync hs ⟨hw _ 0 ∅ (by simp [Op.cmds]), fun r => issues_settleReply r, trivial⟩
  | addCSPConso t =>
    refine issues_addCSPConso hs hr t fun csp u hu => ?_
    subst hu
    obtain ⟨now, db, h⟩ := exists_chargedCSP u.user csp
    exact hw _ now db (by simp [Op.cmds, h])

theorem isData_cmds {md5 : String → String} {op : Op} {now : Nat} {db : Db} :
    ∀ c ∈ op.cmds md5 now db, c.isData = true := by
  cases op with
  | addCSPConso t =>
    cases t with
    | none => simp [Op.cmds]
    | some t =>
      simp only [Op.cmds]
      split <;> simp [Cmd.isData]
  | _ => simp [Op.cmds, registerCmds, Cmd.isData]

/-! ## Programs in which at most one callback issues commands -/

section Linear

theorem quiet_settle (o : Outcome) : (settle o).Quiet := fun _ => trivial

theorem quiet_settleReply (r : Reply) : (settleReply r).Quiet := by
  cases r <;> exact quiet_settle _

theorem linear_selectAsync {n : Nat} {k : P} (h : k.Linear) : (selectAsync n k).Linear := by
  refine .inr ⟨trivial, fun r => ?_⟩
  unfold thenOk
  split
  · trivial
  · exact h

theorem linear_sendAll {cs : List Cmd} {next : P} (h : next.Linear) : (sendAll cs next).Linear := by
  induction cs with
  | nil => exact h
  | cons c cs ih => exact ih

/-- A burst of commands with quiet callbacks. -/
theorem linear_foldr_call {α : Type} {l : List α} {cmd : α → Cmd} {cb : α → Reply → P}
    (hcb : ∀ a r, (cb a r).Quiet) :
    (l.foldr (fun a next => Prog.call (cmd a) (cb a) next) .done).Linear := by
  induction l with
  | nil => trivial
  | cons a l ih => exact .inl ⟨hcb a, ih⟩

theorem linear_getCSPInfos {key : String} {k : Except Error (Option Hash) → P}
    (hk : ∀ x, (k x).Linear) : (getCSPInfos key k).Linear :=
  linear_selectAsync (.inr ⟨trivial, fun _ => hk _⟩)

theorem linear_getCSPConso {key : String} {k : Except Error (Option Hash) → P}
    (hk : ∀ x, (k x).Linear) : (getCSPConso key k).Linear :=
  linear_selectAsync (.inr ⟨trivial, fun _ => hk _⟩)

theorem quiet_gotTurnServer {size : Nat} {turnName : String}
    {k : Except Reason (List TurnServer) → P} (hk : ∀ x, (k x).Quiet) (r : Reply) :
    (gotTurnServer size turnName k r).Quiet := by
  unfold gotTurnServer
  split
  · exact hk _
  · intro l
    show Prog.Quiet (if _ then _ else _)
    split
    · exact hk _
    · trivial

theorem linear_getTurnServers {k : Except Reason (List TurnServer) → P} (hk : ∀ x, (k x).Quiet) :
    (getTurnServers k).Linear := by
  refine linear_selectAsync (.inr ⟨trivial, fun r => ?_⟩)
  unfold gotTurnKeys
  split
  · exact (hk _).linear
  · exact (hk _).linear
  · exact linear_foldr_call fun _ r => quiet_gotTurnServer hk r
  · trivial

theorem linear_getCspInfoAndConso {csp : String}
    {k : Except String (Option String × Option String) → P} (hk : ∀ x, (k x).Linear) :
    (getCspInfoAndConso csp k).Linear := by
  refine linear_getCSPInfos fun x => ?_
  split
  · refine linear_getCSPConso fun y => ?_
    split <;> exact hk _
  · exact hk _

theorem linear_quotaGate (csp clientId : String) (random : Rat) :
    (quotaGate csp clientId random).Linear := by
  refine linear_getCspInfoAndConso fun x => ?_
  split
  · exact (quiet_settle _).linear
  · split
    · exact (quiet_settle _).linear
    · refine linear_getTurnServers fun y => ?_
      cases y <;> exact quiet_settle _

theorem quiet_gotCspInfo (size : Nat) (provKey : String) (r : Reply) :
    (gotCspInfo size provKey r).Quiet := by
  unfold gotCspInfo
  split
  · exact quiet_settle _
  · trivial
  · intro l
    show Prog.Quiet (if _ then _ else _)
    split
    · exact quiet_settle _
    · trivial

theorem linear_gotProvKeys (r : Reply) : (gotProvKeys r).Linear := by
  unfold gotProvKeys
  split
  · exact linear_foldr_call fun _ r => quiet_gotCspInfo _ _ r
  · trivial

theorem linear_gotUser (t : TrafficRecord) (r : Reply) : (gotUser t r).Linear := by
  unfold gotUser
  split
  · trivial
  · exact .inl ⟨quiet_settleReply, trivial⟩
  · exact .inl ⟨quiet_settleReply, trivial⟩

theorem linear_code (md5 : String → String) (op : Op) : (op.code md5).Linear := by
  cases op with
  | registerCSP formDatas => exact linear_selectAsync (linear_sendAll trivial)
  | registerUser csp user => exact linear_sendAll trivial
  | getAppropriateTurn csp name date random => exact linear_sendAll (linear_quotaGate _ _ _)
  | getCredentials clientId password =>
    refine linear_selectAsync (.inl ⟨fun r => ?_, trivial⟩)
    cases r <;> first | trivial | exact quiet_settle _
  | getAllCspInfo => exact .inr ⟨trivial, linear_gotProvKeys⟩
  | getCSPInfos key =>
    refine linear_getCSPInfos fun x => ?_
    cases x <;> exact (quiet_settle _).linear
  | getCSPConso key =>
    refine linear_getCSPConso fun x => ?_
    cases x <;> exact (quiet_settle _).linear
  | getTurnServers =>
    refine linear_getTurnServers fun x => ?_
    cases x <;> exact quiet_settle _
  | deleteCSP key =>
    refine .inl ⟨fun r => ?_, trivial⟩
    cases r <;> exact quiet_settle _
  | updateCSPQuotas key a v d => exact linear_selectAsync (.inl ⟨quiet_settleReply, trivial⟩)
  | addCSPConso t =>
    cases t with
    | none => exact linear_selectAsync trivial
    | some t => exact linear_selectAsync (.inr ⟨trivial, linear_gotUser t⟩)

end Linear

/-! ## The effect of each operation -/

section Effect

variable {md5 : String → String} {s : Server}

theorem effect_selectAsync {n : Nat} (hn : n < 16) (k : P) (s : Server) :
    (dao md5).effect (selectAsync n k) s = (dao md5).effect k (selected n s) := by
  simp only [selectAsync, Client.effect, dao, exec_select hn]
  rfl

theorem effect_sendAll {cs : List Cmd} (h : ∀ c ∈ cs, c.isData = true) (next : P) (s : Server) :
    (dao md5).effect (sendAll cs next) s = (dao md5).effect next (within cs s) := by
  induction cs generalizing s with
  | nil => rw [within_nil]; rfl
  | cons c cs ih =>
    rw [within_cons (h c List.mem_cons_self)]
    exact ih (fun x hx => h x (List.mem_cons_of_mem _ hx)) _

/-- A read whose callback goes on. -/
theorem effect_read {c : Cmd} (h : c.isData = true) (hw : c.writes = []) (cb : Reply → P)
    (s : Server) : (dao md5).effect (.call c cb .done) s =
      (dao md5).effect (cb (execDb s.now c (s.dbs s.selected)).2) s := by
  show (dao md5).effect (cb (exec c s).2) (exec c s).1 = _
  rw [exec_reply h, exec_read h hw]

/-- A write whose callback only settles the promise. -/
theorem effect_write {c : Cmd} (h : c.isData = true) {cb : Reply → P} (hcb : ∀ r, (cb r).Quiet)
    (s : Server) : (dao md5).effect (.call c cb .done) s = within [c] s := by
  rw [within_cons h, within_nil]
  exact Client.effect_quiet (hcb _) _

/-- A burst of reads with quiet callbacks. -/
theorem effect_foldr_read {α : Type} {l : List α} {cmd : α → Cmd} {cb : α → Reply → P}
    (h : ∀ a, (cmd a).isData = true) (hw : ∀ a, (cmd a).writes = []) (hcb : ∀ a r, (cb a r).Quiet)
    (s : Server) :
    (dao md5).effect (l.foldr (fun a next => Prog.call (cmd a) (cb a) next) .done) s = s := by
  induction l with
  | nil => rfl
  | cons a l ih =>
    show (dao md5).effect (cb a (exec (cmd a) s).2) ((dao md5).effect _ (exec (cmd a) s).1) = s
    rw [exec_read (h a) (hw a), ih]
    exact Client.effect_quiet (hcb a _) s

theorem effect_getCSPInfos {key : String} {k : Except Error (Option Hash) → P}
    (hk : ∀ x, (dao md5).effect (k x) (selected 2 s) = selected 2 s) :
    (dao md5).effect (getCSPInfos key k) s = selected 2 s := by
  rw [getCSPInfos, effect_selectAsync (by decide), effect_read rfl rfl]
  exact hk _

theorem effect_getCSPConso {key : String} {k : Except Error (Option Hash) → P}
    (hk : ∀ x, (dao md5).effect (k x) (selected 2 s) = selected 2 s) :
    (dao md5).effect (getCSPConso key k) s = selected 2 s := by
  rw [getCSPConso, effect_selectAsync (by decide), effect_read rfl rfl]
  exact hk _

theorem effect_getTurnServers {k : Except Reason (List TurnServer) → P} (hk : ∀ x, (k x).Quiet) :
    (dao md5).effect (getTurnServers k) s = selected 2 s := by
  rw [getTurnServers, effect_selectAsync (by decide), effect_read rfl rfl]
  unfold gotTurnKeys
  split
  · exact Client.effect_quiet (hk _) _
  · exact Client.effect_quiet (hk _) _
  · exact effect_foldr_read (fun _ => rfl) (fun _ => rfl) (fun _ r => quiet_gotTurnServer hk r) _
  · rfl

theorem effect_getCspInfoAndConso {csp : String}
    {k : Except String (Option String × Option String) → P}
    (hk : ∀ x, (dao md5).effect (k x) (selected 2 s) = selected 2 s) :
    (dao md5).effect (getCspInfoAndConso csp k) s = selected 2 s := by
  refine effect_getCSPInfos fun x => ?_
  split
  · refine effect_getCSPConso fun y => ?_
    split <;> exact hk _
  · exact hk _

/-- Looking up the quota and a TURN server changes nothing. -/
theorem effect_quotaGate (csp clientId : String) (random : Rat) :
    (dao md5).effect (quotaGate csp clientId random) s = selected 2 s := by
  refine effect_getCspInfoAndConso fun x => ?_
  split
  · exact Client.effect_quiet (quiet_settle _) _
  · split
    · exact Client.effect_quiet (quiet_settle _) _
    · refine effect_getTurnServers fun y => ?_
      cases y <;> exact quiet_settle _

theorem effect_registerUser (csp user : String) (next : P) (s : Server) :
    (dao md5).effect (registerUser csp user next) s = (dao md5).effect next
      (within [.set (usersKey user) csp, .expire (usersKey user) ttlUser] (selected 2 s)) := by
  show (dao md5).effect (sendAll _ next) (exec (.select 2) s).1 = _
  rw [exec_select (by decide), effect_sendAll (by simp [Cmd.isData])]

theorem effect_addCSPConso (t : TrafficRecord) (s : Server) :
    (dao md5).effect (addCSPConso (some t)) s = (Op.addCSPConso (some t)).after md5 s := by
  rw [addCSPConso, effect_selectAsync (by decide), effect_read rfl rfl]
  simp only [Op.after, Op.cmds, Op.db, chargedCSP, execDb, selected]
  rcases hf : find s.now (s.dbs 2) (usersKey t.user) with _ | ⟨csp | h, e⟩
  · simp only [gotUser, chargeCSP]
    exact effect_write rfl quiet_settleReply _
  · simp only [gotUser, chargeCSP]
    exact effect_write rfl quiet_settleReply _
  · simp only [within_nil]
    rfl

theorem effect_code (md5 : String → String) (op : Op) (s : Server) :
    (dao md5).effect (op.code md5) s = op.after md5 s := by
  cases op with
  | registerCSP formDatas =>
    rw [Op.code, registerCSP, effect_selectAsync (by decide),
      effect_sendAll (by simp [registerCmds, Cmd.isData])]
    rfl
  | registerUser csp user =>
    rw [Op.code, effect_registerUser]
    rfl
  | getAppropriateTurn csp name date random =>
    rw [Op.code, getAppropriateTurn, effect_registerUser, effect_quotaGate]
    rfl
  | getCredentials clientId password =>
    rw [Op.code, getCredentials, createTurnCredentials, effect_selectAsync (by decide)]
    refine effect_write rfl (fun r => ?_) _
    cases r <;> first | trivial | exact quiet_settle _
  | getAllCspInfo =>
    show (dao md5).effect (.call _ gotProvKeys .done) (exec (.select 2) s).1 = _
    rw [exec_select (by decide), effect_read rfl rfl]
    simp only [Op.after, Op.cmds, within_nil]
    unfold gotProvKeys
    split
    · exact effect_foldr_read (fun _ => rfl) (fun _ => rfl) (fun _ r => quiet_gotCspInfo _ _ r) _
    · rfl
  | getCSPInfos key =>
    simp only [Op.after, Op.cmds, within_nil]
    refine effect_getCSPInfos fun x => ?_
    cases x <;> exact Client.effect_quiet (quiet_settle _) _
  | getCSPConso key =>
    simp only [Op.after, Op.cmds, within_nil]
    refine effect_getCSPConso fun x => ?_
    cases x <;> exact Client.effect_quiet (quiet_settle _) _
  | getTurnServers =>
    simp only [Op.after, Op.cmds, within_nil]
    refine effect_getTurnServers fun x => ?_
    cases x <;> exact quiet_settle _
  | deleteCSP key =>
    have hq : ∀ r, (deletedCSP r).Quiet := by
      intro r
      cases r <;> exact quiet_settle _
    show (dao md5).effect (.call _ deletedCSP .done) (exec (.rename _ _) (exec (.select 2) s).1).1 = _
    rw [exec_select (by decide), effect_write rfl hq, ← within_cons rfl]
    rfl
  | updateCSPQuotas key a v d =>
    rw [Op.code, updateCSPQuotas, effect_selectAsync (by decide), effect_write rfl quiet_settleReply]
    rfl
  | addCSPConso t =>
    cases t with
    | none =>
      rw [Op.code, addCSPConso, effect_selectAsync (by decide)]
      simp only [Op.after, Op.cmds, within_nil]
      rfl
    | some t => exact effect_addCSPConso t s

end Effect

/-- **The server after an operation**: every complete run of an operation, alone, has its effect. -/
theorem server_of_completes {md5 : String → String} {op : Op} {s s' : Server} {l : Locals}
    (h : (dao md5).Completes op s s' l) : s' = op.after md5 s := by
  rw [Client.effect_of_completes (linear_code md5 op) h]
  exact effect_code md5 op s

/-! ## What the operations answer -/

/-- What a lookup of all fields of a key gives. -/
def readHash (now : Nat) (db : Db) (key : String) : Except Error (Option Hash) :=
  hgetallReply (execDb now (.hgetall key) db).2

theorem readHash_congr {now : Nat} {db db' : Db} {key : String}
    (h : find now db' key = find now db key) : readHash now db' key = readHash now db key := by
  simp only [readHash, execDb, h]
  split <;> rfl

theorem readHash_eq_some {now : Nat} {db : Db} {key : String} {h : Hash} :
    readHash now db key = .ok (some h) ↔ fieldsAt now db key = h ∧ h ≠ ∅ := by
  simp only [readHash, fieldsAt, execDb]
  rcases find now db key with _ | ⟨v | h', t⟩
  · simp only [hgetallReply, if_true, reduceCtorEq, Except.ok.injEq, false_iff, not_and, not_not]
    exact fun h => h.symm
  · simp only [hgetallReply, reduceCtorEq, false_iff, not_and, not_not]
    exact fun h => h.symm
  · simp only [hgetallReply, Except.ok.injEq]
    split
    · rename_i he
      simp only [reduceCtorEq, false_iff, not_and, not_not]
      rintro rfl
      exact he
    · rename_i he
      simp only [Option.some.injEq]
      constructor
      · rintro rfl
        exact ⟨rfl, he⟩
      · exact fun h => h.1

/-- The quota and the consumption that `getCspInfoAndConso` reads. -/
def quotaOf (now : Nat) (db : Db) (csp : String) : Except String (Option String × Option String) :=
  match readHash now db (provKey csp) with
  | .ok (some cspInfos) =>
    match readHash now db (consoKey (provKey csp)) with
    | .ok (some consoResult) => .ok (cspInfos.lookup "dataQuota", consoResult.lookup "data")
    | _ => .error "CSP consumption unknown"
  | _ => .error "CSP not found"

/-- The data consumption of a CSP exceeds its data quota. -/
def Exceeded (now : Nat) (db : Db) (csp : String) : Prop :=
  (numberOf (field now db (consoKey (provKey csp)) "data")).gt
    (numberOf (field now db (provKey csp) "dataQuota")) = true

theorem gt_nan_left (b : Number) : Number.gt .nan b = false := rfl

theorem gt_nan_right (a : Number) : Number.gt a .nan = false := by cases a <;> rfl

/-- A field that is a number is there. -/
theorem exists_of_numberOf {v : Option String} (h : numberOf v ≠ .nan) : ∃ t, v = some t := by
  cases v with
  | none => exact absurd rfl h
  | some t => exact ⟨t, rfl⟩

theorem readHash_of_field {now : Nat} {db : Db} {key f v : String} (h : field now db key f = some v) :
    readHash now db key = .ok (some (fieldsAt now db key)) := by
  refine readHash_eq_some.mpr ⟨rfl, fun he => ?_⟩
  rw [field, he, Finmap.lookup_empty] at h
  cases h

/-- When the gate of `getAppropriateTurn` is closed. -/
theorem exceeded_iff {now : Nat} {db : Db} {csp : String} : Exceeded now db csp ↔
    ∃ q c, quotaOf now db csp = .ok (q, c) ∧ (numberOf c).gt (numberOf q) = true := by
  constructor
  · intro h
    obtain ⟨q, hq⟩ := exists_of_numberOf (v := field now db (provKey csp) "dataQuota") fun hn => by
      simp [Exceeded, hn, gt_nan_right] at h
    obtain ⟨c, hc⟩ := exists_of_numberOf (v := field now db (consoKey (provKey csp)) "data")
      fun hn => by simp [Exceeded, hn, gt_nan_left] at h
    refine ⟨_, _, ?_, h⟩
    simp only [quotaOf, readHash_of_field hq, readHash_of_field hc]
    rfl
  · rintro ⟨q, c, hqc, h⟩
    unfold quotaOf at hqc
    split at hqc
    · rename_i infos hi
      split at hqc
      · rename_i conso hc
        cases hqc
        rw [Exceeded, field, field, (readHash_eq_some.mp hi).1, (readHash_eq_some.mp hc).1]
        exact h
      · cases hqc
    · cases hqc

section Front

variable {md5 : String → String} {s : Server} {l : Locals}

theorem front_selectAsync {n : Nat} (hn : n < 16) (k : P) (s : Server) (l : Locals) :
    (dao md5).front (selectAsync n k) s l = (dao md5).front k (selected n s) l := by
  simp only [selectAsync, Client.front, Prog.issue, dao, exec_select hn]
  rfl

theorem front_read {c : Cmd} (h : c.isData = true) (hw : c.writes = []) (cb : Reply → P) (s : Server)
    (l : Locals) : (dao md5).front (.call c cb .done) s l =
      (dao md5).front (cb (execDb s.now c (s.dbs s.selected)).2) s l := by
  show (dao md5).front (cb (exec c s).2) (exec c s).1 l = _
  rw [exec_reply h, exec_read h hw]

theorem front_sendAll {cs : List Cmd} (h : ∀ c ∈ cs, c.isData = true) (next : P) (s : Server)
    (l : Locals) :
    (dao md5).front (sendAll cs next) s l = (dao md5).front next (within cs s) l := by
  induction cs generalizing s with
  | nil => rw [within_nil]; rfl
  | cons c cs ih =>
    rw [within_cons (h c List.mem_cons_self)]
    exact ih (fun x hx => h x (List.mem_cons_of_mem _ hx)) _

theorem front_getCSPInfos (key : String) (k : Except Error (Option Hash) → P) (s : Server)
    (l : Locals) : (dao md5).front (getCSPInfos key k) s l =
      (dao md5).front (k (readHash s.now (s.dbs 2) key)) (selected 2 s) l := by
  rw [getCSPInfos, front_selectAsync (by decide), front_read rfl rfl]
  rfl

theorem front_getCSPConso (key : String) (k : Except Error (Option Hash) → P) (s : Server)
    (l : Locals) : (dao md5).front (getCSPConso key k) s l =
      (dao md5).front (k (readHash s.now (s.dbs 2) (consoKey key))) (selected 2 s) l := by
  rw [getCSPConso, front_selectAsync (by decide), front_read rfl rfl]
  rfl

theorem front_getCspInfoAndConso (csp : String)
    (k : Except String (Option String × Option String) → P) (s : Server) (l : Locals) :
    (dao md5).front (getCspInfoAndConso csp k) s l =
      (dao md5).front (k (quotaOf s.now (s.dbs 2) csp)) (selected 2 s) l := by
  rw [getCspInfoAndConso, front_getCSPInfos, quotaOf]
  rcases readHash s.now (s.dbs 2) (provKey csp) with e | _ | infos
  · rfl
  · rfl
  · simp only
    rw [front_getCSPConso]
    rcases hr : readHash s.now (s.dbs 2) (consoKey (provKey csp)) with e | _ | conso <;>
      simp only [selected, hr]

/-- The answer with the fields of a hash. -/
def objectOutcome : Except Error (Option Hash) → Outcome
  | .ok h => .resolved (.object h)
  | .error e => .rejected (.redis e)

/-- **The answer of `getCSPInfos`.** -/
theorem outcome_getCSPInfos {key : String} {s' : Server}
    (h : (dao md5).Completes (.getCSPInfos key) s s' l) :
    l.outcome = some (objectOutcome (readHash s.now (s.dbs 2) key)) := by
  have hf : (dao md5).front ((dao md5).code (.getCSPInfos key)) s Locals.init =
      ([], selected 2 s, { Locals.init with
        outcome := some (objectOutcome (readHash s.now (s.dbs 2) key)) }) := by
    refine (front_getCSPInfos key settleObject s _).trans ?_
    cases readHash s.now (s.dbs 2) key <;> rfl
  have hend := Client.end_of_completes hf h
  rw [(Prod.mk.inj hend).2]

/-- **The answer of `getCSPConso`.** -/
theorem outcome_getCSPConso {key : String} {s' : Server}
    (h : (dao md5).Completes (.getCSPConso key) s s' l) :
    l.outcome = some (objectOutcome (readHash s.now (s.dbs 2) (consoKey key))) := by
  have hf : (dao md5).front ((dao md5).code (.getCSPConso key)) s Locals.init =
      ([], selected 2 s, { Locals.init with
        outcome := some (objectOutcome (readHash s.now (s.dbs 2) (consoKey key))) }) := by
    refine (front_getCSPConso key settleObject s _).trans ?_
    cases readHash s.now (s.dbs 2) (consoKey key) <;> rfl
  have hend := Client.end_of_completes hf h
  rw [(Prod.mk.inj hend).2]

end Front

end Broker
end QosSupport
