import QosSupport.Broker.Credentials
import QosSupport.Broker.Listing

/-!
# The HTTP interface (`broker/BrokerServer/app/routes.js`)

A route starts an operation of the broker, and answers when its promise is settled, if it has a handler for that:
`/getAppropriateTurn` and `/getAllCspInfo` handle a rejection, and the others do not. `/provRequest` does not wait.

* `HttpRequest.op`: the operation that a route starts; `respond`: its answer.
* `Served`: a request that runs to its end, alone.
* `Filled`: a key of a CSP has fields, in every state that the operations lead to.
* `unanswered_iff`: which requests are never answered. The list of CSPs, if there is none, is one of them, and so is
  the deletion of a CSP that is not there.
-/

namespace QosSupport
namespace Broker

open Redis EventLoop Js Run

/-- A request. The parameters of a query may be absent. -/
inductive HttpRequest where
  | provRequest (body : FormDatas)
  | getAppropriateTurn (cspId clientName : Option String)
  | getAllCspInfo
  | getCspConso (cspkey : Option String)
  | getCredentials (clientId : Option String)
  | deleteCSP (cspkey : Option String)
  | changeQuotas (cspKey audioQuota videoQuota dataQuota : Option String)

/-- What an operation draws: the date, `Math.random()` and a password. -/
structure Draw where
  date : String
  random : Rat
  password : String

/-- The operation that a route starts, if it does. -/
def HttpRequest.op (d : Draw) : HttpRequest → Option Op
  | provRequest body => some (.registerCSP body)
  | getAppropriateTurn cspId clientName =>
    some (.getAppropriateTurn (text cspId) (text clientName) d.date d.random)
  | getAllCspInfo => some .getAllCspInfo
  | getCspConso cspkey => some (.getCSPConso (text cspkey))
  | getCredentials clientId => some (.getCredentials (text clientId) d.password)
  | deleteCSP cspkey => cspkey.map .deleteCSP
  | changeQuotas cspKey audioQuota videoQuota dataQuota =>
    some (.updateCSPQuotas cspKey audioQuota videoQuota dataQuota)

/-- The answer to a request. -/
inductive HttpResponse where
  /-- `res.redirect('/dashboard.html')` -/
  | redirect
  /-- `res.json` -/
  | json (v : JsVal)
  /-- `res.status(code).send(error)` -/
  | send (code : Nat) (error : Reason)
  /-- `res.sendStatus(200)` -/
  | done

/-- The answer, for how the promise of the operation was settled. -/
def HttpRequest.respond : HttpRequest → Option Outcome → Option HttpResponse
  | provRequest _, _ => some .redirect
  | getAppropriateTurn _ _, some (.resolved v) => some (.json v)
  | getAppropriateTurn _ _, some (.rejected r) => some (.send 404 r)
  | getAllCspInfo, some (.resolved v) => some (.json v)
  | getAllCspInfo, some (.rejected r) => some (.send 500 r)
  | getCspConso _, some (.resolved v) => some (.json v)
  | getCredentials _, some (.resolved v) => some (.json v)
  | deleteCSP _, some (.resolved _) => some .done
  | changeQuotas _ _ _ _, some (.resolved _) => some .done
  | _, _ => none

/-- A request that runs to its end, alone, and its answer. -/
def Served (md5 : String → String) (d : Draw) (s : Server) (req : HttpRequest) (s' : Server)
    (answer : Option HttpResponse) : Prop :=
  match req.op d with
  | none => s' = s ∧ answer = req.respond none
  | some op => ∃ l, (dao md5).Completes op s s' l ∧ answer = req.respond l.outcome

/-- What is stored at the key, if anything, is a hash. -/
def HashOrNone (now : Nat) (db : Db) (key : String) : Prop :=
  ∀ e, find now db key = some e → ∃ h, e.value = .hash h

/-- The requests that are answered. -/
def Answerable (now : Nat) (db : Db) : HttpRequest → Prop
  | .getAllCspInfo => ∃ csp e, Listable csp ∧ find now db (provKey csp) = some e
  | .getCspConso cspkey => HashOrNone now db (consoKey (text cspkey))
  | .deleteCSP cspkey => ∃ k e, cspkey = some k ∧ find now db k = some e
  | .changeQuotas cspKey _ _ _ => HashOrNone now db (text cspKey)
  | _ => True

section Outcomes

variable {md5 : String → String} {s s' : Server} {l : Locals}

theorem readHash_error_iff {now : Nat} {db : Db} {key : String} :
    (∃ e, readHash now db key = .error e) ↔ ¬ HashOrNone now db key := by
  unfold readHash HashOrNone
  simp only [execDb]
  rcases hf : find now db key with _ | ⟨v | h, t⟩
  · simp [hgetallReply]
  · simp [hgetallReply]
  · simp [hgetallReply]

/-- A promise that is settled once all that is sent before has run. -/
theorem settled_of_front {op : Op} {s₁ : Server} {o : Outcome}
    (hf : (dao md5).front ((dao md5).code op) s Locals.init = (dao md5).front (settle o) s₁ Locals.init)
    (h : (dao md5).Completes op s s' l) : l.outcome = some o := by
  have hend := Client.end_of_completes (hf.trans (Client.front_quiet (quiet_settle _) _ _)) h
  rw [(Prod.mk.inj hend).2]
  rfl

/-- The record of the consumption is moved first, and it is not the key of the CSP. -/
theorem find_rename_conso (now : Nat) (db : Db) (k : String) :
    find now (execDb now (.rename (consoKey k) (histoKey (consoKey k))) db).1 k = find now db k := by
  have hlen : (consoKey k).length = k.length + 6 := String.length_append k ":conso"
  have hlen' : (histoKey (consoKey k)).length = 5 + (consoKey k).length := String.length_append "histo" (consoKey k)
  have hframe : k ∉ Cmd.writes (.rename (consoKey k) (histoKey (consoKey k))) := by
    intro hmem
    rcases List.mem_cons.mp hmem with heq | hmem
    · have := congrArg String.length heq
      omega
    · have := congrArg String.length (List.mem_singleton.mp hmem)
      omega
  rw [find, find, execDb_frame hframe]

/-- **The answer of `deleteCSP`.** -/
theorem outcome_deleteCSP {k : String} (h : (dao md5).Completes (.deleteCSP k) s s' l) :
    l.outcome = some (match find s.now (s.dbs 2) k with
      | none => .rejected (.redis .noSuchKey)
      | some _ => .resolved .one) := by
  have hreply : (exec (.rename k (histoKey k))
      (exec (.rename (consoKey k) (histoKey (consoKey k))) (selected 2 s)).1).2 =
      match find s.now (s.dbs 2) k with
      | none => .err .noSuchKey
      | some _ => .ok := by
    rw [exec_reply rfl, exec_data rfl]
    simp only [selected, Function.update_self]
    rw [execDb_rename (histoKey_ne k).symm, find_rename_conso]
    cases find s.now (s.dbs 2) k <;> rfl
  have hf : (dao md5).front ((dao md5).code (.deleteCSP k)) s Locals.init =
      (dao md5).front (deletedCSP (exec (.rename k (histoKey k))
        (exec (.rename (consoKey k) (histoKey (consoKey k))) (exec (.select 2) s).1).1).2) _ Locals.init := rfl
  rw [exec_select (by decide), hreply] at hf
  cases hfind : find s.now (s.dbs 2) k with
  | none =>
    rw [hfind] at hf
    exact settled_of_front hf h
  | some e =>
    rw [hfind] at hf
    exact settled_of_front hf h

/-- **The answer of `updateCSPQuotas`.** -/
theorem outcome_updateCSPQuotas {k a v q : Option String}
    (h : (dao md5).Completes (.updateCSPQuotas k a v q) s s' l) :
    HashOrNone s.now (s.dbs 2) (text k) ∧ l.outcome = some (.resolved (.reply .ok)) ∨
      ¬ HashOrNone s.now (s.dbs 2) (text k) ∧ IsRejected l := by
  have hf : (dao md5).front ((dao md5).code (.updateCSPQuotas k a v q)) s Locals.init =
      (dao md5).front (settleReply (exec (.hmset (text k) (quotaFields a v q)) (selected 2 s)).2) _ Locals.init :=
    front_selectAsync (by decide) _ s _
  rw [exec_reply rfl] at hf
  simp only [selected, execDb, withHash] at hf
  unfold HashOrNone
  rcases hfind : find s.now (s.dbs 2) (text k) with _ | ⟨str | hash, t⟩
  · rw [hfind] at hf
    refine .inl ⟨fun e he => ?_, settled_of_front hf h⟩
    cases he
  · rw [hfind] at hf
    refine .inr ⟨fun hall => ?_, _, settled_of_front hf h⟩
    obtain ⟨hash, hvalue⟩ := hall _ rfl
    cases hvalue
  · rw [hfind] at hf
    refine .inl ⟨fun e he => ?_, settled_of_front hf h⟩
    cases he
    exact ⟨hash, rfl⟩

end Outcomes

/-! ## The keys of the CSPs -/

/-- What is stored under `prov:` is a hash with a field, without a time to live. -/
structure Filled (db : Db) : Prop where
  prov : ProvOk db
  fields : ∀ csp h t, db.lookup (provKey csp) = some ⟨.hash h, t⟩ → h ≠ ∅

/-- `HMSET` has a field. -/
def SetsField : Cmd → Prop
  | .hmset _ fvs => fvs ≠ []
  | _ => True

section Filled

variable {now : Nat} {db : Db}

theorem insert_ne_empty (h : Hash) (f v : String) : h.insert f v ≠ ∅ := by
  intro he
  have hlookup := congrArg (Finmap.lookup f) he
  rw [Finmap.lookup_insert, Finmap.lookup_empty] at hlookup
  cases hlookup

theorem setFields_ne_empty {fvs : List (String × String)} (hne : fvs ≠ []) (h : Hash) :
    fvs.foldl (fun h fv => h.insert fv.1 fv.2) h ≠ ∅ := by
  rw [← List.dropLast_append_getLast hne, List.foldl_append]
  exact insert_ne_empty _ _ _

theorem incrField_ne_empty {f : String} {n : Int} {h h' : Hash} {r : Reply} (hF : incrField f n h = .ok (h', r)) :
    h' ≠ ∅ := by
  unfold incrField at hF
  split at hF
  · cases hF
  · split at hF
    · cases hF
      exact insert_ne_empty _ _ _
    · cases hF
  · cases hF
    exact insert_ne_empty _ _ _

theorem setnxField_ne_empty {f v : String} {h h' : Hash} {r : Reply} (hF : setnxField f v h = .ok (h', r)) :
    h' ≠ ∅ := by
  unfold setnxField at hF
  split at hF
  · rename_i hf
    cases hF
    rintro rfl
    exact Finmap.notMem_empty hf
  · cases hF
    exact insert_ne_empty _ _ _

theorem Filled.withHash (hd : Filled db) (now : Nat) (k : String) {F : Hash → Except Error (Hash × Reply)}
    (hF : ∀ h h' r, F h = .ok (h', r) → h' ≠ ∅) : Filled (withHash now db k F).1 := by
  refine ⟨provOk_withHash hd.prov now k F, fun csp h t he => ?_⟩
  by_cases hk : provKey csp = k
  · subst hk
    cases hx : F (fieldsAt now db (provKey csp)) with
    | error _ =>
      rw [withHash_error (isHash_provKey hd.prov now csp) hx] at he
      exact hd.fields csp h t he
    | ok x =>
      obtain ⟨h', r⟩ := x
      rw [withHash_ok (isHash_provKey hd.prov now csp) hx, AList.lookup_insert] at he
      cases he
      exact hF _ _ _ hx
  · rw [withHash_frame hk] at he
    exact hd.fields csp h t he

theorem Filled.insert_ne (hd : Filled db) {k : String} {e : Entry} (hk : ∀ csp, k ≠ provKey csp) :
    Filled (db.insert k e) := by
  refine ⟨provOk_insert_ne hd.prov hk, fun csp h t he => ?_⟩
  rw [AList.lookup_insert_ne (hk csp).symm] at he
  exact hd.fields csp h t he

/-- **One command** keeps that. -/
theorem Filled.execDb {c : Cmd} (hd : Filled db) (hc : KeepsProv c) (hs : SetsField c) (now : Nat) :
    Filled (execDb now c db).1 := by
  cases c with
  | select | keys => exact hd
  | get | hgetall => rw [execDb_read rfl]; exact hd
  | set k v => exact hd.insert_ne hc
  | expire k secs =>
    simp only [Redis.execDb]
    split
    · exact hd
    · exact hd.insert_ne hc
  | hsetnx k f v => exact hd.withHash now k fun _ _ _ => setnxField_ne_empty
  | hmset k fvs =>
    refine hd.withHash now k fun h h' r hF => ?_
    cases hF
    exact setFields_ne_empty hs h
  | hincrby k f by_ =>
    simp only [Redis.execDb]
    split
    · exact hd
    · exact hd.withHash now k fun _ _ _ => incrField_ne_empty
  | rename k k' =>
    refine ⟨provOk_execDb hd.prov hc now, fun csp h t he => ?_⟩
    by_cases hkk : k = k'
    · rw [hkk, execDb_rename_self] at he
      exact hd.fields csp h t he
    rw [execDb_rename hkk] at he
    split at he
    · exact hd.fields csp h t he
    · rw [AList.lookup_insert_ne (hc csp).symm] at he
      by_cases hk : provKey csp = k
      · rw [hk, AList.lookup_erase] at he
        cases he
      · rw [AList.lookup_erase_ne hk] at he
        exact hd.fields csp h t he

theorem Filled.runCmds {cs : List Cmd} (hd : Filled db) (hcs : ∀ c ∈ cs, KeepsProv c ∧ SetsField c) (now : Nat) :
    Filled (runCmds now cs db) := by
  induction cs generalizing db with
  | nil => exact hd
  | cons c cs ih =>
    obtain ⟨hc, hs⟩ := hcs c List.mem_cons_self
    exact ih (hd.execDb hc hs now) fun x hx => hcs x (List.mem_cons_of_mem _ hx)

theorem setsField_cmds (md5 : String → String) (op : Op) : ∀ c ∈ op.cmds md5 now db, SetsField c := by
  cases op with
  | updateCSPQuotas key a v d => simp [Op.cmds, SetsField, quotaFields]
  | registerCSP formDatas => simp [Op.cmds, registerCmds, SetsField]
  | addCSPConso t =>
    cases t with
    | none => simp [Op.cmds]
    | some t =>
      simp only [Op.cmds]
      split <;> simp [SetsField]
  | _ => simp [Op.cmds, SetsField]

end Filled

/-- Others write the keys of the TURN servers only. -/
def OthersForeign (_ : Server) (e : SeqEvent) : Prop := ∀ a, e = .env a → Foreign a

section Reached

variable {md5 : String → String} {s s' : Server} {seq : List SeqEvent} {e : SeqEvent}

/-- **One step** keeps that. -/
theorem filled_step (h : Seq md5 s e s') (he : OthersForeign s e) (hd : Filled (s.dbs 2)) : Filled (s'.dbs 2) := by
  refine ⟨provOk_step h he hd.prov, ?_⟩
  cases e with
  | op o =>
    obtain ⟨-, hdb⟩ := dbs_of_seq h
    rw [hdb]
    split
    · exact (hd.runCmds (fun c hc => ⟨keepsProv_cmds md5 o c hc, setsField_cmds md5 o c hc⟩) s.now).fields
    · exact hd.fields
  | env a =>
    obtain rfl : s' = a.act s := h
    intro csp h t hl
    rw [lookup_foreign (he a rfl)] at hl
    exact hd.fields csp h t hl

/-- **Every run** from an empty database. -/
theorem filled_run (hempty : Empty2 s) (hrun : Steps (Seq md5) OthersForeign s seq s') : Filled (s'.dbs 2) := by
  have hinit : Filled (s.dbs 2) := by
    refine ⟨provOk_empty hempty, fun csp h t he => ?_⟩
    rw [hempty] at he
    cases he
  refine hrun.inv (I := fun s : Server => Filled (s.dbs 2)) ?_ hinit
  intro s e s' hd he hst
  exact filled_step hst he hd

/-- What `getAllCspInfo` reads. -/
theorem Filled.read {now : Nat} {db : Db} (hd : Filled db) : ∀ k ∈ cspKeys (provKeys now db),
    (∃ t, find now db k = some ⟨.hash (fieldsAt now db k), t⟩) ∧ fieldsAt now db k ≠ ∅ := by
  intro k hk
  obtain ⟨csp, rfl, -, e, he⟩ := mem_cspKeys.mp hk
  have hlookup := he
  rw [find_provKey hd.prov] at hlookup
  obtain ⟨h, rfl⟩ := hd.prov csp e hlookup
  have hfields : fieldsAt now db (provKey csp) = h := by rw [fieldsAt, he]
  rw [hfields]
  exact ⟨⟨none, he⟩, hd.fields csp h none hlookup⟩

theorem cspKeys_eq_nil_iff {now : Nat} {db : Db} : cspKeys (provKeys now db) = [] ↔
    ¬ ∃ csp e, Listable csp ∧ find now db (provKey csp) = some e := by
  rw [List.eq_nil_iff_forall_not_mem]
  constructor
  · rintro hnil ⟨csp, e, hl, he⟩
    exact hnil _ (mem_cspKeys.mpr ⟨csp, rfl, hl, e, he⟩)
  · intro hno k hk
    obtain ⟨csp, rfl, hl, e, he⟩ := mem_cspKeys.mp hk
    exact hno ⟨csp, e, hl, he⟩

end Reached

/-- **Which requests are never answered.** In every state that operations lead to from an empty database, while
others write the keys of the TURN servers only: the list of CSPs if there is none, the consumption or the quotas of a
key that is no hash, and the deletion without a key or of a key that is not there. -/
theorem unanswered_iff (md5 : String → String) (d : Draw) {s₀ s s' : Server} {seq : List SeqEvent} {req : HttpRequest}
    {answer : Option HttpResponse} (hempty : Empty2 s₀) (hrun : Steps (Seq md5) OthersForeign s₀ seq s)
    (h : Served md5 d s req s' answer) : answer = none ↔ ¬ Answerable s.now (s.dbs 2) req := by
  cases req with
  | provRequest body =>
    obtain ⟨l, -, rfl⟩ := h
    simp [HttpRequest.respond, Answerable]
  | getAppropriateTurn cspId clientName =>
    obtain ⟨l, hdone, rfl⟩ := h
    obtain ⟨⟨r, hr⟩, -⟩ | ⟨⟨v, hv⟩, -⟩ := answer_cases hdone
    · simp [hr, HttpRequest.respond, Answerable]
    · simp [hv, HttpRequest.respond, Answerable]
  | getAllCspInfo =>
    obtain ⟨l, hdone, rfl⟩ := h
    show _ ↔ ¬ ∃ csp e, Listable csp ∧ find s.now (s.dbs 2) (provKey csp) = some e
    rw [← cspKeys_eq_nil_iff]
    obtain ⟨hnil, hl⟩ | ⟨ts, hts, hperm, hl⟩ := outcome_getAllCspInfo hdone (filled_run hempty hrun).read
    · simp [hl, HttpRequest.respond, hnil]
    · have hne : cspKeys (provKeys s.now (s.dbs 2)) ≠ [] := fun hnil => hts (List.perm_nil.mp (hnil ▸ hperm))
      simp [hl, HttpRequest.respond, hne]
  | getCspConso cspkey =>
    obtain ⟨l, hdone, rfl⟩ := h
    show _ ↔ ¬ HashOrNone s.now (s.dbs 2) (consoKey (text cspkey))
    rw [outcome_getCSPConso hdone, ← readHash_error_iff]
    cases readHash s.now (s.dbs 2) (consoKey (text cspkey)) <;> simp [objectOutcome, HttpRequest.respond]
  | getCredentials clientId =>
    obtain ⟨l, hdone, rfl⟩ := h
    simp [outcome_getCredentials hdone, HttpRequest.respond, Answerable]
  | deleteCSP cspkey =>
    cases cspkey with
    | none =>
      obtain ⟨-, rfl⟩ := h
      simp [HttpRequest.respond, Answerable]
    | some k =>
      obtain ⟨l, hdone, rfl⟩ := h
      rw [outcome_deleteCSP hdone]
      cases hfind : find s.now (s.dbs 2) k <;> simp [HttpRequest.respond, Answerable, hfind]
  | changeQuotas cspKey audioQuota videoQuota dataQuota =>
    obtain ⟨l, hdone, rfl⟩ := h
    show _ ↔ ¬ HashOrNone s.now (s.dbs 2) (text cspKey)
    obtain ⟨hok, hl⟩ | ⟨hno, r, hr⟩ := outcome_updateCSPQuotas hdone
    · simp [hl, HttpRequest.respond, hok]
    · simp [hr, HttpRequest.respond, hno]

/-- The dashboard gets its list while a CSP is registered, and waits for it when the last one is deleted. -/
theorem unanswered_iff_lastDeleted :
    (∃ s s' answer, Steps (Seq id) OthersForeign blank [.op (.registerCSP (nameOnly "c"))] s ∧
      Served id ⟨"d", 0, "pw"⟩ s .getAllCspInfo s' answer ∧ answer ≠ none) ∧
    ∃ s s' answer, Steps (Seq id) OthersForeign blank
        [.op (.registerCSP (nameOnly "c")), .op (.deleteCSP "prov:c")] s ∧
      Served id ⟨"d", 0, "pw"⟩ s .getAllCspInfo s' answer ∧ answer = none := by
  let s₁ := (Op.registerCSP (nameOnly "c")).after id blank
  let s₂ := (Op.deleteCSP "prov:c").after id s₁
  have hrun : Steps (Seq id) OthersForeign blank [.op (.registerCSP (nameOnly "c"))] s₁ :=
    .one nofun (seq_after id _ _)
  have hrun' : Steps (Seq id) OthersForeign blank
      [.op (.registerCSP (nameOnly "c")), .op (.deleteCSP "prov:c")] s₂ :=
    .cons nofun (seq_after id _ _) (.one nofun (seq_after id _ _))
  have hserved : ∀ s, ∃ s' answer, Served id ⟨"d", 0, "pw"⟩ s .getAllCspInfo s' answer := fun s =>
    have ⟨s', l, hdone⟩ := Client.exists_completes (dao id) .getAllCspInfo s
    ⟨s', _, l, hdone, rfl⟩
  have hempty : Empty2 blank := rfl
  obtain ⟨s', answer, h⟩ := hserved s₁
  obtain ⟨s'', answer', h'⟩ := hserved s₂
  refine ⟨⟨s₁, s', answer, hrun, h, fun hnone => ?_⟩, s₂, s'', answer', hrun', h',
    (unanswered_iff id _ hempty hrun' h').mpr ?_⟩
  · have hnil := cspKeys_eq_nil_iff.mpr ((unanswered_iff id _ hempty hrun h).mp hnone)
    exact absurd hnil (by decide +kernel)
  · exact cspKeys_eq_nil_iff.mp (by decide +kernel)

end Broker
end QosSupport
