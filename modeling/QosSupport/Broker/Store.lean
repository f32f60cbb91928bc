import QosSupport.Lib.Run
import QosSupport.Broker.Keys

/-!
# The provisioning store under operations that do not overlap

* `Seq`: complete operations of the DAO, one after the other, and in between what else happens to the
  server (`Foreign`: time passes, TURN servers come and go).
* `ProvOk`: what is stored under `prov:` is a hash without a time to live. Every step keeps it
  (`provOk_step`), so that the clock does not matter for these keys.
* `View`: the abstract store, the fields of each CSP. `view_cases` says what one step does to it.
-/

namespace QosSupport
namespace Broker

open Redis EventLoop Run

/-! ## Sequences of operations -/

/-- An operation runs alone to its end, or something else happens to the server. -/
inductive SeqEvent where
  | op (o : Op)
  | env (a : Env)

/-- One step of a sequence. -/
def Seq (md5 : String → String) (s : Server) : SeqEvent → Server → Prop
  | .op o, s' => ∃ l, (dao md5).Completes o s s' l
  | .env a, s' => s' = a.act s

/-- Time passes, or another client writes the keys of the TURN servers. -/
def Foreign : Env → Prop
  | .tick _ => True
  | .client n c => n = 2 → ∀ k ∈ c.writes, ∃ name, k = "turnservers:" ++ name

theorem turnservers_ne_provKey (name csp : String) : "turnservers:" ++ name ≠ provKey csp :=
  ne_of_head (by simp [provKey])

/-! ## Hashes without a time to live -/

/-- What is stored under `prov:` is a hash without a time to live. -/
def ProvOk (db : Db) : Prop :=
  ∀ csp e, db.lookup (provKey csp) = some e → ∃ h, e = ⟨.hash h, none⟩

section ProvOk

variable {now : Nat} {db : Db}

theorem find_provKey (h : ProvOk db) (now : Nat) (csp : String) :
    find now db (provKey csp) = db.lookup (provKey csp) := by
  unfold find
  cases hl : db.lookup (provKey csp) with
  | none => rfl
  | some e =>
    obtain ⟨f, rfl⟩ := h csp e hl
    rfl

theorem isHash_provKey (h : ProvOk db) (now : Nat) (csp : String) :
    IsHash now db (provKey csp) := by
  intro e he
  rw [find_provKey h] at he
  obtain ⟨f, rfl⟩ := h csp e he
  exact ⟨f, rfl⟩

theorem expiry_provKey (h : ProvOk db) (now : Nat) (csp : String) :
    expiry now db (provKey csp) = none := by
  unfold expiry
  rw [find_provKey h]
  cases hl : db.lookup (provKey csp) with
  | none => rfl
  | some e =>
    obtain ⟨f, rfl⟩ := h csp e hl
    rfl

/-- The command stores no string and no time to live under `prov:`, and moves nothing there. -/
def KeepsProv : Cmd → Prop
  | .set k _ | .expire k _ | .rename _ k => ∀ csp, k ≠ provKey csp
  | _ => True

theorem provOk_insert_ne (h : ProvOk db) {k : String} {e : Entry} (hk : ∀ csp, k ≠ provKey csp) :
    ProvOk (db.insert k e) := by
  intro csp e' he
  rw [AList.lookup_insert_ne (hk csp).symm] at he
  exact h csp e' he

theorem provOk_withHash (h : ProvOk db) (now : Nat) (k : String)
    (F : Hash → Except Error (Hash × Reply)) : ProvOk (withHash now db k F).1 := by
  intro csp e he
  by_cases hk : provKey csp = k
  · subst hk
    cases hF : F (fieldsAt now db (provKey csp)) with
    | error _ =>
      rw [withHash_error (isHash_provKey h now csp) hF] at he
      exact h csp e he
    | ok x =>
      obtain ⟨f, r⟩ := x
      rw [withHash_ok (isHash_provKey h now csp) hF, AList.lookup_insert,
        expiry_provKey h] at he
      cases he
      exact ⟨f, rfl⟩
  · rw [withHash_frame hk] at he
    exact h csp e he

theorem provOk_execDb {c : Cmd} (h : ProvOk db) (hc : KeepsProv c) (now : Nat) :
    ProvOk (execDb now c db).1 := by
  cases c with
  | select | keys => exact h
  | get | hgetall => rw [execDb_read rfl]; exact h
  | set k v => exact provOk_insert_ne h hc
  | expire k secs =>
    simp only [execDb]
    split
    · exact h
    · exact provOk_insert_ne h hc
  | hsetnx k f v => exact provOk_withHash h now k _
  | hmset k fvs => exact provOk_withHash h now k _
  | hincrby k f by_ =>
    simp only [execDb]
    split
    · exact h
    · exact provOk_withHash h now k _
  | rename k k' =>
    by_cases hkk : k = k'
    · rw [hkk, execDb_rename_self]
      exact h
    rw [execDb_rename hkk]
    split
    · exact h
    · refine provOk_insert_ne (fun csp e he => ?_) hc
      by_cases hk : provKey csp = k
      · rw [hk, AList.lookup_erase] at he
        cases he
      · rw [AList.lookup_erase_ne hk] at he
        exact h csp e he

theorem provOk_runCmds {cs : List Cmd} (h : ProvOk db) (hcs : ∀ c ∈ cs, KeepsProv c) (now : Nat) :
    ProvOk (runCmds now cs db) := by
  induction cs generalizing db with
  | nil => exact h
  | cons c cs ih =>
    exact ih (provOk_execDb h (hcs c List.mem_cons_self) now)
      fun x hx => hcs x (List.mem_cons_of_mem _ hx)

/-- Every operation keeps the form of what is stored. -/
theorem keepsProv_cmds (md5 : String → String) (op : Op) :
    ∀ c ∈ op.cmds md5 now db, KeepsProv c := by
  cases op with
  | registerCSP formDatas => simp [Op.cmds, registerCmds, KeepsProv]
  | registerUser csp user => simp [Op.cmds, KeepsProv, usersKey_ne_provKey]
  | getAppropriateTurn csp name date random => simp [Op.cmds, KeepsProv, usersKey_ne_provKey]
  | getCredentials clientId password => simp [Op.cmds, KeepsProv, credentialKey_ne_provKey]
  | getAllCspInfo | getCSPInfos | getCSPConso | getTurnServers => simp [Op.cmds]
  | deleteCSP key => simp [Op.cmds, KeepsProv, histoKey_ne_provKey]
  | updateCSPQuotas key a v d => simp [Op.cmds, KeepsProv]
  | addCSPConso t =>
    cases t with
    | none => simp [Op.cmds]
    | some t =>
      simp only [Op.cmds]
      split <;> simp [KeepsProv]

end ProvOk

/-- Every operation can run to its end, in every state. -/
theorem seq_after (md5 : String → String) (op : Op) (s : Server) :
    Seq md5 s (.op op) (op.after md5 s) := by
  obtain ⟨s', l, h⟩ := Client.exists_completes (dao md5) op s
  rw [← server_of_completes h]
  exact ⟨l, h⟩

/-- The server after some operations, one after the other. -/
def afterAll (ops : List Op) : Server := ops.foldl (fun s o => o.after id s) blank

/-- What an operation does to database `2`. -/
theorem dbs_of_seq {md5 : String → String} {op : Op} {s s' : Server} (h : Seq md5 s (.op op) s') :
    s'.now = s.now ∧ s'.dbs 2 = if op.db = 2 then
      runCmds s.now (op.cmds md5 s.now (s.dbs 2)) (s.dbs 2) else s.dbs 2 := by
  obtain ⟨l, h⟩ := h
  obtain rfl := server_of_completes h
  refine ⟨rfl, ?_⟩
  split
  · rename_i hdb
    exact after_dbs s hdb
  · rename_i hdb
    simp [Op.after, within, selected, Function.update_of_ne (Ne.symm hdb)]

/-- What others do leaves what is stored under `prov:` alone. -/
theorem lookup_foreign {a : Env} (h : Foreign a) (s : Server) (csp : String) :
    ((a.act s).dbs 2).lookup (provKey csp) = (s.dbs 2).lookup (provKey csp) := by
  cases a with
  | tick secs => rfl
  | client n c =>
    by_cases hn : n = 2
    · subst hn
      simp only [Env.act, Function.update_self]
      refine execDb_frame fun hk => ?_
      obtain ⟨name, hname⟩ := h rfl _ hk
      exact turnservers_ne_provKey name csp hname.symm
    · simp [Env.act, Function.update_of_ne (Ne.symm hn)]

/-- **One step** keeps the form of what is stored. -/
theorem provOk_step {md5 : String → String} {s s' : Server} {e : SeqEvent} (h : Seq md5 s e s')
    (he : ∀ a, e = .env a → Foreign a) (hs : ProvOk (s.dbs 2)) : ProvOk (s'.dbs 2) := by
  cases e with
  | op o =>
    obtain ⟨-, hdb⟩ := dbs_of_seq h
    rw [hdb]
    split
    · rename_i h2
      exact provOk_runCmds hs (keepsProv_cmds md5 o) s.now
    · exact hs
  | env a =>
    obtain rfl : s' = a.act s := h
    intro csp e hl
    rw [lookup_foreign (he a rfl)] at hl
    exact hs csp e hl

/-- Nothing is stored in database `2`. -/
def Empty2 (s : Server) : Prop := s.dbs 2 = ∅

theorem provOk_empty {s : Server} (h : Empty2 s) : ProvOk (s.dbs 2) := by
  intro csp e he
  rw [h] at he
  cases he

/-! ## The fields of the CSPs -/

/-- The abstract store: the fields of each CSP. -/
abbrev View := String → String → Option String

/-- The store that a database holds. -/
def view (now : Nat) (db : Db) : View := fun csp f => field now db (provKey csp) f

/-- The name under which the consumption of a CSP is stored. -/
def conso (csp : String) : String := csp ++ ":conso"

theorem conso_inj {x y : String} : conso x = conso y ↔ x = y := by simp [conso]

theorem conso_ne (csp : String) : conso csp ≠ csp := by
  intro h
  have hl := congrArg String.length h
  simp [conso] at hl

theorem consoKey_prov (csp : String) : consoKey (provKey csp) = provKey (conso csp) :=
  consoKey_provKey csp

section View

variable {now now' : Nat} {db db' : Db} {md5 : String → String}

/-- Only what is stored under `prov:` matters, not the clock. -/
theorem view_congr (h : ProvOk db) (h' : ProvOk db')
    (hl : ∀ csp, db'.lookup (provKey csp) = db.lookup (provKey csp)) :
    view now' db' = view now db := by
  funext csp f
  simp only [view, field, fieldsAt, find_provKey h, find_provKey h', hl csp]

theorem view_foreign {a : Env} (ha : Foreign a) {s : Server} (hs : ProvOk (s.dbs 2)) :
    view (a.act s).now ((a.act s).dbs 2) = view s.now (s.dbs 2) := by
  refine view_congr hs (fun csp e he => ?_) fun csp => lookup_foreign ha s csp
  rw [lookup_foreign ha] at he
  exact hs csp e he

/-- The fields of a new CSP. -/
def registered (formDatas : FormDatas) : View := fun csp f =>
  if csp = text formDatas.servicename then
    if f = "audioQuota" then some (optionalQuota formDatas.audio)
    else if f = "videoQuota" then some (optionalQuota formDatas.video)
    else if f = "dataQuota" then some (dataQuota formDatas.qdata)
    else if f = "conso" then some (provKey (conso (text formDatas.servicename)))
    else none
  else if csp = conso (text formDatas.servicename) then
    if f = "audio" ∨ f = "video" ∨ f = "data" then some "0" else none
  else none

theorem find_registerFields (formDatas : FormDatas) (csp f : String) :
    ((registerFields formDatas).find? fun x => x.1 = provKey csp ∧ x.2.1 = f).map (·.2.2) =
      registered formDatas csp f := by
  simp only [registerFields, registered, List.find?_cons, consoKey_prov, provKey_inj, List.find?_nil]
  by_cases h1 : csp = text formDatas.servicename
  · subst h1
    have hne := conso_ne (text formDatas.servicename)
    simp only [hne, true_and, false_and, decide_false, if_true]
    by_cases ha : f = "audioQuota"
    · subst ha; rfl
    by_cases hv : f = "videoQuota"
    · subst hv; rfl
    by_cases hd : f = "dataQuota"
    · subst hd; rfl
    by_cases hc : f = "conso"
    · subst hc; rfl
    simp [ha, hv, hd, hc, Ne.symm ha, Ne.symm hv, Ne.symm hd, Ne.symm hc]
  · by_cases h2 : csp = conso (text formDatas.servicename)
    · subst h2
      have hne := (conso_ne (text formDatas.servicename)).symm
      simp only [hne, h1, true_and, false_and, decide_false, if_true, if_false]
      by_cases ha : f = "audio"
      · subst ha; rfl
      by_cases hv : f = "video"
      · subst hv; rfl
      by_cases hd : f = "data"
      · subst hd; rfl
      simp [ha, hv, hd, Ne.symm ha, Ne.symm hv, Ne.symm hd]
    · simp [h1, h2, Ne.symm h1, Ne.symm h2]

/-- `registerCSP` adds the fields that are not there. -/
theorem view_register (h : ProvOk db) (formDatas : FormDatas) (csp f : String) :
    view now (runCmds now ((Op.registerCSP formDatas).cmds md5 now db) db) csp f =
      (view now db csp f).or (registered formDatas csp f) := by
  have hh := isHash_provKey h now
  have hc : IsHash now db (consoKey (provKey (text formDatas.servicename))) := by
    rw [consoKey_prov]
    exact hh _
  rw [view, Op.cmds, field_register (hh _) hc, find_registerFields]
  rfl

/-- The names of the quotas. -/
def quotaNames : List String := ["audioQuota", "videoQuota", "dataQuota"]

/-- The names of the fields of a consumption. -/
def meterNames : List String := ["audio", "video", "data"]

section Registered

variable (formDatas : FormDatas) (csp : String)

theorem registered_conso : (registered formDatas csp "conso").isSome =
    decide (csp = text formDatas.servicename) := by
  simp only [registered]
  by_cases h : csp = text formDatas.servicename
  · simp [h]
  · by_cases h' : csp = conso (text formDatas.servicename) <;> simp [h, h', conso_ne]

theorem registered_quota {f : String} (hf : f ∈ quotaNames) :
    (registered formDatas csp f).isSome = decide (csp = text formDatas.servicename) := by
  simp only [quotaNames, List.mem_cons, List.not_mem_nil, or_false] at hf
  simp only [registered]
  by_cases h : csp = text formDatas.servicename
  · rcases hf with rfl | rfl | rfl <;> simp [h]
  · by_cases h' : csp = conso (text formDatas.servicename) <;>
      rcases hf with rfl | rfl | rfl <;> simp [h, h', conso_ne]

theorem registered_meter {f : String} (hf : f ∈ meterNames) : registered formDatas csp f =
    if csp = conso (text formDatas.servicename) then some "0" else none := by
  simp only [meterNames, List.mem_cons, List.not_mem_nil, or_false] at hf
  simp only [registered]
  by_cases h : csp = text formDatas.servicename
  · have hne : csp ≠ conso (text formDatas.servicename) := by
      rw [h]
      exact (conso_ne _).symm
    rcases hf with rfl | rfl | rfl <;> simp [h, (conso_ne _).symm]
  · rcases hf with rfl | rfl | rfl <;> simp [h]

end Registered

/-- `deleteCSP` takes the fields of both keys away. -/
theorem view_delete (k csp f : String) :
    view now (runCmds now ((Op.deleteCSP k).cmds md5 now db) db) csp f =
      if provKey csp = k ∨ provKey csp = consoKey k then none else view now db csp f := by
  have hne : ∀ x, provKey csp ≠ histoKey x := fun x h => histoKey_ne_provKey x csp h.symm
  show field now (execDb now (.rename k _) (execDb now (.rename (consoKey k) _) db).1).1 _ f = _
  rw [field_rename (hne _), field_rename (hne _), view]
  by_cases h1 : provKey csp = k
  · simp [h1]
  · simp [h1]

/-- A deletion takes all fields of a name away, or none. -/
theorem deleted_all_or_none {v v' : View} {k : String}
    (hv : ∀ csp f, v' csp f = if provKey csp = k ∨ provKey csp = consoKey k then none else v csp f)
    (csp : String) : (∀ f, v' csp f = none) ∨ ∀ f, v' csp f = v csp f := by
  by_cases hd : provKey csp = k ∨ provKey csp = consoKey k
  · exact .inl fun f => by rw [hv, if_pos hd]
  · exact .inr fun f => by rw [hv, if_neg hd]

/-- `addCSPConso` increments the consumption of the CSP it finds. -/
theorem view_charge (md5 : String → String) (h : ProvOk db) {t : TrafficRecord} {c : String}
    (hc : chargedCSP now db t.user = some c) (csp f : String) :
    view now (runCmds now ((Op.addCSPConso (some t)).cmds md5 now db) db) csp f =
      if csp = conso c ∧ f = "data" then
        match incremented (view now db (conso c) "data") t.sent_bytes with
        | some v => some (toString v)
        | none => view now db (conso c) "data"
      else view now db csp f := by
  have hcmds : (Op.addCSPConso (some t)).cmds md5 now db =
      [.hincrby (provKey (conso c)) "data" t.sent_bytes] := by
    simp only [Op.cmds, hc, consoKey_prov]
  rw [hcmds]
  show field now (execDb now _ db).1 (provKey csp) f = _
  by_cases hk : csp = conso c ∧ f = "data"
  · obtain ⟨rfl, rfl⟩ := hk
    rw [field_hincrby_self (isHash_provKey h now _), if_pos ⟨rfl, rfl⟩]
    rfl
  · rw [if_neg hk, field_hincrby_ne]
    · rfl
    · by_cases hcsp : csp = conso c
      · exact .inr fun hf => hk ⟨hcsp, hf⟩
      · exact .inl fun h => hcsp (provKey_inj.mp h)

/-- `updateCSPQuotas` changes only the quotas, and removes nothing. -/
theorem view_update (k a v d : Option String) (csp f : String) :
    (f ∉ quotaNames → view now (runCmds now ((Op.updateCSPQuotas k a v d).cmds md5 now db) db) csp f =
      view now db csp f) ∧
    ((view now db csp f).isSome = true →
      (view now (runCmds now ((Op.updateCSPQuotas k a v d).cmds md5 now db) db) csp f).isSome = true) :=
  ⟨fun hf => field_hmset_ne hf, fun hs => isSome_field_hmset hs⟩

/-- The operations that write no key of a CSP. -/
theorem view_other (h : ProvOk db) {op : Op}
    (hw : ∀ c ∈ op.cmds md5 now db, ∀ csp, provKey csp ∉ c.writes) :
    view now (runCmds now (op.cmds md5 now db) db) = view now db :=
  view_congr h (provOk_runCmds h (keepsProv_cmds md5 op) now) fun csp =>
    runCmds_frame fun c hc => hw c hc csp

end View

/-- The store after an operation on database `2`. -/
theorem view_of_seq {md5 : String → String} {op : Op} {s s' : Server} (h : Seq md5 s (.op op) s')
    (hdb : op.db = 2) : view s'.now (s'.dbs 2) =
      view s.now (runCmds s.now (op.cmds md5 s.now (s.dbs 2)) (s.dbs 2)) := by
  obtain ⟨h1, h2⟩ := dbs_of_seq h
  rw [h1, h2, if_pos hdb]

/-- The operations that leave the store alone. -/
def Op.Bystander : Op → Prop
  | .registerCSP _ | .deleteCSP _ | .updateCSPQuotas _ _ _ _ | .addCSPConso (some _) => False
  | _ => True

theorem view_bystander {md5 : String → String} {op : Op} {s s' : Server} (hop : op.Bystander)
    (hs : ProvOk (s.dbs 2)) (h : Seq md5 s (.op op) s') :
    view s'.now (s'.dbs 2) = view s.now (s.dbs 2) := by
  obtain ⟨hnow, hdb⟩ := dbs_of_seq h
  rw [hnow, hdb]
  split
  · rename_i h2
    refine view_other hs ?_
    have hne : ∀ u csp, provKey csp ≠ usersKey u := fun u csp h => usersKey_ne_provKey u csp h.symm
    cases op with
    | registerCSP | deleteCSP | updateCSPQuotas => exact hop.elim
    | addCSPConso t =>
      cases t with
      | none => simp [Op.cmds]
      | some t => exact hop.elim
    | registerUser csp user => simp [Op.cmds, Cmd.writes, hne]
    | getAppropriateTurn csp name date random => simp [Op.cmds, Cmd.writes, hne]
    | getCredentials clientId password => cases h2
    | getAllCspInfo | getCSPInfos | getCSPConso | getTurnServers => simp [Op.cmds]
  · rfl

/-- **What one step does to the store.** -/
theorem view_cases {md5 : String → String} {s s' : Server} {e : SeqEvent} (h : Seq md5 s e s')
    (he : ∀ a, e = .env a → Foreign a) (hs : ProvOk (s.dbs 2)) :
    view s'.now (s'.dbs 2) = view s.now (s.dbs 2) ∨
    (∃ formDatas, e = .op (.registerCSP formDatas) ∧ ∀ csp f, view s'.now (s'.dbs 2) csp f =
      (view s.now (s.dbs 2) csp f).or (registered formDatas csp f)) ∨
    (∃ k a v d, e = .op (.updateCSPQuotas k a v d) ∧ ∀ csp f,
      (f ∉ quotaNames → view s'.now (s'.dbs 2) csp f = view s.now (s.dbs 2) csp f) ∧
      ((view s.now (s.dbs 2) csp f).isSome = true →
        (view s'.now (s'.dbs 2) csp f).isSome = true)) ∨
    (∃ k, e = .op (.deleteCSP k) ∧ ∀ csp f, view s'.now (s'.dbs 2) csp f =
      if provKey csp = k ∨ provKey csp = consoKey k then none else view s.now (s.dbs 2) csp f) ∨
    (∃ t c, e = .op (.addCSPConso (some t)) ∧ chargedCSP s.now (s.dbs 2) t.user = some c ∧
      ∀ csp f, view s'.now (s'.dbs 2) csp f =
        if csp = conso c ∧ f = "data" then
          match incremented (view s.now (s.dbs 2) (conso c) "data") t.sent_bytes with
          | some v => some (toString v)
          | none => view s.now (s.dbs 2) (conso c) "data"
        else view s.now (s.dbs 2) csp f) := by
  cases e with
  | env a =>
    obtain rfl : s' = a.act s := h
    exact .inl (view_foreign (he a rfl) hs)
  | op o =>
    by_cases hb : o.Bystander
    · exact .inl (view_bystander hb hs h)
    cases o with
    | registerCSP formDatas =>
      rw [view_of_seq h rfl]
      exact .inr (.inl ⟨formDatas, rfl, view_register hs formDatas⟩)
    | updateCSPQuotas k a v d =>
      rw [view_of_seq h rfl]
      exact .inr (.inr (.inl ⟨k, a, v, d, rfl, view_update k a v d⟩))
    | deleteCSP k =>
      rw [view_of_seq h rfl]
      exact .inr (.inr (.inr (.inl ⟨k, rfl, view_delete k⟩)))
    | addCSPConso t =>
      cases t with
      | none => exact absurd trivial hb
      | some t =>
        rw [view_of_seq h rfl]
        cases hc : chargedCSP s.now (s.dbs 2) t.user with
        | none => exact .inl (by simp [Op.cmds, hc, runCmds])
        | some c => exact .inr (.inr (.inr (.inr ⟨t, c, rfl, hc, view_charge md5 hs hc⟩)))
    | _ => exact absurd trivial hb

end Broker
end QosSupport
