import QosSupport.Broker.Gate

/-!
# Who gets credentials

The gate (`getAppropriateTurn`) and the issuing of credentials (`getCredentials`) are separate requests. The
client's id is what connects them, and `getCredentials` takes it from its caller.

* `Answered`: a sequence of calls with their answers; between the calls, others act on the server.
* `credentials_of_calls`: a credential is written only by a call of `getCredentials` for exactly that
  client's id, and every such call is answered. Where `getAppropriateTurn` resolved with an id, the CSP was
  provisioned and its consumption did not exceed its quota at that time.
* `credential_without_gate`: no call of `getAppropriateTurn` is needed for a credential.
-/

namespace QosSupport
namespace Broker

open Redis EventLoop Js Run

/-- A call that runs to its end, with its answer, or something else that happens to the server. -/
inductive CallEvent where
  | call (op : Op) (answer : Option Outcome)
  | env (a : Env)

/-- One step of a sequence of calls. -/
def Answered (md5 : String → String) (s : Server) : CallEvent → Server → Prop
  | .call op answer, s' => ∃ l, (dao md5).Completes op s s' l ∧ l.outcome = answer
  | .env a, s' => s' = a.act s

/-- Nobody else writes credentials. -/
def OnlyBroker (_ : Server) : CallEvent → Prop
  | .env (.client n c) => n = 0 → ∀ clientId, credentialKey clientId ∉ c.writes
  | _ => True

/-- The credential that is stored for a client. -/
def credentialOf (s : Server) (clientId : String) : Option Entry :=
  (s.dbs 0).lookup (credentialKey clientId)

/-- For every credential that a sequence of calls writes, a call of `getAppropriateTurn` in it resolved with
the client's id. -/
def Gated (s : Server) (evs : List CallEvent) (s' : Server) : Prop :=
  ∀ clientId, credentialOf s' clientId ≠ credentialOf s clientId →
    ∃ csp name date random turnUrl, CallEvent.call (.getAppropriateTurn csp name date random)
      (some (.resolved (.turn turnUrl clientId))) ∈ evs

theorem credentialKey_inj {x y : String} : credentialKey x = credentialKey y ↔ x = y := by
  simp [credentialKey]

section Calls

variable {md5 : String → String} {s s' : Server} {l : Locals} {clientId password : String}

/-- Only `getCredentials` changes the first database. -/
theorem dbs_zero {op : Op} (h : op.db = 2) (s : Server) : (op.after md5 s).dbs 0 = s.dbs 0 := by
  simp [Op.after, within, selected, h]

theorem credentialOf_getCredentials (x : String) :
    credentialOf ((Op.getCredentials clientId password).after md5 s) x =
      if x = clientId then some ⟨.str (md5 (clientId ++ ":" ++ realm ++ ":" ++ password)), none⟩
      else credentialOf s x := by
  have hdb : ((Op.getCredentials clientId password).after md5 s).dbs 0 =
      (s.dbs 0).insert (credentialKey clientId)
        ⟨.str (md5 (clientId ++ ":" ++ realm ++ ":" ++ password)), none⟩ := by
    simp [Op.after, Op.db, Op.cmds, within, selected, runCmds, execDb]
  rw [credentialOf, hdb]
  split
  · rename_i hx
    rw [hx, AList.lookup_insert]
  · rename_i hx
    exact AList.lookup_insert_ne fun he => hx (credentialKey_inj.mp he)

/-- **One step** changes a credential only as a call of `getCredentials` for this client's id. -/
theorem credentialOf_step {e : CallEvent} (h : Answered md5 s e s') (he : OnlyBroker s e)
    (x : String) : credentialOf s' x = credentialOf s x ∨ ∃ password answer,
      e = .call (.getCredentials x password) answer ∧
      credentialOf s' x = some ⟨.str (md5 (x ++ ":" ++ realm ++ ":" ++ password)), none⟩ := by
  cases e with
  | call op answer =>
    obtain ⟨l, h, -⟩ := h
    obtain rfl := server_of_completes h
    by_cases hdb : op.db = 2
    · exact .inl (by rw [credentialOf, dbs_zero hdb]; rfl)
    · cases op with
      | getCredentials clientId password =>
        rw [credentialOf_getCredentials]
        split
        · rename_i hx
          subst hx
          exact .inr ⟨password, answer, rfl, rfl⟩
        · exact .inl rfl
      | _ => exact absurd rfl hdb
  | env a =>
    obtain rfl : s' = a.act s := h
    cases a with
    | tick secs => exact .inl rfl
    | client n c =>
      refine .inl ?_
      by_cases hn : n = 0
      · subst hn
        simp only [credentialOf, Env.act, Function.update_self]
        exact execDb_frame (he rfl x)
      · simp [credentialOf, Env.act, Function.update_of_ne (Ne.symm hn)]

/-- **A whole sequence of calls.** -/
theorem credentialOf_run {evs : List CallEvent} (h : Steps (Answered md5) OnlyBroker s evs s')
    (x : String) : credentialOf s' x = credentialOf s x ∨ ∃ password answer,
      CallEvent.call (.getCredentials x password) answer ∈ evs ∧
      credentialOf s' x = some ⟨.str (md5 (x ++ ":" ++ realm ++ ":" ++ password)), none⟩ := by
  induction h with
  | nil s => exact .inl rfl
  | cons he hst _ ih =>
    rcases ih with hsame | ⟨password, answer, hmem, hval⟩
    · rcases credentialOf_step hst he x with hstep | ⟨password, answer, rfl, hval⟩
      · exact .inl (hsame.trans hstep)
      · exact .inr ⟨password, answer, List.mem_cons_self, hsame.trans hval⟩
    · exact .inr ⟨password, answer, List.mem_cons_of_mem _ hmem, hval⟩

/-- **The answer of `getCredentials`**, for every client's id. -/
theorem outcome_getCredentials
    (h : (dao md5).Completes (.getCredentials clientId password) s s' l) :
    l.outcome = some (.resolved (.credentials clientId password)) := by
  have hf : (dao md5).front ((dao md5).code (.getCredentials clientId password)) s
      (dao md5).init = (dao md5).front (resolve (.credentials clientId password))
        ((Op.getCredentials clientId password).after md5 s) Locals.init := by
    refine (front_selectAsync (by decide) _ s _).trans ?_
    show (dao md5).front (createdCredentials password _ (exec _ _).2) (exec _ _).1 _ = _
    rw [exec_data rfl]
    rfl
  have hend := Client.end_of_completes (hf.trans (Client.front_quiet (quiet_settle _) _ _)) h
  rw [(Prod.mk.inj hend).2]
  rfl

/-- **The CSP of an answered request**, at that time. -/
theorem provisioned_of_resolved {csp name date : String} {random : Rat} {turnUrl : Option String}
    (h : (dao md5).Completes (.getAppropriateTurn csp name date random) s s' l)
    (hl : l.outcome = some (.resolved (.turn turnUrl clientId))) :
    clientId = clientIdOf md5 csp name date ∧ HasHash s.now (s.dbs 2) (provKey csp) ∧
      HasHash s.now (s.dbs 2) (consoKey (provKey csp)) ∧ ¬ Exceeded s.now (s.dbs 2) csp := by
  obtain ⟨⟨r, hr⟩, -⟩ | ⟨⟨v, hv⟩, hprov, hconso, hx, -⟩ := answer_cases h
  · rw [hl] at hr
    cases hr
  · rw [hl] at hv
    cases hv
    exact ⟨rfl, hprov, hconso, hx⟩

end Calls

/-- **Who gets credentials.** In every sequence of calls, with any arguments, a credential is written only
by a call of `getCredentials` for exactly that client's id, and each such call is answered. Where
`getAppropriateTurn` resolved with an id, the CSP was provisioned and did not exceed its quota at that
time. -/
theorem credentials_of_calls (md5 : String → String) (s s' : Server) (evs : List CallEvent)
    (h : Steps (Answered md5) OnlyBroker s evs s') :
    (∀ clientId, credentialOf s' clientId = credentialOf s clientId ∨ ∃ password answer,
      CallEvent.call (.getCredentials clientId password) answer ∈ evs ∧ credentialOf s' clientId =
        some ⟨.str (md5 (clientId ++ ":" ++ realm ++ ":" ++ password)), none⟩) ∧
    (∀ before after clientId password answer,
      evs = before ++ .call (.getCredentials clientId password) answer :: after →
        answer = some (.resolved (.credentials clientId password))) ∧
    (∀ before after csp name date random turnUrl clientId,
      evs = before ++ .call (.getAppropriateTurn csp name date random)
        (some (.resolved (.turn turnUrl clientId))) :: after →
      clientId = clientIdOf md5 csp name date ∧ ∃ t, Steps (Answered md5) OnlyBroker s before t ∧
        HasHash t.now (t.dbs 2) (provKey csp) ∧ HasHash t.now (t.dbs 2) (consoKey (provKey csp)) ∧
        ¬ Exceeded t.now (t.dbs 2) csp) := by
  refine ⟨credentialOf_run h, ?_, ?_⟩
  · rintro before after clientId password answer rfl
    obtain ⟨t, _, -, -, ⟨l, hdone, hl⟩, -⟩ := h.split
    rw [← hl]
    exact outcome_getCredentials hdone
  · rintro before after csp name date random turnUrl clientId rfl
    obtain ⟨t, _, hbefore, -, ⟨l, hdone, hl⟩, -⟩ := h.split
    obtain ⟨hid, hprov, hconso, hx⟩ := provisioned_of_resolved hdone hl
    exact ⟨hid, t, hbefore, hprov, hconso, hx⟩

/-- A CSP is registered, the gate resolves with a client's id, and the client gets its credential. -/
theorem credential_after_gate : ∃ evs s', Steps (Answered id) OnlyBroker oneTurn evs s' ∧
    credentialOf s' "c:nd" = some ⟨.str "c:nd:orange.com:abcdef", none⟩ ∧
    ∃ t : Server, HasHash t.now (t.dbs 2) (provKey "c") ∧ ¬ Exceeded t.now (t.dbs 2) "c" := by
  obtain ⟨s₁, l₁, h₁⟩ :=
    Client.exists_completes (dao id) (.registerCSP (quotaForm "c" "1")) oneTurn
  obtain ⟨s₂, l₂, h₂⟩ := Client.exists_completes (dao id) (.getAppropriateTurn "c" "n" "d" 0) s₁
  obtain ⟨s₃, l₃, h₃⟩ := Client.exists_completes (dao id) (.getCredentials "c:nd" "abcdef") s₂
  have hs₁ := server_of_completes h₁
  obtain ⟨turnUrl, hl₂⟩ : ∃ turnUrl, l₂.outcome = some (.resolved (.turn turnUrl "c:nd")) := by
    obtain ⟨-, hno⟩ | ⟨hl, -⟩ := answer_cases h₂
    · rw [hs₁] at hno
      rcases hno with h | h | h | h
      · refine absurd ⟨_, readHash_of_field (f := "conso") (v := "prov:c:conso") ?_⟩ h
        decide +kernel
      · refine absurd ⟨_, readHash_of_field (f := "data") (v := "0") ?_⟩ h
        decide +kernel
      · refine absurd h ?_
        unfold Exceeded
        decide +kernel
      · refine absurd (offers_iff.mpr ?_) h
        decide +kernel
    · exact hl
  have hrun : Steps (Answered id) OnlyBroker oneTurn
      [.call (.registerCSP (quotaForm "c" "1")) l₁.outcome,
       .call (.getAppropriateTurn "c" "n" "d" 0) (some (.resolved (.turn turnUrl "c:nd"))),
       .call (.getCredentials "c:nd" "abcdef") l₃.outcome] s₃ :=
    .cons trivial ⟨l₁, h₁, rfl⟩ (.cons trivial ⟨l₂, h₂, hl₂⟩ (.one trivial ⟨l₃, h₃, rfl⟩))
  obtain ⟨hcred, -, hgate⟩ := credentials_of_calls id _ _ _ hrun
  obtain ⟨-, t, -, hprov, -, hx⟩ := hgate [_] _ "c" "n" "d" 0 turnUrl "c:nd" rfl
  refine ⟨_, s₃, hrun, ?_, t, hprov, hx⟩
  obtain rfl := server_of_completes h₃
  rw [credentialOf_getCredentials, if_pos rfl]
  rfl

/-- A credential is written without any call of `getAppropriateTurn`. -/
theorem credential_without_gate : ∃ answer s', Steps (Answered id) OnlyBroker blank
    [.call (.getCredentials "x" "abcdef") answer] s' ∧
    ¬ Gated blank [.call (.getCredentials "x" "abcdef") answer] s' := by
  obtain ⟨s', l, h⟩ := Client.exists_completes (dao id) (.getCredentials "x" "abcdef") blank
  refine ⟨l.outcome, s', .one trivial ⟨l, h, rfl⟩, fun hgated => ?_⟩
  obtain rfl := server_of_completes h
  have hnew : credentialOf ((Op.getCredentials "x" "abcdef").after id blank) "x" ≠
      credentialOf blank "x" := by
    rw [credentialOf_getCredentials, if_pos rfl]
    exact Option.some_ne_none _
  obtain ⟨csp, name, date, random, turnUrl, hmem⟩ := hgated "x" hnew
  simp at hmem

end Broker
end QosSupport
