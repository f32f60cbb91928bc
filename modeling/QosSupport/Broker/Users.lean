import QosSupport.Broker.Gate

/-!
# The users of the CSPs

`getAppropriateTurn` makes an id for its client, `md5(cspName:clientname` and the date`)`, and stores under
`users:` of this id, for a week, to which CSP the client belongs. It does so before it looks at the CSP.

* `leavesNoTrace_iff`: a request that is rejected changes database `2`, unless the same entry, with the
  same time to live, is there already.
* `Merges`: two requests whose texts are the same, because a part of one client name is read as a part
  of the other CSP's name.
* `users_apart`: two requests get different ids exactly if they do not merge; in every run whose requests
  do not, no user is given to another CSP, and no CSP is charged for a user of another one.
-/

namespace QosSupport
namespace Broker

open Redis EventLoop Js Run

/-! ## Requests that are rejected -/

/-- Both hashes of the CSP are there, it is not over its quota, and TURN servers are offered. -/
structure Admitted (s : Server) (csp : String) : Prop where
  prov : HasHash s.now (s.dbs 2) (provKey csp)
  conso : HasHash s.now (s.dbs 2) (consoKey (provKey csp))
  quota : ¬ Exceeded s.now (s.dbs 2) csp
  turn : Offers s.now (s.dbs 2)

/-- Database `2` has the same contents: the same keys, with the same values and times to live. -/
def SameContents (s s' : Server) : Prop :=
  ∀ k, find s'.now (s'.dbs 2) k = find s.now (s.dbs 2) k

/-- A request that is rejected leaves database `2` as it was. -/
def LeavesNoTrace (md5 : String → String) (s : Server) (csp name date : String) (random : Rat) : Prop :=
  ∀ s' l, (dao md5).Completes (.getAppropriateTurn csp name date random) s s' l → IsRejected l →
    SameContents s s'

/-- The entry of a user who was registered just now. -/
def freshUser (now : Nat) (csp : String) : Entry := ⟨.str csp, some (now + ttlUser)⟩

theorem find_registerUser (now : Nat) (db : Db) (csp user : String) :
    find now (runCmds now [.set (usersKey user) csp, .expire (usersKey user) ttlUser] db)
      (usersKey user) = some (freshUser now csp) := by
  have hset : find now (execDb now (.set (usersKey user) csp) db).1 (usersKey user) =
      some ⟨.str csp, none⟩ := find_insert_self
  have hexp : (execDb now (.expire (usersKey user) ttlUser)
      (execDb now (.set (usersKey user) csp) db).1).1 =
        (execDb now (.set (usersKey user) csp) db).1.insert (usersKey user) (freshUser now csp) := by
    generalize (execDb now (.set (usersKey user) csp) db).1 = db' at *
    rw [execDb, hset]
    rfl
  have hlive : (freshUser now csp).live now = true := by simp [Entry.live, freshUser, ttlUser]
  simp only [runCmds, List.foldl_cons, List.foldl_nil]
  rw [hexp, find_insert_self, if_pos hlive]

section Trace

variable {md5 : String → String} {s s' : Server} {l : Locals} {csp name date : String} {random : Rat}

theorem isRejected_iff (h : (dao md5).Completes (.getAppropriateTurn csp name date random) s s' l) :
    IsRejected l ↔ ¬ Admitted s csp := by
  obtain ⟨hl, hcase⟩ | ⟨⟨v, hl⟩, hprov, hconso, hx, ho⟩ := answer_cases h
  · refine iff_of_true hl fun ha => ?_
    rcases hcase with h1 | h2 | h3 | h4
    · exact h1 ha.prov
    · exact h2 ha.conso
    · exact ha.quota h3
    · exact h4 ha.turn
  · refine iff_of_false ?_ (not_not.mpr ⟨hprov, hconso, hx, ho⟩)
    rintro ⟨r, hr⟩
    rw [hl] at hr
    cases hr

/-- What a request writes is the entry of its user. -/
theorem sameContents_iff (h : (dao md5).Completes (.getAppropriateTurn csp name date random) s s' l) :
    SameContents s s' ↔ find s.now (s.dbs 2) (usersKey (clientIdOf md5 csp name date)) =
      some (freshUser s.now csp) := by
  have hdb : s'.now = s.now ∧ s'.dbs 2 = runCmds s.now
      [.set (usersKey (clientIdOf md5 csp name date)) csp,
        .expire (usersKey (clientIdOf md5 csp name date)) ttlUser] (s.dbs 2) := by
    rw [server_of_completes h]
    exact ⟨rfl, after_dbs s rfl⟩
  have hself := find_registerUser s.now (s.dbs 2) csp (clientIdOf md5 csp name date)
  unfold SameContents
  rw [hdb.1, hdb.2]
  refine ⟨fun hk => by rw [← hk, hself], fun hu k => ?_⟩
  by_cases hk : k = usersKey (clientIdOf md5 csp name date)
  · rw [hk, hself, hu]
  · exact find_congr (runCmds_frame (by simp [Cmd.writes, hk]))

end Trace

/-- **When a rejected request leaves no trace**: if the request is not rejected at all, or if what
`registerUser` writes is there already. -/
theorem leavesNoTrace_iff (md5 : String → String) (s : Server) (csp name date : String)
    (random : Rat) : LeavesNoTrace md5 s csp name date random ↔ Admitted s csp ∨
      find s.now (s.dbs 2) (usersKey (clientIdOf md5 csp name date)) =
        some (freshUser s.now csp) := by
  constructor
  · intro hno
    obtain ⟨s', l, h⟩ := Client.exists_completes (dao md5) (.getAppropriateTurn csp name date random) s
    by_cases ha : Admitted s csp
    · exact .inl ha
    · exact .inr ((sameContents_iff h).mp (hno s' l h ((isRejected_iff h).mpr ha)))
  · rintro (ha | hu) s' l h hrej
    · exact absurd ha ((isRejected_iff h).mp hrej)
    · exact (sameContents_iff h).mpr hu

/-- A request for a CSP that nobody registered is rejected, and leaves a user behind. -/
theorem trace_of_unknown_csp : (∃ s l, (dao id).Completes
      (.getAppropriateTurn "c" "u" "2017-05-04T10:00:00.000Z" 0) blank s l ∧ IsRejected l) ∧
    ¬ LeavesNoTrace id blank "c" "u" "2017-05-04T10:00:00.000Z" 0 := by
  have ha : ¬ Admitted blank "c" := by
    rintro ⟨⟨h, hh⟩, -⟩
    cases hh
  obtain ⟨s, l, h⟩ := Client.exists_completes (dao id)
    (.getAppropriateTurn "c" "u" "2017-05-04T10:00:00.000Z" 0) blank
  refine ⟨⟨s, l, h, (isRejected_iff h).mpr ha⟩, fun hno => ?_⟩
  have hu := (sameContents_iff h).mp (hno s l h ((isRejected_iff h).mpr ha))
  cases hu

/-! ## The ids of the users -/

/-- What a client's id is made of. -/
structure Request where
  cspName : String
  clientname : String
  date : String
  deriving DecidableEq

/-- The id of a request's client. -/
def Request.clientId (md5 : String → String) (r : Request) : String :=
  clientIdOf md5 r.cspName r.clientname r.date

/-- `a:b` is read as `c:d` if the name `c` takes up to some colon in `b`. -/
def Shifted (a b c d : String) : Prop := ∃ w, c = a ++ ":" ++ w ∧ b = w ++ ":" ++ d

/-- The texts of two requests are the same; the date of the second one is not the shorter one. (Dates of
the same length are equal then, and `p` is empty.) -/
def SameText (r q : Request) : Prop :=
  ∃ p, q.date = p ++ r.date ∧
    ((r.cspName = q.cspName ∧ r.clientname = q.clientname ++ p) ∨
      Shifted r.cspName r.clientname q.cspName (q.clientname ++ p) ∨
      Shifted q.cspName (q.clientname ++ p) r.cspName r.clientname)

/-- The texts of two requests are the same. -/
def Merges (r q : Request) : Prop := SameText r q ∨ SameText q r

theorem append_eq_append {a b c d : String} : a ++ b = c ++ d ↔
    (∃ p, c = a ++ p ∧ b = p ++ d) ∨ ∃ p, a = c ++ p ∧ d = p ++ b := by
  constructor
  · intro h
    have hl : a.toList ++ b.toList = c.toList ++ d.toList := by
      rw [← String.toList_append, h, String.toList_append]
    obtain ⟨p, hc, hb⟩ | ⟨p, ha, hd⟩ := List.append_eq_append_iff.mp hl
    · exact .inl ⟨String.ofList p, String.toList_inj.mp (by simpa using hc),
        String.toList_inj.mp (by simpa using hb)⟩
    · exact .inr ⟨String.ofList p, String.toList_inj.mp (by simpa using ha),
        String.toList_inj.mp (by simpa using hd)⟩
  · rintro (⟨p, rfl, rfl⟩ | ⟨p, rfl, rfl⟩)
    · rw [String.append_assoc]
    · rw [String.append_assoc]

/-- A text that begins where the colon was begins with the colon. -/
theorem colon_append {b p d : String} (h : ":" ++ b = p ++ (":" ++ d)) :
    p = "" ∧ b = d ∨ ∃ w, p = ":" ++ w ∧ b = w ++ ":" ++ d := by
  obtain ⟨w, hp, hb⟩ | ⟨w, hp, hb⟩ := append_eq_append.mp h
  · exact .inr ⟨w, hp, by rw [hb, String.append_assoc]⟩
  · -- The part before is shorter than the colon: it is empty, or all of it.
    have hlen := congrArg String.length hp
    rw [String.length_append] at hlen
    by_cases hw : w = ""
    · subst hw
      refine .inr ⟨"", by simpa using hp.symm, ?_⟩
      simpa using hb.symm
    · have hp0 : p = "" := by
        have hw' : w.length ≠ 0 := by simpa using hw
        have h1 : (":" : String).length = 1 := rfl
        have hp' : p.length = 0 := by omega
        simpa using hp'
      subst hp0
      refine .inl ⟨rfl, ?_⟩
      simpa using h

theorem colon_eq_iff {a b c d : String} : a ++ ":" ++ b = c ++ ":" ++ d ↔
    (a = c ∧ b = d) ∨ Shifted a b c d ∨ Shifted c d a b := by
  constructor
  · intro h
    rw [String.append_assoc, String.append_assoc] at h
    obtain ⟨p, hc, hb⟩ | ⟨p, ha, hd⟩ := append_eq_append.mp h
    · obtain ⟨rfl, hbd⟩ | ⟨w, rfl, hbw⟩ := colon_append hb
      · exact .inl ⟨by simpa using hc.symm, hbd⟩
      · exact .inr (.inl ⟨w, by rw [hc, String.append_assoc], hbw⟩)
    · obtain ⟨rfl, hdb⟩ | ⟨w, rfl, hdw⟩ := colon_append hd
      · exact .inl ⟨by simpa using ha, hdb.symm⟩
      · exact .inr (.inr ⟨w, by rw [ha, String.append_assoc], hdw⟩)
  · rintro (⟨rfl, rfl⟩ | ⟨w, rfl, rfl⟩ | ⟨w, rfl, rfl⟩)
    · rfl
    · simp [String.append_assoc]
    · simp [String.append_assoc]

/-- **When two requests get the same id.** -/
theorem clientId_eq_iff {md5 : String → String} (hmd5 : Function.Injective md5) {r q : Request} :
    r.clientId md5 = q.clientId md5 ↔ Merges r q := by
  have hp : ∀ x y : Request, (∃ p, y.date = p ++ x.date ∧ x.cspName ++ ":" ++ x.clientname =
      y.cspName ++ ":" ++ y.clientname ++ p) ↔ SameText x y := by
    intro x y
    refine exists_congr fun p => and_congr_right fun _ => ?_
    have hy : y.cspName ++ ":" ++ y.clientname ++ p = y.cspName ++ ":" ++ (y.clientname ++ p) :=
      String.append_assoc
    rw [hy, colon_eq_iff]
  rw [Request.clientId, Request.clientId, clientIdOf, clientIdOf, hmd5.eq_iff, append_eq_append]
  refine Iff.trans ?_ (or_congr (hp r q) (hp q r))
  rw [or_comm]
  refine or_congr (exists_congr fun p => and_comm) (exists_congr fun p => and_comm)

/-! ## The entries of the users in every run -/

/-- No two of the requests merge. -/
def Apart (calls : Request → Prop) : Prop := ∀ r q, calls r → calls q → r ≠ q → ¬ Merges r q

/-- Operations are started, the requests among them from `calls`, or others act. -/
def FromCalls (calls : Request → Prop) (_ : DaoSys) : Event Op Env → Prop
  | .start (.getAppropriateTurn csp name date _) => calls ⟨csp, name, date⟩
  | .start (.registerUser _ _) => False
  | .env a => Foreign a
  | .start _ | .exec | .run _ => True

/-- No user is registered. -/
def NoUsers (s : Server) : Prop := ∀ u, (s.dbs 2).lookup (usersKey u) = none

/-- What holds in the state `σ` of the users of `calls`. -/
structure UsersKept (md5 : String → String) (calls : Request → Prop) (σ : DaoSys) : Prop where
  /-- The command that is executed next does not give a user to a different CSP. -/
  overwrite : ∀ p rest u csp csp' t, σ.pipe = p :: rest → p.cmd = .set (usersKey u) csp' →
    find σ.server.now (σ.server.dbs 2) (usersKey u) = some ⟨.str csp, t⟩ → csp' = csp
  /-- What is charged for a user, while its entry is there, is charged to the CSP of its request. -/
  charge : ∀ r t e s' l, calls r → t.user = r.clientId md5 →
    find σ.server.now (σ.server.dbs 2) (usersKey t.user) = some e →
    (dao md5).Completes (.addCSPConso (some t)) σ.server s' l →
      ∀ k ≠ consoKey (provKey r.cspName), (s'.dbs 2).lookup k = (σ.server.dbs 2).lookup k

section Users

variable {md5 : String → String} {calls : Request → Prop}

/-- The users of `calls` belong to the CSPs of their requests. -/
def OwnUsers (md5 : String → String) (calls : Request → Prop) (s : Server) : Prop :=
  ∀ r csp t, calls r → (s.dbs 2).lookup (usersKey (r.clientId md5)) = some ⟨.str csp, t⟩ →
    csp = r.cspName

/-- The command registers users of `calls` only, and moves nothing to the key of a user. -/
def RegistersCalls (md5 : String → String) (calls : Request → Prop) : Cmd → Prop
  | .set k csp => ∀ u, k = usersKey u → ∃ r, calls r ∧ u = r.clientId md5 ∧ csp = r.cspName
  | .rename _ k => ∀ u, k ≠ usersKey u
  | _ => True

theorem usersKey_inj {u v : String} : usersKey u = usersKey v ↔ u = v := by
  simp [usersKey]

/-- **One command** keeps the users with their CSPs. -/
theorem ownUsers_exec (hmd5 : Function.Injective md5) (hapart : Apart calls) (c : Cmd) (s : Server)
    (hc : RegistersCalls md5 calls c) (h : OwnUsers md5 calls s) : OwnUsers md5 calls (exec c s).1 := by
  intro r csp t hr hl
  have hold : (∃ t', (s.dbs 2).lookup (usersKey (r.clientId md5)) = some ⟨.str csp, t'⟩) ∨
      c = .set (usersKey (r.clientId md5)) csp ∨ ∃ k, c = .rename k (usersKey (r.clientId md5)) := by
    by_cases hd : c.isData = true
    · rw [exec_data hd] at hl
      by_cases h2 : s.selected = 2
      · have hl' : (execDb s.now c (s.dbs 2)).1.lookup (usersKey (r.clientId md5)) =
            some ⟨.str csp, t⟩ := by simpa [h2] using hl
        exact str_of_execDb hl'
      · left
        exact ⟨t, by simpa [Function.update_of_ne (Ne.symm h2)] using hl⟩
    · cases c with
      | select n =>
        left
        refine ⟨t, ?_⟩
        simp only [exec] at hl
        split at hl <;> exact hl
      | _ => exact absurd rfl hd
  obtain ⟨t', ht'⟩ | rfl | ⟨k, rfl⟩ := hold
  · exact h r csp t' hr ht'
  · obtain ⟨q, hq, hu, rfl⟩ := hc _ rfl
    -- Another request with the same id would merge with this one.
    by_cases hrq : r = q
    · rw [hrq]
    · exact absurd ((clientId_eq_iff hmd5).mp hu) (hapart r q hr hq hrq)
  · exact absurd rfl (hc _)

theorem ownUsers_foreign {a : Env} (ha : Foreign a) {s : Server} (h : OwnUsers md5 calls s) :
    OwnUsers md5 calls (a.act s) := by
  intro r csp t hr hl
  refine h r csp t hr ?_
  rw [← hl]
  cases a with
  | tick secs => rfl
  | client n c =>
    by_cases hn : n = 2
    · subst hn
      have hk : usersKey (r.clientId md5) ∉ c.writes := by
        intro hk
        obtain ⟨name, hname⟩ := ha rfl _ hk
        exact ne_of_head (by simp [usersKey]) hname
      have hframe : (execDb s.now c (s.dbs 2)).1.lookup (usersKey (r.clientId md5)) =
          (s.dbs 2).lookup (usersKey (r.clientId md5)) := execDb_frame hk
      simpa [Env.act] using hframe.symm
    · simp [Env.act, Function.update_of_ne (Ne.symm hn)]

theorem issues_registersCalls {σ : DaoSys} {op : Op} (hop : FromCalls calls σ (.start op)) :
    (op.code md5).Issues (RegistersCalls md5 calls) := by
  refine (issues_code md5 op).mono fun c hc => ?_
  obtain rfl | ⟨-, hw⟩ | ⟨now, db, hc⟩ := hc
  · trivial
  · cases c <;> trivial
  · cases op with
    | registerCSP formDatas =>
      simp only [Op.cmds, registerCmds, List.mem_cons, List.not_mem_nil, or_false] at hc
      rcases hc with rfl | rfl | rfl | rfl | rfl | rfl | rfl <;> trivial
    | registerUser => exact hop.elim
    | getAppropriateTurn csp name date =>
      simp only [Op.cmds, List.mem_cons, List.not_mem_nil, or_false] at hc
      rcases hc with rfl | rfl
      · intro u hu
        exact ⟨⟨csp, name, date⟩, hop, (usersKey_inj.mp hu).symm, rfl⟩
      · trivial
    | getCredentials =>
      simp only [Op.cmds, List.mem_singleton] at hc
      subst hc
      intro u hu
      exact absurd hu (ne_of_head (by simp [credentialKey, usersKey]))
    | deleteCSP =>
      simp only [Op.cmds, List.mem_cons, List.not_mem_nil, or_false] at hc
      rcases hc with rfl | rfl <;> exact fun u => ne_of_head (by simp [histoKey, usersKey])
    | updateCSPQuotas =>
      simp only [Op.cmds, List.mem_singleton] at hc
      subst hc
      trivial
    | addCSPConso t =>
      cases t with
      | none => simp [Op.cmds] at hc
      | some t =>
        simp only [Op.cmds] at hc
        split at hc
        · rw [List.mem_singleton] at hc
          subst hc
          trivial
        · simp at hc
    | getAllCspInfo | getCSPInfos | getCSPConso | getTurnServers => simp [Op.cmds] at hc

/-- **Every state of every run** whose requests do not merge. -/
theorem ownUsers_of_runs (hmd5 : Function.Injective md5) (hapart : Apart calls) {s : Server}
    {evs : List (Event Op Env)} {σ : DaoSys} (hs : NoUsers s)
    (h : (dao md5).Runs (FromCalls calls) ((dao md5).fresh s) evs σ) :
    Client.IssuesSys (RegistersCalls md5 calls) σ ∧ OwnUsers md5 calls σ.server := by
  refine Client.issuesSys_of_runs (ownUsers_exec hmd5 hapart) (h.mono fun τ e he => ?_) ?_
  · cases e with
    | start op => exact issues_registersCalls he
    | exec | run => trivial
    | env a => exact fun s hs => ownUsers_foreign he hs
  · intro r csp t _ hl
    rw [hs] at hl
    cases hl

/-- A user whose entry holds the CSP of its request is charged to it. -/
theorem charged_own {r : Request} {t : TrafficRecord} {s s' : Server} {l : Locals} {e : Entry}
    (hown : OwnUsers md5 calls s) (hr : calls r) (ht : t.user = r.clientId md5)
    (he : find s.now (s.dbs 2) (usersKey t.user) = some e)
    (h : (dao md5).Completes (.addCSPConso (some t)) s s' l) (k : String)
    (hk : k ≠ consoKey (provKey r.cspName)) : (s'.dbs 2).lookup k = (s.dbs 2).lookup k := by
  rw [server_of_completes h, after_dbs s rfl]
  refine runCmds_frame fun c hc => ?_
  obtain ⟨v, t'⟩ := e
  cases v with
  | hash => simp [Op.cmds, chargedCSP, he] at hc
  | str csp =>
    obtain ⟨hl, -⟩ := Option.filter_eq_some_iff.mp he
    obtain rfl : csp = r.cspName := hown r csp t' hr (ht ▸ hl)
    obtain rfl : c = .hincrby (consoKey (provKey r.cspName)) "data" t.sent_bytes := by
      simpa [Op.cmds, chargedCSP, he] using hc
    simpa [Cmd.writes] using hk

end Users

/-- **Requests and their users.** If MD5 is injective, two different requests get different ids exactly if
they do not merge. In every state of every run whose requests do not merge, no user is given to a
different CSP, and what is charged for a user is charged to the CSP of its request. -/
theorem users_apart (md5 : String → String) (hmd5 : Function.Injective md5) :
    (∀ r q : Request, r ≠ q → (r.clientId md5 ≠ q.clientId md5 ↔ ¬ Merges r q)) ∧
    ∀ (calls : Request → Prop) (s : Server) (evs : List (Event Op Env)) (σ : DaoSys), Apart calls →
      NoUsers s → (dao md5).Runs (FromCalls calls) ((dao md5).fresh s) evs σ →
        UsersKept md5 calls σ := by
  refine ⟨fun r q _ => not_congr (clientId_eq_iff hmd5), fun calls s evs σ hapart hs hrun => ?_⟩
  obtain ⟨hissues, hown⟩ := ownUsers_of_runs hmd5 hapart hs hrun
  refine ⟨?_, fun r t e s' l hr ht he h k hk => charged_own hown hr ht he h k hk⟩
  intro p rest u csp csp' t hp hcmd hfind
  have hc : RegistersCalls md5 calls p.cmd := (hissues.pipe p (by rw [hp]; simp)).1
  rw [hcmd] at hc
  obtain ⟨r, hr, rfl, rfl⟩ := hc u rfl
  exact (hown r csp t hr (Option.filter_eq_some_iff.mp hfind).1).symm

/-- Two requests of one client, for two CSPs. -/
def twoCalls (r : Request) : Prop :=
  r = ⟨"a", "u", "2017-05-04T10:00:00.000Z"⟩ ∨ r = ⟨"b", "u", "2017-05-04T10:00:00.000Z"⟩

theorem apart_twoCalls : Apart twoCalls := by
  have hno : (⟨"a", "u", "2017-05-04T10:00:00.000Z"⟩ : Request).clientId id ≠
      (⟨"b", "u", "2017-05-04T10:00:00.000Z"⟩ : Request).clientId id := by decide
  rintro r q (rfl | rfl) (rfl | rfl) hne hm
  · exact hne rfl
  · exact hno ((clientId_eq_iff Function.injective_id).mpr hm)
  · exact hno ((clientId_eq_iff Function.injective_id).mpr hm).symm
  · exact hne rfl

/-- Both requests are started, and the first one is registered. -/
theorem users_apart_twoCalls :
    (⟨"a", "u", "2017-05-04T10:00:00.000Z"⟩ : Request).clientId id ≠
      (⟨"b", "u", "2017-05-04T10:00:00.000Z"⟩ : Request).clientId id ∧
    ∃ σ : DaoSys, (dao id).Runs (FromCalls twoCalls) ((dao id).fresh blank)
      [.start (.getAppropriateTurn "a" "u" "2017-05-04T10:00:00.000Z" 0),
       .start (.getAppropriateTurn "b" "u" "2017-05-04T10:00:00.000Z" 0), .exec, .exec] σ ∧
      UsersKept id twoCalls σ := by
  obtain ⟨hids, hruns⟩ := users_apart id Function.injective_id
  have hrun : ∃ σ : DaoSys, (dao id).Runs (FromCalls twoCalls) ((dao id).fresh blank)
      [.start (.getAppropriateTurn "a" "u" "2017-05-04T10:00:00.000Z" 0),
       .start (.getAppropriateTurn "b" "u" "2017-05-04T10:00:00.000Z" 0), .exec, .exec] σ :=
    ⟨_, .cons (.inl rfl) rfl (.cons (.inr rfl) rfl (.cons trivial rfl (.cons trivial rfl (.nil _))))⟩
  obtain ⟨σ, hrun⟩ := hrun
  refine ⟨(hids _ _ (by decide)).mpr (apart_twoCalls _ _ (.inl rfl) (.inr rfl) (by decide)), σ, hrun, ?_⟩
  exact hruns twoCalls blank _ σ apart_twoCalls (fun _ => rfl) hrun

/-- The client `b:c` of the CSP `a` and the client `c` of the CSP `a:b` get the same id at the same
time. The second request takes the user over, and the traffic of the first one is charged to `a:b`. -/
theorem users_merged : ∃ r q : Request, r ≠ q ∧ r.cspName ≠ q.cspName ∧
    (∀ md5, r.clientId md5 = q.clientId md5) ∧
    chargedCSP 0 ((afterAll [.getAppropriateTurn r.cspName r.clientname r.date 0,
      .getAppropriateTurn q.cspName q.clientname q.date 0]).dbs 2) (r.clientId id) =
        some q.cspName := by
  refine ⟨⟨"a", "b:c", "2017-05-04T10:00:00.000Z"⟩, ⟨"a:b", "c", "2017-05-04T10:00:00.000Z"⟩, by decide,
    by decide, fun md5 => rfl, ?_⟩
  decide +kernel

end Broker
end QosSupport
