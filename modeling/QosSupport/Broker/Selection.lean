import QosSupport.Lib.Thread
import QosSupport.Broker.Gate

/-!
# The choice of a TURN server

`getTurnServers` asks for the keys of the TURN servers and then for the value of each. In between, other
operations and other clients act: a value may be gone by the time it is asked for, and the replies come in
any order.

* `keysReplies`, `getReplies`: the keys that an operation was told in a run, and the values that it has read.
* `ListsTurns`: what becomes of the list for these replies. It waits until the last callback has run and then
  resolves with each key and its value once; with an error or without a key, it is rejected.
* `turnAddress_turnKey`, `randomIndex_lt`: the address of a server is its key without the leading
  `turnservers:`, and the random index is one of the list.
* `selection`: `getTurnServers` and `getAppropriateTurn`, in every state of every run of the client.
-/

namespace QosSupport
namespace Broker

open Redis EventLoop Js Run

/-! ## The address -/

theorem turnAddress_turnKey (name : String) (status : Option String) :
    turnAddress ⟨turnKey name, status⟩ = name := by
  have hkey : (turnKey name).toList = "turnservers:".toList ++ name.toList := by simp [turnKey]
  have hpre : "turnservers:".toList <+: "turnservers:".toList ++ name.toList := List.prefix_append _ _
  have hremove : removeFirst "turnservers:".toList ("turnservers:".toList ++ name.toList) =
      name.toList := by
    show (if "turnservers:".toList <+: "turnservers:".toList ++ name.toList then _ else _) = _
    rw [if_pos hpre]
    rfl
  rw [turnAddress, hkey, hremove, String.ofList_toList]

/-- A result of `Math.random()`: a double that is not negative and less than one. -/
structure IsRandom (random : Rat) : Prop where
  double : Number.ofRat random = .fin random
  nonneg : 0 ≤ random
  lt : random < 1

theorem randomIndex_lt {random : Rat} (h : IsRandom random) {n : Nat} (hn : 0 < n)
    (hn' : n < 2 ^ 64) : randomIndex random n < n := by
  obtain ⟨r, hmul, hr0, hrn⟩ := mul_lt_of_double h.double h.nonneg h.lt hn hn'
  rw [randomIndex, hmul]
  have hfloor : r.floor < n := by
    rw [Rat.floor_lt_iff]
    exact_mod_cast hrn
  show r.floor.toNat < n
  omega

/-! ## What is exchanged -/

abbrev DaoThread := Thread Cmd Reply Locals

/-- What an operation has exchanged with Redis: its commands, each with its reply. -/
abbrev Exchanges := List (Cmd × Reply)

/-- The replies to `KEYS`. -/
def keysReplies (h : Exchanges) : List Reply :=
  h.filterMap fun
    | (.keys _, r) => some r
    | _ => none

/-- The keys that were read with `GET`, each with the reply. -/
def getReplies (h : Exchanges) : List (String × Reply) :=
  h.filterMap fun
    | (.get k, r) => some (k, r)
    | _ => none

/-- The replies to `HGETALL`. -/
def hashReplies (h : Exchanges) : List Reply :=
  h.filterMap fun
    | (.hgetall _, r) => some r
    | _ => none

@[simp] theorem keysReplies_append (h h' : Exchanges) :
    keysReplies (h ++ h') = keysReplies h ++ keysReplies h' :=
  List.filterMap_append

@[simp] theorem getReplies_append (h h' : Exchanges) : getReplies (h ++ h') = getReplies h ++ getReplies h' :=
  List.filterMap_append

@[simp] theorem hashReplies_append (h h' : Exchanges) :
    hashReplies (h ++ h') = hashReplies h ++ hashReplies h' :=
  List.filterMap_append

/-- The exchanges of the keys `log`. -/
def gets (log : List (String × Reply)) : Exchanges := log.map fun z => (.get z.1, z.2)

@[simp] theorem keysReplies_gets (log : List (String × Reply)) : keysReplies (gets log) = [] := by
  simp [keysReplies, gets]

@[simp] theorem getReplies_gets (log : List (String × Reply)) : getReplies (gets log) = log := by
  simp [getReplies, gets, List.filterMap_map]

@[simp] theorem hashReplies_gets (log : List (String × Reply)) : hashReplies (gets log) = [] := by
  simp [hashReplies, gets]

/-- No TURN server was asked for yet, and `rs` are the replies to `HGETALL`. -/
structure Before (rs : List Reply) (h : Exchanges) : Prop where
  keys : keysReplies h = []
  gets : getReplies h = []
  hashes : hashReplies h = rs

theorem Before.other {rs : List Reply} {h : Exchanges} (hb : Before rs h) {x : Cmd × Reply}
    (hx : Before [] [x]) : Before rs (h ++ [x]) :=
  ⟨by rw [keysReplies_append, hb.keys, hx.keys, List.append_nil],
    by rw [getReplies_append, hb.gets, hx.gets, List.append_nil],
    by rw [hashReplies_append, hb.hashes, hx.hashes, List.append_nil]⟩

theorem Before.hash {rs : List Reply} {h : Exchanges} (hb : Before rs h) (key : String) (r : Reply) :
    Before (rs ++ [r]) (h ++ [(.hgetall key, r)]) :=
  ⟨by rw [keysReplies_append, hb.keys]; rfl, by rw [getReplies_append, hb.gets]; rfl,
    by rw [hashReplies_append, hb.hashes]; rfl⟩

/-! ## The code before the replies -/

section Ahead

variable {md5 : String → String} {Q : Exchanges → DaoThread → Prop} {l : Locals} {h : Exchanges}
  {rs : List Reply}

theorem answers_select {r : Reply} (hr : (dao md5).Answers (.select 2) r) : r = .ok := by
  obtain ⟨s, rfl⟩ := hr
  show (exec (.select 2) s).2 = .ok
  rw [exec_select (by decide)]

theorem ahead_selectAsync {k : P} (hb : Before rs h)
    (hk : ∀ h', Before rs h' → Thread.Ahead (dao md5).Answers Q l h' ⟨[], [k], l⟩) :
    Thread.Ahead (dao md5).Answers Q l h (Thread.start (selectAsync 2 k) l) := by
  refine .call fun r hr => ?_
  rw [answers_select hr]
  exact hk _ (hb.other ⟨rfl, rfl, rfl⟩)

theorem ahead_read {c : Cmd} {cb : Reply → P}
    (hk : ∀ r, (dao md5).Answers c r → Thread.Ahead (dao md5).Answers Q l (h ++ [(c, r)]) ⟨[], [cb r], l⟩) :
    Thread.Ahead (dao md5).Answers Q l h ⟨[], [.call c cb .done], l⟩ :=
  .turn (.call hk)

theorem ahead_settle {o : Outcome} (hq : Q h ⟨[], [], { l with outcome := l.outcome.or (some o) }⟩) :
    Thread.Ahead (dao md5).Answers Q l h ⟨[], [settle o], l⟩ :=
  .turn (.here hq)

theorem ahead_getCSPInfos {key : String} {k : Except Error (Option Hash) → P} (hb : Before rs h)
    (hk : ∀ h' r, Before (rs ++ [r]) h' →
      Thread.Ahead (dao md5).Answers Q l h' ⟨[], [k (hgetallReply r)], l⟩) :
    Thread.Ahead (dao md5).Answers Q l h (Thread.start (getCSPInfos key k) l) :=
  ahead_selectAsync hb fun _ hb' => ahead_read fun r _ => hk _ r (hb'.hash key r)

theorem ahead_getCSPConso {key : String} {k : Except Error (Option Hash) → P} (hb : Before rs h)
    (hk : ∀ h' r, Before (rs ++ [r]) h' →
      Thread.Ahead (dao md5).Answers Q l h' ⟨[], [k (hgetallReply r)], l⟩) :
    Thread.Ahead (dao md5).Answers Q l h (Thread.start (getCSPConso key k) l) :=
  ahead_selectAsync hb fun _ hb' => ahead_read fun r _ => hk _ r (hb'.hash (consoKey key) r)

theorem hgetallReply_eq_some {r : Reply} {q : Hash} : hgetallReply r = .ok (some q) ↔ r = .fields q ∧ q ≠ ∅ := by
  cases r with
  | fields fs =>
    by_cases hnil : fs = ∅
    · simp only [hgetallReply, if_pos hnil, Except.ok.injEq, reduceCtorEq, Reply.fields.injEq, false_iff]
      rintro ⟨rfl, hne⟩
      exact hne hnil
    · simp only [hgetallReply, if_neg hnil, Except.ok.injEq, Option.some.injEq, Reply.fields.injEq]
      exact ⟨fun hq => ⟨hq, hq ▸ hnil⟩, fun hq => hq.1⟩
  | _ => simp [hgetallReply]

/-- The replies are the hashes of a CSP: its provisioning and its consumption. -/
def BothHashes (rs : List Reply) (quota conso : Hash) : Prop :=
  rs = [.fields quota, .fields conso] ∧ quota ≠ ∅ ∧ conso ≠ ∅

/-- What `getCspInfoAndConso` gives for the replies. -/
def InfoFor (rs : List Reply) : Except String (Option String × Option String) → Prop
  | .ok x => ∃ quota conso, BothHashes rs quota conso ∧ x = (quota.lookup "dataQuota", conso.lookup "data")
  | .error _ => ∀ quota conso, ¬ BothHashes rs quota conso

theorem ahead_getCspInfoAndConso {csp : String}
    {k : Except String (Option String × Option String) → P} (hb : Before [] h)
    (hk : ∀ h' rs x, Before rs h' → InfoFor rs x → Thread.Ahead (dao md5).Answers Q l h' ⟨[], [k x], l⟩) :
    Thread.Ahead (dao md5).Answers Q l h (Thread.start (getCspInfoAndConso csp k) l) := by
  refine ahead_getCSPInfos hb fun h₁ r hb₁ => ?_
  cases hr : hgetallReply r with
  | error e => exact hk _ _ _ hb₁ (by simp [InfoFor, BothHashes])
  | ok o =>
    cases o with
    | none => exact hk _ _ _ hb₁ (by simp [InfoFor, BothHashes])
    | some quota =>
      obtain ⟨rfl, hquota⟩ := hgetallReply_eq_some.mp hr
      refine .turn (ahead_getCSPConso hb₁ fun h₂ r hb₂ => ?_)
      have hno : (∀ conso, hgetallReply r ≠ .ok (some conso)) →
          ∀ err, InfoFor ([] ++ [.fields quota] ++ [r]) (.error err) := by
        rintro hno err quota' conso ⟨hrs, -, hconso⟩
        obtain ⟨-, rfl⟩ : quota = quota' ∧ r = .fields conso := by simpa using hrs
        exact hno conso (hgetallReply_eq_some.mpr ⟨rfl, hconso⟩)
      cases hr : hgetallReply r with
      | error e => exact hk _ _ _ hb₂ (hno (by simp [hr]) _)
      | ok o =>
        cases o with
        | none => exact hk _ _ _ hb₂ (hno (by simp [hr]) _)
        | some conso =>
          obtain ⟨rfl, hconso⟩ := hgetallReply_eq_some.mp hr
          exact hk _ _ _ hb₂ ⟨quota, conso, ⟨rfl, hquota, hconso⟩, rfl⟩

end Ahead

/-! ## The keys and their values -/

/-- A set of keys of TURN servers. -/
structure KeyList (names : List String) : Prop where
  nodup : names.Nodup
  keys : ∀ k ∈ names, ∃ name, k = turnKey name

theorem keyList_turnKeys (now : Nat) (db : Db) : KeyList (turnKeys now db) :=
  ⟨db.nodupKeys.filter _, fun _ hk => (mem_turnKeys.mp hk).1⟩

/-- `getTurnServers` has come to its end: it was told the keys `names`, has read each of them, and resolves to
`res`. -/
structure TurnsListed (res : List TurnServer → Outcome) (names : List String) (h : Exchanges)
    (outcome : Option Outcome) : Prop where
  told : keysReplies h = [.multi names]
  keys : KeyList names
  read : (getReplies h).map Prod.fst = names
  none : names = [] → outcome = some (.rejected (.text "No turn found"))
  /-- Without an error, the list has each key once, with the value that was read for it. -/
  listed : names ≠ [] → (∀ z ∈ getReplies h, z.2.isOk = true) →
    ∃ zs : List (String × Reply), zs.Perm (getReplies h) ∧ outcome = some (res (zs.map answered))
  failed : (∃ z ∈ getReplies h, z.2.isOk = false) → ∃ r, outcome = some (.rejected r)

/-- The promise is not settled too early, nor in the wrong way. -/
structure Timely (h : Exchanges) (x : DaoThread) : Prop where
  /-- Without an error, it waits until the last callback has run. -/
  waiting : ¬ x.Idle → (∀ z ∈ getReplies h, z.2.isOk = true) → x.vars.outcome = none
  /-- With one, it is never resolved. -/
  failed : (∃ z ∈ getReplies h, z.2.isOk = false) → x.vars.outcome = none ∨ IsRejected x.vars

/-- What becomes of `getTurnServers`, which resolves to `res`. -/
structure ListsTurns (res : List TurnServer → Outcome) (h : Exchanges) (x : DaoThread) : Prop where
  timely : Timely h x
  ended : x.Idle → ∃ names, TurnsListed res names h x.vars.outcome

/-- `getTurnServers` with the continuation `k` was told the keys `names`, at the end of `h₀`. It has given up, or
has asked for the values. -/
structure TurnsAsked (k : Except Reason (List TurnServer) → P) (rs : List Reply) (names : List String)
    (h₀ h : Exchanges) (x : DaoThread) : Prop where
  told : keysReplies h₀ = [.multi names]
  unread : getReplies h₀ = []
  hashes : hashReplies h₀ = rs
  keys : KeyList names
  progress : (names = [] ∧ h = h₀ ∧ x.Idle ∧ x.vars.outcome = some (.rejected (.text "No turn found"))) ∨
    (names ≠ [] ∧ ∃ log done waiting asked, Thread.Burst Cmd.get (fun t => gotTurnServer names.length t k)
      Locals.init names h₀ h x log done waiting asked)

theorem timely_of_init {h : Exchanges} {x : DaoThread} (hx : x.vars = Locals.init) : Timely h x := by
  exact ⟨fun _ _ => by rw [hx]; rfl, fun _ => .inl (by rw [hx]; rfl)⟩

section Phases

variable {md5 : String → String} {k : Except Reason (List TurnServer) → P} {v : List TurnServer → JsVal}
  {x y : DaoThread} {rs : List Reply} {names : List String} {h₀ h d : Exchanges}

theorem turnsAsked_step {answers : Cmd → Reply → Prop} (hok : ∀ l, k (.ok l) = resolve (v l))
    (herr : ∀ e, k (.error e) = reject e) (ha : TurnsAsked k rs names h₀ h x) (hst : Thread.Step answers x d y) :
    TurnsAsked k rs names h₀ (h ++ d) y := by
  obtain ⟨-, -, hidle, -⟩ | ⟨hne, log, done, waiting, asked, hburst⟩ := ha.progress
  · exact absurd hst (Thread.idle_step hidle)
  · have hquiet : ∀ t r, (gotTurnServer names.length t k r).Quiet := fun t r =>
      quiet_gotTurnServer (quiet_answer hok herr) r
    exact ⟨ha.told, ha.unread, ha.hashes, ha.keys, .inr ⟨hne, Thread.burst_step hquiet hburst hst⟩⟩

/-- From its start, `getTurnServers` runs without a choice to where it asks for the values. -/
theorem ahead_getTurnServers (herr : ∀ e, k (.error e) = reject e) {Q : Exchanges → DaoThread → Prop}
    (hb : Before rs h) (hQ : ∀ names h₀ h x, TurnsAsked k rs names h₀ h x → Q h x) :
    Thread.Ahead (dao md5).Answers Q Locals.init h (Thread.start (getTurnServers k) Locals.init) := by
  refine ahead_selectAsync hb fun h₁ hb₁ => ahead_read fun r hr => ?_
  obtain ⟨s, rfl⟩ := hr
  have hreply : ((dao md5).exec (.keys (Glob.ofString "turnservers:*")) s).2 =
      .multi (turnKeys s.now (s.dbs s.selected)) := rfl
  rw [hreply]
  have hkeys := keyList_turnKeys s.now (s.dbs s.selected)
  generalize turnKeys s.now (s.dbs s.selected) = names at hkeys ⊢
  have htold : keysReplies (h₁ ++ [(.keys (Glob.ofString "turnservers:*"), .multi names)]) = [.multi names] := by
    rw [keysReplies_append, hb₁.keys]
    rfl
  have hunread : getReplies (h₁ ++ [(.keys (Glob.ofString "turnservers:*"), .multi names)]) = [] := by
    rw [getReplies_append, hb₁.gets]
    rfl
  have hhashes : hashReplies (h₁ ++ [(.keys (Glob.ofString "turnservers:*"), .multi names)]) = rs := by
    rw [hashReplies_append, hb₁.hashes]
    exact List.append_nil _
  by_cases hne : names = []
  · subst hne
    rw [gotTurnKeys, herr]
    exact ahead_settle (hQ _ _ _ _ ⟨htold, hunread, hhashes, hkeys, .inl ⟨rfl, rfl, ⟨rfl, rfl⟩, rfl⟩⟩)
  · refine .turn (.here (hQ _ _ _ _ ⟨htold, hunread, hhashes, hkeys, .inr ⟨hne, [], [], [], names, ?_⟩⟩))
    rw [gotTurnKeys_multi hne, Thread.start, issue_foldr_call]
    exact Thread.burst_start _

theorem hashes_of_asked (ha : TurnsAsked k rs names h₀ h x) : hashReplies h = rs := by
  obtain ⟨-, rfl, -⟩ | ⟨-, log, done, waiting, asked, hburst⟩ := ha.progress
  · exact ha.hashes
  · rw [hburst.exchanged]
    show hashReplies (h₀ ++ gets log) = rs
    rw [hashReplies_append, hashReplies_gets, List.append_nil, ha.hashes]

/-- **The list at any moment.** -/
theorem listsTurns_of_asked (hok : ∀ l, k (.ok l) = resolve (v l)) (herr : ∀ e, k (.error e) = reject e)
    (ha : TurnsAsked k rs names h₀ h x) : ListsTurns (fun l => .resolved (v l)) h x := by
  obtain ⟨htold, hunread, -, hkeys, hprogress⟩ := ha
  obtain ⟨rfl, rfl, hidle, hout⟩ | ⟨hne, log, done, waiting, asked, rfl, horder, hperm, rfl⟩ := hprogress
  · refine ⟨⟨fun hno => absurd hidle hno, fun hbad => ?_⟩, fun _ => ⟨[], htold, hkeys, ?_, fun _ => hout, ?_, ?_⟩⟩
    · rw [hunread] at hbad
      simp at hbad
    · rw [hunread]
      rfl
    · exact fun hne => absurd rfl hne
    · rw [hunread]
      simp
  · have hread : getReplies (h₀ ++ gets log) = log := by
      rw [getReplies_append, hunread, getReplies_gets, List.nil_append]
    have htold' : keysReplies (h₀ ++ gets log) = [.multi names] := by
      rw [keysReplies_append, htold, keysReplies_gets, List.append_nil]
    have hsize : done.length + waiting.length + asked.length = names.length := by
      have hlen := hperm.length_eq
      rw [← horder, List.length_append, List.length_map, ← hlen, List.length_append]
    obtain ⟨hwait, hall, hfail⟩ := runTurns_cases hok herr names.length done (by omega)
    have hdone : ∀ z ∈ done, z ∈ log := fun z hz => hperm.mem_iff.mp (List.mem_append_left _ hz)
    have hidle : Thread.Idle (⟨asked.map fun t => (Cmd.get t, some (gotTurnServer names.length t k)),
        waiting.map fun z => gotTurnServer names.length z.1 k z.2,
        Client.runTurns (done.map fun z => gotTurnServer names.length z.1 k z.2) Locals.init⟩ : DaoThread) ↔
        asked = [] ∧ waiting = [] := by
      simp [Thread.Idle]
    show ListsTurns _ (h₀ ++ gets log) _
    refine ⟨⟨fun hno hgood => ?_, fun hbad => ?_⟩, fun hend => ?_⟩
    · -- Something is missing, so the list is not complete.
      rw [hread] at hgood
      refine hwait (fun z hz => hgood z (hdone z hz)) ?_
      rw [hidle, ← List.length_eq_zero_iff, ← List.length_eq_zero_iff] at hno
      omega
    · by_cases hb : ∃ z ∈ done, z.2.isOk = false
      · exact .inr (hfail hb)
      · -- The callback of the error has not run yet.
        rw [hread] at hbad
        obtain ⟨z, hz, hbad⟩ := hbad
        have hgood : ∀ z ∈ done, z.2.isOk = true := by simpa using hb
        have hw : z ∈ waiting := by
          rcases List.mem_append.mp (hperm.mem_iff.mpr hz) with hd | hw
          · rw [hgood z hd] at hbad
            cases hbad
          · exact hw
        have hpos := List.length_pos_of_mem hw
        exact .inl (hwait hgood (by omega))
    · obtain ⟨rfl, rfl⟩ := hidle.mp hend
      rw [List.append_nil] at hperm horder
      refine ⟨names, htold', hkeys, by rw [hread, horder], fun hnil => absurd hnil hne, fun _ hgood => ?_,
        fun hbad => ?_⟩
      · rw [hread] at hgood ⊢
        refine ⟨done, hperm, hall (fun z hz => hgood z (hdone z hz)) ?_ (by simpa using hsize)⟩
        rintro rfl
        exact hne (List.length_eq_zero_iff.mp hsize.symm)
      · rw [hread] at hbad
        obtain ⟨z, hz, hbad⟩ := hbad
        exact hfail ⟨z, hperm.mem_iff.mpr hz, hbad⟩

end Phases

/-! ## The choice -/

/-- What `getAppropriateTurn` resolves to, for the TURN servers `l`. -/
def chosen (md5 : String → String) (csp name date : String) (random : Rat) (l : List TurnServer) :
    Outcome :=
  .resolved (chooseTurn random (clientIdOf md5 csp name date) l)

/-- **A server is chosen from the list**: its address is one of the keys, without `turnservers:`. -/
theorem chooseTurn_mem {names : List String} {random : Rat} (clientId : String) (zs : List TurnServer)
    (hkeys : KeyList names) (hne : names ≠ []) (hlen : names.length < 2 ^ 32)
    (hperm : (zs.map TurnServer.turnUrl).Perm names) (hrandom : IsRandom random) :
    ∃ name, turnKey name ∈ names ∧ chooseTurn random clientId zs = .turn (some name) clientId := by
  have hzs : (zs.map turnAddress).length = names.length := by simpa using hperm.length_eq
  have hindex : randomIndex random (zs.map turnAddress).length < (zs.map turnAddress).length := by
    rw [hzs]
    exact randomIndex_lt hrandom (List.length_pos_of_ne_nil hne) (by omega)
  obtain ⟨name, hget⟩ : ∃ name, (zs.map turnAddress)[randomIndex random
      (zs.map turnAddress).length]? = some name := ⟨_, List.getElem?_eq_getElem hindex⟩
  obtain ⟨z, hz, rfl⟩ := List.mem_map.mp (List.mem_of_getElem? hget)
  refine ⟨turnAddress z, ?_, by rw [chooseTurn, hget]⟩
  have hmem : z.turnUrl ∈ names := hperm.mem_iff.mp (List.mem_map_of_mem hz)
  obtain ⟨name, hname⟩ := hkeys.keys _ hmem
  have hz' : z = ⟨turnKey name, z.turnStatus⟩ := by rw [← hname]
  rw [hz', turnAddress_turnKey, ← hname]
  exact hmem

section Choice

variable {md5 : String → String} {s : Server} {σ : DaoSys} {evs : List (Event Op Env)} {o : Nat}
  {csp name date : String} {random : Rat}

theorem TurnsListed.choice {names : List String} {h : Exchanges} {outcome : Option Outcome}
    (hl : TurnsListed (chosen md5 csp name date random) names h outcome) (hrandom : IsRandom random)
    (hne : names ≠ []) (hlen : names.length < 2 ^ 32) (hgood : ∀ z ∈ getReplies h, z.2.isOk = true) :
    ∃ turn, turnKey turn ∈ names ∧
      outcome = some (.resolved (.turn (some turn) (clientIdOf md5 csp name date))) := by
  obtain ⟨zs, hzs, hout⟩ := hl.listed hne hgood
  have hurls : (zs.map answered).map TurnServer.turnUrl = zs.map Prod.fst := by
    simp [answered, turnServerOf, Function.comp_def]
  have hperm : ((zs.map answered).map TurnServer.turnUrl).Perm names := by
    rw [hurls, ← hl.read]
    exact hzs.map Prod.fst
  obtain ⟨turn, hturn, hchoice⟩ :=
    chooseTurn_mem (clientIdOf md5 csp name date) (zs.map answered) hl.keys hne hlen hperm hrandom
  exact ⟨turn, hturn, hout.trans (by rw [chosen, hchoice])⟩

/-- How the list of the TURN servers is passed on. -/
def listTurns : Except Reason (List TurnServer) → P
  | .ok l => resolve (.turnServers l)
  | .error e => reject e

/-- **`getTurnServers` in every run.** -/
theorem listsTurns_getTurnServers (hrun : (dao md5).Runs Any ((dao md5).fresh s) evs σ)
    (ho : σ.ops[o]? = some .getTurnServers) :
    ListsTurns (fun l => .resolved (.turnServers l)) ((dao md5).exchanges o ((dao md5).fresh s) evs)
      (σ.thread o) := by
  have hok : ∀ l, listTurns (.ok l) = resolve (.turnServers l) := fun _ => rfl
  have herr : ∀ e, listTurns (.error e) = reject e := fun _ => rfl
  have hinv := Client.thread_of_runs (I := Thread.Ahead (dao md5).Answers
    (fun h x => ∃ names h₀, TurnsAsked listTurns [] names h₀ h x) Locals.init)
    (ahead_getTurnServers herr ⟨rfl, rfl, rfl⟩ fun names h₀ _ _ ha => ⟨names, h₀, ha⟩)
    (fun _ _ _ _ hx hst => Thread.ahead_step (fun _ _ _ _ ⟨names, h₀, ha⟩ hst =>
      ⟨names, h₀, turnsAsked_step hok herr ha hst⟩) hx hst) hrun ho
  obtain ⟨names, h₀, ha⟩ | ⟨hidle, hvars⟩ := Thread.ahead_cases hinv
  · exact listsTurns_of_asked hok herr ha
  · exact ⟨timely_of_init hvars, fun h => absurd h hidle⟩

/-- The quota check passes for the replies to `HGETALL`. -/
def GatePasses (rs : List Reply) : Prop :=
  ∃ quota conso, BothHashes rs quota conso ∧
    (numberOf (conso.lookup "data")).gt (numberOf (quota.lookup "dataQuota")) = false

/-- What becomes of `getAppropriateTurn`. -/
structure ChoosesTurn (md5 : String → String) (csp name date : String) (random : Rat) (h : Exchanges)
    (x : DaoThread) : Prop where
  timely : Timely h x
  refused : x.Idle → ¬ GatePasses (hashReplies h) → ∃ err, x.vars.outcome = some (.rejected (unable err))
  ended : x.Idle → GatePasses (hashReplies h) →
    ∃ names, TurnsListed (chosen md5 csp name date random) names h x.vars.outcome
  /-- (No array of JavaScript has `2 ^ 32` elements.) -/
  choice : IsRandom random → x.Idle → GatePasses (hashReplies h) → ∀ names, keysReplies h = [.multi names] →
    names ≠ [] → names.length < 2 ^ 32 → (∀ z ∈ getReplies h, z.2.isOk = true) →
      ∃ turn, turnKey turn ∈ names ∧
        x.vars.outcome = some (.resolved (.turn (some turn) (clientIdOf md5 csp name date)))

/-- The request is rejected before it asks for the TURN servers, or asks for them. -/
def GateDone (md5 : String → String) (csp name date : String) (random : Rat) (h : Exchanges) (x : DaoThread) :
    Prop :=
  (x.Idle ∧ ¬ GatePasses (hashReplies h) ∧ getReplies h = [] ∧
    ∃ err, x.vars.outcome = some (.rejected (unable err))) ∨
  ∃ rs names h₀, GatePasses rs ∧ TurnsAsked (offerTurn md5 csp name date random) rs names h₀ h x

theorem gateDone_step {answers : Cmd → Reply → Prop} {h d : Exchanges} {x y : DaoThread}
    (hg : GateDone md5 csp name date random h x) (hst : Thread.Step answers x d y) :
    GateDone md5 csp name date random (h ++ d) y := by
  obtain ⟨hidle, -⟩ | ⟨rs, names, h₀, hpass, ha⟩ := hg
  · exact absurd hst (Thread.idle_step hidle)
  · have hok : ∀ l, offerTurn md5 csp name date random (.ok l) =
        resolve (chooseTurn random (clientIdOf md5 csp name date) l) := fun _ => rfl
    exact .inr ⟨rs, names, h₀, hpass, turnsAsked_step hok (fun _ => rfl) ha hst⟩

theorem ahead_getAppropriateTurn : Thread.Ahead (dao md5).Answers (GateDone md5 csp name date random)
    Locals.init [] (Thread.start (getAppropriateTurn md5 csp name date random) Locals.init) := by
  have hgate : ∀ h, Before [] h → Thread.Ahead (dao md5).Answers (GateDone md5 csp name date random)
      Locals.init h (Thread.start (quotaGate csp (clientIdOf md5 csp name date) random) Locals.init) := by
    intro h hb
    refine ahead_getCspInfoAndConso hb fun h' rs x hb' hx => ?_
    rw [← hb'.hashes] at hx
    cases x with
    | error err =>
      refine ahead_settle (.inl ⟨⟨rfl, rfl⟩, ?_, hb'.gets, _, rfl⟩)
      rintro ⟨quota, conso, hboth, -⟩
      exact hx quota conso hboth
    | ok x =>
      obtain ⟨quota, conso, hboth, rfl⟩ := hx
      dsimp only
      split
      · rename_i hgt
        refine ahead_settle (.inl ⟨⟨rfl, rfl⟩, ?_, hb'.gets, _, rfl⟩)
        rintro ⟨quota', conso', hboth', hle⟩
        obtain ⟨rfl, rfl⟩ : quota = quota' ∧ conso = conso' := by
          simpa [hboth.1] using hboth'.1
        rw [hgt] at hle
        cases hle
      · rename_i hle
        refine .turn (ahead_getTurnServers (fun _ => rfl) hb' fun names h₀ _ _ ha => .inr ⟨rs, names, h₀, ?_, ha⟩)
        rw [← hb'.hashes]
        exact ⟨quota, conso, hboth, Bool.not_eq_true _ ▸ hle⟩
  refine .send fun r₁ _ => .send fun r₂ _ => .send fun r₃ _ => hgate _ ?_
  exact ⟨rfl, rfl, rfl⟩

/-- **`getAppropriateTurn` in every run.** -/
theorem choosesTurn_getAppropriateTurn (hrun : (dao md5).Runs Any ((dao md5).fresh s) evs σ)
    (ho : σ.ops[o]? = some (.getAppropriateTurn csp name date random)) :
    ChoosesTurn md5 csp name date random ((dao md5).exchanges o ((dao md5).fresh s) evs) (σ.thread o) := by
  have hok : ∀ l, offerTurn md5 csp name date random (.ok l) =
      resolve (chooseTurn random (clientIdOf md5 csp name date) l) := fun _ => rfl
  have hinv := Client.thread_of_runs (I := Thread.Ahead (dao md5).Answers
    (GateDone md5 csp name date random) Locals.init) ahead_getAppropriateTurn
    (fun _ _ _ _ hx hst => Thread.ahead_step (fun _ _ _ _ => gateDone_step) hx hst) hrun ho
  obtain (⟨hend, hno, hunread, hrej⟩ | ⟨rs, names, h₀, hpass, ha⟩) | ⟨hidle, hvars⟩ := Thread.ahead_cases hinv
  · refine ⟨⟨fun h => absurd hend h, ?_⟩, fun _ _ => hrej, fun _ h => absurd h hno, fun _ _ h => absurd h hno⟩
    rw [hunread]
    simp
  · have hlists := listsTurns_of_asked hok (fun _ => rfl) ha
    rw [← hashes_of_asked ha] at hpass
    refine ⟨hlists.timely, fun _ h => absurd hpass h, fun hend _ => hlists.ended hend, ?_⟩
    intro hrandom hend _ names' htold hne hlen hgood
    obtain ⟨names, hlisted⟩ := hlists.ended hend
    obtain rfl : names = names' := by simpa [hlisted.told] using htold
    exact hlisted.choice hrandom hne hlen hgood
  · refine ⟨timely_of_init hvars, fun h => absurd h hidle, fun h => absurd h hidle, fun _ h => absurd h hidle⟩

end Choice

section Alone

variable {md5 : String → String} {s s' : Server} {csp name date : String} {random : Rat} {l : Locals}

/-- When the quota check passes and TURN servers are offered, one of them is chosen. -/
theorem chosen_alone (h : (dao md5).Completes (.getAppropriateTurn csp name date random) s s' l)
    (hpass : HasHash s.now (s.dbs 2) (provKey csp) ∧ HasHash s.now (s.dbs 2) (consoKey (provKey csp)) ∧
      ¬ Exceeded s.now (s.dbs 2) csp) (ho : Offers s.now (s.dbs 2)) (hrandom : IsRandom random)
    (hlen : (turnKeys s.now (s.dbs 2)).length < 2 ^ 32) :
    ∃ turn, turnKey turn ∈ turnKeys s.now (s.dbs 2) ∧
      l.outcome = some (.resolved (.turn (some turn) (clientIdOf md5 csp name date))) := by
  have hok : ∀ l, offerTurn md5 csp name date random (.ok l) =
      resolve (chooseTurn random (clientIdOf md5 csp name date) l) := fun _ => rfl
  obtain ⟨hprov, hconso, hx⟩ := hpass
  obtain ⟨err, hq, -⟩ | ⟨q, c, hq, hgt, -⟩ | ⟨q, c, hq, hgt, hfront⟩ := gate_cases h
  · rw [quotaOf_eq_ok.mpr ⟨hprov, hconso, rfl, rfl⟩] at hq
    cases hq
  · exact absurd (exceeded_iff.mpr ⟨q, c, hq, hgt⟩) hx
  · obtain ⟨-, ts, hperm, hl⟩ | ⟨hno, -⟩ := outcome_of_front hok (fun _ => rfl) hfront h
    · have hkeys := keyList_turnKeys s.now (((Op.getAppropriateTurn csp name date random).after md5 s).dbs 2)
      have hmem : ∀ k ∈ ts, k ∈ turnKeys s.now (s.dbs 2) := by
        intro k hk
        obtain ⟨⟨t, rfl⟩, e, he⟩ := mem_turnKeys.mp (hperm.mem_iff.mp hk)
        refine mem_turnKeys.mpr ⟨⟨t, rfl⟩, e, ?_⟩
        rwa [after_now, find_turnKey_after] at he
      have hnodup : ts.Nodup := hperm.nodup_iff.mpr hkeys.nodup
      have hne : ts ≠ [] := by
        rintro rfl
        have hnil := hperm.nil_eq.symm
        refine (offers_iff.mp (offers_after.mpr ho)).1 hnil
      have hlen' : ts.length ≤ (turnKeys s.now (s.dbs 2)).length :=
        (List.subperm_of_subset hnodup hmem).length_le
      obtain ⟨turn, hturn, hchoice⟩ := chooseTurn_mem (clientIdOf md5 csp name date)
        (ts.map (turnServerOf _)) ⟨hnodup, fun k hk => hkeys.keys k (hperm.mem_iff.mp hk)⟩ hne
        (by omega) (by simp [turnServerOf, Function.comp_def]) hrandom
      exact ⟨turn, hmem _ hturn, by rw [hl, hchoice]⟩
    · rw [after_now, offers_after] at hno
      exact absurd ho hno

end Alone

/-- What `selection` says of operation `o`, which has exchanged `h`, in the state `σ` of a run. -/
structure SelectsInRun (md5 : String → String) (h : Exchanges) (σ : DaoSys) (o : Nat) : Prop where
  servers : σ.ops[o]? = some .getTurnServers →
    ListsTurns (fun l => .resolved (.turnServers l)) h (σ.thread o)
  request : ∀ csp name date random, σ.ops[o]? = some (.getAppropriateTurn csp name date random) →
    ChoosesTurn md5 csp name date random h (σ.thread o)
  /-- The replies and the callbacks can all come. -/
  ends : ∃ evs' σ', (dao md5).Runs (fun _ e => e.Internal) σ evs' σ' ∧ (σ'.thread o).Idle

/-- What `selection` says of the operations alone, in the state `s`. -/
structure SelectsAlone (md5 : String → String) (s : Server) : Prop where
  servers : ∀ s' l, (dao md5).Completes .getTurnServers s s' l →
    (Offers s.now (s.dbs 2) ∧ ∃ ts : List String, ts.Perm (turnKeys s.now (s.dbs 2)) ∧
      l.outcome = some (.resolved (.turnServers (ts.map (turnServerOf (turnReply s)))))) ∨
    (¬ Offers s.now (s.dbs 2) ∧ IsRejected l)
  choice : ∀ csp name date random s' l, IsRandom random → (turnKeys s.now (s.dbs 2)).length < 2 ^ 32 →
    (dao md5).Completes (.getAppropriateTurn csp name date random) s s' l →
    HasHash s.now (s.dbs 2) (provKey csp) ∧ HasHash s.now (s.dbs 2) (consoKey (provKey csp)) ∧
      ¬ Exceeded s.now (s.dbs 2) csp → Offers s.now (s.dbs 2) →
      ∃ turn, turnKey turn ∈ turnKeys s.now (s.dbs 2) ∧
        l.outcome = some (.resolved (.turn (some turn) (clientIdOf md5 csp name date)))
  /-- There is no server, or the value of one cannot be read. -/
  none_offered : ∀ csp name date random s' l,
    (dao md5).Completes (.getAppropriateTurn csp name date random) s s' l →
    ¬ Offers s.now (s.dbs 2) → IsRejected l

/-- **The choice of a TURN server.** In every state of every run, whatever else happens in between: the promise
of `getTurnServers` is settled by the callback for the last reply, with each key that `KEYS` gave once and the value
that `GET` gave for it, or rejected for want of keys or for an error. So is that of `getAppropriateTurn`, if the
quota check passes, and the address that it resolves to is one of the keys without `turnservers:`. If nothing else
happens, the keys are those of database `2`. -/
theorem selection (md5 : String → String) :
    (∀ s evs σ o, (dao md5).Runs Any ((dao md5).fresh s) evs σ →
      SelectsInRun md5 ((dao md5).exchanges o ((dao md5).fresh s) evs) σ o) ∧
    ∀ s, SelectsAlone md5 s := by
  refine ⟨fun s evs σ o hrun => ⟨?_, ?_, ?_⟩, fun s => ⟨?_, ?_, ?_⟩⟩
  · exact fun ho => listsTurns_getTurnServers hrun ho
  · exact fun csp name date random ho => choosesTurn_getAppropriateTurn hrun ho
  · obtain ⟨evs', σ', hrun', hidle⟩ := Client.exists_idle (dao md5) σ
    exact ⟨evs', σ', hrun', by simp [Thread.Idle, Sys.thread, hidle.1, hidle.2]⟩
  · exact fun s' l h => outcome_getTurnServers h
  · exact fun csp name date random s' l hrandom hlen h hpass ho => chosen_alone h hpass ho hrandom hlen
  · intro csp name date random s' l h ho
    obtain ⟨hrej, -⟩ | ⟨-, -, -, -, ho'⟩ := answer_cases h
    · exact hrej
    · exact absurd ho' ho

/-- `getTurnServers` asks for the value of a server that goes away at that moment. -/
def serverGone : List (Event Op Env) :=
  [.start .getTurnServers, .exec, .run 0, .exec, .run 0,
   .env (.client 2 (.rename "turnservers:192.0.2.1:3478" "gone")), .exec, .run 0]

/-- It resolves to the key with no value. A request for a CSP with a quota gets an address. -/
theorem selection_oneTurn : (∃ σ : DaoSys, (dao id).Runs Any ((dao id).fresh oneTurn) serverGone σ ∧
      (σ.vars 0).outcome = some (.resolved (.turnServers [⟨"turnservers:192.0.2.1:3478", none⟩])) ∧
      getReplies ((dao id).exchanges 0 ((dao id).fresh oneTurn) serverGone) =
        [("turnservers:192.0.2.1:3478", .nil)] ∧
      SelectsInRun id ((dao id).exchanges 0 ((dao id).fresh oneTurn) serverGone) σ 0) ∧
    ∃ s l, (dao id).Completes (.getAppropriateTurn "c" "u" "1" 0)
      ((Op.registerCSP (quotaForm "c" "1")).after id oneTurn) s l ∧
    ∃ turn, turnKey turn ∈ turnKeys 0 (((Op.registerCSP (quotaForm "c" "1")).after id oneTurn).dbs 2) ∧
      l.outcome = some (.resolved (.turn (some turn) "c:u1")) := by
  constructor
  · obtain ⟨σ, hσ⟩ : ∃ σ, (dao id).runAll ((dao id).fresh oneTurn) serverGone = some σ := by
      refine Option.isSome_iff_exists.mp ?_
      decide +kernel
    have hall : ((dao id).runAll ((dao id).fresh oneTurn) serverGone).all fun σ =>
        (σ.vars 0).outcome = some (.resolved (.turnServers [⟨"turnservers:192.0.2.1:3478", none⟩])) := by
      decide +kernel
    have hrun : (dao id).Runs Any ((dao id).fresh oneTurn) serverGone σ :=
      Client.runs_of_runAll hσ fun _ _ _ => trivial
    rw [hσ] at hall
    exact ⟨σ, hrun, of_decide_eq_true hall, by decide +kernel, (selection id).1 oneTurn serverGone σ 0 hrun⟩
  · obtain ⟨s, l, h⟩ := Client.exists_completes (dao id) (.getAppropriateTurn "c" "u" "1" 0)
      ((Op.registerCSP (quotaForm "c" "1")).after id oneTurn)
    obtain ⟨hprov, hconso, hx, ho⟩ := within_oneTurn
    have hrandom : IsRandom 0 := ⟨by decide +kernel, le_rfl, by decide⟩
    have hlen : (turnKeys 0 (((Op.registerCSP (quotaForm "c" "1")).after id oneTurn).dbs 2)).length < 2 ^ 32 := by
      decide +kernel
    exact ⟨s, l, h, ((selection id).2 _).choice "c" "u" "1" 0 s l hrandom hlen h ⟨hprov, hconso, hx⟩ ho⟩

end Broker
end QosSupport
