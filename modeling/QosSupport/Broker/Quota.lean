import QosSupport.Broker.Store
import QosSupport.Broker.Traffic

/-!
# A CSP over its quota stays refused

* `refuses_iff`: `getAppropriateTurn` refuses a CSP for its consumption exactly if it is `Exceeded`
  when the request starts.
* `Counters`: every `data` field of the store is the text of a natural number below `2 ^ 63`. It holds
  in every state that operations lead to from an empty database, if consumption is only charged for
  traffic reports: what `parseTurnTraffic` reads as the sent bytes are digits.
* `Grown`: no quota changes and no consumption gets smaller. Every operation other than
  `updateCSPQuotas` and `deleteCSP` does no more than that.
* `refused_of_refused`: a CSP that was refused once is refused again, after every sequence of such
  operations.
-/

namespace QosSupport
namespace Broker

open Redis EventLoop Js Run

/-! ## The answer of `getAppropriateTurn` -/

/-- The rejection of a CSP that consumed more than its quota. -/
def overQuota : Outcome := .rejected (unable "data consumption exceeded")

section Answer

variable {md5 : String → String} {s s' : Server} {l : Locals} {csp name date : String} {random : Rat}

/-- `registerUser` leaves the two hashes of every CSP alone. -/
theorem quotaOf_registerUser (user : String) :
    quotaOf s.now (runCmds s.now [.set (usersKey user) csp, .expire (usersKey user) ttlUser]
      (s.dbs 2)) csp = quotaOf s.now (s.dbs 2) csp := by
  have hread : ∀ c, readHash s.now (runCmds s.now [.set (usersKey user) csp,
      .expire (usersKey user) ttlUser] (s.dbs 2)) (provKey c) =
        readHash s.now (s.dbs 2) (provKey c) := fun c => by
    refine readHash_congr (find_congr (runCmds_frame ?_))
    have hne : provKey c ≠ usersKey user := (usersKey_ne_provKey user c).symm
    simp [Cmd.writes, hne]
  simp only [quotaOf, consoKey_prov, hread]

/-- What `getAppropriateTurn` does, up to the quota. -/
theorem front_getAppropriateTurn : (dao md5).front
    (getAppropriateTurn md5 csp name date random) s Locals.init =
      (dao md5).front (match quotaOf s.now (s.dbs 2) csp with
        | .error err => reject (unable err)
        | .ok (dataQuota, dataConso) =>
          if (numberOf dataConso).gt (numberOf dataQuota) then
            reject (unable "data consumption exceeded")
          else
            getTurnServers fun
              | .ok res => resolve (chooseTurn random (clientIdOf md5 csp name date) res)
              | .error err => reject err)
        ((Op.getAppropriateTurn csp name date random).after md5 s) Locals.init := by
  show (dao md5).front (sendAll _ (quotaGate _ _ _)) (exec (.select 2) s).1 Locals.init = _
  rw [exec_select (by decide), front_sendAll (by simp [Cmd.isData]), quotaGate,
    front_getCspInfoAndConso]
  have hq : quotaOf (selected 2 s).now
      ((within [.set (usersKey (clientIdOf md5 csp name date)) csp,
        .expire (usersKey (clientIdOf md5 csp name date)) ttlUser] (selected 2 s)).dbs 2) csp =
      quotaOf s.now (s.dbs 2) csp := by
    simp only [within, selected, Function.update_self]
    exact quotaOf_registerUser _
  rw [show (within _ (selected 2 s)).now = (selected 2 s).now from rfl, hq]
  rfl

theorem quotaOf_error {now : Nat} {db : Db} {err : String} (h : quotaOf now db csp = .error err) :
    err = "CSP not found" ∨ err = "CSP consumption unknown" := by
  unfold quotaOf at h
  split at h
  · split at h
    · cases h
    · cases h
      exact .inr rfl
  · cases h
    exact .inl rfl

/-- The promise is not rejected for the consumption. -/
def NotRefused (l : Locals) : Prop := l.outcome ≠ some overQuota

theorem keeps_settle {o : Outcome} (ho : o ≠ overQuota) : Client.Keeps NotRefused (settle o) := by
  intro l hl
  refine ⟨?_, trivial⟩
  unfold NotRefused at hl ⊢
  cases hout : l.outcome with
  | none => simpa [hout] using ho
  | some o' => simpa [hout] using hl

section TurnServers

variable {k : Except Reason (List TurnServer) → P}
  (hk : ∀ x, x ≠ .error (unable "data consumption exceeded") → Client.Keeps NotRefused (k x))

include hk

theorem keeps_gotTurnServer (size : Nat) (turnName : String) (r : Reply) :
    Client.Keeps NotRefused (gotTurnServer size turnName k r) := by
  unfold gotTurnServer
  split
  · exact hk _ (by simp [unable])
  · intro l hl
    refine ⟨hl, ?_⟩
    by_cases hsize : (l.turnList.length + 1) = size
    · simpa [hsize] using hk _ (by simp)
    · simp [hsize, Client.Keeps]

theorem keeps_getTurnServers : Client.Keeps NotRefused (getTurnServers k) := by
  refine ⟨fun r => ?_, trivial⟩
  unfold thenOk
  split
  · trivial
  refine ⟨fun r => ?_, trivial⟩
  unfold gotTurnKeys
  split
  · exact hk _ (by simp [unable])
  · exact hk _ (by decide)
  · rename_i reply _
    have hall : ∀ ts : List String, Client.Keeps NotRefused (ts.foldr (fun turnName next =>
        .call (.get turnName) (gotTurnServer reply.length turnName k) next) .done) := by
      intro ts
      induction ts with
      | nil => trivial
      | cons t ts ih => exact ⟨keeps_gotTurnServer hk _ _, ih⟩
    exact hall reply
  · trivial

end TurnServers

/-- What `getAppropriateTurn` does next, once the TURN servers are known. -/
def offerTurn (md5 : String → String) (csp name date : String) (random : Rat) :
    Except Reason (List TurnServer) → P
  | .ok res => resolve (chooseTurn random (clientIdOf md5 csp name date) res)
  | .error err => reject err

/-- **What a request can run into**: a missing hash, the consumption, or the list of TURN servers. -/
theorem gate_cases (h : (dao md5).Completes (.getAppropriateTurn csp name date random) s s' l) :
    (∃ err, quotaOf s.now (s.dbs 2) csp = .error err ∧
      l.outcome = some (.rejected (unable err))) ∨
    (∃ q c, quotaOf s.now (s.dbs 2) csp = .ok (q, c) ∧ (numberOf c).gt (numberOf q) = true ∧
      l.outcome = some overQuota) ∨
    (∃ q c, quotaOf s.now (s.dbs 2) csp = .ok (q, c) ∧ (numberOf c).gt (numberOf q) = false ∧
      (dao md5).front ((dao md5).code (.getAppropriateTurn csp name date random)) s (dao md5).init =
        (dao md5).front (getTurnServers (offerTurn md5 csp name date random))
          ((Op.getAppropriateTurn csp name date random).after md5 s) Locals.init) := by
  have hfront : (dao md5).front ((dao md5).code (.getAppropriateTurn csp name date random)) s
      (dao md5).init = _ := front_getAppropriateTurn
  cases hq : quotaOf s.now (s.dbs 2) csp with
  | error err =>
    simp only [hq] at hfront
    have hend := Client.end_of_completes hfront h
    exact .inl ⟨err, rfl, by rw [(Prod.mk.inj hend).2]; rfl⟩
  | ok x =>
    obtain ⟨q, c⟩ := x
    simp only [hq] at hfront
    cases hgt : (numberOf c).gt (numberOf q) with
    | true =>
      rw [if_pos hgt] at hfront
      have hend := Client.end_of_completes hfront h
      exact .inr (.inl ⟨q, c, rfl, hgt, by rw [(Prod.mk.inj hend).2]; rfl⟩)
    | false =>
      rw [if_neg (by simp [hgt])] at hfront
      exact .inr (.inr ⟨q, c, rfl, hgt, hfront⟩)

/-- **When a CSP is refused for its consumption.** -/
theorem refuses_iff (h : (dao md5).Completes (.getAppropriateTurn csp name date random) s s' l) :
    l.outcome = some overQuota ↔ Exceeded s.now (s.dbs 2) csp := by
  rw [exceeded_iff]
  obtain ⟨err, hq, hl⟩ | ⟨q, c, hq, hgt, hl⟩ | ⟨q, c, hq, hgt, hfront⟩ := gate_cases h
  · rw [hl]
    constructor
    · intro he
      rcases quotaOf_error hq with rfl | rfl
      · exact absurd he (by decide)
      · exact absurd he (by decide)
    · rintro ⟨q, c, hqc, -⟩
      rw [hq] at hqc
      cases hqc
  · exact iff_of_true hl ⟨q, c, hq, hgt⟩
  · have hl : NotRefused l := by
      refine Client.vars_of_completes hfront nofun (keeps_getTurnServers fun x hx => ?_) h
      cases x with
      | error err => exact keeps_settle fun he => hx (by injection he with he; rw [he])
      | ok res => exact keeps_settle (by simp [overQuota])
    refine iff_of_false hl ?_
    rintro ⟨q', c', hqc, hgt'⟩
    rw [hq] at hqc
    cases hqc
    rw [hgt] at hgt'
    cases hgt'

end Answer

/-! ## What is charged -/

/-- The sent bytes that are read are digits. -/
theorem isDigit_of_parse {channel message : String} {t : TrafficRecord}
    (h : parseTurnTraffic channel message = some t) : ∀ c ∈ t.sent_bytes.toList, c.isDigit = true := by
  unfold parseTurnTraffic at h
  split at h
  · split at h
    · rename_i hs
      cases h
      obtain _ | ⟨-, _ | ⟨hd, -⟩⟩ := Regex.search_captures hs
      simpa using hd
    · cases h
  · cases h

/-- An integer written with digits only is not negative. -/
theorem getLongLong_nonneg {t : String} {v : Int} (hd : ∀ c ∈ t.toList, c.isDigit = true)
    (h : getLongLong t = some v) : 0 ≤ v := by
  rw [getLongLong_digits hd] at h
  split at h
  · cases h
    exact Int.natCast_nonneg _
  · cases h

/-- The text of a counter. -/
def IsCounter (t : String) (n : Nat) : Prop := n < 2 ^ 63 ∧ t = toString n

/-- The fields of consumption are counters. -/
def Counters (v : View) : Prop := ∀ csp t, v csp "data" = some t → ∃ n, IsCounter t n

/-- A charge counts up. -/
theorem incremented_counter {n : Nat} {t b : String} (ht : IsCounter t n)
    (hb : ∀ c ∈ b.toList, c.isDigit = true) {v : Int} (h : incremented (some t) b = some v) :
    ∃ m, n ≤ m ∧ IsCounter (toString v) m := by
  obtain ⟨hn, rfl⟩ := ht
  obtain ⟨k, hk, h⟩ := Option.bind_eq_some_iff.mp h
  simp only [getLongLong_repr hn, Option.bind_some] at h
  have hnonneg := getLongLong_nonneg hb hk
  split at h
  · rename_i hr
    cases h
    refine ⟨n + k.toNat, by omega, by omega, ?_⟩
    rw [show (n : Int) + k = ((n + k.toNat : Nat) : Int) by omega]
    rfl
  · cases h

/-- The first charge starts a counter. -/
theorem incremented_none {b : String} (hb : ∀ c ∈ b.toList, c.isDigit = true) {v : Int}
    (h : incremented none b = some v) : ∃ m, IsCounter (toString v) m := by
  obtain ⟨k, hk, h⟩ := Option.bind_eq_some_iff.mp h
  cases h
  have hnonneg := getLongLong_nonneg hb hk
  have hrange := getLongLong_range hk
  refine ⟨v.toNat, by omega, ?_⟩
  rw [show v = (v.toNat : Int) by omega]
  rfl

/-- Whatever was there, a charge leaves a counter. -/
theorem counter_of_incremented {old : Option String} {b : String} {v : Int}
    (hold : ∀ t, old = some t → ∃ n, IsCounter t n) (hb : ∀ c ∈ b.toList, c.isDigit = true)
    (h : incremented old b = some v) : ∃ m, IsCounter (toString v) m := by
  cases old with
  | none => exact incremented_none hb h
  | some t =>
    obtain ⟨n, hn⟩ := hold t rfl
    obtain ⟨m, -, hm⟩ := incremented_counter hn hb h
    exact ⟨m, hm⟩

/-! ## The counters -/

/-- The command changes `data` fields as counters. -/
def Counts : Cmd → Prop
  | .hsetnx _ f v => f = "data" → v = "0"
  | .hmset _ fvs => "data" ∉ fvs.map Prod.fst
  | .hincrby _ f b => f = "data" → ∀ c ∈ b.toList, c.isDigit = true
  | _ => True

/-- What holds in every state that operations lead to from an empty database. -/
structure Sound (s : Server) : Prop where
  prov : ProvOk (s.dbs 2)
  counters : Counters (view s.now (s.dbs 2))

section Sound

variable {now : Nat} {db : Db} {c : Cmd} {s : Server} {md5 : String → String}

theorem counters_execDb (hdb : ProvOk db) (hk : KeepsProv c) (hc : Counts c)
    (h : Counters (view now db)) : Counters (view now (execDb now c db).1) := by
  -- What is not written under `prov:` is as before.
  have hframe : (∀ csp, provKey csp ∉ c.writes) → Counters (view now (execDb now c db).1) := by
    intro hw
    rw [view_congr hdb (provOk_execDb hdb hk now) fun csp => execDb_frame (hw csp)]
    exact h
  intro csp t ht
  unfold view at ht
  cases c with
  | select | keys | get | hgetall => exact hframe (by simp [Cmd.writes]) csp t ht
  | set k v => exact hframe (fun x hx => hk x (List.mem_singleton.mp hx).symm) csp t ht
  | expire k secs => exact hframe (fun x hx => hk x (List.mem_singleton.mp hx).symm) csp t ht
  | hsetnx k f v =>
    by_cases hkk : provKey csp = k
    · subst hkk
      rw [field_hsetnx (isHash_provKey hdb now csp)] at ht
      split at ht
      · rename_i hf
        cases hold : field now db (provKey csp) f with
        | none =>
          rw [hold] at ht
          exact ⟨0, by decide, (Option.some.inj ht).symm.trans (hc hf.2.symm)⟩
        | some t₀ =>
          rw [hold] at ht
          obtain rfl : t₀ = t := Option.some.inj ht
          exact h csp t₀ (by rw [view, hf.2, hold])
      · exact h csp t ht
    · rw [field_congr (find_congr (execDb_frame (by simpa [Cmd.writes] using hkk)))] at ht
      exact h csp t ht
  | hmset k fvs =>
    rw [field_hmset_ne hc] at ht
    exact h csp t ht
  | hincrby k f b =>
    by_cases hkf : provKey csp = k ∧ "data" = f
    · obtain ⟨rfl, rfl⟩ := hkf
      rw [field_hincrby_self (isHash_provKey hdb now csp)] at ht
      cases hv : incremented (field now db (provKey csp) "data") b with
      | none =>
        rw [hv] at ht
        exact h csp t ht
      | some v =>
        rw [hv] at ht
        cases ht
        exact counter_of_incremented (h csp) (hc rfl) hv
    · rw [field_hincrby_ne (not_and_or.mp hkf)] at ht
      exact h csp t ht
  | rename k k' =>
    rw [field_rename (fun he => hk csp he.symm)] at ht
    split at ht
    · cases ht
    · exact h csp t ht

theorem sound_exec (hk : KeepsProv c) (hc : Counts c) (h : Sound s) : Sound (exec c s).1 := by
  cases hd : c.isData with
  | false =>
    cases c with
    | select n =>
      simp only [exec]
      split
      · exact ⟨h.prov, h.counters⟩
      · exact h
    | _ => cases hd
  | true =>
    rw [exec_data hd]
    by_cases hsel : s.selected = 2
    · refine ⟨?_, ?_⟩
      · simp only [hsel, Function.update_self]
        exact provOk_execDb h.prov hk s.now
      · simp only [hsel, Function.update_self]
        exact counters_execDb h.prov hk hc h.counters
    · refine ⟨?_, ?_⟩
      · simp only [Function.update_of_ne (Ne.symm hsel)]
        exact h.prov
      · simp only [Function.update_of_ne (Ne.symm hsel)]
        exact h.counters

theorem sound_empty (h : Empty2 s) : Sound s := by
  refine ⟨provOk_empty h, fun csp t ht => ?_⟩
  rw [h] at ht
  cases ht

theorem sound_foreign {a : Env} (ha : Foreign a) (h : Sound s) : Sound (a.act s) := by
  refine ⟨fun csp e he => ?_, ?_⟩
  · rw [lookup_foreign ha] at he
    exact h.prov csp e he
  · rw [view_foreign ha h.prov]
    exact h.counters

/-- Consumption is only charged for traffic reports. -/
def Op.Reported : Op → Prop
  | .addCSPConso t => ∃ channel message, t = parseTurnTraffic channel message
  | _ => True

theorem counts_cmds {op : Op} (hop : op.Reported) : ∀ c ∈ op.cmds md5 now db, Counts c := by
  cases op with
  | addCSPConso t =>
    cases t with
    | none => simp [Op.cmds]
    | some t =>
      obtain ⟨channel, message, ht⟩ := hop
      simp only [Op.cmds]
      split
      · simpa [Counts] using isDigit_of_parse ht.symm
      · simp
  | _ => simp [Op.cmds, registerCmds, quotaFields, Counts]

/-- Every command of an operation keeps what holds. -/
theorem issues_reported {op : Op} (hop : op.Reported) :
    (op.code md5).Issues fun c => KeepsProv c ∧ Counts c := by
  refine (issues_code md5 op).mono fun c hc => ?_
  rcases hc with rfl | ⟨hd, hw⟩ | ⟨now, db, hc⟩
  · exact ⟨trivial, trivial⟩
  · cases c <;> first | exact ⟨trivial, trivial⟩ | cases hw
  · exact ⟨keepsProv_cmds md5 op c hc, counts_cmds hop c hc⟩

end Sound

/-- An operation is started that charges consumption for traffic reports only, or others act. -/
def Reported (_ : DaoSys) : Event Op Env → Prop
  | .start op => op.Reported
  | .env a => Foreign a
  | .exec | .run _ => True

/-- **Every state** that operations lead to from an empty database, in any interleaving. -/
theorem sound_of_runs {md5 : String → String} {s : Server} {σ : DaoSys} {evs : List (Event Op Env)}
    (h : (dao md5).Runs Reported ((dao md5).fresh s) evs σ) (hs : Empty2 s) : Sound σ.server := by
  refine Client.server_of_runs (G := fun c => KeepsProv c ∧ Counts c)
    (fun c τ hc => sound_exec hc.1 hc.2) (h.mono fun τ e he => ?_) (sound_empty hs)
  cases e with
  | start op => exact issues_reported he
  | env a => exact fun τ => sound_foreign he
  | exec | run => trivial

/-! ## Sequences -/

/-- No quota is changed and no CSP deleted. -/
def Continues (_ : Server) : SeqEvent → Prop
  | .op (.updateCSPQuotas _ _ _ _) | .op (.deleteCSP _) => False
  | .op o => o.Reported
  | .env a => Foreign a

/-- **No quota changes and no consumption gets smaller.** -/
structure Grown (v v' : View) : Prop where
  quota : ∀ csp t, v csp "dataQuota" = some t → v' csp "dataQuota" = some t
  data : ∀ csp t n, v csp "data" = some t → IsCounter t n →
    ∃ t' m, v' csp "data" = some t' ∧ n ≤ m ∧ IsCounter t' m

section Steps

variable {md5 : String → String} {s s' : Server} {e : SeqEvent}

theorem foreign_of_continues (he : Continues s e) : ∀ a, e = .env a → Foreign a := by
  rintro a rfl
  exact he

/-- What a charge does to a counter. -/
theorem charged_data {v v' : View} {c : String} {t : TrafficRecord}
    (ht : ∃ channel message, some t = parseTurnTraffic channel message)
    (hv : ∀ csp f, v' csp f = if csp = conso c ∧ f = "data" then
        match incremented (v (conso c) "data") t.sent_bytes with
        | some v => some (toString v)
        | none => v (conso c) "data"
      else v csp f) (csp : String) :
    v' csp "data" = v csp "data" ∨ ∃ x, v' csp "data" = some (toString x) ∧
      incremented (v csp "data") t.sent_bytes = some x ∧
      ∀ c ∈ t.sent_bytes.toList, c.isDigit = true := by
  obtain ⟨channel, message, ht⟩ := ht
  rw [hv]
  by_cases hc : csp = conso c
  · subst hc
    rw [if_pos ⟨rfl, rfl⟩]
    cases hx : incremented (v (conso c) "data") t.sent_bytes with
    | none => exact .inl rfl
    | some x => exact .inr ⟨x, rfl, rfl, isDigit_of_parse ht.symm⟩
  · rw [if_neg fun h => hc h.1]
    exact .inl rfl

/-- An operation that charges consumption for traffic reports only keeps what holds. -/
theorem sound_op {op : Op} (h : Seq md5 s (.op op) s') (hop : op.Reported) (hs : Sound s) :
    Sound s' := by
  obtain ⟨l, h⟩ := h
  exact Client.server_inv_of_completes (G := fun c => KeepsProv c ∧ Counts c)
    (fun c τ hc => sound_exec hc.1 hc.2) (issues_reported hop) h hs

theorem sound_step (h : Seq md5 s e s') (he : Continues s e) (hs : Sound s) : Sound s' := by
  cases e with
  | op o =>
    have hop : o.Reported := by
      cases o with
      | updateCSPQuotas | deleteCSP => exact he.elim
      | _ => exact he
    exact sound_op h hop hs
  | env a =>
    obtain rfl : s' = a.act s := h
    exact sound_foreign he hs

/-- **One step** that neither changes a quota nor deletes a CSP grows the store. -/
theorem grown_step (h : Seq md5 s e s') (he : Continues s e) (hs : ProvOk (s.dbs 2)) :
    Grown (view s.now (s.dbs 2)) (view s'.now (s'.dbs 2)) := by
  obtain hv | ⟨formDatas, rfl, hv⟩ | ⟨k, a, v, d, rfl, -⟩ | ⟨k, rfl, -⟩ | ⟨t, c, rfl, -, hv⟩ :=
    view_cases h (foreign_of_continues he) hs
  · rw [hv]
    exact ⟨fun _ _ ht => ht, fun csp t n ht hn => ⟨t, n, ht, le_rfl, hn⟩⟩
  · refine ⟨fun csp t ht => ?_, fun csp t n ht hn => ⟨t, n, ?_, le_rfl, hn⟩⟩
    · rw [hv, ht, Option.some_or]
    · rw [hv, ht, Option.some_or]
  · exact he.elim
  · exact he.elim
  · refine ⟨fun csp t ht => ?_, fun csp t₀ n ht hn => ?_⟩
    · rw [hv, if_neg fun hh => absurd hh.2 (by decide)]
      exact ht
    · rcases charged_data he hv csp with hsame | ⟨x, hx, hinc, hd⟩
      · exact ⟨t₀, n, by rw [hsame, ht], le_rfl, hn⟩
      · rw [ht] at hinc
        obtain ⟨m, hle, hm⟩ := incremented_counter hn hd hinc
        exact ⟨_, m, hx, hle, hm⟩

/-- A CSP that exceeds its quota still does when the store has grown. -/
theorem exceeded_grown {csp : String} (hc : Counters (view s.now (s.dbs 2)))
    (hg : Grown (view s.now (s.dbs 2)) (view s'.now (s'.dbs 2)))
    (hx : Exceeded s.now (s.dbs 2) csp) : Exceeded s'.now (s'.dbs 2) csp := by
  have hx' : (numberOf (view s.now (s.dbs 2) (conso csp) "data")).gt
      (numberOf (view s.now (s.dbs 2) csp "dataQuota")) = true := by
    rw [Exceeded, consoKey_prov] at hx
    exact hx
  obtain ⟨q, hq⟩ := exists_of_numberOf (v := view s.now (s.dbs 2) csp "dataQuota") fun hn => by
    rw [hn, gt_nan_right] at hx'
    cases hx'
  obtain ⟨t, ht⟩ := exists_of_numberOf (v := view s.now (s.dbs 2) (conso csp) "data") fun hn => by
    rw [hn, gt_nan_left] at hx'
    cases hx'
  obtain ⟨n, hn⟩ := hc _ t ht
  obtain ⟨t', m, ht', hle, hm⟩ := hg.data _ t n ht hn
  obtain ⟨hlt, rfl⟩ := hn
  obtain ⟨hlt', rfl⟩ := hm
  rw [Exceeded, consoKey_prov]
  show (numberOf (view s'.now (s'.dbs 2) (conso csp) "data")).gt
    (numberOf (view s'.now (s'.dbs 2) csp "dataQuota")) = true
  rw [ht, hq] at hx'
  rw [ht', hg.quota csp q hq]
  simp only [numberOf, toNumber_repr] at hx' ⊢
  exact gt_mono hle (by omega) hx'

end Steps

/-- **Once over quota, always refused.** Take any state that operations lead to from an empty database,
in any interleaving, in which a request for a CSP is refused for its consumption. After every sequence
of operations that neither changes a quota nor deletes a CSP, every request for this CSP runs to its
end and is refused for the same reason. -/
theorem refused_of_refused (md5 : String → String) (s s' t : Server) (evs : List (Event Op Env))
    (σ : DaoSys) (seq : List SeqEvent) (csp name date : String) (random : Rat) (l : Locals)
    (hs : Empty2 s) (hreach : (dao md5).Runs Reported ((dao md5).fresh s) evs σ)
    (hdone : (dao md5).Completes (.getAppropriateTurn csp name date random) σ.server t l)
    (hrej : l.outcome = some overQuota)
    (hcont : Steps (Seq md5) Continues σ.server seq s') (name' date' : String) (random' : Rat) :
    (∃ t' l', (dao md5).Completes (.getAppropriateTurn csp name' date' random') s' t' l') ∧
    ∀ t' l', (dao md5).Completes (.getAppropriateTurn csp name' date' random') s' t' l' →
      l'.outcome = some overQuota := by
  have hsound : Sound σ.server := sound_of_runs hreach hs
  have hx : Exceeded σ.server.now (σ.server.dbs 2) csp := (refuses_iff hdone).mp hrej
  have hend : Sound s' ∧ Exceeded s'.now (s'.dbs 2) csp := by
    refine hcont.inv (I := fun τ => Sound τ ∧ Exceeded τ.now (τ.dbs 2) csp)
      (fun τ e τ' hi he hst => ?_) ⟨hsound, hx⟩
    have hgrown := grown_step hst he hi.1.prov
    exact ⟨sound_step hst he hi.1, exceeded_grown hi.1.counters hgrown hi.2⟩
  exact ⟨Client.exists_completes (dao md5) _ s', fun t' l' h => (refuses_iff h).mpr hend.2⟩

/-- The report of 7 bytes that the user `u` sent. -/
def sevenBytes : Option TrafficRecord :=
  parseTurnTraffic "turn/192.0.2.1/3478/realm/orange.com/user/u/allocation/1/traffic"
    "rcvp=2000, rcvb=9, sentp=48, sentb=7"

/-- A CSP with a quota of zero is registered, and a user of it sends 7 bytes. -/
def firstTraffic : List (Event Op Env) :=
  [.start (.registerCSP ⟨some "c", none, none, some "0"⟩), .start (.registerUser "c" "u"), .exec,
   .run 0] ++ List.replicate 10 .exec ++ [.start (.addCSPConso sevenBytes), .exec, .run 0, .exec,
   .run 0, .exec, .run 0]

/-- It is refused from then on, also when it is registered again with a larger quota. -/
theorem refused_registered_again : ∃ σ : DaoSys,
    (dao id).Runs Reported ((dao id).fresh blank) firstTraffic σ ∧ ∃ t l,
      (dao id).Completes (.getAppropriateTurn "c" "b" "2" 0)
        ((Op.registerCSP ⟨some "c", none, none, some "5"⟩).after id σ.server) t l ∧
      l.outcome = some overQuota := by
  obtain ⟨σ, hσ⟩ : ∃ σ, (dao id).runAll ((dao id).fresh blank) firstTraffic = some σ := by
    refine Option.isSome_iff_exists.mp ?_
    decide +kernel
  have hx : ∀ σ, (dao id).runAll ((dao id).fresh blank) firstTraffic = some σ →
      Exceeded σ.server.now (σ.server.dbs 2) "c" := by
    have h : ((dao id).runAll ((dao id).fresh blank) firstTraffic).all fun σ =>
        (numberOf (field σ.server.now (σ.server.dbs 2) (consoKey (provKey "c")) "data")).gt
          (numberOf (field σ.server.now (σ.server.dbs 2) (provKey "c") "dataQuota")) := by
      decide +kernel
    intro σ hσ
    rw [hσ] at h
    exact h
  have hreach : (dao id).Runs Reported ((dao id).fresh blank) firstTraffic σ := by
    refine Client.runs_of_runAll hσ fun τ e he => ?_
    simp only [firstTraffic, List.mem_append, List.mem_cons, List.mem_replicate, List.not_mem_nil,
      or_false] at he
    rcases he with ((rfl | rfl | rfl | rfl) | ⟨-, rfl⟩) | rfl | rfl | rfl | rfl | rfl | rfl | rfl <;>
      first | trivial | exact ⟨_, _, rfl⟩
  obtain ⟨t, l, hdone⟩ := Client.exists_completes (dao id) (.getAppropriateTurn "c" "a" "1" 0) σ.server
  have hcont : Steps (Seq id) Continues σ.server
      [.op (.registerCSP ⟨some "c", none, none, some "5"⟩)]
      ((Op.registerCSP ⟨some "c", none, none, some "5"⟩).after id σ.server) :=
    .one trivial (seq_after id _ _)
  obtain ⟨⟨t', l', h⟩, hall⟩ := refused_of_refused id blank _ t _ σ _ "c" "a" "1" 0 l rfl hreach hdone
    ((refuses_iff hdone).mpr (hx σ hσ)) hcont "b" "2" 0
  exact ⟨σ, hreach, t', l', h, hall t' l' h⟩

end Broker
end QosSupport
