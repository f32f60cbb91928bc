import QosSupport.Broker.Quota
import QosSupport.Broker.TurnServers

/-!
# The quota gate

`getAppropriateTurn` compares `Number(dataConso) > Number(dataQuota)`. A value that is absent or no number
is `NaN`, for which the comparison is false, and the request goes on to the TURN servers.

* `Within`: both hashes of the CSP are there, quota and consumption are numbers, and the consumption is
  at most the quota.
* `gateOk_iff`: the gate admits only within a numeric quota, and rejects otherwise, exactly if a hash is
  missing, both values are numbers, or no TURN server is offered. So it does in every state that operations
  with `Validated` inputs lead to.
* `gate_open`: a CSP registered without `qdata` has the quota `NaN`, and is admitted.
-/

namespace QosSupport
namespace Broker

open Redis EventLoop Js Run

/-- The hash is there. -/
def HasHash (now : Nat) (db : Db) (key : String) : Prop := ∃ h, readHash now db key = .ok (some h)

/-- The stored quota of a CSP. -/
def quotaNumber (now : Nat) (db : Db) (csp : String) : Number :=
  numberOf (field now db (provKey csp) "dataQuota")

/-- The stored consumption of a CSP. -/
def consoNumber (now : Nat) (db : Db) (csp : String) : Number :=
  numberOf (field now db (consoKey (provKey csp)) "data")

/-- The CSP is within a numeric quota. -/
structure Within (now : Nat) (db : Db) (csp : String) : Prop where
  prov : HasHash now db (provKey csp)
  conso : HasHash now db (consoKey (provKey csp))
  quota : quotaNumber now db csp ≠ .nan
  data : consoNumber now db csp ≠ .nan
  /-- The consumption is at most the quota. -/
  atMost : (consoNumber now db csp).gt (quotaNumber now db csp) = false

/-- Requests for the CSP in the state `s` are admitted only within a numeric quota, and rejected
otherwise. -/
def GateOk (md5 : String → String) (s : Server) (csp : String) : Prop :=
  ∀ name date random s' l,
    (dao md5).Completes (.getAppropriateTurn csp name date random) s s' l →
      ((∃ v, l.outcome = some (.resolved v)) → Within s.now (s.dbs 2) csp) ∧
      (¬ Within s.now (s.dbs 2) csp → IsRejected l)

/-- What `getCspInfoAndConso` reads. -/
theorem quotaOf_eq_ok {now : Nat} {db : Db} {csp : String} {q c : Option String} :
    quotaOf now db csp = .ok (q, c) ↔ HasHash now db (provKey csp) ∧
      HasHash now db (consoKey (provKey csp)) ∧ field now db (provKey csp) "dataQuota" = q ∧
      field now db (consoKey (provKey csp)) "data" = c := by
  unfold quotaOf HasHash field
  rcases hi : readHash now db (provKey csp) with e | _ | infos
  · simp
  · simp
  · rcases hc : readHash now db (consoKey (provKey csp)) with e | _ | conso
    · simp
    · simp
    · rw [(readHash_eq_some.mp hi).1, (readHash_eq_some.mp hc).1]
      simp

section Gate

variable {md5 : String → String} {s s' : Server} {l : Locals} {csp name date : String} {random : Rat}

/-- `registerUser` leaves the TURN servers alone. -/
theorem find_turnKey_after (t : String) :
    find s.now (((Op.getAppropriateTurn csp name date random).after md5 s).dbs 2) (turnKey t) =
      find s.now (s.dbs 2) (turnKey t) := by
  rw [after_dbs s rfl]
  refine find_congr (runCmds_frame ?_)
  have hne : ∀ u, turnKey t ≠ usersKey u := fun u => ne_of_head (by simp [turnKey, usersKey])
  simp [Op.cmds, Cmd.writes, hne]

theorem offers_after : Offers s.now (((Op.getAppropriateTurn csp name date random).after md5 s).dbs 2) ↔
    Offers s.now (s.dbs 2) := by
  simp only [Offers, find_turnKey_after]

/-- **The answer of `getAppropriateTurn`**: rejected for a missing hash, for the consumption, or for
want of a TURN server; resolved otherwise. -/
theorem answer_cases (h : (dao md5).Completes (.getAppropriateTurn csp name date random) s s' l) :
    IsRejected l ∧ (¬ HasHash s.now (s.dbs 2) (provKey csp) ∨
      ¬ HasHash s.now (s.dbs 2) (consoKey (provKey csp)) ∨ Exceeded s.now (s.dbs 2) csp ∨
      ¬ Offers s.now (s.dbs 2)) ∨
    (∃ turnUrl, l.outcome = some (.resolved (.turn turnUrl (clientIdOf md5 csp name date)))) ∧
      HasHash s.now (s.dbs 2) (provKey csp) ∧ HasHash s.now (s.dbs 2) (consoKey (provKey csp)) ∧
      ¬ Exceeded s.now (s.dbs 2) csp ∧ Offers s.now (s.dbs 2) := by
  obtain ⟨err, hq, hl⟩ | ⟨q, c, hq, hgt, hl⟩ | ⟨q, c, hq, hgt, hfront⟩ := gate_cases h
  · refine .inl ⟨⟨unable err, hl⟩, ?_⟩
    by_contra hno
    simp only [not_or, not_not] at hno
    rw [quotaOf_eq_ok.mpr ⟨hno.1, hno.2.1, rfl, rfl⟩] at hq
    cases hq
  · exact .inl ⟨⟨_, hl⟩, .inr (.inr (.inl (exceeded_iff.mpr ⟨q, c, hq, hgt⟩)))⟩
  · obtain ⟨hprov, hconso, hquota, hdata⟩ := quotaOf_eq_ok.mp hq
    have hx : ¬ Exceeded s.now (s.dbs 2) csp := by
      rw [Exceeded, hquota, hdata, hgt]
      exact Bool.false_ne_true
    obtain ⟨ho, ts, -, hl⟩ | ⟨ho, hl⟩ :=
      outcome_of_front (v := chooseTurn random (clientIdOf md5 csp name date)) (fun _ => rfl)
        (fun _ => rfl) hfront h
    · rw [after_now, offers_after] at ho
      exact .inr ⟨⟨_, hl⟩, hprov, hconso, hx, ho⟩
    · rw [after_now, offers_after] at ho
      exact .inl ⟨hl, .inr (.inr (.inr ho))⟩

end Gate

/-- Where a value is no number, requests are admitted. -/
theorem not_gateOk {md5 : String → String} {s : Server} {csp : String}
    (hprov : HasHash s.now (s.dbs 2) (provKey csp))
    (hconso : HasHash s.now (s.dbs 2) (consoKey (provKey csp)))
    (hnan : quotaNumber s.now (s.dbs 2) csp = .nan ∨ consoNumber s.now (s.dbs 2) csp = .nan)
    (ho : Offers s.now (s.dbs 2)) : ¬ GateOk md5 s csp := by
  intro hgate
  have hno : ¬ Within s.now (s.dbs 2) csp := fun hw => hnan.elim hw.quota hw.data
  have hx : ¬ Exceeded s.now (s.dbs 2) csp := by
    unfold Exceeded
    rcases hnan with hn | hn
    · unfold quotaNumber at hn
      simp [hn, gt_nan_right]
    · unfold consoNumber at hn
      simp [hn, gt_nan_left]
  obtain ⟨s', l, h⟩ := Client.exists_completes (dao md5) (.getAppropriateTurn csp "" "" 0) s
  obtain ⟨-, hcase⟩ | ⟨⟨v, hl⟩, -⟩ := answer_cases h
  · rcases hcase with h1 | h2 | h3 | h4
    · exact h1 hprov
    · exact h2 hconso
    · exact hx h3
    · exact h4 ho
  · exact hno ((hgate _ _ _ _ _ h).1 ⟨_, hl⟩)

/-- Where a hash is missing, both values are numbers, or no TURN server is offered, the gate is right. -/
theorem gateOk_of {md5 : String → String} {s : Server} {csp : String} (hcond :
    (¬ HasHash s.now (s.dbs 2) (provKey csp) ∨ ¬ HasHash s.now (s.dbs 2) (consoKey (provKey csp))) ∨
    (quotaNumber s.now (s.dbs 2) csp ≠ .nan ∧ consoNumber s.now (s.dbs 2) csp ≠ .nan) ∨
    ¬ Offers s.now (s.dbs 2)) : GateOk md5 s csp := by
  intro name date random s' l h
  obtain ⟨hl, -⟩ | ⟨⟨v, hl⟩, hprov, hconso, hx, ho⟩ := answer_cases h
  · refine ⟨?_, fun _ => hl⟩
    obtain ⟨r, hl⟩ := hl
    rintro ⟨v, hv⟩
    rw [hl] at hv
    cases hv
  · have hw : Within s.now (s.dbs 2) csp := by
      rcases hcond with (h1 | h2) | ⟨hq, hc⟩ | h4
      · exact absurd hprov h1
      · exact absurd hconso h2
      · exact ⟨hprov, hconso, hq, hc, Bool.not_eq_true _ ▸ hx⟩
      · exact absurd ho h4
    exact ⟨fun _ => hw, fun hno => absurd hw hno⟩

/-! ## Validated inputs -/

/-- The name is not that of a consumption. -/
def Plain (csp : String) : Prop := ∀ x, csp ≠ conso x

/-- The inputs of the operations, as a form with checks would send them: names of CSPs that are not names
of consumptions, quotas that are numbers, and reports of traffic. -/
def Validated (s : Server) : SeqEvent → Prop
  | .op (.registerCSP formDatas) =>
    Plain (text formDatas.servicename) ∧ toNumber (dataQuota formDatas.qdata) ≠ .nan
  | .op (.updateCSPQuotas cspkey _ _ dataQuota) =>
    (∀ csp, text cspkey = provKey csp → Plain csp) ∧ toNumber (text dataQuota) ≠ .nan
  | .op (.addCSPConso t) => (Op.addCSPConso t).Reported ∧
    ∀ u c, t = some u → chargedCSP s.now (s.dbs 2) u.user = some c → Plain c
  | .op _ => True
  | .env a => Foreign a

/-- The quotas are numbers, the consumptions are counted, and no consumption has one of its own. -/
structure NumericStore (v : View) : Prop where
  quota : ∀ csp f t, Plain csp → v csp f = some t → numberOf (v csp "dataQuota") ≠ .nan
  data : ∀ csp f t, v (conso csp) f = some t → ∃ d, v (conso csp) "data" = some d
  nested : ∀ csp f, v (conso (conso csp)) f = none

theorem ofRat_ne_nan (q : Rat) : Number.ofRat q ≠ .nan := by
  unfold Number.ofRat
  split
  · nofun
  · split <;> nofun

section Store

variable {v v' : View} {md5 : String → String} {s s' : Server} {e : SeqEvent}

theorem numeric_register {formDatas : FormDatas} (hplain : Plain (text formDatas.servicename))
    (hquota : toNumber (dataQuota formDatas.qdata) ≠ .nan)
    (hv : ∀ csp f, v' csp f = (v csp f).or (registered formDatas csp f)) (h : NumericStore v) :
    NumericStore v' := by
  have hother : ∀ csp f, csp ≠ text formDatas.servicename →
      csp ≠ conso (text formDatas.servicename) → v' csp f = v csp f := by
    intro csp f h1 h2
    simp [hv, registered, h1, h2]
  refine ⟨fun csp f t hp ht => ?_, fun csp f t ht => ?_, fun csp f => ?_⟩
  · by_cases hc : csp = text formDatas.servicename
    · rw [hv]
      cases hold : v csp "dataQuota" with
      | some q =>
        have hq := h.quota csp _ q hp hold
        rwa [hold] at hq
      | none => simpa [registered, hc, numberOf] using hquota
    · have hsame : ∀ f, v' csp f = v csp f := fun f => hother csp f hc (hp _)
      rw [hsame] at ht ⊢
      exact h.quota csp f t hp ht
  · by_cases hc : conso csp = conso (text formDatas.servicename)
    · rw [hv]
      cases hold : v (conso csp) "data" with
      | some d => exact ⟨d, rfl⟩
      | none =>
        refine ⟨"0", ?_⟩
        rw [Option.none_or, registered_meter _ _ (by simp [meterNames]), if_pos hc]
    · have hsame : ∀ f, v' (conso csp) f = v (conso csp) f := fun f =>
        hother _ f (hplain csp).symm hc
      rw [hsame] at ht ⊢
      exact h.data csp f t ht
  · rw [hother _ f (hplain _).symm fun hc => hplain _ (conso_inj.mp hc).symm]
    exact h.nested csp f

theorem numeric_update {k d : Option String} (hplain : ∀ csp, text k = provKey csp → Plain csp)
    (hd : toNumber (text d) ≠ .nan) (hself : ∀ csp, text k = provKey csp →
      v' csp "dataQuota" = some (text d))
    (hother : ∀ csp f, text k ≠ provKey csp → v' csp f = v csp f) (h : NumericStore v) :
    NumericStore v' := by
  have hconso : ∀ csp, text k ≠ provKey (conso csp) := fun csp hk => hplain _ hk csp rfl
  refine ⟨fun csp f t hp ht => ?_, fun csp f t ht => ?_, fun csp f => ?_⟩
  · by_cases hk : text k = provKey csp
    · rw [hself csp hk]
      exact hd
    · rw [hother csp _ hk] at ht ⊢
      exact h.quota csp f t hp ht
  · rw [hother _ _ (hconso _)] at ht ⊢
    exact h.data csp f t ht
  · rw [hother _ _ (hconso _)]
    exact h.nested csp f

theorem numeric_delete {k : String} (hv : ∀ csp f, v' csp f =
      if provKey csp = k ∨ provKey csp = consoKey k then none else v csp f) (h : NumericStore v) :
    NumericStore v' := by
  refine ⟨fun csp f t hp ht => ?_, fun csp f t ht => ?_, fun csp f => ?_⟩
  · rcases deleted_all_or_none hv csp with hnone | hsame
    · rw [hnone] at ht
      cases ht
    · rw [hsame] at ht ⊢
      exact h.quota csp f t hp ht
  · rcases deleted_all_or_none hv (conso csp) with hnone | hsame
    · rw [hnone] at ht
      cases ht
    · rw [hsame] at ht ⊢
      exact h.data csp f t ht
  · rw [hv, h.nested, ite_self]

theorem numeric_charge {c : String} {t : TrafficRecord} (hplain : Plain c)
    (hv : ∀ csp f, v' csp f = if csp = conso c ∧ f = "data" then
        match incremented (v (conso c) "data") t.sent_bytes with
        | some v => some (toString v)
        | none => v (conso c) "data"
      else v csp f) (h : NumericStore v) : NumericStore v' := by
  have hother : ∀ csp f, csp ≠ conso c → v' csp f = v csp f := by
    intro csp f hc
    rw [hv, if_neg fun hh => hc hh.1]
  refine ⟨fun csp f t hp ht => ?_, fun csp f t ht => ?_, fun csp f => ?_⟩
  · rw [hother csp _ (hp c)] at ht ⊢
    exact h.quota csp f t hp ht
  · by_cases hc : conso csp = conso c
    · by_cases hf : f = "data"
      · subst hf
        exact ⟨t, ht⟩
      · rw [hv, if_neg fun hh => hf hh.2] at ht
        obtain ⟨d, hd⟩ := h.data csp f t ht
        rw [hv, if_pos ⟨hc, rfl⟩]
        split
        · exact ⟨_, rfl⟩
        · exact ⟨d, by rw [← hc, hd]⟩
    · rw [hother _ _ hc] at ht ⊢
      exact h.data csp f t ht
  · rw [hother _ _ fun hc => hplain _ (conso_inj.mp hc).symm]
    exact h.nested csp f

/-- **One step** with validated inputs. -/
theorem numeric_step (h : Seq md5 s e s') (he : Validated s e) (hs : ProvOk (s.dbs 2))
    (hn : NumericStore (view s.now (s.dbs 2))) : NumericStore (view s'.now (s'.dbs 2)) := by
  have hforeign : ∀ a, e = .env a → Foreign a := by
    rintro a rfl
    exact he
  obtain hv | ⟨formDatas, rfl, hv⟩ | ⟨k, a, v, d, rfl, -⟩ | ⟨k, rfl, hv⟩ | ⟨t, c, rfl, hc, hv⟩ :=
    view_cases h hforeign hs
  · rwa [hv]
  · exact numeric_register he.1 he.2 hv hn
  · rw [view_of_seq h rfl]
    refine numeric_update he.1 he.2 (fun csp hk => ?_) (fun csp f hk => ?_) hn
    · show field s.now (execDb s.now (.hmset (text k) (quotaFields a v d)) (s.dbs 2)).1 _ _ = _
      rw [hk]
      exact field_hmset_last [("audioQuota", text a), ("videoQuota", text v)]
        (isHash_provKey hs _ csp) _
    · exact field_congr (find_congr (execDb_frame (by simpa [Cmd.writes] using Ne.symm hk)))
  · exact numeric_delete hv hn
  · exact numeric_charge (he.2 t c rfl hc) hv hn

theorem reported_of_validated {op : Op} (h : Validated s (.op op)) : op.Reported := by
  cases op with
  | addCSPConso t => exact h.1
  | _ => trivial

/-- **Every sequence** of operations with validated inputs, from an empty database. -/
theorem numeric_run {seq : List SeqEvent} (h : Steps (Seq md5) Validated s seq s') (hs : Empty2 s) :
    Sound s' ∧ NumericStore (view s'.now (s'.dbs 2)) := by
  have hempty : ∀ csp f, view s.now (s.dbs 2) csp f = none := by
    intro csp f
    rw [hs]
    rfl
  refine h.inv (I := fun τ => Sound τ ∧ NumericStore (view τ.now (τ.dbs 2)))
    (fun τ e τ' hi he hst => ?_) ⟨sound_empty hs, ?_⟩
  · refine ⟨?_, numeric_step hst he hi.1.prov hi.2⟩
    cases e with
    | op o => exact sound_op hst (reported_of_validated he) hi.1
    | env a =>
      obtain rfl : τ' = a.act τ := hst
      exact sound_foreign he hi.1
  · exact ⟨fun csp f t _ ht => by simp [hempty] at ht, fun csp f t ht => by simp [hempty] at ht,
      fun csp f => hempty _ f⟩

/-- A hash that is there has a field. -/
theorem exists_field {now : Nat} {db : Db} {key : String} (h : HasHash now db key) :
    ∃ f t, field now db key f = some t := by
  obtain ⟨fields, hread⟩ := h
  obtain ⟨rfl, hne⟩ := readHash_eq_some.mp hread
  by_contra hno
  simp only [not_exists] at hno
  refine hne (Finmap.ext_lookup fun f => ?_)
  rw [Finmap.lookup_empty]
  exact Option.eq_none_iff_forall_ne_some.mpr (hno f)

/-- In such a store, the values of every CSP with two hashes are numbers. -/
theorem numbers_of_store {csp : String} (hsound : Sound s)
    (hn : NumericStore (view s.now (s.dbs 2))) (hprov : HasHash s.now (s.dbs 2) (provKey csp))
    (hconso : HasHash s.now (s.dbs 2) (consoKey (provKey csp))) :
    quotaNumber s.now (s.dbs 2) csp ≠ .nan ∧ consoNumber s.now (s.dbs 2) csp ≠ .nan := by
  obtain ⟨f, t, hf⟩ := exists_field hprov
  obtain ⟨f', t', hf'⟩ := exists_field hconso
  rw [consoKey_prov] at hf'
  have hplain : Plain csp := by
    rintro x rfl
    have hnone := hn.nested x f'
    rw [view, hf'] at hnone
    cases hnone
  refine ⟨hn.quota csp f t hplain hf, ?_⟩
  obtain ⟨d, hd⟩ := hn.data csp f' t' hf'
  obtain ⟨n, -, rfl⟩ := hsound.counters _ d hd
  unfold consoNumber
  rw [consoKey_prov, show field s.now (s.dbs 2) (provKey (conso csp)) "data" = _ from hd]
  show toNumber (toString n) ≠ .nan
  rw [toNumber_repr]
  exact ofRat_ne_nan _

end Store

/-- **When the gate is right**: in every state, exactly if a hash is missing, quota and consumption are
numbers, or there is no TURN server to offer; and so in every state that operations with validated inputs
lead to from an empty database. -/
theorem gateOk_iff (md5 : String → String) :
    (∀ s csp, GateOk md5 s csp ↔
      (¬ HasHash s.now (s.dbs 2) (provKey csp) ∨
        ¬ HasHash s.now (s.dbs 2) (consoKey (provKey csp))) ∨
      (quotaNumber s.now (s.dbs 2) csp ≠ .nan ∧ consoNumber s.now (s.dbs 2) csp ≠ .nan) ∨
      ¬ Offers s.now (s.dbs 2)) ∧
    ∀ s seq s', Empty2 s → Steps (Seq md5) Validated s seq s' → ∀ csp, GateOk md5 s' csp := by
  refine ⟨fun s csp => ⟨fun hgate => ?_, gateOk_of⟩, fun s seq s' hs hrun csp => gateOk_of ?_⟩
  · by_contra hno
    simp only [not_or, not_and_or, not_not] at hno
    exact not_gateOk hno.1.1 hno.1.2 hno.2.1 hno.2.2 hgate
  · obtain ⟨hsound, hn⟩ := numeric_run hrun hs
    by_cases hprov : HasHash s'.now (s'.dbs 2) (provKey csp)
    · by_cases hconso : HasHash s'.now (s'.dbs 2) (consoKey (provKey csp))
      · exact .inr (.inl (numbers_of_store hsound hn hprov hconso))
      · exact .inl (.inr hconso)
    · exact .inl (.inl hprov)

/-- The form of a CSP with a data quota. -/
def quotaForm (csp qdata : String) : FormDatas :=
  { servicename := some csp, audio := none, video := none, qdata := some qdata }

/-- A TURN server is there. -/
def turnServer : Env :=
  .client 2 (.set "turnservers:192.0.2.1:3478" "cpu=1.00%, phys_mem=2.00%, swap_mem=0.00%")

/-- A server where one TURN server is registered. -/
def oneTurn : Server := turnServer.act blank

/-- Next to it, a CSP with a quota of one gigabyte, of which it has used nothing. -/
theorem within_oneTurn : HasHash 0 (((Op.registerCSP (quotaForm "c" "1")).after id oneTurn).dbs 2) (provKey "c") ∧
    HasHash 0 (((Op.registerCSP (quotaForm "c" "1")).after id oneTurn).dbs 2) (consoKey (provKey "c")) ∧
    ¬ Exceeded 0 (((Op.registerCSP (quotaForm "c" "1")).after id oneTurn).dbs 2) "c" ∧
    Offers 0 (((Op.registerCSP (quotaForm "c" "1")).after id oneTurn).dbs 2) := by
  refine ⟨?_, ?_, ?_, offers_iff.mpr ?_⟩
  · exact ⟨_, readHash_of_field (f := "dataQuota") (v := "1073741824") (by decide +kernel)⟩
  · exact ⟨_, readHash_of_field (f := "data") (v := "0") (by decide +kernel)⟩
  · unfold Exceeded
    decide +kernel
  · decide +kernel

/-- Its requests are admitted, within the quota. -/
theorem gate_right_one : ∃ s, Steps (Seq id) Validated blank
    [.env turnServer, .op (.registerCSP (quotaForm "c" "1"))] s ∧ GateOk id s "c" ∧
    ∃ s' l, (dao id).Completes (.getAppropriateTurn "c" "u" "" 0) s s' l ∧
      (∃ v, l.outcome = some (.resolved v)) ∧ Within s.now (s.dbs 2) "c" := by
  have hplain : Plain "c" := by
    intro x hx
    have hl : "c".length = x.length + ":conso".length := by
      simpa [conso] using congrArg String.length hx
    have hc : "c".length < ":conso".length := by decide
    omega
  have hforeign : Foreign turnServer := by
    intro _ k hk
    exact ⟨"192.0.2.1:3478", by simpa [Cmd.writes] using hk⟩
  let s := (Op.registerCSP (quotaForm "c" "1")).after id oneTurn
  have hrun : Steps (Seq id) Validated blank
      [.env turnServer, .op (.registerCSP (quotaForm "c" "1"))] s :=
    .cons hforeign rfl (.one ⟨hplain, by decide +kernel⟩ (seq_after id _ _))
  have hgate : GateOk id s "c" := (gateOk_iff id).2 blank _ _ rfl hrun "c"
  refine ⟨s, hrun, hgate, ?_⟩
  obtain ⟨hprov, hconso, hx, ho⟩ := within_oneTurn
  obtain ⟨s', l, h⟩ := Client.exists_completes (dao id) (.getAppropriateTurn "c" "u" "" 0) s
  obtain ⟨-, hno⟩ | ⟨hl, -⟩ := answer_cases h
  · rcases hno with hno | hno | hno | hno
    · exact absurd hprov hno
    · exact absurd hconso hno
    · exact absurd hno hx
    · exact absurd ho hno
  · obtain ⟨turnUrl, hl⟩ := hl
    exact ⟨s', l, h, ⟨_, hl⟩, (hgate _ _ _ _ _ h).1 ⟨_, hl⟩⟩

/-- A CSP that is registered with a name only is admitted, with the quota `NaN`. -/
theorem gate_open : ∃ s l, (dao id).Completes (.registerCSP (nameOnly "c")) oneTurn s l ∧
    ¬ GateOk id s "c" := by
  obtain ⟨s, l, h⟩ := Client.exists_completes (dao id) (.registerCSP (nameOnly "c")) oneTurn
  refine ⟨s, l, h, ?_⟩
  obtain rfl := server_of_completes h
  refine not_gateOk ?_ ?_ (.inl ?_) (offers_iff.mpr ?_)
  · exact ⟨_, readHash_of_field (f := "dataQuota") (v := "NaN") (by decide +kernel)⟩
  · exact ⟨_, readHash_of_field (f := "data") (v := "0") (by decide +kernel)⟩
  · decide +kernel
  · decide +kernel

end Broker
end QosSupport
