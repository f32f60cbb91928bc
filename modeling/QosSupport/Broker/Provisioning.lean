import QosSupport.Broker.Store

/-!
# Provisioned CSPs have a consumption record

* `Paired`: a CSP has all fields of its provisioning exactly if it has all fields of its consumption.
* `ZeroStart`: a CSP that is registered when it is not provisioned starts with zero consumption.
* `Orderly`: the condition on a step. Traffic that counts is charged to provisioned CSPs only, and no
  deletion takes one of the two hashes of another CSP away.
* `paired_of_orderly`: in every sequence of operations that are all `Orderly`, started on an empty
  database, both hold in every state. `late_traffic_counts` is a sequence in which they do not.

The invariant (`Kept`) is one of the abstract store: the fields `conso` and `audio`, which only a
registration writes, stand for all fields of the two hashes.
-/

namespace QosSupport
namespace Broker

open Redis EventLoop Run

/-- The CSP has all fields of its provisioning. -/
def Provisioned (v : View) (csp : String) : Prop :=
  ∀ f ∈ quotaNames ++ ["conso"], (v csp f).isSome = true

/-- The CSP has all fields of its consumption. -/
def Metered (v : View) (csp : String) : Prop := ∀ f ∈ meterNames, (v (conso csp) f).isSome = true

/-- The two hashes of each CSP go together. -/
def Paired (v : View) : Prop := ∀ csp, Provisioned v csp ↔ Metered v csp

/-- A CSP that is registered when it is not provisioned starts with zero consumption. -/
def ZeroStart (md5 : String → String) (s : Server) : Prop :=
  ∀ formDatas s', ¬ Provisioned (view s.now (s.dbs 2)) (text formDatas.servicename) →
    Seq md5 s (.op (.registerCSP formDatas)) s' → ∀ f ∈ meterNames,
      view s'.now (s'.dbs 2) (conso (text formDatas.servicename)) f = some "0"

/-- The condition on a step (module doc). -/
def Orderly (s : Server) : SeqEvent → Prop
  | .op (.addCSPConso (some t)) => ∀ csp, chargedCSP s.now (s.dbs 2) t.user = some csp →
      Provisioned (view s.now (s.dbs 2)) csp ∨
      incremented (view s.now (s.dbs 2) (conso csp) "data") t.sent_bytes = none ∨
      getLongLong t.sent_bytes = some 0
  | .op (.deleteCSP k) =>
      (∀ csp, consoKey k = provKey csp → ¬ Provisioned (view s.now (s.dbs 2)) csp) ∧
      (∀ csp, k = provKey (conso csp) → ¬ Metered (view s.now (s.dbs 2)) csp)
  | .op _ => True
  | .env a => Foreign a

/-! ## The invariant -/

/-- The invariant (module doc). -/
structure Kept (v : View) : Prop where
  quotas : ∀ csp, (v csp "conso").isSome = true → ∀ f ∈ quotaNames, (v csp f).isSome = true
  video : ∀ csp, (v csp "audio").isSome = (v csp "video").isSome
  data : ∀ csp, (v csp "audio").isSome = true → (v csp "data").isSome = true
  zero : ∀ csp, ∀ f ∈ ["audio", "video"], ∀ x, v csp f = some x → x = "0"
  pair : ∀ csp, (v csp "conso").isSome = (v (conso csp) "audio").isSome
  fresh : ∀ csp, (v csp "conso").isSome = false → ∀ x, v (conso csp) "data" = some x → x = "0"

section Kept

variable {v v' : View}

theorem provisioned_iff (h : Kept v) {csp : String} :
    Provisioned v csp ↔ (v csp "conso").isSome = true := by
  constructor
  · exact fun hp => hp "conso" (by decide)
  · intro hc f hf
    rcases List.mem_append.mp hf with hf | hf
    · exact h.quotas csp hc f hf
    · rw [List.mem_singleton.mp hf]
      exact hc

theorem metered_iff (h : Kept v) {csp : String} :
    Metered v csp ↔ (v (conso csp) "audio").isSome = true := by
  constructor
  · exact fun hm => hm "audio" (by decide)
  · intro ha f hf
    simp only [meterNames, List.mem_cons, List.not_mem_nil, or_false] at hf
    rcases hf with rfl | rfl | rfl
    · exact ha
    · rw [← h.video]
      exact ha
    · exact h.data _ ha

theorem paired_of_kept (h : Kept v) : Paired v := fun csp => by
  rw [provisioned_iff h, metered_iff h, h.pair]

theorem kept_empty : Kept fun _ _ => none :=
  ⟨by simp, by simp, by simp, by simp, by simp, by simp⟩

/-! ## Registration -/

theorem kept_register {formDatas : FormDatas}
    (hv : ∀ csp f, v' csp f = (v csp f).or (registered formDatas csp f)) (h : Kept v) : Kept v' := by
  have haudio : ∀ csp, (v' csp "audio").isSome =
      ((v csp "audio").isSome || decide (csp = conso (text formDatas.servicename))) := fun csp => by
    rw [hv, registered_meter _ _ (by decide)]
    by_cases hc : csp = conso (text formDatas.servicename) <;> simp [hc]
  refine ⟨fun csp hc f hf => ?_, fun csp => ?_, fun csp ha => ?_, fun csp f hf x hx => ?_,
    fun csp => ?_, fun csp hc x hx => ?_⟩
  · rw [hv, Option.isSome_or, registered_conso] at hc
    rw [hv, Option.isSome_or, registered_quota _ _ hf]
    simp only [Bool.or_eq_true] at hc ⊢
    exact hc.imp (fun hc => h.quotas csp hc f hf) id
  · rw [haudio, hv, Option.isSome_or, registered_meter _ _ (by decide), h.video]
    by_cases hc : csp = conso (text formDatas.servicename) <;> simp [hc]
  · rw [haudio, Bool.or_eq_true, decide_eq_true_eq] at ha
    rw [hv, Option.isSome_or, registered_meter _ _ (by decide), Bool.or_eq_true]
    exact ha.imp (h.data csp) fun hc => by simp [hc]
  · have hm : f ∈ meterNames := by
      simp only [List.mem_cons, List.not_mem_nil, or_false] at hf
      rcases hf with rfl | rfl <;> decide
    rw [hv, registered_meter _ _ hm, Option.or_eq_some_iff] at hx
    rcases hx with hx | ⟨-, hx⟩
    · exact h.zero csp f hf x hx
    · split at hx
      · cases hx
        rfl
      · cases hx
  · rw [haudio, hv, Option.isSome_or, registered_conso, h.pair]
    simp only [conso_inj]
  · rw [hv, Option.isSome_or, registered_conso, Bool.or_eq_false_iff, decide_eq_false_iff_not] at hc
    rw [hv, registered_meter _ _ (by decide), if_neg (fun hcc => hc.2 (conso_inj.mp hcc)),
      Option.or_none] at hx
    exact h.fresh csp hc.1 x hx

/-! ## The other operations -/

theorem kept_update (hsame : ∀ csp f, f ∉ quotaNames → v' csp f = v csp f)
    (hmono : ∀ csp f, (v csp f).isSome = true → (v' csp f).isSome = true) (h : Kept v) : Kept v' := by
  have hconso : ∀ csp, v' csp "conso" = v csp "conso" := fun csp => hsame csp _ (by decide)
  have hmeter : ∀ csp, ∀ f ∈ meterNames, v' csp f = v csp f := fun csp f hf => hsame csp f (by
    simp only [meterNames, List.mem_cons, List.not_mem_nil, or_false] at hf
    rcases hf with rfl | rfl | rfl <;> decide)
  have haudio := fun csp => hmeter csp "audio" (by decide)
  have hvideo := fun csp => hmeter csp "video" (by decide)
  have hdata := fun csp => hmeter csp "data" (by decide)
  refine ⟨fun csp hc f hf => ?_, fun csp => ?_, fun csp ha => ?_, fun csp f hf x hx => ?_,
    fun csp => ?_, fun csp hc x hx => ?_⟩
  · rw [hconso] at hc
    exact hmono csp f (h.quotas csp hc f hf)
  · rw [haudio, hvideo, h.video]
  · rw [haudio] at ha
    rw [hdata]
    exact h.data csp ha
  · rw [hmeter csp f (by
      simp only [List.mem_cons, List.not_mem_nil, or_false] at hf
      rcases hf with rfl | rfl <;> decide)] at hx
    exact h.zero csp f hf x hx
  · rw [hconso, haudio, h.pair]
  · rw [hconso] at hc
    rw [hdata] at hx
    exact h.fresh csp hc x hx

/-- A charge changes one `data` field only, and keeps it where it counts. -/
theorem kept_charge {c : String} (hsame : ∀ csp f, ¬ (csp = conso c ∧ f = "data") → v' csp f = v csp f)
    (hsome : (v (conso c) "data").isSome = true → (v' (conso c) "data").isSome = true)
    (hzero : (v c "conso").isSome = false → ∀ x, v' (conso c) "data" = some x → x = "0")
    (h : Kept v) : Kept v' := by
  have hother : ∀ csp f, f ≠ "data" → v' csp f = v csp f := fun csp f hf =>
    hsame csp f fun hh => hf hh.2
  have haudio := fun csp => hother csp "audio" (by decide)
  have hconso := fun csp => hother csp "conso" (by decide)
  refine ⟨fun csp hc f hf => ?_, fun csp => ?_, fun csp ha => ?_, fun csp f hf x hx => ?_,
    fun csp => ?_, fun csp hc x hx => ?_⟩
  · rw [hconso] at hc
    rw [hother csp f (by rintro rfl; exact absurd hf (by decide))]
    exact h.quotas csp hc f hf
  · rw [haudio, hother csp "video" (by decide), h.video]
  · rw [haudio] at ha
    have hd := h.data csp ha
    by_cases hcsp : csp = conso c
    · subst hcsp
      exact hsome hd
    · rw [hsame csp _ fun hh => hcsp hh.1]
      exact hd
  · rw [hother csp f (by rintro rfl; exact absurd hf (by decide))] at hx
    exact h.zero csp f hf x hx
  · rw [hconso, haudio, h.pair]
  · rw [hconso] at hc
    by_cases hcsp : csp = c
    · subst hcsp
      exact hzero hc x hx
    · rw [hsame _ _ fun hh => hcsp (conso_inj.mp hh.1)] at hx
      exact h.fresh csp hc x hx

/-- What a deletion does to the two hashes of a CSP, if it takes away neither hash of another provisioned
one. -/
theorem pair_delete {k : String}
    (hv : ∀ csp f, v' csp f = if provKey csp = k ∨ provKey csp = consoKey k then none else v csp f)
    (h1 : ∀ csp, consoKey k = provKey csp → ¬ Provisioned v csp)
    (h2 : ∀ csp, k = provKey (conso csp) → ¬ Metered v csp) (h : Kept v) (csp : String) :
    (v' csp "conso").isSome = (v' (conso csp) "audio").isSome ∧
      ((v' csp "conso").isSome = false → v' (conso csp) "data" = none ∨
        ((v csp "conso").isSome = false ∧ v' (conso csp) "data" = v (conso csp) "data")) := by
  have hconso : provKey (conso csp) = consoKey k ↔ provKey csp = k := by
    rw [← consoKey_prov, consoKey_inj]
  by_cases hk : provKey csp = k
  · -- The CSP itself is deleted.
    have hgone : ∀ f, v' (conso csp) f = none := fun f => by
      rw [hv, if_pos (.inr (hconso.mpr hk))]
    exact ⟨by rw [hv, if_pos (.inl hk), hgone], fun _ => .inl (hgone _)⟩
  · by_cases hk' : provKey (conso csp) = k
    · -- Its consumption is deleted as a CSP: it was not metered.
      have hgone : ∀ f, v' (conso csp) f = none := fun f => by rw [hv, if_pos (.inl hk')]
      have hno := h2 csp hk'.symm
      rw [metered_iff h, Bool.not_eq_true, ← h.pair] at hno
      refine ⟨?_, fun _ => .inl (hgone _)⟩
      rw [hgone, hv]
      split
      · rfl
      · exact hno
    · have hsame : ∀ f, v' (conso csp) f = v (conso csp) f := fun f => by
        rw [hv, if_neg (not_or.mpr ⟨hk', fun hh => hk (hconso.mp hh)⟩)]
      by_cases hc : provKey csp = consoKey k
      · -- Its provisioning is deleted as a consumption: it was not provisioned.
        have hno := h1 csp hc.symm
        rw [provisioned_iff h, Bool.not_eq_true] at hno
        refine ⟨?_, fun _ => .inr ⟨hno, hsame _⟩⟩
        rw [hsame, ← h.pair, hno, hv, if_pos (.inr hc)]
        rfl
      · have hsame' : ∀ f, v' csp f = v csp f := fun f => by rw [hv, if_neg (not_or.mpr ⟨hk, hc⟩)]
        exact ⟨by rw [hsame, hsame', h.pair], fun hn => .inr ⟨by rw [← hsame']; exact hn, hsame _⟩⟩

/-- So it keeps the invariant. -/
theorem kept_delete {k : String}
    (hv : ∀ csp f, v' csp f = if provKey csp = k ∨ provKey csp = consoKey k then none else v csp f)
    (h1 : ∀ csp, consoKey k = provKey csp → ¬ Provisioned v csp)
    (h2 : ∀ csp, k = provKey (conso csp) → ¬ Metered v csp) (h : Kept v) : Kept v' := by
  have hall := deleted_all_or_none hv
  have hpair := pair_delete hv h1 h2 h
  refine ⟨fun csp hc f hf => ?_, fun csp => ?_, fun csp ha => ?_, fun csp f hf x hx => ?_,
    fun csp => (hpair csp).1, fun csp hc x hx => ?_⟩
  · rcases hall csp with hn | hs
    · rw [hn] at hc
      cases hc
    · rw [hs] at hc ⊢
      exact h.quotas csp hc f hf
  · rcases hall csp with hn | hs
    · rw [hn, hn]
    · rw [hs, hs, h.video]
  · rcases hall csp with hn | hs
    · rw [hn] at ha
      cases ha
    · rw [hs] at ha ⊢
      exact h.data csp ha
  · rcases hall csp with hn | hs
    · rw [hn] at hx
      cases hx
    · rw [hs] at hx
      exact h.zero csp f hf x hx
  · rcases (hpair csp).2 hc with hn | ⟨hc', hs⟩
    · rw [hn] at hx
      cases hx
    · rw [hs] at hx
      exact h.fresh csp hc' x hx

end Kept

/-! ## Sequences -/

/-- **One step** that is `Orderly` keeps the invariant. -/
theorem kept_step {md5 : String → String} {s s' : Server} {e : SeqEvent} (h : Seq md5 s e s')
    (he : Orderly s e) (hs : ProvOk (s.dbs 2)) (hk : Kept (view s.now (s.dbs 2))) :
    Kept (view s'.now (s'.dbs 2)) := by
  obtain hv | ⟨formDatas, rfl, hv⟩ | ⟨k, a, v, d, rfl, hv⟩ | ⟨k, rfl, hv⟩ | ⟨t, c, rfl, hc, hv⟩ :=
    view_cases h (fun a ha => by subst ha; exact he) hs
  · rw [hv]
    exact hk
  · exact kept_register hv hk
  · exact kept_update (fun csp f => (hv csp f).1) (fun csp f => (hv csp f).2) hk
  · exact kept_delete hv he.1 he.2 hk
  · refine kept_charge (c := c) (fun csp f hh => by rw [hv, if_neg hh]) ?_ ?_ hk
    · intro hd
      rw [hv, if_pos ⟨rfl, rfl⟩]
      split
      · rfl
      · exact hd
    · intro hno x hx
      rw [hv, if_pos ⟨rfl, rfl⟩] at hx
      have hfresh := hk.fresh c hno
      rcases he c hc with hp | hr | h0
      · rw [(provisioned_iff hk).mp hp] at hno
        cases hno
      · rw [hr] at hx
        exact hfresh x hx
      · -- Adding zero to nothing or to zero.
        cases hold : view s.now (s.dbs 2) (conso c) "data" with
        | none =>
          simp only [incremented, h0, hold, Option.bind_some, Option.some.injEq] at hx
          exact hx.symm
        | some y =>
          obtain rfl := hfresh y hold
          rw [hold, incremented, h0] at hx
          exact (Option.some.inj hx).symm

/-- A CSP that is not provisioned has no consumption that a registration would take over. -/
theorem zeroStart_of_kept {md5 : String → String} {s : Server} (hs : ProvOk (s.dbs 2))
    (hk : Kept (view s.now (s.dbs 2))) : ZeroStart md5 s := by
  intro formDatas s' hno hreg f hf
  rw [view_of_seq hreg rfl, view_register hs, registered_meter _ _ hf, if_pos rfl]
  rw [provisioned_iff hk, Bool.not_eq_true] at hno
  cases hold : view s.now (s.dbs 2) (conso (text formDatas.servicename)) f with
  | none => rfl
  | some x =>
    rw [Option.some_or]
    simp only [meterNames, List.mem_cons, List.not_mem_nil, or_false] at hf
    rcases hf with rfl | rfl | rfl
    · rw [hk.zero _ _ (by decide) x hold]
    · rw [hk.zero _ _ (by decide) x hold]
    · rw [hk.fresh _ hno x hold]

/-- **The two hashes of every CSP go together** in every state of every sequence of operations that
are all `Orderly`, started on an empty database; and every registration of a CSP that is not
provisioned starts with zero consumption. -/
theorem paired_of_orderly (md5 : String → String) (s s' : Server) (evs : List SeqEvent)
    (hs : Empty2 s) (hrun : Steps (Seq md5) Orderly s evs s') :
    Paired (view s'.now (s'.dbs 2)) ∧ ZeroStart md5 s' := by
  have h0 : Kept (view s.now (s.dbs 2)) := by
    rw [hs]
    exact kept_empty
  obtain ⟨hprov, hk⟩ := hrun.inv
    (I := fun τ => ProvOk (τ.dbs 2) ∧ Kept (view τ.now (τ.dbs 2)))
    (fun τ e τ' hτ he hst => by
      refine ⟨provOk_step hst (fun a ha => ?_) hτ.1, kept_step hst he hτ.1 hτ.2⟩
      subst ha
      exact he) ⟨provOk_empty hs, h0⟩
  exact ⟨paired_of_kept hk, zeroStart_of_kept hprov hk⟩

instance (v : View) (csp : String) : Decidable (Provisioned v csp) :=
  inferInstanceAs (Decidable (∀ f ∈ quotaNames ++ ["conso"], (v csp f).isSome = true))

instance (v : View) (csp : String) : Decidable (Metered v csp) :=
  inferInstanceAs (Decidable (∀ f ∈ meterNames, (v (conso csp) f).isSome = true))

/-- A CSP is registered, used by one user, and deleted. -/
theorem paired_lifecycle : ∃ s', Steps (Seq id) Orderly blank
    [.op (.registerCSP (nameOnly "c")), .op (.registerUser "c" "u"),
     .op (.addCSPConso (some ⟨"u", "7"⟩)), .op (.deleteCSP "prov:c")] s' ∧
    Paired (view s'.now (s'.dbs 2)) ∧ ZeroStart id s' := by
  let s₂ := afterAll [.registerCSP (nameOnly "c"), .registerUser "c" "u"]
  let s₃ := afterAll [.registerCSP (nameOnly "c"), .registerUser "c" "u",
    .addCSPConso (some ⟨"u", "7"⟩)]
  have hcharge : Orderly s₂ (.op (.addCSPConso (some ⟨"u", "7"⟩))) := by
    intro csp hc
    have h : chargedCSP s₂.now (s₂.dbs 2) "u" = some "c" := by decide +kernel
    obtain rfl : "c" = csp := Option.some.inj (h.symm.trans hc)
    exact .inl (by decide +kernel)
  have hdelete : Orderly s₃ (.op (.deleteCSP "prov:c")) := by
    refine ⟨fun csp hc => ?_, fun csp hc => ?_⟩
    · obtain rfl : "c:conso" = csp := provKey_inj.mp hc
      decide +kernel
    · have hk : provKey "c" = provKey (conso csp) := hc
      have hl := congrArg (fun x : String => x.toList.length) (provKey_inj.mp hk)
      simp [conso] at hl
  have hrun : Steps (Seq id) Orderly blank
      [.op (.registerCSP (nameOnly "c")), .op (.registerUser "c" "u"),
       .op (.addCSPConso (some ⟨"u", "7"⟩)), .op (.deleteCSP "prov:c")]
      ((Op.deleteCSP "prov:c").after id s₃) :=
    .cons trivial (seq_after id _ _) (.cons trivial (seq_after id _ _)
      (.cons hcharge (seq_after id _ _) (.one hdelete (seq_after id _ _))))
  exact ⟨_, hrun, paired_of_orderly id blank _ _ rfl hrun⟩

/-- Deleting `a` takes the provisioning of `a:conso` away, which stays metered; and late traffic of a
user of `a` is the first consumption of `a` when it is registered again. -/
theorem late_traffic_counts : ∃ s', Steps (Seq id) Any blank
    [.op (.registerCSP (nameOnly "a")), .op (.registerCSP (nameOnly "a:conso")),
     .op (.registerUser "a" "u"), .op (.deleteCSP "prov:a"),
     .op (.addCSPConso (some ⟨"u", "7"⟩))] s' ∧
    ¬ Paired (view s'.now (s'.dbs 2)) ∧ ¬ ZeroStart id s' := by
  let s₅ := afterAll [.registerCSP (nameOnly "a"), .registerCSP (nameOnly "a:conso"),
    .registerUser "a" "u", .deleteCSP "prov:a", .addCSPConso (some ⟨"u", "7"⟩)]
  refine ⟨s₅, .cons trivial (seq_after id _ _) (.cons trivial (seq_after id _ _)
    (.cons trivial (seq_after id _ _) (.cons trivial (seq_after id _ _)
      (.one trivial (seq_after id _ _))))), fun h => ?_, fun h => ?_⟩
  · have hm : Metered (view s₅.now (s₅.dbs 2)) "a:conso" := by decide +kernel
    have hp : ¬ Provisioned (view s₅.now (s₅.dbs 2)) "a:conso" := by decide +kernel
    exact hp ((h "a:conso").mpr hm)
  · have hp : ¬ Provisioned (view s₅.now (s₅.dbs 2)) "a" := by decide +kernel
    have h7 : view ((Op.registerCSP (nameOnly "a")).after id s₅).now
        (((Op.registerCSP (nameOnly "a")).after id s₅).dbs 2) (conso "a") "data" = some "7" := by
      decide +kernel
    have h0 := h (nameOnly "a") _ hp (seq_after id _ _) "data" (by decide)
    exact absurd (h7.symm.trans h0) (by decide)

end Broker
end QosSupport
