import QosSupport.Broker.Effects

/-!
# The keys of the CSPs

Keys are built by concatenation: `prov:X` for the CSP `X`, `prov:X:conso` for its consumption, and
`histo` before either one for what is kept of a deleted CSP.

* `isolated_iff`: the keys of two CSPs are disjoint, and the operations on one leave what is read
  about the other alone, exactly if neither name is the other one followed by `:conso`.
-/

namespace QosSupport
namespace Broker

open Redis EventLoop

/-! ## Equal keys -/

theorem provKey_inj {x y : String} : provKey x = provKey y ↔ x = y := by
  simp [provKey]

theorem consoKey_inj {x y : String} : consoKey x = consoKey y ↔ x = y := by
  simp [consoKey]

theorem histoKey_inj {x y : String} : histoKey x = histoKey y ↔ x = y := by
  simp [histoKey]

/-- The consumption of `X` is kept under the key of a CSP `X:conso`. -/
theorem consoKey_provKey (x : String) : consoKey (provKey x) = provKey (x ++ ":conso") := by
  simp [consoKey, provKey, String.append_assoc]

theorem consoKey_ne (k : String) : consoKey k ≠ k := by
  intro h
  have hl := congrArg String.length h
  simp [consoKey] at hl

theorem histoKey_ne (k : String) : histoKey k ≠ k := by
  intro h
  have hl := congrArg String.length h
  simp [histoKey] at hl

/-- Keys of different kinds begin with different characters. -/
theorem ne_of_head {s t : String} (h : s.toList.head? ≠ t.toList.head?) : s ≠ t := by
  rintro rfl
  exact h rfl

theorem histoKey_ne_provKey (k x : String) : histoKey k ≠ provKey x :=
  ne_of_head (by simp [histoKey, provKey])

theorem usersKey_ne_provKey (u x : String) : usersKey u ≠ provKey x :=
  ne_of_head (by simp [usersKey, provKey])

theorem credentialKey_ne_provKey (u x : String) : credentialKey u ≠ provKey x :=
  ne_of_head (by simp [credentialKey, provKey])

/-! ## Databases after an operation -/

/-- The second database after an operation. -/
theorem after_dbs {md5 : String → String} {op : Op} (s : Server) (h : op.db = 2) :
    (op.after md5 s).dbs 2 = runCmds s.now (op.cmds md5 s.now (s.dbs 2)) (s.dbs 2) := by
  simp [Op.after, within, selected, h]

theorem after_now {md5 : String → String} (op : Op) (s : Server) : (op.after md5 s).now = s.now := rfl

/-- The fields that `registerCSP` writes: key, field and value. -/
def registerFields (formDatas : FormDatas) : List (String × String × String) :=
  let redisKey := provKey (text formDatas.servicename)
  [(redisKey, "audioQuota", optionalQuota formDatas.audio),
   (redisKey, "videoQuota", optionalQuota formDatas.video),
   (redisKey, "dataQuota", dataQuota formDatas.qdata),
   (redisKey, "conso", consoKey redisKey),
   (consoKey redisKey, "audio", "0"),
   (consoKey redisKey, "video", "0"),
   (consoKey redisKey, "data", "0")]

/-- **A registration** writes the fields that are not there. -/
theorem field_register {now : Nat} {db : Db} {formDatas : FormDatas} {k f : String}
    (h : IsHash now db (provKey (text formDatas.servicename)))
    (h' : IsHash now db (consoKey (provKey (text formDatas.servicename)))) :
    field now (runCmds now (registerCmds formDatas) db) k f = (field now db k f).or
      (((registerFields formDatas).find? fun x => x.1 = k ∧ x.2.1 = f).map (·.2.2)) := by
  refine field_setnxAll (l := registerFields formDatas) ?_
  simp [registerFields, h, h']

/-! ## Two CSPs -/

/-- The keys used for a CSP. -/
def cspKeySet (csp : String) : List String :=
  [provKey csp, consoKey (provKey csp), histoKey (provKey csp), histoKey (consoKey (provKey csp))]

/-- The operations on a CSP, in the state `s`: it is registered, deleted, given quotas, or charged for
one of its users. -/
inductive OfCSP (csp : String) (s : Server) : Op → Prop
  | register (formDatas : FormDatas) : text formDatas.servicename = csp →
      OfCSP csp s (.registerCSP formDatas)
  | delete : OfCSP csp s (.deleteCSP (provKey csp))
  | update (audioQuota videoQuota dataQuota : Option String) :
      OfCSP csp s (.updateCSPQuotas (some (provKey csp)) audioQuota videoQuota dataQuota)
  | charge (t : TrafficRecord) (e : Option Nat) :
      find s.now (s.dbs 2) (usersKey t.user) = some ⟨.str csp, e⟩ → OfCSP csp s (.addCSPConso (some t))

/-- The operations on `b` leave the answers of `getCSPInfos` and `getCSPConso` for `a` unchanged, in
every state. -/
def Unaffected (md5 : String → String) (a b : String) : Prop :=
  ∀ (s s' : Server) (op : Op) (l : Locals), OfCSP b s op → (dao md5).Completes op s s' l →
    ∀ q ∈ [Op.getCSPInfos (provKey a), Op.getCSPConso (provKey a)], ∀ s₁ s₂ l₁ l₂,
      (dao md5).Completes q s s₁ l₁ → (dao md5).Completes q s' s₂ l₂ → l₂.outcome = l₁.outcome

theorem ofCSP_db {csp : String} {s : Server} {op : Op} (h : OfCSP csp s op) : op.db = 2 := by
  cases h <;> rfl

/-- The operations on a CSP write its keys. -/
theorem ofCSP_writes {md5 : String → String} {csp : String} {s : Server} {op : Op}
    (h : OfCSP csp s op) :
    ∀ c ∈ op.cmds md5 s.now (s.dbs 2), ∀ k ∈ c.writes, k ∈ cspKeySet csp := by
  cases h with
  | register formDatas hname => simp [Op.cmds, registerCmds, Cmd.writes, cspKeySet, hname]
  | delete => simp [Op.cmds, Cmd.writes, cspKeySet]
  | update a v d => simp [Op.cmds, Cmd.writes, cspKeySet, text]
  | charge t e hf => simp [Op.cmds, chargedCSP, hf, Cmd.writes, cspKeySet]

/-- The keys of two CSPs are disjoint, unless one is named like the consumption of the other. -/
theorem disjoint_cspKeySet_iff {a b : String} (hab : a ≠ b) :
    (cspKeySet a).Disjoint (cspKeySet b) ↔ a ≠ b ++ ":conso" ∧ b ≠ a ++ ":conso" := by
  have hh : ∀ x y, provKey x ≠ histoKey y := fun x y h => histoKey_ne_provKey y x h.symm
  have hc : ∀ x y : String, x ++ ":conso" = y ++ ":conso" ↔ x = y := fun x y => by simp
  simp only [List.Disjoint, cspKeySet, consoKey_provKey, List.mem_cons, List.not_mem_nil, or_false]
  constructor
  · intro h
    constructor
    · rintro rfl
      exact h (.inl rfl) (.inr (.inl rfl))
    · rintro rfl
      exact h (.inr (.inl rfl)) (.inl rfl)
  · rintro ⟨h1, h2⟩ k (rfl | rfl | rfl | rfl) <;>
      simp [provKey_inj, histoKey_inj, histoKey_ne_provKey, hh, hc, hab, h1, Ne.symm h2]

theorem readHash_after {md5 : String → String} {op : Op} {s : Server} {k : String} (hdb : op.db = 2)
    (h : ∀ c ∈ op.cmds md5 s.now (s.dbs 2), k ∉ c.writes) :
    readHash (op.after md5 s).now ((op.after md5 s).dbs 2) k = readHash s.now (s.dbs 2) k := by
  rw [after_dbs s hdb, after_now]
  exact readHash_congr (find_congr (runCmds_frame h))

theorem unaffected_of_disjoint {md5 : String → String} {a b : String}
    (h : (cspKeySet a).Disjoint (cspKeySet b)) : Unaffected md5 a b := by
  intro s s' op l hop hrun q hq s₁ s₂ l₁ l₂ h₁ h₂
  obtain rfl := server_of_completes hrun
  have hr : ∀ k ∈ cspKeySet a, readHash (op.after md5 s).now ((op.after md5 s).dbs 2) k =
      readHash s.now (s.dbs 2) k := fun k hk =>
    readHash_after (ofCSP_db hop) fun c hc hw => h hk (ofCSP_writes hop c hc k hw)
  simp only [List.mem_cons, List.not_mem_nil, or_false] at hq
  rcases hq with rfl | rfl
  · rw [outcome_getCSPInfos h₁, outcome_getCSPInfos h₂, hr _ (by simp [cspKeySet])]
  · rw [outcome_getCSPConso h₁, outcome_getCSPConso h₂, hr _ (by simp [cspKeySet])]

/-- A server with empty databases. -/
def blank : Server := { now := 0, selected := 0, dbs := fun _ => ∅ }

/-- The form with a name only. -/
def nameOnly (csp : String) : FormDatas :=
  { servicename := some csp, audio := none, video := none, qdata := none }

/-- After a registration, both hashes of the CSP are there. -/
theorem readHash_register (md5 : String → String) {csp k : String}
    (hk : k = provKey csp ∨ k = consoKey (provKey csp)) :
    ∃ h, readHash 0 (((Op.registerCSP (nameOnly csp)).after md5 blank).dbs 2) k = .ok (some h) := by
  have hdb : ((Op.registerCSP (nameOnly csp)).after md5 blank).dbs 2 =
      runCmds 0 (registerCmds (nameOnly csp)) ∅ := after_dbs blank rfl
  have hne : provKey csp ≠ consoKey (provKey csp) := (consoKey_ne _).symm
  have hempty : ∀ k', IsHash 0 ∅ k' := fun k' e he => by simp [find] at he
  have hnone : ∀ k' f, field 0 ∅ k' f = none := fun k' f => rfl
  rw [hdb]
  rcases hk with rfl | rfl
  · refine ⟨_, readHash_of_field (f := "conso") (v := consoKey (provKey csp)) ?_⟩
    rw [field_register (hempty _) (hempty _)]
    simp [hnone, registerFields, nameOnly, text]
  · refine ⟨_, readHash_of_field (f := "data") (v := "0") ?_⟩
    rw [field_register (hempty _) (hempty _)]
    simp [hnone, registerFields, nameOnly, text, hne]

/-- If registering `b` writes a key that is read about `a`, the answer changes. -/
theorem not_unaffected {md5 : String → String} {a b : String} {q : Op} {k : String}
    (hq : q ∈ [Op.getCSPInfos (provKey a), Op.getCSPConso (provKey a)])
    (hout : ∀ s s' l, (dao md5).Completes q s s' l →
      l.outcome = some (objectOutcome (readHash s.now (s.dbs 2) k)))
    (hk : k = provKey b ∨ k = consoKey (provKey b)) : ¬ Unaffected md5 a b := by
  intro h
  obtain ⟨s', l, hrun⟩ := Client.exists_completes (dao md5) (.registerCSP (nameOnly b)) blank
  obtain ⟨s₁, l₁, h₁⟩ := Client.exists_completes (dao md5) q blank
  obtain ⟨s₂, l₂, h₂⟩ := Client.exists_completes (dao md5) q s'
  have hsame := h blank s' _ l (.register (nameOnly b) rfl) hrun q hq s₁ s₂ l₁ l₂ h₁ h₂
  obtain rfl := server_of_completes hrun
  obtain ⟨f, hf⟩ := readHash_register md5 hk
  have hnone : readHash blank.now (blank.dbs 2) k = .ok none := rfl
  have hnow : ((Op.registerCSP (nameOnly b)).after md5 blank).now = 0 := rfl
  rw [hout _ _ _ h₁, hout _ _ _ h₂, hnone, hnow, hf] at hsame
  simp [objectOutcome] at hsame

theorem unaffected_iff {md5 : String → String} {a b : String} (hab : a ≠ b) :
    Unaffected md5 a b ↔ a ≠ b ++ ":conso" ∧ b ≠ a ++ ":conso" := by
  refine ⟨fun h => ⟨?_, ?_⟩, fun h => unaffected_of_disjoint ((disjoint_cspKeySet_iff hab).mpr h)⟩
  · rintro rfl
    refine not_unaffected (q := .getCSPInfos (provKey (b ++ ":conso"))) (by simp)
      (fun _ _ _ => outcome_getCSPInfos) ?_ h
    exact .inr (consoKey_provKey b).symm
  · rintro rfl
    refine not_unaffected (q := .getCSPConso (provKey a)) (by simp)
      (fun _ _ _ => outcome_getCSPConso) ?_ h
    exact .inl (consoKey_provKey a)

/-- **Isolation of two CSPs**: their keys are disjoint, and the operations on `b` leave what is read
about `a` unchanged, exactly if neither name is the other one followed by `:conso`. -/
theorem isolated_iff (md5 : String → String) (a b : String) (hab : a ≠ b) :
    (cspKeySet a).Disjoint (cspKeySet b) ∧ Unaffected md5 a b ↔
      a ≠ b ++ ":conso" ∧ b ≠ a ++ ":conso" := by
  rw [disjoint_cspKeySet_iff hab, unaffected_iff hab, and_self]

theorem isolated_a_b : (cspKeySet "a").Disjoint (cspKeySet "b") ∧ Unaffected id "a" "b" :=
  (isolated_iff id "a" "b" (by decide)).mpr (by decide)

/-- Registering `a:conso` changes the consumption of `a`. -/
theorem not_isolated_conso :
    ¬ ((cspKeySet "a").Disjoint (cspKeySet "a:conso") ∧ Unaffected id "a" "a:conso") := by
  rintro ⟨-, h⟩
  exact ((unaffected_iff (by decide)).mp h).2 (by decide)

end Broker
end QosSupport
