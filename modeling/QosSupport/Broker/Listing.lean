import QosSupport.Broker.Store
import QosSupport.Broker.TurnServers

/-!
# The list of the CSPs

`getAllCspInfo` reads the keys `prov:*`, leaves out those with `:conso` anywhere in them, and reads the
fields of each of the others. The replies are collected in the order in which their callbacks run, and the
promise is resolved by the callback that completes the list. With no key there is no callback.

* `Catalog`: what the list is meant to show, the CSPs registered and not deleted, with their quotas.
* `stored_run`: after every sequence of operations, what is stored of each CSP whose key passes the filter
  (`Listable`) is what the catalog says.
* `listsAll_iff`: the list is complete exactly if the catalog is not empty and all its CSPs are
  `Listable`. Otherwise a CSP is missing, or the promise is never settled.
-/

namespace QosSupport
namespace Broker

open Redis EventLoop Run

/-! ## The catalog -/

/-- The quotas of a CSP. -/
structure Quotas where
  audioQuota : String
  videoQuota : String
  dataQuota : String

/-- The quotas of a form. -/
def FormDatas.quotas (formDatas : FormDatas) : Quotas where
  audioQuota := optionalQuota formDatas.audio
  videoQuota := optionalQuota formDatas.video
  dataQuota := Broker.dataQuota formDatas.qdata

/-- The CSPs, with their quotas. -/
abbrev Catalog := String → Option Quotas

/-- A registration adds a CSP that is not there, a deletion takes one away. -/
def Catalog.after (c : Catalog) : SeqEvent → Catalog
  | .op (.registerCSP formDatas) => fun csp =>
    if csp = text formDatas.servicename then (c csp).or (some formDatas.quotas) else c csp
  | .op (.deleteCSP cspkey) => fun csp => if provKey csp = cspkey then none else c csp
  | _ => c

/-- The CSPs registered and not deleted in a sequence. -/
def catalog (seq : List SeqEvent) : Catalog := seq.foldl Catalog.after fun _ => none

/-- No quota is changed: CSPs are registered, deleted and charged, users are registered, and others
act. -/
def Provisions (_ : Server) : SeqEvent → Prop
  | .op (.updateCSPQuotas _ _ _ _) => False
  | .op _ => True
  | .env a => Foreign a

/-- The fields are those of a CSP with these quotas. -/
structure Carries (fields : String → Option String) (q : Quotas) : Prop where
  audio : fields "audioQuota" = some q.audioQuota
  video : fields "videoQuota" = some q.videoQuota
  data : fields "dataQuota" = some q.dataQuota

/-- The list has one entry for each CSP of the catalog, with its quotas, and no other. -/
structure Lists (infos : List CspInfo) (c : Catalog) : Prop where
  nodup : (infos.map (·.csp)).Nodup
  complete : ∀ csp q, c csp = some q → ∃ i ∈ infos, i.csp = provKey csp
  sound : ∀ i ∈ infos, ∃ csp q, i.csp = provKey csp ∧ c csp = some q ∧ Carries i.fields.lookup q

/-- Every complete run of `getAllCspInfo` in the state `s` resolves, with the list of the catalog. -/
def ListsAll (md5 : String → String) (s : Server) (c : Catalog) : Prop :=
  ∀ s' l, (dao md5).Completes .getAllCspInfo s s' l →
    ∃ infos, l.outcome = some (.resolved (.infos infos)) ∧ Lists infos c

/-! ## The keys that are read -/

/-- The key of the CSP has no `:conso` in it. -/
def Listable (csp : String) : Prop := ¬ ":conso".toList <:+: (provKey csp).toList

/-- The keys that `KEYS prov:*` gives. -/
def provKeys (now : Nat) (db : Db) : List String :=
  db.keys.filter fun k => (find now db k).isSome && (Glob.ofString "prov:*").matchString k

theorem mem_cspKeys {now : Nat} {db : Db} {k : String} : k ∈ cspKeys (provKeys now db) ↔
    ∃ csp, k = provKey csp ∧ Listable csp ∧ ∃ e, find now db k = some e := by
  have hglob : Glob.ofString "prov:*" = "prov:".toList.map .lit ++ [.star] := by decide
  rw [cspKeys, List.mem_filter, provKeys, mem_keys, Glob.matchString_star hglob]
  constructor
  · rintro ⟨⟨⟨csp, rfl⟩, he⟩, hk⟩
    exact ⟨csp, rfl, by simpa [Listable, provKey] using hk, he⟩
  · rintro ⟨csp, rfl, hl, he⟩
    exact ⟨⟨⟨csp, rfl⟩, he⟩, by simpa [Listable, provKey] using hl⟩

theorem nodup_cspKeys (now : Nat) (db : Db) : (cspKeys (provKeys now db)).Nodup :=
  (db.nodupKeys.filter _).filter _

/-- The name of a consumption does not pass the filter. -/
theorem not_listable_conso (csp : String) : ¬ Listable (conso csp) := by
  refine not_not.mpr ⟨(provKey csp).toList, [], ?_⟩
  simp [provKey, conso]

theorem ne_conso {csp : String} (h : Listable csp) (x : String) : csp ≠ conso x := by
  rintro rfl
  exact not_listable_conso x h

/-! ## What is stored -/

/-- What is stored of one CSP is what the catalog says. -/
structure StoredAt (s : Server) (c : Catalog) (csp : String) : Prop where
  absent : c csp = none → (s.dbs 2).lookup (provKey csp) = none
  present : ∀ q, c csp = some q → Carries (view s.now (s.dbs 2) csp) q

/-- What is stored is what the catalog says, of every CSP whose key passes the filter. -/
structure Stored (s : Server) (c : Catalog) : Prop where
  prov : ProvOk (s.dbs 2)
  csps : ∀ csp, Listable csp → StoredAt s c csp

section Stored

variable {md5 : String → String} {s s' : Server} {c c' : Catalog} {csp : String}

/-- A step that leaves the key alone. -/
theorem storedAt_frame (h : StoredAt s c csp) (hs : ProvOk (s.dbs 2)) (hs' : ProvOk (s'.dbs 2))
    (hl : (s'.dbs 2).lookup (provKey csp) = (s.dbs 2).lookup (provKey csp)) (hc : c' csp = c csp) :
    StoredAt s' c' csp := by
  have hview : view s'.now (s'.dbs 2) csp = view s.now (s.dbs 2) csp := by
    funext f
    unfold view field fieldsAt
    rw [find_provKey hs', find_provKey hs, hl]
  refine ⟨fun hnone => ?_, fun q hq => ?_⟩
  · rw [hl]
    exact h.absent (hc ▸ hnone)
  · rw [hview]
    exact h.present q (hc ▸ hq)

theorem lookup_of_seq {op : Op} {k : String} (h : Seq md5 s (.op op) s')
    (hk : ∀ c ∈ op.cmds md5 s.now (s.dbs 2), k ∉ c.writes) :
    (s'.dbs 2).lookup k = (s.dbs 2).lookup k := by
  rw [(dbs_of_seq h).2]
  split
  · exact runCmds_frame hk
  · rfl

/-- **A registration.** -/
theorem storedAt_register {formDatas : FormDatas} (h : Seq md5 s (.op (.registerCSP formDatas)) s')
    (hs : ProvOk (s.dbs 2)) (hs' : ProvOk (s'.dbs 2)) (hl : Listable csp) (hc : StoredAt s c csp) :
    StoredAt s' (c.after (.op (.registerCSP formDatas))) csp := by
  by_cases hcsp : csp = text formDatas.servicename
  · have hview : ∀ f, view s'.now (s'.dbs 2) csp f =
        (view s.now (s.dbs 2) csp f).or (registered formDatas csp f) := by
      intro f
      rw [view_of_seq h rfl]
      exact view_register hs formDatas csp f
    have hafter : c.after (.op (.registerCSP formDatas)) csp = (c csp).or (some formDatas.quotas) :=
      if_pos hcsp
    refine ⟨fun hnone => ?_, fun q hq => ?_⟩
    · rw [hafter] at hnone
      cases hold : c csp <;> simp [hold] at hnone
    · rw [hafter] at hq
      cases hold : c csp with
      | some q₀ =>
        obtain rfl : q₀ = q := by simpa [hold] using hq
        obtain ⟨ha, hv, hd⟩ := hc.present q₀ hold
        exact ⟨by rw [hview, ha]; rfl, by rw [hview, hv]; rfl, by rw [hview, hd]; rfl⟩
      | none =>
        obtain rfl : formDatas.quotas = q := by simpa [hold] using hq
        have hnew : ∀ f, view s'.now (s'.dbs 2) csp f = registered formDatas csp f := by
          intro f
          have hempty : view s.now (s.dbs 2) csp f = none :=
            field_of_none (by rw [find_provKey hs, hc.absent hold])
          rw [hview, hempty, Option.none_or]
        refine ⟨?_, ?_, ?_⟩ <;> rw [hnew] <;> simp [registered, hcsp, FormDatas.quotas]
  · refine storedAt_frame hc hs hs' (lookup_of_seq h fun c hmem => ?_) (if_neg hcsp)
    have h1 : provKey csp ≠ provKey (text formDatas.servicename) := fun hk => hcsp (provKey_inj.mp hk)
    have h2 : provKey csp ≠ consoKey (provKey (text formDatas.servicename)) := by
      rw [consoKey_prov]
      exact fun hk => ne_conso hl _ (provKey_inj.mp hk)
    simp only [Op.cmds, registerCmds, List.mem_cons, List.not_mem_nil, or_false] at hmem
    rcases hmem with rfl | rfl | rfl | rfl | rfl | rfl | rfl <;> simp [Cmd.writes, h1, h2]

/-- What was under a key is gone after it was renamed. -/
theorem lookup_rename_self {now : Nat} {db : Db} {k' : String} (h : ProvOk db) (hk : provKey csp ≠ k') :
    (execDb now (.rename (provKey csp) k') db).1.lookup (provKey csp) = none := by
  have hfind := find_provKey h now csp
  rw [execDb_rename hk]
  split
  · rename_i hnone
    rw [← hfind, hnone]
  · rw [AList.lookup_insert_ne hk, AList.lookup_erase]

/-- **A deletion.** -/
theorem storedAt_delete {k : String} (h : Seq md5 s (.op (.deleteCSP k)) s') (hs : ProvOk (s.dbs 2))
    (hs' : ProvOk (s'.dbs 2)) (hl : Listable csp) (hc : StoredAt s c csp) :
    StoredAt s' (c.after (.op (.deleteCSP k))) csp := by
  by_cases hk : provKey csp = k
  · subst hk
    have hgone : (s'.dbs 2).lookup (provKey csp) = none := by
      rw [(dbs_of_seq h).2, if_pos (show (Op.deleteCSP (provKey csp)).db = 2 from rfl)]
      have hconso : KeepsProv (.rename (consoKey (provKey csp)) (histoKey (consoKey (provKey csp)))) :=
        fun x => histoKey_ne_provKey _ x
      exact lookup_rename_self (provOk_execDb hs hconso _) (histoKey_ne_provKey _ _).symm
    have hafter : c.after (.op (.deleteCSP (provKey csp))) csp = none := if_pos rfl
    refine ⟨fun _ => hgone, fun q hq => ?_⟩
    rw [hafter] at hq
    cases hq
  · refine storedAt_frame hc hs hs' (lookup_of_seq h fun c hmem => ?_) (if_neg hk)
    have h1 : provKey csp ≠ consoKey k := by
      intro he
      refine hl ⟨k.toList, [], ?_⟩
      rw [he]
      simp [consoKey]
    have h2 : ∀ x, provKey csp ≠ histoKey x := fun x => (histoKey_ne_provKey x csp).symm
    simp only [Op.cmds, List.mem_cons, List.not_mem_nil, or_false] at hmem
    rcases hmem with rfl | rfl <;> simp [Cmd.writes, hk, h1, h2]

/-- The other operations leave the keys of the CSPs alone. -/
theorem lookup_other {op : Op} (h : Seq md5 s (.op op) s') (hl : Listable csp)
    (hreg : ∀ formDatas, op ≠ .registerCSP formDatas) (hdel : ∀ k, op ≠ .deleteCSP k)
    (hupd : ∀ k a v d, op ≠ .updateCSPQuotas k a v d) :
    (s'.dbs 2).lookup (provKey csp) = (s.dbs 2).lookup (provKey csp) := by
  refine lookup_of_seq h fun c hmem => ?_
  have husers : ∀ u, provKey csp ≠ usersKey u := fun u => (usersKey_ne_provKey u csp).symm
  cases op with
  | registerCSP formDatas => exact absurd rfl (hreg formDatas)
  | deleteCSP k => exact absurd rfl (hdel k)
  | updateCSPQuotas k a v d => exact absurd rfl (hupd k a v d)
  | addCSPConso t =>
    cases t with
    | none => simp [Op.cmds] at hmem
    | some t =>
      simp only [Op.cmds] at hmem
      split at hmem
      · rw [List.mem_singleton] at hmem
        subst hmem
        rw [consoKey_prov]
        have hne : ∀ x, provKey csp ≠ provKey (conso x) := fun x hk => ne_conso hl x (provKey_inj.mp hk)
        simp [Cmd.writes, hne]
      · simp at hmem
  | registerUser | getAppropriateTurn =>
    simp only [Op.cmds, List.mem_cons, List.not_mem_nil, or_false] at hmem
    rcases hmem with rfl | rfl <;> simp [Cmd.writes, husers]
  | getCredentials =>
    simp only [Op.cmds, List.mem_singleton] at hmem
    subst hmem
    simp [Cmd.writes, (credentialKey_ne_provKey _ csp).symm]
  | getAllCspInfo | getCSPInfos | getCSPConso | getTurnServers => simp [Op.cmds] at hmem

/-- **One step** keeps what is stored and the catalog together. -/
theorem stored_step {e : SeqEvent} (h : Seq md5 s e s') (he : Provisions s e) (hc : Stored s c) :
    Stored s' (c.after e) := by
  have hforeign : ∀ a, e = .env a → Foreign a := by
    rintro a rfl
    exact he
  have hs' := provOk_step h hforeign hc.prov
  refine ⟨hs', fun csp hl => ?_⟩
  cases e with
  | env a =>
    obtain rfl : s' = a.act s := h
    exact storedAt_frame (hc.csps csp hl) hc.prov hs' (lookup_foreign he s csp) rfl
  | op o =>
    cases o with
    | registerCSP formDatas => exact storedAt_register h hc.prov hs' hl (hc.csps csp hl)
    | deleteCSP k => exact storedAt_delete h hc.prov hs' hl (hc.csps csp hl)
    | updateCSPQuotas => exact he.elim
    | _ => exact storedAt_frame (hc.csps csp hl) hc.prov hs' (lookup_other h hl nofun nofun nofun) rfl

/-- **Every sequence** from an empty database. -/
theorem stored_run {seq : List SeqEvent} (h : Steps (Seq md5) Provisions s seq s') (hc : Stored s c) :
    Stored s' (seq.foldl Catalog.after c) := by
  induction h generalizing c with
  | nil => exact hc
  | cons he hst _ ih => exact ih (stored_step hst he hc)

theorem stored_empty (h : Empty2 s) : Stored s fun _ => none := by
  refine ⟨provOk_empty h, fun csp _ => ⟨fun _ => ?_, nofun⟩⟩
  rw [h]
  rfl

end Stored

/-! ## The answer -/

section Answer

variable {md5 : String → String} {s s' : Server} {l : Locals} {c : Catalog}

theorem front_getAllCspInfo (s : Server) (l : Locals) : (dao md5).front getAllCspInfo s l =
    (dao md5).front (gotProvKeys (.multi (provKeys s.now (s.dbs 2)))) (selected 2 s) l := by
  have hselect : exec (.select 2) s = (selected 2 s, .ok) := exec_select (by decide) s
  show (dao md5).front (.call (.keys (Glob.ofString "prov:*")) gotProvKeys .done)
    (exec (.select 2) s).1 l = _
  rw [hselect, front_read rfl rfl]
  rfl

/-- The callback of a key whose fields are there. -/
theorem issue_gotCspInfo (size : Nat) (k : String) {h : Hash} (hh : h ≠ ∅) (l : Locals) :
    ((gotCspInfo size k (.fields h)).issue l).2 =
      { l with
        infos := l.infos ++ [⟨k, h⟩]
        outcome := l.outcome.or (if l.infos.length + 1 = size then
          some (.resolved (.infos (l.infos ++ [⟨k, h⟩]))) else none) } := by
  have hreply : hgetallReply (.fields h) = .ok (some h) := by simp [hgetallReply, hh]
  simp only [gotCspInfo, hreply, Prog.issue, List.length_append, List.length_singleton]
  split
  · rfl
  · simp [Prog.issue]

/-- The entry of the list for a key. -/
def infoOf (s : Server) (k : String) : CspInfo := ⟨k, fieldsAt s.now (s.dbs 2) k⟩

/-- **The answer of `getAllCspInfo`**, if each key that it reads has fields: none at all without a key;
else each key once, with its fields, in some order. -/
theorem outcome_getAllCspInfo (h : (dao md5).Completes .getAllCspInfo s s' l)
    (hh : ∀ k ∈ cspKeys (provKeys s.now (s.dbs 2)),
      (∃ t, find s.now (s.dbs 2) k = some ⟨.hash (fieldsAt s.now (s.dbs 2) k), t⟩) ∧
        fieldsAt s.now (s.dbs 2) k ≠ ∅) :
    (cspKeys (provKeys s.now (s.dbs 2)) = [] ∧ l.outcome = none) ∨
    (∃ ts : List String, ts ≠ [] ∧ ts.Perm (cspKeys (provKeys s.now (s.dbs 2))) ∧
      l.outcome = some (.resolved (.infos (ts.map (infoOf s))))) := by
  obtain ⟨ts, hperm, rfl⟩ := vars_of_reads (fun _ => rfl) (fun _ => rfl)
    (fun k r => quiet_gotCspInfo _ k r) (front_getAllCspInfo s Locals.init) h
  by_cases hts : ts = []
  · subst hts
    exact .inl ⟨List.Perm.nil_eq hperm |>.symm, rfl⟩
  · refine .inr ⟨ts, hts, hperm, ?_⟩
    have hreply : ∀ k ∈ ts, (exec (.hgetall k) (selected 2 s)).2 =
        .fields (fieldsAt s.now (s.dbs 2) k) := by
      intro k hk
      obtain ⟨⟨t, ht⟩, -⟩ := hh k (hperm.mem_iff.mp hk)
      rw [exec_reply rfl]
      show (execDb s.now (.hgetall k) (s.dbs 2)).2 = _
      rw [execDb, ht]
    refine ((gathered Locals.infos _ (infoOf s) (fun is => .resolved (.infos is)) ts Locals.init
      (fun k hk l => ?_) (fun k hk l => ?_)).2 hts ((Nat.zero_add _).trans hperm.length_eq)).trans rfl
    · rw [hreply k hk, issue_gotCspInfo _ _ (hh k (hperm.mem_iff.mp hk)).2]
      rfl
    · rw [hreply k hk, issue_gotCspInfo _ _ (hh k (hperm.mem_iff.mp hk)).2]
      rfl

/-- What is read is what the catalog says. -/
theorem hashes_of_stored (h : Stored s c) : ∀ k ∈ cspKeys (provKeys s.now (s.dbs 2)),
    ∃ csp q, k = provKey csp ∧ c csp = some q ∧ Carries (fieldsAt s.now (s.dbs 2) k).lookup q ∧
      ∃ t, find s.now (s.dbs 2) k = some ⟨.hash (fieldsAt s.now (s.dbs 2) k), t⟩ := by
  intro k hk
  obtain ⟨csp, rfl, hl, e, he⟩ := mem_cspKeys.mp hk
  have hlookup := find_provKey h.prov s.now csp
  rw [he] at hlookup
  obtain ⟨hash, rfl⟩ := h.prov csp e hlookup.symm
  have hfields : fieldsAt s.now (s.dbs 2) (provKey csp) = hash := by simp [fieldsAt, he]
  cases hq : c csp with
  | none =>
    rw [(h.csps csp hl).absent hq] at hlookup
    cases hlookup
  | some q => exact ⟨csp, q, rfl, hq, (h.csps csp hl).present q hq, none, by rw [hfields, he]⟩

/-- A CSP of the catalog that passes the filter is read. -/
theorem mem_of_stored (h : Stored s c) {csp : String} {q : Quotas} (hl : Listable csp)
    (hq : c csp = some q) : provKey csp ∈ cspKeys (provKeys s.now (s.dbs 2)) := by
  refine mem_cspKeys.mpr ⟨csp, rfl, hl, ?_⟩
  have haudio := ((h.csps csp hl).present q hq).audio
  cases he : find s.now (s.dbs 2) (provKey csp) with
  | some e => exact ⟨e, rfl⟩
  | none =>
    rw [view, field_of_none he] at haudio
    cases haudio

/-- **When the list is complete**, for a state that stores a catalog. -/
theorem listsAll_of_stored (h : Stored s c) : ListsAll md5 s c ↔
    (∃ csp, c csp ≠ none) ∧ ∀ csp, c csp ≠ none → Listable csp := by
  have hh : ∀ k ∈ cspKeys (provKeys s.now (s.dbs 2)),
      (∃ t, find s.now (s.dbs 2) k = some ⟨.hash (fieldsAt s.now (s.dbs 2) k), t⟩) ∧
        fieldsAt s.now (s.dbs 2) k ≠ ∅ := by
    intro k hk
    obtain ⟨csp, q, -, -, hcarries, ht⟩ := hashes_of_stored h k hk
    refine ⟨ht, fun hempty => ?_⟩
    have haudio := hcarries.audio
    rw [hempty, Finmap.lookup_empty] at haudio
    cases haudio
  constructor
  · intro hall
    obtain ⟨s', l, hrun⟩ := Client.exists_completes (dao md5) .getAllCspInfo s
    obtain ⟨infos, hinfos, hlists⟩ := hall s' l hrun
    obtain ⟨-, hnone⟩ | ⟨ts, hts, hperm, hts'⟩ := outcome_getAllCspInfo hrun hh
    · rw [hnone] at hinfos
      cases hinfos
    · obtain rfl : ts.map (infoOf s) = infos := by simpa [hts'] using hinfos
      have hlisted : ∀ csp, c csp ≠ none → Listable csp := by
        intro csp hcsp
        obtain ⟨q, hq⟩ := Option.ne_none_iff_exists'.mp hcsp
        obtain ⟨i, hi, hik⟩ := hlists.complete csp q hq
        obtain ⟨k, hk, rfl⟩ := List.mem_map.mp hi
        obtain ⟨csp', hk', hl, -⟩ := mem_cspKeys.mp (hperm.mem_iff.mp hk)
        obtain rfl : csp' = csp := provKey_inj.mp (hk'.symm.trans hik)
        exact hl
      obtain ⟨k, hk⟩ := List.exists_mem_of_ne_nil _ hts
      obtain ⟨csp, q, -, hq, -⟩ := hashes_of_stored h k (hperm.mem_iff.mp hk)
      exact ⟨⟨csp, by rw [hq]; nofun⟩, hlisted⟩
  · rintro ⟨⟨csp, hcsp⟩, hall⟩ s' l hrun
    obtain ⟨q, hq⟩ := Option.ne_none_iff_exists'.mp hcsp
    have hmem := mem_of_stored h (hall csp hcsp) hq
    obtain ⟨hnil, -⟩ | ⟨ts, -, hperm, hts⟩ := outcome_getAllCspInfo hrun hh
    · rw [hnil] at hmem
      cases hmem
    · refine ⟨ts.map (infoOf s), hts, ?_, fun x q hq => ?_, fun i hi => ?_⟩
      · have hcsps : (ts.map (infoOf s)).map (·.csp) = ts := by simp [infoOf, Function.comp_def]
        rw [hcsps]
        exact hperm.nodup_iff.mpr (nodup_cspKeys _ _)
      · have hx := mem_of_stored h (hall x (by rw [hq]; nofun)) hq
        exact ⟨infoOf s (provKey x), List.mem_map_of_mem (hperm.mem_iff.mpr hx), rfl⟩
      · obtain ⟨k, hk, rfl⟩ := List.mem_map.mp hi
        obtain ⟨x, q, hkx, hq, hcarries, -⟩ := hashes_of_stored h k (hperm.mem_iff.mp hk)
        exact ⟨x, q, hkx, hq, hcarries⟩

end Answer

/-- **The list of the CSPs is complete** after a sequence of operations exactly if at least one CSP is
registered and not deleted, and the keys of all of them pass the filter: no name begins with `conso`, and
none has `:conso` in it. -/
theorem listsAll_iff (md5 : String → String) (s s' : Server) (seq : List SeqEvent) (hs : Empty2 s)
    (h : Steps (Seq md5) Provisions s seq s') : ListsAll md5 s' (catalog seq) ↔
      (∃ csp, catalog seq csp ≠ none) ∧ ∀ csp, catalog seq csp ≠ none → Listable csp :=
  listsAll_of_stored (stored_run h (stored_empty hs))

/-- Two CSPs are registered, and one is deleted. -/
def twoThenOne : List SeqEvent :=
  [.op (.registerCSP (nameOnly "a")), .op (.registerCSP (nameOnly "b")), .op (.deleteCSP "prov:a")]

theorem listsAll_twoThenOne : ∃ s, Steps (Seq id) Provisions blank twoThenOne s ∧
    ListsAll id s (catalog twoThenOne) := by
  have hrun : ∃ s, Steps (Seq id) Provisions blank twoThenOne s :=
    ⟨_, .cons trivial (seq_after id _ _) (.cons trivial (seq_after id _ _)
      (.cons trivial (seq_after id _ _) (.nil _)))⟩
  obtain ⟨s, hrun⟩ := hrun
  refine ⟨s, hrun, (listsAll_iff id blank s twoThenOne rfl hrun).mpr ⟨⟨"b", ?_⟩, fun csp hcsp => ?_⟩⟩
  · simp [twoThenOne, catalog, Catalog.after, nameOnly, text, provKey]
  · obtain rfl : csp = "b" := by
      by_contra hb
      by_cases ha : csp = "a"
      · subst ha
        exact hcsp rfl
      · simp [twoThenOne, catalog, Catalog.after, nameOnly, text, ha, hb] at hcsp
    unfold Listable
    decide

/-- With no CSP the promise is never settled, and a CSP called `conso` is not listed. -/
theorem listing_incomplete : ¬ ListsAll id blank (catalog []) ∧
    ∃ s, Steps (Seq id) Provisions blank [.op (.registerCSP (nameOnly "conso")),
      .op (.registerCSP (nameOnly "b"))] s ∧
      ¬ ListsAll id s (catalog [.op (.registerCSP (nameOnly "conso")),
        .op (.registerCSP (nameOnly "b"))]) := by
  constructor
  · intro hall
    have hempty : Stored blank (catalog []) := stored_empty rfl
    obtain ⟨⟨csp, hcsp⟩, -⟩ := (listsAll_of_stored hempty).mp hall
    exact hcsp rfl
  · have hrun : ∃ s, Steps (Seq id) Provisions blank [.op (.registerCSP (nameOnly "conso")),
        .op (.registerCSP (nameOnly "b"))] s :=
      ⟨_, .cons trivial (seq_after id _ _) (.cons trivial (seq_after id _ _) (.nil _))⟩
    obtain ⟨s, hrun⟩ := hrun
    refine ⟨s, hrun, fun hall => ?_⟩
    have hl := ((listsAll_of_stored (stored_run hrun (stored_empty rfl))).mp hall).2 "conso"
      (by simp [Catalog.after, nameOnly, text])
    unfold Listable at hl
    revert hl
    decide

end Broker
end QosSupport
