import QosSupport.Broker.Store

/-!
# What is kept of deleted CSPs

`deleteCSP` renames the two hashes of a CSP to keys that begin with `histo`, so that old consumptions
can be looked up later. `RENAME` overwrites its target.

* `Archive`: the server, and every consumption record that a deletion took away so far.
* `Kept`: each of these records is still stored under some history key.
* `Spares`: the condition on a step. A deletion does not move another hash onto a history key that
  holds one of these records.
* `kept_of_spares`: in every sequence of operations that are all `Spares`, all records are kept.
  `second_life_forgets` is a sequence in which one is lost.
-/

namespace QosSupport
namespace Broker

open Redis EventLoop Run

/-- The hash `h` is stored under `k`, without a time to live. -/
def Holds (s : Server) (k : String) (h : Hash) : Prop := (s.dbs 2).lookup k = some ⟨.hash h, none⟩

instance (s : Server) (k : String) (h : Hash) : Decidable (Holds s k h) :=
  inferInstanceAs (Decidable (_ = _))

/-- The consumption record of the CSP with key `k`. -/
def recordOf (s : Server) (k : String) : Option Hash :=
  match find s.now (s.dbs 2) (consoKey k) with
  | some ⟨.hash h, _⟩ => some h
  | _ => none

/-- The server and the records of the CSPs deleted so far, each as it was when the CSP was deleted. -/
structure Archive where
  server : Server
  records : List Hash

/-- The record that a step takes away. -/
def taken (s : Server) : SeqEvent → List Hash
  | .op (.deleteCSP k) => (recordOf s k).toList
  | _ => []

/-- One step of a sequence. -/
def Archived (md5 : String → String) (x : Archive) (e : SeqEvent) (x' : Archive) : Prop :=
  Seq md5 x.server e x'.server ∧ x'.records = taken x.server e ++ x.records

/-- The sequences of interest: CSPs are registered, charged and deleted, and whatever else leaves the
store alone may happen in between. -/
def Lifecycle (_ : Archive) : SeqEvent → Prop
  | .op (.deleteCSP k) => ∃ csp, k = provKey csp
  | .op (.updateCSPQuotas _ _ _ _) => False
  | .op _ => True
  | .env a => Foreign a

/-- **Every record is kept** under a history key. -/
def Archive.Kept (x : Archive) : Prop := ∀ h ∈ x.records, ∃ k, Holds x.server (histoKey k) h

/-- The condition on a step (module doc). -/
def Spares (x : Archive) : SeqEvent → Prop
  | .op (.deleteCSP k) => ∀ a ∈ [consoKey k, k], ∀ h ∈ x.records, Holds x.server (histoKey a) h →
      find x.server.now (x.server.dbs 2) a = none ∨ Holds x.server a h
  | _ => True

/-! ## The history keys -/

theorem histoKey_ne_usersKey (k u : String) : histoKey k ≠ usersKey u :=
  ne_of_head (by simp [histoKey, usersKey])

theorem histoKey_ne_turnservers (k name : String) : histoKey k ≠ "turnservers:" ++ name :=
  ne_of_head (by simp [histoKey])

section Step

variable {md5 : String → String} {s s' : Server} {k : String} {h : Hash}

/-- The operations other than a deletion or a change of quotas leave the history alone. -/
theorem histo_frame {op : Op} {now : Nat} {db : Db} (hdb : op.db = 2) (hd : ∀ k, op ≠ .deleteCSP k)
    (hu : ∀ k a v d, op ≠ .updateCSPQuotas k a v d) :
    ∀ c ∈ op.cmds md5 now db, histoKey k ∉ c.writes := by
  have hp := histoKey_ne_provKey k
  have husers := histoKey_ne_usersKey k
  cases op with
  | registerCSP formDatas => simp [Op.cmds, registerCmds, Cmd.writes, consoKey_prov, hp]
  | registerUser csp user => simp [Op.cmds, Cmd.writes, husers]
  | getAppropriateTurn csp name date random => simp [Op.cmds, Cmd.writes, husers]
  | getCredentials clientId password => cases hdb
  | getAllCspInfo | getCSPInfos | getCSPConso | getTurnServers => simp [Op.cmds]
  | deleteCSP key => exact absurd rfl (hd key)
  | updateCSPQuotas key a v d => exact absurd rfl (hu key a v d)
  | addCSPConso t =>
    cases t with
    | none => simp [Op.cmds]
    | some t =>
      simp only [Op.cmds]
      split <;> simp [Cmd.writes, consoKey_prov, hp]

theorem holds_foreign {a : Env} (ha : Foreign a) (hh : Holds s (histoKey k) h) :
    Holds (a.act s) (histoKey k) h := by
  cases a with
  | tick secs => exact hh
  | client n c =>
    unfold Holds
    by_cases hn : n = 2
    · subst hn
      simp only [Env.act, Function.update_self]
      rw [execDb_frame]
      · exact hh
      · intro hk
        obtain ⟨name, hname⟩ := ha rfl _ hk
        exact histoKey_ne_turnservers k name hname
    · simp only [Env.act, Function.update_of_ne (Ne.symm hn)]
      exact hh

/-- A `RENAME` that does not overwrite an entry by another one. -/
theorem lookup_rename {now : Nat} {db : Db} {a b k : String} {e : Entry} (hka : k ≠ a)
    (hk : db.lookup k = some e) (hb : k = b → find now db a = none ∨ find now db a = some e) :
    (execDb now (.rename a b) db).1.lookup k = some e := by
  by_cases hkb : k = b
  · subst hkb
    rw [execDb_rename hka.symm]
    rcases hb rfl with hn | hs
    · simpa only [hn] using hk
    · simp only [hs, AList.lookup_insert]
  · rw [execDb_frame (by simp [Cmd.writes, hka, hkb])]
    exact hk

/-- The target of a `RENAME` holds what its source held. -/
theorem lookup_rename_target {now : Nat} {db : Db} {a b : String} {e : Entry} (hab : a ≠ b)
    (ha : find now db a = some e) : (execDb now (.rename a b) db).1.lookup b = some e := by
  simp only [execDb_rename hab, ha, AList.lookup_insert]

end Step

section Delete

variable {md5 : String → String} {s s' : Server} {csp : String} {h : Hash}

/-- The database after a deletion. -/
theorem dbs_delete (hst : Seq md5 s (.op (.deleteCSP (provKey csp))) s') : s'.dbs 2 =
    (execDb s.now (.rename (provKey csp) (histoKey (provKey csp)))
      (execDb s.now (.rename (consoKey (provKey csp)) (histoKey (consoKey (provKey csp))))
        (s.dbs 2)).1).1 := by
  obtain ⟨-, h⟩ := dbs_of_seq hst
  exact h

/-- The provisioning is still there after the first `RENAME` of a deletion. -/
theorem find_after_first : find s.now (execDb s.now (.rename (consoKey (provKey csp))
    (histoKey (consoKey (provKey csp)))) (s.dbs 2)).1 (provKey csp) =
      find s.now (s.dbs 2) (provKey csp) := by
  refine find_congr (execDb_frame ?_)
  simp [Cmd.writes, (consoKey_ne _).symm, (histoKey_ne_provKey _ csp).symm]

theorem find_of_holds {k : String} (hh : Holds s k h) :
    find s.now (s.dbs 2) k = some ⟨.hash h, none⟩ := by
  rw [find, hh]
  rfl

/-- A record that the deletion does not overwrite. -/
theorem holds_delete {k : String} (hst : Seq md5 s (.op (.deleteCSP (provKey csp))) s')
    (hh : Holds s (histoKey k) h)
    (hsp : ∀ a ∈ [consoKey (provKey csp), provKey csp], k = a →
      find s.now (s.dbs 2) a = none ∨ Holds s a h) : Holds s' (histoKey k) h := by
  have hp : ∀ x, histoKey k ≠ provKey x := histoKey_ne_provKey k
  rw [Holds, dbs_delete hst]
  refine lookup_rename (hp csp) (lookup_rename ?_ hh fun hk => ?_) fun hk => ?_
  · rw [consoKey_prov]
    exact hp _
  · rcases hsp _ List.mem_cons_self (histoKey_inj.mp hk) with hn | hs
    · exact .inl hn
    · exact .inr (find_of_holds hs)
  · rw [find_after_first]
    rcases hsp (provKey csp) (by simp) (histoKey_inj.mp hk) with hn | hs
    · exact .inl hn
    · exact .inr (find_of_holds hs)

/-- The record of the deleted CSP. -/
theorem holds_taken (hs : ProvOk (s.dbs 2)) (hst : Seq md5 s (.op (.deleteCSP (provKey csp))) s')
    (hr : recordOf s (provKey csp) = some h) : Holds s' (histoKey (consoKey (provKey csp))) h := by
  have hfind : find s.now (s.dbs 2) (consoKey (provKey csp)) = some ⟨.hash h, none⟩ := by
    unfold recordOf at hr
    rw [consoKey_prov, find_provKey hs] at hr ⊢
    cases hl : (s.dbs 2).lookup (provKey (conso csp)) with
    | none => simp [hl] at hr
    | some e =>
      obtain ⟨f, rfl⟩ := hs _ e hl
      simp only [hl, Option.some.injEq] at hr
      rw [hr]
  rw [Holds, dbs_delete hst]
  refine lookup_rename (histoKey_ne_provKey _ _) (lookup_rename_target (histoKey_ne _).symm hfind) fun hk => ?_
  exact absurd (histoKey_inj.mp hk) (consoKey_ne _)

end Delete

/-! ## Sequences -/

/-- **One step** keeps every record, if it spares them. -/
theorem kept_archived {md5 : String → String} {x x' : Archive} {e : SeqEvent}
    (h : Archived md5 x e x') (hl : Lifecycle x e) (hsp : Spares x e)
    (hs : ProvOk (x.server.dbs 2)) (hk : x.Kept) : x'.Kept := by
  obtain ⟨hst, hrec⟩ := h
  intro r hr
  rw [hrec] at hr
  cases e with
  | env a =>
    obtain ⟨k, hh⟩ := hk r hr
    refine ⟨k, ?_⟩
    rw [show x'.server = a.act x.server from hst]
    exact holds_foreign hl hh
  | op o =>
    by_cases hdel : ∃ k, o = .deleteCSP k
    · obtain ⟨k, rfl⟩ := hdel
      obtain ⟨csp, rfl⟩ := hl
      rcases List.mem_append.mp hr with hr | hr
      · exact ⟨_, holds_taken hs hst (Option.mem_toList.mp hr)⟩
      · obtain ⟨k, hh⟩ := hk r hr
        refine ⟨k, holds_delete hst hh fun a ha hka => ?_⟩
        exact hsp a ha r hr (hka ▸ hh)
    · have hold : r ∈ x.records := by
        cases o with
        | deleteCSP k => exact absurd ⟨k, rfl⟩ hdel
        | _ => exact hr
      obtain ⟨k, hh⟩ := hk r hold
      refine ⟨k, ?_⟩
      obtain ⟨-, hdb⟩ := dbs_of_seq hst
      rw [Holds, hdb]
      split
      · rename_i h2
        rw [runCmds_frame (histo_frame h2 (fun k hd => hdel ⟨k, hd⟩) ?_)]
        · exact hh
        · rintro k a v d rfl
          exact hl
      · exact hh

/-- **Deleting a CSP destroys no consumption history** in a sequence of operations that all spare it:
every consumption record, as it was when its CSP was deleted, is still stored under a history key. -/
theorem kept_of_spares (md5 : String → String) (s : Server) (x : Archive) (evs : List SeqEvent)
    (hs : ProvOk (s.dbs 2))
    (hrun : Steps (Archived md5) (fun y e => Lifecycle y e ∧ Spares y e) ⟨s, []⟩ evs x) : x.Kept := by
  refine (hrun.inv (I := fun y => ProvOk (y.server.dbs 2) ∧ y.Kept) (fun y e y' hi he hst => ?_)
    ⟨hs, nofun⟩).2
  refine ⟨provOk_step hst.1 (fun a ha => ?_) hi.1, kept_archived hst he.1 he.2 hi.1 hi.2⟩
  subst ha
  exact he.1

/-- The archive after an operation. -/
def Archive.next (x : Archive) (o : Op) : Archive :=
  ⟨o.after id x.server, taken x.server (.op o) ++ x.records⟩

theorem archived_next (x : Archive) (o : Op) : Archived id x (.op o) (x.next o) :=
  ⟨seq_after id o x.server, rfl⟩

/-- A server on which `u` is a user of `c`. -/
def withUser : Server := (Op.registerUser "c" "u").after id blank

/-- The archive after `c` was registered, sent 7 bytes and was deleted. -/
def firstLife : Archive := (((⟨withUser, []⟩ : Archive).next (.registerCSP (nameOnly "c"))).next
  (.addCSPConso (some ⟨"u", "7"⟩))).next (.deleteCSP "prov:c")

/-- What `c` consumed in its first life. -/
def firstRecord : Hash :=
  ((Finmap.singleton "audio" "0").insert "video" "0").insert "data" "7"

/-- A life of `c` in which it sends 7 bytes. -/
def lifeOfC : List SeqEvent :=
  [.op (.registerCSP (nameOnly "c")), .op (.addCSPConso (some ⟨"u", "7"⟩)), .op (.deleteCSP "prov:c")]

/-- A life of `d` without traffic. -/
def lifeOfD : List SeqEvent := [.op (.registerCSP (nameOnly "d")), .op (.deleteCSP "prov:d")]

/-- The archive after the first life of `c`, and one of `d`. -/
def otherLife : Archive := (firstLife.next (.registerCSP (nameOnly "d"))).next (.deleteCSP "prov:d")

/-- The archive after another life of `c`. -/
def secondLife : Archive :=
  ((otherLife.next (.registerCSP (nameOnly "c"))).next (.addCSPConso (some ⟨"u", "7"⟩))).next (.deleteCSP "prov:c")

/-- Three lives of two CSPs: the history key of `c` is written twice, and all records are kept. -/
theorem kept_secondLife : Steps (Archived id) (fun y e => Lifecycle y e ∧ Spares y e) ⟨withUser, []⟩
      (lifeOfC ++ lifeOfD ++ lifeOfC) secondLife ∧
    secondLife.records.length = 3 ∧ firstRecord ∈ secondLife.records ∧ secondLife.Kept := by
  have hs : ProvOk (withUser.dbs 2) :=
    provOk_step (seq_after id (.registerUser "c" "u") blank) nofun (provOk_empty rfl)
  have hc : Steps (Archived id) (fun y e => Lifecycle y e ∧ Spares y e) ⟨withUser, []⟩ lifeOfC firstLife :=
    .cons ⟨trivial, trivial⟩ (archived_next _ _) (.cons ⟨trivial, trivial⟩ (archived_next _ _)
      (.one ⟨⟨"c", rfl⟩, nofun⟩ (archived_next _ _)))
  -- There is a record now, under another key.
  have hd : Steps (Archived id) (fun y e => Lifecycle y e ∧ Spares y e) firstLife lifeOfD otherLife := by
    refine .cons ⟨trivial, trivial⟩ (archived_next _ _) (.one ⟨⟨"d", rfl⟩, ?_⟩ (archived_next _ _))
    unfold Spares
    decide +kernel
  -- The same record, under the key that is written to.
  have hc' : Steps (Archived id) (fun y e => Lifecycle y e ∧ Spares y e) otherLife lifeOfC secondLife := by
    refine .cons ⟨trivial, trivial⟩ (archived_next _ _) (.cons ⟨trivial, trivial⟩ (archived_next _ _)
      (.one ⟨⟨"c", rfl⟩, ?_⟩ (archived_next _ _)))
    unfold Spares
    decide +kernel
  have hrun := (hc.append hd).append hc'
  exact ⟨hrun, by decide +kernel, by decide +kernel, kept_of_spares id withUser secondLife _ hs hrun⟩

/-- A second life of `c` with other traffic overwrites the record of the first. -/
theorem second_life_forgets : ∃ x, Steps (Archived id) Lifecycle ⟨withUser, []⟩
    [.op (.registerCSP (nameOnly "c")), .op (.addCSPConso (some ⟨"u", "7"⟩)),
     .op (.deleteCSP "prov:c"), .op (.registerCSP (nameOnly "c")),
     .op (.addCSPConso (some ⟨"u", "9"⟩)), .op (.deleteCSP "prov:c")] x ∧ ¬ x.Kept := by
  let x : Archive := ((firstLife.next (.registerCSP (nameOnly "c"))).next
    (.addCSPConso (some ⟨"u", "9"⟩))).next (.deleteCSP "prov:c")
  refine ⟨x, .cons trivial (archived_next _ _) (.cons trivial (archived_next _ _)
    (.cons ⟨"c", rfl⟩ (archived_next _ _) (.cons trivial (archived_next _ _)
      (.cons trivial (archived_next _ _) (.one ⟨"c", rfl⟩ (archived_next _ _)))))), fun hk => ?_⟩
  obtain ⟨k, hh⟩ := hk firstRecord (by decide +kernel)
  -- No entry of the database is the first record.
  have hnone : ∀ p ∈ (x.server.dbs 2).entries, p.2 ≠ ⟨.hash firstRecord, none⟩ := by decide +kernel
  exact hnone _ (AList.mem_lookup_iff.mp hh) rfl

end Broker
end QosSupport
