import QosSupport.Broker.Users

/-!
# A CSP that is registered again

`registerCSP` writes its seven fields with `HSETNX`, one command each, and the commands of other
operations may come between them.

* `Concurrent`: what comes between: `HINCRBY` of `addCSPConso`, `HMSET` of `updateCSPQuotas`, or `HSETNX`
  of one more registration.
* `reregistration_keeps`: a field that has a value ends with the value it would have without the
  registration, in every interleaving. A second registration of a CSP changes nothing at all.

The new value of a field that has one depends on nothing but this value (`field_updated`), and `HSETNX`
keeps it. So the `HSETNX` commands may be left out of the interleaving.
-/

namespace QosSupport
namespace Broker

open Redis EventLoop Run

/-- The operations that write fields of CSPs. -/
def WritesCSP : Op → Prop
  | .registerCSP _ | .updateCSPQuotas _ _ _ _ | .addCSPConso _ => True
  | _ => False

/-- A command with which one of these operations, in some state, changes the database. -/
def Concurrent (md5 : String → String) (c : Cmd) : Prop :=
  ∃ op now db, WritesCSP op ∧ c ∈ op.cmds md5 now db

theorem registerCmds_eq (formDatas : FormDatas) : registerCmds formDatas =
    (registerFields formDatas).map fun x => .hsetnx x.1 x.2.1 x.2.2 := rfl

/-- **Only fields are written**, each by its own value. -/
theorem writesFields_of_concurrent {md5 : String → String} {c : Cmd} (h : Concurrent md5 c) :
    c.WritesFields := by
  obtain ⟨op, now, db, hop, hc⟩ := h
  cases op with
  | registerCSP formDatas =>
    rw [Op.cmds, registerCmds_eq] at hc
    obtain ⟨x, -, rfl⟩ := List.mem_map.mp hc
    trivial
  | updateCSPQuotas k a v d =>
    obtain rfl := List.mem_singleton.mp hc
    trivial
  | addCSPConso t =>
    cases t with
    | none => cases hc
    | some t =>
      simp only [Op.cmds] at hc
      split at hc
      · obtain rfl := List.mem_singleton.mp hc
        trivial
      · cases hc
  | _ => exact hop.elim

/-- A registration keeps the value of a field that has one. -/
theorem updated_register {formDatas : FormDatas} {c : Cmd} (hc : c ∈ registerCmds formDatas)
    (k f v : String) : c.updated k f v = v := by
  rw [registerCmds_eq] at hc
  obtain ⟨x, -, rfl⟩ := List.mem_map.mp hc
  rfl

/-- **The registration may be left out** of every interleaving, for the fields that have a value. -/
theorem field_interleaved {md5 : String → String} {formDatas : FormDatas} {others cs : List Cmd}
    (ho : ∀ c ∈ others, Concurrent md5 c) (hi : Interleaves (registerCmds formDatas) others cs)
    {now : Nat} {db : Db} {k f v : String} (hv : field now db k f = some v) :
    field now (runCmds now cs db) k f = field now (runCmds now others db) k f := by
  have hcs : ∀ c ∈ cs, c.WritesFields := by
    intro c hc
    rcases hi.mem hc with hc | hc
    · have hop : Concurrent md5 c := ⟨.registerCSP formDatas, now, db, trivial, hc⟩
      exact writesFields_of_concurrent hop
    · exact writesFields_of_concurrent (ho c hc)
  have hothers : ∀ c ∈ others, c.WritesFields := fun c hc => writesFields_of_concurrent (ho c hc)
  rw [field_runCmds hcs hv, field_runCmds hothers hv,
    hi.foldl_eq fun c hc v => updated_register hc k f v]

/-- After a registration, each of its fields has a value (or the key holds a string). -/
theorem taken_register {formDatas : FormDatas} (now : Nat) (db : Db) {x : String × String × String}
    (hx : x ∈ registerFields formDatas) :
    Taken now (runCmds now (registerCmds formDatas) db) x.1 x.2.1 := by
  rw [registerCmds_eq]
  exact taken_setnxAll (.inr ⟨x, hx, rfl, rfl⟩)

/-- The fields of a registration depend on the name of the CSP only. -/
theorem taken_again {formDatas formDatas' : FormDatas} (now : Nat) (db : Db)
    (hname : text formDatas'.servicename = text formDatas.servicename) :
    ∀ x ∈ registerFields formDatas',
      Taken now (runCmds now (registerCmds formDatas) db) x.1 x.2.1 := by
  have hsame : (registerFields formDatas').map (fun x => (x.1, x.2.1)) =
      (registerFields formDatas).map fun x => (x.1, x.2.1) := by
    simp [registerFields, hname]
  intro x hx
  have hmem : (x.1, x.2.1) ∈ (registerFields formDatas).map fun x => (x.1, x.2.1) := by
    rw [← hsame]
    exact List.mem_map_of_mem hx
  obtain ⟨y, hy, heq⟩ := List.mem_map.mp hmem
  have ht := taken_register now db hy
  rwa [(Prod.mk.inj heq).1, (Prod.mk.inj heq).2] at ht

/-- **Registering a CSP again** never changes what is there. With database `2` selected, whatever comes
between the commands of the registration, a field that has a value ends with the value it would have
without the registration. And if a CSP is registered twice, the second registration, with whatever form
data, leaves the contents of the database as they were. -/
theorem reregistration_keeps (md5 : String → String) (formDatas formDatas' : FormDatas)
    (hname : text formDatas'.servicename = text formDatas.servicename) (s : Server) :
    (s.selected = 2 → ∀ others cs, (∀ c ∈ others, Concurrent md5 c) →
      Interleaves (registerCmds formDatas') others cs → ∀ k f v,
        field s.now (s.dbs 2) k f = some v →
          field s.now ((within cs s).dbs 2) k f = field s.now ((within others s).dbs 2) k f) ∧
    ∀ s₁ s₂ l₁ l₂, (dao md5).Completes (.registerCSP formDatas) s s₁ l₁ →
      (dao md5).Completes (.registerCSP formDatas') s₁ s₂ l₂ → SameContents s₁ s₂ := by
  constructor
  · intro hs others cs ho hi k f v hv
    have hdb (cs : List Cmd) : (within cs s).dbs 2 = runCmds s.now cs (s.dbs 2) := by
      simp [within, hs]
    rw [hdb, hdb]
    exact field_interleaved ho hi hv
  · intro s₁ s₂ l₁ l₂ h₁ h₂ k
    rw [server_of_completes h₂, after_dbs s₁ rfl, after_now]
    refine find_setnxAll_taken (l := registerFields formDatas') (fun x hx => ?_) k
    rw [server_of_completes h₁, after_dbs s rfl]
    exact taken_again s.now (s.dbs 2) hname x hx

/-- The CSP `c` is registered, and charged while it is registered again with a quota: its data
consumption goes from `0` to `7`, and it keeps its quotas. -/
theorem reregistration_keeps_charge : ∃ (s : Server) (cs : List Cmd),
    s.selected = 2 ∧ field s.now (s.dbs 2) "prov:c:conso" "data" = some "0" ∧
    Interleaves (registerCmds { nameOnly "c" with qdata := some "5" })
      [.hincrby "prov:c:conso" "data" "7"] cs ∧
    field s.now ((within cs s).dbs 2) "prov:c:conso" "data" =
      field s.now ((within [.hincrby "prov:c:conso" "data" "7"] s).dbs 2) "prov:c:conso" "data" ∧
    field s.now ((within [.hincrby "prov:c:conso" "data" "7"] s).dbs 2) "prov:c:conso" "data" =
      some "7" ∧
    ∀ s₁ s₂ l₁ l₂, (dao id).Completes (.registerCSP (nameOnly "c")) s s₁ l₁ →
      (dao id).Completes (.registerCSP { nameOnly "c" with qdata := some "5" }) s₁ s₂ l₂ →
        SameContents s₁ s₂ := by
  have hi : ∃ cs, Interleaves (registerCmds { nameOnly "c" with qdata := some "5" })
      [.hincrby "prov:c:conso" "data" "7"] cs :=
    ⟨_, .first (.first (.first (.first (.first (.first (.second (.first .nil)))))))⟩
  obtain ⟨cs, hi⟩ := hi
  have ho : ∀ c ∈ [Cmd.hincrby "prov:c:conso" "data" "7"], Concurrent id c := by
    intro c hc
    exact ⟨.addCSPConso (some ⟨"u", "7"⟩), 0, ((Op.registerUser "c" "u").after id blank).dbs 2, trivial,
      by rw [List.mem_singleton.mp hc]; decide +kernel⟩
  have h := reregistration_keeps id (nameOnly "c") { nameOnly "c" with qdata := some "5" } rfl
    ((Op.registerCSP (nameOnly "c")).after id blank)
  refine ⟨_, cs, rfl, by decide +kernel, hi, h.1 rfl _ _ ho hi _ _ "0" (by decide +kernel), ?_, h.2⟩
  decide +kernel

end Broker
end QosSupport
