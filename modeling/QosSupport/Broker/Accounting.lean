import Mathlib.Algebra.Order.BigOperators.Group.List
import QosSupport.Broker.Keys

/-!
# Charging traffic to a CSP

`addCSPConso` looks up the CSP of the user of a traffic report (`GET users:u`) and adds the sent bytes
to its consumption (`HINCRBY prov:c:conso data n`).

* `chargesOwner_iff`: alone, it changes at most the consumption of the user's own CSP, and nothing for
  a user without an entry, exactly if the user has an entry or the increment of `prov:null:conso`
  has no effect: a missing reply is the text `null`.
* `accounted_of_calls`: many calls at the same time, in every interleaving, add up: no update is lost.
  The invariant (`Ledger`): what is stored for a CSP and what the calls under way still owe it is
  the initial value and the bytes of all calls started.
-/

namespace QosSupport
namespace Broker

open Redis EventLoop Run

/-- The key of the consumption of a CSP. -/
def consoOf (csp : String) : String := consoKey (provKey csp)

/-- The data consumption of a CSP: zero if the field is missing, `none` if it is not an integer. -/
def consumption (now : Nat) (db : Db) (csp : String) : Option Int :=
  match field now db (consoOf csp) "data" with
  | none => some 0
  | some v => getLongLong v

/-! ## One call alone -/

/-- All keys of database `2` are as before. -/
def SameKeys (s s' : Server) : Prop :=
  ∀ k, find s'.now (s'.dbs 2) k = find s.now (s.dbs 2) k

/-- From `s` to `s'`, at most the `data` field of the consumption of `csp` changes, and it grows by
the sent bytes. -/
structure ChargedTo (csp : String) (t : TrafficRecord) (s s' : Server) : Prop where
  others : ∀ k ≠ consoOf csp, find s'.now (s'.dbs 2) k = find s.now (s.dbs 2) k
  owned : find s'.now (s'.dbs 2) (consoOf csp) = find s.now (s.dbs 2) (consoOf csp) ∨
    ∃ n v, getLongLong t.sent_bytes = some n ∧ consumption s.now (s.dbs 2) csp = some v ∧
      find s'.now (s'.dbs 2) (consoOf csp) = some ⟨.hash ((fieldsAt s.now (s.dbs 2) (consoOf csp)).insert
        "data" (toString (v + n))), expiry s.now (s.dbs 2) (consoOf csp)⟩

/-- From `s` to `s'`, a traffic report is charged to the CSP of its user, and to nobody if the user
has no entry. -/
structure ChargesOwner (t : TrafficRecord) (s s' : Server) : Prop where
  owner : ∀ csp e, find s.now (s.dbs 2) (usersKey t.user) = some ⟨.str csp, e⟩ → ChargedTo csp t s s'
  nobody : (∀ csp e, find s.now (s.dbs 2) (usersKey t.user) ≠ some ⟨.str csp, e⟩) → SameKeys s s'

/-- The increment that a missing user leads to has no effect: it is refused, or adds zero to a field
that is there, in the decimal notation that Redis writes. -/
def NullUnchanged (t : TrafficRecord) (s : Server) : Prop :=
  ¬ IsHash s.now (s.dbs 2) (consoOf "null") ∨
  incremented (field s.now (s.dbs 2) (consoOf "null") "data") t.sent_bytes = none ∨
  (getLongLong t.sent_bytes = some 0 ∧
    ∃ v : Int, field s.now (s.dbs 2) (consoOf "null") "data" = some (toString v))

section Alone

variable {now : Nat} {db : Db} {csp : String} {t : TrafficRecord} {s : Server}

theorem incremented_eq {n : Int} (hn : getLongLong t.sent_bytes = some n) {v : Int}
    (h : incremented (field now db (consoOf csp) "data") t.sent_bytes = some v) :
    ∃ w, consumption now db csp = some w ∧ v = w + n := by
  simp only [incremented, hn, Option.bind_some] at h
  unfold consumption
  cases hf : field now db (consoOf csp) "data" with
  | none =>
    simp only [hf, Option.some.injEq] at h
    exact ⟨0, rfl, by omega⟩
  | some d =>
    simp only [hf, Option.bind_eq_some_iff] at h
    obtain ⟨w, hw, h⟩ := h
    split at h
    · exact ⟨w, hw, by simpa using h.symm⟩
    · cases h

/-- The increment of a consumption. -/
def charge (csp : String) (t : TrafficRecord) : Cmd := .hincrby (consoOf csp) "data" t.sent_bytes

/-- What the increment does: nothing, if it is refused. -/
theorem charge_cases (now : Nat) (db : Db) (csp : String) (t : TrafficRecord) :
    (execDb now (charge csp t) db).1 = db ∨
    ∃ n v, getLongLong t.sent_bytes = some n ∧ consumption now db csp = some v ∧
      (execDb now (charge csp t) db).1 = db.insert (consoOf csp)
        ⟨.hash ((fieldsAt now db (consoOf csp)).insert "data" (toString (v + n))),
          expiry now db (consoOf csp)⟩ := by
  by_cases hk : IsHash now db (consoOf csp)
  · cases hv : incremented (field now db (consoOf csp) "data") t.sent_bytes with
    | none => exact .inl (hincrby_refused hk hv)
    | some v =>
      cases hn : getLongLong t.sent_bytes with
      | none => simp [incremented, hn] at hv
      | some n =>
        obtain ⟨w, hw, rfl⟩ := incremented_eq hn hv
        exact .inr ⟨n, w, rfl, hw, hincrby_done hk hv⟩
  · exact .inl (hincrby_string hk)

theorem chargedTo_of_cmds (md5 : String → String)
    (h : (Op.addCSPConso (some t)).cmds md5 s.now (s.dbs 2) = [charge csp t]) :
    ChargedTo csp t s ((Op.addCSPConso (some t)).after md5 s) := by
  have hdb : ((Op.addCSPConso (some t)).after md5 s).dbs 2 =
      (execDb s.now (charge csp t) (s.dbs 2)).1 := by
    rw [after_dbs s rfl, h]
    rfl
  refine ⟨fun k hk => ?_, ?_⟩
  · rw [hdb, after_now]
    exact find_congr (execDb_frame (by simpa [charge, Cmd.writes] using hk))
  · rw [hdb, after_now]
    rcases charge_cases s.now (s.dbs 2) csp t with h | ⟨n, v, hn, hv, h⟩
    · exact .inl (by rw [h])
    · exact .inr ⟨n, v, hn, hv, by rw [h, find_insert_expiry]⟩

/-- Adding zero to a decimal text changes nothing. -/
theorem find_charge_zero (h0 : getLongLong t.sent_bytes = some 0) {w : Int}
    (hd : field now db (consoOf csp) "data" = some (toString w)) :
    find now (execDb now (charge csp t) db).1 (consoOf csp) = find now db (consoOf csp) := by
  rcases charge_cases now db csp t with h | ⟨n, v, hn, hv, h⟩
  · rw [h]
  · obtain rfl : n = 0 := by simpa [h0] using hn.symm
    obtain rfl : w = v := by
      simp only [consumption, hd, getLongLong_toString] at hv
      split at hv
      · exact Option.some.inj hv
      · cases hv
    have hsame : (fieldsAt now db (consoOf csp)).insert "data" (toString (w + 0)) =
        fieldsAt now db (consoOf csp) := by
      refine Finmap.ext_lookup fun f => ?_
      by_cases hff : f = "data"
      · subst hff
        rw [Finmap.lookup_insert, Int.add_zero]
        exact hd.symm
      · rw [Finmap.lookup_insert_of_ne _ hff]
    rw [h, find_insert_expiry, hsame]
    -- A field is there, so the entry is.
    unfold field at hd
    unfold fieldsAt expiry at *
    rcases hfind : find now db (consoOf csp) with _ | ⟨_ | h', e⟩
    · simp [hfind] at hd
    · simp [hfind] at hd
    · simp

theorem cmds_missing (md5 : String → String) (h : find s.now (s.dbs 2) (usersKey t.user) = none) :
    (Op.addCSPConso (some t)).cmds md5 s.now (s.dbs 2) = [charge "null" t] := by
  simp [Op.cmds, chargedCSP, h, charge, consoOf]

theorem sameKeys_of_null (md5 : String → String)
    (h : find s.now (s.dbs 2) (usersKey t.user) = none) (hn : NullUnchanged t s) :
    SameKeys s ((Op.addCSPConso (some t)).after md5 s) := by
  intro k
  have hdb : ((Op.addCSPConso (some t)).after md5 s).dbs 2 =
      (execDb s.now (charge "null" t) (s.dbs 2)).1 := by
    rw [after_dbs s rfl, cmds_missing md5 h]
    rfl
  rw [hdb, after_now]
  rcases hn with hk | hr | ⟨h0, w, hf⟩
  · rw [charge, hincrby_string hk]
  · by_cases hk : IsHash s.now (s.dbs 2) (consoOf "null")
    · rw [charge, hincrby_refused hk hr]
    · rw [charge, hincrby_string hk]
  · by_cases hk : k = consoOf "null"
    · rw [hk]
      exact find_charge_zero h0 hf
    · exact find_congr (execDb_frame (by simpa [charge, Cmd.writes] using hk))

theorem null_of_sameKeys (md5 : String → String)
    (h : find s.now (s.dbs 2) (usersKey t.user) = none)
    (hs : SameKeys s ((Op.addCSPConso (some t)).after md5 s)) : NullUnchanged t s := by
  have hs := hs (consoOf "null")
  rw [after_dbs s rfl, cmds_missing md5 h, after_now] at hs
  by_cases hk : IsHash s.now (s.dbs 2) (consoOf "null")
  · cases hv : incremented (field s.now (s.dbs 2) (consoOf "null") "data") t.sent_bytes with
    | none => exact .inr (.inl hv)
    | some v =>
      refine .inr (.inr ?_)
      have hnew : find s.now (s.dbs 2) (consoOf "null") = some ⟨.hash
          ((fieldsAt s.now (s.dbs 2) (consoOf "null")).insert "data" (toString v)),
          expiry s.now (s.dbs 2) (consoOf "null")⟩ := by
        rw [← hs, ← find_insert_expiry, ← hincrby_done hk hv]
        rfl
      have hfield : field s.now (s.dbs 2) (consoOf "null") "data" = some (toString v) := by
        rw [field_of_find hnew, Finmap.lookup_insert]
      cases hn : getLongLong t.sent_bytes with
      | none => simp [incremented, hn] at hv
      | some n =>
        -- The stored text is already the new value, so the increment is zero.
        obtain ⟨w, hw, rfl⟩ := incremented_eq hn hv
        simp only [consumption, hfield] at hw
        rw [getLongLong_toString] at hw
        split at hw
        · simp only [Option.some.injEq] at hw
          exact ⟨by rw [show n = 0 by omega], w + n, hfield⟩
        · cases hw
  · exact .inl hk

end Alone

/-- **Traffic is charged to the owner only**, exactly if the user has an entry or the increment for a
missing one has no effect. -/
theorem chargesOwner_iff (md5 : String → String) (t : TrafficRecord) (s : Server) :
    (∀ s' l, (dao md5).Completes (.addCSPConso (some t)) s s' l → ChargesOwner t s s') ↔
      find s.now (s.dbs 2) (usersKey t.user) ≠ none ∨ NullUnchanged t s := by
  constructor
  · intro h
    by_cases hu : find s.now (s.dbs 2) (usersKey t.user) = none
    · obtain ⟨s', l, hrun⟩ := Client.exists_completes (dao md5) (.addCSPConso (some t)) s
      have hown := h s' l hrun
      obtain rfl := server_of_completes hrun
      exact .inr (null_of_sameKeys md5 hu (hown.nobody (by simp [hu])))
    · exact .inl hu
  · intro h s' l hrun
    obtain rfl := server_of_completes hrun
    refine ⟨fun csp e hf => chargedTo_of_cmds md5 ?_, fun hno => ?_⟩
    · simp [Op.cmds, chargedCSP, hf, charge, consoOf]
    · rcases hf : find s.now (s.dbs 2) (usersKey t.user) with _ | ⟨csp | fs, e⟩
      · exact sameKeys_of_null md5 hf (h.resolve_left fun h => h hf)
      · exact absurd hf (hno csp e)
      · intro k
        rw [after_dbs s rfl, after_now]
        simp [Op.cmds, chargedCSP, hf, runCmds]

/-- On an empty database, the bytes of an unknown user create `prov:null:conso`. -/
theorem unknown_user_charges_null :
    ∃ s' l, (dao id).Completes (.addCSPConso (some ⟨"u", "7"⟩)) blank s' l ∧
      field 0 (s'.dbs 2) "prov:null:conso" "data" = some "7" ∧
      ¬ ChargesOwner ⟨"u", "7"⟩ blank s' := by
  obtain ⟨s', l, hrun⟩ := Client.exists_completes (dao id) (.addCSPConso (some ⟨"u", "7"⟩)) blank
  obtain rfl := server_of_completes hrun
  refine ⟨_, l, hrun, rfl, fun h => ?_⟩
  have hsame := h.nobody (fun csp e => by simp [blank, find]) "prov:null:conso"
  exact absurd (congrArg Option.isSome hsame) (by decide)

/-! ## Many calls at the same time -/

section Ledger

variable (owner : String → String) (records : List TrafficRecord)

/-- The call for a traffic report. -/
def callOf (t : TrafficRecord) : Op := .addCSPConso (some t)

/-- The bytes that a call adds to the consumption of `csp`. -/
def due (csp : String) : Op → Int
  | .addCSPConso (some t) => if owner t.user = csp then (getLongLong t.sent_bytes).getD 0 else 0
  | _ => 0

/-- The bytes of the operation with id `i`. -/
def dueOf (csp : String) (ops : List Op) (i : Nat) : Int := (ops[i]?.map (due owner csp)).getD 0

/-- A callback that issues no command owes nothing any more. -/
def owed (csp : String) (ops : List Op) (x : Nat × P) : Int :=
  if (x.2.issue .init).1.isEmpty then 0 else dueOf owner csp ops x.1

/-- What the calls under way still owe a CSP. -/
def pending (csp : String) (σ : DaoSys) : Int :=
  (σ.pipe.map fun p => dueOf owner csp σ.ops p.op).sum + (σ.ready.map (owed owner csp σ.ops)).sum

/-- The bytes of all calls started. -/
def startedBytes (csp : String) (σ : DaoSys) : Int := (σ.ops.map (due owner csp)).sum

/-- The CSPs of the users of the reports. -/
def Charged (csp : String) : Prop := ∃ t ∈ records, owner t.user = csp

/-- The keys that the calls read and write. -/
def Involved (k : String) : Prop :=
  (∃ t ∈ records, k = usersKey t.user) ∨ ∃ csp, k = consoOf csp

/-- The steps considered: calls for the given reports start, commands are executed and callbacks run
in any order; what else happens to the server leaves the keys of the calls alone. -/
def OnlyCalls (σ : DaoSys) : Event Op Env → Prop
  | .start op => (σ.ops ++ [op]).Subperm (records.map callOf)
  | .exec | .run _ => True
  | .env a => ∀ k, Involved records k →
      find (a.act σ.server).now ((a.act σ.server).dbs 2) k = find σ.server.now (σ.server.dbs 2) k

/-- The continuation of a call after its `SELECT`. -/
def lookupUser (t : TrafficRecord) : P := .call (.get (usersKey t.user)) (gotUser t) .done

/-- A command of a call. -/
def CallCmd (t : TrafficRecord) (c : Cmd) (cb : Option (Reply → P)) : Prop :=
  (c = .select 2 ∧ cb = some (thenOk (lookupUser t))) ∨
  (c = .get (usersKey t.user) ∧ cb = some (gotUser t)) ∨
  (c = charge (owner t.user) t ∧ cb = some settleReply)

/-- A callback of a call. -/
def CallTurn (t : TrafficRecord) (j : P) : Prop :=
  j = lookupUser t ∨ j = chargeCSP t (owner t.user) ∨ ∃ r, j = settleReply r

/-- The reports and the initial state `s` that are considered. -/
structure Setup (s : Server) : Prop where
  selected : s.selected = 2
  users : ∀ t ∈ records, ∃ e, find s.now (s.dbs 2) (usersKey t.user) = some ⟨.str (owner t.user), e⟩
  /-- For a report that was parsed, that is, for digits: their value is below `2 ^ 63`. -/
  bytes : ∀ t ∈ records, ∃ n : Nat, getLongLong t.sent_bytes = some (n : Int)
  hash : ∀ csp, Charged owner records csp → IsHash s.now (s.dbs 2) (consoOf csp)
  total : ∀ csp, Charged owner records csp → ∃ v : Nat, consumption s.now (s.dbs 2) csp = some (v : Int) ∧
    v + ((records.map callOf).map (due owner csp)).sum < 2 ^ 63

/-- The consumptions are as if all calls had run one after the other. -/
def Accounted (s s' : Server) : Prop :=
  (∀ csp, Charged owner records csp → ∃ v, consumption s.now (s.dbs 2) csp = some v ∧
    consumption s'.now (s'.dbs 2) csp = some (v + ((records.map callOf).map (due owner csp)).sum)) ∧
  ∀ csp, ¬ Charged owner records csp →
    find s'.now (s'.dbs 2) (consoOf csp) = find s.now (s.dbs 2) (consoOf csp)

/-- The invariant (module doc). -/
structure Ledger (s : Server) (σ : DaoSys) : Prop where
  selected : σ.server.selected = 2
  users : ∀ t ∈ records, ∃ e,
    find σ.server.now (σ.server.dbs 2) (usersKey t.user) = some ⟨.str (owner t.user), e⟩
  started : σ.ops.Subperm (records.map callOf)
  pipe : ∀ p ∈ σ.pipe, ∃ t ∈ records, σ.ops[p.op]? = some (callOf t) ∧ CallCmd owner t p.cmd p.cb
  ready : ∀ x ∈ σ.ready, ∃ t ∈ records, σ.ops[x.1]? = some (callOf t) ∧ CallTurn owner t x.2
  sum : ∀ csp, Charged owner records csp → IsHash σ.server.now (σ.server.dbs 2) (consoOf csp) ∧
    ∃ v v₀ : Int, consumption σ.server.now (σ.server.dbs 2) csp = some v ∧ 0 ≤ v ∧
      consumption s.now (s.dbs 2) csp = some v₀ ∧
      v + pending owner csp σ = v₀ + startedBytes owner csp σ
  others : ∀ csp, ¬ Charged owner records csp →
    find σ.server.now (σ.server.dbs 2) (consoOf csp) = find s.now (s.dbs 2) (consoOf csp)

variable {owner records}

/-! ### Sums -/

theorem consoOf_inj {a b : String} : consoOf a = consoOf b ↔ a = b := by
  rw [consoOf, consoOf, consoKey_inj, provKey_inj]

theorem dueOf_of_some {csp : String} {ops : List Op} {i : Nat} {t : TrafficRecord}
    (h : ops[i]? = some (callOf t)) : dueOf owner csp ops i = due owner csp (callOf t) := by
  simp [dueOf, h]

theorem due_nonneg {s : Server} (hs : Setup owner records s) {csp : String} {t : TrafficRecord}
    (ht : t ∈ records) : 0 ≤ due owner csp (callOf t) := by
  obtain ⟨n, hn⟩ := hs.bytes t ht
  simp only [due, callOf, hn, Option.getD_some]
  split
  · exact Int.natCast_nonneg n
  · exact le_refl 0

/-- The sum over calls that were started is at most the sum over all reports. -/
theorem sum_due_le {s : Server} (hs : Setup owner records s) {csp : String} {ops : List Op}
    (h : ops.Subperm (records.map callOf)) :
    (ops.map (due owner csp)).sum ≤ ((records.map callOf).map (due owner csp)).sum := by
  obtain ⟨l, hl, hsub⟩ := h
  rw [← (hl.map (due owner csp)).sum_eq]
  refine (hsub.map _).sum_le_sum ?_
  simp only [List.map_map, List.mem_map, Function.comp]
  rintro _ ⟨t, ht, rfl⟩
  exact due_nonneg hs ht

theorem pending_turn (csp : String) (σ : DaoSys) (o : Nat) (j : P) :
    pending owner csp (σ.turn o j) = pending owner csp σ +
      ((j.issue (σ.vars o)).1.map fun _ => dueOf owner csp σ.ops o).sum := by
  simp only [pending, Sys.turn, List.map_append, List.map_map, List.sum_append, Function.comp_def]
  ring

theorem pending_ready {csp : String} {σ : DaoSys} {a b : List (Nat × P)} {x : Nat × P}
    (h : σ.ready = a ++ x :: b) :
    pending owner csp σ = pending owner csp { σ with ready := a ++ b } + owed owner csp σ.ops x := by
  simp only [pending, h, List.map_append, List.map_cons, List.sum_append, List.sum_cons]
  ring

theorem pending_execute (owner md5 : String → String) (csp : String) {σ : DaoSys} {o : Nat}
    {c : Cmd} {cb : Reply → P} {rest : List (Pending Cmd Reply Locals)}
    (hp : σ.pipe = ⟨o, c, some cb⟩ :: rest) :
    pending owner csp ((dao md5).execute σ ⟨o, c, some cb⟩ rest) + dueOf owner csp σ.ops o =
      pending owner csp σ + owed owner csp σ.ops (o, cb (exec c σ.server).2) := by
  simp only [pending, Client.execute, hp, List.map_append, List.map_cons, List.sum_append,
    List.sum_cons, List.map_nil, List.sum_nil, dao]
  ring

theorem owed_lookupUser (csp : String) (ops : List Op) (o : Nat) (t : TrafficRecord) :
    owed owner csp ops (o, lookupUser t) = dueOf owner csp ops o := rfl

theorem owed_chargeCSP (csp : String) (ops : List Op) (o : Nat) (t : TrafficRecord) (c : String) :
    owed owner csp ops (o, chargeCSP t c) = dueOf owner csp ops o := rfl

theorem owed_settleReply (csp : String) (ops : List Op) (o : Nat) (r : Reply) :
    owed owner csp ops (o, settleReply r) = 0 := by
  cases r <;> rfl

/-! ### One step -/

theorem consumption_congr {now now' : Nat} {db db' : Db} {csp : String}
    (h : find now' db' (consoOf csp) = find now db (consoOf csp)) :
    consumption now' db' csp = consumption now db csp := by
  simp only [consumption, field, fieldsAt, h]

theorem usersKey_ne_consoOf (u csp : String) : usersKey u ≠ consoOf csp := by
  rw [consoOf, consoKey_provKey]
  exact usersKey_ne_provKey u _

/-- The increment adds the bytes, as long as the sum is in range. -/
theorem consumption_charge {now : Nat} {db : Db} {csp : String} {t : TrafficRecord} {v n : Int}
    (hk : IsHash now db (consoOf csp)) (hv : consumption now db csp = some v)
    (hn : getLongLong t.sent_bytes = some n) (hr : -2 ^ 63 ≤ v + n ∧ v + n < 2 ^ 63) :
    IsHash now (execDb now (charge csp t) db).1 (consoOf csp) ∧
      consumption now (execDb now (charge csp t) db).1 csp = some (v + n) := by
  have hi : incremented (field now db (consoOf csp) "data") t.sent_bytes = some (v + n) := by
    unfold consumption at hv
    simp only [incremented, hn, Option.bind_some]
    cases hf : field now db (consoOf csp) "data" with
    | none =>
      simp only [hf, Option.some.injEq] at hv
      rw [← hv, Int.zero_add]
    | some d =>
      simp only [hf] at hv
      simp only [hv, Option.bind_some, if_pos hr]
  constructor
  · rw [charge, hincrby_done hk hi]
    intro e he
    rw [find_insert_expiry] at he
    cases he
    exact ⟨_, rfl⟩
  · simp only [consumption, charge, field_hincrby_self hk, hi, getLongLong_toString, if_pos hr]

/-- What all steps but the increments do: nothing to the keys of the calls, and what is owed stays. -/
theorem ledger_same {s : Server} {σ σ' : DaoSys} (hl : Ledger owner records s σ)
    (hsel : σ'.server.selected = 2)
    (hfind : ∀ k, Involved records k →
      find σ'.server.now (σ'.server.dbs 2) k = find σ.server.now (σ.server.dbs 2) k)
    (hstarted : σ'.ops.Subperm (records.map callOf))
    (hpipe : ∀ p ∈ σ'.pipe, ∃ t ∈ records, σ'.ops[p.op]? = some (callOf t) ∧
      CallCmd owner t p.cmd p.cb)
    (hready : ∀ x ∈ σ'.ready, ∃ t ∈ records, σ'.ops[x.1]? = some (callOf t) ∧ CallTurn owner t x.2)
    (hpend : ∀ csp, pending owner csp σ' + startedBytes owner csp σ =
      pending owner csp σ + startedBytes owner csp σ') : Ledger owner records s σ' := by
  refine ⟨hsel, fun t ht => ?_, hstarted, hpipe, hready, fun csp hc => ?_, fun csp hc => ?_⟩
  · rw [hfind _ (.inl ⟨t, ht, rfl⟩)]
    exact hl.users t ht
  · obtain ⟨hk, v, v₀, hv, h0, hv₀, hsum⟩ := hl.sum csp hc
    have hf := hfind (consoOf csp) (.inr ⟨csp, rfl⟩)
    refine ⟨?_, v, v₀, by rw [consumption_congr hf]; exact hv, h0, hv₀, ?_⟩
    · rwa [IsHash, hf]
    · have := hpend csp
      omega
  · rw [hfind _ (.inr ⟨csp, rfl⟩)]
    exact hl.others csp hc

/-- A call starts. -/
theorem ledger_start {md5 : String → String} {s : Server} {σ : DaoSys} {op : Op}
    (hl : Ledger owner records s σ) (hop : (σ.ops ++ [op]).Subperm (records.map callOf)) :
    Ledger owner records s ({ σ with
      ops := σ.ops ++ [op]
      vars := Function.update σ.vars σ.ops.length (dao md5).init }.turn σ.ops.length
        ((dao md5).code op)) := by
  obtain ⟨t, ht, rfl⟩ := List.mem_map.mp (hop.subset (by simp : op ∈ σ.ops ++ [op]))
  have hold : ∀ (i : Nat) t', σ.ops[i]? = some (callOf t') →
      (σ.ops ++ [callOf t])[i]? = some (callOf t') := by
    intro i t' h
    rw [List.getElem?_append_left (List.getElem?_eq_some_iff.mp h).1, h]
  have hlast : (σ.ops ++ [callOf t])[σ.ops.length]? = some (callOf t) := by simp
  refine ledger_same hl hl.selected (fun _ _ => rfl) hop (fun p hp => ?_) (fun x hx => ?_) ?_
  · rcases List.mem_append.mp hp with hp | hp
    · obtain ⟨t', ht', hi, hc⟩ := hl.pipe p hp
      exact ⟨t', ht', hold _ _ hi, hc⟩
    · obtain rfl := List.mem_singleton.mp hp
      exact ⟨t, ht, hlast, .inl ⟨rfl, rfl⟩⟩
  · obtain ⟨t', ht', hi, hc⟩ := hl.ready x hx
    exact ⟨t', ht', hold _ _ hi, hc⟩
  · intro csp
    rw [pending_turn]
    have hp : ∀ p ∈ σ.pipe, dueOf owner csp (σ.ops ++ [callOf t]) p.op = dueOf owner csp σ.ops p.op := by
      intro p hp
      obtain ⟨t', -, hi, -⟩ := hl.pipe p hp
      rw [dueOf_of_some (hold _ _ hi), dueOf_of_some hi]
    have hr : ∀ x ∈ σ.ready, owed owner csp (σ.ops ++ [callOf t]) x = owed owner csp σ.ops x := by
      intro x hx
      obtain ⟨t', -, hi, -⟩ := hl.ready x hx
      rw [owed, owed, dueOf_of_some (hold _ _ hi), dueOf_of_some hi]
    have hnew : (((dao md5).code (callOf t)).issue (Function.update σ.vars σ.ops.length
        (dao md5).init σ.ops.length)).1.map (fun _ => dueOf owner csp (σ.ops ++ [callOf t])
          σ.ops.length) = [due owner csp (callOf t)] := by
      simp only [dueOf_of_some hlast]
      rfl
    simp only [pending, startedBytes, List.map_congr_left hp, List.map_congr_left hr, hnew,
      Sys.turn_ops, List.map_append, List.sum_append, List.map_cons, List.map_nil, List.sum_cons,
      List.sum_nil]
    ring

/-- A callback runs. -/
theorem ledger_run {s : Server} {σ : DaoSys} {a b : List (Nat × P)} {o : Nat} {j : P}
    (hl : Ledger owner records s σ) (hr : σ.ready = a ++ (o, j) :: b) :
    Ledger owner records s ({ σ with ready := a ++ b }.turn o j) := by
  obtain ⟨t, ht, hi, hj⟩ := hl.ready (o, j) (by simp [hr])
  have hissue : ∀ l, (∀ q ∈ (j.issue l).1, CallCmd owner t q.1 q.2) ∧ ∀ csp,
      ((j.issue l).1.map fun _ => dueOf owner csp σ.ops o).sum = owed owner csp σ.ops (o, j) := by
    intro l
    rcases hj with rfl | rfl | ⟨r, rfl⟩
    · exact ⟨by simp [lookupUser, Prog.issue, CallCmd],
        fun csp => by rw [owed_lookupUser]; simp [lookupUser, Prog.issue]⟩
    · exact ⟨by simp [chargeCSP, Prog.issue, CallCmd, charge, consoOf],
        fun csp => by rw [owed_chargeCSP]; simp [chargeCSP, Prog.issue]⟩
    · have hq := (quiet_settleReply r).issue_eq l
      exact ⟨by simp [hq], fun csp => by rw [owed_settleReply]; simp [hq]⟩
  refine ledger_same hl hl.selected (fun _ _ => rfl) hl.started (fun p hp => ?_) (fun x hx => ?_) ?_
  · rcases List.mem_append.mp hp with hp | hp
    · exact hl.pipe p hp
    · obtain ⟨q, hq, rfl⟩ := List.mem_map.mp hp
      exact ⟨t, ht, hi, (hissue _).1 q hq⟩
  · refine hl.ready x ?_
    rw [hr]
    rcases List.mem_append.mp hx with hx | hx <;> simp [hx]
  · intro csp
    rw [pending_turn, (hissue _).2 csp, pending_ready hr]
    simp only [startedBytes, Sys.turn_ops]

/-- The bytes still owed are not negative. -/
theorem pending_tail_nonneg {s : Server} (hs : Setup owner records s) {σ : DaoSys}
    {p : Pending Cmd Reply Locals} {rest : List (Pending Cmd Reply Locals)}
    (hl : Ledger owner records s σ) (hp : σ.pipe = p :: rest) (csp : String) :
    dueOf owner csp σ.ops p.op ≤ pending owner csp σ := by
  have hr : 0 ≤ (rest.map fun p => dueOf owner csp σ.ops p.op).sum := by
    refine List.sum_nonneg fun x hx => ?_
    obtain ⟨q, hq, rfl⟩ := List.mem_map.mp hx
    obtain ⟨t, ht, hi, -⟩ := hl.pipe q (by rw [hp]; exact List.mem_cons_of_mem _ hq)
    rw [dueOf_of_some hi]
    exact due_nonneg hs ht
  have hq : 0 ≤ (σ.ready.map (owed owner csp σ.ops)).sum := by
    refine List.sum_nonneg fun x hx => ?_
    obtain ⟨q, hq, rfl⟩ := List.mem_map.mp hx
    obtain ⟨t, ht, hi, -⟩ := hl.ready q hq
    rw [owed, dueOf_of_some hi]
    split
    · exact le_refl 0
    · exact due_nonneg hs ht
  simp only [pending, hp, List.map_cons, List.sum_cons]
  omega

/-- What an increment does to the server. -/
theorem exec_charge {s : Server} (hsel : s.selected = 2) (csp : String) (t : TrafficRecord) :
    (exec (charge csp t) s).1 =
      { s with dbs := Function.update s.dbs 2 (execDb s.now (charge csp t) (s.dbs 2)).1 } := by
  rw [exec_data rfl, hsel]

/-- An increment leaves all other keys alone. -/
theorem find_charge_ne {s : Server} (hsel : s.selected = 2) {csp k : String} (t : TrafficRecord)
    (hk : k ≠ consoOf csp) : find (exec (charge csp t) s).1.now ((exec (charge csp t) s).1.dbs 2) k =
      find s.now (s.dbs 2) k := by
  rw [exec_charge hsel]
  simp only [Function.update_self]
  exact find_congr (execDb_frame (by simpa [charge, Cmd.writes] using hk))

/-- After an increment, fewer bytes are pending. -/
theorem pending_charge (md5 : String → String) {σ : DaoSys} {o : Nat} {t : TrafficRecord}
    {rest : List (Pending Cmd Reply Locals)} (hi : σ.ops[o]? = some (callOf t))
    (hp : σ.pipe = ⟨o, charge (owner t.user) t, some settleReply⟩ :: rest) (csp : String) :
    pending owner csp ((dao md5).execute σ ⟨o, charge (owner t.user) t, some settleReply⟩ rest) +
      due owner csp (callOf t) = pending owner csp σ := by
  have h := pending_execute owner md5 csp hp
  rw [owed_settleReply, dueOf_of_some hi] at h
  simpa using h

/-- The consumption of the CSP that is charged grows by the reported bytes, which are no longer
pending. -/
theorem sum_charge {md5 : String → String} {s : Server} (hs : Setup owner records s) {σ : DaoSys}
    {o : Nat} {t : TrafficRecord} {rest : List (Pending Cmd Reply Locals)}
    (hl : Ledger owner records s σ) (ht : t ∈ records) (hi : σ.ops[o]? = some (callOf t))
    (hp : σ.pipe = ⟨o, charge (owner t.user) t, some settleReply⟩ :: rest)
    (hc : Charged owner records (owner t.user)) :
    let σ' := (dao md5).execute σ ⟨o, charge (owner t.user) t, some settleReply⟩ rest
    IsHash σ'.server.now (σ'.server.dbs 2) (consoOf (owner t.user)) ∧
    ∃ v v₀ : Int, consumption σ'.server.now (σ'.server.dbs 2) (owner t.user) = some v ∧ 0 ≤ v ∧
      consumption s.now (s.dbs 2) (owner t.user) = some v₀ ∧
      v + pending owner (owner t.user) σ' = v₀ + startedBytes owner (owner t.user) σ' := by
  intro σ'
  obtain ⟨n, hn⟩ := hs.bytes t ht
  obtain ⟨hk, v, v₀, hv, h0, hv₀, hsum⟩ := hl.sum _ hc
  have hpd : pending owner (owner t.user) σ' + due owner (owner t.user) (callOf t) = _ :=
    pending_charge md5 hi hp (owner t.user)
  have hdue : due owner (owner t.user) (callOf t) = n := by simp [due, callOf, hn]
  -- The new value is at most the initial one and all reports, which is in range.
  have hle := pending_tail_nonneg hs hl hp (owner t.user)
  rw [dueOf_of_some hi, hdue] at hle
  obtain ⟨w, hw, htot⟩ := hs.total _ hc
  rw [hv₀, Option.some.injEq] at hw
  have hst : startedBytes owner (owner t.user) σ ≤ _ := sum_due_le hs hl.started
  have hr : -2 ^ 63 ≤ v + (n : Int) ∧ v + (n : Int) < 2 ^ 63 := by
    constructor <;> omega
  obtain ⟨hk', hv'⟩ := consumption_charge hk hv hn hr
  have hserver : σ'.server = (exec (charge (owner t.user) t) σ.server).1 := rfl
  rw [hserver, exec_charge hl.selected]
  simp only [Function.update_self]
  refine ⟨hk', v + n, v₀, hv', by omega, hv₀, ?_⟩
  show v + n + _ = v₀ + startedBytes owner (owner t.user) σ
  omega

/-- An increment is executed. -/
theorem ledger_charge {md5 : String → String} {s : Server} (hs : Setup owner records s) {σ : DaoSys}
    {o : Nat} {t : TrafficRecord} {rest : List (Pending Cmd Reply Locals)}
    (hl : Ledger owner records s σ) (ht : t ∈ records) (hi : σ.ops[o]? = some (callOf t))
    (hp : σ.pipe = ⟨o, charge (owner t.user) t, some settleReply⟩ :: rest) :
    Ledger owner records s
      ((dao md5).execute σ ⟨o, charge (owner t.user) t, some settleReply⟩ rest) := by
  have hother : ∀ k ≠ consoOf (owner t.user),
      find (exec (charge (owner t.user) t) σ.server).1.now
        ((exec (charge (owner t.user) t) σ.server).1.dbs 2) k =
      find σ.server.now (σ.server.dbs 2) k := fun k hk => find_charge_ne hl.selected t hk
  refine ⟨?_, fun t' ht' => ?_, hl.started, fun p hp' => hl.pipe p ?_, fun x hx => ?_,
    fun csp hc => ?_, fun csp hc => ?_⟩
  · show (exec (charge (owner t.user) t) σ.server).1.selected = 2
    rw [exec_charge hl.selected]
    exact hl.selected
  · obtain ⟨e, he⟩ := hl.users t' ht'
    exact ⟨e, (hother _ (usersKey_ne_consoOf _ _)).trans he⟩
  · rw [hp]
    exact List.mem_cons_of_mem _ hp'
  · rcases List.mem_append.mp hx with hx | hx
    · exact hl.ready x hx
    · obtain rfl := List.mem_singleton.mp hx
      exact ⟨t, ht, hi, .inr (.inr ⟨_, rfl⟩)⟩
  · by_cases hcsp : owner t.user = csp
    · subst hcsp
      exact sum_charge hs hl ht hi hp hc
    · obtain ⟨hk, v, v₀, hv, h0, hv₀, hsum⟩ := hl.sum csp hc
      have hpd := pending_charge md5 hi hp csp
      have hdue : due owner csp (callOf t) = 0 := by simp [due, callOf, hcsp]
      have hf := hother (consoOf csp) (fun h => hcsp (consoOf_inj.mp h).symm)
      refine ⟨?_, v, v₀, (consumption_congr hf).trans hv, h0, hv₀, ?_⟩
      · intro e he
        exact hk e (hf ▸ he)
      · show v + _ = v₀ + startedBytes owner csp σ
        omega
  · refine (hother _ fun h => hc ⟨t, ht, (consoOf_inj.mp h).symm⟩).trans (hl.others csp hc)

/-- The oldest command is executed. -/
theorem ledger_execute {md5 : String → String} {s : Server} (hs : Setup owner records s) {σ : DaoSys}
    {p : Pending Cmd Reply Locals} {rest : List (Pending Cmd Reply Locals)}
    (hl : Ledger owner records s σ) (hp : σ.pipe = p :: rest) :
    Ledger owner records s ((dao md5).execute σ p rest) := by
  obtain ⟨t, ht, hi, hc⟩ := hl.pipe p (by rw [hp]; exact List.mem_cons_self)
  obtain ⟨o, c, cb⟩ := p
  -- `SELECT` and `GET` leave the keys alone; their callbacks owe what they owed.
  have hread : ∀ {cb' : Reply → P}, cb = some cb' → CallTurn owner t (cb' (exec c σ.server).2) →
      (∀ csp, owed owner csp σ.ops (o, cb' (exec c σ.server).2) = dueOf owner csp σ.ops o) →
      (exec c σ.server).1 = σ.server →
      Ledger owner records s ((dao md5).execute σ ⟨o, c, cb⟩ rest) := by
    intro cb' hcb hturn howed hserver
    subst hcb
    refine ledger_same hl ?_ (fun k _ => ?_) hl.started (fun q hq => hl.pipe q ?_)
      (fun x hx => ?_) fun csp => ?_
    · show (exec c σ.server).1.selected = 2
      rw [hserver, hl.selected]
    · show find (exec c σ.server).1.now ((exec c σ.server).1.dbs 2) k = _
      rw [hserver]
    · rw [hp]
      exact List.mem_cons_of_mem _ hq
    · rcases List.mem_append.mp hx with hx | hx
      · exact hl.ready x hx
      · obtain rfl := List.mem_singleton.mp hx
        exact ⟨t, ht, hi, hturn⟩
    · have h := pending_execute owner md5 csp hp
      rw [howed csp] at h
      show _ + startedBytes owner csp σ = _ + startedBytes owner csp σ
      omega
  obtain ⟨rfl, hcb⟩ | ⟨rfl, hcb⟩ | ⟨rfl, rfl⟩ := hc
  · have hsel : selected 2 σ.server = σ.server := by rw [← hl.selected]; rfl
    have hex := exec_select (by decide : 2 < 16) σ.server
    refine hread hcb ?_ (fun csp => ?_) (by rw [hex, hsel])
    · rw [hex]
      exact .inl rfl
    · rw [hex]
      exact owed_lookupUser csp σ.ops o t
  · obtain ⟨e, he⟩ := hl.users t ht
    have hreply : (exec (.get (usersKey t.user)) σ.server).2 = .bulk (owner t.user) := by
      rw [exec_reply rfl, hl.selected]
      simp [execDb, he]
    refine hread hcb ?_ (fun csp => ?_) (exec_read rfl rfl _)
    · rw [hreply]
      exact .inr (.inl rfl)
    · rw [hreply]
      exact owed_chargeCSP csp σ.ops o t _
  · exact ledger_charge hs hl ht hi hp

/-- **One step** keeps the ledger. -/
theorem ledger_step {md5 : String → String} {s : Server} (hs : Setup owner records s) {σ σ' : DaoSys}
    {e : Event Op Env} (hl : Ledger owner records s σ) (he : OnlyCalls records σ e)
    (h : (dao md5).Step σ e σ') : Ledger owner records s σ' := by
  obtain ⟨op, rfl, rfl⟩ | ⟨p, rest, rfl, hp, rfl⟩ | ⟨a, o, j, b, rfl, hr, rfl⟩ | ⟨a, rfl, rfl⟩ :=
    Client.step_cases h
  · exact ledger_start hl he
  · exact ledger_execute hs hl hp
  · exact ledger_run hl hr
  · refine ledger_same hl ?_ he hl.started hl.pipe hl.ready fun _ => rfl
    exact (Env.act_selected a _).trans hl.selected

/-- Before the first call. -/
theorem ledger_fresh (md5 : String → String) {s : Server} (hs : Setup owner records s) :
    Ledger owner records s ((dao md5).fresh s) := by
  refine ⟨hs.selected, hs.users, List.nil_subperm, by simp [Client.fresh], by simp [Client.fresh],
    fun csp hc => ⟨hs.hash csp hc, ?_⟩, fun _ _ => rfl⟩
  obtain ⟨v, hv, -⟩ := hs.total csp hc
  exact ⟨v, v, hv, Int.natCast_nonneg v, hv, rfl⟩

end Ledger

/-- **No lost update**: when the calls for all reports have been started, everything can come to an
end, and whenever it has, in whatever order, the bytes of all reports have been added. -/
theorem accounted_of_calls (md5 owner : String → String) (records : List TrafficRecord) (s : Server)
    (hs : Setup owner records s) (evs : List (Event Op Env)) (σ : DaoSys)
    (hrun : (dao md5).Runs (OnlyCalls records) ((dao md5).fresh s) evs σ)
    (hall : σ.ops.length = records.length) :
    (σ.Idle → Accounted owner records s σ.server) ∧
      ∃ evs' σ', (dao md5).Runs (fun _ e => e.Internal) σ evs' σ' ∧ σ'.Idle ∧
        Accounted owner records s σ'.server := by
  have hl := hrun.inv (fun _ _ _ hl he hst => ledger_step hs hl he hst) (ledger_fresh md5 hs)
  have hidle : ∀ τ : DaoSys, Ledger owner records s τ → τ.ops = σ.ops → τ.Idle →
      Accounted owner records s τ.server := by
    intro τ hl hops hidle
    refine ⟨fun csp hc => ?_, hl.others⟩
    obtain ⟨-, v, v₀, hv, -, hv₀, hsum⟩ := hl.sum csp hc
    have hperm : τ.ops.Perm (records.map callOf) :=
      hl.started.perm_of_length_le (by simp [hops, hall])
    refine ⟨v₀, hv₀, ?_⟩
    rw [hv, ← (hperm.map (due owner csp)).sum_eq, ← startedBytes, ← hsum]
    simp [pending, hidle.1, hidle.2]
  refine ⟨hidle σ hl rfl, ?_⟩
  obtain ⟨evs', σ', hrun', hi'⟩ := Client.exists_idle (dao md5) σ
  obtain ⟨hl', hops⟩ := hrun'.inv
    (I := fun τ => Ledger owner records s τ ∧ τ.ops = σ.ops)
    (fun τ e τ' hτ he hst => by
      obtain ⟨p, rest, hp, rfl⟩ | ⟨a, o, j, b, hr, rfl⟩ := Client.internal_cases he hst
      · exact ⟨ledger_execute hs hτ.1 hp, hτ.2⟩
      · exact ⟨ledger_run hτ.1 hr, hτ.2⟩) ⟨hl, rfl⟩
  exact ⟨evs', σ', hrun', hi', hidle σ' hl' hops hi'⟩

/-- A server with two users of one CSP. -/
def twoUsers : Server :=
  { now := 0, selected := 2, dbs := fun _ =>
      ((∅ : Db).insert "users:u" ⟨.str "c", none⟩).insert "users:v" ⟨.str "c", some 9⟩ }

/-- Two overlapping calls for them add up. -/
theorem accounted_two_users : ∃ s' : Server,
    Accounted (fun _ => "c") [⟨"u", "3"⟩, ⟨"v", "04"⟩] twoUsers s' ∧
      consumption s'.now (s'.dbs 2) "c" = some 7 := by
  have hs : Setup (fun _ => "c") [⟨"u", "3"⟩, ⟨"v", "04"⟩] twoUsers := by
    refine ⟨rfl, ?_, ?_, ?_, ?_⟩
    · simp only [List.mem_cons, List.not_mem_nil, or_false]
      rintro t (rfl | rfl)
      · exact ⟨none, rfl⟩
      · exact ⟨some 9, rfl⟩
    · simp only [List.mem_cons, List.not_mem_nil, or_false]
      rintro t (rfl | rfl)
      · exact ⟨3, by decide⟩
      · exact ⟨4, by decide⟩
    · rintro csp ⟨t, -, rfl⟩ e he
      cases he
    · rintro csp ⟨t, -, rfl⟩
      refine ⟨0, rfl, ?_⟩
      show (0 : Int) + (([⟨"u", "3"⟩, ⟨"v", "04"⟩].map callOf).map (due (fun _ => "c") "c")).sum < 2 ^ 63
      decide
  obtain ⟨σ, hrun, hall⟩ : ∃ σ : DaoSys, (dao id).Runs (OnlyCalls [⟨"u", "3"⟩, ⟨"v", "04"⟩])
      ((dao id).fresh twoUsers) [.start (callOf ⟨"v", "04"⟩), .start (callOf ⟨"u", "3"⟩), .exec] σ ∧
      σ.ops.length = 2 := by
    refine ⟨_, .cons ?_ rfl (.cons ?_ rfl (.cons trivial rfl (.nil _))), rfl⟩
    · exact List.singleton_subperm_iff.mpr (by simp)
    · exact (List.Perm.swap _ _ _).subperm
  obtain ⟨-, -, σ', -, -, hacc⟩ :=
    accounted_of_calls id (fun _ => "c") [⟨"u", "3"⟩, ⟨"v", "04"⟩] twoUsers hs _ σ hrun hall
  obtain ⟨v, hv, hv'⟩ := hacc.1 "c" ⟨⟨"u", "3"⟩, by simp, rfl⟩
  refine ⟨σ'.server, hacc, hv'.trans ?_⟩
  obtain rfl : v = 0 := by
    have h0 : consumption twoUsers.now (twoUsers.dbs 2) "c" = some 0 := rfl
    simpa [h0] using hv.symm
  decide

end Broker
end QosSupport
