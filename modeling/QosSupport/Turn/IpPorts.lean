import QosSupport.Turn.AddrMap
import QosSupport.Turn.RelayPorts

/-!
# Relay ports of all addresses (`turnipports` of `broker/coturn/src/apps/relay/turn_ports.c`)

There is one table of ports for each address and each of UDP and TCP. It is made when the address is first
used. A table that changes in place is put under its key again.

* `allocate`, `allocateEven`, `release`, `addIp`: as the code computes them.
* `free`: the free ports of an address. All are free if there is no table yet.
* `steps_acts`: in every run, whatever addresses the calls are for, each call acts on the free ports of its
  own address and on no others.
* `relayPort_given_once`: so no port of an address is given twice without a release.
-/

namespace QosSupport
namespace Turn

open Turnports

/-- `STUN_ATTRIBUTE_TRANSPORT_TCP_VALUE` -/
def transportTcp : Nat := 6

/-- `STUN_ATTRIBUTE_TRANSPORT_UDP_VALUE` -/
def transportUdp : Nat := 17

/-- The struct `turnipports`. `turnports_create` returns no table for an empty range, and there is no test for
it, so the range must have a port. -/
structure Turnipports where
  start : Nat
  stop : Nat
  start_le : start ≤ stop
  udp : AddrMap Turnports
  tcp : AddrMap Turnports

namespace Turnipports

variable {tps : Turnipports} {random : Nat → Nat}

/-- `turnipports_create` -/
def create (start stop : Nat) (h : start ≤ stop) : Turnipports := ⟨start, stop, h, .init, .init⟩

/-- `get_map` -/
def getMap (tps : Turnipports) (transport : Nat) : AddrMap Turnports :=
  if transport = transportTcp then tps.tcp else tps.udp

/-- A map gets the table of an address, whatever port the address has. -/
def store (tps : Turnipports) (transport : Nat) (addr : IoaAddr) (t : Turnports) : Turnipports :=
  if transport = transportTcp then { tps with tcp := tps.tcp.put (addr.setPort 0) t }
  else { tps with udp := tps.udp.put (addr.setPort 0) t }

/-- `turnipports_add` -/
def add (tps : Turnipports) (transport : Nat) (addr : IoaAddr) (random : Nat → Nat) : Turnports × Turnipports :=
  match (tps.getMap transport).get (addr.setPort 0) with
  | some t => (t, tps)
  | none =>
    let t := Turnports.init tps.start tps.stop random
    (t, tps.store transport addr t)

/-- `turnipports_add_ip` -/
def addIp (tps : Turnipports) (transport : Nat) (addr : IoaAddr) (random : Nat → Nat) : Turnipports :=
  (tps.add transport addr random).2

/-- `turnipports_allocate` -/
def allocate (tps : Turnipports) (transport : Nat) (addr : IoaAddr) (random : Nat → Nat) : Int × Turnipports :=
  let added := tps.add transport addr random
  let allocated := added.1.allocate
  (allocated.1, added.2.store transport addr allocated.2)

/-- `turnipports_allocate_even` -/
def allocateEven (tps : Turnipports) (addr : IoaAddr) (allocateRtcp : Bool) (random : Nat → Nat) :
    Int × Turnipports :=
  let added := tps.add transportUdp addr random
  let allocated := added.1.allocateEven allocateRtcp
  (allocated.1, added.2.store transportUdp addr allocated.2)

/-- `turnipports_release` -/
def release (tps : Turnipports) (transport : Nat) (socketAddr : IoaAddr) : Turnipports :=
  match (tps.getMap transport).get (socketAddr.setPort 0) with
  | some t => tps.store transport socketAddr (t.release socketAddr.getPort.toNat)
  | none => tps

/-! ## Calls -/

/-- A call of one of the functions. A call that makes a table takes the values of `random()` for it. -/
inductive IpRequest
  | addIp (transport : Nat) (addr : IoaAddr) (random : Nat → Nat)
  | allocate (transport : Nat) (addr : IoaAddr) (random : Nat → Nat)
  | allocateEven (addr : IoaAddr) (rtcp : Bool) (random : Nat → Nat)
  | release (transport : Nat) (socketAddr : IoaAddr)

namespace IpRequest

/-- The transport and the address that a call is for. -/
def transport : IpRequest → Nat
  | .addIp t _ _ => t
  | .allocate t _ _ => t
  | .allocateEven _ _ _ => transportUdp
  | .release t _ => t

def addr : IpRequest → IoaAddr
  | .addIp _ a _ => a
  | .allocate _ a _ => a
  | .allocateEven a _ _ => a
  | .release _ a => a

/-- What is asked of the table of the address. -/
def onTable : IpRequest → Option Request
  | .addIp _ _ _ => none
  | .allocate _ _ _ => some .allocate
  | .allocateEven _ rtcp _ => some (.allocateEven rtcp)
  | .release _ a => some (.release a.getPort.toNat)

end IpRequest

/-- What the caller gets, and the tables after the call. -/
def serve (tps : Turnipports) : IpRequest → Option Int × Turnipports
  | .addIp transport addr random => (none, tps.addIp transport addr random)
  | .allocate transport addr random =>
    (some (tps.allocate transport addr random).1, (tps.allocate transport addr random).2)
  | .allocateEven addr rtcp random =>
    (some (tps.allocateEven addr rtcp random).1, (tps.allocateEven addr rtcp random).2)
  | .release transport socketAddr => (none, tps.release transport socketAddr)

/-! ## Tables by their keys -/

/-- TCP or not, and an address with the port 0. -/
abbrev Key := Bool × IoaAddr

/-- The key of a transport and an address. -/
def keyOf (transport : Nat) (addr : IoaAddr) : Key := (decide (transport = transportTcp), addr.setPort 0)

/-- The table of a key, if there is one. -/
def look (tps : Turnipports) (k : Key) : Option Turnports := (if k.1 then tps.tcp else tps.udp).get k.2

/-- The table that `add` returns. -/
def tableOf (tps : Turnipports) (k : Key) (random : Nat → Nat) : Turnports :=
  (tps.look k).getD (Turnports.init tps.start tps.stop random)

structure WellFormed (tps : Turnipports) : Prop where
  udp : tps.udp.WellFormed
  tcp : tps.tcp.WellFormed

variable {transport : Nat} {addr : IoaAddr} {t : Turnports}

theorem getMap_get (tps : Turnipports) (transport : Nat) (addr : IoaAddr) :
    (tps.getMap transport).get (addr.setPort 0) = tps.look (keyOf transport addr) := by
  unfold getMap look keyOf
  by_cases h : transport = transportTcp
  · simp [h]
  · simp [h]

/-- What `tps'` has and `tps` had, up to one key. -/
structure Updates (tps : Turnipports) (k : Key) (o : Option Turnports) (tps' : Turnipports) : Prop where
  wellFormed : tps'.WellFormed
  start_eq : tps'.start = tps.start
  stop_eq : tps'.stop = tps.stop
  look : ∀ k', tps'.look k' = if k' = k then o else tps.look k'

theorem WellFormed.store (h : tps.WellFormed) (hf : addr.HasFamily) (transport : Nat) (t : Turnports) :
    tps.Updates (keyOf transport addr) (some t) (tps.store transport addr t) := by
  have hf' : (addr.setPort 0).HasFamily := (IoaAddr.hasFamily_setPort 0).mpr hf
  unfold Turnipports.store
  by_cases ht : transport = transportTcp
  · rw [if_pos ht]
    refine ⟨⟨h.udp, h.tcp.put _ t⟩, rfl, rfl, ?_⟩
    rintro ⟨b, a⟩
    cases b with
    | false => simp [Turnipports.look, keyOf, ht]
    | true => simp [Turnipports.look, keyOf, ht, h.tcp.get_put, hf']
  · rw [if_neg ht]
    refine ⟨⟨h.udp.put _ t, h.tcp⟩, rfl, rfl, ?_⟩
    rintro ⟨b, a⟩
    cases b with
    | false => simp [Turnipports.look, keyOf, ht, h.udp.get_put, hf']
    | true => simp [Turnipports.look, keyOf, ht]

theorem Updates.trans {k : Key} {o o' : Option Turnports} {tps' tps'' : Turnipports}
    (h : tps.Updates k o tps') (h' : tps'.Updates k o' tps'') : tps.Updates k o' tps'' := by
  refine ⟨h'.wellFormed, h'.start_eq.trans h.start_eq, h'.stop_eq.trans h.stop_eq, fun k' => ?_⟩
  rw [h'.look, h.look]
  split <;> rfl

theorem WellFormed.updates_self (h : tps.WellFormed) (k : Key) : tps.Updates k (tps.look k) tps := by
  refine ⟨h, rfl, rfl, fun k' => ?_⟩
  split
  · rename_i hk
    rw [hk]
  · rfl

/-- `turnipports_add` -/
theorem WellFormed.add (h : tps.WellFormed) (hf : addr.HasFamily) (transport : Nat) (random : Nat → Nat) :
    (tps.add transport addr random).1 = tps.tableOf (keyOf transport addr) random ∧
      tps.Updates (keyOf transport addr) (some (tps.tableOf (keyOf transport addr) random))
        (tps.add transport addr random).2 := by
  unfold Turnipports.add tableOf
  rw [getMap_get]
  cases hl : tps.look (keyOf transport addr) with
  | some t =>
    have hself := h.updates_self (keyOf transport addr)
    rw [hl] at hself
    exact ⟨rfl, hself⟩
  | none => exact ⟨rfl, h.store hf transport _⟩

/-! ## Free ports -/

/-- The free ports of an address. -/
def free (tps : Turnipports) (k : Key) : Finset Nat :=
  match tps.look k with
  | some t => t.free
  | none => Finset.Icc tps.start tps.stop

/-- What holds between the calls. -/
structure Inv (start stop : Nat) (tps : Turnipports) : Prop where
  wellFormed : tps.WellFormed
  start_eq : tps.start = start
  stop_eq : tps.stop = stop
  tables : ∀ k t, tps.look k = some t → Turnports.Inv start stop t

/-- The table of the call's address has room and does not meet the fault. -/
def Allowed (tps : Turnipports) (req : IpRequest) : Prop :=
  req.addr.HasFamily ∧ ∀ t ∈ tps.look (keyOf req.transport req.addr),
    t.Room ∧ ∀ r ∈ req.onTable, ¬ t.FaultsAt r

instance (tps : Turnipports) : DecidablePred tps.Allowed := fun _ => inferInstanceAs (Decidable (_ ∧ _))

/-- What the tables are for: each address has its own set of free ports. -/
inductive Acts (start stop : Nat) (free : Key → Finset Nat) (req : IpRequest) :
    Option Int → (Key → Finset Nat) → Prop
  | add : req.onTable = none → Acts start stop free req none free
  | table {r : Request} {ret : Option Int} {after : Finset Nat} : req.onTable = some r →
      Serves start stop (free (keyOf req.transport req.addr)) r ret after →
      Acts start stop free req ret (Function.update free (keyOf req.transport req.addr) after)

variable {start stop : Nat} {k : Key}

/-- A new table has room and free ports. -/
theorem init_ready (hle : start ≤ stop) (hstop : stop < 2 ^ 16) (random : Nat → Nat) :
    (Turnports.init start stop random).Room ∧ ∀ r, ¬ (Turnports.init start stop random).FaultsAt r := by
  have h := shuffled_init hle hstop random
  refine ⟨?_, fun r => ?_⟩
  · unfold Room
    rw [h.high]
    omega
  · cases r with
    | allocateEven rtcp =>
      rintro ⟨-, hempty, -⟩
      rw [(h.consistent hle hstop).2] at hempty
      have hmem := Finset.left_mem_Icc.mpr hle
      rw [hempty] at hmem
      exact Finset.notMem_empty _ hmem
    | allocate => exact id
    | release p => exact id

/-- The table that a call works on. -/
theorem Inv.tableOf (h : Inv start stop tps) (hstop : stop < 2 ^ 16) (k : Key) (random : Nat → Nat) :
    Turnports.Inv start stop (tps.tableOf k random) ∧ (tps.tableOf k random).free = tps.free k := by
  have hle : start ≤ stop := by
    have := tps.start_le
    rwa [h.start_eq, h.stop_eq] at this
  unfold Turnipports.tableOf Turnipports.free
  cases hl : tps.look k with
  | some t => exact ⟨h.tables k t hl, rfl⟩
  | none =>
    simp only [Option.getD_none, h.start_eq, h.stop_eq]
    exact ⟨inv_init hle hstop random, ((shuffled_init hle hstop random).consistent hle hstop).2⟩

theorem Inv.tableOf_ready (h : Inv start stop tps) (hstop : stop < 2 ^ 16) {req : IpRequest} {r : Request}
    (hallowed : tps.Allowed req) (hr : req.onTable = some r) (random : Nat → Nat) :
    (tps.tableOf (keyOf req.transport req.addr) random).Room ∧
      ¬ (tps.tableOf (keyOf req.transport req.addr) random).FaultsAt r := by
  have hle : start ≤ stop := by
    have := tps.start_le
    rwa [h.start_eq, h.stop_eq] at this
  unfold Turnipports.tableOf
  cases hl : tps.look (keyOf req.transport req.addr) with
  | some t =>
    obtain ⟨hroom, hf⟩ := hallowed.2 t hl
    exact ⟨hroom, hf r hr⟩
  | none =>
    simp only [Option.getD_none, h.start_eq, h.stop_eq]
    obtain ⟨hroom, hf⟩ := init_ready hle hstop random
    exact ⟨hroom, hf r⟩

/-- The free ports after one table changed. -/
theorem Updates.free_eq {o : Option Turnports} {tps' : Turnipports} (h : tps.Updates k o tps') :
    tps'.free = Function.update tps.free k (tps'.free k) := by
  funext k'
  by_cases hk : k' = k
  · rw [hk, Function.update_self]
  · rw [Function.update_of_ne hk]
    unfold free
    rw [h.look, if_neg hk, h.start_eq, h.stop_eq]

theorem Inv.of_updates {tps' : Turnipports} {t' : Turnports} (h : Inv start stop tps)
    (hup : tps.Updates k (some t') tps') (ht : Turnports.Inv start stop t') : Inv start stop tps' := by
  refine ⟨hup.wellFormed, hup.start_eq.trans h.start_eq, hup.stop_eq.trans h.stop_eq, fun k' t hk' => ?_⟩
  rw [hup.look] at hk'
  split at hk'
  · cases hk'
    exact ht
  · exact h.tables k' t hk'

/-- A call of the table of the address. -/
theorem Inv.call (h : Inv start stop tps) (hstop : stop < 2 ^ 16)
    (hfits : (stop + 1 - start) + (stop + 1 - start) / 2 < 2 ^ 16) {req : IpRequest} {r : Request}
    (hallowed : tps.Allowed req) (hr : req.onTable = some r) {ret : Option Int} {t' : Turnports}
    {tps' : Turnipports}
    (hserve : (tps.tableOf (keyOf req.transport req.addr) random).serve r = (ret, t'))
    (hup : tps.Updates (keyOf req.transport req.addr) (some t') tps') :
    Inv start stop tps' ∧ Acts start stop tps.free req ret tps'.free := by
  obtain ⟨hinv, hfree⟩ := h.tableOf hstop (keyOf req.transport req.addr) random
  obtain ⟨hroom, hf⟩ := h.tableOf_ready hstop hallowed hr random
  generalize tps.tableOf (keyOf req.transport req.addr) random = t at hserve hinv hfree hroom hf
  have hinv' : Turnports.Inv start stop t' := hinv.step (c := (r, ret)) hfits hroom hserve
  refine ⟨h.of_updates hup hinv', ?_⟩
  obtain ⟨hc, rfl, rfl⟩ := hinv
  have hserved := (hc.servedRight_iff hfits hroom r).mpr hf
  unfold ServedRight at hserved
  rw [hserve, hfree] at hserved
  rw [hup.free_eq]
  have hfree' : tps'.free (keyOf req.transport req.addr) = t'.free := by
    unfold Turnipports.free
    rw [hup.look, if_pos rfl]
  rw [hfree']
  exact .table hr hserved

/-- A release for an address without a table changes nothing. -/
theorem acts_release_of_none (h : Inv start stop tps) {transport : Nat} {addr : IoaAddr}
    (hl : tps.look (keyOf transport addr) = none) :
    Acts start stop tps.free (.release transport addr) none tps.free := by
  have hfree : tps.free (keyOf transport addr) = Finset.Icc start stop := by
    unfold Turnipports.free
    rw [hl, h.start_eq, h.stop_eq]
  have hacts : Acts start stop tps.free (.release transport addr) none
      (Function.update tps.free (keyOf transport addr) (tps.free (keyOf transport addr))) := by
    refine .table rfl ?_
    change Serves start stop (tps.free (keyOf transport addr)) _ _ _
    rw [hfree]
    by_cases hin : start ≤ addr.getPort.toNat ∧ addr.getPort.toNat ≤ stop
    · have hserves : Serves start stop (Finset.Icc start stop) (.release addr.getPort.toNat) none
          (insert addr.getPort.toNat (Finset.Icc start stop)) := .release hin
      rwa [Finset.insert_eq_of_mem (Finset.mem_Icc.mpr hin)] at hserves
    · exact .releaseOther hin
  rwa [Function.update_eq_self] at hacts

theorem serve_allocate_eq {tps₁ : Turnipports} {t' : Turnports} {port : Int}
    (hadd : tps.add transport addr random = (t, tps₁)) (heq : t.allocate = (port, t')) :
    tps.serve (.allocate transport addr random) = (some port, tps₁.store transport addr t') := by
  rw [Turnipports.serve, Turnipports.allocate, hadd, heq]

theorem serve_allocateEven_eq {rtcp : Bool} {tps₁ : Turnipports} {t' : Turnports} {port : Int}
    (hadd : tps.add transportUdp addr random = (t, tps₁)) (heq : t.allocateEven rtcp = (port, t')) :
    tps.serve (.allocateEven addr rtcp random) = (some port, tps₁.store transportUdp addr t') := by
  rw [Turnipports.serve, Turnipports.allocateEven, hadd, heq]

/-- **One call.** -/
theorem Inv.step (h : Inv start stop tps) (hstop : stop < 2 ^ 16)
    (hfits : (stop + 1 - start) + (stop + 1 - start) / 2 < 2 ^ 16) {req : IpRequest}
    (hallowed : tps.Allowed req) {ret : Option Int} {tps' : Turnipports} (hserve : tps.serve req = (ret, tps')) :
    Inv start stop tps' ∧ Acts start stop tps.free req ret tps'.free := by
  have hf := hallowed.1
  cases req with
  | addIp transport addr random =>
    obtain ⟨-, hup⟩ := h.wellFormed.add hf transport random
    obtain ⟨hinv, hfree⟩ := h.tableOf hstop (keyOf transport addr) random
    cases hserve
    refine ⟨h.of_updates hup hinv, ?_⟩
    have hsame : (tps.addIp transport addr random).free = tps.free := by
      refine (Updates.free_eq hup).trans ?_
      rw [Function.update_eq_self_iff]
      unfold Turnipports.free at hfree ⊢
      rw [hup.look, if_pos rfl]
      exact hfree
    rw [hsame]
    exact .add rfl
  | allocate transport addr random =>
    obtain ⟨t, tps₁, hadd⟩ : ∃ t tps₁, tps.add transport addr random = (t, tps₁) := ⟨_, _, Prod.mk.eta.symm⟩
    obtain ⟨htable, hup⟩ := hadd ▸ h.wellFormed.add hf transport random
    obtain ⟨port, t', heq⟩ : ∃ port t', t.allocate = (port, t') := ⟨_, _, Prod.mk.eta.symm⟩
    rw [serve_allocate_eq hadd heq] at hserve
    cases hserve
    rw [show t = _ from htable] at heq
    exact h.call hstop hfits hallowed rfl (serve_allocate heq)
      (hup.trans (hup.wellFormed.store hf transport t'))
  | allocateEven addr rtcp random =>
    obtain ⟨t, tps₁, hadd⟩ : ∃ t tps₁, tps.add transportUdp addr random = (t, tps₁) :=
      ⟨_, _, Prod.mk.eta.symm⟩
    obtain ⟨htable, hup⟩ := hadd ▸ h.wellFormed.add hf transportUdp random
    obtain ⟨port, t', heq⟩ : ∃ port t', t.allocateEven rtcp = (port, t') := ⟨_, _, Prod.mk.eta.symm⟩
    rw [serve_allocateEven_eq hadd heq] at hserve
    cases hserve
    rw [show t = _ from htable] at heq
    exact h.call hstop hfits hallowed rfl (serve_allocateEven heq)
      (hup.trans (hup.wellFormed.store hf transportUdp t'))
  | release transport addr =>
    simp only [Turnipports.serve, Turnipports.release, getMap_get] at hserve
    cases hl : tps.look (keyOf transport addr) with
    | none =>
      rw [hl] at hserve
      cases hserve
      exact ⟨h, acts_release_of_none h hl⟩
    | some t =>
      rw [hl] at hserve
      cases hserve
      have htable : tps.tableOf (keyOf transport addr) (fun _ => 0) = t := by
        unfold Turnipports.tableOf
        rw [hl]
        rfl
      have hserved : (tps.tableOf (keyOf transport addr) fun _ => 0).serve (.release addr.getPort.toNat) =
          (none, t.release addr.getPort.toNat) := by
        rw [htable]
        rfl
      exact h.call hstop hfits hallowed rfl hserved (h.wellFormed.store hf transport _)

/-! ## Runs -/

/-- A call and what the caller got. -/
def Step (tps : Turnipports) (c : IpRequest × Option Int) (tps' : Turnipports) : Prop :=
  tps.serve c.1 = (c.2, tps')

theorem look_create (hle : start ≤ stop) (k : Key) : (create start stop hle).look k = none := by
  unfold look create
  split <;> exact AddrMap.get_init k.2

theorem inv_create (hle : start ≤ stop) : Inv start stop (create start stop hle) := by
  refine ⟨⟨AddrMap.wellFormed_init, AddrMap.wellFormed_init⟩, rfl, rfl, fun k t hk => ?_⟩
  rw [look_create] at hk
  cases hk

/-- Every run is one in which each address has its own set of free ports. -/
theorem steps_acts (hle : start ≤ stop) (hstop : stop < 2 ^ 16)
    (hfits : (stop + 1 - start) + (stop + 1 - start) / 2 < 2 ^ 16) {cs : List (IpRequest × Option Int)}
    {tps' : Turnipports}
    (hrun : Run.Steps Step (fun tps c => tps.Allowed c.1) (create start stop hle) cs tps') :
    Run.Steps (fun free c free' => Acts start stop free c.1 c.2 free') Run.Any
      (fun _ => Finset.Icc start stop) cs tps'.free := by
  have hfree : (create start stop hle).free = fun _ => Finset.Icc start stop := by
    funext k
    unfold free
    rw [look_create]
    rfl
  rw [← hfree]
  have hinv := inv_create hle
  generalize create start stop hle = tps at hinv hrun
  clear hfree
  induction hrun with
  | nil tps => exact .nil _
  | cons hP hstep _ ih =>
    obtain ⟨hinv', hacts⟩ := hinv.step hstop hfits hP hstep
    exact .cons trivial hacts (ih hinv')

/-! ## Who has a port -/

/-- The call gives its caller the port `p` of the key `k`. -/
def Gives (c : IpRequest × Option Int) (k : Key) (p : Nat) : Prop :=
  keyOf c.1.transport c.1.addr = k ∧
    (c.2 = some (p : Int) ∨ c.1.onTable = some (.allocateEven true) ∧ ∃ q : Nat, c.2 = some (q : Int) ∧ p = q + 1)

/-- The call gives the port back. -/
def Releases (c : IpRequest × Option Int) (k : Key) (p : Nat) : Prop :=
  keyOf c.1.transport c.1.addr = k ∧ c.1.onTable = some (.release p)

variable {free₁ free₂ : Key → Finset Nat} {c : IpRequest × Option Int} {p : Nat}

/-- A port that is given was free, and is not any more. -/
theorem Acts.gives (h : Acts start stop free₁ c.1 c.2 free₂) (hg : Gives c k p) :
    p ∈ free₁ k ∧ p ∉ free₂ k := by
  obtain ⟨req, ret⟩ := c
  obtain ⟨rfl, hport⟩ := hg
  cases h with
  | add _ => exact absurd hport (by simp)
  | table hr hs =>
    rw [Function.update_self]
    simp only at hport hr hs ⊢
    rw [hr] at hport
    generalize free₁ (keyOf req.transport req.addr) = F at hs ⊢
    cases hs with
    | @allocate q hq =>
      have hcast : (q : Int) = p := by simpa using hport
      obtain rfl : q = p := by omega
      exact ⟨hq, Finset.notMem_erase q F⟩
    | none _ => exact absurd hport (by simp)
    | @even rtcp q hs =>
      obtain ⟨hq, -, hpair⟩ := hs
      unfold afterEven
      rcases hport with hport | ⟨hreq, q', hret, rfl⟩
      · have hcast : (q : Int) = p := by simpa using hport
        obtain rfl : q = p := by omega
        refine ⟨hq, ?_⟩
        split <;> simp
      · have hcast : (q : Int) = q' := by simpa using hret
        obtain rfl : q = q' := by omega
        obtain rfl : rtcp = true := by simpa using hreq
        exact ⟨hpair rfl, by simp⟩
    | noEven _ =>
      refine absurd hport ?_
      simp only [Option.some.injEq, not_or, not_and, not_exists]
      refine ⟨by omega, fun _ q => ?_⟩
      omega
    | release _ => exact absurd hport (by simp)
    | releaseOther _ => exact absurd hport (by simp)

/-- A port that is not free stays so until it is given back. -/
theorem Acts.not_mem (h : Acts start stop free₁ c.1 c.2 free₂) (hp : p ∉ free₁ k) (hr : ¬ Releases c k p) :
    p ∉ free₂ k := by
  obtain ⟨req, ret⟩ := c
  cases h with
  | add _ => exact hp
  | @table r ret after hreq hs =>
    by_cases hk : k = keyOf req.transport req.addr
    · subst hk
      rw [Function.update_self]
      generalize free₁ (keyOf req.transport req.addr) = F at hs hp
      cases hs with
      | allocate _ => exact fun hmem => hp (Finset.mem_of_mem_erase hmem)
      | none _ => exact hp
      | @even rtcp q _ =>
        unfold afterEven
        split
        · exact fun hmem => hp (Finset.mem_of_mem_erase (Finset.mem_of_mem_erase hmem))
        · exact fun hmem => hp (Finset.mem_of_mem_erase hmem)
      | noEven _ => exact hp
      | @release q _ =>
        intro hmem
        rcases Finset.mem_insert.mp hmem with rfl | hmem
        · exact hr ⟨rfl, hreq⟩
        · exact hp hmem
      | releaseOther _ => exact hp
    · rw [Function.update_of_ne hk]
      exact hp

/-- **No relay port is given twice** without being given back in between, in any run over any addresses of which
all calls are allowed. -/
theorem relayPort_given_once (hle : start ≤ stop) (hstop : stop < 2 ^ 16)
    (hfits : (stop + 1 - start) + (stop + 1 - start) / 2 < 2 ^ 16)
    {cs₁ cs₂ cs₃ : List (IpRequest × Option Int)} {c c' : IpRequest × Option Int} {tps' : Turnipports}
    (hrun : Run.Steps Step (fun tps c => tps.Allowed c.1) (create start stop hle)
      (cs₁ ++ c :: (cs₂ ++ c' :: cs₃)) tps')
    (hc : Gives c k p) (hc' : Gives c' k p) : ∃ d ∈ cs₂, Releases d k p := by
  obtain ⟨free₁, free₂, -, -, hgive, hrest⟩ := (steps_acts hle hstop hfits hrun).split
  obtain ⟨free₃, free₄, hbetween, -, hgive', -⟩ := hrest.split
  have htaken := (Acts.gives hgive hc).2
  have hfree := (Acts.gives hgive' hc').1
  clear hgive hgive' hrest hrun
  induction cs₂ generalizing free₂ with
  | nil =>
    cases hbetween
    exact absurd hfree htaken
  | cons d cs₂ ih =>
    by_cases hd : Releases d k p
    · exact ⟨d, List.mem_cons_self, hd⟩
    · cases hbetween with
      | cons _ hstep hbetween =>
        obtain ⟨d', hmem, hd'⟩ := ih _ hbetween (Acts.not_mem hstep htaken hd)
        exact ⟨d', List.mem_cons_of_mem _ hmem, hd'⟩

/-- The only port of a range is taken, given back and taken again. -/
theorem relayPort_given_once_small : ∃ d ∈ [(.release transportUdp (.v4 (fun _ => 9) 4), none)],
    Releases d (false, .v4 (fun _ => 9) 0) 4 := by
  have hrun : ∃ tps', Run.Steps Step (fun tps c => tps.Allowed c.1) (create 4 4 le_rfl)
      ([] ++ (.allocate transportUdp (.v4 (fun _ => 9) 0) fun _ => 0, some 4) ::
        ([(.release transportUdp (.v4 (fun _ => 9) 4), none)] ++
          (.allocate transportUdp (.v4 (fun _ => 9) 0) fun _ => 0, some 4) :: [])) tps' :=
    ⟨_, .cons (by decide +kernel) rfl (.cons (by decide +kernel) rfl (.cons (by decide +kernel) rfl (.nil _)))⟩
  obtain ⟨tps', hrun⟩ := hrun
  exact relayPort_given_once le_rfl (by decide) (by decide) hrun ⟨rfl, .inl rfl⟩ ⟨rfl, .inl rfl⟩

end Turnipports
end Turn
end QosSupport
