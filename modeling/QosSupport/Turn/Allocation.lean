import QosSupport.Turn.IoAddr
import QosSupport.Turn.LmMap

/-!
# Permissions and channels of an allocation (`broker/coturn/src/server/ns_turn_allocation.c`)

An allocation has a table of permissions, one for each host that may send to the client, and a table of
channels, one for each number that the client bound to a peer. A permission has a map from ports to its
channels, a channel has a pointer to its permission. Pointers are slots of the tables.

* `addPermission`, `getNewChInfo`, `channelDelete`, `permissionClean`: what the requests and the timers do.
* `Consistent`: the invariant. Every host has one permission and every number one channel, and the pointers of
  the two tables agree.
* `Consistent.chn_of_peer`: so a peer has at most one channel.
-/

namespace QosSupport
namespace Turn

/-- The struct `ch_info` of a channel that is allocated. The timer is the time at which it ends. -/
structure ChInfo where
  chnum : Nat
  port : UInt16
  peerAddr : IoaAddr
  owner : Ref
  timer : Option Nat

/-- The struct `turn_permission_info`. -/
structure PermissionInfo where
  addr : IoaAddr
  chns : LmMap Ref
  timer : Option Nat

/-- The struct `allocation`. -/
structure Allocation where
  addrToPerm : Table PermissionInfo
  chns : Table ChInfo

/-- `STUN_VALID_CHANNEL` -/
def ValidChannel (chnum : Nat) : Prop := 0x4000 ≤ chnum ∧ chnum ≤ 0x7FFF

instance : DecidablePred ValidChannel := fun _ => inferInstanceAs (Decidable (_ ∧ _))

namespace Allocation

variable {a : Allocation} {r o : Ref} {c : ChInfo} {tinfo : PermissionInfo} {addr peer : IoaAddr} {chnum : Nat}

/-! ## Operations -/

/-- `init_allocation` -/
def init : Allocation := ⟨Table.empty 3, Table.empty 3⟩

/-- The bucket of a host. -/
def permIndex (addr : IoaAddr) : Nat := (addr.hashNoPort &&& 7).toNat

/-- The bucket of a channel number. -/
def chnIndex (chnum : Nat) : Nat := chnum &&& 7

/-- `get_from_turn_permission_hashtable` -/
def getPermission (a : Allocation) (addr : IoaAddr) : Option Ref :=
  a.addrToPerm.find (permIndex addr) fun tinfo => decide (tinfo.addr.AddrEqNoPort addr)

/-- `allocation_add_permission` -/
def addPermission (a : Allocation) (addr : IoaAddr) : Ref × Allocation :=
  let slot := a.addrToPerm.fresh (permIndex addr)
  (slot, { a with addrToPerm := a.addrToPerm.write slot (some ⟨addr, .init, none⟩) })

/-- `allocation_get_ch_info` -/
def getChInfo (a : Allocation) (chnum : Nat) : Option Ref :=
  a.chns.find (chnIndex chnum) fun c => decide (c.chnum = chnum)

/-- `get_turn_channel` -/
def getTurnChannel (a : Allocation) (tinfo : Ref) (addr : IoaAddr) : Option Ref := do
  let tinfo ← a.addrToPerm.get tinfo
  let chn ← tinfo.chns.get addr.getPort.toNat
  let c ← a.chns.get chn
  if ValidChannel c.chnum then some chn else none

/-- `allocation_get_ch_info_by_peer_addr` -/
def getChInfoByPeerAddr (a : Allocation) (peerAddr : IoaAddr) : Option Ref :=
  (a.getPermission peerAddr).bind fun tinfo => a.getTurnChannel tinfo peerAddr

/-- The permission of a host, which is added if there is none. -/
def permissionFor (a : Allocation) (addr : IoaAddr) : Ref × Allocation :=
  match a.getPermission addr with
  | some tinfo => (tinfo, a)
  | none => a.addPermission addr

/-- The end of `allocation_get_new_ch_info`: a channel of the permission `tinfo`. -/
def addChannel (a : Allocation) (tinfo : Ref) (chnum : Nat) (peerAddr : IoaAddr) : Ref × Allocation :=
  let chn := a.chns.fresh (chnIndex chnum)
  (chn,
    { chns := a.chns.write chn (some ⟨chnum, peerAddr.getPort, peerAddr, tinfo, none⟩)
      addrToPerm := a.addrToPerm.modify tinfo fun t =>
        { t with chns := (t.chns.put peerAddr.getPort.toNat chn).2 } })

/-- `allocation_get_new_ch_info` -/
def getNewChInfo (a : Allocation) (chnum : Nat) (peerAddr : IoaAddr) : Ref × Allocation :=
  (a.permissionFor peerAddr).2.addChannel (a.permissionFor peerAddr).1 chnum peerAddr

/-- `turn_channel_delete` -/
def channelDelete (a : Allocation) (chn : Ref) : Allocation :=
  match a.chns.get chn with
  | some c =>
    { chns := a.chns.write chn none
      addrToPerm := a.addrToPerm.modify c.owner fun t =>
        { t with chns := t.chns.del c.peerAddr.getPort.toNat } }
  | none => a

/-- `turn_permission_clean` -/
def permissionClean (a : Allocation) (tinfo : Ref) : Allocation :=
  match a.addrToPerm.get tinfo with
  | some t =>
    { chns := a.chns.clearAll t.chns.values
      addrToPerm := a.addrToPerm.write tinfo none }
  | none => a

/-- The timer of a permission is set. -/
def setPermTimer (a : Allocation) (tinfo : Ref) (time : Nat) : Allocation :=
  { a with addrToPerm := a.addrToPerm.modify tinfo fun t => { t with timer := some time } }

/-- The timer of a channel is set. -/
def setChnTimer (a : Allocation) (chn : Ref) (time : Nat) : Allocation :=
  { a with chns := a.chns.modify chn fun c => { c with timer := some time } }

/-! ## The invariant -/

/-- The channel `c` at `r`: its permission is the one of its host and has a pointer to it. -/
structure Bound (a : Allocation) (r : Ref) (c : ChInfo) : Prop where
  valid : ValidChannel c.chnum
  port : c.port = c.peerAddr.getPort
  port_ne : c.port.toNat ≠ 0
  owned : ∃ t, a.addrToPerm.get c.owner = some t ∧ t.addr.AddrEqNoPort c.peerAddr ∧
    t.chns.get c.port.toNat = some r

/-- The permission `t` at `o`: it points to its own channels. -/
structure Owns (a : Allocation) (o : Ref) (t : PermissionInfo) : Prop where
  wellFormed : t.chns.WellFormed
  channels : ∀ p r, t.chns.get p = some r → ∃ c, a.chns.get r = some c ∧ c.port.toNat = p ∧ c.owner = o

structure Consistent (a : Allocation) : Prop where
  permPlaced : a.addrToPerm.Placed fun t => permIndex t.addr
  chnPlaced : a.chns.Placed fun c => chnIndex c.chnum
  permUnique : ∀ o o' t t', a.addrToPerm.get o = some t → a.addrToPerm.get o' = some t' →
    t.addr.AddrEqNoPort t'.addr → o = o'
  chnUnique : ∀ r r' c c', a.chns.get r = some c → a.chns.get r' = some c' → c.chnum = c'.chnum → r = r'
  bound : ∀ r c, a.chns.get r = some c → a.Bound r c
  owns : ∀ o t, a.addrToPerm.get o = some t → a.Owns o t

theorem consistent_init : init.Consistent where
  permPlaced := Table.placed_empty _ _
  chnPlaced := Table.placed_empty _ _
  permUnique := fun _ _ _ _ h => by cases h
  chnUnique := fun _ _ _ _ h => by cases h
  bound := fun _ _ h => by cases h
  owns := fun _ _ h => by cases h

namespace Consistent

/-! ### Searches -/

theorem getPermission_eq_none (h : a.Consistent) :
    a.getPermission addr = none ↔ ∀ o t, a.addrToPerm.get o = some t → ¬ t.addr.AddrEqNoPort addr := by
  unfold getPermission
  rw [h.permPlaced.find_eq_none fun t ht => by
    unfold permIndex
    rw [(of_decide_eq_true ht).hash_eq]]
  exact forall_congr' fun o => forall_congr' fun t => by rw [decide_eq_false_iff_not]

theorem getPermission_eq_some (h : a.Consistent) :
    a.getPermission addr = some o ↔ ∃ t, a.addrToPerm.get o = some t ∧ t.addr.AddrEqNoPort addr := by
  constructor
  · intro hs
    obtain ⟨-, t, ht, heq⟩ := Table.find_eq_some hs
    exact ⟨t, ht, of_decide_eq_true heq⟩
  · rintro ⟨t, ht, heq⟩
    cases hs : a.getPermission addr with
    | none => exact absurd heq (h.getPermission_eq_none.mp hs o t ht)
    | some o' =>
      obtain ⟨-, t', ht', heq'⟩ := Table.find_eq_some hs
      rw [h.permUnique o o' t t' ht ht' (heq.trans (of_decide_eq_true heq').symm)]

theorem getChInfo_eq_none (h : a.Consistent) :
    a.getChInfo chnum = none ↔ ∀ r c, a.chns.get r = some c → c.chnum ≠ chnum := by
  unfold getChInfo
  rw [h.chnPlaced.find_eq_none fun c hc => by rw [of_decide_eq_true hc]]
  exact forall_congr' fun r => forall_congr' fun c => by rw [decide_eq_false_iff_not]

theorem getChInfo_eq_some (h : a.Consistent) :
    a.getChInfo chnum = some r ↔ ∃ c, a.chns.get r = some c ∧ c.chnum = chnum := by
  constructor
  · intro hs
    obtain ⟨-, c, hc, heq⟩ := Table.find_eq_some hs
    exact ⟨c, hc, of_decide_eq_true heq⟩
  · rintro ⟨c, hc, heq⟩
    cases hs : a.getChInfo chnum with
    | none => exact absurd heq (h.getChInfo_eq_none.mp hs r c hc)
    | some r' =>
      obtain ⟨-, c', hc', heq'⟩ := Table.find_eq_some hs
      rw [h.chnUnique r r' c c' hc hc' (heq.trans (of_decide_eq_true heq').symm)]

/-- The channel that a permission has for a peer of its host. -/
theorem getTurnChannel_eq_some (h : a.Consistent) (ht : a.addrToPerm.get o = some tinfo)
    (heq : tinfo.addr.AddrEqNoPort peer) :
    a.getTurnChannel o peer = some r ↔ ∃ c, a.chns.get r = some c ∧ c.peerAddr = peer := by
  have howns := h.owns o tinfo ht
  simp only [getTurnChannel, ht, Option.bind_eq_bind, Option.bind_some]
  constructor
  · intro hs
    obtain ⟨r', hr', hs⟩ := Option.bind_eq_some_iff.mp hs
    obtain ⟨c, hc, hs⟩ := Option.bind_eq_some_iff.mp hs
    split at hs
    · cases hs
      obtain ⟨c', hc', hport, howner⟩ := howns.channels _ _ hr'
      rw [hc] at hc'
      cases hc'
      have hbound := h.bound r c hc
      obtain ⟨t, ht', heq', -⟩ := hbound.owned
      rw [howner, ht] at ht'
      cases ht'
      refine ⟨c, hc, IoaAddr.eq_of_setPort ?_ ?_⟩
      · exact (IoaAddr.addrEqNoPort_iff.mp heq').2.symm.trans (IoaAddr.addrEqNoPort_iff.mp heq).2
      · rw [← hbound.port]
        exact UInt16.toNat_inj.mp hport
    · cases hs
  · rintro ⟨c, hc, rfl⟩
    have hbound := h.bound r c hc
    obtain ⟨t, ht', heq', hget⟩ := hbound.owned
    obtain rfl := h.permUnique o c.owner tinfo t ht ht' (heq.trans heq'.symm)
    rw [ht] at ht'
    cases ht'
    rw [hbound.port] at hget
    simp [hget, hc, hbound.valid]

/-- **The channel of a peer.** -/
theorem getChInfoByPeerAddr_eq_some (h : a.Consistent) :
    a.getChInfoByPeerAddr peer = some r ↔ ∃ c, a.chns.get r = some c ∧ c.peerAddr = peer := by
  unfold getChInfoByPeerAddr
  cases hs : a.getPermission peer with
  | some o =>
    obtain ⟨t, ht, heq⟩ := h.getPermission_eq_some.mp hs
    exact h.getTurnChannel_eq_some ht heq
  | none =>
    refine iff_of_false (fun hr => ?_) ?_
    · cases hr
    · rintro ⟨c, hc, rfl⟩
      obtain ⟨t, ht, heq, -⟩ := (h.bound r c hc).owned
      exact h.getPermission_eq_none.mp hs _ t ht heq

/-- **A peer has at most one channel.** -/
theorem chn_of_peer (h : a.Consistent) {r' : Ref} {c' : ChInfo} (hc : a.chns.get r = some c)
    (hc' : a.chns.get r' = some c') (heq : c.peerAddr = c'.peerAddr) : r = r' := by
  have hr := h.getChInfoByPeerAddr_eq_some.mpr ⟨c, hc, rfl⟩
  have hr' := h.getChInfoByPeerAddr_eq_some.mpr ⟨c', hc', rfl⟩
  rw [heq, hr'] at hr
  exact (Option.some.inj hr).symm

/-! ### Changes -/

/-- Each channel keeps its permission if the permissions change only in their timers. -/
theorem setPermTimer (h : a.Consistent) (o : Ref) (time : Nat) : (a.setPermTimer o time).Consistent := by
  have hget : ∀ {o' t'}, (a.setPermTimer o time).addrToPerm.get o' = some t' →
      ∃ t, a.addrToPerm.get o' = some t ∧ t'.addr = t.addr ∧ t'.chns = t.chns := by
    intro o' t' ht'
    obtain ⟨t, ht, rfl⟩ := Table.get_of_modify ht'
    refine ⟨t, ht, ?_⟩
    split <;> exact ⟨rfl, rfl⟩
  refine ⟨?_, h.chnPlaced, ?_, h.chnUnique, ?_, ?_⟩
  · exact h.permPlaced.modify fun t => rfl
  · intro o₁ o₂ t₁ t₂ h₁ h₂ heq
    obtain ⟨u₁, hu₁, haddr₁, -⟩ := hget h₁
    obtain ⟨u₂, hu₂, haddr₂, -⟩ := hget h₂
    rw [haddr₁, haddr₂] at heq
    exact h.permUnique o₁ o₂ u₁ u₂ hu₁ hu₂ heq
  · intro r c hc
    obtain ⟨hvalid, hport, hne, t, ht, heq, hchn⟩ := h.bound r c hc
    refine ⟨hvalid, hport, hne, ?_⟩
    by_cases ho : c.owner = o
    · subst ho
      exact ⟨_, Table.get_modify_self ht, heq, hchn⟩
    · exact ⟨t, (Table.get_write_of_ne _ ho _).trans ht, heq, hchn⟩
  · intro o' t' ht'
    obtain ⟨t, ht, -, hchns⟩ := hget ht'
    obtain ⟨hwf, hchn⟩ := h.owns o' t ht
    refine ⟨hchns ▸ hwf, ?_⟩
    rw [hchns]
    exact hchn

theorem setChnTimer (h : a.Consistent) (chn : Ref) (time : Nat) : (a.setChnTimer chn time).Consistent := by
  have hget : ∀ {r c'}, (a.setChnTimer chn time).chns.get r = some c' →
      ∃ c, a.chns.get r = some c ∧ c'.chnum = c.chnum ∧ c'.port = c.port ∧ c'.peerAddr = c.peerAddr ∧
        c'.owner = c.owner := by
    intro r c' hc'
    obtain ⟨c, hc, rfl⟩ := Table.get_of_modify hc'
    refine ⟨c, hc, ?_⟩
    split <;> exact ⟨rfl, rfl, rfl, rfl⟩
  refine ⟨h.permPlaced, ?_, h.permUnique, ?_, ?_, ?_⟩
  · exact h.chnPlaced.modify fun c => rfl
  · intro r₁ r₂ c₁ c₂ h₁ h₂ heq
    obtain ⟨d₁, hd₁, hnum₁, -⟩ := hget h₁
    obtain ⟨d₂, hd₂, hnum₂, -⟩ := hget h₂
    rw [hnum₁, hnum₂] at heq
    exact h.chnUnique r₁ r₂ d₁ d₂ hd₁ hd₂ heq
  · intro r c' hc'
    obtain ⟨c, hc, hnum, hport, hpeer, howner⟩ := hget hc'
    obtain ⟨hvalid, hport', hne, howned⟩ := h.bound r c hc
    refine ⟨hnum ▸ hvalid, ?_, hport ▸ hne, ?_⟩
    · rw [hport, hpeer]
      exact hport'
    · rw [howner, hpeer, hport]
      exact howned
  · intro o t ht
    obtain ⟨hwf, hchn⟩ := h.owns o t ht
    refine ⟨hwf, fun p r hr => ?_⟩
    obtain ⟨c, hc, hport, howner⟩ := hchn p r hr
    by_cases hrc : r = chn
    · subst hrc
      exact ⟨_, Table.get_modify_self hc, hport, howner⟩
    · exact ⟨c, (Table.get_write_of_ne _ hrc _).trans hc, hport, howner⟩

/-- A permission is added for a host that has none. -/
theorem addPermission (h : a.Consistent) (hnone : a.getPermission addr = none) :
    (a.addPermission addr).2.Consistent := by
  rw [h.getPermission_eq_none] at hnone
  have hfresh := Table.get_fresh a.addrToPerm (permIndex addr)
  generalize hslot : a.addrToPerm.fresh (permIndex addr) = slot at hfresh
  have heq : (a.addPermission addr).2 =
      { a with addrToPerm := a.addrToPerm.write slot (some ⟨addr, .init, none⟩) } := by
    rw [Allocation.addPermission, hslot]
  rw [heq]
  have hold : ∀ {o t}, a.addrToPerm.get o = some t → o ≠ slot := by
    rintro o t ht rfl
    rw [hfresh] at ht
    cases ht
  refine ⟨?_, h.chnPlaced, ?_, h.chnUnique, ?_, ?_⟩
  · refine h.permPlaced.write fun t ht => ?_
    cases ht
    rw [← hslot]
    rfl
  · intro o₁ o₂ t₁ t₂ h₁ h₂ hsame
    rcases Table.get_of_write h₁ with ⟨ho₁, ht₁⟩ | ⟨-, ht₁⟩ <;>
      rcases Table.get_of_write h₂ with ⟨ho₂, ht₂⟩ | ⟨-, ht₂⟩
    · exact ho₁.trans ho₂.symm
    · cases ht₁
      exact absurd hsame.symm (hnone o₂ t₂ ht₂)
    · cases ht₂
      exact absurd hsame (hnone o₁ t₁ ht₁)
    · exact h.permUnique o₁ o₂ t₁ t₂ ht₁ ht₂ hsame
  · intro r c hc
    obtain ⟨hvalid, hport, hne, t, ht, hpeer⟩ := h.bound r c hc
    exact ⟨hvalid, hport, hne, t, (Table.get_write_of_ne _ (hold ht) _).trans ht, hpeer⟩
  · intro o t ht
    rcases Table.get_of_write ht with ⟨-, ht⟩ | ⟨-, ht⟩
    · cases ht
      refine ⟨LmMap.wellFormed_init, fun p r hr => ?_⟩
      rw [LmMap.get_init] at hr
      cases hr
    · obtain ⟨hwf, hchn⟩ := h.owns o t ht
      exact ⟨hwf, hchn⟩

/-- A channel is added for a number and a peer that have none. -/
theorem addChannel (h : a.Consistent) (ht : a.addrToPerm.get o = some tinfo)
    (heq : tinfo.addr.AddrEqNoPort peer) (hport : peer.getPort.toNat ≠ 0) (hvalid : ValidChannel chnum)
    (hnum : a.getChInfo chnum = none) (hpeer : a.getChInfoByPeerAddr peer = none) :
    (a.addChannel o chnum peer).2.Consistent := by
  rw [h.getChInfo_eq_none] at hnum
  have hnew : tinfo.chns.get peer.getPort.toNat = none := by
    refine Option.eq_none_iff_forall_ne_some.mpr fun r hr => ?_
    obtain ⟨c, hc, hp, howner⟩ := (h.owns o tinfo ht).channels _ _ hr
    have hsome : a.getTurnChannel o peer = some r := by
      simp [getTurnChannel, ht, hr, hc, (h.bound r c hc).valid]
    have hperm := h.getPermission_eq_some.mpr ⟨tinfo, ht, heq⟩
    rw [getChInfoByPeerAddr, hperm] at hpeer
    rw [Option.bind_some, hsome] at hpeer
    cases hpeer
  have hfresh := Table.get_fresh a.chns (chnIndex chnum)
  generalize hslot : a.chns.fresh (chnIndex chnum) = chn at hfresh
  obtain ⟨hwf, hget⟩ := (h.owns o tinfo ht).wellFormed.put hport hnew chn
  have hold : ∀ {r c}, a.chns.get r = some c → r ≠ chn := by
    rintro r c hc rfl
    rw [hfresh] at hc
    cases hc
  have heq' : (a.addChannel o chnum peer).2 =
      { chns := a.chns.write chn (some ⟨chnum, peer.getPort, peer, o, none⟩)
        addrToPerm := a.addrToPerm.modify o fun t => { t with chns := (t.chns.put peer.getPort.toNat chn).2 } } := by
    rw [Allocation.addChannel, hslot]
  rw [heq']
  have hself := Table.get_modify_self (f := fun t : PermissionInfo =>
    { t with chns := (t.chns.put peer.getPort.toNat chn).2 }) ht
  refine ⟨?_, ?_, ?_, ?_, ?_, ?_⟩
  · exact h.permPlaced.modify fun t => rfl
  · refine h.chnPlaced.write fun c hc => ?_
    cases hc
    rw [← hslot]
    rfl
  · intro o₁ o₂ t₁ t₂ h₁ h₂ hsame
    obtain ⟨u₁, hu₁, rfl⟩ := Table.get_of_modify h₁
    obtain ⟨u₂, hu₂, rfl⟩ := Table.get_of_modify h₂
    refine h.permUnique o₁ o₂ u₁ u₂ hu₁ hu₂ ?_
    split at hsame <;> split at hsame <;> exact hsame
  · intro r₁ r₂ c₁ c₂ h₁ h₂ hsame
    rcases Table.get_of_write h₁ with ⟨hr₁, hc₁⟩ | ⟨-, hc₁⟩ <;>
      rcases Table.get_of_write h₂ with ⟨hr₂, hc₂⟩ | ⟨-, hc₂⟩
    · exact hr₁.trans hr₂.symm
    · cases hc₁
      exact absurd hsame.symm (hnum r₂ c₂ hc₂)
    · cases hc₂
      exact absurd hsame (hnum r₁ c₁ hc₁)
    · exact h.chnUnique r₁ r₂ c₁ c₂ hc₁ hc₂ hsame
  · intro r c hc
    rcases Table.get_of_write hc with ⟨hr, hnew'⟩ | ⟨-, hc⟩
    · cases hnew'
      refine ⟨hvalid, rfl, hport, _, hself, heq, ?_⟩
      rw [hr]
      exact (hget _).trans (if_pos rfl)
    · obtain ⟨hvalid', hport', hne, t, ht', heq'', hchn⟩ := h.bound r c hc
      refine ⟨hvalid', hport', hne, ?_⟩
      by_cases ho : c.owner = o
      · rw [ho, ht] at ht'
        cases ht'
        refine ⟨{ tinfo with chns := (tinfo.chns.put peer.getPort.toNat chn).2 }, ?_, heq'', (hget _).trans ?_⟩
        · rw [ho]
          exact hself
        rw [if_neg]
        · exact hchn
        · intro hp
          rw [hp, hnew] at hchn
          cases hchn
      · exact ⟨t, (Table.get_write_of_ne _ ho _).trans ht', heq'', hchn⟩
  · intro o' t' ht'
    obtain ⟨t, ht₀, rfl⟩ := Table.get_of_modify ht'
    obtain ⟨hwf₀, hchn₀⟩ := h.owns o' t ht₀
    have hkeep : ∀ p r, t.chns.get p = some r → ∃ c,
        (a.chns.write chn (some ⟨chnum, peer.getPort, peer, o, none⟩)).get r = some c ∧ c.port.toNat = p ∧
          c.owner = o' := by
      intro p r hr
      obtain ⟨c, hc, hp⟩ := hchn₀ p r hr
      exact ⟨c, (Table.get_write_of_ne _ (hold hc) _).trans hc, hp⟩
    by_cases ho : o' = o
    · subst ho
      rw [ht] at ht₀
      cases ht₀
      rw [if_pos rfl]
      refine ⟨hwf, fun p r hr => ?_⟩
      have hr' := (hget p).symm.trans hr
      split at hr'
      · rename_i hp
        cases hr'
        exact ⟨_, Table.get_write_self _ _ _, hp.symm, rfl⟩
      · exact hkeep p r hr'
    · rw [if_neg ho]
      exact ⟨hwf₀, hkeep⟩

theorem channelDelete (h : a.Consistent) (chn : Ref) : (a.channelDelete chn).Consistent := by
  unfold Allocation.channelDelete
  cases hc : a.chns.get chn with
  | none => exact h
  | some c =>
    obtain ⟨-, hport, -, tinfo, ht, -, hchn⟩ := h.bound chn c hc
    rw [hport] at hchn
    obtain ⟨hwf, hget⟩ := (h.owns c.owner tinfo ht).wellFormed.del c.peerAddr.getPort.toNat
    have hself := Table.get_modify_self (f := fun t : PermissionInfo =>
      { t with chns := t.chns.del c.peerAddr.getPort.toNat }) ht
    refine ⟨?_, ?_, ?_, ?_, ?_, ?_⟩
    · exact h.permPlaced.modify fun t => rfl
    · refine h.chnPlaced.write fun c' hc' => ?_
      cases hc'
    · intro o₁ o₂ t₁ t₂ h₁ h₂ hsame
      obtain ⟨u₁, hu₁, rfl⟩ := Table.get_of_modify h₁
      obtain ⟨u₂, hu₂, rfl⟩ := Table.get_of_modify h₂
      refine h.permUnique o₁ o₂ u₁ u₂ hu₁ hu₂ ?_
      split at hsame <;> split at hsame <;> exact hsame
    · intro r₁ r₂ c₁ c₂ h₁ h₂ hsame
      rcases Table.get_of_write h₁ with ⟨-, hc₁⟩ | ⟨-, hc₁⟩
      · cases hc₁
      rcases Table.get_of_write h₂ with ⟨-, hc₂⟩ | ⟨-, hc₂⟩
      · cases hc₂
      exact h.chnUnique r₁ r₂ c₁ c₂ hc₁ hc₂ hsame
    · intro r c' hc'
      rcases Table.get_of_write hc' with ⟨-, hnone⟩ | ⟨hr, hc'⟩
      · cases hnone
      obtain ⟨hvalid, hport', hne, t, ht', heq, hchn'⟩ := h.bound r c' hc'
      refine ⟨hvalid, hport', hne, ?_⟩
      by_cases ho : c'.owner = c.owner
      · rw [ho, ht] at ht'
        cases ht'
        refine ⟨{ tinfo with chns := tinfo.chns.del c.peerAddr.getPort.toNat }, ?_, heq, (hget _).trans ?_⟩
        · rw [ho]
          exact hself
        · rw [if_neg]
          · exact hchn'
          · intro hp
            rw [hp, hchn] at hchn'
            exact hr (Option.some.inj hchn').symm
      · exact ⟨t, (Table.get_write_of_ne _ ho _).trans ht', heq, hchn'⟩
    · intro o' t' ht'
      obtain ⟨t, ht₀, rfl⟩ := Table.get_of_modify ht'
      obtain ⟨hwf₀, hchn₀⟩ := h.owns o' t ht₀
      have hkeep : ∀ p r, r ≠ chn → t.chns.get p = some r → ∃ c',
          (a.chns.write chn none).get r = some c' ∧ c'.port.toNat = p ∧ c'.owner = o' := by
        intro p r hr hp
        obtain ⟨c', hc', hp'⟩ := hchn₀ p r hp
        exact ⟨c', (Table.get_write_of_ne _ hr _).trans hc', hp'⟩
      by_cases ho : o' = c.owner
      · subst ho
        rw [ht] at ht₀
        cases ht₀
        rw [if_pos rfl]
        refine ⟨hwf, fun p r hr => ?_⟩
        have hr' := (hget p).symm.trans hr
        split at hr'
        · cases hr'
        · rename_i hp
          refine hkeep p r ?_ hr'
          rintro rfl
          obtain ⟨c', hc', hp', -⟩ := hchn₀ p r hr'
          rw [hc] at hc'
          cases hc'
          rw [hport] at hp'
          exact hp hp'.symm
      · rw [if_neg ho]
        refine ⟨hwf₀, fun p r hr => hkeep p r ?_ hr⟩
        rintro rfl
        obtain ⟨c', hc', -, howner⟩ := hchn₀ p r hr
        rw [hc] at hc'
        cases hc'
        exact ho howner.symm

/-- A permission has the channels that point to it. -/
theorem mem_values (h : a.Consistent) (ht : a.addrToPerm.get o = some tinfo) (hc : a.chns.get r = some c) :
    r ∈ tinfo.chns.values ↔ c.owner = o := by
  obtain ⟨hwf, hchn⟩ := h.owns o tinfo ht
  rw [hwf.mem_values]
  constructor
  · rintro ⟨p, hp⟩
    obtain ⟨c', hc', -, ho⟩ := hchn p r hp
    rw [hc] at hc'
    cases hc'
    exact ho
  · rintro rfl
    obtain ⟨t, ht', -, hp⟩ := (h.bound r c hc).owned
    rw [ht] at ht'
    cases ht'
    exact ⟨_, hp⟩

/-- The channels of a permission end with it. -/
theorem permissionClean (h : a.Consistent) (o : Ref) : (a.permissionClean o).Consistent := by
  unfold Allocation.permissionClean
  cases ht : a.addrToPerm.get o with
  | none => exact h
  | some tinfo =>
    have howner : ∀ {r c}, a.chns.get r = some c → (r ∈ tinfo.chns.values ↔ c.owner = o) := h.mem_values ht
    refine ⟨?_, ?_, ?_, ?_, ?_, ?_⟩
    · refine h.permPlaced.write fun t ht => ?_
      cases ht
    · intro r c hc
      exact h.chnPlaced r c (Table.get_of_clearAll hc).2
    · intro o₁ o₂ t₁ t₂ h₁ h₂ hsame
      rcases Table.get_of_write h₁ with ⟨-, ht₁⟩ | ⟨-, ht₁⟩
      · cases ht₁
      rcases Table.get_of_write h₂ with ⟨-, ht₂⟩ | ⟨-, ht₂⟩
      · cases ht₂
      exact h.permUnique o₁ o₂ t₁ t₂ ht₁ ht₂ hsame
    · intro r₁ r₂ c₁ c₂ h₁ h₂ hsame
      exact h.chnUnique r₁ r₂ c₁ c₂ (Table.get_of_clearAll h₁).2 (Table.get_of_clearAll h₂).2 hsame
    · intro r c hc
      obtain ⟨hr, hc⟩ := Table.get_of_clearAll hc
      obtain ⟨hvalid, hport, hne, t, ht', heq, hp⟩ := h.bound r c hc
      have ho : c.owner ≠ o := fun ho => hr ((howner hc).mpr ho)
      exact ⟨hvalid, hport, hne, t, (Table.get_write_of_ne _ ho _).trans ht', heq, hp⟩
    · intro o' t' ht'
      rcases Table.get_of_write ht' with ⟨-, hnone⟩ | ⟨ho, ht'⟩
      · cases hnone
      obtain ⟨hwf', hchn'⟩ := h.owns o' t' ht'
      refine ⟨hwf', fun p r hr => ?_⟩
      obtain ⟨c, hc, hp, howner'⟩ := hchn' p r hr
      refine ⟨c, ?_, hp, howner'⟩
      rw [Table.get_clearAll, if_neg]
      · exact hc
      · intro hmem
        exact ho (howner'.symm.trans ((howner hc).mp hmem))

/-- The permission of a host, old or new. -/
theorem permissionFor (h : a.Consistent) (addr : IoaAddr) :
    (a.permissionFor addr).2.Consistent ∧ (a.permissionFor addr).2.chns = a.chns ∧
      ∃ t, (a.permissionFor addr).2.addrToPerm.get (a.permissionFor addr).1 = some t ∧
        (addr.HasFamily → t.addr.AddrEqNoPort addr) ∧
        ((a.addrToPerm.get (a.permissionFor addr).1 = some t ∧ (a.permissionFor addr).2 = a) ∨
          (a.getPermission addr = none ∧ t = ⟨addr, .init, none⟩)) := by
  unfold Allocation.permissionFor
  cases hs : a.getPermission addr with
  | some o =>
    obtain ⟨t, ht, heq⟩ := h.getPermission_eq_some.mp hs
    exact ⟨h, rfl, t, ht, fun _ => heq, .inl ⟨ht, rfl⟩⟩
  | none =>
    refine ⟨h.addPermission hs, rfl, ⟨addr, .init, none⟩, Table.get_write_self _ _ _, fun hf => ?_, .inr ⟨rfl, rfl⟩⟩
    exact IoaAddr.addrEqNoPort_iff.mpr ⟨hf, rfl⟩

end Consistent

end Allocation
end Turn
end QosSupport
