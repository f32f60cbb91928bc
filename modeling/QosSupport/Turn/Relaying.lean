import QosSupport.Turn.Channels

/-!
# What a session relays (`broker/coturn/src/server/ns_turn_server.c`)

What holds in every state of every run of `Session.Step`, for the data that goes through the relay.

* `relay_directions_agree`: a channel number and a peer belong together in both directions.
* `relay_only_good_peers`: nothing goes to or comes from a peer that the settings forbid.
* `createPermission_timer`: a permission that is asked for again has 300 seconds, and so have its channels.
-/

namespace QosSupport
namespace Turn

/-! ## The two directions -/

section Relay

variable {a : Allocation} {n : Nat} {p : IoaAddr}

theorem writeToPeerchannel_eq_some (h : a.Consistent) :
    writeToPeerchannel a n = some p ↔ ∃ r c, a.chns.get r = some c ∧ c.chnum = n ∧ c.peerAddr = p := by
  unfold writeToPeerchannel
  rw [Option.map_eq_some_iff]
  constructor
  · rintro ⟨c, hc, rfl⟩
    obtain ⟨r, hr, hc⟩ := Option.bind_eq_some_iff.mp hc
    obtain ⟨c', hc', hnum⟩ := h.getChInfo_eq_some.mp hr
    rw [hc] at hc'
    cases hc'
    exact ⟨r, c, hc, hnum, rfl⟩
  · rintro ⟨r, c, hc, hnum, hp⟩
    refine ⟨c, ?_, hp⟩
    rw [h.getChInfo_eq_some.mpr ⟨c, hc, hnum⟩]
    exact hc

theorem peerInput_eq_channelData (h : a.Consistent) (srv : RelayServer) :
    peerInput srv a p = .channelData n ↔ ∃ r c, a.chns.get r = some c ∧ c.chnum = n ∧ c.peerAddr = p := by
  unfold peerInput
  cases hs : a.getPermission p with
  | none =>
    refine iff_of_false ?_ ?_
    · dsimp only
      split <;> exact fun h => by cases h
    · rintro ⟨r, c, hc, -, rfl⟩
      obtain ⟨t, ht, heq, -⟩ := (h.bound r c hc).owned
      exact h.getPermission_eq_none.mp hs _ t ht heq
  | some o =>
    obtain ⟨t, ht, heq⟩ := h.getPermission_eq_some.mp hs
    dsimp only
    unfold getTurnChannelNumber
    cases hch : a.getTurnChannel o p with
    | none =>
      refine iff_of_false (by simp) ?_
      rintro ⟨r, c, hc, -, rfl⟩
      rw [(h.getTurnChannel_eq_some ht heq).mpr ⟨c, hc, rfl⟩] at hch
      cases hch
    | some r =>
      obtain ⟨c, hc, rfl⟩ := (h.getTurnChannel_eq_some ht heq).mp hch
      have hvalid := (h.bound r c hc).valid
      have hne : c.chnum ≠ 0 := by
        unfold ValidChannel at hvalid
        omega
      simp only [Option.bind_some, hc, hne, ne_eq, not_false_eq_true, if_true, ToClient.channelData.injEq]
      constructor
      · rintro rfl
        exact ⟨r, c, hc, rfl, rfl⟩
      · rintro ⟨r', c', hc', hnum, hp⟩
        obtain rfl := h.chn_of_peer hc hc' hp.symm
        rw [hc] at hc'
        cases hc'
        exact hnum

end Relay

/-- A small server: it has an IPv4 relay, and does not allow loopback peers. -/
def smallServer : RelayServer where
  filter := ⟨"", false, true, [], [], [], []⟩
  isTcpRelay := false
  isValid := true
  relay4 := true
  relay6 := false
  serverRelay := false
  dontFragment := true

/-- A peer of the small server. -/
def smallPeer : IoaAddr := .v4 ![10, 0, 0, 1] 5000

/-- The session after one channel bind request. -/
def smallSession : Session :=
  { Session.init with
    alloc := (channelBind smallServer 0 .init [.channelNumber 0x4000, .xorPeerAddress smallPeer]).2 }

theorem smallSession_run {P : Session → SessionEvent → Prop}
    (h : P .init (.channelBind smallServer [.channelNumber 0x4000, .xorPeerAddress smallPeer])) :
    Run.Steps Session.Step P .init [.channelBind smallServer [.channelNumber 0x4000, .xorPeerAddress smallPeer]]
      smallSession :=
  .one h (.channelBind _ _ _)

/-- **The two directions of a channel agree.** In every state of every run, data on a channel goes to a peer
exactly if the data of this peer comes on that channel. So numbers and peers are in one-to-one relation. -/
theorem relay_directions_agree {es : List SessionEvent} {s : Session} (hrun : Run.Steps Session.Step Run.Any .init es s)
    (srv : RelayServer) (n : Nat) (p : IoaAddr) :
    writeToPeerchannel s.alloc n = some p ↔ peerInput srv s.alloc p = .channelData n := by
  have h := consistent_of_run hrun
  rw [writeToPeerchannel_eq_some h, peerInput_eq_channelData h]

theorem relay_directions_agree_small :
    writeToPeerchannel smallSession.alloc 0x4000 = some smallPeer ∧
      peerInput smallServer smallSession.alloc smallPeer = .channelData 0x4000 := by
  have h : writeToPeerchannel smallSession.alloc 0x4000 = some smallPeer := by decide
  exact ⟨h, (relay_directions_agree (smallSession_run trivial) smallServer 0x4000 smallPeer).mp h⟩

/-! ## Peers that are not allowed -/

theorem goodPeerAddr_setPort (f : PeerFilter) (addr : IoaAddr) (p : UInt16) :
    goodPeerAddr f (addr.setPort p) = goodPeerAddr f addr := by
  have hlist : ∀ list, inList f.realm list (addr.setPort p) = inList f.realm list addr := by
    intro list
    unfold inList
    simp only [IoaAddr.inRange_setPort]
  have hmulticast : (addr.setPort p).IsMulticast ↔ addr.IsMulticast := by
    cases addr <;> rfl
  have hloopback : (addr.setPort p).IsLoopback ↔ addr.IsLoopback := by
    cases addr <;> rfl
  unfold goodPeerAddr
  simp only [hlist, hmulticast, hloopback]

/-- A peer is allowed or not by its host. -/
theorem goodPeerAddr_of_host (f : PeerFilter) {addr peer : IoaAddr} (h : addr.AddrEqNoPort peer) :
    goodPeerAddr f peer = goodPeerAddr f addr := by
  rw [← goodPeerAddr_setPort f peer 0, ← (IoaAddr.addrEqNoPort_iff.mp h).2, goodPeerAddr_setPort]

/-- All permissions are for hosts that are allowed. -/
def AllGood (f : PeerFilter) (a : Allocation) : Prop :=
  ∀ o t, a.addrToPerm.get o = some t → goodPeerAddr f t.addr = true

/-- The requests of a run are judged by the same settings. -/
def SessionEvent.Filters (f : PeerFilter) : SessionEvent → Prop
  | .channelBind srv _ => srv.filter = f
  | .createPermission srv _ => srv.filter = f
  | _ => True

namespace AllGood

variable {f : PeerFilter} {a : Allocation}

/-- A change of the permissions that keeps their addresses. -/
theorem of_addrs (h : AllGood f a) {a' : Allocation} {o : Ref} {g : PermissionInfo → PermissionInfo}
    (heq : a'.addrToPerm = a.addrToPerm.modify o g) (hg : ∀ t, (g t).addr = t.addr) : AllGood f a' := by
  intro o' t' ht'
  rw [heq] at ht'
  obtain ⟨t, ht, rfl⟩ := Table.get_of_modify ht'
  split
  · rw [hg]
    exact h o' t ht
  · exact h o' t ht

theorem permissionFor (h : AllGood f a) {addr : IoaAddr} (hgood : goodPeerAddr f addr = true) :
    AllGood f (a.permissionFor addr).2 := by
  unfold Allocation.permissionFor
  split
  · exact h
  · intro o t ht
    rcases Table.get_of_write ht with ⟨-, ht⟩ | ⟨-, ht⟩
    · cases ht
      exact hgood
    · exact h o t ht

theorem channelDelete (h : AllGood f a) (chn : Ref) : AllGood f (a.channelDelete chn) := by
  unfold Allocation.channelDelete
  split
  · exact h.of_addrs rfl fun _ => rfl
  · exact h

theorem permissionClean (h : AllGood f a) (o : Ref) : AllGood f (a.permissionClean o) := by
  unfold Allocation.permissionClean
  split
  · intro o' t ht
    rcases Table.get_of_write ht with ⟨-, ht⟩ | ⟨-, ht⟩
    · cases ht
    · exact h o' t ht
  · exact h

theorem touches (h : AllGood f a) {hosts : List IoaAddr} (hgood : ∀ host ∈ hosts, goodPeerAddr f host = true)
    (now : Nat) : AllGood f (hosts.foldl (touch now) a) := by
  induction hosts generalizing a with
  | nil => exact h
  | cons host hosts ih =>
    refine ih ?_ fun x hx => hgood x (List.mem_cons_of_mem _ hx)
    exact (h.permissionFor (hgood host List.mem_cons_self)).of_addrs rfl fun _ => rfl

theorem step {s s' : Session} {e : SessionEvent} (hc : s.alloc.Consistent) (h : AllGood f s.alloc) (he : e.Filters f)
    (hstep : Session.Step s e s') : AllGood f s'.alloc := by
  cases hstep with
  | channelBind srv attrs =>
    obtain rfl : srv.filter = f := he
    dsimp only
    obtain heq | ⟨chn, c, -, heq⟩ | ⟨chnum, peer, -, -, -, -, hgood, heq⟩ :=
      channelBind_cases hc srv s.ctime attrs
    · rw [heq]
      exact h
    · rw [heq]
      exact h.of_addrs rfl fun _ => rfl
    · rw [heq]
      have hnew : AllGood srv.filter (s.alloc.getNewChInfo chnum peer).2 :=
        (h.permissionFor hgood).of_addrs rfl fun _ => rfl
      exact hnew.of_addrs rfl fun _ => rfl
  | createPermission srv attrs =>
    obtain rfl : srv.filter = f := he
    dsimp only
    obtain ⟨-, heq⟩ | ⟨-, heq, hgood⟩ := createPermission_cases srv s.ctime s.alloc attrs
    · rw [heq]
      exact h
    · rw [heq]
      refine h.touches (fun host hmem => ?_) _
      obtain ⟨attr, hattr, hhost⟩ := List.mem_filterMap.mp hmem
      cases attr with
      | xorPeerAddress addr =>
        cases hhost
        rw [goodPeerAddr_setPort]
        exact hgood addr hattr
      | _ => cases hhost
  | channelTimeout _ => exact h.channelDelete _
  | permTimeout _ => exact h.permissionClean _
  | clear =>
    intro o t ht
    cases ht
  | tick seconds => exact h

/-- A host with a permission is allowed. -/
theorem of_getPermission (hc : a.Consistent) (h : AllGood f a) {p : IoaAddr} {o : Ref}
    (hp : a.getPermission p = some o) : goodPeerAddr f p = true := by
  obtain ⟨t, ht, heq⟩ := hc.getPermission_eq_some.mp hp
  rw [goodPeerAddr_of_host f heq]
  exact h o t ht

end AllGood

/-- A send indication goes to a host that has a permission, unless the server relays for everyone. -/
theorem handleTurnSend_permission {srv : RelayServer} {a : Allocation} {attrs : List Attr} {p : IoaAddr} {v : List Byte}
    (hrelay : srv.serverRelay = false) (h : (handleTurnSend srv a attrs).2 = some (p, v)) :
    ∃ o, a.getPermission p = some o := by
  unfold handleTurnSend at h
  split at h
  · cases h
  split at h
  · cases h
  dsimp only at h
  split at h
  · cases h
  split at h
  · cases h
  split at h
  · split at h
    · cases h
    · split at h
      · rename_i hsend
        cases h
        rcases hsend with hsend | hsend
        · rw [hrelay] at hsend
          cases hsend
        · exact Option.isSome_iff_exists.mp hsend
      · cases h
  · cases h

/-- **Nothing is relayed to or from a peer that is not allowed**, in any state of any run, unless the server is a
`server_relay`. -/
theorem relay_only_good_peers {f : PeerFilter} {es : List SessionEvent} {s : Session}
    (hrun : Run.Steps Session.Step (fun _ e => e.Filters f) .init es s) {srv : RelayServer}
    (hrelay : srv.serverRelay = false) (p : IoaAddr) (hbad : goodPeerAddr f p = false) :
    (∀ n, writeToPeerchannel s.alloc n ≠ some p) ∧ (∀ attrs v, (handleTurnSend srv s.alloc attrs).2 ≠ some (p, v)) ∧
      peerInput srv s.alloc p = .dropped := by
  have hboth : s.alloc.Consistent ∧ AllGood f s.alloc := by
    refine hrun.inv (I := fun s => s.alloc.Consistent ∧ AllGood f s.alloc)
      (fun _ _ _ h he hstep => ⟨hstep.consistent h.1, AllGood.step h.1 h.2 he hstep⟩)
      ⟨Allocation.consistent_init, fun o t ht => ?_⟩
    cases ht
  obtain ⟨hc, hgood⟩ := hboth
  have hnone : s.alloc.getPermission p = none := by
    refine Option.eq_none_iff_forall_ne_some.mpr fun o ho => ?_
    rw [AllGood.of_getPermission hc hgood ho] at hbad
    cases hbad
  refine ⟨fun n hn => ?_, fun attrs v hv => ?_, ?_⟩
  · obtain ⟨r, c, hch, -, rfl⟩ := (writeToPeerchannel_eq_some hc).mp hn
    obtain ⟨t, ht, heq, -⟩ := (hc.bound r c hch).owned
    exact hc.getPermission_eq_none.mp hnone _ t ht heq
  · obtain ⟨o, ho⟩ := handleTurnSend_permission hrelay hv
    rw [hnone] at ho
    cases ho
  · unfold peerInput
    rw [hnone, hrelay]
    rfl

theorem relay_only_good_peers_small :
    goodPeerAddr smallServer.filter (.v4 ![127, 0, 0, 1] 80) = false ∧
      peerInput smallServer smallSession.alloc (.v4 ![127, 0, 0, 1] 80) = .dropped := by
  have hbad : goodPeerAddr smallServer.filter (.v4 ![127, 0, 0, 1] 80) = false := by decide
  exact ⟨hbad, (relay_only_good_peers (smallSession_run rfl) rfl _ hbad).2.2⟩

/-! ## How long a channel lives -/

/-- The time at which the permission of a host ends. -/
def Allocation.permTimer (a : Allocation) (addr : IoaAddr) : Option Nat :=
  ((a.getPermission addr).bind a.addrToPerm.get).bind PermissionInfo.timer

section Timers

variable {a : Allocation} {addr host p : IoaAddr} {now n time : Nat}

theorem permTimer_eq_some (h : a.Consistent) :
    a.permTimer addr = some time ↔
      ∃ o t, a.addrToPerm.get o = some t ∧ t.addr.AddrEqNoPort addr ∧ t.timer = some time := by
  unfold Allocation.permTimer
  rw [Option.bind_eq_some_iff]
  constructor
  · rintro ⟨t, ht, htime⟩
    obtain ⟨o, ho, ht⟩ := Option.bind_eq_some_iff.mp ht
    obtain ⟨t', ht', heq⟩ := h.getPermission_eq_some.mp ho
    rw [ht] at ht'
    cases ht'
    exact ⟨o, t, ht, heq, htime⟩
  · rintro ⟨o, t, ht, heq, htime⟩
    refine ⟨t, ?_, htime⟩
    rw [h.getPermission_eq_some.mpr ⟨t, ht, heq⟩]
    exact ht

/-- The permission of a host is for no other host. -/
theorem permissionFor_host (h : a.Consistent) {t : PermissionInfo}
    (ht : (a.permissionFor host).2.addrToPerm.get (a.permissionFor host).1 = some t)
    (heq : t.addr.AddrEqNoPort addr) : host.AddrEqNoPort addr := by
  unfold Allocation.permissionFor at ht
  cases hs : a.getPermission host with
  | some o =>
    obtain ⟨t', ht', heq'⟩ := h.getPermission_eq_some.mp hs
    simp only [hs] at ht
    rw [ht] at ht'
    cases ht'
    exact heq'.symm.trans heq
  | none =>
    simp only [hs] at ht
    obtain rfl := Option.some.inj ((Table.get_write_self _ _ _).symm.trans ht)
    exact heq

/-- The permissions of other hosts are not changed. -/
theorem permissionFor_other {o : Ref} (ho : o ≠ (a.permissionFor host).1) :
    (a.permissionFor host).2.addrToPerm.get o = a.addrToPerm.get o := by
  unfold Allocation.permissionFor at ho ⊢
  cases hs : a.getPermission host with
  | some _ => rfl
  | none =>
    rw [hs] at ho
    exact Table.get_write_of_ne _ ho _

theorem permissionFor_kept {o : Ref} {t : PermissionInfo} (ht : a.addrToPerm.get o = some t) :
    (a.permissionFor host).2.addrToPerm.get o = some t := by
  by_cases ho : o = (a.permissionFor host).1
  · subst ho
    unfold Allocation.permissionFor at ht ⊢
    cases hs : a.getPermission host with
    | some _ =>
      rw [hs] at ht
      exact ht
    | none =>
      rw [hs] at ht
      have hnone := (Table.get_fresh a.addrToPerm (Allocation.permIndex host)).symm.trans ht
      cases hnone
  · rw [permissionFor_other ho]
    exact ht

theorem touch_chns (h : a.Consistent) : (touch now a host).chns = a.chns := (h.permissionFor host).2.1

/-- **A touched permission has 300 seconds**, whatever it had before. -/
theorem permTimer_touch (h : a.Consistent) :
    (touch now a host).permTimer addr = if host.AddrEqNoPort addr then some (now + 300) else a.permTimer addr := by
  have hc := touch_consistent h now host
  obtain ⟨-, -, t₀, ht₀, hhost, -⟩ := h.permissionFor host
  split
  · rename_i heq
    rw [permTimer_eq_some hc]
    exact ⟨_, _, Table.get_modify_self ht₀, (hhost (IoaAddr.addrEqNoPort_iff.mp heq).1).trans heq, rfl⟩
  · rename_i hne
    have hkeep : ∀ o t, t.addr.AddrEqNoPort addr →
        ((touch now a host).addrToPerm.get o = some t ↔ a.addrToPerm.get o = some t) := by
      intro o t heq
      by_cases ho : o = (a.permissionFor host).1
      · subst ho
        refine iff_of_false (fun ht => ?_) fun ht => ?_
        · rw [show (touch now a host).addrToPerm.get _ = _ from Table.get_modify_self ht₀] at ht
          cases ht
          exact hne (permissionFor_host h ht₀ heq)
        · exact hne (permissionFor_host h (permissionFor_kept ht) heq)
      · rw [← permissionFor_other ho]
        rw [show (touch now a host).addrToPerm.get _ = _ from Table.get_write_of_ne _ ho _]
    refine Option.ext fun time => ?_
    simp only [permTimer_eq_some hc, permTimer_eq_some h]
    refine exists_congr fun o => exists_congr fun t => ?_
    constructor
    · rintro ⟨ht, heq, htime⟩
      exact ⟨(hkeep o t heq).mp ht, heq, htime⟩
    · rintro ⟨ht, heq, htime⟩
      exact ⟨(hkeep o t heq).mpr ht, heq, htime⟩

theorem touches_chns (h : a.Consistent) (hosts : List IoaAddr) : (hosts.foldl (touch now) a).chns = a.chns := by
  induction hosts generalizing a with
  | nil => rfl
  | cons host hosts ih => exact (ih (touch_consistent h now host)).trans (touch_chns h)

theorem permTimer_touches (h : a.Consistent) (hosts : List IoaAddr) :
    (hosts.foldl (touch now) a).permTimer addr =
      if ∃ host ∈ hosts, host.AddrEqNoPort addr then some (now + 300) else a.permTimer addr := by
  induction hosts generalizing a with
  | nil => simp
  | cons host hosts ih =>
    rw [List.foldl_cons, ih (touch_consistent h now host), permTimer_touch h]
    simp only [List.mem_cons, exists_eq_or_imp]
    split
    · rename_i hin
      rw [if_pos (.inr hin)]
    · rename_i hout
      simp only [hout, or_false]

/-- The channels that are left after a permission has ended. -/
theorem get_permissionClean (h : a.Consistent) {o r : Ref} {t : PermissionInfo} {c : ChInfo}
    (ht : a.addrToPerm.get o = some t) :
    (a.permissionClean o).chns.get r = some c ↔ a.chns.get r = some c ∧ c.owner ≠ o := by
  unfold Allocation.permissionClean
  rw [ht]
  dsimp only
  rw [Table.get_clearAll]
  constructor
  · intro hc
    split at hc
    · cases hc
    · rename_i hr
      exact ⟨hc, fun ho => hr ((h.mem_values ht hc).mpr ho)⟩
  · rintro ⟨hc, ho⟩
    rw [if_neg fun hr => ho ((h.mem_values ht hc).mp hr)]
    exact hc

/-- The permission of a peer may end, and with it the channel, as soon as its time has come. -/
theorem channel_lost_iff (h : a.Consistent) (hn : writeToPeerchannel a n = some p)
    (htime : a.permTimer p = some time) :
    (∃ o s', Session.Step ⟨a, now⟩ (.permTimeout o) s' ∧ writeToPeerchannel s'.alloc n = none) ↔ time ≤ now := by
  obtain ⟨r, c, hc, rfl, rfl⟩ := (writeToPeerchannel_eq_some h).mp hn
  obtain ⟨o, t, ht, heq, htime⟩ := (permTimer_eq_some h).mp htime
  obtain ⟨t', ht', heq', -⟩ := (h.bound r c hc).owned
  obtain rfl := h.permUnique o c.owner t t' ht ht' (heq.trans heq'.symm)
  rw [ht] at ht'
  cases ht'
  constructor
  · rintro ⟨o', s', hstep, hlost⟩
    cases hstep with
    | permTimeout hdue =>
      obtain ⟨t', time', ht', htime', hle⟩ := hdue
      by_cases ho : c.owner = o'
      · subst ho
        dsimp only at ht'
        rw [ht] at ht'
        cases ht'
        rw [htime] at htime'
        cases htime'
        exact hle
      · have hkept : writeToPeerchannel (a.permissionClean o') c.chnum = some c.peerAddr :=
          (writeToPeerchannel_eq_some (h.permissionClean o')).mpr
            ⟨r, c, (get_permissionClean h ht').mpr ⟨hc, ho⟩, rfl, rfl⟩
        dsimp only at hlost
        rw [hkept] at hlost
        cases hlost
  · intro hle
    refine ⟨c.owner, _, .permTimeout ⟨t, time, ht, htime, hle⟩, ?_⟩
    refine Option.eq_none_iff_forall_ne_some.mpr fun q hq => ?_
    obtain ⟨r', c', hc', hnum, -⟩ := (writeToPeerchannel_eq_some (h.permissionClean c.owner)).mp hq
    obtain ⟨hc', howner⟩ := (get_permissionClean h ht).mp hc'
    obtain rfl := h.chnUnique r' r c' c hc' hc hnum
    rw [hc] at hc'
    cases hc'
    exact howner rfl

end Timers

/-- **An accepted create permission request shortens the life of channels.** In every state of every run it
leaves the channels and their timers alone, and gives the permission of each of its hosts 300 seconds, also one
that a channel had given 600. After that the permission ends and takes the channels with it. -/
theorem createPermission_timer {es : List SessionEvent} {s : Session} (hrun : Run.Steps Session.Step Run.Any .init es s)
    {srv : RelayServer} {attrs : List Attr} {a' : Allocation} {reply : RelayReply}
    (heq : createPermission srv s.ctime s.alloc attrs = (reply, a')) (hok : reply.respConstructed = true) :
    a'.chns = s.alloc.chns ∧
    (∀ addr, a'.permTimer addr =
      if ∃ host ∈ hosts attrs, host.AddrEqNoPort addr then some (s.ctime + 300) else s.alloc.permTimer addr) ∧
    ∀ n p, writeToPeerchannel s.alloc n = some p → (∃ host ∈ hosts attrs, host.AddrEqNoPort p) →
      ∀ d, (∃ o s', Session.Step ⟨a', s.ctime + d⟩ (.permTimeout o) s' ∧ writeToPeerchannel s'.alloc n = none) ↔
        300 ≤ d := by
  have h := consistent_of_run hrun
  obtain ⟨hfail, -⟩ | ⟨-, ha', -⟩ := createPermission_cases srv s.ctime s.alloc attrs
  · rw [heq, hok] at hfail
    cases hfail
  rw [heq] at ha'
  obtain rfl : a' = (hosts attrs).foldl (touch s.ctime) s.alloc := ha'
  have hc' := touches_consistent h s.ctime (hosts attrs)
  refine ⟨touches_chns h _, fun addr => permTimer_touches h _, fun n p hn hp d => ?_⟩
  have hn' : writeToPeerchannel ((hosts attrs).foldl (touch s.ctime) s.alloc) n = some p := by
    obtain ⟨r, c, hc, hnum⟩ := (writeToPeerchannel_eq_some h).mp hn
    refine (writeToPeerchannel_eq_some hc').mpr ⟨r, c, ?_, hnum⟩
    rw [touches_chns h]
    exact hc
  have htimer : ((hosts attrs).foldl (touch s.ctime) s.alloc).permTimer p = some (s.ctime + 300) := by
    rw [permTimer_touches h, if_pos hp]
  rw [channel_lost_iff hc' hn' htimer]
  omega

/-- A channel that was bound for 600 seconds is lost after 300, since its client asked for a permission. -/
theorem createPermission_timer_small :
    ∃ a', createPermission smallServer 0 smallSession.alloc [.xorPeerAddress smallPeer] =
        (⟨0, "", [], true⟩, a') ∧
      ∃ o s', Session.Step ⟨a', 300⟩ (.permTimeout o) s' ∧ writeToPeerchannel s'.alloc 0x4000 = none := by
  have heq : createPermission smallServer smallSession.ctime smallSession.alloc [.xorPeerAddress smallPeer] =
      (⟨0, "", [], true⟩, _) := rfl
  refine ⟨_, heq, ?_⟩
  have hlost := (createPermission_timer (smallSession_run trivial) heq rfl).2.2 0x4000 smallPeer (by decide)
  exact (hlost ⟨smallPeer.setPort 0, by decide, by decide⟩ 300).mpr le_rfl

end Turn
end QosSupport
