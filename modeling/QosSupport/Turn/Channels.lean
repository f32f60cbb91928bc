import QosSupport.Lib.Run
import QosSupport.Turn.Allocation

/-!
# Binding channels and relaying (`broker/coturn/src/server/ns_turn_server.c`)

What the requests of a client and the timers of the server do to the permissions and the channels of the
client's allocation, and what is relayed. A request is the list of its attributes, and the server's settings
at that time are a part of it.

* `goodPeerAddr`: the peers that are allowed.
* `channelBind`, `createPermission`: the handlers, with their error codes and texts.
* `handleTurnSend`, `writeToPeerchannel`, `peerInput`: where data goes.
* `Session.Step`: a request, a timer that ends, or time that passes, in any order.
* `channelBind_cases`, `createPermission_cases`: all that a request can do to the tables.
* `Session.Step.consistent`, `consistent_of_run`: every run keeps the invariant of the tables.
-/

namespace QosSupport
namespace Turn

open IoaAddr (Range InRange)

/-! ## Peers -/

/-- `ip_range_t` -/
structure IpRange where
  realm : String
  enc : Range

/-- The settings that `good_peer_addr` reads: two flags, and the lists of the options and of the database. -/
structure PeerFilter where
  realm : String
  noMulticastPeers : Bool
  noLoopbackPeers : Bool
  ipWhitelist : List IpRange
  dbWhitelist : List IpRange
  ipBlacklist : List IpRange
  dbBlacklist : List IpRange

/-- `CHECK_REALM`: the range is for another realm. -/
def OtherRealm (realm r : String) : Prop := r ≠ "" ∧ realm ≠ "" ∧ r ≠ realm

instance (realm r : String) : Decidable (OtherRealm realm r) := inferInstanceAs (Decidable (_ ∧ _))

/-- A loop over a list of ranges, from its end. -/
def inList (realm : String) (list : List IpRange) (addr : IoaAddr) : Bool :=
  list.reverse.any fun rs => !decide (OtherRealm realm rs.realm) && decide (InRange rs.enc addr)

/-- `good_peer_addr` -/
def goodPeerAddr (f : PeerFilter) (addr : IoaAddr) : Bool :=
  if f.noMulticastPeers ∧ addr.IsMulticast then false
  else if f.noLoopbackPeers ∧ addr.IsLoopback then false
  else if inList f.realm f.ipWhitelist addr then true
  else if inList f.realm f.dbWhitelist addr then true
  else if inList f.realm f.ipBlacklist addr then false
  else if inList f.realm f.dbBlacklist addr then false
  else true

/-! ## Requests -/

/-- An attribute as the handlers read it. -/
inductive Attr
  /-- One of `SKIP_ATTRIBUTES`. -/
  | skip
  /-- `CHANNEL-NUMBER`, with the value of `stun_attr_get_channel_number`. -/
  | channelNumber (chnum : Nat)
  /-- `XOR-PEER-ADDRESS`, with the address that `stun_attr_get_addr_str` leaves. -/
  | xorPeerAddress (addr : IoaAddr)
  | data (value : List Byte)
  | dontFragment
  | other (type : Nat)

/-- `stun_attr_get_type`, for the attributes that a handler may not know. -/
def Attr.type : Attr → Nat
  | .skip => 0x0006
  | .channelNumber _ => 0x000C
  | .xorPeerAddress _ => 0x0012
  | .data _ => 0x0013
  | .dontFragment => 0x001A
  | .other type => type

/-- What a handler reads of the server and the session. -/
structure RelayServer where
  filter : PeerFilter
  isTcpRelay : Bool
  isValid : Bool
  relay4 : Bool
  relay6 : Bool
  serverRelay : Bool
  dontFragment : Bool

/-- `get_relay_socket` -/
def RelayServer.getRelaySocket (srv : RelayServer) (addr : IoaAddr) : Bool :=
  if addr.family = 10 then srv.relay6 else srv.relay4

/-- What the handler says about a request. -/
structure RelayReply where
  errCode : Nat := 0
  reason : String := ""
  unknownAttrs : List Nat := []
  respConstructed : Bool := false

/-- `MAX_NUMBER_OF_UNKNOWN_ATTRS` -/
def maxNumberOfUnknownAttrs : Nat := 128

/-- The variables of a handler's loop over the attributes. -/
structure Parsed where
  chnum : Nat := 0
  peerAddr : IoaAddr := .any
  addrFound : Bool := false
  errCode : Nat := 0
  reason : String := ""
  unknownAttrs : List Nat := []

/-- An attribute that must be understood and is not. -/
def Parsed.addUnknown (s : Parsed) (attr : Attr) : Parsed :=
  if attr.type ≤ 0x7FFF then { s with unknownAttrs := s.unknownAttrs ++ [attr.type] } else s

/-- The loop of a handler: it stops at an error, and if there are too many unknown attributes. -/
def parse (step : Parsed → Attr → Parsed) : List Attr → Parsed → Parsed
  | [], s => s
  | attr :: attrs, s =>
    if s.errCode = 0 ∧ s.unknownAttrs.length < maxNumberOfUnknownAttrs then parse step attrs (step s attr) else s

/-! ## Binding a channel -/

/-- One attribute of a channel bind request. -/
def bindAttr (srv : RelayServer) (s : Parsed) : Attr → Parsed
  | .skip => s
  | .channelNumber chnum =>
    if s.chnum ≠ 0 then
      { s with
        chnum := 0, errCode := 400,
        reason := "Channel number cannot be duplicated in this request" }
    else if chnum = 0 then
      { s with chnum := chnum, errCode := 400, reason := "Channel number cannot be zero in this request" }
    else { s with chnum := chnum }
  | .xorPeerAddress addr =>
    let s := { s with peerAddr := addr }
    let s :=
      if srv.getRelaySocket addr = false then { s with errCode := 443, reason := "Peer Address Family Mismatch (3)" }
      else s
    if addr.getPort.toNat < 1 then
      { s with errCode := 400, reason := "Empty port number in channel bind request" }
    else { s with addrFound := true }
  | attr => s.addUnknown attr

/-- `update_channel_lifetime` -/
def updateChannelLifetime (now : Nat) (a : Allocation) (chn : Ref) : Option Allocation :=
  (a.chns.get chn).bind fun c =>
    (a.addrToPerm.get c.owner).map fun _ => (a.setPermTimer c.owner (now + 600)).setChnTimer chn (now + 600)

/-- The end of `handle_turn_channel_bind`. -/
def refreshChannel (now : Nat) (a : Allocation) (chn : Ref) : RelayReply × Allocation :=
  match updateChannelLifetime now a chn with
  | some a => ({ respConstructed := true }, a)
  | none => ({ errCode := 500, reason := "Cannot update channel lifetime (internal error)" }, a)

/-- The channel of a number is used again. -/
def rebindChannel (now : Nat) (a : Allocation) (chn : Ref) (c : ChInfo) (peerAddr : IoaAddr) :
    RelayReply × Allocation :=
  if ¬ peerAddr.AddrEq c.peerAddr then
    ({ errCode := 400, reason := "You cannot use the same channel number with different peer" }, a)
  else if ¬ peerAddr.AddrEqNoPort (((a.addrToPerm.get c.owner).map PermissionInfo.addr).getD .any) then
    ({ errCode := 500, reason := "Wrong permission info and peer addr conbination" }, a)
  else if c.port ≠ peerAddr.getPort then ({ errCode := 500, reason := "Wrong port number" }, a)
  else refreshChannel now a chn

/-- A number without a channel. -/
def newChannel (srv : RelayServer) (now : Nat) (a : Allocation) (chnum : Nat) (peerAddr : IoaAddr) :
    RelayReply × Allocation :=
  match a.getChInfoByPeerAddr peerAddr with
  | some _ => ({ errCode := 400, reason := "You cannot use the same peer with different channel number" }, a)
  | none =>
    if goodPeerAddr srv.filter peerAddr = false then ({ errCode := 403, reason := "Forbidden IP" }, a)
    else refreshChannel now (a.getNewChInfo chnum peerAddr).2 (a.getNewChInfo chnum peerAddr).1

/-- `handle_turn_channel_bind` after the attributes. -/
def bindChannel (srv : RelayServer) (now : Nat) (a : Allocation) (chnum : Nat) (peerAddr : IoaAddr) :
    RelayReply × Allocation :=
  match a.getChInfo chnum with
  | some chn =>
    match a.chns.get chn with
    | some c => rebindChannel now a chn c peerAddr
    | none => ({}, a)
  | none => newChannel srv now a chnum peerAddr

/-- `handle_turn_channel_bind` -/
def channelBind (srv : RelayServer) (now : Nat) (a : Allocation) (attrs : List Attr) : RelayReply × Allocation :=
  if srv.isTcpRelay then ({ errCode := 403, reason := "Channel bind cannot be used with TCP relay" }, a)
  else if srv.isValid = false then ({}, a)
  else
    let s := parse (bindAttr srv) attrs {}
    if s.unknownAttrs ≠ [] then ({ errCode := 420, reason := s.reason, unknownAttrs := s.unknownAttrs }, a)
    else if s.errCode ≠ 0 then ({ errCode := s.errCode, reason := s.reason }, a)
    else if s.chnum = 0 ∨ s.peerAddr.IsAny ∨ s.addrFound = false then
      ({ errCode := 400, reason := "Bad channel bind request" }, a)
    else if ¬ ValidChannel s.chnum then ({ errCode := 400, reason := "Bad channel number" }, a)
    else bindChannel srv now a s.chnum s.peerAddr

/-! ## Creating permissions -/

/-- One attribute of a create permission request, in the first loop. -/
def permAttr (srv : RelayServer) (s : Parsed) : Attr → Parsed
  | .skip => s
  | .xorPeerAddress addr =>
    if srv.getRelaySocket addr = false then { s with errCode := 443, reason := "Peer Address Family Mismatch (4)" }
    else if goodPeerAddr srv.filter addr = false then { s with errCode := 403, reason := "Forbidden IP" }
    else { s with addrFound := true }
  | attr => s.addUnknown attr

/-- `update_permission`. The permission gets the time of a permission, and then the channel of this very address
the time of a channel. -/
def updatePermission (now : Nat) (a : Allocation) (peerAddr : IoaAddr) : Bool × Allocation :=
  let tinfo := (a.permissionFor peerAddr).1
  let a := (a.permissionFor peerAddr).2.setPermTimer tinfo (now + 300)
  match a.getTurnChannel tinfo peerAddr with
  | some chn =>
    match updateChannelLifetime now a chn with
    | some a => (true, a)
    | none => (false, a)
  | none => (true, a)

/-- The second loop: the port of each address is set to 0. -/
def updatePermissions (now : Nat) : List Attr → RelayReply × Allocation → RelayReply × Allocation
  | [], s => s
  | .xorPeerAddress addr :: attrs, (reply, a) =>
    match updatePermission now a (addr.setPort 0) with
    | (true, a) => updatePermissions now attrs (reply, a)
    | (false, a) =>
      updatePermissions now attrs
        ({ errCode := 500, reason := "Cannot update some permissions (critical server software error)" }, a)
  | _ :: attrs, s => updatePermissions now attrs s

/-- `handle_turn_create_permission` -/
def createPermission (srv : RelayServer) (now : Nat) (a : Allocation) (attrs : List Attr) : RelayReply × Allocation :=
  if srv.isValid = false then ({}, a)
  else
    let s := parse (permAttr srv) attrs {}
    if s.unknownAttrs ≠ [] then ({ errCode := 420, reason := s.reason, unknownAttrs := s.unknownAttrs }, a)
    else if s.errCode ≠ 0 then ({ errCode := s.errCode, reason := s.reason }, a)
    else if s.addrFound = false then ({ errCode := 400, reason := "No address found" }, a)
    else
      let (reply, a) := updatePermissions now attrs ({}, a)
      if reply.errCode = 0 then ({ respConstructed := true }, a) else (reply, a)

/-! ## Relaying -/

/-- `get_turn_channel_number` -/
def getTurnChannelNumber (a : Allocation) (tinfo : Ref) (addr : IoaAddr) : Nat :=
  match (a.getTurnChannel tinfo addr).bind a.chns.get with
  | some c => c.chnum
  | none => 0

/-- `write_to_peerchannel`: the peer that channel data is sent to. -/
def writeToPeerchannel (a : Allocation) (chnum : Nat) : Option IoaAddr :=
  ((a.getChInfo chnum).bind a.chns.get).map ChInfo.peerAddr

/-- What becomes of a datagram of a peer. -/
inductive ToClient
  | dropped
  | channelData (chnum : Nat)
  | dataIndication
deriving DecidableEq

/-- `peer_input_handler` -/
def peerInput (srv : RelayServer) (a : Allocation) (srcAddr : IoaAddr) : ToClient :=
  match a.getPermission srcAddr with
  | some tinfo =>
    let chnum := getTurnChannelNumber a tinfo srcAddr
    if chnum ≠ 0 then .channelData chnum else .dataIndication
  | none => if srv.serverRelay then .dataIndication else .dropped

/-- The variables of the loop of `handle_turn_send`. -/
structure SendParsed where
  peerAddr : IoaAddr := .any
  value : Option (List Byte) := none
  setDf : Bool := false
  errCode : Nat := 0
  reason : String := ""
  unknownAttrs : List Nat := []

/-- One attribute of a send indication. `addr_found` is never set there. -/
def sendAttr (srv : RelayServer) (s : SendParsed) : Attr → SendParsed
  | .skip => s
  | .dontFragment =>
    if srv.dontFragment = false then { s with unknownAttrs := s.unknownAttrs ++ [0x001A] }
    else { s with setDf := true }
  | .xorPeerAddress addr => { s with peerAddr := addr }
  | .data value =>
    if s.value.isSome then { s with errCode := 400, reason := "Data duplication" }
    else { s with value := some value }
  | attr => if attr.type ≤ 0x7FFF then { s with unknownAttrs := s.unknownAttrs ++ [attr.type] } else s

/-- The loop of `handle_turn_send`. -/
def sendLoop (srv : RelayServer) : List Attr → SendParsed → SendParsed
  | [], s => s
  | attr :: attrs, s =>
    if s.errCode = 0 ∧ s.unknownAttrs.length < maxNumberOfUnknownAttrs then sendLoop srv attrs (sendAttr srv s attr)
    else s

/-- `handle_turn_send`: the error code, and the peer and the data that are sent. -/
def handleTurnSend (srv : RelayServer) (a : Allocation) (attrs : List Attr) : Nat × Option (IoaAddr × List Byte) :=
  if srv.isTcpRelay then (403, none)
  else if srv.isValid = false then (0, none)
  else
    let s := sendLoop srv attrs {}
    if s.errCode ≠ 0 then (s.errCode, none)
    else if s.unknownAttrs ≠ [] then (420, none)
    else
      match s.value with
      | some value =>
        if s.peerAddr.IsAny then (400, none)
        else if srv.serverRelay ∨ (a.getPermission s.peerAddr).isSome then (0, some (s.peerAddr, value))
        else (0, none)
      | none => (400, none)

/-! ## Sessions -/

/-- The allocation of a client, and the server's clock. -/
structure Session where
  alloc : Allocation
  ctime : Nat

inductive SessionEvent
  | channelBind (srv : RelayServer) (attrs : List Attr)
  | createPermission (srv : RelayServer) (attrs : List Attr)
  /-- `client_ss_channel_timeout_handler` -/
  | channelTimeout (chn : Ref)
  /-- `client_ss_perm_timeout_handler` -/
  | permTimeout (tinfo : Ref)
  /-- `clear_allocation` -/
  | clear
  | tick (seconds : Nat)

namespace Session

/-- The first state, after `init_allocation`. -/
def init : Session := ⟨.init, 0⟩

/-- The timer of a channel has ended. -/
def ChannelDue (s : Session) (chn : Ref) : Prop :=
  ∃ c time, s.alloc.chns.get chn = some c ∧ c.timer = some time ∧ time ≤ s.ctime

/-- The timer of a permission has ended. -/
def PermDue (s : Session) (tinfo : Ref) : Prop :=
  ∃ t time, s.alloc.addrToPerm.get tinfo = some t ∧ t.timer = some time ∧ time ≤ s.ctime

/-- One event. Timers that have ended are handled in any order. -/
inductive Step : Session → SessionEvent → Session → Prop
  | channelBind (s : Session) (srv : RelayServer) (attrs : List Attr) :
      Step s (.channelBind srv attrs) { s with alloc := (Turn.channelBind srv s.ctime s.alloc attrs).2 }
  | createPermission (s : Session) (srv : RelayServer) (attrs : List Attr) :
      Step s (.createPermission srv attrs) { s with alloc := (Turn.createPermission srv s.ctime s.alloc attrs).2 }
  | channelTimeout {s : Session} {chn : Ref} : s.ChannelDue chn →
      Step s (.channelTimeout chn) { s with alloc := s.alloc.channelDelete chn }
  | permTimeout {s : Session} {tinfo : Ref} : s.PermDue tinfo →
      Step s (.permTimeout tinfo) { s with alloc := s.alloc.permissionClean tinfo }
  | clear (s : Session) : Step s .clear { s with alloc := .init }
  | tick (s : Session) (seconds : Nat) : Step s (.tick seconds) { s with ctime := s.ctime + seconds }

end Session

/-! ## What the handlers keep -/

namespace Allocation.Consistent

variable {a : Allocation} {now chnum : Nat} {srv : RelayServer} {peer : IoaAddr} {chn : Ref} {c : ChInfo}
  {attrs : List Attr}

theorem updateChannelLifetime (h : a.Consistent) (hc : a.chns.get chn = some c) :
    Turn.updateChannelLifetime now a chn =
      some ((a.setPermTimer c.owner (now + 600)).setChnTimer chn (now + 600)) := by
  obtain ⟨t, ht, -⟩ := (h.bound chn c hc).owned
  unfold Turn.updateChannelLifetime
  rw [hc, Option.bind_some, ht]
  rfl

/-- The lifetime of a channel can always be updated. -/
theorem refreshChannel (h : a.Consistent) (hc : a.chns.get chn = some c) :
    Turn.refreshChannel now a chn =
      ({ respConstructed := true }, (a.setPermTimer c.owner (now + 600)).setChnTimer chn (now + 600)) := by
  rw [Turn.refreshChannel, h.updateChannelLifetime hc]

/-- The two internal errors do not happen. -/
theorem rebindChannel (h : a.Consistent) (hc : a.chns.get chn = some c) (peer : IoaAddr) :
    Turn.rebindChannel now a chn c peer =
      if peer.AddrEq c.peerAddr then
        ({ respConstructed := true }, (a.setPermTimer c.owner (now + 600)).setChnTimer chn (now + 600))
      else ({ errCode := 400, reason := "You cannot use the same channel number with different peer" }, a) := by
  unfold Turn.rebindChannel
  by_cases heq : peer.AddrEq c.peerAddr
  · obtain ⟨hf, rfl⟩ := IoaAddr.addrEq_iff.mp heq
    have hbound := h.bound chn c hc
    obtain ⟨t, ht, haddr, -⟩ := hbound.owned
    rw [if_neg (not_not.mpr heq), ht, Option.map_some, Option.getD_some, if_neg (not_not.mpr haddr.symm),
      if_neg (not_not.mpr hbound.port), if_pos heq, h.refreshChannel hc]
  · rw [if_pos heq, if_neg heq]

/-- The new channel of `allocation_get_new_ch_info`. -/
theorem getNewChInfo (h : a.Consistent) (hport : peer.getPort.toNat ≠ 0) (hvalid : ValidChannel chnum)
    (hnum : a.getChInfo chnum = none) (hpeer : a.getChInfoByPeerAddr peer = none) :
    (a.getNewChInfo chnum peer).2.Consistent ∧
      (a.getNewChInfo chnum peer).2.chns.get (a.getNewChInfo chnum peer).1 =
        some ⟨chnum, peer.getPort, peer, (a.permissionFor peer).1, none⟩ := by
  obtain ⟨hc, hchns, t, ht, haddr, hold⟩ := h.permissionFor peer
  have hf : peer.HasFamily := by
    rintro rfl
    exact hport rfl
  have hnum' : (a.permissionFor peer).2.getChInfo chnum = none := by
    unfold getChInfo
    rw [hchns]
    exact hnum
  have hpeer' : (a.permissionFor peer).2.getChInfoByPeerAddr peer = none := by
    refine Option.eq_none_iff_forall_ne_some.mpr fun r hr => ?_
    obtain ⟨c, hc, hp⟩ := hc.getChInfoByPeerAddr_eq_some.mp hr
    rw [hchns] at hc
    have hsome := h.getChInfoByPeerAddr_eq_some.mpr ⟨c, hc, hp⟩
    rw [hpeer] at hsome
    cases hsome
  exact ⟨hc.addChannel ht (haddr hf) hport hvalid hnum' hpeer', Table.get_write_self _ _ _⟩

end Allocation.Consistent

/-! ## Attributes -/

section Parse

variable {step : Parsed → Attr → Parsed} {s : Parsed} {attrs : List Attr}

theorem parse_inv {I : Parsed → Prop} (hstep : ∀ s attr, I s → I (step s attr)) (h : I s) (attrs : List Attr) :
    I (parse step attrs s) := by
  induction attrs generalizing s with
  | nil => exact h
  | cons attr attrs ih =>
    rw [parse]
    split
    · exact ih (hstep s attr h)
    · exact h

theorem parse_of_err (h : s.errCode ≠ 0) (attrs : List Attr) : parse step attrs s = s := by
  cases attrs with
  | nil => rfl
  | cons attr attrs => rw [parse, if_neg fun hc => h hc.1]

@[simp] theorem addUnknown_errCode (s : Parsed) (attr : Attr) : (s.addUnknown attr).errCode = s.errCode := by
  unfold Parsed.addUnknown
  split <;> rfl

@[simp] theorem addUnknown_peerAddr (s : Parsed) (attr : Attr) : (s.addUnknown attr).peerAddr = s.peerAddr := by
  unfold Parsed.addUnknown
  split <;> rfl

@[simp] theorem addUnknown_addrFound (s : Parsed) (attr : Attr) : (s.addUnknown attr).addrFound = s.addrFound := by
  unfold Parsed.addUnknown
  split <;> rfl

end Parse

/-- A channel bind request without an error names a peer with a port. -/
theorem parse_bindAttr_port (srv : RelayServer) (attrs : List Attr)
    (herr : (parse (bindAttr srv) attrs {}).errCode = 0)
    (hfound : (parse (bindAttr srv) attrs {}).addrFound = true) :
    (parse (bindAttr srv) attrs {}).peerAddr.getPort.toNat ≠ 0 := by
  refine parse_inv (I := fun s => s.errCode = 0 → s.addrFound = true → s.peerAddr.getPort.toNat ≠ 0)
    (fun s attr h => ?_) (fun _ h => by cases h) attrs herr hfound
  cases attr with
  | skip => exact h
  | channelNumber chnum =>
    unfold bindAttr
    dsimp only
    split
    · intro herr
      cases herr
    · split
      · intro herr
        cases herr
      · exact h
  | xorPeerAddress addr =>
    unfold bindAttr
    dsimp only
    split
    · intro herr
      split at herr <;> cases herr
    · rename_i hport
      intro _ _
      split
      · dsimp only
        omega
      · dsimp only
        omega
  | data value => simpa [bindAttr] using h
  | dontFragment => simpa [bindAttr] using h
  | other type => simpa [bindAttr] using h

/-- Every peer of a create permission request without an error is allowed. -/
theorem parse_permAttr_good {srv : RelayServer} {attrs : List Attr} {s : Parsed}
    (herr : (parse (permAttr srv) attrs s).errCode = 0)
    (hunknown : (parse (permAttr srv) attrs s).unknownAttrs = []) {addr : IoaAddr}
    (hmem : Attr.xorPeerAddress addr ∈ attrs) : goodPeerAddr srv.filter addr = true := by
  induction attrs generalizing s with
  | nil => cases hmem
  | cons attr attrs ih =>
    rw [parse] at herr hunknown
    have hcond : s.errCode = 0 ∧ s.unknownAttrs.length < maxNumberOfUnknownAttrs := by
      by_contra hc
      rw [if_neg hc] at herr hunknown
      rw [herr, hunknown] at hc
      exact hc ⟨rfl, by decide⟩
    rw [if_pos hcond] at herr hunknown
    rcases List.mem_cons.mp hmem with heq | hmem
    · subst heq
      by_contra hbad
      have hstep : (permAttr srv s (.xorPeerAddress addr)).errCode ≠ 0 := by
        unfold permAttr
        dsimp only
        split
        · exact fun h => by cases h
        · rw [if_pos (Bool.not_eq_true _ ▸ hbad)]
          exact fun h => by cases h
      rw [parse_of_err hstep] at herr
      exact hstep herr
    · exact ih herr hunknown hmem

/-! ## What a request does -/

section Requests

variable {a : Allocation} {now : Nat} {srv : RelayServer} {attrs : List Attr}

/-- **A channel bind request** changes nothing, or it refreshes a channel, or it makes one. -/
theorem channelBind_cases (h : a.Consistent) (srv : RelayServer) (now : Nat) (attrs : List Attr) :
    (channelBind srv now a attrs).2 = a ∨
    (∃ chn c, a.chns.get chn = some c ∧ (channelBind srv now a attrs).2 =
      (a.setPermTimer c.owner (now + 600)).setChnTimer chn (now + 600)) ∨
    ∃ chnum peer, peer.getPort.toNat ≠ 0 ∧ ValidChannel chnum ∧ a.getChInfo chnum = none ∧
      a.getChInfoByPeerAddr peer = none ∧ goodPeerAddr srv.filter peer = true ∧
      (channelBind srv now a attrs).2 =
        ((a.getNewChInfo chnum peer).2.setPermTimer (a.permissionFor peer).1 (now + 600)).setChnTimer
          (a.getNewChInfo chnum peer).1 (now + 600) := by
  unfold channelBind
  split
  · exact .inl rfl
  split
  · exact .inl rfl
  dsimp only
  split
  · exact .inl rfl
  split
  · exact .inl rfl
  rename_i herr
  split
  · exact .inl rfl
  rename_i hfound
  split
  · exact .inl rfl
  rename_i hvalid
  have hport := parse_bindAttr_port srv attrs (not_not.mp herr) (by
    by_contra hf
    exact hfound (.inr (.inr (Bool.not_eq_true _ ▸ hf))))
  generalize (parse (bindAttr srv) attrs {}).peerAddr = peer at hport
  generalize (parse (bindAttr srv) attrs {}).chnum = chnum at hvalid
  unfold bindChannel
  cases hs : a.getChInfo chnum with
  | some chn =>
    obtain ⟨c, hc, -⟩ := h.getChInfo_eq_some.mp hs
    dsimp only
    rw [hc]
    dsimp only
    rw [h.rebindChannel hc]
    split
    · exact .inr (.inl ⟨chn, c, hc, rfl⟩)
    · exact .inl rfl
  | none =>
    dsimp only
    unfold newChannel
    cases hp : a.getChInfoByPeerAddr peer with
    | some _ => exact .inl rfl
    | none =>
      dsimp only
      split
      · exact .inl rfl
      · rename_i hgood
        obtain ⟨hc', hnew⟩ := h.getNewChInfo hport (not_not.mp hvalid) hs hp
        refine .inr (.inr ⟨chnum, peer, hport, not_not.mp hvalid, hs, hp, by simpa using hgood, ?_⟩)
        rw [hc'.refreshChannel hnew]

/-- `update_permission` with the port 0: there is no channel of such an address. -/
theorem updatePermission_eq (now : Nat) (a : Allocation) (addr : IoaAddr) :
    updatePermission now a (addr.setPort 0) =
      (true, (a.permissionFor (addr.setPort 0)).2.setPermTimer (a.permissionFor (addr.setPort 0)).1 (now + 300)) := by
  have hnone : ∀ (a : Allocation) (o : Ref), a.getTurnChannel o (addr.setPort 0) = none := by
    intro a o
    have hzero : (addr.setPort 0).getPort.toNat = 0 := by
      cases addr <;> rfl
    unfold Allocation.getTurnChannel
    cases a.addrToPerm.get o with
    | none => rfl
    | some t =>
      simp only [Option.bind_eq_bind, Option.bind_some, hzero, LmMap.get_zero]
      rfl
  unfold updatePermission
  dsimp only
  rw [hnone]

/-- The addresses of a request, with the port 0. -/
def hosts (attrs : List Attr) : List IoaAddr :=
  attrs.filterMap fun attr =>
    match attr with
    | .xorPeerAddress addr => some (addr.setPort 0)
    | _ => none

/-- One host of a create permission request. -/
def touch (now : Nat) (a : Allocation) (host : IoaAddr) : Allocation :=
  (a.permissionFor host).2.setPermTimer (a.permissionFor host).1 (now + 300)

/-- The second loop never fails. -/
theorem updatePermissions_eq (now : Nat) (attrs : List Attr) (reply : RelayReply) (a : Allocation) :
    updatePermissions now attrs (reply, a) = (reply, (hosts attrs).foldl (touch now) a) := by
  induction attrs generalizing a with
  | nil => rfl
  | cons attr attrs ih =>
    cases attr with
    | xorPeerAddress addr =>
      rw [updatePermissions, updatePermission_eq]
      dsimp only
      rw [ih]
      rfl
    | skip => exact ih a
    | channelNumber chnum => exact ih a
    | data value => exact ih a
    | dontFragment => exact ih a
    | other type => exact ih a

/-- **A create permission request** changes nothing, or it touches the permission of each of its hosts, which
are all allowed. -/
theorem createPermission_cases (srv : RelayServer) (now : Nat) (a : Allocation) (attrs : List Attr) :
    ((createPermission srv now a attrs).1.respConstructed = false ∧ (createPermission srv now a attrs).2 = a) ∨
    ((createPermission srv now a attrs).1.respConstructed = true ∧
      (createPermission srv now a attrs).2 = (hosts attrs).foldl (touch now) a ∧
      ∀ addr, Attr.xorPeerAddress addr ∈ attrs → goodPeerAddr srv.filter addr = true) := by
  unfold createPermission
  split
  · exact .inl ⟨rfl, rfl⟩
  dsimp only
  split
  · exact .inl ⟨rfl, rfl⟩
  rename_i hunknown
  split
  · exact .inl ⟨rfl, rfl⟩
  rename_i herr
  split
  · exact .inl ⟨rfl, rfl⟩
  rw [updatePermissions_eq]
  exact .inr ⟨rfl, rfl, fun addr hmem => parse_permAttr_good (not_not.mp herr) (not_not.mp hunknown) hmem⟩

theorem touch_consistent (h : a.Consistent) (now : Nat) (host : IoaAddr) : (touch now a host).Consistent :=
  (h.permissionFor host).1.setPermTimer _ _

theorem touches_consistent (h : a.Consistent) (now : Nat) (hosts : List IoaAddr) :
    (hosts.foldl (touch now) a).Consistent := by
  induction hosts generalizing a with
  | nil => exact h
  | cons host hosts ih => exact ih (touch_consistent h now host)

end Requests

/-- **Every event keeps the invariant.** -/
theorem Session.Step.consistent {s s' : Session} {e : SessionEvent} (h : s.alloc.Consistent) (hstep : Session.Step s e s') :
    s'.alloc.Consistent := by
  cases hstep with
  | channelBind srv attrs =>
    dsimp only
    obtain heq | ⟨chn, c, hc, heq⟩ | ⟨chnum, peer, hport, hvalid, hnum, hpeer, -, heq⟩ :=
      channelBind_cases h srv s.ctime attrs
    · rw [heq]
      exact h
    · rw [heq]
      exact (h.setPermTimer _ _).setChnTimer _ _
    · rw [heq]
      exact ((h.getNewChInfo hport hvalid hnum hpeer).1.setPermTimer _ _).setChnTimer _ _
  | createPermission srv attrs =>
    dsimp only
    obtain ⟨-, heq⟩ | ⟨-, heq, -⟩ := createPermission_cases srv s.ctime s.alloc attrs
    · rw [heq]
      exact h
    · rw [heq]
      exact touches_consistent h _ _
  | channelTimeout _ => exact h.channelDelete _
  | permTimeout _ => exact h.permissionClean _
  | clear => exact Allocation.consistent_init
  | tick seconds => exact h

theorem consistent_of_run {P : Session → SessionEvent → Prop} {es : List SessionEvent} {s : Session}
    (hrun : Run.Steps Session.Step P .init es s) : s.alloc.Consistent :=
  hrun.inv (I := fun s => s.alloc.Consistent) (fun _ _ _ h _ hstep => hstep.consistent h) Allocation.consistent_init

end Turn
end QosSupport
