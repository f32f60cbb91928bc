import QosSupport.Turn.StunMessage

/-!
# Addresses in STUN messages (`broker/coturn/src/client/ns_turn_msg_addr.c`)

An address is written with the magic cookie and the transaction id of the message as a mask, in some
attributes. A server behind a NAT writes its public addresses in place of its private ones, and reads them
the other way round (`ns_turn_ioaddr.c`).

* `addrEncode`, `addrDecode`: the bytes of an address.
* `mapFromPrivateToPublic`, `mapFromPublicToPrivate`: the list of mappings, the first that fits counts.
* `attrAddAddr`, `attrGetFirstAddr`: an address as an attribute.
* `address_round_trip`: what is read of an address that was written, in a message with any other attributes.
-/

namespace QosSupport
namespace Turn
namespace Stun

open Bytes

/-! ## Bytes of an address -/

/-- A byte, with the mask if `xorEd`. -/
def masked (xorEd : Bool) (b mask : Byte) : Byte := if xorEd then b ^^^ mask else b

/-- The bytes that are used as masks: the cookie, and then the transaction id. -/
def maskAt (mc : Nat) (tid : Tid) (j : Nat) : Byte := ((bytes32 mc ++ List.ofFn tid)[j]?).getD 0

/-- The family and the port. -/
def addrHead (family : Byte) (port : UInt16) (xorEd : Bool) (mc : Nat) (tid : Tid) : List Byte :=
  [0, family, masked xorEd (Fin.ofNat 256 (port.toNat / 256)) (maskAt mc tid 0),
    masked xorEd (Fin.ofNat 256 port.toNat) (maskAt mc tid 1)]

/-- The bytes of the host. -/
def addrHost {n : Nat} (ip : Fin n → Byte) (xorEd : Bool) (mc : Nat) (tid : Tid) : List Byte :=
  List.ofFn fun j => masked xorEd (ip j) (maskAt mc tid j)

/-- `stun_addr_encode`. An address without a family is written as one of IPv4. -/
def addrEncode (ca : IoaAddr) (xorEd : Bool) (mc : Nat) (tid : Tid) : List Byte :=
  match ca with
  | .any => addrHead 1 0 xorEd mc tid ++ addrHost (n := 4) 0 xorEd mc tid
  | .v4 ip port => addrHead 1 port xorEd mc tid ++ addrHost ip xorEd mc tid
  | .v6 ip port => addrHead 2 port xorEd mc tid ++ addrHost ip xorEd mc tid

/-- The port at `cfield`. -/
def addrPort (m : Buf) (cfield : Nat) (xorEd : Bool) (mc : Nat) (tid : Tid) : UInt16 :=
  UInt16.ofNat (256 * (masked xorEd (m (cfield + 2)) (maskAt mc tid 0)).val +
    (masked xorEd (m (cfield + 3)) (maskAt mc tid 1)).val)

/-- The host at `cfield`. -/
def addrIp {n : Nat} (m : Buf) (cfield : Nat) (xorEd : Bool) (mc : Nat) (tid : Tid) : Fin n → Byte :=
  fun j => masked xorEd (m (cfield + 4 + j)) (maskAt mc tid j)

/-- `stun_addr_decode` -/
def addrDecode (m : Buf) (cfield len : Nat) (xorEd : Bool) (mc : Nat) (tid : Tid) : Option IoaAddr :=
  if len < 8 then none
  else if m cfield ≠ 0 then none
  else if m (cfield + 1) = 1 then
    if len ≠ 8 then none else some (.v4 (addrIp m cfield xorEd mc tid) (addrPort m cfield xorEd mc tid))
  else if m (cfield + 1) = 2 then
    if len ≠ 20 then none else some (.v6 (addrIp m cfield xorEd mc tid) (addrPort m cfield xorEd mc tid))
  else none

/-- The address that is read of one that was written. -/
def wire : IoaAddr → IoaAddr
  | .any => .v4 0 0
  | ca => ca

section Codec

variable {m : Buf} {cfield mc : Nat} {xorEd : Bool} {tid : Tid}

theorem masked_masked (xorEd : Bool) (b mask : Byte) : masked xorEd (masked xorEd b mask) mask = b := by
  unfold masked
  split
  · exact xor_xor b mask
  · rfl

theorem addrPort_of_head {family : Byte} {port : UInt16}
    (h : slice m cfield (addrHead family port xorEd mc tid).length = addrHead family port xorEd mc tid) :
    m cfield = 0 ∧ m (cfield + 1) = family ∧ addrPort m cfield xorEd mc tid = port := by
  refine ⟨getElem_of_slice h (j := 0) (by simp [addrHead]), getElem_of_slice h (j := 1) (by simp [addrHead]), ?_⟩
  have h₂ := getElem_of_slice h (j := 2) (by simp [addrHead])
  have h₃ := getElem_of_slice h (j := 3) (by simp [addrHead])
  have hport := port.toNat_lt
  unfold addrPort
  rw [h₂, h₃]
  simp only [addrHead, List.getElem_cons_succ, List.getElem_cons_zero, masked_masked, Fin.val_ofNat]
  refine UInt16.toNat_inj.mp ?_
  rw [UInt16.toNat_ofNat']
  omega

theorem addrIp_of_host {n : Nat} {ip : Fin n → Byte} (h : slice m (cfield + 4) n = addrHost ip xorEd mc tid) :
    addrIp m cfield xorEd mc tid = ip := by
  have hlen : (addrHost ip xorEd mc tid).length = n := List.length_ofFn
  have hhost : slice m (cfield + 4) (addrHost ip xorEd mc tid).length = addrHost ip xorEd mc tid := by
    rw [hlen]
    exact h
  funext j
  unfold addrIp
  rw [getElem_of_slice hhost (j := j) (hlen.symm ▸ j.isLt)]
  simp only [addrHost, List.getElem_ofFn, masked_masked]

/-- What is read of an address. -/
theorem fields_of_slice {n : Nat} {ip : Fin n → Byte} {family : Byte} {port : UInt16}
    (h : slice m cfield (addrHead family port xorEd mc tid ++ addrHost ip xorEd mc tid).length =
      addrHead family port xorEd mc tid ++ addrHost ip xorEd mc tid) :
    m cfield = 0 ∧ m (cfield + 1) = family ∧ addrPort m cfield xorEd mc tid = port ∧
      addrIp m cfield xorEd mc tid = ip := by
  rw [List.length_append, slice_append] at h
  obtain ⟨hhead, hhost⟩ := List.append_inj h (by simp)
  obtain ⟨hzero, hfamily, hport⟩ := addrPort_of_head hhead
  refine ⟨hzero, hfamily, hport, addrIp_of_host (Eq.trans ?_ hhost)⟩
  simp [addrHead, addrHost]

/-- **An address that is written is read.** -/
theorem addrDecode_addrEncode (ca : IoaAddr)
    (h : slice m cfield (addrEncode ca xorEd mc tid).length = addrEncode ca xorEd mc tid) :
    addrDecode m cfield (addrEncode ca xorEd mc tid).length xorEd mc tid = some (wire ca) := by
  cases ca with
  | any =>
    obtain ⟨hzero, hfamily, hport, hip⟩ := fields_of_slice h
    simp [addrDecode, addrEncode, addrHead, addrHost, wire, hzero, hfamily, hport, hip]
  | v4 ip port =>
    obtain ⟨hzero, hfamily, hport, hip⟩ := fields_of_slice h
    simp [addrDecode, addrEncode, addrHead, addrHost, wire, hzero, hfamily, hport, hip]
  | v6 ip port =>
    obtain ⟨hzero, hfamily, hport, hip⟩ := fields_of_slice h
    simp [addrDecode, addrEncode, addrHead, addrHost, wire, hzero, hfamily, hport, hip]

end Codec

/-! ## Public and private addresses -/

/-- A pair of `public_addrs` and `private_addrs`. -/
structure Mapping where
  pub : IoaAddr
  priv : IoaAddr

/-- `map_addr_from_public_to_private` -/
def mapFromPublicToPrivate (maps : List Mapping) (addr : IoaAddr) : IoaAddr :=
  match maps.find? fun p => decide (addr.AddrEqNoPort p.pub) with
  | some p => p.priv.setPort addr.getPort
  | none => addr

/-- `map_addr_from_private_to_public` -/
def mapFromPrivateToPublic (maps : List Mapping) (addr : IoaAddr) : IoaAddr :=
  match maps.find? fun p => decide (addr.AddrEqNoPort p.priv) with
  | some p => p.pub.setPort addr.getPort
  | none => addr

/-- No public host is mapped twice. -/
def Unambiguous (maps : List Mapping) : Prop := maps.Pairwise fun p q => ¬ p.pub.AddrEqNoPort q.pub

/-- The host is a private one, or at least not a public one. -/
def NotPublic (maps : List Mapping) (addr : IoaAddr) : Prop :=
  (∃ p ∈ maps, addr.AddrEqNoPort p.priv) ∨ ∀ p ∈ maps, ¬ addr.AddrEqNoPort p.pub

theorem addrEqNoPort_setPort {a b : IoaAddr} {port : UInt16} : (a.setPort port).AddrEqNoPort b ↔ a.AddrEqNoPort b := by
  rw [IoaAddr.addrEqNoPort_iff, IoaAddr.addrEqNoPort_iff, IoaAddr.hasFamily_setPort, IoaAddr.setPort_setPort]

theorem getPort_setPort {a : IoaAddr} (h : a.HasFamily) (port : UInt16) : (a.setPort port).getPort = port := by
  cases a with
  | any => exact absurd rfl h
  | v4 => rfl
  | v6 => rfl

/-- A host with another port. -/
theorem setPort_of_host {a b : IoaAddr} (h : a.AddrEqNoPort b) : b.setPort a.getPort = a := by
  have hb := (IoaAddr.addrEqNoPort_iff.mp h.symm).1
  refine IoaAddr.eq_of_setPort ?_ (getPort_setPort hb _)
  rw [IoaAddr.setPort_setPort]
  exact (IoaAddr.addrEqNoPort_iff.mp h).2.symm

/-- **The two mappings are inverse to each other**, for hosts that are not public ones. -/
theorem mapFromPublicToPrivate_of_private {maps : List Mapping} {addr : IoaAddr} (hmaps : Unambiguous maps)
    (hfamily : ∀ p ∈ maps, p.pub.HasFamily) (haddr : NotPublic maps addr) :
    mapFromPublicToPrivate maps (mapFromPrivateToPublic maps addr) = addr := by
  unfold mapFromPrivateToPublic
  cases hpriv : maps.find? fun p => decide (addr.AddrEqNoPort p.priv) with
  | none =>
    have hnone : ∀ p ∈ maps, ¬ addr.AddrEqNoPort p.priv := by simpa using hpriv
    have hpub : ∀ p ∈ maps, ¬ addr.AddrEqNoPort p.pub := by
      rcases haddr with ⟨p, hp, heq⟩ | hpub
      · exact absurd heq (hnone p hp)
      · exact hpub
    have hfind : maps.find? (fun p => decide (addr.AddrEqNoPort p.pub)) = none := by simpa using hpub
    unfold mapFromPublicToPrivate
    rw [hfind]
  | some p =>
    have hp := List.mem_of_find?_eq_some hpriv
    have hhost : addr.AddrEqNoPort p.priv := by simpa using List.find?_some hpriv
    have hself : p.pub.AddrEqNoPort p.pub := IoaAddr.addrEqNoPort_iff.mpr ⟨hfamily p hp, rfl⟩
    unfold mapFromPublicToPrivate
    dsimp only
    cases hpub : maps.find? fun q => decide ((p.pub.setPort addr.getPort).AddrEqNoPort q.pub) with
    | none =>
      have hnone : ∀ q ∈ maps, ¬ (p.pub.setPort addr.getPort).AddrEqNoPort q.pub := by simpa using hpub
      exact absurd (addrEqNoPort_setPort.mpr hself) (hnone p hp)
    | some q =>
      have hq := List.mem_of_find?_eq_some hpub
      have hsame : (p.pub.setPort addr.getPort).AddrEqNoPort q.pub := by simpa using List.find?_some hpub
      -- The mapping that is found is the same one: no public host is mapped twice.
      have hpq : p = q := by
        by_contra hne
        have hsymm : Std.Symm fun p q : Mapping => ¬ p.pub.AddrEqNoPort q.pub := ⟨fun p q h h' => h h'.symm⟩
        exact hmaps.forall hp hq hne (addrEqNoPort_setPort.mp hsame)
      subst hpq
      dsimp only
      rw [getPort_setPort (hfamily p hp)]
      exact setPort_of_host hhost

theorem hasFamily_public {maps : List Mapping} {addr : IoaAddr} (hfamily : ∀ p ∈ maps, p.pub.HasFamily)
    (haddr : addr.HasFamily) : (mapFromPrivateToPublic maps addr).HasFamily := by
  unfold mapFromPrivateToPublic
  split
  · rename_i p hp
    exact (IoaAddr.hasFamily_setPort _).mpr (hfamily p (List.mem_of_find?_eq_some hp))
  · exact haddr

theorem wire_of_family {addr : IoaAddr} (h : addr.HasFamily) : wire addr = addr := by
  cases addr with
  | any => exact absurd rfl h
  | v4 => rfl
  | v6 => rfl

/-! ## Addresses as attributes -/

/-- The types of the attributes that are masked. -/
def xorTypes : List U16 := [0x0020#16, 0x0012#16, 0x0016#16]

/-- The types of `stun_attr_is_addr`. -/
def addrTypes : List U16 :=
  xorTypes ++ [0x0001#16, 0x8023#16, 0x0002#16, 0x0004#16, 0x0005#16, 0x000B#16, 0x802B#16, 0x802C#16]

/-- `stun_attr_is_addr` -/
def attrIsAddr (m : Buf) (attr : Nat) : Bool := decide (BitVec.ofNat 16 (attrGetType m attr) ∈ addrTypes)

/-- `stun_attr_add_addr_str` -/
def attrAddAddr (maps : List Mapping) (s : Msg) (type : U16) (ca : IoaAddr) : Option Msg :=
  attrAdd s type
    (addrEncode (mapFromPrivateToPublic maps ca) (decide (type ∈ xorTypes)) magicCookie (tidFromMessage s.buf))

/-- `addr_any_no_port` -/
def anyNoPort : IoaAddr → Bool
  | .any => true
  | .v4 ip _ => decide (ip = 0)
  | .v6 ip _ => decide (ip = 0)

/-- A host that is not known is replaced by that of `defaultAddr`. -/
def orDefault (ca : IoaAddr) : Option IoaAddr → IoaAddr
  | some d => if anyNoPort ca && !anyNoPort d then d.setPort ca.getPort else ca
  | none => ca

/-- `stun_attr_get_addr_str` -/
def attrGetAddr (maps : List Mapping) (m : Buf) (attr : Nat) (defaultAddr : Option IoaAddr) : Option IoaAddr := do
  let xorEd := decide (BitVec.ofNat 16 (attrGetType m attr) ∈ xorTypes)
  let cfield ← attrGetValue m attr
  let publicAddr ← addrDecode m cfield (attrGetLen m attr) xorEd magicCookie (tidFromMessage m)
  some (orDefault (mapFromPublicToPrivate maps publicAddr) defaultAddr)

/-- `stun_attr_get_first_addr_str` -/
def attrGetFirstAddr (maps : List Mapping) (m : Buf) (len : Nat) (type : U16) (defaultAddr : Option IoaAddr) :
    Option IoaAddr :=
  (attrRefs m len).findSome? fun attr =>
    if attrIsAddr m attr ∧ attrGetType m attr = type.toNat then attrGetAddr maps m attr defaultAddr else none

section Attribute

variable {s s' : Msg} {mtype type : U16} {tid : Tid} {before after : List Attribute} {ca : IoaAddr} {d : Option IoaAddr}
  {maps maps' : List Mapping}

theorem attrGetValue_of_pos {m : Buf} {attr : Nat} (h : 0 < attrGetLen m attr) :
    attrGetValue m attr = some (attr + 4) := by
  unfold attrGetValue
  rw [if_neg (by omega)]

theorem addrEncode_length_pos (ca : IoaAddr) (xorEd : Bool) (mc : Nat) : 0 < (addrEncode ca xorEd mc tid).length := by
  cases ca <;> simp [addrEncode, addrHead]

/-- The attribute with an address is read. -/
theorem attrGetAddr_of_holds
    (h : Holds s mtype tid (before ++ (type, addrEncode ca (decide (type ∈ xorTypes)) magicCookie tid) :: after)) :
    attrGetAddr maps s.buf (headerLength + room before) d =
      some (orDefault (mapFromPublicToPrivate maps (wire ca)) d) := by
  obtain ⟨htype, hlen, hvalue⟩ := h.attr_after
  have hpos : 0 < attrGetLen s.buf (headerLength + room before) := by
    rw [hlen]
    exact addrEncode_length_pos _ _ _
  unfold attrGetAddr
  rw [attrGetValue_of_pos hpos, htype, hlen, h.tid, BitVec.ofNat_toNat, BitVec.setWidth_eq]
  simp only [Option.bind_eq_bind, Option.bind_some]
  rw [addrDecode_addrEncode ca hvalue]
  rfl

/-- A search reads the first attribute of its type. -/
theorem attrGetFirstAddr_of_holds (htype : type ∈ addrTypes) (hnew : ∀ a ∈ before, a.1 ≠ type)
    (h : Holds s mtype tid (before ++ (type, addrEncode ca (decide (type ∈ xorTypes)) magicCookie tid) :: after)) :
    attrGetFirstAddr maps s.buf s.len type d = some (orDefault (mapFromPublicToPrivate maps (wire ca)) d) := by
  have hat := h.attr_after.1
  have hskip : (offsets headerLength before).findSome? (fun attr =>
      if attrIsAddr s.buf attr ∧ attrGetType s.buf attr = type.toNat then attrGetAddr maps s.buf attr d
      else none) = none := by
    refine List.findSome?_eq_none_iff.mpr fun r hr => if_neg fun hty => ?_
    obtain ⟨a, ha, hty'⟩ := h.laid.type_of_mem r hr
    exact hnew a ha (BitVec.eq_of_toNat_eq (hty'.symm.trans hty.2))
  have haddr : attrIsAddr s.buf (headerLength + room before) = true := by
    unfold attrIsAddr
    rw [hat, BitVec.ofNat_toNat, BitVec.setWidth_eq, decide_eq_true_eq]
    exact htype
  unfold attrGetFirstAddr
  rw [h.attrRefs, offsets_append, List.findSome?_append, hskip, Option.none_or, offsets, List.findSome?_cons,
    if_pos ⟨haddr, hat⟩, attrGetAddr_of_holds h]

end Attribute

/-- **The round trip of addresses.** In a message with any other attributes, the first address of a type is read
as the private address of the public address that was written for it. If no public host is mapped twice, and
both sides have the same mappings, this is the address itself, unless it is a public one. -/
theorem address_round_trip (mtype : U16) (tid : Tid) (m : Buf) (maps maps' : List Mapping)
    {before after : List Attribute} {type : U16} {ca : IoaAddr} {s₁ s₂ s : Msg} (htype : type ∈ addrTypes)
    (hnew : ∀ a ∈ before, a.1 ≠ type) (h₁ : addAll (initCommand mtype tid m) before = some s₁)
    (h₂ : attrAddAddr maps s₁ type ca = some s₂) (h : addAll s₂ after = some s) :
    attrGetFirstAddr maps' s.buf s.len type none =
      some (mapFromPublicToPrivate maps' (wire (mapFromPrivateToPublic maps ca))) ∧
    (maps' = maps → Unambiguous maps → (∀ p ∈ maps, p.pub.HasFamily) → NotPublic maps ca → ca.HasFamily →
      attrGetFirstAddr maps' s.buf s.len type none = some ca) := by
  have hs₁ := ((holds_initCommand mtype tid m).addAll before).2 s₁ h₁
  unfold attrAddAddr at h₂
  rw [hs₁.tid] at h₂
  have hs := ((hs₁.attrAdd h₂).addAll after).2 s h
  rw [List.nil_append, List.append_assoc, List.singleton_append] at hs
  have hread : attrGetFirstAddr maps' s.buf s.len type none = _ := attrGetFirstAddr_of_holds htype hnew hs
  refine ⟨hread, ?_⟩
  rintro rfl hmaps hfamily hpublic hca
  rw [hread]
  rw [wire_of_family (hasFamily_public hfamily hca)]
  exact congrArg some (mapFromPublicToPrivate_of_private hmaps hfamily hpublic)

/-- A server behind a NAT tells its relayed address. -/
theorem address_round_trip_nat :
    ∃ s, attrAddAddr [⟨.v4 ![1, 2, 3, 4] 0, .v4 ![10, 0, 0, 1] 0⟩] (initCommand (makeSuccessResponse 3) 0 0) 0x0016#16
        (.v4 ![10, 0, 0, 1] 50000) = some s ∧
      attrGetFirstAddr [] s.buf s.len 0x0016#16 none = some (.v4 ![1, 2, 3, 4] 50000) := by
  obtain ⟨s, hadd⟩ : ∃ s, attrAddAddr [⟨.v4 ![1, 2, 3, 4] 0, .v4 ![10, 0, 0, 1] 0⟩]
      (initCommand (makeSuccessResponse 3) 0 0) 0x0016#16 (.v4 ![10, 0, 0, 1] 50000) = some s := ⟨_, rfl⟩
  have hfirst : addAll (initCommand (makeSuccessResponse 3) 0 0) [] = some _ := rfl
  have hlast : addAll s [] = some s := rfl
  exact ⟨s, hadd, (address_round_trip _ _ _ _ [] (by decide) (by simp) hfirst hadd hlast).1⟩

end Stun
end Turn
end QosSupport
