import QosSupport.Turn.StunMessage

/-!
# Message integrity (`broker/coturn/src/client/ns_turn_msg.c`)

A message is signed with a key: the attribute `MESSAGE-INTEGRITY` has the HMAC of all that is before it, where
the length in the header is the one that ends with this attribute.

* `Hmac`: the function of OpenSSL, of which only the lengths are known.
* `attrAddIntegrity`, `checkIntegrity`: signing and checking.
* `integrity_round_trip`: a message that was signed is accepted, with whatever is added to it later.
* `integrity_ignores_rest`: of any message, what is after the attribute changes nothing about the result.
-/

namespace QosSupport
namespace Turn
namespace Stun

open Bytes

/-- `SHATYPE` -/
inductive Shatype
  | sha1
  | sha256
  | sha384
  | sha512
deriving DecidableEq

/-- `SHA1SIZEBYTES` and the others. -/
def Shatype.size : Shatype → Nat
  | sha1 => 20
  | sha256 => 32
  | sha384 => 48
  | sha512 => 64

/-- `get_hmackey_size` -/
def Shatype.keySize : Shatype → Nat
  | sha1 => 16
  | sha256 => 32
  | sha384 => 48
  | sha512 => 64

/-- `HMAC` of OpenSSL: for a key and data, as many bytes as the digest has. -/
structure Hmac where
  mac : Shatype → List Byte → List Byte → List Byte
  length : ∀ shatype key data, (mac shatype key data).length = shatype.size

/-- What a message is signed with: `hmackey_t`, or a password. -/
inductive Credential
  | longTerm (key : List Byte)
  | shortTerm (pwd : List Byte)

/-- The bytes that are used of it. -/
def Credential.secret (shatype : Shatype) : Credential → List Byte
  | longTerm key => key.take shatype.keySize
  | shortTerm pwd => pwd

/-- `STUN_ATTRIBUTE_MESSAGE_INTEGRITY` -/
def messageIntegrity : U16 := 0x0008#16

/-- `stun_attr_add_integrity_str` -/
def attrAddIntegrity (h : Hmac) (cred : Credential) (s : Msg) (shatype : Shatype) : Option Msg :=
  (attrAdd s messageIntegrity (List.replicate shatype.size 0)).map fun s =>
    { s with
      buf := put s.buf (s.len - shatype.size)
        (h.mac shatype (cred.secret shatype) (slice s.buf 0 (s.len - 4 - shatype.size))) }

/-- `stun_check_message_integrity_by_key_str` -/
def checkIntegrity (h : Hmac) (cred : Credential) (m : Buf) (len : Nat) (shatype : Shatype) : Int :=
  match attrGetFirstByType m len messageIntegrity with
  | none => -1
  | some sar =>
    if attrGetLen m sar ≠ shatype.size then -1
    else
      let origLen := getCommandMessageLen m len
      let newLen := sar + 4 + shatype.size
      if origLen < 0 then -1
      else if newLen > origLen then -1
      else
        let newHmac := h.mac shatype (cred.secret shatype)
          (slice (setCommandMessageLen m newLen) 0 (newLen - 4 - shatype.size))
        if slice m (sar + 4) shatype.size = newHmac then 1 else 0

section Integrity

variable {h : Hmac} {cred : Credential} {shatype : Shatype} {s s' : Msg} {m m' : Buf} {len len' sar : Nat}
  {attr : U16} {value : List Byte} {attrs after : List Attribute}

/-- What is checked, if the attribute is there and inside the message. -/
theorem checkIntegrity_eq (hsar : attrGetFirstByType m len messageIntegrity = some sar)
    (hlen : attrGetLen m sar = shatype.size) (hin : (sar + 4 + shatype.size : Int) ≤ getCommandMessageLen m len) :
    checkIntegrity h cred m len shatype =
      if slice m (sar + 4) shatype.size = h.mac shatype (cred.secret shatype)
        (slice (setCommandMessageLen m (sar + 4 + shatype.size)) 0 sar) then 1 else 0 := by
  have hsub : sar + 4 + shatype.size - 4 - shatype.size = sar := by omega
  unfold checkIntegrity
  rw [hsar]
  dsimp only
  rw [if_neg (not_not.mpr hlen), if_neg (by omega), if_neg (by push_cast; omega), hsub]

theorem checkIntegrity_cases (hres : checkIntegrity h cred m len shatype ≠ -1) :
    ∃ sar, attrGetFirstByType m len messageIntegrity = some sar ∧ attrGetLen m sar = shatype.size ∧
      (sar + 4 + shatype.size : Int) ≤ getCommandMessageLen m len := by
  unfold checkIntegrity at hres
  cases hsar : attrGetFirstByType m len messageIntegrity with
  | none =>
    rw [hsar] at hres
    exact absurd rfl hres
  | some sar =>
    rw [hsar] at hres
    dsimp only at hres
    split at hres
    · exact absurd rfl hres
    rename_i hlen
    split at hres
    · exact absurd rfl hres
    split at hres
    · exact absurd rfl hres
    rename_i hin
    refine ⟨sar, rfl, not_not.mp hlen, ?_⟩
    push_cast at hin
    omega

/-- The search for an attribute, in a message to which something is added. -/
theorem find?_follow (hlen : headerLength ≤ len) (hlen' : headerLength ≤ len') {stop n n' : Nat}
    (hm : be16 m 2 + headerLength = stop) (hm' : stop ≤ be16 m' 2 + headerLength) (hstop : stop % 4 = 0)
    (hagree : Agree m m' headerLength (stop - headerLength)) {type off : Nat} (hhead : headerLength ≤ off)
    (hoff : off < stop) (hmod : off % 4 = 0) (hn : n ≤ n')
    (h : (follow m len n (some off)).find? (fun a => attrGetType m a = type) = some sar) :
    (follow m' len' n' (some off)).find? (fun a => attrGetType m' a = type) = some sar := by
  induction n generalizing off n' with
  | zero => cases h
  | succ n ih =>
    obtain ⟨n', rfl⟩ : ∃ k, n' = k + 1 := ⟨n' - 1, by omega⟩
    have htype : attrGetType m' off = attrGetType m off :=
      (be16_congr (hagree.mono (j := off) (by omega) (by omega))).symm
    have hend : attrEnd m' off = attrEnd m off := by
      rw [attrEnd_eq, attrEnd_eq, attrGetLen, attrGetLen,
        be16_congr (hagree.mono (j := off + 2) (k := 2) (by omega) (by omega))]
    have hle := le_attrEnd m off
    rw [follow, List.find?_cons] at h ⊢
    rw [htype]
    split at h
    · exact h
    · rw [attrGetNext_eq hlen, hm] at h
      split at h
      · rename_i hlt
        rw [attrGetNext_eq hlen', hend, if_pos (by omega)]
        exact ih (by omega) hlt (attrEnd_mod hmod) (by omega) h
      · cases n <;> cases h

/-- What a message is checked for is before the end of its attribute. -/
theorem checkIntegrity_congr (hmsg : isCommandMessage m len = true) (hlen : len ≤ len')
    (hm' : be16 m' 2 + headerLength = len') (hbefore : Agree m m' 0 2) (hafter : Agree m m' 4 (len - 4))
    (hres : checkIntegrity h cred m len shatype ≠ -1) :
    checkIntegrity h cred m' len' shatype = checkIntegrity h cred m len shatype := by
  obtain ⟨hhead, -, -, -, hmod, hm⟩ := of_decide_eq_true hmsg
  rw [and_three] at hmod
  have hbase : headerLength = 20 := rfl
  obtain ⟨sar, hsar, hsize, hin⟩ := checkIntegrity_cases hres
  have hin' : sar + 4 + shatype.size ≤ len := by
    rw [getCommandMessageLen_eq hhead] at hin
    omega
  have hmem := List.mem_of_find?_eq_some hsar
  have hsar' : attrGetFirstByType m' len' messageIntegrity = some sar := by
    unfold attrGetFirstByType attrRefs at hsar ⊢
    rw [attrGetFirst_eq hhead] at hsar
    rw [attrGetFirst_eq (hhead.trans hlen)]
    split at hsar
    · rw [if_pos (by omega)]
      exact find?_follow hhead (hhead.trans hlen) hm (by omega) (by omega) (hafter.mono (by omega) (by omega))
        (le_refl _) (by omega) rfl (by omega) hsar
    · cases hlen : be16 m 2 <;> rw [hlen] at hsar <;> cases hsar
  have hpos := (attributes_inside m len hmsg).2.1 sar hmem
  have hsize' : attrGetLen m' sar = shatype.size := by
    rw [← hsize, attrGetLen, attrGetLen, be16_congr (hafter.mono (j := sar + 2) (by omega) (by omega))]
  rw [checkIntegrity_eq hsar hsize hin, checkIntegrity_eq hsar' hsize'
    (by rw [getCommandMessageLen_eq (hhead.trans hlen)]; omega)]
  have hmac : Agree (setCommandMessageLen m (sar + 4 + shatype.size))
      (setCommandMessageLen m' (sar + 4 + shatype.size)) 0 sar := by
    refine agree_put_put fun j _ hj hout => ?_
    rw [bytes16_length] at hout
    rcases hout with hout | hout
    · exact hbefore j (by omega) (by omega)
    · exact hafter j (by omega) (by omega)
  rw [slice_congr hmac, slice_congr (hafter.mono (j := sar + 4) (k := shatype.size) (by omega) (by omega))]

/-- **One attribute** that is added after the others. -/
theorem checkIntegrity_attrAdd (hmsg : isCommandMessage s.buf s.len = true) (hadd : attrAdd s attr value = some s')
    (hres : checkIntegrity h cred s.buf s.len shatype ≠ -1) :
    checkIntegrity h cred s'.buf s'.len shatype = checkIntegrity h cred s.buf s.len shatype ∧
      isCommandMessage s'.buf s'.len = true := by
  obtain ⟨hhead, hchan, hbits, hcookie, hmod, hm⟩ := of_decide_eq_true hmsg
  obtain ⟨hlen, hlt, hbuf⟩ := attrAdd_eq_some hadd
  rw [hm] at hlen hbuf
  have hbase : headerLength = 20 := rfl
  have hle := le_pad4 (s.len + 4 + value.length)
  have hagree : ∀ {i n}, i + n ≤ 2 ∨ 4 ≤ i → i + n ≤ s.len → Agree s'.buf s.buf i n := by
    intro i n hi hn
    rw [hbuf]
    exact agree_attrWrite hi hn
  have hm' : be16 s'.buf 2 + headerLength = s'.len := by
    rw [hbuf, be16_attrWrite_len hhead hlt]
    exact Nat.sub_add_cancel s'.header
  refine ⟨checkIntegrity_congr hmsg (by omega) hm' (hagree (by omega) (by omega)).symm
    (hagree (by omega) (by omega)).symm hres, decide_eq_true ⟨s'.header, ?_, ?_, ?_, ?_, hm'⟩⟩
  · rwa [be16_congr (hagree (by omega) (by omega))]
  · rwa [hagree (i := 0) (n := 1) (by omega) (by omega) 0 (by omega) (by omega)]
  · rwa [be32_congr (hagree (by omega) (by omega))]
  · have hpad := pad4_mod (s.len + 4 + value.length)
    rw [and_three]
    omega

/-- **Whatever is added later.** -/
theorem checkIntegrity_addAll (hmsg : isCommandMessage s.buf s.len = true) (hadd : addAll s after = some s')
    (hres : checkIntegrity h cred s.buf s.len shatype ≠ -1) :
    checkIntegrity h cred s'.buf s'.len shatype = checkIntegrity h cred s.buf s.len shatype ∧
      isCommandMessage s'.buf s'.len = true := by
  induction after generalizing s with
  | nil =>
    cases hadd
    exact ⟨rfl, hmsg⟩
  | cons a after ih =>
    obtain ⟨attr, value⟩ := a
    obtain ⟨s₁, hadd₁, hrest⟩ := Option.bind_eq_some_iff.mp hadd
    obtain ⟨heq, hmsg₁⟩ := checkIntegrity_attrAdd hmsg hadd₁ hres
    obtain ⟨heq', hmsg'⟩ := ih hmsg₁ hrest (by rwa [heq])
    exact ⟨heq'.trans heq, hmsg'⟩

theorem Shatype.pad4_size (shatype : Shatype) : pad4 shatype.size = shatype.size := by
  cases shatype <;> rfl

/-- Signing changes nothing that is before the attribute, but the length. -/
theorem agree_attrAddIntegrity (hadd : attrAddIntegrity h cred s shatype = some s')
    (hlen : be16 s.buf 2 + headerLength = s.len) {i n : Nat} (hi : i + n ≤ 2 ∨ 4 ≤ i) (hn : i + n ≤ s.len) :
    Agree s'.buf s.buf i n := by
  obtain ⟨s₁, hadd₁, rfl⟩ := Option.map_eq_some_iff.mp hadd
  obtain ⟨hlen₁, -, hbuf⟩ := attrAdd_eq_some hadd₁
  have hle := le_pad4 (s.len + 4 + shatype.size)
  rw [hlen] at hlen₁ hbuf
  rw [List.length_replicate] at hlen₁
  refine (agree_put (.inl (by omega))).trans ?_
  rw [hbuf]
  exact agree_attrWrite hi hn

/-- What the attribute is the HMAC of. -/
theorem holds_attrAddIntegrity {type : U16} {tid : Tid} (hs : Holds s type tid attrs)
    (hadd : attrAddIntegrity h cred s shatype = some s') :
    Holds s' type tid (attrs ++ [(messageIntegrity, h.mac shatype (cred.secret shatype)
      (slice (setCommandMessageLen s.buf (s.len + 4 + shatype.size)) 0 s.len))]) := by
  obtain ⟨s₁, hadd₁, rfl⟩ := Option.map_eq_some_iff.mp hadd
  have hs₁ := hs.attrAdd hadd₁
  obtain ⟨-, -, hbuf⟩ := attrAdd_eq_some hadd₁
  rw [hs.length] at hbuf
  have hlen : s₁.len = headerLength + room attrs + 4 + shatype.size := by
    rw [hs₁.len_eq, room_append]
    simp only [room, List.length_replicate, shatype.pad4_size]
    omega
  have hold := hs.len_eq
  have hmac : slice s₁.buf 0 s.len = slice (setCommandMessageLen s.buf (s.len + 4 + shatype.size)) 0 s.len := by
    rw [hbuf, attrWrite_eq, slice_congr (agree_put (by omega)), hlen, hold]
  have hvalue : s₁.len - shatype.size = headerLength + room attrs + 4 := by omega
  have hcovered : s₁.len - 4 - shatype.size = s.len := by omega
  rw [hvalue, hcovered, hmac]
  exact hs₁.setLast ((h.length _ _ _).trans (List.length_replicate ..).symm)

theorem checkIntegrity_signed {type : U16} {tid : Tid} (hs : Holds s type tid attrs)
    (hnew : ∀ a ∈ attrs, a.1 ≠ messageIntegrity) (hadd : attrAddIntegrity h cred s shatype = some s') :
    checkIntegrity h cred s'.buf s'.len shatype = 1 := by
  have hsigned := holds_attrAddIntegrity hs hadd
  have hat := hsigned.attr_after
  rw [h.length] at hat
  have hold := hs.len_eq
  have hin : (↑(headerLength + room attrs) + 4 + shatype.size : Int) ≤ getCommandMessageLen s'.buf s'.len := by
    have hlen := hsigned.len_eq
    rw [room_append] at hlen
    simp only [room, h.length, shatype.pad4_size] at hlen
    have hfield := hsigned.length
    rw [getCommandMessageLen_eq s'.header]
    omega
  have hmac : Agree (setCommandMessageLen s.buf (s.len + 4 + shatype.size))
      (setCommandMessageLen s'.buf (s.len + 4 + shatype.size)) 0 s.len := by
    have hbase : 20 ≤ s.len := s.header
    refine agree_put_put fun j _ hj hout => ?_
    rw [bytes16_length] at hout
    have hbyte : j + 1 ≤ 2 ∨ 4 ≤ j := by omega
    exact (agree_attrAddIntegrity hadd hs.length hbyte (by omega) j (le_refl j) (by omega)).symm
  rw [checkIntegrity_eq (hsigned.attrGetFirstByType hnew) hat.2.1 hin, hat.2.2, ← hold, slice_congr hmac, if_pos rfl]

end Integrity

/-- **The round trip of signatures.** A message that is made and signed is accepted with the same key, and what
is added to it later is read of it as well. -/
theorem integrity_round_trip (h : Hmac) (cred : Credential) (shatype : Shatype) (type : U16) (tid : Tid) (m : Buf)
    {before after : List Attribute} {s s₁ s₂ : Msg} (hs : addAll (initCommand type tid m) before = some s)
    (hnew : ∀ a ∈ before, a.1 ≠ messageIntegrity) (hsign : attrAddIntegrity h cred s shatype = some s₁)
    (hrest : addAll s₁ after = some s₂) :
    checkIntegrity h cred s₂.buf s₂.len shatype = 1 ∧
      attributes s₂.buf s₂.len = before ++ (messageIntegrity, h.mac shatype (cred.secret shatype)
        (slice (setCommandMessageLen s.buf (s.len + 4 + shatype.size)) 0 s.len)) :: after := by
  have hbefore := ((holds_initCommand type tid m).addAll before).2 s hs
  have hsigned := holds_attrAddIntegrity hbefore hsign
  have hall := (hsigned.addAll after).2 s₂ hrest
  have hone := checkIntegrity_signed hbefore hnew hsign
  refine ⟨?_, ?_⟩
  · rw [(checkIntegrity_addAll hsigned.isCommandMessage hrest (by rw [hone]; decide)).1, hone]
  · rw [hall.attributes]
    simp

/-- The HMAC with SHA-1 of a binding request of the user `u`, for the password `pw`. -/
def requestHmac : Hmac where
  mac shatype _ _ :=
    match shatype with
    | .sha1 => [0x9D, 0x30, 0x61, 0xA5, 0xA7, 0x69, 0x8E, 0x52, 0x1A, 0xC1,
        0xED, 0xAD, 0xF8, 0x92, 0x16, 0xC2, 0xB8, 0xD7, 0xEA, 0xD5]
    | other => List.replicate other.size 0
  length shatype _ _ := by cases shatype <;> simp [Shatype.size]

/-- The password `pw`. -/
def requestPwd : Credential := .shortTerm [0x70, 0x77]

/-- A binding request with a USERNAME. -/
def userRequest : Msg :=
  (addAll (initCommand (makeRequest 0x0001#16) 0 0) [(0x0006#16, [0x75])]).getD
    (initCommand (makeRequest 0x0001#16) 0 0)

/-- It is signed. -/
def signedRequest : Msg := (attrAddIntegrity requestHmac requestPwd userRequest .sha1).getD userRequest

theorem signedRequest_eq : attrAddIntegrity requestHmac requestPwd userRequest .sha1 = some signedRequest := rfl

/-- The name of a software is added to it. -/
theorem integrity_round_trip_request :
    ∃ s₂, addAll signedRequest [(0x8022#16, [0x78])] = some s₂ ∧
      checkIntegrity requestHmac requestPwd s₂.buf s₂.len .sha1 = 1 := by
  have hs : addAll (initCommand (makeRequest 0x0001#16) 0 0) [(0x0006#16, [0x75])] = some userRequest := rfl
  have hnew : ∀ a ∈ [((0x0006#16 : U16), ([0x75] : List Byte))], a.1 ≠ messageIntegrity := by decide
  have hrest : addAll signedRequest [(0x8022#16, [0x78])] = some _ := rfl
  exact ⟨_, hrest, (integrity_round_trip requestHmac requestPwd .sha1 _ 0 0 hs hnew signedRequest_eq hrest).1⟩

/-- **The check stops at the signature.** For every message that is accepted and in which a signature is found,
attributes that are added later, by whoever it may be, change nothing about the result of the check. -/
theorem integrity_ignores_rest (h : Hmac) (cred : Credential) (shatype : Shatype) {s s' : Msg}
    {after : List Attribute} (hmsg : isCommandMessage s.buf s.len = true)
    (hres : checkIntegrity h cred s.buf s.len shatype ≠ -1) (hadd : addAll s after = some s') :
    isCommandMessage s'.buf s'.len = true ∧
      checkIntegrity h cred s'.buf s'.len shatype = checkIntegrity h cred s.buf s.len shatype :=
  (checkIntegrity_addAll hmsg hadd hres).symm

theorem integrity_ignores_rest_request :
    ∃ s', addAll signedRequest [(0x8022#16, [0x78])] = some s' ∧
      checkIntegrity requestHmac requestPwd s'.buf s'.len .sha1 =
        checkIntegrity requestHmac requestPwd signedRequest.buf signedRequest.len .sha1 := by
  have hmsg : isCommandMessage signedRequest.buf signedRequest.len = true := by decide +kernel
  have hres : checkIntegrity requestHmac requestPwd signedRequest.buf signedRequest.len .sha1 ≠ -1 := by decide +kernel
  have hadd : addAll signedRequest [(0x8022#16, [0x78])] = some _ := rfl
  exact ⟨_, hadd, (integrity_ignores_rest requestHmac requestPwd .sha1 hmsg hres hadd).2⟩

end Stun
end Turn
end QosSupport
