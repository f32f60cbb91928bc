import QosSupport.Lib.Bytes
import QosSupport.Turn.Allocation

/-!
# STUN messages (`broker/coturn/src/client/ns_turn_msg.c`)

A message has a header of 20 bytes (type, length, cookie and transaction id), and then attributes, each with
a type, a length and a value that is padded to a multiple of 4. The padding is what the buffer had there
before.

* `initCommand`, `attrAdd`: how a message is made; an attribute for which there is no room is refused.
* `isCommandMessage`: what is accepted as a message.
* `attrGetFirst`, `attrGetNext`, `attrRefs`: the loop over the attributes.
* `Laid`: the attributes that a buffer holds, one after another.
* `message_round_trip`: a message that was made is accepted, and its attributes are read as they were added.
* `attributes_inside`: what the loop reads of any message that is accepted.
-/

namespace QosSupport
namespace Turn
namespace Stun

open Bytes

/-! ## Types -/

abbrev U16 := BitVec 16

/-- `stun_make_type` -/
def makeType (method : U16) : U16 :=
  let method := method &&& 0x0FFF#16
  (method &&& 0x000F#16) ||| ((method &&& 0x0070#16) <<< 1) ||| ((method &&& 0x0380#16) <<< 2) |||
    ((method &&& 0x0C00#16) <<< 2)

/-- `stun_make_request` -/
def makeRequest (method : U16) : U16 := makeType method &&& 0xFEEF#16

/-- `stun_make_indication` -/
def makeIndication (method : U16) : U16 := (makeType method &&& 0xFEEF#16) ||| 0x0010#16

/-- `stun_make_success_response` -/
def makeSuccessResponse (method : U16) : U16 := (makeType method &&& 0xFEEF#16) ||| 0x0100#16

/-- `stun_make_error_response` -/
def makeErrorResponse (method : U16) : U16 := makeType method ||| 0x0110#16

/-- The kinds of messages. -/
inductive Class
  | request
  | indication
  | successResponse
  | errorResponse
deriving DecidableEq

/-- The type of a message of a kind. -/
def Class.make : Class → U16 → U16
  | request => makeRequest
  | indication => makeIndication
  | successResponse => makeSuccessResponse
  | errorResponse => makeErrorResponse

/-- The bits of `IS_STUN_REQUEST` and the other tests. -/
def Class.bits : Class → U16
  | request => 0x0000#16
  | indication => 0x0010#16
  | successResponse => 0x0100#16
  | errorResponse => 0x0110#16

/-- The method in a type, as `stun_get_method_str` takes it out. -/
def methodOf (tt : U16) : U16 :=
  (tt &&& 0x000F#16) ||| ((tt &&& 0x00E0#16) >>> 1) ||| ((tt &&& 0x0E00#16) >>> 2) ||| ((tt &&& 0x3000#16) >>> 2)

theorem methodOf_make (c : Class) (method : U16) :
    methodOf (c.make method &&& 0x3FFF#16) = method &&& 0x0FFF#16 := by
  cases c <;>
  · simp only [Class.make, makeRequest, makeIndication, makeSuccessResponse, makeErrorResponse, makeType, methodOf]
    refine BitVec.eq_of_getLsbD_eq fun i hi => ?_
    interval_cases i <;> simp

theorem bits_make (c : Class) (method : U16) : c.make method &&& 0x3FFF#16 &&& 0x0110#16 = c.bits := by
  cases c <;>
  · simp only [Class.make, makeRequest, makeIndication, makeSuccessResponse, makeErrorResponse, makeType, Class.bits]
    refine BitVec.eq_of_getLsbD_eq fun i hi => ?_
    interval_cases i <;> simp

theorem bits_inj {c d : Class} : c.bits = d.bits ↔ c = d := by
  cases c <;> cases d <;> decide

/-! ## Headers -/

/-- `STUN_HEADER_LENGTH` -/
def headerLength : Nat := 20

/-- `MAX_STUN_MESSAGE_SIZE` -/
def maxMessageSize : Nat := 65507

/-- `STUN_MAGIC_COOKIE` -/
def magicCookie : Nat := 0x2112A442

/-- `stun_tid` -/
abbrev Tid := Fin 12 → Byte

/-- A buffer and how much of it is in use. The functions that add attributes are called for messages that
have a header. -/
structure Msg where
  buf : Buf
  len : Nat
  header : headerLength ≤ len

/-- `stun_get_command_message_len_str` -/
def getCommandMessageLen (m : Buf) (len : Nat) : Int := if len < headerLength then -1 else be16 m 2 + headerLength

/-- `stun_set_command_message_len_str`, for a length that is not less than that of the header. -/
def setCommandMessageLen (m : Buf) (len : Nat) : Buf := put m 2 (bytes16 (len - headerLength))

/-- The type of a message, or the channel number. -/
def type16 (m : Buf) : U16 := BitVec.ofNat 16 (be16 m 0)

/-- `stun_get_method_str` -/
def getMethod (m : Buf) (len : Nat) : U16 := if len < 2 then 0xFFFF#16 else methodOf (type16 m)

/-- `stun_get_msg_type_str` -/
def getMsgType (m : Buf) (len : Nat) : U16 := if len < 2 then 0xFFFF#16 else type16 m &&& 0x3FFF#16

/-- `is_channel_msg_str` -/
def isChannelMsg (m : Buf) (blen : Nat) : Bool := decide (4 ≤ blen ∧ ValidChannel (be16 m 0))

/-- `stun_is_request_str`, `stun_is_indication_str`, `stun_is_success_response_str` and the first part of
`stun_is_error_response_str`. -/
def isClass (c : Class) (m : Buf) (len : Nat) : Bool :=
  !isChannelMsg m len && decide (getMsgType m len &&& 0x0110#16 = c.bits)

/-- `stun_is_response_str` -/
def isResponse (m : Buf) (len : Nat) : Bool := isClass .successResponse m len || isClass .errorResponse m len

/-- `stun_is_command_message_str` -/
def isCommandMessage (m : Buf) (blen : Nat) : Bool :=
  decide (headerLength ≤ blen ∧ ¬ ValidChannel (be16 m 0) ∧ (m 0).val &&& 0xC0 = 0 ∧ be32 m 4 = magicCookie ∧
    be16 m 2 &&& 0x0003 = 0 ∧ be16 m 2 + headerLength = blen)

/-- `stun_tid_from_message_str` -/
def tidFromMessage (m : Buf) : Tid := fun i => m (8 + i)

/-- `stun_tid_message_cpy` -/
def tidMessageCpy (m : Buf) (tid : Tid) : Buf := put m 8 (List.ofFn tid)

/-- `stun_init_command_str`, where `tid` is the id that is generated. -/
def initCommand (messageType : U16) (tid : Tid) (m : Buf) : Msg where
  buf :=
    let m := put m 0 (List.replicate headerLength 0)
    let m := put m 0 (bytes16 (messageType &&& 0x3FFF#16).toNat)
    let m := put m 2 (bytes16 0)
    let m := put m 4 (bytes32 magicCookie)
    tidMessageCpy m tid
  len := headerLength
  header := le_refl _

/-! ## Attributes -/

/-- `stun_attr_get_type`, where an attribute is the offset at which it begins. -/
def attrGetType (m : Buf) (attr : Nat) : Nat := be16 m attr

/-- `stun_attr_get_len` -/
def attrGetLen (m : Buf) (attr : Nat) : Nat := be16 m (attr + 2)

/-- `stun_attr_get_value` -/
def attrGetValue (m : Buf) (attr : Nat) : Option Nat := if attrGetLen m attr < 1 then none else some (attr + 4)

/-- `stun_attr_get_first_str` -/
def attrGetFirst (m : Buf) (len : Nat) : Option Nat :=
  if getCommandMessageLen m len > headerLength then some headerLength else none

/-- Where the attribute ends, with its padding. -/
def attrEnd (m : Buf) (attr : Nat) : Nat :=
  let attrlen := attrGetLen m attr
  let rem4 := attrlen &&& 0x0003
  attr + 4 + (if rem4 ≠ 0 then attrlen + 4 - rem4 else attrlen)

/-- `stun_attr_get_next_str` -/
def attrGetNext (m : Buf) (len : Nat) (prev : Nat) : Option Nat :=
  if (attrEnd m prev : Int) < getCommandMessageLen m len then some (attrEnd m prev) else none

/-- The attributes from one on, for at most `n` rounds. -/
def follow (m : Buf) (len : Nat) : Nat → Option Nat → List Nat
  | 0, _ => []
  | _, none => []
  | n + 1, some attr => attr :: follow m len n (attrGetNext m len attr)

/-- The attributes that a loop goes over, in as many rounds as the header gives bytes. An accepted message takes a
quarter of them at most (`attributes_inside`). -/
def attrRefs (m : Buf) (len : Nat) : List Nat := follow m len (be16 m 2) (attrGetFirst m len)

/-- `stun_attr_get_first_by_type_str` -/
def attrGetFirstByType (m : Buf) (len : Nat) (type : U16) : Option Nat :=
  (attrRefs m len).find? fun attr => attrGetType m attr = type.toNat

/-- What `stun_attr_add_str` writes: the new length of the message, and an attribute at `clen`. -/
def attrWrite (m : Buf) (clen newlen : Nat) (attr : U16) (avalue : List Byte) : Buf :=
  let m := setCommandMessageLen m newlen
  let m := put m clen (bytes16 attr.toNat)
  let m := put m (clen + 2) (bytes16 avalue.length)
  put m (clen + 4) avalue

/-- `stun_attr_add_str` -/
def attrAdd (s : Msg) (attr : U16) (avalue : List Byte) : Option Msg :=
  let clen := be16 s.buf 2 + headerLength
  let newlen := pad4 (clen + 4 + avalue.length)
  if maxMessageSize ≤ newlen then none
  else
    some
      { buf := attrWrite s.buf clen newlen attr avalue
        len := newlen
        header := by
          have h := le_pad4 (clen + 4 + avalue.length)
          show headerLength ≤ pad4 (clen + 4 + avalue.length)
          omega }

/-- The type and the value of an attribute. -/
abbrev Attribute := U16 × List Byte

/-- What is read of the attribute at an offset. -/
def attrAt (m : Buf) (attr : Nat) : Attribute :=
  (BitVec.ofNat 16 (attrGetType m attr), slice m (attr + 4) (attrGetLen m attr))

/-- What is read of the attributes of a message. -/
def attributes (m : Buf) (len : Nat) : List Attribute := (attrRefs m len).map (attrAt m)

/-- Attributes are added, one after another. -/
def addAll (s : Msg) : List Attribute → Option Msg
  | [] => some s
  | (attr, avalue) :: rest => (attrAdd s attr avalue).bind fun s => addAll s rest

/-! ## The attributes that a buffer holds -/

/-- The buffer holds the attributes, one after another, from `off` to `stop`. -/
def Laid (m : Buf) : Nat → List Attribute → Nat → Prop
  | off, [], stop => off = stop
  | off, (type, value) :: rest, stop =>
    be16 m off = type.toNat ∧ be16 m (off + 2) = value.length ∧ slice m (off + 4) value.length = value ∧
      Laid m (off + 4 + pad4 value.length) rest stop

/-- How many bytes the attributes take. -/
def room : List Attribute → Nat
  | [] => 0
  | (_, value) :: rest => 4 + pad4 value.length + room rest

/-- Where the attributes begin. -/
def offsets : Nat → List Attribute → List Nat
  | _, [] => []
  | off, (_, value) :: rest => off :: offsets (off + 4 + pad4 value.length) rest

section Laid

variable {m m' : Buf} {off mid stop len n : Nat} {attrs attrs' : List Attribute} {type : U16} {value : List Byte}

theorem room_append (attrs attrs' : List Attribute) : room (attrs ++ attrs') = room attrs + room attrs' := by
  induction attrs with
  | nil => simp [room]
  | cons a attrs ih =>
    simp only [List.cons_append, room, ih]
    omega

theorem room_mod (attrs : List Attribute) : room attrs % 4 = 0 := by
  induction attrs with
  | nil => rfl
  | cons a attrs ih =>
    have h := pad4_mod a.2.length
    simp only [room]
    omega

theorem Laid.stop_eq (h : Laid m off attrs stop) : stop = off + room attrs := by
  induction attrs generalizing off with
  | nil => exact h.symm
  | cons a attrs ih =>
    rw [ih h.2.2.2, room]
    omega

theorem Laid.congr (h : Laid m off attrs stop) (hm : Agree m m' off (stop - off)) : Laid m' off attrs stop := by
  induction attrs generalizing off with
  | nil => exact h
  | cons a attrs ih =>
    obtain ⟨htype, hlen, hvalue, hrest⟩ := h
    have hstop := hrest.stop_eq
    have hpad := le_pad4 a.2.length
    refine ⟨?_, ?_, ?_, ih hrest (hm.mono (by omega) (by omega))⟩
    · rw [← be16_congr (hm.mono (j := off) (by omega) (by omega)), htype]
    · rw [← be16_congr (hm.mono (j := off + 2) (by omega) (by omega)), hlen]
    · rw [← slice_congr (hm.mono (by omega) (by omega)), hvalue]

theorem Laid.append (h : Laid m off attrs mid) (h' : Laid m mid attrs' stop) : Laid m off (attrs ++ attrs') stop := by
  induction attrs generalizing off with
  | nil =>
    obtain rfl : off = mid := h
    exact h'
  | cons a attrs ih => exact ⟨h.1, h.2.1, h.2.2.1, ih h.2.2.2⟩

theorem and_three (x : Nat) : x &&& 0x0003 = x % 4 := Nat.and_two_pow_sub_one_eq_mod x 2

theorem attrEnd_eq (m : Buf) (attr : Nat) : attrEnd m attr = attr + 4 + pad4 (attrGetLen m attr) := by
  unfold attrEnd pad4
  dsimp only
  rw [and_three]
  split <;> omega

theorem getCommandMessageLen_eq (h : headerLength ≤ len) : getCommandMessageLen m len = be16 m 2 + headerLength := by
  unfold getCommandMessageLen
  rw [if_neg (by omega)]

theorem attrGetFirst_eq (h : headerLength ≤ len) :
    attrGetFirst m len = if headerLength < be16 m 2 + headerLength then some headerLength else none := by
  unfold attrGetFirst
  rw [getCommandMessageLen_eq h]
  refine if_congr ?_ rfl rfl
  omega

theorem attrGetNext_eq (h : headerLength ≤ len) (attr : Nat) :
    attrGetNext m len attr =
      if attrEnd m attr < be16 m 2 + headerLength then some (attrEnd m attr) else none := by
  unfold attrGetNext
  rw [getCommandMessageLen_eq h]
  refine if_congr ?_ rfl rfl
  omega

/-- The loop finds the attributes that the buffer holds. -/
theorem follow_laid (hlen : headerLength ≤ len) (h : Laid m off attrs (be16 m 2 + headerLength))
    (hn : be16 m 2 + headerLength ≤ off + n) :
    follow m len n (if off < be16 m 2 + headerLength then some off else none) = offsets off attrs := by
  induction attrs generalizing off n with
  | nil =>
    obtain rfl : off = _ := h
    rw [if_neg (lt_irrefl _)]
    cases n <;> rfl
  | cons a attrs ih =>
    obtain ⟨type, value⟩ := a
    obtain ⟨-, hvlen, -, hrest⟩ := h
    have hstop := hrest.stop_eq
    have hlt : off < be16 m 2 + headerLength := by omega
    obtain ⟨n, rfl⟩ : ∃ k, n = k + 1 := ⟨n - 1, by omega⟩
    have hend : attrEnd m off = off + 4 + pad4 value.length := by
      rw [attrEnd_eq, attrGetLen, hvlen]
    rw [if_pos hlt, follow, attrGetNext_eq hlen, hend, ih hrest (by omega), offsets]

theorem attrRefs_of_laid (hlen : headerLength ≤ len)
    (h : Laid m headerLength attrs (be16 m 2 + headerLength)) : attrRefs m len = offsets headerLength attrs := by
  unfold attrRefs
  rw [attrGetFirst_eq hlen]
  exact follow_laid hlen h (by omega)

theorem offsets_append (off : Nat) (attrs attrs' : List Attribute) :
    offsets off (attrs ++ attrs') = offsets off attrs ++ offsets (off + room attrs) attrs' := by
  induction attrs generalizing off with
  | nil => rfl
  | cons a attrs ih =>
    simp only [List.cons_append, offsets, ih, room]
    rw [← Nat.add_assoc, ← Nat.add_assoc]

theorem map_attrAt (h : Laid m off attrs stop) : (offsets off attrs).map (attrAt m) = attrs := by
  induction attrs generalizing off with
  | nil => rfl
  | cons a attrs ih =>
    obtain ⟨type, value⟩ := a
    obtain ⟨htype, hvlen, hvalue, hrest⟩ := h
    rw [offsets, List.map_cons, ih hrest, attrAt, attrGetType, attrGetLen, htype, hvlen, hvalue, BitVec.ofNat_toNat,
      BitVec.setWidth_eq]

theorem Laid.init (h : Laid m off (attrs ++ attrs') stop) : Laid m off attrs (off + room attrs) := by
  induction attrs generalizing off with
  | nil => rfl
  | cons a attrs ih =>
    refine ⟨h.1, h.2.1, h.2.2.1, ?_⟩
    rw [room, ← Nat.add_assoc, ← Nat.add_assoc]
    exact ih h.2.2.2

theorem Laid.tail (h : Laid m off (attrs ++ attrs') stop) : Laid m (off + room attrs) attrs' stop := by
  induction attrs generalizing off with
  | nil => exact h
  | cons a attrs ih =>
    rw [room, ← Nat.add_assoc, ← Nat.add_assoc]
    exact ih h.2.2.2

theorem Laid.type_of_mem (h : Laid m off (attrs ++ attrs') stop) :
    ∀ r ∈ offsets off attrs, ∃ a ∈ attrs, attrGetType m r = a.1.toNat := by
  induction attrs generalizing off with
  | nil => simp [offsets]
  | cons a attrs ih =>
    intro r hr
    rcases List.mem_cons.mp hr with rfl | hr
    · exact ⟨a, List.mem_cons_self, h.1⟩
    · obtain ⟨b, hb, hty⟩ := ih h.2.2.2 r hr
      exact ⟨b, List.mem_cons_of_mem _ hb, hty⟩

end Laid

/-! ## Messages that are made -/

/-- There is room for the attributes. -/
def Fits (attrs : List Attribute) : Prop := headerLength + room attrs < maxMessageSize

instance : DecidablePred Fits := fun _ => inferInstanceAs (Decidable (_ < _))

/-- The message has this type and this transaction id, and holds these attributes. -/
structure Holds (s : Msg) (type : U16) (tid : Tid) (attrs : List Attribute) : Prop where
  type : be16 s.buf 0 = (type &&& 0x3FFF#16).toNat
  length : be16 s.buf 2 + headerLength = s.len
  cookie : be32 s.buf 4 = magicCookie
  tid : tidFromMessage s.buf = tid
  laid : Laid s.buf headerLength attrs s.len
  fits : Fits attrs

section Holds

variable {s s' : Msg} {type : U16} {tid : Tid} {attrs : List Attribute} {attr : U16} {value : List Byte}
  {c : Class} {method : U16}

theorem Holds.len_eq (h : Holds s type tid attrs) : s.len = headerLength + room attrs := h.laid.stop_eq

theorem tidFromMessage_congr {m m' : Buf} (h : Agree m m' 8 12) : tidFromMessage m = tidFromMessage m' := by
  funext i
  exact h (8 + i) (by omega) (by omega)

theorem tidFromMessage_cpy (m : Buf) (tid : Tid) : tidFromMessage (tidMessageCpy m tid) = tid := by
  funext i
  unfold tidFromMessage tidMessageCpy put
  rw [if_pos (by omega), Nat.add_sub_cancel_left, List.getElem?_ofFn, dif_pos i.isLt]
  rfl

theorem holds_initCommand (type : U16) (tid : Tid) (m : Buf) : Holds (initCommand type tid m) type tid [] where
  type := by
    have hlt := (type &&& 0x3FFF#16).isLt
    dsimp only [initCommand, tidMessageCpy]
    rw [be16_congr (agree_put (by simp)), be16_congr (agree_put (by simp)), be16_congr (agree_put (by simp)),
      be16_put]
    omega
  length := by
    dsimp only [initCommand, tidMessageCpy]
    rw [be16_congr (agree_put (by simp)), be16_congr (agree_put (by simp)), be16_put]
    rfl
  cookie := by
    dsimp only [initCommand, tidMessageCpy]
    rw [be32_congr (agree_put (by simp)), be32_put]
    rfl
  tid := tidFromMessage_cpy _ _
  laid := rfl
  fits := by decide

/-! ### One attribute -/

theorem attrAdd_eq_none :
    attrAdd s attr value = none ↔ maxMessageSize ≤ pad4 (be16 s.buf 2 + headerLength + 4 + value.length) := by
  unfold attrAdd
  dsimp only
  split
  · rename_i h
    exact iff_of_true rfl h
  · rename_i h
    exact iff_of_false nofun h

theorem attrAdd_eq_some (h : attrAdd s attr value = some s') :
    s'.len = pad4 (be16 s.buf 2 + headerLength + 4 + value.length) ∧ s'.len < maxMessageSize ∧
      s'.buf = attrWrite s.buf (be16 s.buf 2 + headerLength) s'.len attr value := by
  unfold attrAdd at h
  dsimp only at h
  split at h
  · cases h
  · rename_i hlt
    cases h
    exact ⟨rfl, not_le.mp hlt, rfl⟩

section Write

variable {m : Buf} {clen newlen : Nat}

theorem attrWrite_eq (m : Buf) (clen newlen : Nat) (attr : U16) (value : List Byte) :
    attrWrite m clen newlen attr value =
      put (setCommandMessageLen m newlen) clen (bytes16 attr.toNat ++ (bytes16 value.length ++ value)) := by
  unfold attrWrite
  rw [put_append, put_append]
  rfl

/-- The length that is read. -/
theorem be16_attrWrite_len (hclen : headerLength ≤ clen) (hlt : newlen < maxMessageSize) :
    be16 (attrWrite m clen newlen attr value) 2 = newlen - headerLength := by
  unfold headerLength at hclen ⊢
  unfold maxMessageSize at hlt
  rw [attrWrite_eq, be16_congr (agree_put (by omega)), setCommandMessageLen, be16_put]
  unfold headerLength
  omega

/-- Nothing else is changed before the attribute. -/
theorem agree_attrWrite {i n : Nat} (hi : i + n ≤ 2 ∨ 4 ≤ i) (hn : i + n ≤ clen) :
    Agree (attrWrite m clen newlen attr value) m i n := by
  rw [attrWrite_eq]
  refine (agree_put (by omega)).trans (agree_put ?_)
  rw [bytes16_length]
  omega

/-- The attribute is there. -/
theorem laid_attrWrite (hlen : value.length < 65536) :
    Laid (attrWrite m clen newlen attr value) clen [(attr, value)] (clen + 4 + pad4 value.length) := by
  have hattr := attr.isLt
  refine ⟨?_, ?_, slice_put _ _ _, rfl⟩
  · unfold attrWrite
    dsimp only
    rw [be16_congr (agree_put (by omega)), be16_congr (agree_put (by rw [bytes16_length]; omega)), be16_put]
    omega
  · unfold attrWrite
    dsimp only
    rw [be16_congr (agree_put (by omega)), be16_put]
    omega

end Write

theorem newlen_eq (h : Holds s type tid attrs) (attr : U16) (value : List Byte) :
    pad4 (be16 s.buf 2 + headerLength + 4 + value.length) = headerLength + room (attrs ++ [(attr, value)]) := by
  have hmod : (s.len + 4) % 4 = 0 := by
    have hroom := room_mod attrs
    rw [h.len_eq]
    unfold headerLength
    omega
  rw [h.length, pad4_add hmod, room_append, h.len_eq]
  simp only [room]
  omega

/-- **One attribute** is added after the others, if there is room for it. -/
theorem Holds.attrAdd (h : Holds s type tid attrs) (hadd : attrAdd s attr value = some s') :
    Holds s' type tid (attrs ++ [(attr, value)]) := by
  obtain ⟨hlen, hlt, hbuf⟩ := attrAdd_eq_some hadd
  have hroom := hlen.trans (newlen_eq h attr value)
  have hpad := le_pad4 value.length
  have hstop : s'.len = s.len + 4 + pad4 value.length := by
    rw [hroom, room_append, h.len_eq]
    simp only [room]
    omega
  have hclen : 20 ≤ s.len := s.header
  have hshort : value.length < 65536 := by
    unfold maxMessageSize at hlt
    omega
  rw [h.length] at hbuf
  refine ⟨?_, ?_, ?_, ?_, ?_, ?_⟩
  · rw [hbuf, be16_congr (agree_attrWrite (by omega) (by omega)), h.type]
  · rw [hbuf, be16_attrWrite_len s.header hlt]
    exact Nat.sub_add_cancel s'.header
  · rw [hbuf, be32_congr (agree_attrWrite (by omega) (by omega)), h.cookie]
  · rw [hbuf, tidFromMessage_congr (agree_attrWrite (by omega) (by omega)), h.tid]
  · have hold : Agree (attrWrite s.buf s.len s'.len attr value) s.buf headerLength (s.len - headerLength) :=
      agree_attrWrite (.inr (by decide)) (Nat.add_sub_cancel' s.header).le
    rw [hstop] at hbuf hold ⊢
    rw [hbuf]
    exact (h.laid.congr hold.symm).append (laid_attrWrite hshort)
  · unfold Fits
    rw [← hroom]
    exact hlt

/-- **All attributes** are added, or there is no room for them. -/
theorem Holds.addAll (h : Holds s type tid attrs) (more : List Attribute) :
    (addAll s more = none ↔ ¬ Fits (attrs ++ more)) ∧
      ∀ s', addAll s more = some s' → Holds s' type tid (attrs ++ more) := by
  induction more generalizing s attrs with
  | nil =>
    rw [List.append_nil]
    refine ⟨iff_of_false nofun (not_not.mpr h.fits), fun s' hs => ?_⟩
    cases hs
    exact h
  | cons a more ih =>
    obtain ⟨attr, value⟩ := a
    have hsplit : attrs ++ (attr, value) :: more = attrs ++ [(attr, value)] ++ more := by simp
    unfold Stun.addAll
    rw [hsplit]
    cases hadd : Stun.attrAdd s attr value with
    | some s₁ => exact ih (h.attrAdd hadd)
    | none =>
      refine ⟨iff_of_true rfl fun hfits => ?_, nofun⟩
      rw [attrAdd_eq_none, newlen_eq h attr value] at hadd
      unfold Fits at hfits
      rw [room_append] at hfits
      omega

theorem Holds.type16_eq (h : Holds s type tid attrs) : type16 s.buf = type &&& 0x3FFF#16 := by
  rw [type16, h.type, BitVec.ofNat_toNat, BitVec.setWidth_eq]

theorem Holds.type_lt (h : Holds s type tid attrs) : be16 s.buf 0 < 0x4000 := by
  rw [h.type, BitVec.toNat_and]
  exact Nat.lt_succ_of_le Nat.and_le_right

theorem Holds.not_isChannelMsg (h : Holds s type tid attrs) : isChannelMsg s.buf s.len = false := by
  have hlt := h.type_lt
  refine decide_eq_false fun hch => ?_
  have hvalid := hch.2.1
  omega

theorem Holds.isCommandMessage (h : Holds s type tid attrs) : isCommandMessage s.buf s.len = true := by
  have hlt := h.type_lt
  refine decide_eq_true ⟨s.header, fun hch => ?_, ?_, h.cookie, ?_, h.length⟩
  · have hvalid := hch.1
    omega
  · have hsmall : (s.buf 0).val < 64 := by
      unfold be16 at hlt
      omega
    revert hsmall
    generalize (s.buf 0).val = x
    revert x
    decide
  · have hlen := h.length
    have hmod := room_mod attrs
    rw [h.len_eq] at hlen
    rw [and_three]
    omega

theorem Holds.getMethod (h : Holds s (c.make method) tid attrs) : getMethod s.buf s.len = method &&& 0x0FFF#16 := by
  have hlen : 20 ≤ s.len := s.header
  unfold Stun.getMethod
  rw [if_neg (by omega), h.type16_eq, methodOf_make]

theorem Holds.isClass (h : Holds s (c.make method) tid attrs) (d : Class) :
    isClass d s.buf s.len = decide (d = c) := by
  have hlen : 20 ≤ s.len := s.header
  unfold Stun.isClass getMsgType
  rw [h.not_isChannelMsg, if_neg (by omega), h.type16_eq]
  have hmask : c.make method &&& 0x3FFF#16 &&& 0x3FFF#16 = c.make method &&& 0x3FFF#16 := by
    rw [BitVec.and_assoc, BitVec.and_self]
  rw [hmask, bits_make]
  simp only [bits_inj, Bool.not_false, Bool.true_and, eq_comm]

theorem Holds.attrRefs (h : Holds s type tid attrs) : attrRefs s.buf s.len = offsets headerLength attrs := by
  refine attrRefs_of_laid s.header ?_
  rw [h.length]
  exact h.laid

theorem Holds.attributes (h : Holds s type tid attrs) : attributes s.buf s.len = attrs := by
  unfold Stun.attributes
  rw [h.attrRefs]
  exact map_attrAt h.laid

/-- The attribute after `before`. -/
theorem Holds.attr_after {before after : List Attribute} (h : Holds s type tid (before ++ (attr, value) :: after)) :
    attrGetType s.buf (headerLength + room before) = attr.toNat ∧
      attrGetLen s.buf (headerLength + room before) = value.length ∧
      slice s.buf (headerLength + room before + 4) value.length = value :=
  ⟨h.laid.tail.1, h.laid.tail.2.1, h.laid.tail.2.2.1⟩

/-- A search finds the first attribute of its type. -/
theorem Holds.attrGetFirstByType {before after : List Attribute}
    (h : Holds s type tid (before ++ (attr, value) :: after)) (hnew : ∀ a ∈ before, a.1 ≠ attr) :
    attrGetFirstByType s.buf s.len attr = some (headerLength + room before) := by
  unfold Stun.attrGetFirstByType
  rw [h.attrRefs, offsets_append, List.find?_append, List.find?_eq_none.mpr, Option.none_or, offsets, List.find?_cons,
    h.attr_after.1]
  · simp
  · intro r hr hty
    obtain ⟨a, ha, htype⟩ := h.laid.type_of_mem r hr
    rw [decide_eq_true_eq, htype] at hty
    exact hnew a ha (BitVec.eq_of_toNat_eq hty)

/-- The value of the last attribute is replaced by another one of the same length. -/
theorem Holds.setLast {new : List Byte} (h : Holds s type tid (attrs ++ [(attr, value)]))
    (hlen : new.length = value.length) :
    Holds { s with buf := put s.buf (headerLength + room attrs + 4) new } type tid (attrs ++ [(attr, new)]) := by
  have hat := h.attr_after
  have hstop := h.laid.tail.2.2.2
  refine ⟨?_, ?_, ?_, ?_, ?_, ?_⟩
  · rw [be16_congr (agree_put (by unfold headerLength; omega)), h.type]
  · rw [be16_congr (agree_put (by unfold headerLength; omega)), h.length]
  · rw [be32_congr (agree_put (by unfold headerLength; omega)), h.cookie]
  · rw [tidFromMessage_congr (agree_put (by unfold headerLength; omega)), h.tid]
  · refine (h.laid.init.congr (agree_put (.inl (by omega))).symm).append ⟨?_, ?_, slice_put _ _ _, ?_⟩
    · rw [be16_congr (agree_put (by omega))]
      exact hat.1
    · rw [be16_congr (agree_put (by omega)), hlen]
      exact hat.2.1
    · rw [hlen]
      exact hstop
  · have hfits := h.fits
    unfold Fits at hfits ⊢
    rw [room_append] at hfits ⊢
    simpa [room, hlen] using hfits

end Holds

/-- **The round trip of messages.** Attributes are added to a new message if all of them have room; the message
is then accepted, and its method, its kind, its transaction id and its attributes are read as they were
written. -/
theorem message_round_trip (c : Class) (method : U16) (tid : Tid) (m : Buf) (attrs : List Attribute) :
    (addAll (initCommand (c.make method) tid m) attrs = none ↔ maxMessageSize ≤ headerLength + room attrs) ∧
    ∀ s, addAll (initCommand (c.make method) tid m) attrs = some s →
      s.len = headerLength + room attrs ∧ isCommandMessage s.buf s.len = true ∧
      getMethod s.buf s.len = method &&& 0x0FFF#16 ∧ (∀ d, isClass d s.buf s.len = decide (d = c)) ∧
      tidFromMessage s.buf = tid ∧ attributes s.buf s.len = attrs := by
  obtain ⟨hnone, hsome⟩ := (holds_initCommand (c.make method) tid m).addAll attrs
  refine ⟨hnone.trans not_lt, fun s hs => ?_⟩
  have h := hsome s hs
  exact ⟨h.len_eq, h.isCommandMessage, h.getMethod, h.isClass, h.tid, h.attributes⟩

/-! ## Other bytes, the same attributes -/

section Layout

variable {m m' : Buf} {len n : Nat} {o : Option Nat}

/-- The buffers have the same length of the message, and the same types and lengths of the attributes. -/
structure SameLayout (m m' : Buf) (len : Nat) : Prop where
  length : Agree m m' 2 2
  attrs : ∀ attr ∈ attrRefs m len, Agree m m' attr 4

theorem getCommandMessageLen_congr (h : Agree m m' 2 2) :
    getCommandMessageLen m len = getCommandMessageLen m' len := by
  unfold getCommandMessageLen
  rw [be16_congr h]

theorem follow_congr (hlen : Agree m m' 2 2) (h : ∀ attr ∈ follow m len n o, Agree m m' attr 4) :
    follow m' len n o = follow m len n o := by
  induction n generalizing o with
  | zero => rfl
  | succ n ih =>
    cases o with
    | none => rfl
    | some attr =>
      have hattr := h attr List.mem_cons_self
      have hnext : attrGetNext m' len attr = attrGetNext m len attr := by
        unfold attrGetNext attrEnd attrGetLen
        rw [getCommandMessageLen_congr hlen, be16_congr (hattr.mono (j := attr + 2) (by omega) (by omega))]
      rw [follow, follow, hnext, ih fun a ha => h a (List.mem_cons_of_mem _ ha)]

theorem SameLayout.attrRefs (h : SameLayout m m' len) : attrRefs m' len = attrRefs m len := by
  unfold Stun.attrRefs attrGetFirst
  rw [← getCommandMessageLen_congr h.length, ← be16_congr h.length]
  exact follow_congr h.length h.attrs

theorem SameLayout.attrGetFirstByType (h : SameLayout m m' len) (type : U16) :
    attrGetFirstByType m' len type = attrGetFirstByType m len type := by
  unfold Stun.attrGetFirstByType
  rw [h.attrRefs]
  refine List.find?_congr fun attr hattr => ?_
  rw [attrGetType, attrGetType, be16_congr ((h.attrs attr hattr).mono (j := attr) (by omega) (by omega))]

theorem SameLayout.attrGetLen (h : SameLayout m m' len) {type : U16} {attr : Nat}
    (hattr : Stun.attrGetFirstByType m len type = some attr) : attrGetLen m' attr = attrGetLen m attr := by
  have hmem := h.attrs attr (List.mem_of_find?_eq_some hattr)
  rw [Stun.attrGetLen, Stun.attrGetLen, be16_congr (hmem.mono (j := attr + 2) (by omega) (by omega))]

end Layout

/-! ## Messages that are accepted -/

/-- The attributes follow each other from `off` on, and no other begins before `stop`. -/
def Chained (m : Buf) (stop : Nat) : Nat → List Nat → Prop
  | off, [] => stop ≤ off
  | off, attr :: rest => attr = off ∧ off < stop ∧ Chained m stop (attrEnd m off) rest

section Chained

variable {m : Buf} {off stop len n : Nat} {refs : List Nat}

theorem le_attrEnd (m : Buf) (attr : Nat) : attr + 4 + attrGetLen m attr ≤ attrEnd m attr := by
  have h := le_pad4 (attrGetLen m attr)
  rw [attrEnd_eq]
  omega

theorem attrEnd_mod {attr : Nat} (h : attr % 4 = 0) : attrEnd m attr % 4 = 0 := by
  have hpad := pad4_mod (attrGetLen m attr)
  rw [attrEnd_eq]
  omega

/-- The rounds of the loop are enough. -/
theorem chained_follow (hlen : headerLength ≤ len) (hn : be16 m 2 + headerLength ≤ off + n) :
    Chained m (be16 m 2 + headerLength) off
      (follow m len n (if off < be16 m 2 + headerLength then some off else none)) := by
  induction n generalizing off with
  | zero => exact hn
  | succ n ih =>
    split
    · rename_i hlt
      have hend := le_attrEnd m off
      rw [follow, attrGetNext_eq hlen]
      exact ⟨rfl, hlt, ih (by omega)⟩
    · rename_i hge
      exact not_lt.mp hge

theorem Chained.mem (h : Chained m stop off refs) (hoff : off % 4 = 0) (hstop : stop % 4 = 0) :
    ∀ attr ∈ refs, off ≤ attr ∧ attr % 4 = 0 ∧ attr + 4 ≤ stop := by
  induction refs generalizing off with
  | nil => simp
  | cons attr rest ih =>
    obtain ⟨rfl, hlt, hrest⟩ := h
    intro a ha
    rcases List.mem_cons.mp ha with rfl | ha
    · exact ⟨le_refl _, hoff, by omega⟩
    · have hend := le_attrEnd m attr
      obtain ⟨hle, hrest⟩ := ih hrest (attrEnd_mod hoff) a ha
      exact ⟨by omega, hrest⟩

theorem Chained.length_le (h : Chained m stop off refs) (hoff : off ≤ stop) (hmod : off % 4 = 0)
    (hstop : stop % 4 = 0) : off + 4 * refs.length ≤ stop := by
  induction refs generalizing off with
  | nil => exact hoff
  | cons attr rest ih =>
    obtain ⟨rfl, hlt, hrest⟩ := h
    have hend := le_attrEnd m attr
    have hmod' := attrEnd_mod (m := m) hmod
    cases rest with
    | nil =>
      rw [List.length_singleton]
      omega
    | cons next rest =>
      have hle := ih hrest hrest.2.1.le hmod'
      rw [List.length_cons]
      omega

/-- Where an attribute ends, the next one begins, or the message has ended. -/
theorem Chained.next (h : Chained m stop off refs) {before after : List Nat} {attr : Nat}
    (heq : refs = before ++ attr :: after) : Chained m stop (attrEnd m attr) after := by
  induction before generalizing off refs with
  | nil =>
    subst heq
    obtain ⟨rfl, -, hrest⟩ := h
    exact hrest
  | cons a before ih =>
    subst heq
    exact ih h.2.2 rfl

end Chained

/-- **What the loop over the attributes reads of a message that is accepted.** It has at most one round for 4
bytes. Each attribute begins inside the message, at a multiple of 4, and has its type and length there. The
value of an attribute ends before the next one begins; the value of the last one is inside the message exactly
if the lengths of the attributes add up to the length of the message. -/
theorem attributes_inside (m : Buf) (blen : Nat) (h : isCommandMessage m blen = true) :
    headerLength + 4 * (attrRefs m blen).length ≤ blen ∧
    (∀ attr ∈ attrRefs m blen, headerLength ≤ attr ∧ attr % 4 = 0 ∧ attr + 4 ≤ blen) ∧
    (∀ before attr next after, attrRefs m blen = before ++ attr :: next :: after →
      attr + 4 + attrGetLen m attr ≤ next) ∧
    ∀ before attr, attrRefs m blen = before ++ [attr] →
      (attr + 4 + attrGetLen m attr ≤ blen ↔ attrEnd m attr = blen) := by
  obtain ⟨hhead, -, -, -, hmod, hlen⟩ := of_decide_eq_true h
  rw [and_three] at hmod
  have hstop : blen % 4 = 0 := by
    unfold headerLength at hlen
    omega
  have hchain : Chained m blen headerLength (attrRefs m blen) := by
    unfold attrRefs
    rw [attrGetFirst_eq hhead, ← hlen]
    exact chained_follow (hlen ▸ hhead) (by omega)
  refine ⟨hchain.length_le hhead rfl hstop, hchain.mem rfl hstop, ?_, ?_⟩
  · intro before attr next after heq
    have hnext : next = attrEnd m attr := (hchain.next heq).1
    rw [hnext]
    exact le_attrEnd m attr
  · intro before attr heq
    have hlast : blen ≤ attrEnd m attr := hchain.next heq
    have hmem := hchain.mem rfl hstop attr (by rw [heq]; simp)
    have hpad := pad4_lt (attrGetLen m attr)
    have hend := attrEnd_mod (m := m) hmem.2.1
    have hle := le_attrEnd m attr
    rw [attrEnd_eq] at hlast hend ⊢
    rw [attrEnd_eq] at hle
    omega

/-- A message whose last attribute promises more bytes than the message has. -/
def overlong : Buf := fun i =>
  ([0x00, 0x01, 0x00, 0x04, 0x21, 0x12, 0xA4, 0x42, 0, 0, 0, 0, 0, 0, 0, 0, 0, 0, 0, 0, 0x00, 0x12, 0x00, 0x08][i]?).getD 0

theorem attributes_inside_overlong :
    attrRefs overlong 24 = [20] ∧ ¬ 20 + 4 + attrGetLen overlong 20 ≤ 24 := by
  have hrefs : attrRefs overlong 24 = [20] := by decide
  refine ⟨hrefs, ?_⟩
  rw [(attributes_inside overlong 24 (by decide)).2.2.2 [] 20 hrefs]
  decide

end Stun
end Turn
end QosSupport
