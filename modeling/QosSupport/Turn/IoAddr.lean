import Mathlib
import QosSupport.Lib.Box
import QosSupport.Lib.Bytes

/-!
# Addresses (`broker/coturn/src/client/ns_turn_ioaddr.c`)

An address is of IPv4, of IPv6, or of no family (`addr_set_any`). Its bytes are in network order, its port is
the number that `addr_get_port` returns.

* `IoaAddr.AddrEq`, `AddrEqNoPort`: the comparisons. No address without a family equals any other.
* `hash`, `hashNoPort`: equal addresses have equal hashes (`AddrEq.hash_eq`, `AddrEqNoPort.hash_eq`).
* `LessEq`, `InRange`: the ranges of the peers that are allowed or denied. Two IPv6 addresses are compared
  byte by byte.
* `inRange_exact`: so a range of IPv6 addresses is a box of bytes, and seldom an interval.
-/

namespace QosSupport
namespace Turn

abbrev Byte := Fin 256

/-- The first byte of a host of IPv4, and of one of IPv6, rest on them. -/
instance ipv4NeZero : NeZero 4 := ⟨by decide⟩

instance ipv6NeZero : NeZero 16 := ⟨by decide⟩

/-- The union `ioa_addr`. -/
inductive IoaAddr
  | any
  | v4 (ip : Fin 4 → Byte) (port : UInt16)
  | v6 (ip : Fin 16 → Byte) (port : UInt16)
deriving DecidableEq

namespace IoaAddr

/-! ## Fields -/

/-- `sa_family` -/
def family : IoaAddr → Nat
  | any => 0
  | v4 _ _ => 2
  | v6 _ _ => 10

/-- `addr_get_port` -/
def getPort : IoaAddr → UInt16
  | any => 0
  | v4 _ port => port
  | v6 _ port => port

/-- `addr_set_port` -/
def setPort (port : UInt16) : IoaAddr → IoaAddr
  | any => any
  | v4 ip _ => v4 ip port
  | v6 ip _ => v6 ip port

/-- `addr_any` -/
def IsAny : IoaAddr → Prop
  | any => True
  | v4 ip port => ip = 0 ∧ port = 0
  | v6 ip port => port = 0 ∧ ip = 0

instance : DecidablePred IsAny
  | any => .isTrue trivial
  | v4 _ _ => inferInstanceAs (Decidable (_ ∧ _))
  | v6 _ _ => inferInstanceAs (Decidable (_ ∧ _))

/-- `addr_eq` -/
def AddrEq : IoaAddr → IoaAddr → Prop
  | v4 ip port, v4 ip' port' => port = port' ∧ ip = ip'
  | v6 ip port, v6 ip' port' => port = port' ∧ ip = ip'
  | _, _ => False

instance : DecidableRel AddrEq
  | v4 _ _, v4 _ _ => inferInstanceAs (Decidable (_ ∧ _))
  | v6 _ _, v6 _ _ => inferInstanceAs (Decidable (_ ∧ _))
  | any, _ => .isFalse id
  | v4 _ _, any => .isFalse id
  | v4 _ _, v6 _ _ => .isFalse id
  | v6 _ _, any => .isFalse id
  | v6 _ _, v4 _ _ => .isFalse id

/-- `addr_eq_no_port` -/
def AddrEqNoPort : IoaAddr → IoaAddr → Prop
  | v4 ip _, v4 ip' _ => ip = ip'
  | v6 ip _, v6 ip' _ => ip = ip'
  | _, _ => False

instance : DecidableRel AddrEqNoPort
  | v4 ip _, v4 ip' _ => inferInstanceAs (Decidable (ip = ip'))
  | v6 ip _, v6 ip' _ => inferInstanceAs (Decidable (ip = ip'))
  | any, _ => .isFalse id
  | v4 _ _, any => .isFalse id
  | v4 _ _, v6 _ _ => .isFalse id
  | v6 _ _, any => .isFalse id
  | v6 _ _, v4 _ _ => .isFalse id

variable {a b c : IoaAddr}

/-- An address with a family. -/
def HasFamily (a : IoaAddr) : Prop := a ≠ any

instance : DecidablePred HasFamily := fun a => inferInstanceAs (Decidable (a ≠ any))

/-- `addr_eq` is equality, but for addresses without a family. -/
theorem addrEq_iff : a.AddrEq b ↔ a.HasFamily ∧ a = b := by
  unfold HasFamily
  cases a <;> cases b <;> simp [AddrEq, and_comm]

/-- `addr_eq_no_port` is equality if the ports are made equal. -/
theorem addrEqNoPort_iff : a.AddrEqNoPort b ↔ a.HasFamily ∧ a.setPort 0 = b.setPort 0 := by
  unfold HasFamily
  cases a <;> cases b <;> simp [AddrEqNoPort, setPort]

theorem AddrEqNoPort.symm (h : a.AddrEqNoPort b) : b.AddrEqNoPort a := by
  obtain ⟨hf, heq⟩ := addrEqNoPort_iff.mp h
  refine addrEqNoPort_iff.mpr ⟨?_, heq.symm⟩
  rintro rfl
  cases a
  · exact hf rfl
  · cases heq
  · cases heq

theorem AddrEqNoPort.trans (h : a.AddrEqNoPort b) (h' : b.AddrEqNoPort c) : a.AddrEqNoPort c :=
  addrEqNoPort_iff.mpr ⟨(addrEqNoPort_iff.mp h).1,
    (addrEqNoPort_iff.mp h).2.trans (addrEqNoPort_iff.mp h').2⟩

@[simp] theorem setPort_getPort (a : IoaAddr) : a.setPort a.getPort = a := by
  cases a <;> rfl

@[simp] theorem setPort_setPort (a : IoaAddr) (p q : UInt16) : (a.setPort p).setPort q = a.setPort q := by
  cases a <;> rfl

@[simp] theorem family_setPort (a : IoaAddr) (p : UInt16) : (a.setPort p).family = a.family := by
  cases a <;> rfl

theorem hasFamily_setPort (p : UInt16) : (a.setPort p).HasFamily ↔ a.HasFamily := by
  unfold HasFamily
  cases a <;> simp [setPort]

/-- An address is its host and its port. -/
theorem eq_of_setPort (h : a.setPort 0 = b.setPort 0) (hp : a.getPort = b.getPort) : a = b := by
  have hset : (a.setPort 0).setPort a.getPort = (b.setPort 0).setPort b.getPort := by rw [h, hp]
  simpa using hset

/-! ## Hashes -/

/-- `hash_int32` -/
def hashInt32 (a : UInt32) : UInt32 :=
  let a : UInt32 := a ^^^ (a >>> 4)
  let a : UInt32 := (a ^^^ (0xdeadbeef : UInt32)) + (a <<< 5)
  a ^^^ (a >>> 11)

/-- `hash_int64` -/
def hashInt64 (a : UInt64) : UInt64 :=
  let a : UInt64 := a ^^^ (a >>> 4)
  let a : UInt64 := (a ^^^ (0xdeadbeefdeadbeef : UInt64)) + (a <<< 5)
  a ^^^ (a >>> 11)

/-- The value of some bytes in memory, the lowest first. -/
def littleEndian (bs : List Byte) : Nat := bs.foldr (fun b n => b.val + 256 * n) 0

/-- `sin_addr.s_addr` -/
def sAddr (ip : Fin 4 → Byte) : UInt32 := .ofNat (littleEndian (List.ofFn ip))

/-- The two halves of `sin6_addr`. -/
def half6 (ip : Fin 16 → Byte) (i : Nat) : UInt64 :=
  .ofNat (littleEndian ((List.ofFn ip).drop (8 * i) |>.take 8))

/-- `nswap16` -/
def nswap16 (n : UInt16) : UInt16 := (n >>> 8) ||| (n <<< 8)

/-- `addr_hash_no_port` -/
def hashNoPort : IoaAddr → UInt32
  | v4 ip _ => hashInt32 (sAddr ip)
  | v6 ip _ => ((hashInt64 (half6 ip 0) <<< 3) + hashInt64 (half6 ip 1)).toUInt32
  | any => ((hashInt64 0 <<< 3) + hashInt64 0).toUInt32

/-- `addr_hash`. The port is added as it is in memory. -/
def hash : IoaAddr → UInt32
  | v4 ip port => hashInt32 (sAddr ip + (nswap16 port).toUInt32)
  | v6 ip port =>
    ((hashInt64 (half6 ip 0) <<< 3) + hashInt64 (half6 ip 1 + (nswap16 port).toUInt64)).toUInt32
  | any => ((hashInt64 0 <<< 3) + hashInt64 0).toUInt32

theorem AddrEq.hash_eq (h : a.AddrEq b) : a.hash = b.hash := by
  rw [(addrEq_iff.mp h).2]

theorem hashNoPort_setPort (a : IoaAddr) (p : UInt16) : (a.setPort p).hashNoPort = a.hashNoPort := by
  cases a <;> rfl

theorem AddrEqNoPort.hash_eq (h : a.AddrEqNoPort b) : a.hashNoPort = b.hashNoPort := by
  rw [← hashNoPort_setPort a 0, (addrEqNoPort_iff.mp h).2, hashNoPort_setPort]

/-! ## Ranges -/

/-- `nswap32(s_addr)` -/
def number (ip : Fin 4 → Byte) : Nat := littleEndian (List.ofFn ip).reverse

/-- `addr_less_eq` -/
def LessEq (a b : IoaAddr) : Prop :=
  if a.family ≠ b.family then a.family < b.family
  else
    match a, b with
    | v4 ip _, v4 ip' _ => number ip ≤ number ip'
    | v6 ip _, v6 ip' _ => ∀ i, ¬ ip i > ip' i
    | _, _ => True

instance : DecidableRel LessEq
  | any, any => .isTrue (by simp [LessEq])
  | any, v4 _ _ => .isTrue (by simp [LessEq, family])
  | any, v6 _ _ => .isTrue (by simp [LessEq, family])
  | v4 _ _, any => .isFalse (by simp [LessEq, family])
  | v4 ip _, v4 ip' _ => decidable_of_iff (number ip ≤ number ip') (by simp [LessEq, family])
  | v4 _ _, v6 _ _ => .isTrue (by simp [LessEq, family])
  | v6 _ _, any => .isFalse (by simp [LessEq, family])
  | v6 _ _, v4 _ _ => .isFalse (by simp [LessEq, family])
  | v6 ip _, v6 ip' _ => decidable_of_iff (∀ i, ¬ ip i > ip' i) (by simp [LessEq, family])

/-- `ioa_addr_range` -/
structure Range where
  min : IoaAddr
  max : IoaAddr

/-- `ioa_addr_in_range` -/
def InRange (r : Range) (a : IoaAddr) : Prop :=
  (r.min.IsAny ∨ r.min.LessEq a) ∧ (r.max.IsAny ∨ a.LessEq r.max)

instance (r : Range) : DecidablePred (InRange r) := fun _ => inferInstanceAs (Decidable ((_ ∨ _) ∧ (_ ∨ _)))

/-- `ioa_addr_is_multicast` -/
def IsMulticast : IoaAddr → Prop
  | any => False
  | v4 ip _ => ip 0 > 223
  | v6 ip _ => ip 0 = 255

instance : DecidablePred IsMulticast
  | any => .isFalse id
  | v4 ip _ => inferInstanceAs (Decidable (ip 0 > 223))
  | v6 ip _ => inferInstanceAs (Decidable (ip 0 = 255))

/-- `ioa_addr_is_loopback`. Of an IPv6 address, the first 8 bytes are compared. -/
def IsLoopback : IoaAddr → Prop
  | any => False
  | v4 ip _ => ip 0 = 127
  | v6 ip _ => ip 7 = 1 ∧ ∀ i, i < 7 → ip i = 0

instance : DecidablePred IsLoopback
  | any => .isFalse id
  | v4 ip _ => inferInstanceAs (Decidable (ip 0 = 127))
  | v6 _ _ => inferInstanceAs (Decidable (_ ∧ _))

theorem lessEq_setPort (p : UInt16) : (a.setPort p).LessEq b ↔ a.LessEq b := by
  cases a <;> cases b <;> rfl

theorem setPort_lessEq (p : UInt16) : a.LessEq (b.setPort p) ↔ a.LessEq b := by
  cases a <;> cases b <;> rfl

/-- A range does not say anything about ports. -/
theorem inRange_setPort (r : Range) (p : UInt16) : InRange r (a.setPort p) ↔ InRange r a := by
  unfold InRange
  rw [lessEq_setPort, setPort_lessEq]

theorem lessEq_v4 {ip ip' : Fin 4 → Byte} {p p' : UInt16} :
    (v4 ip p).LessEq (v4 ip' p') ↔ number ip ≤ number ip' := by
  simp [LessEq, family]

theorem lessEq_v6 {ip ip' : Fin 16 → Byte} {p p' : UInt16} : (v6 ip p).LessEq (v6 ip' p') ↔ ip ≤ ip' := by
  simp [LessEq, family, Pi.le_def]

theorem lessEq_v4_v6 {ip : Fin 4 → Byte} {ip' : Fin 16 → Byte} {p p' : UInt16} :
    (v4 ip p).LessEq (v6 ip' p') := by
  simp [LessEq, family]

theorem not_lessEq_v6_v4 {ip : Fin 16 → Byte} {ip' : Fin 4 → Byte} {p p' : UInt16} :
    ¬ (v6 ip p).LessEq (v4 ip' p') := by
  simp [LessEq, family]

theorem isAny_v4 {ip : Fin 4 → Byte} : (v4 ip 0).IsAny ↔ ip = 0 := by simp [IsAny]

theorem isAny_v6 {ip : Fin 16 → Byte} : (v6 ip 0).IsAny ↔ ip = 0 := by simp [IsAny]

theorem number_zero : number 0 = 0 := by decide

theorem number_top : number (fun _ => 255) = 2 ^ 32 - 1 := by decide

/-- A range of IPv4 addresses, without the exception for 0.0.0.0. -/
theorem inRange_v4 {lo hi ip : Fin 4 → Byte} (hne : hi ≠ 0) (p : UInt16) :
    InRange ⟨v4 lo 0, v4 hi 0⟩ (v4 ip p) ↔ number lo ≤ number ip ∧ number ip ≤ number hi := by
  unfold InRange
  simp only [isAny_v4, lessEq_v4, hne, false_or]
  refine and_congr_left fun _ => ⟨?_, .inr⟩
  rintro (rfl | h)
  · rw [number_zero]
    exact Nat.zero_le _
  · exact h

theorem inRange_v6 {lo hi ip : Fin 16 → Byte} (hne : hi ≠ 0) (p : UInt16) :
    InRange ⟨v6 lo 0, v6 hi 0⟩ (v6 ip p) ↔ lo ≤ ip ∧ ip ≤ hi := by
  unfold InRange
  simp only [isAny_v6, lessEq_v6, hne, false_or]
  refine and_congr_left fun _ => ⟨?_, .inr⟩
  rintro (rfl | h)
  · exact fun i => Fin.zero_le _
  · exact h

/-- An upper end of only zeros is no bound. -/
theorem inRange_of_max_zero {lo : Fin 16 → Byte} (p : UInt16) :
    InRange ⟨v6 lo 0, v6 0 0⟩ (v6 (fun _ => 255) p) :=
  ⟨.inr (lessEq_v6.mpr fun _ => Fin.le_last _), .inl (isAny_v6.mpr rfl)⟩

theorem inRange_v4_of_max_zero {lo : Fin 4 → Byte} (hlo : number lo ≤ 2 ^ 32 - 1) (p : UInt16) :
    InRange ⟨v4 lo 0, v4 0 0⟩ (v4 (fun _ => 255) p) := by
  refine ⟨.inr (lessEq_v4.mpr ?_), .inl (isAny_v4.mpr rfl)⟩
  rw [number_top]
  exact hlo

theorem number_le (ip : Fin 4 → Byte) : number ip ≤ 2 ^ 32 - 1 := by
  have h0 := (ip 0).isLt
  have h1 := (ip 1).isLt
  have h2 := (ip 2).isLt
  have h3 := (ip 3).isLt
  simp only [number, littleEndian, List.ofFn_succ, List.ofFn_zero]
  simp
  omega

/-- **What a range of peers is**, unless its upper end is zero: for IPv4 the interval of its ends; for IPv6 their
box of bytes, which is the interval only if the ends are aligned or in the wrong order. A range from `::` on has all
IPv4 addresses, and one up to `0.0.0.0` all of IPv6. -/
theorem inRange_exact :
    (∀ lo hi : Fin 4 → Byte,
      (∀ ip p, InRange ⟨v4 lo 0, v4 hi 0⟩ (v4 ip p) ↔ number lo ≤ number ip ∧ number ip ≤ number hi) ↔
        hi ≠ 0) ∧
    (∀ lo hi : Fin 16 → Byte,
      (∀ ip p, InRange ⟨v6 lo 0, v6 hi 0⟩ (v6 ip p) ↔ lo ≤ ip ∧ ip ≤ hi) ↔ hi ≠ 0) ∧
    (∀ lo hi : Fin 16 → Byte,
      (∀ ip p, InRange ⟨v6 lo 0, v6 hi 0⟩ (v6 ip p) ↔ Box.Between lo hi ip) ↔
        hi ≠ 0 ∧ (toLex hi < toLex lo ∨ Box.Aligned lo hi)) ∧
    (∀ lo hi ip p, InRange ⟨v6 lo 0, v6 hi 0⟩ (v4 ip p) ↔ lo = 0) ∧
    (∀ lo hi ip p, InRange ⟨v4 lo 0, v4 hi 0⟩ (v6 ip p) ↔ hi = 0) := by
  refine ⟨fun lo hi => ⟨?_, fun hne ip p => inRange_v4 hne p⟩,
    fun lo hi => ⟨?_, fun hne ip p => inRange_v6 hne p⟩, fun lo hi => ⟨?_, ?_⟩, ?_, ?_⟩
  · rintro h rfl
    have hle := ((h _ 0).mp (inRange_v4_of_max_zero (number_le lo) 0)).2
    rw [number_top, number_zero] at hle
    omega
  · rintro h rfl
    have hle := ((h _ 0).mp (inRange_of_max_zero 0)).2
    exact absurd (hle 0) (by decide)
  · intro h
    have hne : hi ≠ 0 := by
      rintro rfl
      have hle := ((h _ 0).mp (inRange_of_max_zero 0)).2
      have h255 := Pi.apply_le_of_toLex (i := 0) hle fun j hj => absurd hj (Fin.not_lt_zero j)
      exact absurd h255 (by decide)
    refine ⟨hne, Box.box_eq_interval_iff.mp fun ip => ?_⟩
    rw [← inRange_v6 hne 0]
    exact h ip 0
  · rintro ⟨hne, h⟩ ip p
    rw [inRange_v6 hne p]
    exact Box.box_eq_interval_iff.mpr h ip
  · intro lo hi ip p
    unfold InRange
    simp only [isAny_v6, not_lessEq_v6_v4, lessEq_v4_v6, or_false, or_true, and_true]
  · intro lo hi ip p
    unfold InRange
    simp only [isAny_v4, not_lessEq_v6_v4, lessEq_v4_v6, or_false, or_true, true_and]

end IoaAddr
end Turn
end QosSupport
