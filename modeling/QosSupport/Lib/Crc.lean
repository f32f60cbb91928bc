import Mathlib

/-!
# Checksums by a table

A checksum of 32 bits that is computed byte by byte with a table of 256 words, as a cyclic redundancy check is.

* `update`, `feed`: one byte, and a list of bytes.
* `Invertible`: the highest bytes of the words of the table are all different. So no state is reached from two
  states by the same byte (`advance_inj`).
* `feed_burst`: then a change of at most four bytes in a row changes the checksum, whatever is before and after
  them.
-/

namespace QosSupport
namespace Crc

abbrev Word := BitVec 32

variable {table : BitVec 8 → Word} {s s' : Word} {k : Nat}

/-- The next state, after a byte was added to the lowest byte of the state. -/
def advance (table : BitVec 8 → Word) (s : Word) : Word := table (s.setWidth 8) ^^^ (s >>> 8)

/-- The next state for a byte. -/
def update (table : BitVec 8 → Word) (s : Word) (c : BitVec 8) : Word := table (s.setWidth 8 ^^^ c) ^^^ (s >>> 8)

/-- The state after some bytes. -/
def feed (table : BitVec 8 → Word) (s : Word) (cs : List (BitVec 8)) : Word := cs.foldl (update table) s

/-- The highest bytes of the words are different. -/
def Invertible (table : BitVec 8 → Word) : Prop := Function.Injective fun b => table b >>> 24

theorem shift_byte (c : BitVec 8) (h : 8 ≤ k) : c.setWidth 32 >>> k = 0#32 := by
  refine BitVec.eq_of_getLsbD_eq fun i hi => ?_
  simp only [BitVec.getLsbD_ushiftRight, BitVec.getLsbD_setWidth, BitVec.getLsbD_zero]
  rw [BitVec.getLsbD_of_ge c (k + i) (by omega), Bool.and_false]

theorem setWidth_byte (c : BitVec 8) : (c.setWidth 32).setWidth 8 = c := by
  refine BitVec.eq_of_getLsbD_eq fun i hi => ?_
  simp only [BitVec.getLsbD_setWidth]
  simp [hi, show i < 32 by omega]

theorem update_eq (s : Word) (c : BitVec 8) : update table s c = advance table (s ^^^ c.setWidth 32) := by
  unfold update advance
  rw [BitVec.setWidth_xor, setWidth_byte, BitVec.ushiftRight_xor_distrib, shift_byte c (Nat.le_refl 8), BitVec.xor_zero]

/-- A word is its lowest byte and the others. -/
theorem eq_of_parts (hlow : s.setWidth 8 = s'.setWidth 8) (hhigh : s >>> 8 = s' >>> 8) : s = s' := by
  refine BitVec.eq_of_getLsbD_eq fun i hi => ?_
  by_cases h8 : i < 8
  · have hbit := congrArg (fun b => b.getLsbD i) hlow
    simpa [BitVec.getLsbD_setWidth, h8] using hbit
  · have hbit := congrArg (fun b => b.getLsbD (i - 8)) hhigh
    simpa [BitVec.getLsbD_ushiftRight, show 8 + (i - 8) = i by omega] using hbit

theorem shift_shift (s : Word) (i j : Nat) : s >>> i >>> j = s >>> (i + j) := by
  rw [BitVec.shiftRight_add]

/-- What the highest bits of the next state tell about the state. -/
theorem parts_of_advance (htable : Invertible table) (hk : k ≤ 24)
    (h : advance table s >>> k = advance table s' >>> k) :
    s.setWidth 8 = s'.setWidth 8 ∧ s >>> (8 + k) = s' >>> (8 + k) := by
  have htop : ∀ x : Word, advance table x >>> 24 = table (x.setWidth 8) >>> 24 := by
    intro x
    unfold advance
    rw [BitVec.ushiftRight_xor_distrib, shift_shift, BitVec.ushiftRight_eq_zero (x := x) (by omega), BitVec.xor_zero]
  have hlow : s.setWidth 8 = s'.setWidth 8 := by
    refine htable ?_
    show table (s.setWidth 8) >>> 24 = table (s'.setWidth 8) >>> 24
    rw [← htop, ← htop, show 24 = k + (24 - k) by omega, ← shift_shift, ← shift_shift, h]
  refine ⟨hlow, ?_⟩
  unfold advance at h
  rw [BitVec.ushiftRight_xor_distrib, BitVec.ushiftRight_xor_distrib, hlow, BitVec.xor_right_inj, shift_shift,
    shift_shift] at h
  exact h

/-- No state is reached from two. -/
theorem advance_inj (htable : Invertible table) (h : advance table s = advance table s') : s = s' := by
  have hshift : advance table s >>> 0 = advance table s' >>> 0 := by rw [h]
  obtain ⟨hlow, hhigh⟩ := parts_of_advance htable (by omega) hshift
  exact eq_of_parts hlow hhigh

theorem feed_inj (htable : Invertible table) (cs : List (BitVec 8)) (h : feed table s cs = feed table s' cs) :
    s = s' := by
  induction cs generalizing s s' with
  | nil => exact h
  | cons c cs ih =>
    have hup : update table s c = update table s' c := ih h
    rw [update_eq, update_eq] at hup
    exact (BitVec.xor_left_inj _).mp (advance_inj htable hup)

theorem feed_append (s : Word) (cs ds : List (BitVec 8)) :
    feed table s (cs ++ ds) = feed table (feed table s cs) ds := List.foldl_append

/-- The highest bits of the state tell the last bytes, one byte for 8 bits. -/
theorem bytes_of_feed (htable : Invertible table) {cs ds : List (BitVec 8)} (hlen : cs.length = ds.length)
    (hk : 8 * cs.length + k = 32) (h : feed table s cs >>> k = feed table s ds >>> k) : cs = ds := by
  induction cs using List.reverseRecOn generalizing ds k with
  | nil => exact (List.length_eq_zero_iff.mp hlen.symm).symm
  | append_singleton cs c ih =>
    obtain ⟨ds, d, rfl⟩ : ∃ ds' d, ds = ds' ++ [d] := by
      refine ⟨ds.dropLast, ds.getLast ?_, (List.dropLast_concat_getLast _).symm⟩
      rintro rfl
      simp at hlen
    rw [List.length_append, List.length_append, List.length_singleton, List.length_singleton] at hlen
    rw [List.length_append, List.length_singleton] at hk
    have hone : ∀ x : Word, ∀ b, feed table x [b] = advance table (x ^^^ b.setWidth 32) := fun x b => update_eq x b
    rw [feed_append, feed_append, hone, hone] at h
    obtain ⟨hlow, hhigh⟩ := parts_of_advance htable (by omega) h
    rw [BitVec.ushiftRight_xor_distrib, BitVec.ushiftRight_xor_distrib, shift_byte c (by omega),
      shift_byte d (by omega), BitVec.xor_zero, BitVec.xor_zero] at hhigh
    obtain rfl := ih (by omega) (by omega) hhigh
    rw [BitVec.setWidth_xor, BitVec.setWidth_xor, setWidth_byte, setWidth_byte, BitVec.xor_right_inj] at hlow
    rw [hlow]

/-- **A change of at most four bytes in a row changes the checksum.** -/
theorem feed_burst (htable : Invertible table) {before cs ds after : List (BitVec 8)} (hlen : cs.length = ds.length)
    (hshort : cs.length ≤ 4) (h : feed table s (before ++ cs ++ after) = feed table s (before ++ ds ++ after)) :
    cs = ds := by
  rw [feed_append, feed_append, feed_append, feed_append] at h
  have hstate := feed_inj htable after h
  have hshift : feed table (feed table s before) cs >>> (32 - 8 * cs.length) =
      feed table (feed table s before) ds >>> (32 - 8 * cs.length) := by rw [hstate]
  exact bytes_of_feed htable hlen (by omega) hshift

/-! ## Tables -/

/-- The numbers are different from each other and from those in the set `seen`, which is kept as the bits of a
number. -/
def distinct : List Nat → Nat → Bool
  | [], _ => true
  | x :: xs, seen => !seen.testBit x && distinct xs (seen ||| 1 <<< x)

theorem nodup_of_distinct {xs : List Nat} {seen : Nat} (h : distinct xs seen = true) :
    xs.Nodup ∧ ∀ x ∈ xs, seen.testBit x = false := by
  induction xs generalizing seen with
  | nil => simp
  | cons x xs ih =>
    rw [distinct, Bool.and_eq_true, Bool.not_eq_true'] at h
    obtain ⟨hnodup, hseen⟩ := ih h.2
    have hbits : ∀ y ∈ xs, seen.testBit y = false ∧ y ≠ x := by
      intro y hy
      have hy' := hseen y hy
      rw [Nat.testBit_or, Bool.or_eq_false_iff] at hy'
      refine ⟨hy'.1, ?_⟩
      rintro rfl
      simp [Nat.testBit_shiftLeft] at hy'
    refine ⟨List.nodup_cons.mpr ⟨fun hx => (hbits x hx).2 rfl, hnodup⟩, fun y hy => ?_⟩
    rcases List.mem_cons.mp hy with rfl | hy
    · exact h.1
    · exact (hbits y hy).1

/-- A table of words, as a list. -/
def ofList (words : List Nat) (i : BitVec 8) : Word := BitVec.ofNat 32 (words.getD i.toNat 0)

theorem invertible_ofList {words : List Nat} (hlen : words.length = 256) (hlt : ∀ w ∈ words, w < 2 ^ 32)
    (h : distinct (words.map (· / 2 ^ 24)) 0 = true) : Invertible (ofList words) := by
  intro i j hij
  have hget : ∀ b : BitVec 8, ∃ hb : b.toNat < words.length, (ofList words b >>> 24).toNat = words[b.toNat] / 2 ^ 24 := by
    intro b
    have hb : b.toNat < words.length := by
      have hlt := b.isLt
      omega
    refine ⟨hb, ?_⟩
    have hword := hlt _ (List.getElem_mem hb)
    rw [ofList, BitVec.toNat_ushiftRight, BitVec.toNat_ofNat, List.getD_eq_getElem _ _ hb, Nat.mod_eq_of_lt hword,
      Nat.shiftRight_eq_div_pow]
  obtain ⟨hi, hwi⟩ := hget i
  obtain ⟨hj, hwj⟩ := hget j
  have heq : words[i.toNat] / 2 ^ 24 = words[j.toNat] / 2 ^ 24 := by
    rw [← hwi, ← hwj]
    exact congrArg BitVec.toNat hij
  have hnodup := (nodup_of_distinct h).1
  have hmap : (words.map (· / 2 ^ 24))[i.toNat]? = (words.map (· / 2 ^ 24))[j.toNat]? := by
    rw [List.getElem?_map, List.getElem?_map, List.getElem?_eq_getElem hi, List.getElem?_eq_getElem hj, Option.map_some,
      Option.map_some, heq]
  exact BitVec.eq_of_toNat_eq ((List.getElem?_inj (by simpa using hi) hnodup).mp hmap)

end Crc
end QosSupport
