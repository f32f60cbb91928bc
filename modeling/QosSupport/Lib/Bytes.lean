import Mathlib

/-!
# Bytes in a buffer

A buffer is the memory from a pointer on: a byte for each offset. How much of it is in use is known to
its owner only.

* `put`: bytes are copied into the buffer; `slice`: they are read.
* `be16`, `bytes16`, `be32`, `bytes32`: numbers in network order.
* `Agree m m' i n`: two buffers have the same `n` bytes at `i`; all that is read of these bytes is the same.
* `pad4`: the next multiple of 4.
-/

namespace QosSupport
namespace Bytes

abbrev Byte := Fin 256

/-- The literals of bytes rest on it. -/
instance byteNeZero : NeZero 256 := ⟨by decide⟩

/-- The memory from a pointer on. -/
abbrev Buf := Nat → Byte

variable {m m' : Buf} {i j k n v : Nat} {bs cs : List Byte}

/-! ## Copies -/

/-- The bytes `bs` are copied to the offset `i`. -/
def put (m : Buf) (i : Nat) (bs : List Byte) : Buf := fun j => if i ≤ j then (bs[j - i]?).getD (m j) else m j

/-- The `n` bytes at the offset `i`. -/
def slice (m : Buf) (i n : Nat) : List Byte := (List.range n).map fun j => m (i + j)

/-- The buffers have the same `n` bytes at `i`. -/
def Agree (m m' : Buf) (i n : Nat) : Prop := ∀ j, i ≤ j → j < i + n → m j = m' j

theorem Agree.symm (h : Agree m m' i n) : Agree m' m i n := fun j hi hj => (h j hi hj).symm

theorem Agree.trans {m'' : Buf} (h : Agree m m' i n) (h' : Agree m' m'' i n) : Agree m m'' i n :=
  fun j hi hj => (h j hi hj).trans (h' j hi hj)

theorem Agree.mono (h : Agree m m' i n) (hj : i ≤ j) (hk : j + k ≤ i + n) : Agree m m' j k :=
  fun l hi hl => h l (by omega) (by omega)

theorem agree_put (h : i + n ≤ j ∨ j + bs.length ≤ i) : Agree (put m j bs) m i n := by
  intro l hi hl
  unfold put
  split
  · rw [List.getElem?_eq_none (by omega)]
    rfl
  · rfl

/-- The same bytes are copied into buffers that agree elsewhere. -/
theorem agree_put_put (h : ∀ l, i ≤ l → l < i + n → l < j ∨ j + bs.length ≤ l → m l = m' l) :
    Agree (put m j bs) (put m' j bs) i n := by
  intro l hi hl
  unfold put
  by_cases hj : j ≤ l
  · rw [if_pos hj, if_pos hj]
    by_cases hend : l < j + bs.length
    · rw [List.getElem?_eq_getElem (by omega)]
      rfl
    · rw [List.getElem?_eq_none (by omega)]
      exact h l hi hl (.inr (by omega))
  · rw [if_neg hj, if_neg hj]
    exact h l hi hl (.inl (by omega))

@[simp] theorem slice_length (m : Buf) (i n : Nat) : (slice m i n).length = n := by
  simp [slice]

theorem slice_congr (h : Agree m m' i n) : slice m i n = slice m' i n := by
  refine List.map_congr_left fun j hj => ?_
  rw [List.mem_range] at hj
  exact h (i + j) (by omega) (by omega)

/-- What was copied is read. -/
theorem slice_put (m : Buf) (i : Nat) (bs : List Byte) : slice (put m i bs) i bs.length = bs := by
  refine List.ext_getElem (by simp) fun j hj hj' => ?_
  simp [slice, put, List.getElem?_eq_getElem hj']

theorem slice_append (m : Buf) (i n k : Nat) : slice m i (n + k) = slice m i n ++ slice m (i + n) k := by
  simp [slice, List.range_add, Function.comp_def, Nat.add_assoc]

/-- A byte of a buffer whose bytes are known. -/
theorem getElem_of_slice (h : slice m i bs.length = bs) (hj : j < bs.length) : m (i + j) = bs[j] := by
  have hget : (slice m i bs.length)[j]? = bs[j]? := by rw [h]
  simpa [slice, hj] using hget

theorem agree_of_slice_eq (h : slice m i n = slice m' i n) : Agree m m' i n := by
  intro j hi hj
  have hget := congrArg (fun l => l[j - i]?) h
  simp only [slice, List.getElem?_map, List.getElem?_range (show j - i < n by omega), Option.map_some,
    Option.some.injEq, show i + (j - i) = j by omega] at hget
  exact hget

/-! ## Numbers in network order -/

/-- The two bytes of a number. -/
def bytes16 (v : Nat) : List Byte := [Fin.ofNat 256 (v / 256), Fin.ofNat 256 v]

/-- The number in two bytes. -/
def be16 (m : Buf) (i : Nat) : Nat := 256 * (m i).val + (m (i + 1)).val

/-- The four bytes of a number. -/
def bytes32 (v : Nat) : List Byte := bytes16 (v / 65536) ++ bytes16 v

/-- The number in four bytes. -/
def be32 (m : Buf) (i : Nat) : Nat := 65536 * be16 m i + be16 m (i + 2)

@[simp] theorem bytes16_length (v : Nat) : (bytes16 v).length = 2 := rfl

@[simp] theorem bytes32_length (v : Nat) : (bytes32 v).length = 4 := rfl

theorem be16_congr (h : Agree m m' i 2) : be16 m i = be16 m' i := by
  unfold be16
  rw [h i (by omega) (by omega), h (i + 1) (by omega) (by omega)]

theorem be32_congr (h : Agree m m' i 4) : be32 m i = be32 m' i := by
  unfold be32
  rw [be16_congr (h.mono (j := i) (by omega) (by omega)), be16_congr (h.mono (j := i + 2) (by omega) (by omega))]

/-- A number that was written is read, if it has two bytes. -/
theorem be16_put (m : Buf) (i v : Nat) : be16 (put m i (bytes16 v)) i = v % 65536 := by
  have h₀ : put m i (bytes16 v) i = Fin.ofNat 256 (v / 256) := by simp [put, bytes16]
  have h₁ : put m i (bytes16 v) (i + 1) = Fin.ofNat 256 v := by simp [put, bytes16]
  unfold be16
  rw [h₀, h₁, Fin.val_ofNat, Fin.val_ofNat]
  omega

theorem put_append (m : Buf) (i : Nat) (bs cs : List Byte) :
    put m i (bs ++ cs) = put (put m i bs) (i + bs.length) cs := by
  funext j
  unfold put
  by_cases hij : i ≤ j
  · rw [if_pos hij]
    by_cases hj : i + bs.length ≤ j
    · rw [if_pos hj, if_pos hij, List.getElem?_append_right (by omega), Nat.sub_sub,
        List.getElem?_eq_none (show bs.length ≤ j - i by omega)]
      rfl
    · rw [if_neg hj, if_pos hij, List.getElem?_append_left (by omega)]
  · rw [if_neg hij, if_neg (by omega), if_neg hij]

theorem be32_put (m : Buf) (i v : Nat) : be32 (put m i (bytes32 v)) i = v % 4294967296 := by
  unfold be32 bytes32
  rw [put_append, bytes16_length, be16_put]
  have hlow : be16 (put (put m i (bytes16 (v / 65536))) (i + 2) (bytes16 v)) i = v / 65536 % 65536 := by
    rw [be16_congr (agree_put (by simp)), be16_put]
  rw [hlow]
  omega

/-! ## Masks -/

/-- A byte that is masked twice is itself. -/
theorem xor_xor (a b : Byte) : a ^^^ b ^^^ b = a := by
  refine Fin.ext ?_
  rw [Fin.xor_val_of_uInt8Size, Fin.xor_val_of_uInt8Size, Nat.xor_assoc, Nat.xor_self, Nat.xor_zero]

/-! ## Padding -/

/-- The next multiple of 4. -/
def pad4 (n : Nat) : Nat := (n + 3) / 4 * 4

theorem le_pad4 (n : Nat) : n ≤ pad4 n := by
  unfold pad4
  omega

theorem pad4_mod (n : Nat) : pad4 n % 4 = 0 := by
  unfold pad4
  omega

theorem pad4_lt (n : Nat) : pad4 n < n + 4 := by
  unfold pad4
  omega

theorem pad4_add (h : n % 4 = 0) (k : Nat) : pad4 (n + k) = n + pad4 k := by
  unfold pad4
  omega

end Bytes
end QosSupport
