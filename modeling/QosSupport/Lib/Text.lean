import QosSupport.Lib.Bytes

/-!
# Texts as bytes

* `utf8`, `ofUtf8`: the bytes of a text, and the text that has some bytes (`ofUtf8_utf8`, `eq_utf8`).
* `encode_ascii`: a character of ASCII is one byte. It is found among the bytes (`mem_utf8`), and a text of such
  characters has one byte for each (`utf8_of_ascii`).
* `hexChars`, `hexBytes`: bytes in hexadecimal digits, and back (`hexBytes_hexChars`).
* `strlen`: the number of bytes before the first zero.
-/

namespace QosSupport
namespace Bytes

/-! ## UTF-8 -/

/-- The bytes of a text, in UTF-8. -/
def utf8 (s : String) : List Byte := s.toList.flatMap fun c => (String.utf8EncodeChar c).map UInt8.toFin

/-- The text that has these bytes, if there is one. -/
def ofUtf8 (bs : List Byte) : Option String := String.fromUTF8? ⟨(bs.map UInt8.ofFin).toArray⟩

theorem utf8_append (s t : String) : utf8 (s ++ t) = utf8 s ++ utf8 t := by
  simp [utf8]

theorem toByteArray_eq (s : String) : s.toByteArray = ⟨((utf8 s).map UInt8.ofFin).toArray⟩ := by
  have hlist : (utf8 s).map UInt8.ofFin = s.toList.flatMap String.utf8EncodeChar := by
    simp [utf8, List.map_flatMap, Function.comp_def]
  have hencode : s.toByteArray = s.toList.utf8Encode := by
    rw [← String.toByteArray_ofList, String.ofList_toList]
  rw [hlist, hencode, List.utf8Encode]
  exact ByteArray.ext List.data_toByteArray

theorem ofUtf8_utf8 (s : String) : ofUtf8 (utf8 s) = some s := by
  rw [ofUtf8, ← toByteArray_eq, String.fromUTF8?, dif_pos s.isValidUTF8]
  rfl

theorem eq_utf8 {bs : List Byte} {s : String} (h : ofUtf8 bs = some s) : bs = utf8 s := by
  unfold ofUtf8 String.fromUTF8? at h
  split at h
  · have hbytes := (congrArg String.toByteArray (Option.some.inj h)).trans (toByteArray_eq s)
    have hlist := congrArg (fun b : ByteArray => b.data.toList.map UInt8.toFin) hbytes
    simpa [String.fromUTF8, Function.comp_def] using hlist
  · cases h

theorem utf8_inj {s t : String} (h : utf8 s = utf8 t) : s = t := by
  have hs := ofUtf8_utf8 s
  rw [h, ofUtf8_utf8] at hs
  exact (Option.some.inj hs).symm

/-- A character that has one byte. -/
theorem encode_ascii {c : Char} (h : c.toNat < 128) :
    (String.utf8EncodeChar c).map UInt8.toFin = [Fin.ofNat 256 c.toNat] := by
  have hval : c.val ≤ 0x7F := UInt32.le_iff_toNat_le.mpr (Nat.le_of_lt_succ h)
  have hsize : c.utf8Size = 1 := if_pos hval
  rw [String.utf8EncodeChar_eq_singleton hsize]
  rfl

theorem mem_utf8 {s : String} {c : Char} (hc : c.toNat < 128) (h : c ∈ s.toList) :
    Fin.ofNat 256 c.toNat ∈ utf8 s := by
  refine List.mem_flatMap.mpr ⟨c, h, ?_⟩
  rw [encode_ascii hc]
  exact List.mem_singleton_self _

theorem utf8_of_ascii {s : String} (h : ∀ c ∈ s.toList, c.toNat < 128) :
    utf8 s = s.toList.map fun c => Fin.ofNat 256 c.toNat := by
  rw [utf8, List.flatMap_congr fun c hc => encode_ascii (h c hc)]
  exact List.map_eq_flatMap.symm

/-- The number of bytes before the first zero. -/
def strlen (s : String) : Nat := ((utf8 s).takeWhile (· ≠ 0)).length

/-! ## Hexadecimal digits -/

/-- The value of a hexadecimal digit. -/
def hexDigit (c : Char) : Option Nat :=
  if 48 ≤ c.toNat ∧ c.toNat ≤ 57 then some (c.toNat - 48)
  else if 97 ≤ c.toNat ∧ c.toNat ≤ 102 then some (c.toNat - 87)
  else if 65 ≤ c.toNat ∧ c.toNat ≤ 70 then some (c.toNat - 55)
  else none

/-- The bytes that `n` pairs of hexadecimal digits write. -/
def hexBytes : Nat → List Char → Option (List Byte)
  | 0, _ => some []
  | n + 1, a :: b :: cs =>
    match hexDigit a, hexDigit b, hexBytes n cs with
    | some x, some y, some bs => some (Fin.ofNat 256 (16 * x + y) :: bs)
    | _, _, _ => none
  | _ + 1, _ => none

/-- The digit for a value. -/
def hexChar (n : Nat) : Char := if n < 10 then Char.ofNat (48 + n) else Char.ofNat (87 + n)

/-- The digits of some bytes. -/
def hexChars (bs : List Byte) : List Char := bs.flatMap fun b => [hexChar (b.val / 16), hexChar (b.val % 16)]

theorem hexDigit_hexChar : ∀ n < 16, hexDigit (hexChar n) = some n := by decide

theorem hexChar_ascii : ∀ n < 16, 0 < (hexChar n).toNat ∧ (hexChar n).toNat < 128 := by decide

theorem hexChars_ascii {bs : List Byte} {c : Char} (h : c ∈ hexChars bs) : 0 < c.toNat ∧ c.toNat < 128 := by
  obtain ⟨b, -, hc⟩ := List.mem_flatMap.mp h
  have hb := b.isLt
  rcases List.mem_cons.mp hc with rfl | hc
  · exact hexChar_ascii _ (by omega)
  · rw [List.mem_singleton.mp hc]
    exact hexChar_ascii _ (by omega)

theorem hexBytes_hexChars (bs : List Byte) : hexBytes bs.length (hexChars bs) = some bs := by
  induction bs with
  | nil => rfl
  | cons b bs ih =>
    have hb := b.isLt
    have hbyte : Fin.ofNat 256 (16 * (b.val / 16) + b.val % 16) = b := by
      apply Fin.ext
      rw [Fin.val_ofNat, Nat.div_add_mod, Nat.mod_eq_of_lt hb]
    show hexBytes (bs.length + 1) (hexChar (b.val / 16) :: hexChar (b.val % 16) :: hexChars bs) = _
    rw [hexBytes, hexDigit_hexChar _ (by omega), hexDigit_hexChar _ (by omega), ih]
    exact congrArg (fun b => some (b :: bs)) hbyte

/-- Two bytes are read for each byte that is written. -/
theorem strlen_hexChars (bs : List Byte) : strlen (String.ofList (hexChars bs)) = 2 * bs.length := by
  have hascii : utf8 (String.ofList (hexChars bs)) = (hexChars bs).map fun c => Fin.ofNat 256 c.toNat := by
    rw [utf8_of_ascii, String.toList_ofList]
    intro c hc
    rw [String.toList_ofList] at hc
    exact (hexChars_ascii hc).2
  have hpos : ∀ b ∈ (hexChars bs).map (fun c => Fin.ofNat 256 c.toNat), decide (b ≠ 0) = true := by
    intro b hb
    obtain ⟨c, hc, rfl⟩ := List.mem_map.mp hb
    obtain ⟨h0, h1⟩ := hexChars_ascii hc
    apply decide_eq_true
    intro h
    have hval := congrArg Fin.val h
    rw [Fin.val_ofNat, Nat.mod_eq_of_lt (by omega)] at hval
    exact absurd hval (by simpa using h0.ne')
  rw [strlen, hascii, List.takeWhile_eq_self_iff.mpr hpos]
  simp [hexChars, List.length_flatMap, Nat.mul_comm]

end Bytes
end QosSupport
