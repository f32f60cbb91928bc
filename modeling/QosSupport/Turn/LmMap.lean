import QosSupport.Lib.SlotTable
import Mathlib.Data.List.Range

/-!
# Local maps (`lm_map` of `broker/coturn/src/server/ns_turn_maps.c`)

A hash table of 8 buckets, each with three main slots and extra ones if they are needed. Neither a key nor a
value is 0, so a slot with one of them is in use.

* `LmMap.put`: the main slots are searched for the key up to the first one that is not in use, and the extra
  slots are not searched for it at all. So a key may get two slots, unless it is new.
* `LmMap.get`, `del`: the first slot of the key.
* `get_put`, `get_del`: the laws of a map, for new keys.
* `values`: what `lm_map_foreach` goes over.
-/

namespace QosSupport
namespace Turn

/-- `LM_MAP_HASH_SIZE` -/
def lmMapHashSize : Nat := 8

/-- `LM_MAP_ARRAY_SIZE` -/
def lmMapArraySize : Nat := 3

/-- The struct `lm_map`. -/
abbrev LmMap (V : Type) := Table (Nat × V)

namespace LmMap

variable {V : Type} {m : LmMap V} {key k : Nat} {v : V}

/-- `lm_map_init` -/
def init : LmMap V := Table.empty lmMapArraySize

/-- The bucket of a key. -/
def index (key : Nat) : Nat := key % lmMapHashSize

/-- The main slot at which the search of `lm_map_put` stops. -/
def mainSlot (m : LmMap V) (key : Nat) : Option Nat :=
  (List.range lmMapArraySize).find? fun i =>
    match (m.bucket (index key)).slot i with
    | some e => decide (e.1 = key)
    | none => true

/-- `lm_map_put` -/
def put [DecidableEq V] (m : LmMap V) (key : Nat) (value : V) : Int × LmMap V :=
  if key = 0 then (-1, m)
  else
    match m.mainSlot key with
    | some i =>
      match (m.bucket (index key)).slot i with
      | some e => (if e.2 = value then 0 else -1, m)
      | none => (0, m.write (index key, i) (some (key, value)))
    | none => (0, m.write (m.fresh (index key)) (some (key, value)))

/-- The slot that `lm_map_get` and `lm_map_del` find. -/
def find (m : LmMap V) (key : Nat) : Option Ref := Table.locate index (· ≠ 0) m key

/-- `lm_map_get` -/
def get (m : LmMap V) (key : Nat) : Option V := Table.lookup index (· ≠ 0) m key

/-- `lm_map_del` -/
def del (m : LmMap V) (key : Nat) : LmMap V :=
  match m.find key with
  | some r => m.write r none
  | none => m

/-- What `lm_map_foreach` calls its function for. -/
def values (m : LmMap V) : List V :=
  (List.range lmMapHashSize).flatMap fun b =>
    (List.range (m.bucket b).size).filterMap fun i => ((m.bucket b).slot i).map Prod.snd

/-- Every key is in its bucket, has one slot and is not 0. -/
structure WellFormed (m : LmMap V) : Prop where
  keyed : Table.Keyed index (· ≠ 0) m
  ne_zero : ∀ r e, Table.get m r = some e → e.1 ≠ 0

theorem wellFormed_init : (init : LmMap V).WellFormed where
  keyed := Table.keyed_empty _ _ _
  ne_zero := by
    intro r e h
    cases h

theorem get_init (key : Nat) : (init : LmMap V).get key = none := Table.lookup_empty _ key

theorem get_zero (m : LmMap V) : m.get 0 = none := by
  unfold get Table.lookup
  cases h : Table.locate index (· ≠ 0) m 0 with
  | none => rfl
  | some r => exact absurd rfl (Table.locate_eq_some h).1

/-- A new key is put into a slot that was not in use. -/
theorem WellFormed.put_new [DecidableEq V] (h : m.WellFormed) (hkey : key ≠ 0) (hnew : m.get key = none) (v : V) :
    ∃ r, m.put key v = (0, m.write r (some (key, v))) ∧ Table.WritableFor index (· ≠ 0) m key r := by
  have hlocate : Table.locate index (· ≠ 0) m key = none := by
    rw [h.keyed.locate_eq_none hkey]
    intro r w hr
    have hsome : m.get key = some w := h.keyed.lookup_eq_some.mpr ⟨hkey, r, hr⟩
    rw [hnew] at hsome
    cases hsome
  have hslots := (h.keyed.locate_eq_none hkey).mp hlocate
  unfold put
  rw [if_neg hkey]
  cases hmain : m.mainSlot key with
  | none => exact ⟨m.fresh (index key), rfl, .inr ⟨rfl, Table.get_fresh m _, hlocate⟩⟩
  | some i =>
    have hstop := List.find?_some hmain
    cases hs : (m.bucket (index key)).slot i with
    | some e =>
      simp only [hs, decide_eq_true_eq] at hstop
      obtain ⟨k, w⟩ := e
      obtain rfl : k = key := hstop
      exact absurd hs (hslots (index k, i) w)
    | none => exact ⟨(index key, i), by simp only [hs], .inr ⟨rfl, hs, hlocate⟩⟩

/-- **A new key that is put has its value, and the other keys have theirs.** -/
theorem WellFormed.put [DecidableEq V] (h : m.WellFormed) (hkey : key ≠ 0) (hnew : m.get key = none) (v : V) :
    (m.put key v).2.WellFormed ∧ ∀ k, (m.put key v).2.get k = if k = key then some v else m.get k := by
  obtain ⟨r, heq, hslot⟩ := h.put_new hkey hnew v
  rw [heq]
  refine ⟨⟨h.keyed.write hslot v, fun r' e he => ?_⟩, fun k => ?_⟩
  · rw [Table.get_write] at he
    split at he
    · cases he
      exact hkey
    · exact h.ne_zero r' e he
  · refine (h.keyed.lookup_write hslot v k).trans ?_
    simp only [hkey, ne_eq, not_false_eq_true, and_true]
    rfl

/-- **A key that is deleted is not found, and the other keys have their values.** -/
theorem WellFormed.del (h : m.WellFormed) (key : Nat) :
    (m.del key).WellFormed ∧ ∀ k, (m.del key).get k = if k = key then none else m.get k := by
  unfold LmMap.del
  cases hf : m.find key with
  | none =>
    refine ⟨h, fun k => ?_⟩
    by_cases hk : k = key
    · subst hk
      rw [if_pos rfl]
      simp only [get, Table.lookup]
      rw [show Table.locate index (· ≠ 0) m k = none from hf]
      rfl
    · rw [if_neg hk]
  | some r =>
    obtain ⟨hkey, w, hw⟩ := Table.locate_eq_some hf
    have hsub : ∀ r' e, (m.write r none).get r' = some e → Table.get m r' = some e := by
      intro r' e he
      rw [Table.get_write] at he
      split at he
      · cases he
      · exact he
    refine ⟨⟨h.keyed.mono hsub, fun r' e he => h.ne_zero r' e (hsub r' e he)⟩, fun k => ?_⟩
    refine h.keyed.lookup_clear hsub (fun _ r' v he => ?_) (fun r' e hne he => ?_) k
    · have hr := h.keyed.unique r r' _ _ hw (hsub r' _ he) hkey rfl
      rw [hr, Table.get_write_self] at he
      cases he
    · rw [Table.get_write_of_ne]
      · exact he
      · rintro rfl
        rw [hw] at he
        cases he
        exact hne rfl

/-- The values are those that `get` finds. -/
theorem WellFormed.mem_values (h : m.WellFormed) : v ∈ m.values ↔ ∃ k, m.get k = some v := by
  unfold values
  simp only [List.mem_flatMap, List.mem_filterMap, List.mem_range, Option.map_eq_some_iff]
  constructor
  · rintro ⟨b, -, i, -, ⟨k, w⟩, hs, rfl⟩
    exact ⟨k, h.keyed.lookup_eq_some.mpr ⟨h.ne_zero (b, i) _ hs, (b, i), hs⟩⟩
  · rintro ⟨k, hk⟩
    obtain ⟨hne, ⟨b, i⟩, hr⟩ := h.keyed.lookup_eq_some.mp hk
    have hb : b = index k := h.keyed.placed (b, i) _ hr
    refine ⟨b, ?_, i, Slots.lt_size_of_slot hr, (k, v), hr, rfl⟩
    rw [hb]
    exact Nat.mod_lt k (by decide)

end LmMap
end Turn
end QosSupport
