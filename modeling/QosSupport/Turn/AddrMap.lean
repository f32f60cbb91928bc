import QosSupport.Lib.Run
import QosSupport.Lib.SlotTable
import QosSupport.Turn.IoAddr

/-!
# Maps of addresses (`ur_addr_map` of `broker/coturn/src/server/ns_turn_maps.c`)

A hash table of 1024 buckets, each with four slots and more of them if they are needed. A value is never
`NULL`, so a slot without a value is one that is not in use.

* `AddrMap.get`, `put`, `del`: as the code searches the buckets.
* `WellFormed`: every key is in its bucket, and one with a family has one slot.
* `get_put`, `get_del`: the laws of a map.
* `addrMap_refines`: so the map is a function from addresses to values after every sequence of calls, but for
  addresses without a family, which are never found.
-/

namespace QosSupport
namespace Turn

open IoaAddr

/-- `addr_map_index` -/
def addrMapIndex (key : IoaAddr) : Nat := (key.hash &&& 1023).toNat

/-- The struct `ur_addr_map`. -/
abbrev AddrMap (V : Type) := Table (IoaAddr × V)

namespace AddrMap

variable {V : Type} {m : AddrMap V} {key a : IoaAddr} {v : V}

/-- `ur_addr_map_init` -/
def init : AddrMap V := Table.empty 4

/-- `addr_list_get` -/
def listGet (m : AddrMap V) (key : IoaAddr) : Option Ref :=
  m.find (addrMapIndex key) fun e => decide (e.1.AddrEq key)

/-- `ur_addr_map_get` -/
def get (m : AddrMap V) (key : IoaAddr) : Option V :=
  (m.listGet key).bind fun r => (Table.get m r).map Prod.snd

/-- `ur_addr_map_put` -/
def put (m : AddrMap V) (key : IoaAddr) (value : V) : AddrMap V :=
  match m.listGet key with
  | some r => Table.write m r ((Table.get m r).map fun e => (e.1, value))
  | none => Table.write m (m.fresh (addrMapIndex key)) (some (key, value))

/-- `ur_addr_map_del` -/
def del (m : AddrMap V) (key : IoaAddr) : AddrMap V :=
  m.removeAll (addrMapIndex key) fun e => decide (e.1.AddrEq key)

/-! ## The laws -/

/-- Every key is in its bucket, and one with a family has one slot. -/
def WellFormed (m : AddrMap V) : Prop := Table.Keyed addrMapIndex HasFamily m

theorem wellFormed_init : (init : AddrMap V).WellFormed := Table.keyed_empty _ _ _

theorem addrEq_key (e : IoaAddr × V) : decide (e.1.AddrEq key) = decide (key.HasFamily ∧ e.1 = key) := by
  refine decide_eq_decide.mpr (addrEq_iff.trans ⟨?_, ?_⟩)
  · rintro ⟨hf, rfl⟩
    exact ⟨hf, rfl⟩
  · rintro ⟨hf, rfl⟩
    exact ⟨hf, rfl⟩

/-- The search is one for a key. -/
theorem listGet_eq (m : AddrMap V) (key : IoaAddr) :
    m.listGet key = Table.locate addrMapIndex HasFamily m key := by
  unfold listGet Table.locate
  simp only [addrEq_key]

theorem get_eq (m : AddrMap V) (key : IoaAddr) : m.get key = Table.lookup addrMapIndex HasFamily m key := by
  unfold get Table.lookup
  rw [listGet_eq]

/-- `put` writes to the slot of the key, or to one that was not in use. -/
theorem put_cases (m : AddrMap V) (key : IoaAddr) (v : V) :
    ∃ r, m.put key v = Table.write m r (some (key, v)) ∧ Table.WritableFor addrMapIndex HasFamily m key r := by
  unfold put
  rw [listGet_eq]
  cases hl : Table.locate addrMapIndex HasFamily m key with
  | some r =>
    obtain ⟨hkey, w, hw⟩ := Table.locate_eq_some hl
    exact ⟨r, by simp [hw], .inl ⟨hkey, w, hw⟩⟩
  | none => exact ⟨m.fresh (addrMapIndex key), rfl, .inr ⟨rfl, Table.get_fresh m _, hl⟩⟩

theorem WellFormed.put (h : m.WellFormed) (key : IoaAddr) (v : V) : (m.put key v).WellFormed := by
  obtain ⟨r, heq, hslot⟩ := put_cases m key v
  rw [heq]
  exact Table.Keyed.write h hslot v

/-- **A key that is put has its new value, and the other keys have theirs.** -/
theorem WellFormed.get_put (h : m.WellFormed) (key : IoaAddr) (v : V) (a : IoaAddr) :
    (m.put key v).get a = if a = key ∧ key.HasFamily then some v else m.get a := by
  obtain ⟨r, heq, hslot⟩ := put_cases m key v
  rw [get_eq, get_eq, heq]
  exact Table.Keyed.lookup_write h hslot v a

theorem get_del_slot (m : AddrMap V) (key : IoaAddr) (r : Ref) (e : IoaAddr × V)
    (h : Table.get (m.del key) r = some e) : Table.get m r = some e := by
  unfold del at h
  rw [Table.get_removeAll] at h
  split at h
  · exact (Option.filter_eq_some_iff.mp h).1
  · exact h

theorem WellFormed.del (h : m.WellFormed) (key : IoaAddr) : (m.del key).WellFormed :=
  Table.Keyed.mono h (get_del_slot m key)

/-- **A key that is deleted is not found, and the other keys have their values.** -/
theorem WellFormed.get_del (h : m.WellFormed) (key a : IoaAddr) :
    (m.del key).get a = if a = key then none else m.get a := by
  rw [get_eq, get_eq]
  refine Table.Keyed.lookup_clear h (get_del_slot m key) (fun hf r v hr => ?_) (fun r e hne hr => ?_) a
  · have hindex := (h.del key).placed r _ hr
    unfold AddrMap.del at hr
    rw [Table.get_removeAll, if_pos hindex, Option.filter_eq_some_iff] at hr
    simp [addrEq_iff, hf] at hr
  · unfold AddrMap.del
    rw [Table.get_removeAll, hr]
    split
    · simp [addrEq_iff, hne]
    · rfl

theorem get_init (a : IoaAddr) : (init : AddrMap V).get a = none := by
  rw [get_eq]
  exact Table.lookup_empty _ a

/-! ## Runs -/

/-- A call that changes the map. -/
inductive MapCall (V : Type)
  | put (key : IoaAddr) (value : V)
  | del (key : IoaAddr)

/-- The map after a call. -/
def apply (m : AddrMap V) : MapCall V → AddrMap V
  | .put key value => m.put key value
  | .del key => m.del key

/-- What the map is for: a function from addresses to values. -/
def applyFun (f : IoaAddr → Option V) : MapCall V → IoaAddr → Option V
  | .put key value => if key.HasFamily then Function.update f key (some value) else f
  | .del key => Function.update f key none

theorem WellFormed.apply (h : m.WellFormed) (c : MapCall V) :
    (m.apply c).WellFormed ∧ (m.apply c).get = applyFun m.get c := by
  cases c with
  | put key value =>
    refine ⟨h.put key value, ?_⟩
    funext a
    change (m.put key value).get a = _
    rw [h.get_put]
    unfold applyFun
    by_cases hkey : key.HasFamily
    · simp [hkey, Function.update_apply]
    · simp [hkey]
  | del key =>
    refine ⟨h.del key, ?_⟩
    funext a
    change (m.del key).get a = _
    rw [h.get_del, applyFun, Function.update_apply]

/-- **The map of addresses** finds after every sequence of calls what the function has. A value that is put
for an address without a family is lost. -/
theorem addrMap_refines (cs : List (MapCall V)) :
    (cs.foldl apply init).get = cs.foldl applyFun (fun _ => none) := by
  have hrun : ∀ (cs : List (MapCall V)) (m : AddrMap V), m.WellFormed →
      (cs.foldl apply m).get = cs.foldl applyFun m.get := by
    intro cs
    induction cs with
    | nil => exact fun _ _ => rfl
    | cons c cs ih =>
      intro m h
      obtain ⟨h', heq⟩ := h.apply c
      rw [List.foldl_cons, List.foldl_cons, ih _ h', heq]
  have hinit : (init : AddrMap V).get = fun _ => none := funext get_init
  rw [hrun cs init wellFormed_init, hinit]

end AddrMap
end Turn
end QosSupport
