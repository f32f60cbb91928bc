import Mathlib.Data.List.Find
import Mathlib.Logic.Function.Basic

/-!
# Tables of slots

A bucket is a row of slots that are in use or not. It starts with some slots and grows by one if all are in
use. A table has a bucket for each hash. A slot never moves, so a pointer to it (`Ref`) stays valid.

* `Slots.firstFree`, `find`: the two searches, from the first slot on.
* `Table.get`: what a pointer points to. `get_write`: a table is a heap of its slots.
* `find_eq_some`, `find_eq_none`: what a search in a bucket says about all slots of the bucket.
* `Placed`: every item is in the bucket of its hash. Then the search finds what is in the table
  (`Placed.find_eq_none`).
* `Keyed`: a table of keys and values in which each key has one slot. `Keyed.lookup_write` and
  `Keyed.lookup_clear` are the laws of a map.
-/

namespace QosSupport

/-- A row of slots, with no items from `size` on. -/
structure Slots (α : Type) where
  size : Nat
  slot : Nat → Option α
  beyond : ∀ i, size ≤ i → slot i = none

namespace Slots

variable {α : Type} {s : Slots α} {i : Nat}

/-- `n` slots that are not in use. -/
def empty (n : Nat) : Slots α := ⟨n, fun _ => none, fun _ _ => rfl⟩

/-- The first slot of which the item meets `p`. -/
def find (s : Slots α) (p : α → Bool) : Option Nat := (List.range s.size).find? fun i => (s.slot i).any p

/-- The first slot that is not in use, or a new one. -/
def firstFree (s : Slots α) : Nat := ((List.range s.size).find? fun i => (s.slot i).isNone).getD s.size

/-- A slot gets an item, or none. -/
def write (s : Slots α) (i : Nat) (o : Option α) : Slots α where
  size := max s.size (i + 1)
  slot := Function.update s.slot i o
  beyond := by
    intro j hj
    rw [Function.update_of_ne (by omega)]
    exact s.beyond j (by omega)

/-- Every slot of which the item meets `p` is not in use any more. -/
def removeAll (s : Slots α) (p : α → Bool) : Slots α where
  size := s.size
  slot := fun i => (s.slot i).filter fun a => !p a
  beyond := by
    intro i hi
    rw [s.beyond i hi]
    rfl

theorem lt_size_of_slot {a : α} (h : s.slot i = some a) : i < s.size := by
  by_contra hge
  rw [s.beyond i (by omega)] at h
  cases h

theorem slot_firstFree (s : Slots α) : s.slot s.firstFree = none := by
  unfold firstFree
  cases h : (List.range s.size).find? fun i => (s.slot i).isNone with
  | none => exact s.beyond _ le_rfl
  | some i =>
    have hnone := List.find?_some h
    exact Option.isNone_iff_eq_none.mp hnone

theorem find_eq_some {p : α → Bool} (h : s.find p = some i) : ∃ a, s.slot i = some a ∧ p a = true := by
  have hp := List.find?_some h
  cases hs : s.slot i with
  | none => simp [hs] at hp
  | some a => exact ⟨a, rfl, by simpa [hs] using hp⟩

theorem find_eq_none {p : α → Bool} (h : s.find p = none) {a : α} (hs : s.slot i = some a) : p a = false := by
  have hall := List.find?_eq_none.mp h i (List.mem_range.mpr (lt_size_of_slot hs))
  simpa [hs] using hall

end Slots

/-- A pointer to a slot: its bucket and its place. -/
abbrev Ref := Nat × Nat

/-- The buckets. -/
structure Table (α : Type) where
  bucket : Nat → Slots α

namespace Table

variable {α : Type} {t : Table α} {b : Nat} {r r' : Ref} {a : α}

/-- A table of buckets of `n` slots. -/
def empty (n : Nat) : Table α := ⟨fun _ => .empty n⟩

/-- The item at a slot. -/
def get (t : Table α) (r : Ref) : Option α := (t.bucket r.1).slot r.2

def write (t : Table α) (r : Ref) (o : Option α) : Table α :=
  ⟨Function.update t.bucket r.1 ((t.bucket r.1).write r.2 o)⟩

/-- The item at a slot changes, if there is one. -/
def modify (t : Table α) (r : Ref) (f : α → α) : Table α := t.write r ((t.get r).map f)

/-- A slot of a bucket that is not in use. -/
def fresh (t : Table α) (b : Nat) : Ref := (b, (t.bucket b).firstFree)

/-- The first slot of a bucket of which the item meets `p`. -/
def find (t : Table α) (b : Nat) (p : α → Bool) : Option Ref := ((t.bucket b).find p).map fun i => (b, i)

def removeAll (t : Table α) (b : Nat) (p : α → Bool) : Table α :=
  ⟨Function.update t.bucket b ((t.bucket b).removeAll p)⟩

@[simp] theorem get_empty (n : Nat) (r : Ref) : (empty n : Table α).get r = none := rfl

/-- **A table is a heap.** -/
theorem get_write (t : Table α) (r r' : Ref) (o : Option α) :
    (t.write r o).get r' = if r' = r then o else t.get r' := by
  obtain ⟨b, i⟩ := r
  obtain ⟨b', i'⟩ := r'
  unfold get write
  by_cases hb : b' = b
  · subst hb
    by_cases hi : i' = i
    · simp [hi, Slots.write]
    · simp [hi, Slots.write]
  · simp [hb]

@[simp] theorem get_write_self (t : Table α) (r : Ref) (o : Option α) : (t.write r o).get r = o := by
  rw [get_write, if_pos rfl]

theorem get_write_of_ne (t : Table α) (h : r' ≠ r) (o : Option α) : (t.write r o).get r' = t.get r' := by
  rw [get_write, if_neg h]

@[simp] theorem get_fresh (t : Table α) (b : Nat) : t.get (t.fresh b) = none := Slots.slot_firstFree _

theorem find_eq_some {p : α → Bool} (h : t.find b p = some r) : r.1 = b ∧ ∃ a, t.get r = some a ∧ p a = true := by
  obtain ⟨i, hi, rfl⟩ := Option.map_eq_some_iff.mp h
  exact ⟨rfl, Slots.find_eq_some hi⟩

theorem find_eq_none {p : α → Bool} (h : t.find b p = none) (hb : r.1 = b) (hr : t.get r = some a) :
    p a = false := by
  subst hb
  exact Slots.find_eq_none (Option.map_eq_none_iff.mp h) hr

theorem get_removeAll (t : Table α) (b : Nat) (p : α → Bool) (r : Ref) :
    (t.removeAll b p).get r = if r.1 = b then (t.get r).filter fun a => !p a else t.get r := by
  obtain ⟨b', i⟩ := r
  unfold get removeAll
  by_cases hb : b' = b
  · subst hb
    simp [Slots.removeAll]
  · simp [hb]

/-- Some slots are not in use any more. -/
def clearAll (t : Table α) (rs : List Ref) : Table α := rs.foldl (fun t r => t.write r none) t

theorem get_clearAll (t : Table α) (rs : List Ref) (r : Ref) :
    (t.clearAll rs).get r = if r ∈ rs then none else t.get r := by
  unfold clearAll
  induction rs generalizing t with
  | nil => simp
  | cons r' rs ih =>
    rw [List.foldl_cons, ih, get_write]
    by_cases hr : r = r'
    · simp [hr]
    · simp [hr]

theorem get_of_clearAll {rs : List Ref} (h : (t.clearAll rs).get r = some a) : r ∉ rs ∧ t.get r = some a := by
  rw [get_clearAll] at h
  split at h
  · cases h
  · exact ⟨‹_›, h⟩

/-- What is read after a slot was written. -/
theorem get_of_write {o : Option α} (h : (t.write r o).get r' = some a) :
    (r' = r ∧ o = some a) ∨ (r' ≠ r ∧ t.get r' = some a) := by
  rw [get_write] at h
  split at h
  · exact .inl ⟨‹_›, h⟩
  · exact .inr ⟨‹_›, h⟩

theorem get_modify (t : Table α) (r r' : Ref) (f : α → α) :
    (t.modify r f).get r' = (t.get r').map fun a => if r' = r then f a else a := by
  unfold modify
  rw [get_write]
  split
  · rename_i h
    rw [h]
  · simp

theorem get_modify_self {f : α → α} (h : t.get r = some a) : (t.modify r f).get r = some (f a) := by
  rw [get_modify, h]
  simp

/-- What is read after an item changed. -/
theorem get_of_modify {f : α → α} {b : α} (h : (t.modify r f).get r' = some b) :
    ∃ a, t.get r' = some a ∧ b = if r' = r then f a else a := by
  rw [get_modify] at h
  obtain ⟨a, ha, rfl⟩ := Option.map_eq_some_iff.mp h
  exact ⟨a, ha, rfl⟩

/-! ## Hashes -/

/-- Every item is in the bucket of its hash. -/
def Placed (hash : α → Nat) (t : Table α) : Prop := ∀ r a, t.get r = some a → r.1 = hash a

theorem placed_empty (hash : α → Nat) (n : Nat) : Placed hash (empty n) := by
  intro r a h
  cases h

theorem Placed.write {hash : α → Nat} (h : t.Placed hash) {o : Option α} (ho : ∀ a, o = some a → r.1 = hash a) :
    (t.write r o).Placed hash := by
  intro r' a hr'
  rw [get_write] at hr'
  split at hr'
  · rename_i heq
    rw [heq]
    exact ho a hr'
  · exact h r' a hr'

theorem Placed.modify {hash : α → Nat} (h : t.Placed hash) {f : α → α} (hf : ∀ a, hash (f a) = hash a) :
    (t.modify r f).Placed hash := by
  intro r' b hr'
  obtain ⟨a, ha, rfl⟩ := get_of_modify hr'
  rw [h r' a ha]
  split
  · exact (hf a).symm
  · rfl

/-- A search in the bucket of a hash is a search in the table, if only items of this hash are looked for. -/
theorem Placed.find_eq_none {hash : α → Nat} {p : α → Bool} (h : t.Placed hash)
    (hp : ∀ a, p a = true → hash a = b) : t.find b p = none ↔ ∀ r a, t.get r = some a → p a = false := by
  constructor
  · intro hnone r a hr
    by_contra hpa
    rw [Bool.not_eq_false] at hpa
    have := Table.find_eq_none hnone ((h r a hr).trans (hp a hpa)) hr
    rw [this] at hpa
    cases hpa
  · intro hall
    cases hf : t.find b p with
    | none => rfl
    | some r =>
      obtain ⟨-, a, hr, hpa⟩ := Table.find_eq_some hf
      rw [hall r a hr] at hpa
      cases hpa

/-! ## Keys -/

section Keys

variable {K V : Type} {index : K → Nat} {Found : K → Prop} {t : Table (K × V)} {r : Ref} {key k : K} {v w : V}

/-- Every key is in its bucket, and one that is looked for has one slot. -/
structure Keyed (index : K → Nat) (Found : K → Prop) (t : Table (K × V)) : Prop where
  placed : t.Placed fun e => index e.1
  unique : ∀ r r' e e', t.get r = some e → t.get r' = some e' → Found e.1 → e.1 = e'.1 → r = r'

theorem keyed_empty (index : K → Nat) (Found : K → Prop) (n : Nat) :
    (empty n : Table (K × V)).Keyed index Found where
  placed := placed_empty _ _
  unique := by
    intro r r' e e' h
    cases h

/-- A table of which some slots are not in use any more. -/
theorem Keyed.mono (h : t.Keyed index Found) {t' : Table (K × V)}
    (hsub : ∀ r e, t'.get r = some e → t.get r = some e) : t'.Keyed index Found where
  placed := fun r e hr => h.placed r e (hsub r e hr)
  unique := fun r r' e e' hr hr' => h.unique r r' e e' (hsub r e hr) (hsub r' e' hr')

variable [DecidableEq K] [DecidablePred Found]

/-- The slot of a key. A key that does not meet `Found` is not looked for. -/
def locate (index : K → Nat) (Found : K → Prop) [DecidablePred Found] (t : Table (K × V)) (key : K) : Option Ref :=
  t.find (index key) fun e => decide (Found key ∧ e.1 = key)

/-- The value of a key. -/
def lookup (index : K → Nat) (Found : K → Prop) [DecidablePred Found] (t : Table (K × V)) (key : K) : Option V :=
  (locate index Found t key).bind fun r => (t.get r).map Prod.snd

theorem locate_eq_some (h : locate index Found t key = some r) : Found key ∧ ∃ v, t.get r = some (key, v) := by
  obtain ⟨-, ⟨k, v⟩, hr, heq⟩ := find_eq_some h
  obtain ⟨hf, rfl⟩ := of_decide_eq_true heq
  exact ⟨hf, v, hr⟩

/-- A key that is looked for and not found has no slot. -/
theorem Keyed.locate_eq_none (h : t.Keyed index Found) (hkey : Found key) :
    locate index Found t key = none ↔ ∀ r v, t.get r ≠ some (key, v) := by
  unfold locate
  rw [h.placed.find_eq_none fun e he => by rw [(of_decide_eq_true he).2]]
  constructor
  · intro hall r v hr
    exact of_decide_eq_false (hall r _ hr) ⟨hkey, rfl⟩
  · rintro hnone r ⟨k, v⟩ hr
    refine decide_eq_false ?_
    rintro ⟨-, rfl⟩
    exact hnone r v hr

/-- The values are those of the slots. -/
theorem Keyed.lookup_eq_some (h : t.Keyed index Found) :
    lookup index Found t key = some v ↔ Found key ∧ ∃ r, t.get r = some (key, v) := by
  unfold lookup
  cases hl : locate index Found t key with
  | none =>
    refine ⟨fun hv => ?_, fun ⟨hkey, r, hr⟩ => absurd hr ((h.locate_eq_none hkey).mp hl r v)⟩
    cases hv
  | some r =>
    obtain ⟨hkey, w, hw⟩ := locate_eq_some hl
    simp only [Option.bind_some, hw, Option.map_some, Option.some.injEq]
    refine ⟨fun heq => ⟨hkey, r, heq ▸ hw⟩, fun ⟨_, r', hr'⟩ => ?_⟩
    obtain rfl := h.unique r r' _ _ hw hr' hkey rfl
    rw [hw] at hr'
    simpa using hr'

theorem lookup_empty (n : Nat) (key : K) : lookup index Found (empty n : Table (K × V)) key = none := by
  refine Option.eq_none_iff_forall_ne_some.mpr fun v hv => ?_
  obtain ⟨-, r, hr⟩ := (keyed_empty index Found n).lookup_eq_some.mp hv
  cases hr

/-- A slot that may be written for a key: its own, or one that is not in use if it has none. -/
def WritableFor (index : K → Nat) (Found : K → Prop) [DecidablePred Found] (t : Table (K × V)) (key : K)
    (r : Ref) : Prop :=
  (Found key ∧ ∃ w, t.get r = some (key, w)) ∨
    (r.1 = index key ∧ t.get r = none ∧ locate index Found t key = none)

theorem Keyed.write (h : t.Keyed index Found) (hslot : WritableFor index Found t key r) (v : V) :
    (t.write r (some (key, v))).Keyed index Found := by
  have hindex : r.1 = index key := by
    rcases hslot with ⟨-, w, hw⟩ | ⟨hr, -⟩
    · exact h.placed r _ hw
    · exact hr
  -- no other slot has the key
  have hother : ∀ r' e, r' ≠ r → t.get r' = some e → Found key → e.1 ≠ key := by
    rintro r' ⟨k, w'⟩ hne hr' hkey rfl
    rcases hslot with ⟨-, w, hw⟩ | ⟨-, -, hl⟩
    · exact hne (h.unique _ _ _ _ hr' hw hkey rfl)
    · exact (h.locate_eq_none hkey).mp hl r' w' hr'
  have hget : ∀ {r' e}, (t.write r (some (key, v))).get r' = some e →
      (r' = r ∧ e = (key, v)) ∨ (r' ≠ r ∧ t.get r' = some e) :=
    fun hr' => (get_of_write hr').imp_left fun ⟨heq, he⟩ => ⟨heq, (Option.some.inj he).symm⟩
  refine ⟨?_, fun r₁ r₂ e₁ e₂ h₁ h₂ hf hk => ?_⟩
  · refine h.placed.write fun e he => ?_
    cases he
    exact hindex
  · rcases hget h₁ with ⟨hr₁, rfl⟩ | ⟨hne₁, ho₁⟩ <;> rcases hget h₂ with ⟨hr₂, rfl⟩ | ⟨hne₂, ho₂⟩
    · exact hr₁.trans hr₂.symm
    · exact absurd hk.symm (hother r₂ e₂ hne₂ ho₂ hf)
    · rw [show e₁.1 = key from hk] at hf
      exact absurd hk (hother r₁ e₁ hne₁ ho₁ hf)
    · exact h.unique r₁ r₂ e₁ e₂ ho₁ ho₂ hf hk

/-- **A key that is written has its new value, and the other keys have theirs.** -/
theorem Keyed.lookup_write (h : t.Keyed index Found) (hslot : WritableFor index Found t key r) (v : V) (k : K) :
    lookup index Found (t.write r (some (key, v))) k =
      if k = key ∧ Found key then some v else lookup index Found t k := by
  have h' := h.write hslot v
  by_cases ha : k = key ∧ Found key
  · rw [if_pos ha, h'.lookup_eq_some, ha.1]
    exact ⟨ha.2, r, get_write_self t r _⟩
  · rw [if_neg ha]
    refine Option.ext fun w => ?_
    rw [h'.lookup_eq_some, h.lookup_eq_some]
    refine and_congr_right fun hfam => exists_congr fun r' => ?_
    have hne : k ≠ key := by
      rintro rfl
      exact ha ⟨rfl, hfam⟩
    rw [get_write]
    split
    · rename_i hr
      subst hr
      refine iff_of_false (fun hw => hne ?_) (fun hw => ?_)
      · cases hw
        rfl
      · rcases hslot with ⟨-, w', hw'⟩ | ⟨-, hnone, -⟩
        · rw [hw'] at hw
          cases hw
          exact hne rfl
        · rw [hnone] at hw
          cases hw
    · exact Iff.rfl

/-- **A key of which all slots are cleared is not found, and the other keys have their values.** -/
theorem Keyed.lookup_clear (h : t.Keyed index Found) {t' : Table (K × V)}
    (hsub : ∀ r e, t'.get r = some e → t.get r = some e)
    (hkey : Found key → ∀ r v, t'.get r ≠ some (key, v))
    (hother : ∀ r e, e.1 ≠ key → t.get r = some e → t'.get r = some e) (k : K) :
    lookup index Found t' k = if k = key then none else lookup index Found t k := by
  refine Option.ext fun w => ?_
  rw [(h.mono hsub).lookup_eq_some]
  by_cases hk : k = key
  · subst hk
    rw [if_pos rfl]
    refine iff_of_false (fun ⟨hf, r, hr⟩ => hkey hf r w hr) (fun hw => ?_)
    cases hw
  · rw [if_neg hk, h.lookup_eq_some]
    exact and_congr_right fun _ => exists_congr fun r => ⟨hsub r _, hother r _ hk⟩

end Keys

end Table
end QosSupport
