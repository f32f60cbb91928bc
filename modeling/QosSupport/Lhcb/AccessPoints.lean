import QosSupport.Lhcb.Android
import QosSupport.Lib.Run
import Mathlib.Order.Interval.Finset.Nat

/-!
# The access points of an Android client

`apn` has the operator at key 0, if `cellRunner` got to store it, and the access points from key 1 on.
`wifiRunner` puts the scan results over the old ones and then removes the key `size - 1` until the map is
small enough. That is the last key only if there is no gap.

* `lookup_putFrom`: the map before the loop.
* `Gapless`: with the operator at key 0, the loop takes away the last access points one after the other.
* `Stale`: without it, the last access point is never taken away.
* `accessPoints_iff`: over all runs, exactly when the access points are those of the last scan.
-/

namespace QosSupport
namespace Lhcb

namespace AccessPoints

variable {apn apn' : AccessPoints} {ssids : List Text} {i n k : Nat}

/-! ## Putting -/

/-- The scan results are at the keys from `i` on, and all other keys are as before. -/
theorem lookup_putFrom (i : Nat) (ssids : List Text) (apn : AccessPoints) (k : Nat) :
    (putFrom i ssids apn).lookup k =
      if i ≤ k ∧ k < i + ssids.length then ssids[k - i]? else apn.lookup k := by
  induction ssids generalizing i apn with
  | nil => simp [putFrom]
  | cons ssid ssids ih =>
    rw [putFrom, ih, List.length_cons]
    by_cases hk : k = i
    · subst hk
      rw [if_neg (by omega), if_pos (by omega), Finmap.lookup_insert]
      simp
    · rw [Finmap.lookup_insert_of_ne _ hk]
      by_cases hin : i + 1 ≤ k ∧ k < i + 1 + ssids.length
      · have hsub : k - i = k - (i + 1) + 1 := by omega
        rw [if_pos hin, if_pos (by omega), hsub, List.getElem?_cons_succ]
      · rw [if_neg hin, if_neg (by omega)]

theorem mem_putFrom :
    k ∈ putFrom i ssids apn ↔ (i ≤ k ∧ k < i + ssids.length) ∨ k ∈ apn := by
  rw [← Finmap.lookup_isSome, ← Finmap.lookup_isSome, lookup_putFrom]
  by_cases hin : i ≤ k ∧ k < i + ssids.length
  · have hlt : k - i < ssids.length := by omega
    simp [hin, hlt]
  · simp [hin]

/-! ## Removing -/

/-- Only the key `size - 1` is removed, which is not one of the scan results. -/
theorem lookup_removeLast (hover : Over i apn) (hk : k < i) : apn.removeLast.lookup k = apn.lookup k := by
  unfold Over at hover
  exact Finmap.lookup_erase_ne (by omega)

theorem keys_removeLast (apn : AccessPoints) : apn.removeLast.keys = apn.keys.erase (apn.size - 1) :=
  Finmap.keys_erase _ _

theorem size_removeLast_le (apn : AccessPoints) : apn.removeLast.size ≤ apn.size := by
  rw [size, keys_removeLast]
  exact Finset.card_erase_le

/-- A round that does not find its key changes nothing. -/
theorem removeLast_of_notMem (h : apn.size - 1 ∉ apn) : apn.removeLast = apn := by
  refine Finmap.ext_lookup fun k => ?_
  by_cases hk : k = apn.size - 1
  · rw [hk, removeLast, Finmap.lookup_erase]
    exact (Finmap.lookup_eq_none.mpr h).symm
  · exact Finmap.lookup_erase_ne hk

/-- The loop keeps the scan results. -/
theorem lookup_of_ends (h : Loop.Ends (Over i) removeLast apn apn') (hk : k < i) :
    apn'.lookup k = apn.lookup k := by
  refine (h.inv (I := fun b => b.lookup k = apn.lookup k) ?_ rfl).1
  intro b hb hover
  rw [lookup_removeLast hover hk, hb]

/-! ## With the operator at key 0 -/

/-- The keys are those from 0 on, and at least up to `n`. -/
def Gapless (n : Nat) (apn : AccessPoints) : Prop := ∃ k, n ≤ k ∧ apn.keys = Finset.range (k + 1)

theorem Gapless.size_eq (h : Gapless n apn) : ∃ k, n ≤ k ∧ apn.keys = Finset.range (k + 1) ∧
    apn.size = k + 1 := by
  obtain ⟨k, hk, hkeys⟩ := h
  exact ⟨k, hk, hkeys, by rw [size, hkeys, Finset.card_range]⟩

/-- One round takes away the last key. -/
theorem Gapless.removeLast (h : Gapless n apn) (hover : Over (1 + n) apn) :
    Gapless n apn.removeLast ∧ apn.removeLast.size < apn.size := by
  obtain ⟨k, hk, hkeys, hsize⟩ := h.size_eq
  unfold Over at hover
  have hkeys' : apn.removeLast.keys = Finset.range k := by
    rw [keys_removeLast, hkeys, hsize, Nat.add_sub_cancel, Finset.range_add_one,
      Finset.erase_insert Finset.notMem_range_self]
  have hpred : k - 1 + 1 = k := by omega
  refine ⟨⟨k - 1, by omega, by rw [hkeys', hpred]⟩, ?_⟩
  rw [hsize, size, hkeys', Finset.card_range]
  omega

/-- The loop ends with the keys from 0 to `n`. -/
theorem Gapless.ends (h : Gapless n apn) :
    ∃ apn', Loop.Ends (Over (1 + n)) AccessPoints.removeLast apn apn' ∧
      apn'.keys = Finset.range (n + 1) := by
  have hstep : ∀ apn, Gapless n apn → Over (1 + n) apn →
      Gapless n apn.removeLast ∧ apn.removeLast.size < apn.size :=
    fun apn hg hover => hg.removeLast hover
  obtain ⟨apn', hends, hg, hnot⟩ := Loop.ends_of_measure (Gapless n) size hstep h
  refine ⟨apn', hends, ?_⟩
  obtain ⟨k, hk, hkeys, hsize⟩ := hg.size_eq
  unfold Over at hnot
  have hkn : k = n := by omega
  rw [hkeys, hkn]

/-! ## Without it -/

/-- The key `k` is out of reach of the loop. -/
structure Stale (k : Nat) (apn : AccessPoints) : Prop where
  mem : k ∈ apn
  size_le : apn.size ≤ k

theorem Stale.pos (h : Stale k apn) : 0 < apn.size :=
  Finset.card_pos.mpr ⟨k, Finmap.mem_keys.mpr h.mem⟩

theorem Stale.removeLast (h : Stale k apn) : Stale k apn.removeLast where
  mem := by
    have hpos := h.pos
    have hle := h.size_le
    exact Finmap.mem_erase.mpr ⟨by omega, h.mem⟩
  size_le := (size_removeLast_le apn).trans h.size_le

theorem Stale.of_ends (h : Stale k apn) (hends : Loop.Ends (Over i) AccessPoints.removeLast apn apn') :
    k ∈ apn' :=
  (hends.inv (fun _ hs _ => hs.removeLast) h).1.mem

/-- There is nothing at key 0, and nothing after `k`. -/
theorem stale_of_last (hk : k ∈ apn) (h0 : 0 ∉ apn) (hlast : ∀ j ∈ apn, j ≤ k) : Stale k apn := by
  refine ⟨hk, ?_⟩
  have hsub : apn.keys ⊆ Finset.Icc 1 k := by
    intro j hj
    have hmem := Finmap.mem_keys.mp hj
    have hne : j ≠ 0 := fun h => h0 (h ▸ hmem)
    exact Finset.mem_Icc.mpr ⟨by omega, hlast j hmem⟩
  have hcard := Finset.card_le_card hsub
  rw [Nat.card_Icc] at hcard
  exact hcard

end AccessPoints

/-! ## Cycles -/

/-- One cycle of the runner thread: what `cellRunner` reads, then what `wifiRunner` reads. The scan has
any number of results. -/
structure Cycle where
  cell : CellReading
  level : Int
  speed : Int
  ssids : List Text

def Cycle.wifi (c : Cycle) : WifiReading :=
  { connectionInfo := some (c.level, c.speed), ssids := c.ssids, scanFailed := false }

namespace AndroidMonitor

variable {m m' : AndroidMonitor} {c : Cycle} {n k : Nat}

/-- The loop of `wifiRunner` ends in `m'`. -/
def cycle (m : AndroidMonitor) (c : Cycle) (m' : AndroidMonitor) : Prop :=
  ∃ n fired, (m.cellRunner c.cell).wifiRunner n c.wifi = .ended m' fired

/-- The keys from 1 on are those of the scan results. -/
def Lists (m : AndroidMonitor) (ssids : List Text) : Prop := ∀ k ≥ 1, m.apn.lookup k = ssids[k - 1]?

/-- The loop ends, and then the access points are those of the scan. -/
def Listed (m : AndroidMonitor) (c : Cycle) : Prop := ∃ m', m.cycle c m' ∧ m'.Lists c.ssids

/-- The operator is at key 0, or the scan has all numbers of the one before. -/
def Trimmable (m : AndroidMonitor) (c : Cycle) : Prop :=
  0 ∈ m.apn ∨ c.cell.networkOperatorName.isSome ∨ ∀ k ∈ m.apn, k ≤ c.ssids.length

/-- The access points are numbered from 1 without a gap. -/
def Numbered (m : AndroidMonitor) : Prop := ∃ n, ∀ k ≥ 1, k ∈ m.apn ↔ k ≤ n

@[simp] theorem apn_storeOperator (m : AndroidMonitor) (op : Text) : (m.storeOperator op).apn = m.apn := by
  unfold storeOperator
  repeat' split
  all_goals rfl

@[simp] theorem apn_storeSignal (m : AndroidMonitor) (cells : List CellInfo) :
    (m.storeSignal cells).apn = m.apn := by
  cases cells <;> rfl

/-- `cellRunner` writes key 0 only. -/
theorem apn_cellRunner (m : AndroidMonitor) (r : CellReading) :
    (m.cellRunner r).apn = (r.networkOperatorName.map fun name => m.apn.insert 0 name).getD m.apn := by
  cases hname : r.networkOperatorName with
  | none => simp [cellRunner, hname]
  | some name =>
    cases hcells : r.allCellInfo with
    | none => simp [cellRunner, hname, hcells]
    | some cells =>
      simp only [cellRunner, hname, hcells]
      split <;> simp

theorem mem_apn_cellRunner (m : AndroidMonitor) (r : CellReading) :
    k ∈ (m.cellRunner r).apn ↔ (k = 0 ∧ r.networkOperatorName.isSome) ∨ k ∈ m.apn := by
  rw [apn_cellRunner]
  cases hname : r.networkOperatorName with
  | none => simp
  | some name => simp [Finmap.mem_insert]

/-- The map before the loop. -/
def beforeTrim (m : AndroidMonitor) (c : Cycle) : AccessPoints :=
  AccessPoints.putFrom 1 c.ssids (m.cellRunner c.cell).apn

theorem mem_beforeTrim : k ∈ m.beforeTrim c ↔
    (1 ≤ k ∧ k ≤ c.ssids.length) ∨ (k = 0 ∧ c.cell.networkOperatorName.isSome) ∨ k ∈ m.apn := by
  rw [beforeTrim, AccessPoints.mem_putFrom, mem_apn_cellRunner]
  have hlt : k < 1 + c.ssids.length ↔ k ≤ c.ssids.length := by omega
  rw [hlt]

theorem lookup_beforeTrim (hk : 1 ≤ k) (hn : k ≤ c.ssids.length) :
    (m.beforeTrim c).lookup k = c.ssids[k - 1]? := by
  rw [beforeTrim, AccessPoints.lookup_putFrom, if_pos (by omega)]

/-- A cycle is the loop from there on. -/
theorem cycle_iff : m.cycle c m' ↔ ∃ apn',
    Loop.Ends (AccessPoints.Over (1 + c.ssids.length)) AccessPoints.removeLast (m.beforeTrim c) apn' ∧
      m' = { m.cellRunner c.cell with signalStrength := c.level, linkQuality := c.speed, apn := apn' } := by
  constructor
  · rintro ⟨n, fired, h⟩
    obtain ⟨apn', hrun, hm, -⟩ := (wifiRunner_ended_iff rfl rfl).mp h
    exact ⟨apn', ⟨n, hrun⟩, hm⟩
  · rintro ⟨apn', ⟨n, hrun⟩, hm⟩
    exact ⟨n, _, (wifiRunner_ended_iff rfl rfl).mpr ⟨apn', hrun, hm, rfl⟩⟩

theorem cycle_unique {m'' : AndroidMonitor} (h : m.cycle c m') (h' : m.cycle c m'') : m' = m'' := by
  obtain ⟨apn', hends, rfl⟩ := cycle_iff.mp h
  obtain ⟨apn'', hends', rfl⟩ := cycle_iff.mp h'
  rw [hends.unique hends']

/-- It is enough that the loop ends without a key beyond the scan results. -/
theorem listed_of_ends {apn' : AccessPoints}
    (hends : Loop.Ends (AccessPoints.Over (1 + c.ssids.length)) AccessPoints.removeLast (m.beforeTrim c) apn')
    (hlast : ∀ k ∈ apn', k ≤ c.ssids.length) : m.Listed c := by
  refine ⟨_, cycle_iff.mpr ⟨apn', hends, rfl⟩, ?_⟩
  intro k hk
  by_cases hn : k ≤ c.ssids.length
  · rw [← lookup_beforeTrim (m := m) hk hn]
    exact AccessPoints.lookup_of_ends hends (by omega)
  · rw [List.getElem?_eq_none (by omega)]
    exact Finmap.lookup_eq_none.mpr fun hmem => hn (hlast k hmem)

/-- With the operator at key 0 there is no gap. -/
theorem listed_of_operator (hm : m.Numbered)
    (h0 : 0 ∈ m.apn ∨ c.cell.networkOperatorName.isSome) : m.Listed c := by
  obtain ⟨n, hn⟩ := hm
  have hg : AccessPoints.Gapless c.ssids.length (m.beforeTrim c) := by
    refine ⟨max c.ssids.length n, by omega, ?_⟩
    ext k
    rw [Finmap.mem_keys, mem_beforeTrim, Finset.mem_range]
    by_cases hk : k = 0
    · subst hk
      simp [h0.symm]
    · rw [hn k (by omega)]
      omega
  obtain ⟨apn', hends, hkeys⟩ := hg.ends
  refine listed_of_ends hends ?_
  intro k hk
  have hmem := Finmap.mem_keys.mpr hk
  rw [hkeys, Finset.mem_range] at hmem
  omega

/-- Without it, the loop has nothing to do if the scan did not get shorter. -/
theorem listed_of_longer (h0 : ¬ (0 ∈ m.apn ∨ c.cell.networkOperatorName.isSome))
    (hle : ∀ k ∈ m.apn, k ≤ c.ssids.length) : m.Listed c := by
  have hlast : ∀ k ∈ m.beforeTrim c, 1 ≤ k ∧ k ≤ c.ssids.length := by
    intro k hk
    rcases mem_beforeTrim.mp hk with h | ⟨-, h⟩ | h
    · exact h
    · exact absurd (.inr h) h0
    · have hne : k ≠ 0 := fun hz => h0 (.inl (hz ▸ h))
      exact ⟨by omega, hle k h⟩
  have hsub : (m.beforeTrim c).keys ⊆ Finset.Icc 1 c.ssids.length := by
    intro k hk
    exact Finset.mem_Icc.mpr (hlast k (Finmap.mem_keys.mp hk))
  have hnot : ¬ AccessPoints.Over (1 + c.ssids.length) (m.beforeTrim c) := by
    have hcard := Finset.card_le_card hsub
    rw [Nat.card_Icc] at hcard
    unfold AccessPoints.Over AccessPoints.size
    omega
  exact listed_of_ends ((Loop.ends_iff_of_not hnot).mpr rfl) fun k hk => (hlast k hk).2

/-- Otherwise the last access point of an earlier scan stays. -/
theorem not_listed (hm : m.Numbered) (h : ¬ m.Trimmable c) : ¬ m.Listed c := by
  obtain ⟨n, hn⟩ := hm
  simp only [Trimmable, not_or, not_forall] at h
  obtain ⟨h0, hname, j, hj, hlt⟩ := h
  have hjn : j ≤ n := (hn j (by omega)).mp hj
  have hstale : AccessPoints.Stale n (m.beforeTrim c) := by
    refine AccessPoints.stale_of_last (mem_beforeTrim.mpr (.inr (.inr ((hn n (by omega)).mpr le_rfl)))) ?_ ?_
    · rw [mem_beforeTrim]
      rintro (⟨h1, -⟩ | ⟨-, h1⟩ | h1)
      · omega
      · exact hname h1
      · exact h0 h1
    · intro i hi
      rcases mem_beforeTrim.mp hi with ⟨-, h1⟩ | ⟨rfl, -⟩ | h1
      · omega
      · omega
      · by_cases hz : i = 0
        · omega
        · exact (hn i (by omega)).mp h1
  rintro ⟨m', hcycle, hlists⟩
  obtain ⟨apn', hends, rfl⟩ := cycle_iff.mp hcycle
  have hnone := hlists n (by omega)
  rw [List.getElem?_eq_none (by omega)] at hnone
  exact Finmap.lookup_eq_none.mp hnone (hstale.of_ends hends)

theorem listed_iff (hm : m.Numbered) : m.Listed c ↔ m.Trimmable c := by
  constructor
  · intro h
    by_contra hnot
    exact not_listed hm hnot h
  · intro h
    by_cases h0 : 0 ∈ m.apn ∨ c.cell.networkOperatorName.isSome
    · exact listed_of_operator hm h0
    · refine listed_of_longer h0 ?_
      rcases h with h | h | h
      · exact absurd (.inl h) h0
      · exact absurd (.inr h) h0
      · exact h

theorem Lists.numbered {ssids : List Text} (h : m.Lists ssids) : m.Numbered := by
  refine ⟨ssids.length, ?_⟩
  intro k hk
  rw [← Finmap.lookup_isSome, h k hk]
  simp only [isSome_getElem?]
  omega

/-- A cycle keeps the numbering. -/
theorem numbered_cycle (hm : m.Numbered) (h : m.Trimmable c) (hc : m.cycle c m') :
    m'.Lists c.ssids ∧ m'.Numbered := by
  obtain ⟨m'', hc', hlists⟩ := (listed_iff hm).mpr h
  rw [cycle_unique hc hc']
  exact ⟨hlists, hlists.numbered⟩

theorem numbered_empty (m : AndroidMonitor) : { m with apn := ∅ }.Numbered := by
  refine ⟨0, ?_⟩
  intro k hk
  simp only [Finmap.notMem_empty, false_iff]
  omega

theorem numbered_of_cycles {cs : List Cycle} (h : Run.Steps cycle Trimmable m cs m') (hm : m.Numbered) :
    m'.Numbered :=
  h.inv (fun _ _ _ hi hP hc => (numbered_cycle hi hP hc).2) hm

end AndroidMonitor

/-- **The access points**, over all runs from an empty map: the cycles that leave exactly the access points
of their scan are those in which the map can be trimmed. -/
theorem accessPoints_iff (m₀ m : AndroidMonitor) (cs : List Cycle) :
    (Run.Steps AndroidMonitor.cycle AndroidMonitor.Trimmable { m₀ with apn := ∅ } cs m ↔
      Run.Steps AndroidMonitor.cycle AndroidMonitor.Listed { m₀ with apn := ∅ } cs m) ∧
    (Run.Steps AndroidMonitor.cycle AndroidMonitor.Trimmable { m₀ with apn := ∅ } cs m →
      ∀ c, (m.Listed c ↔ m.Trimmable c) ∧ ∀ m', m.Trimmable c → m.cycle c m' → m'.Lists c.ssids) := by
  have hempty := AndroidMonitor.numbered_empty m₀
  refine ⟨?_, ?_⟩
  · exact Run.Steps.congr (fun _ _ _ hi hP hc => (AndroidMonitor.numbered_cycle hi hP hc).2)
      (fun _ _ hi => (AndroidMonitor.listed_iff hi).symm) hempty
  · intro h c
    have hm := AndroidMonitor.numbered_of_cycles h hempty
    exact ⟨AndroidMonitor.listed_iff hm, fun m' ht hc => (AndroidMonitor.numbered_cycle hm ht hc).1⟩

/-- A cycle on a device without a telephony service. -/
def wifiOnly (ssids : List Text) : Cycle where
  cell := { cellReading (-60) with networkOperatorName := none }
  level := 40
  speed := 54
  ssids := ssids

/-- A cycle on a device with one. -/
def wifiAndCell (ssids : List Text) : Cycle := { wifiOnly ssids with cell := cellReading (-60) }

/-- Five access points and then two, without the operator: the fifth stays. With the operator, the next
cycle never ends. -/
theorem stale_access_point : ∃ m₁ m₂,
    AndroidMonitor.init.cycle (wifiOnly [some "a", some "b", some "c", some "d", some "e"]) m₁ ∧
    m₁.cycle (wifiOnly [some "a", some "b"]) m₂ ∧ m₂.apn.lookup 5 = some (some "e") ∧
    ¬ m₂.Lists [some "a", some "b"] ∧ ∀ m₃, ¬ m₂.cycle (wifiAndCell [some "a", some "b"]) m₃ := by
  refine ⟨_, _, ⟨9, [2, 3], rfl⟩, ⟨9, [], rfl⟩, rfl, ?_, ?_⟩
  · intro h
    have h5 := h 5 (by decide)
    exact absurd h5 (by decide)
  · intro m₃ h
    obtain ⟨apn', ⟨n, hrun⟩, -⟩ := AndroidMonitor.cycle_iff.mp h
    rw [Loop.run_eq_none_of_stuck (by decide) (AccessPoints.removeLast_of_notMem (by decide))] at hrun
    cases hrun

end Lhcb
end QosSupport
