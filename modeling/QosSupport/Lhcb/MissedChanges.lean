import QosSupport.Lhcb.AccessPoints

/-!
# Missed changes of an Android client

An execution should fire each resource whose value it changes. `cellRunner` fires nothing, and
`wifiRunner` neither fires the access points nor gets to fire anything after a failed scan or in a loop
that never ends.

* `eq_of_reads`: the five resources show every field that the runners write.
* `Quiet`: the executions that change nothing unnoticed, by what they read and what is stored already.
* `noMissed_iff`: over all runs, these are exactly the executions without a missed change.
-/

namespace QosSupport
namespace Lhcb

/-- One execution of a runner, with what it reads. -/
inductive AndroidExecution where
  | cell (r : CellReading)
  | wifi (r : WifiReading)

/-- The resources that observers of the monitor watch. -/
def watched : List Nat := [2, 3, 7, 9, 10]

namespace AndroidMonitor

variable {m m' : AndroidMonitor} {x : AndroidExecution}

/-- An execution, observed after at most `n` rounds of its loop. -/
def run (n : Nat) (m : AndroidMonitor) : AndroidExecution → AndroidOutcome
  | .cell r => .ended (m.cellRunner r) []
  | .wifi r => m.wifiRunner n r

/-- Executions follow each other if they end. -/
def step (m : AndroidMonitor) (x : AndroidExecution) (m' : AndroidMonitor) : Prop :=
  ∃ n fired, m.run n x = .ended m' fired

/-- An execution fires what it changes. -/
structure NoMissed (m : AndroidMonitor) (x : AndroidExecution) : Prop where
  ended : ∀ n m' fired, m.run n x = .ended m' fired → ∀ r ∈ watched, m'.read r ≠ m.read r → r ∈ fired
  /-- One that never ends fires nothing. -/
  hung : (∀ n m' fired, m.run n x ≠ .ended m' fired) →
    ∀ n m', m.run n x = .running m' → ∀ r ∈ watched, m'.read r = m.read r

/-- The scan results are at their keys already. -/
def HoldsScan (m : AndroidMonitor) (ssids : List Text) : Prop :=
  ∀ k, k < ssids.length → m.apn.lookup (k + 1) = ssids[k]?

/-- All that `cellRunner` stores before an exception, or before its end, is there already. -/
def QuietCell (m : AndroidMonitor) (r : CellReading) : Prop :=
  ∀ name, r.networkOperatorName = some name → m.apn.lookup 0 = some name ∧
    ∀ cells, r.allCellInfo = some cells →
      (∀ cellInfo, cells.head? = some cellInfo → m.signalStrength = convertDbm cellInfo.dbm) ∧
      (17 ≤ r.sdkInt ∧ r.granted = true → ∀ op, r.networkOperator = some op → op ≠ "" →
        ∀ smcc, parseMcc op = some smcc → m.smcc = smcc ∧ ∀ smnc, parseMnc op = some smnc → m.smnc = smnc)

/-- The access points stay as they are. If the scan fails, or the loop looks for a key that is not there,
then the link stays as it is, too. -/
def QuietWifi (m : AndroidMonitor) (r : WifiReading) : Prop :=
  ∀ level speed, r.connectionInfo = some (level, speed) → m.HoldsScan r.ssids ∧
    ((r.scanFailed = false ∧ m.apn.size ≤ 1 + r.ssids.length) ∨
      ((r.scanFailed = true ∨ m.apn.size - 1 ∉ m.apn) ∧ m.signalStrength = level ∧ m.linkQuality = speed))

def Quiet (m : AndroidMonitor) : AndroidExecution → Prop
  | .cell r => m.QuietCell r
  | .wifi r => m.QuietWifi r

/-! ## What is read -/

theorem readNumber_inj {a b : Int} (h : readNumber a = readNumber b) : a = b := by
  unfold readNumber at h
  split at h <;> split at h
  · cases h
    rfl
  · cases h
  · cases h
  · omega

theorem readTexts_inj {apn apn' : AccessPoints} (h : readTexts apn = readTexts apn') : apn = apn' := by
  have hempty : ∀ {a : AccessPoints}, ¬ 0 < a.size → a = ∅ := by
    intro a ha
    have hkeys : a.keys = ∅ := Finset.card_eq_zero.mp (Nat.eq_zero_of_not_pos ha)
    refine Finmap.ext_lookup fun k => ?_
    rw [Finmap.lookup_empty, Finmap.lookup_eq_none, ← Finmap.mem_keys, hkeys]
    exact Finset.notMem_empty k
  unfold readTexts at h
  split at h <;> split at h
  · cases h
    rfl
  · cases h
  · cases h
  · rename_i h1 h2
    rw [hempty h1, hempty h2]

/-- The watched resources show all fields. -/
theorem eq_of_reads (h : ∀ r ∈ watched, m'.read r = m.read r) : m' = m := by
  have h2 := readNumber_inj (h 2 (by decide))
  have h3 := readNumber_inj (h 3 (by decide))
  have h7 := readTexts_inj (h 7 (by decide))
  have h9 := readNumber_inj (h 9 (by decide))
  have h10 := readNumber_inj (h 10 (by decide))
  cases m
  cases m'
  simp_all

/-- An execution that fires nothing may change nothing. -/
theorem noMissed_silent_iff (hrun : ∀ n, m.run n x = .ended m' []) : m.NoMissed x ↔ m' = m := by
  constructor
  · intro h
    refine eq_of_reads fun r hr => ?_
    by_contra hne
    exact absurd (h.ended 0 _ [] (hrun 0) r hr hne) (by simp)
  · rintro rfl
    refine ⟨?_, ?_⟩
    · intro n m'' fired h r _ hne
      rw [hrun] at h
      cases h
      exact absurd rfl hne
    · intro hnot
      exact absurd (hrun 0) (hnot 0 _ [])

/-! ## Executions of `cellRunner` -/

theorem noMissed_cell_iff (r : CellReading) : m.NoMissed (.cell r) ↔ m.cellRunner r = m :=
  noMissed_silent_iff fun _ => rfl

/-- The operator is stored only if it is there already. -/
theorem storeOperator_eq_iff (op : Text) : m.storeOperator op = m ↔ ∀ o, op = some o → o ≠ "" →
    ∀ smcc, parseMcc o = some smcc → m.smcc = smcc ∧ ∀ smnc, parseMnc o = some smnc → m.smnc = smnc := by
  cases op with
  | none => simp [storeOperator]
  | some o =>
    by_cases ho : o = ""
    · simp [storeOperator, ho]
    · cases hmcc : parseMcc o with
      | none => simp [storeOperator, ho, hmcc]
      | some smcc =>
        cases hmnc : parseMnc o with
        | none =>
          simp only [storeOperator, ho, hmcc, hmnc]
          cases m
          simp [ho, hmcc, hmnc, eq_comm]
        | some smnc =>
          simp only [storeOperator, ho, hmcc, hmnc]
          cases m
          simp [ho, hmcc, hmnc, eq_comm, and_comm]

theorem storeSignal_eq_iff (cells : List CellInfo) : m.storeSignal cells = m ↔
    ∀ cellInfo, cells.head? = some cellInfo → m.signalStrength = convertDbm cellInfo.dbm := by
  cases cells with
  | nil => simp [storeSignal]
  | cons cellInfo cells =>
    cases m
    simp [storeSignal, eq_comm]

theorem storeSignal_eq_of_signalStrength {cells : List CellInfo}
    (h : (m.storeSignal cells).signalStrength = m.signalStrength) : m.storeSignal cells = m := by
  rw [storeSignal_eq_iff]
  intro cellInfo hcell
  cases cells with
  | nil => cases hcell
  | cons c cells =>
    cases hcell
    exact h.symm

/-- The operator does not write the signal. -/
theorem storeCells_eq_iff (cells : List CellInfo) (op : Text) {p : Prop} [Decidable p] :
    (if p then (m.storeSignal cells).storeOperator op else m.storeSignal cells) = m ↔
      m.storeSignal cells = m ∧ (p → m.storeOperator op = m) := by
  constructor
  · intro h
    have hs : m.storeSignal cells = m := by
      refine storeSignal_eq_of_signalStrength ?_
      have hsig := congrArg signalStrength h
      split at hsig
      · rwa [signalStrength_storeOperator] at hsig
      · exact hsig
    refine ⟨hs, ?_⟩
    intro hp
    rwa [if_pos hp, hs] at h
  · rintro ⟨hs, hop⟩
    rw [hs]
    split
    · rename_i hp
      exact hop hp
    · rfl

theorem insert_eq_iff {apn : AccessPoints} {k : Nat} {v : Text} :
    apn.insert k v = apn ↔ apn.lookup k = some v := by
  constructor
  · intro h
    rw [← h, Finmap.lookup_insert]
  · intro h
    refine Finmap.ext_lookup fun j => ?_
    by_cases hj : j = k
    · rw [hj, Finmap.lookup_insert, h]
    · rw [Finmap.lookup_insert_of_ne _ hj]

/-- `cellRunner` writes each field at most once. -/
theorem cellRunner_eq_iff (r : CellReading) : m.cellRunner r = m ↔ m.QuietCell r := by
  unfold QuietCell
  cases hname : r.networkOperatorName with
  | none => simp [cellRunner, hname]
  | some name =>
    -- the map is not written again
    have hapn : m.cellRunner r = m → m.apn.lookup 0 = some name := by
      intro h
      have heq := apn_cellRunner m r
      rw [h, hname] at heq
      exact insert_eq_iff.mp heq.symm
    by_cases h0 : m.apn.lookup 0 = some name
    · have hm : { m with apn := m.apn.insert 0 name } = m := by
        rw [insert_eq_iff.mpr h0]
      cases hcells : r.allCellInfo with
      | none => simp [cellRunner, hname, hcells, hm, h0]
      | some cells =>
        simp only [cellRunner, hname, hcells, hm]
        rw [storeCells_eq_iff, storeSignal_eq_iff, storeOperator_eq_iff]
        constructor
        · rintro h name' ⟨⟩
          refine ⟨h0, ?_⟩
          rintro cells' ⟨⟩
          exact h
        · intro h
          exact (h name rfl).2 cells rfl
    · constructor
      · intro h
        exact absurd (hapn h) h0
      · intro h
        exact absurd (h name rfl).1 h0

/-! ## Executions of `wifiRunner` -/

theorem putFrom_eq_iff (ssids : List Text) :
    AccessPoints.putFrom 1 ssids m.apn = m.apn ↔ m.HoldsScan ssids := by
  constructor
  · intro h k hk
    rw [← h, AccessPoints.lookup_putFrom, if_pos (by omega), Nat.add_sub_cancel]
  · intro h
    refine Finmap.ext_lookup fun k => ?_
    rw [AccessPoints.lookup_putFrom]
    split
    · have hk := h (k - 1) (by omega)
      rw [Nat.sub_add_cancel (by omega)] at hk
      exact hk.symm
    · rfl

/-- What `wifiRunner` takes to have changed is what changes, apart from the access points. -/
theorem mem_changedResources {level speed : Int} {r : Nat} (hr : r ∈ watched)
    (hne : ({ m with signalStrength := level, linkQuality := speed } : AndroidMonitor).read r ≠ m.read r) :
    r ∈ m.changedResources level speed := by
  simp only [watched, List.mem_cons, List.not_mem_nil, or_false] at hr
  unfold changedResources
  rcases hr with rfl | rfl | rfl | rfl | rfl
  · have h : m.signalStrength ≠ level := fun h => hne (by simp only [read, h])
    simp [h]
  · have h : m.linkQuality ≠ speed := fun h => hne (by simp only [read, h])
    simp [h]
  · exact absurd rfl hne
  · exact absurd rfl hne
  · exact absurd rfl hne

theorem seven_notMem_changedResources (level speed : Int) : 7 ∉ m.changedResources level speed := by
  unfold changedResources
  split <;> split <;> simp

section Wifi

variable {r : WifiReading} {level speed : Int}

/-- Without a connection nothing happens. -/
theorem noMissed_of_no_connection (hconn : r.connectionInfo = none) : m.NoMissed (.wifi r) := by
  have hrun : ∀ n, m.run n (.wifi r) = .ended m [] := by
    intro n
    simp only [run, wifiRunner, hconn]
  exact (noMissed_silent_iff hrun).mpr rfl

/-- After a failed scan nothing is fired. -/
theorem noMissed_scanFailed_iff (hconn : r.connectionInfo = some (level, speed))
    (hscan : r.scanFailed = true) :
    m.NoMissed (.wifi r) ↔ m.HoldsScan r.ssids ∧ m.signalStrength = level ∧ m.linkQuality = speed := by
  have hrun : ∀ n, m.run n (.wifi r) = .ended { m with
      signalStrength := level, linkQuality := speed, apn := AccessPoints.putFrom 1 r.ssids m.apn } [] := by
    intro n
    simp only [run, wifiRunner, hconn, hscan, if_true]
  rw [noMissed_silent_iff hrun, ← putFrom_eq_iff]
  constructor
  · intro heq
    exact ⟨congrArg apn heq, (congrArg signalStrength heq).symm, (congrArg linkQuality heq).symm⟩
  · rintro ⟨hput, hlevel, hspeed⟩
    rw [hput, ← hlevel, ← hspeed]

/-- An execution that ends changes the access points, or its loop had nothing to do. -/
theorem quiet_of_ends (hconn : r.connectionInfo = some (level, speed)) (hscan : r.scanFailed = false)
    (h : m.NoMissed (.wifi r)) {n : Nat} {apn' : AccessPoints}
    (hrun : Loop.run (AccessPoints.Over (1 + r.ssids.length)) AccessPoints.removeLast n
      (AccessPoints.putFrom 1 r.ssids m.apn) = some apn') :
    m.HoldsScan r.ssids ∧ m.apn.size ≤ 1 + r.ssids.length := by
  have hended := (wifiRunner_ended_iff hconn hscan).mpr ⟨apn', hrun, rfl, rfl⟩
  have hapn : apn' = m.apn := by
    refine readTexts_inj ?_
    by_contra hne
    exact seven_notMem_changedResources level speed (h.ended n _ _ hended 7 (by decide) hne)
  have hends : Loop.Ends (AccessPoints.Over (1 + r.ssids.length)) AccessPoints.removeLast
      (AccessPoints.putFrom 1 r.ssids m.apn) apn' := ⟨n, hrun⟩
  have hexit := hends.not_cond
  rw [hapn] at hends hexit
  refine ⟨?_, not_lt.mp hexit⟩
  intro k hk
  rw [AccessPoints.lookup_of_ends hends (by omega), AccessPoints.lookup_putFrom, if_pos (by omega),
    Nat.add_sub_cancel]

/-- One that never ends changes nothing only if its loop looks for a key that is not there. -/
theorem quiet_of_hangs (hconn : r.connectionInfo = some (level, speed)) (hscan : r.scanFailed = false)
    (h : m.NoMissed (.wifi r))
    (hrun : ∀ n, Loop.run (AccessPoints.Over (1 + r.ssids.length)) AccessPoints.removeLast n
      (AccessPoints.putFrom 1 r.ssids m.apn) = none) :
    m.HoldsScan r.ssids ∧ m.apn.size - 1 ∉ m.apn ∧ m.signalStrength = level ∧ m.linkQuality = speed := by
  have hnot : ∀ n m' fired, m.run n (.wifi r) ≠ .ended m' fired := by
    intro n m' fired hended
    obtain ⟨apn', hsome, -⟩ := (wifiRunner_ended_iff hconn hscan).mp hended
    rw [hrun] at hsome
    cases hsome
  have hsame := fun n => eq_of_reads (m := m)
    (h.hung hnot n _ ((wifiRunner_running_iff hconn hscan).mpr ⟨hrun n, rfl⟩))
  have hput : AccessPoints.putFrom 1 r.ssids m.apn = m.apn := congrArg apn (hsame 0)
  refine ⟨(putFrom_eq_iff r.ssids).mp hput, ?_, (congrArg signalStrength (hsame 0)).symm,
    (congrArg linkQuality (hsame 0)).symm⟩
  -- a round that finds its key can be seen
  intro hmem
  have hone := congrArg apn (hsame 1)
  rw [hput] at hone hrun
  by_cases hover : AccessPoints.Over (1 + r.ssids.length) m.apn
  · simp only [Loop.after, if_pos hover] at hone
    have hin : m.apn.size - 1 ∈ m.apn.removeLast := by
      rw [hone]
      exact hmem
    exact Finmap.notMem_erase_self hin
  · have hone' := hrun 1
    rw [Loop.run_succ_of_not 0 hover] at hone'
    cases hone'

/-- Conversely, a loop that has nothing to do lets the execution fire what it changed. -/
theorem noMissed_of_small (hconn : r.connectionInfo = some (level, speed)) (hscan : r.scanFailed = false)
    (hholds : m.HoldsScan r.ssids) (hsize : m.apn.size ≤ 1 + r.ssids.length) : m.NoMissed (.wifi r) := by
  have hput := (putFrom_eq_iff r.ssids).mpr hholds
  have hnot : ¬ AccessPoints.Over (1 + r.ssids.length) m.apn := not_lt.mpr hsize
  refine ⟨?_, ?_⟩
  · intro n m' fired hended r' hr hne
    obtain ⟨apn', hrun, rfl, rfl⟩ := (wifiRunner_ended_iff hconn hscan).mp hended
    rw [hput] at hrun
    have hapn := (Loop.ends_iff_of_not hnot).mp ⟨n, hrun⟩
    rw [hapn] at hne
    exact mem_changedResources hr hne
  · intro hnever
    have hrun : Loop.run (AccessPoints.Over (1 + r.ssids.length)) AccessPoints.removeLast 1
        (AccessPoints.putFrom 1 r.ssids m.apn) = some m.apn := by
      rw [hput, Loop.run_succ_of_not 0 hnot]
    exact absurd ((wifiRunner_ended_iff hconn hscan).mpr ⟨_, hrun, rfl, rfl⟩) (hnever 1 _ _)

/-- In a loop that never finds its key nothing changes. -/
theorem noMissed_of_stuck (hconn : r.connectionInfo = some (level, speed)) (hscan : r.scanFailed = false)
    (hholds : m.HoldsScan r.ssids) (hover : AccessPoints.Over (1 + r.ssids.length) m.apn)
    (hkey : m.apn.size - 1 ∉ m.apn) (hlevel : m.signalStrength = level) (hspeed : m.linkQuality = speed) :
    m.NoMissed (.wifi r) := by
  have hput := (putFrom_eq_iff r.ssids).mpr hholds
  have hstuck := AccessPoints.removeLast_of_notMem hkey
  refine ⟨?_, ?_⟩
  · intro n m' fired hended
    obtain ⟨apn', hrun, -⟩ := (wifiRunner_ended_iff hconn hscan).mp hended
    rw [hput, Loop.run_eq_none_of_stuck hover hstuck] at hrun
    cases hrun
  · intro _ n m' hrunning r' _
    obtain ⟨-, rfl⟩ := (wifiRunner_running_iff hconn hscan).mp hrunning
    rw [hput, Loop.after_of_stuck hstuck, ← hlevel, ← hspeed]

theorem noMissed_wifi_iff (r : WifiReading) : m.NoMissed (.wifi r) ↔ m.QuietWifi r := by
  unfold QuietWifi
  cases hconn : r.connectionInfo with
  | none =>
    refine iff_of_true (noMissed_of_no_connection hconn) ?_
    intro level speed h
    cases h
  | some link =>
    obtain ⟨level, speed⟩ := link
    cases hscan : r.scanFailed with
    | true =>
      rw [noMissed_scanFailed_iff hconn hscan]
      simp
    | false =>
      constructor
      · rintro h level' speed' ⟨⟩
        by_cases hends : ∃ n apn', Loop.run (AccessPoints.Over (1 + r.ssids.length))
            AccessPoints.removeLast n (AccessPoints.putFrom 1 r.ssids m.apn) = some apn'
        · obtain ⟨n, apn', hrun⟩ := hends
          obtain ⟨hholds, hsize⟩ := quiet_of_ends hconn hscan h hrun
          exact ⟨hholds, .inl ⟨rfl, hsize⟩⟩
        · have hnone : ∀ n, Loop.run (AccessPoints.Over (1 + r.ssids.length)) AccessPoints.removeLast n
              (AccessPoints.putFrom 1 r.ssids m.apn) = none := by
            intro n
            exact Option.eq_none_iff_forall_ne_some.mpr fun apn' hrun => hends ⟨n, apn', hrun⟩
          obtain ⟨hholds, hkey, hsame⟩ := quiet_of_hangs hconn hscan h hnone
          exact ⟨hholds, .inr ⟨.inr hkey, hsame⟩⟩
      · intro h
        obtain ⟨hholds, ⟨-, hsize⟩ | ⟨hkey, hlevel, hspeed⟩⟩ := h level speed rfl
        · exact noMissed_of_small hconn hscan hholds hsize
        · by_cases hover : AccessPoints.Over (1 + r.ssids.length) m.apn
          · exact noMissed_of_stuck hconn hscan hholds hover (hkey.resolve_left (by simp)) hlevel hspeed
          · exact noMissed_of_small hconn hscan hholds (not_lt.mp hover)

end Wifi

theorem noMissed_iff_quiet (x : AndroidExecution) : m.NoMissed x ↔ m.Quiet x := by
  cases x with
  | cell r => exact (noMissed_cell_iff r).trans (cellRunner_eq_iff r)
  | wifi r => exact noMissed_wifi_iff r

end AndroidMonitor

/-- **Missed changes**, over all runs: exactly the executions that are not quiet miss one. -/
theorem noMissed_iff (xs : List AndroidExecution) (m : AndroidMonitor) :
    (Run.Steps AndroidMonitor.step AndroidMonitor.Quiet .init xs m ↔
      Run.Steps AndroidMonitor.step AndroidMonitor.NoMissed .init xs m) ∧
    (Run.Steps AndroidMonitor.step Run.Any .init xs m → ∀ x, m.NoMissed x ↔ m.Quiet x) := by
  refine ⟨?_, ?_⟩
  · exact Run.Steps.congr_all fun _ x => (AndroidMonitor.noMissed_iff_quiet x).symm
  · intro _ x
    exact AndroidMonitor.noMissed_iff_quiet x

/-- The first execution of `cellRunner` stores the operator and the signal and fires nothing. -/
theorem cell_changes_missed : ∃ m, AndroidMonitor.init.run 0 (.cell (cellReading (-60))) = .ended m [] ∧
    m.read 2 ≠ AndroidMonitor.init.read 2 ∧ m.read 7 ≠ AndroidMonitor.init.read 7 ∧
    ¬ AndroidMonitor.init.NoMissed (.cell (cellReading (-60))) := by
  have h7 : (AndroidMonitor.init.cellRunner (cellReading (-60))).read 7 ≠ AndroidMonitor.init.read 7 := by
    intro h
    cases h
  refine ⟨_, rfl, ?_, h7, ?_⟩
  · intro h
    exact absurd (AndroidMonitor.readNumber_inj h) (by decide)
  · intro h
    exact absurd (h.ended 0 _ [] rfl 7 (by decide) h7) (by decide)

end Lhcb
end QosSupport
