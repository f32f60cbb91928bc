import QosSupport.Lhcb.Json
import QosSupport.Lib.Loop
import Mathlib.Data.Finmap

/-!
# The connectivity monitor of an Android client

`ConnectivityMonitorAndroid` has two runners that write the same fields: `cellRunner` reads the telephony
service, `wifiRunner` the WiFi service.

* `cellRunner`: an exception ends the execution and leaves what was stored before it. Nothing is fired.
* `wifiRunner`: the access points are numbered from one, `apn` is trimmed in a loop, and resources are
  fired when the loop has ended.
* `convertDbm` and `onScale_iff`: exactly which readings follow the scale of the object's definition.
-/

namespace QosSupport
namespace Lhcb

/-! ## Fields -/

/-- A Java string, which may be `null`. -/
abbrev Text := Option String

/-- `apn`. Two maps with the same entries are equal, in whatever order these were put. -/
abbrev AccessPoints := Finmap fun _ : Nat => Text

def AccessPoints.size (apn : AccessPoints) : Nat := apn.keys.card

/-- The fields that the runners write. -/
structure AndroidMonitor where
  signalStrength : Int
  linkQuality : Int
  apn : AccessPoints
  smnc : Int
  smcc : Int

/-- A monitor before the first execution. -/
def AndroidMonitor.init : AndroidMonitor where
  signalStrength := 64
  linkQuality := -1
  apn := ∅
  smnc := -1
  smcc := -1

/-- The content of a read response. -/
inductive AndroidContent where
  | integer (n : Int)
  | texts (apn : AccessPoints)

/-- A number that is `-1` is not there. -/
def readNumber (n : Int) : Option AndroidContent := if n ≠ -1 then some (.integer n) else none

/-- A map that is empty is not there. -/
def readTexts (apn : AccessPoints) : Option AndroidContent :=
  if 0 < apn.size then some (.texts apn) else none

/-- `read`, for the resources that the runners write. -/
def AndroidMonitor.read (m : AndroidMonitor) : Nat → Option AndroidContent
  | 2 => readNumber m.signalStrength
  | 3 => readNumber m.linkQuality
  | 7 => readTexts m.apn
  | 9 => readNumber m.smnc
  | 10 => readNumber m.smcc
  | _ => none

/-! ## Telephony -/

/-- `convertDbm`, in the arithmetic of `int`. -/
def convertDbm (dbm : Int) : Int :=
  let oldRange : Int := -48 - 110
  let newRange : Int := 64 - 0
  wrap32 ((wrap32 (wrap32 (dbm - 110) * newRange)).tdiv oldRange + 0)

inductive CellInfo where
  | cdma (dbm : Int)
  | gsm (dbm : Int)
  | lte (dbm : Int)
  | wcdma (dbm : Int)
  | other

/-- The signal of a cell, zero for other classes. -/
def CellInfo.dbm : CellInfo → Int
  | .cdma dbm | .gsm dbm | .lte dbm | .wcdma dbm => dbm
  | .other => 0

/-- What one execution of `cellRunner` reads. -/
structure CellReading where
  /-- Absent if there is no telephony service. -/
  networkOperatorName : Option Text
  /-- Absent if the list, its first cell or the signal of that cell is `null`, or may not be read. -/
  allCellInfo : Option (List CellInfo)
  sdkInt : Int
  /-- No getter that is only called for the trace throws an exception. -/
  granted : Bool
  networkOperator : Text

namespace AndroidMonitor

/-- `Integer.parseInt(networkOperator.substring(0, 3))` -/
def parseMcc (networkOperator : String) : Option Int :=
  if 3 ≤ networkOperator.toList.length then javaInt (String.ofList (networkOperator.toList.take 3)) else none

/-- `Integer.parseInt(networkOperator.substring(3))` -/
def parseMnc (networkOperator : String) : Option Int :=
  javaInt (String.ofList (networkOperator.toList.drop 3))

/-- The country is stored before the network is parsed. -/
def storeOperator (m : AndroidMonitor) (networkOperator : Text) : AndroidMonitor :=
  match networkOperator with
  | none => m
  | some op =>
    if op = "" then m
    else match parseMcc op with
      | none => m
      | some smcc =>
        match parseMnc op with
        | none => { m with smcc := smcc }
        | some smnc => { m with smcc := smcc, smnc := smnc }

/-- The signal of the first cell. -/
def storeSignal (m : AndroidMonitor) : List CellInfo → AndroidMonitor
  | [] => m
  | cellInfo :: _ => { m with signalStrength := convertDbm cellInfo.dbm }

/-- `cellRunner`. `17` is `JELLY_BEAN_MR1`. -/
def cellRunner (m : AndroidMonitor) (r : CellReading) : AndroidMonitor :=
  match r.networkOperatorName with
  | none => m
  | some name =>
    let m := { m with apn := m.apn.insert 0 name }
    match r.allCellInfo with
    | none => m
    | some allCellInfo =>
      let m := m.storeSignal allCellInfo
      if 17 ≤ r.sdkInt ∧ r.granted = true then m.storeOperator r.networkOperator else m

end AndroidMonitor

/-! ## WiFi -/

/-- What one execution of `wifiRunner` reads. -/
structure WifiReading where
  /-- The level of the signal and the link speed, absent if there is no connection to ask. -/
  connectionInfo : Option (Int × Int)
  /-- The names of the scan results. -/
  ssids : List Text
  /-- The scan results are `null`, or there is an exception after the ones that are given. -/
  scanFailed : Bool

/-- The state of an execution after some rounds of its loop. -/
inductive AndroidOutcome where
  /-- It has ended and fired these resources. -/
  | ended (m : AndroidMonitor) (fired : List Nat)
  /-- It is still in the loop. -/
  | running (m : AndroidMonitor)

namespace AccessPoints

/-- `apn.put(i++, scanResult.SSID)` for all scan results. -/
def putFrom : Nat → List Text → AccessPoints → AccessPoints
  | _, [], apn => apn
  | i, ssid :: ssids, apn => putFrom (i + 1) ssids (apn.insert i ssid)

/-- `apn.size() > i` -/
def Over (i : Nat) (apn : AccessPoints) : Prop := i < apn.size

instance (i : Nat) : DecidablePred (Over i) := fun apn => inferInstanceAs (Decidable (i < apn.size))

/-- `apn.remove(apn.size() - 1)` -/
def removeLast (apn : AccessPoints) : AccessPoints := apn.erase (apn.size - 1)

end AccessPoints

namespace AndroidMonitor

/-- The resources that `wifiRunner` takes to have changed. -/
def changedResources (m : AndroidMonitor) (newSignalStrength newLinkQuality : Int) : List Nat :=
  (if m.signalStrength ≠ newSignalStrength then [2] else []) ++
    if m.linkQuality ≠ newLinkQuality then [3] else []

/-- `wifiRunner`, observed after at most `n` rounds of its loop. -/
def wifiRunner (n : Nat) (m : AndroidMonitor) (r : WifiReading) : AndroidOutcome :=
  match r.connectionInfo with
  | none => .ended m []
  | some (level, speed) =>
    let m' := { m with signalStrength := level, linkQuality := speed }
    let apn := AccessPoints.putFrom 1 r.ssids m.apn
    let i := 1 + r.ssids.length
    if r.scanFailed then .ended { m' with apn := apn } []
    else match Loop.run (AccessPoints.Over i) AccessPoints.removeLast n apn with
      | some apn' => .ended { m' with apn := apn' } (m.changedResources level speed)
      | none => .running { m' with apn := Loop.after (AccessPoints.Over i) AccessPoints.removeLast n apn }

section Outcomes

variable {n : Nat} {m m' : AndroidMonitor} {r : WifiReading} {level speed : Int} {fired : List Nat}

/-- An execution with all readings ends when its loop ends. -/
theorem wifiRunner_ended_iff (hconn : r.connectionInfo = some (level, speed)) (hscan : r.scanFailed = false) :
    m.wifiRunner n r = .ended m' fired ↔ ∃ apn',
      Loop.run (AccessPoints.Over (1 + r.ssids.length)) AccessPoints.removeLast n
        (AccessPoints.putFrom 1 r.ssids m.apn) = some apn' ∧
      m' = { m with signalStrength := level, linkQuality := speed, apn := apn' } ∧
      fired = m.changedResources level speed := by
  simp only [wifiRunner, hconn, hscan, Bool.false_eq_true, if_false]
  split
  · rename_i apn' hrun
    constructor
    · intro h
      cases h
      exact ⟨apn', hrun, rfl, rfl⟩
    · rintro ⟨apn'', hrun', rfl, rfl⟩
      rw [hrun] at hrun'
      cases hrun'
      rfl
  · rename_i hrun
    constructor
    · intro h
      cases h
    · rintro ⟨apn'', hrun', -, -⟩
      rw [hrun] at hrun'
      cases hrun'

/-- Else it is in the loop, and what it stored can be read. -/
theorem wifiRunner_running_iff (hconn : r.connectionInfo = some (level, speed))
    (hscan : r.scanFailed = false) :
    m.wifiRunner n r = .running m' ↔
      Loop.run (AccessPoints.Over (1 + r.ssids.length)) AccessPoints.removeLast n
        (AccessPoints.putFrom 1 r.ssids m.apn) = none ∧
      m' = { m with
        signalStrength := level, linkQuality := speed
        apn := Loop.after (AccessPoints.Over (1 + r.ssids.length)) AccessPoints.removeLast n
          (AccessPoints.putFrom 1 r.ssids m.apn) } := by
  simp only [wifiRunner, hconn, hscan, Bool.false_eq_true, if_false]
  split
  · rename_i apn' hrun
    simp [hrun]
  · rename_i hrun
    simp only [hrun, true_and]
    constructor
    · intro h
      cases h
      rfl
    · rintro rfl
      rfl

end Outcomes

end AndroidMonitor

/-! ## The scale of the signal -/

/-- The low bits of the reading decide: `q` is the distance from 110 dBm, modulo `2 ^ 26`. -/
theorem convertDbm_eq (d : Int) :
    ∃ q, (d - 110 - q) % 2 ^ 26 = 0 ∧ -2 ^ 25 ≤ q ∧ q < 2 ^ 25 ∧
      convertDbm d = if 0 ≤ q then -(64 * q / 158) else -(64 * q) / 158 := by
  have hlow : ∃ q, (d - 110 - q) % 2 ^ 26 = 0 ∧ -2 ^ 25 ≤ q ∧ q < 2 ^ 25 ∧
      wrap32 (wrap32 (d - 110) * (64 - 0)) = 64 * q := by
    refine ⟨(d - 110).bmod (2 ^ 26), ?_, ?_, ?_, ?_⟩
    all_goals simp only [wrap32, Int.bmod_def]; omega
  obtain ⟨q, hmod, hlo, hhi, hq⟩ := hlow
  refine ⟨q, hmod, hlo, hhi, ?_⟩
  have hdiv : (64 * q).tdiv (-48 - 110) = if 0 ≤ q then -(64 * q / 158) else -(64 * q) / 158 := by
    have hneg : (-48 - 110 : Int) = -158 := by decide
    rw [hneg, Int.tdiv_neg]
    split
    · rw [Int.tdiv_eq_ediv_of_nonneg (by omega)]
    · rw [← Int.neg_tdiv, Int.tdiv_eq_ediv_of_nonneg (by omega)]
  simp only [convertDbm]
  rw [hq, hdiv, add_zero]
  refine Int.bmod_eq_of_le ?_ ?_
  all_goals split <;> omega

/-- `cellRunner` gets to the signal `d` of the first cell. -/
def CellReading.Reports (r : CellReading) (d : Int) : Prop :=
  r.networkOperatorName.isSome ∧
    ∃ cellInfo cells, r.allCellInfo = some (cellInfo :: cells) ∧ cellInfo.dbm = d

/-- A reading of one cell on a device without an operator. -/
def cellReading (d : Int) : CellReading where
  networkOperatorName := some (some "")
  allCellInfo := some [.gsm d]
  sdkInt := 16
  granted := true
  networkOperator := none

theorem reports_cellReading (d : Int) : (cellReading d).Reports d := ⟨rfl, .gsm d, [], rfl, rfl⟩

namespace AndroidMonitor

variable (m : AndroidMonitor) {r : CellReading} {d : Int}

@[simp] theorem signalStrength_storeOperator (op : Text) :
    (m.storeOperator op).signalStrength = m.signalStrength := by
  unfold storeOperator
  repeat' split
  all_goals rfl

/-- Whatever follows, the signal is stored through `convertDbm`. -/
theorem signalStrength_cellRunner (h : r.Reports d) :
    (m.cellRunner r).signalStrength = convertDbm d := by
  obtain ⟨hname, cellInfo, cells, hcells, rfl⟩ := h
  obtain ⟨name, hname⟩ := Option.isSome_iff_exists.mp hname
  simp only [cellRunner, hname, hcells]
  split
  · rw [signalStrength_storeOperator]
    rfl
  · rfl

end AndroidMonitor

/-- The stored signal follows the documented scale for the readings in `S`: from 0 for -110 dBm to 64 for
-48 dBm. -/
structure OnScale (S : Set Int) : Prop where
  range : ∀ (m : AndroidMonitor) r, ∀ d ∈ S, r.Reports d →
    0 ≤ (m.cellRunner r).signalStrength ∧ (m.cellRunner r).signalStrength ≤ 64
  low : ∀ (m : AndroidMonitor) r, ∀ d ∈ S, r.Reports d → d ≤ -110 →
    (m.cellRunner r).signalStrength = 0
  high : ∀ (m : AndroidMonitor) r, ∀ d ∈ S, r.Reports d → -48 ≤ d →
    (m.cellRunner r).signalStrength = 64
  mono : ∀ (m m' : AndroidMonitor) r r', ∀ d ∈ S, ∀ d' ∈ S, r.Reports d → r'.Reports d' → d ≤ d' →
    (m.cellRunner r).signalStrength ≤ (m'.cellRunner r').signalStrength

/-- Which readings are on the scale: only some at its ends, and some at which the product wraps around. -/
def ScaledRight (d : Int) : Prop :=
  d = -50 ∨ d = -49 ∨ (d ≤ -110 ∧ (d - 108) % 2 ^ 26 < 5) ∨ (-48 ≤ d ∧ (d + 50) % 2 ^ 26 < 3)

/-- The values at the ends of the scale, by the low bits of the reading. -/
theorem value_zero_iff {q : Int} :
    (if 0 ≤ q then -(64 * q / 158) else -(64 * q) / 158) = 0 ↔ -2 ≤ q ∧ q ≤ 2 := by
  split <;> omega

theorem value_max_iff {q : Int} :
    (if 0 ≤ q then -(64 * q / 158) else -(64 * q) / 158) = 64 ↔ -160 ≤ q ∧ q ≤ -158 := by
  split <;> omega

theorem ScaledRight.value {d : Int} (h : ScaledRight d) : convertDbm d = if d ≤ -110 then 0 else 64 := by
  obtain ⟨q, hmod, hlo, hhi, hq⟩ := convertDbm_eq d
  unfold ScaledRight at h
  by_cases hl : d ≤ -110
  · rw [if_pos hl, hq, value_zero_iff]
    have hd : (d - 108) % 2 ^ 26 < 5 := by omega
    omega
  · rw [if_neg hl, hq, value_max_iff]
    have hd : (d + 50) % 2 ^ 26 < 3 := by omega
    omega

/-- A single reading whose value is right is one of these. -/
theorem scaledRight_of_value {d : Int} (h64 : convertDbm d ≤ 64) (hlow : d ≤ -110 → convertDbm d = 0)
    (hhigh : -48 ≤ d → convertDbm d = 64) : ScaledRight d := by
  obtain ⟨q, hmod, hlo, hhi, hq⟩ := convertDbm_eq d
  rw [hq, value_zero_iff] at hlow
  rw [hq, value_max_iff] at hhigh
  unfold ScaledRight
  by_cases hl : d ≤ -110
  · have hv := hlow hl
    omega
  · by_cases hh : -48 ≤ d
    · have hv := hhigh hh
      omega
    · -- between the ends nothing wraps around
      have hqd : q = d - 110 := by omega
      rw [hq, if_neg (by omega)] at h64
      omega

/-- **The scale of the signal**: exactly for which readings it is the documented one. -/
theorem onScale_iff (S : Set Int) : OnScale S ↔ ∀ d ∈ S, ScaledRight d := by
  constructor
  · intro h d hd
    have hr := reports_cellReading d
    have hv := AndroidMonitor.init.signalStrength_cellRunner hr
    have hrange := (h.range .init _ d hd hr).2
    have hlow := h.low .init _ d hd hr
    have hhigh := h.high .init _ d hd hr
    rw [hv] at hrange hlow hhigh
    exact scaledRight_of_value hrange hlow hhigh
  · intro h
    have hval : ∀ (m : AndroidMonitor) r, ∀ d ∈ S, r.Reports d →
        (m.cellRunner r).signalStrength = if d ≤ -110 then 0 else 64 := by
      intro m r d hd hr
      rw [m.signalStrength_cellRunner hr, (h d hd).value]
    refine ⟨?_, ?_, ?_, ?_⟩
    · intro m r d hd hr
      rw [hval m r d hd hr]
      split <;> omega
    · intro m r d hd hr hle
      rw [hval m r d hd hr, if_pos hle]
    · intro m r d hd hr hle
      rw [hval m r d hd hr, if_neg (by omega)]
    · intro m m' r r' d hd d' hd' hr hr' hle
      rw [hval m r d hd hr, hval m' r' d' hd' hr']
      split <;> split <;> omega

/-- The weakest signal of the scale is stored as 89. -/
theorem not_onScale_int : convertDbm (-110) = 89 ∧ ¬ OnScale {d | -2 ^ 31 ≤ d ∧ d < 2 ^ 31} := by
  have hv : convertDbm (-110) = 89 := by decide
  refine ⟨hv, ?_⟩
  intro h
  have hr := reports_cellReading (-110)
  have h0 := h.low .init _ (-110) (by decide) hr (by decide)
  rw [AndroidMonitor.init.signalStrength_cellRunner hr, hv] at h0
  exact absurd h0 (by decide)

end Lhcb
end QosSupport
