import QosSupport.Lib.Run

/-!
# The connectivity monitor of a client

`ConnectivityMonitor` keeps what three runners read from the system, and tells its listener which
resources changed. What the runners compare is not what `read` returns: the size of the list of bearers
and the name of the first one instead of its code, tuples instead of codes.

* `Bearers.Coded`: the code of a bearer is the one of its name. It holds in every reachable state, and a
  bearer with the same name has the same code.
* `fires_changes`: in every reachable state, an execution fires every resource whose value it changes,
  and nothing if it reads the same as the last execution of its runner.
-/

namespace QosSupport
namespace Lhcb

/-! ## Bearers -/

/-- A network interface. -/
structure Interface where
  loopback : Bool
  displayName : String
  addresses : List String

/-- `Bearers`: names of interfaces with their codes, and the addresses, numbered from zero. -/
structure Bearers where
  bearers : List (String × Int)
  ips : List String

/-- `IFaceNameToId`, in the order of its keys. -/
def ifaceNameToId : List (String × Int) :=
  [("eth", 41), ("ens", 41), ("wlan", 21), ("wls", 21), ("rmnet0", 0), ("rmnet1", 1), ("rmnet2", 2),
   ("rmnet3", 5), ("rmnet", 6)]

/-- The code of the first key that the name starts with. -/
def bearerId (displayName : String) : Option Int :=
  (ifaceNameToId.find? fun entry => entry.1.toList.isPrefixOf displayName.toList).map (·.2)

/-- `getBearers`; a socket exception ends the list. -/
def getBearers (ifaces : List Interface) : Bearers :=
  let up := ifaces.filter fun iface => !iface.loopback
  { bearers := up.filterMap fun iface =>
      (bearerId iface.displayName).map fun bearer => (iface.displayName, bearer)
    ips := up.flatMap (·.addresses) }

namespace Bearers

/-- `getCurrentBearer` -/
def getCurrentBearer (b : Bearers) : Option (String × Int) := b.bearers.head?

/-- `getCurrentBearerInt` -/
def getCurrentBearerInt (b : Bearers) : Int :=
  match b.getCurrentBearer with
  | some currentBearer => currentBearer.2
  | none => -1

/-- `getBearersMap`, numbered from zero. -/
def getBearersMap (b : Bearers) : List Int := b.bearers.map (·.2)

/-- The code of each bearer is the one of its name. -/
def Coded (b : Bearers) : Prop := ∀ bearer ∈ b.bearers, bearerId bearer.1 = some bearer.2

theorem coded_getBearers (ifaces : List Interface) : (getBearers ifaces).Coded := by
  intro bearer hmem
  obtain ⟨iface, -, hcode⟩ := List.mem_filterMap.mp hmem
  obtain ⟨code, hid, rfl⟩ := Option.map_eq_some_iff.mp hcode
  exact hid

/-- The same current name means the same current code. -/
theorem currentBearerInt_congr {b b' : Bearers} (hb : b.Coded) (hb' : b'.Coded)
    (h : b.getCurrentBearer.map (·.1) = b'.getCurrentBearer.map (·.1)) :
    b.getCurrentBearerInt = b'.getCurrentBearerInt := by
  unfold getCurrentBearerInt getCurrentBearer at *
  cases hc : b.bearers with
  | nil =>
    cases hc' : b'.bearers with
    | nil => rfl
    | cons y ys => simp [hc, hc'] at h
  | cons x xs =>
    cases hc' : b'.bearers with
    | nil => simp [hc, hc'] at h
    | cons y ys =>
      have hname : x.1 = y.1 := by simpa [hc, hc'] using h
      have hx := hb x (by simp [hc])
      have hy := hb' y (by simp [hc'])
      rw [hname, hy] at hx
      exact (Option.some.inj hx).symm

end Bearers

/-! ## The monitor -/

structure Monitor where
  currentBearers : Bearers
  signalStrength : Int
  linkQuality : Int
  routerIps : List String
  linkUtilization : Int
  apn : List String
  cellId : Int
  smnc : Int
  smcc : Int

/-- A monitor before the first execution. -/
def Monitor.init : Monitor where
  currentBearers := { bearers := [], ips := [] }
  signalStrength := 64
  linkQuality := -1
  routerIps := []
  linkUtilization := -1
  apn := []
  cellId := -1
  smnc := -1
  smcc := -1

/-- The content of a read response. -/
inductive ReadContent where
  | integer (n : Int)
  | integers (ns : List Int)
  | strings (ss : List String)

inductive ReadResponse where
  | success (id : Nat) (content : ReadContent)
  | notFound

/-- A number that is `-1` is not there. -/
def readInt (id : Nat) (n : Int) : ReadResponse :=
  if n ≠ -1 then .success id (.integer n) else .notFound

/-- A map that is empty is not there. -/
def readMap (id : Nat) (ss : List String) : ReadResponse :=
  if 0 < ss.length then .success id (.strings ss) else .notFound

namespace Monitor

/-- `read` -/
def read (m : Monitor) : Nat → ReadResponse
  | 0 => .success 0 (.integer m.currentBearers.getCurrentBearerInt)
  | 1 => .success 1 (.integers m.currentBearers.getBearersMap)
  | 2 => readInt 2 m.signalStrength
  | 3 => readInt 3 m.linkQuality
  | 4 => readMap 4 m.currentBearers.ips
  | 5 => readMap 5 m.routerIps
  | 6 => readInt 6 m.linkUtilization
  | 7 => readMap 7 m.apn
  | 8 => readInt 8 m.cellId
  | 9 => readInt 9 m.smnc
  | 10 => readInt 10 m.smcc
  | _ => .notFound

/-- `iwconfigRunner`, with the link quality and the signal strength that the system reports for an
interface: the new state, and the resources that are fired. -/
def iwconfigRunner (m : Monitor) (lqss : String → Int × Int) : Monitor × List Nat :=
  match m.currentBearers.getCurrentBearer with
  | none => (m, [])
  | some cb =>
    ({ m with linkQuality := (lqss cb.1).1, signalStrength := (lqss cb.1).2 },
      (if m.linkQuality ≠ (lqss cb.1).1 then [3] else []) ++
        if m.signalStrength ≠ (lqss cb.1).2 then [2] else [])

/-- The current bearer is taken to have changed: there are more or fewer bearers, or the first one has
another name. -/
def bearerChanged (old new : Bearers) : Prop :=
  new.bearers.length ≠ old.bearers.length ∨
    (0 < new.bearers.length ∧ new.getCurrentBearer.map (·.1) ≠ old.getCurrentBearer.map (·.1))

instance (old new : Bearers) : Decidable (bearerChanged old new) :=
  inferInstanceAs (Decidable (_ ∨ _))

/-- `ipRunner` -/
def ipRunner (m : Monitor) (ifaces : List Interface) : Monitor × List Nat :=
  let bearers := getBearers ifaces
  ({ m with currentBearers := bearers },
    (if bearers.ips ≠ m.currentBearers.ips then [4] else []) ++
      (if bearerChanged m.currentBearers bearers then [0] else []) ++
        if bearers.bearers ≠ m.currentBearers.bearers then [1] else [])

/-- `gatewayRunner` -/
def gatewayRunner (m : Monitor) (newGatewayIPs : List String) : Monitor × List Nat :=
  if newGatewayIPs ≠ m.routerIps then ({ m with routerIps := newGatewayIPs }, [5]) else (m, [])

end Monitor

/-! ## Executions -/

/-- One execution of a runner, with what the system would answer. -/
inductive Execution where
  | ip (ifaces : List Interface)
  | gateway (newGatewayIPs : List String)
  | iwconfig (lqss : String → Int × Int)

inductive Runner where
  | ip | gateway | iwconfig
  deriving DecidableEq

def Execution.runner : Execution → Runner
  | .ip _ => .ip
  | .gateway _ => .gateway
  | .iwconfig _ => .iwconfig

/-- What an execution reads. -/
inductive Reading where
  | interfaces (ifaces : List Interface)
  | gateways (ips : List String)
  /-- Nothing if there is no current bearer. -/
  | link (lqss : Option (Int × Int))

/-- What an execution reads in a state of the monitor. -/
def Execution.reading (m : Monitor) : Execution → Reading
  | .ip ifaces => .interfaces ifaces
  | .gateway newGatewayIPs => .gateways newGatewayIPs
  | .iwconfig lqss => .link (m.currentBearers.getCurrentBearer.map fun cb => lqss cb.1)

/-- The state after an execution, and what it fired. -/
def Monitor.run (m : Monitor) : Execution → Monitor × List Nat
  | .ip ifaces => m.ipRunner ifaces
  | .gateway newGatewayIPs => m.gatewayRunner newGatewayIPs
  | .iwconfig lqss => m.iwconfigRunner lqss

/-- A monitor, with what the last execution of each runner read. -/
structure Watched where
  monitor : Monitor
  last : Runner → Option Reading

def Watched.init : Watched := { monitor := .init, last := fun _ => none }

def Watched.step (s : Watched) (x : Execution) (s' : Watched) : Prop :=
  s' = { monitor := (s.monitor.run x).1
         last := fun r => if r = x.runner then some (x.reading s.monitor) else s.last r }

/-- The monitor holds what its runners read last. -/
structure Watched.UpToDate (s : Watched) : Prop where
  coded : s.monitor.currentBearers.Coded
  ip : ∀ ifaces, s.last .ip = some (.interfaces ifaces) →
    s.monitor.currentBearers = getBearers ifaces
  gateway : ∀ ips, s.last .gateway = some (.gateways ips) → s.monitor.routerIps = ips
  iwconfig : ∀ lqss, s.last .iwconfig = some (.link (some lqss)) →
    s.monitor.linkQuality = lqss.1 ∧ s.monitor.signalStrength = lqss.2

theorem gatewayRunner_fst (m : Monitor) (ips : List String) :
    (m.gatewayRunner ips).1 = { m with routerIps := ips } := by
  unfold Monitor.gatewayRunner
  split
  · rfl
  · rename_i h
    have heq : ips = m.routerIps := by simpa using h
    rw [heq]

theorem upToDate_init : Watched.init.UpToDate where
  coded := by simp [Bearers.Coded, Watched.init, Monitor.init]
  ip := by simp [Watched.init]
  gateway := by simp [Watched.init]
  iwconfig := by simp [Watched.init]

theorem upToDate_step {s s' : Watched} {x : Execution} (h : s.UpToDate) (hst : s.step x s') :
    s'.UpToDate := by
  obtain rfl := hst
  cases x with
  | ip ifaces =>
    simp only [Monitor.run, Monitor.ipRunner]
    refine ⟨Bearers.coded_getBearers ifaces, ?_, ?_, ?_⟩
    · rintro l hl
      cases hl
      rfl
    · simpa [Execution.runner] using h.gateway
    · simpa [Execution.runner] using h.iwconfig
  | gateway ips =>
    simp only [Monitor.run, gatewayRunner_fst]
    refine ⟨h.coded, ?_, ?_, ?_⟩
    · simpa [Execution.runner] using h.ip
    · rintro l hl
      cases hl
      rfl
    · simpa [Execution.runner] using h.iwconfig
  | iwconfig lqss =>
    cases hcb : s.monitor.currentBearers.getCurrentBearer with
    | none =>
      simp only [Monitor.run, Monitor.iwconfigRunner, Execution.reading, hcb, Option.map_none]
      refine ⟨h.coded, ?_, ?_, ?_⟩
      · simpa [Execution.runner] using h.ip
      · simpa [Execution.runner] using h.gateway
      · rintro l hl
        cases hl
    | some cb =>
      simp only [Monitor.run, Monitor.iwconfigRunner, Execution.reading, hcb, Option.map_some]
      refine ⟨h.coded, ?_, ?_, ?_⟩
      · simpa [Execution.runner] using h.ip
      · simpa [Execution.runner] using h.gateway
      · rintro l hl
        cases hl
        exact ⟨rfl, rfl⟩

theorem upToDate_of_runs {xs : List Execution} {s : Watched}
    (h : Run.Steps Watched.step Run.Any .init xs s) : s.UpToDate :=
  h.inv (fun _ _ _ hi _ hst => upToDate_step hi hst) upToDate_init

/-! ## What is fired -/

section Fired

variable {m : Monitor} {r : Nat}

/-- A current bearer that is taken to be the same has the same code. -/
theorem currentBearerInt_of_not_changed {old new : Bearers} (ho : old.Coded) (hn : new.Coded)
    (h : ¬ Monitor.bearerChanged old new) : new.getCurrentBearerInt = old.getCurrentBearerInt := by
  unfold Monitor.bearerChanged at h
  obtain ⟨hlen, hname⟩ := not_or.mp h
  refine Bearers.currentBearerInt_congr hn ho ?_
  by_cases hpos : 0 < new.bearers.length
  · exact by simpa [hpos] using hname
  · -- Both lists are empty.
    have hlen : new.bearers.length = old.bearers.length := by simpa using hlen
    have hnew : new.bearers = [] := List.length_eq_zero_iff.mp (by omega)
    have hold : old.bearers = [] := List.length_eq_zero_iff.mp (by omega)
    simp [Bearers.getCurrentBearer, hnew, hold]

theorem fired_ip (hm : m.currentBearers.Coded) (ifaces : List Interface) (hr : r ≤ 5)
    (hne : (m.ipRunner ifaces).1.read r ≠ m.read r) : r ∈ (m.ipRunner ifaces).2 := by
  have hcode := fun h => currentBearerInt_of_not_changed hm (Bearers.coded_getBearers ifaces) h
  simp only [Monitor.ipRunner, List.mem_append] at hne ⊢
  match r with
  | 0 =>
    refine .inl (.inr ?_)
    split
    · exact List.mem_singleton.mpr rfl
    · rename_i h
      simp [Monitor.read, hcode h] at hne
  | 1 =>
    refine .inr ?_
    split
    · exact List.mem_singleton.mpr rfl
    · rename_i h
      have heq : (getBearers ifaces).bearers = m.currentBearers.bearers := by simpa using h
      simp [Monitor.read, Bearers.getBearersMap, heq] at hne
  | 4 =>
    refine .inl (.inl ?_)
    split
    · exact List.mem_singleton.mpr rfl
    · rename_i h
      have heq : (getBearers ifaces).ips = m.currentBearers.ips := by simpa using h
      simp [Monitor.read, heq] at hne
  | 2 | 3 | 5 => exact absurd rfl hne

theorem fired_gateway (ips : List String) (hr : r ≤ 5)
    (hne : (m.gatewayRunner ips).1.read r ≠ m.read r) : r ∈ (m.gatewayRunner ips).2 := by
  unfold Monitor.gatewayRunner at hne ⊢
  split
  · rename_i h
    rw [if_pos h] at hne
    match r with
    | 5 => exact List.mem_singleton.mpr rfl
    | 0 | 1 | 2 | 3 | 4 => exact absurd rfl hne
  · rename_i h
    rw [if_neg h] at hne
    exact absurd rfl hne

theorem fired_iwconfig (lqss : String → Int × Int) (hr : r ≤ 5)
    (hne : (m.iwconfigRunner lqss).1.read r ≠ m.read r) : r ∈ (m.iwconfigRunner lqss).2 := by
  unfold Monitor.iwconfigRunner at hne ⊢
  cases hcb : m.currentBearers.getCurrentBearer with
  | none =>
    simp only [hcb] at hne
    exact absurd rfl hne
  | some cb =>
    simp only [hcb, List.mem_append] at hne ⊢
    match r with
    | 2 =>
      refine .inr ?_
      split
      · exact List.mem_singleton.mpr rfl
      · rename_i h
        have heq : m.signalStrength = (lqss cb.1).2 := by simpa using h
        simp [Monitor.read, heq] at hne
    | 3 =>
      refine .inl ?_
      split
      · exact List.mem_singleton.mpr rfl
      · rename_i h
        have heq : m.linkQuality = (lqss cb.1).1 := by simpa using h
        simp [Monitor.read, heq] at hne
    | 0 | 1 | 4 | 5 => exact absurd rfl hne

end Fired

/-- An execution that reads what the last one of its runner read fires nothing. -/
theorem quiet_of_same {s : Watched} {x : Execution} (h : s.UpToDate)
    (hlast : s.last x.runner = some (x.reading s.monitor)) : (s.monitor.run x).2 = [] := by
  cases x with
  | ip ifaces =>
    have heq := h.ip ifaces hlast
    simp [Monitor.run, Monitor.ipRunner, Monitor.bearerChanged, heq]
  | gateway ips =>
    have heq := h.gateway ips hlast
    simp [Monitor.run, Monitor.gatewayRunner, heq]
  | iwconfig lqss =>
    cases hcb : s.monitor.currentBearers.getCurrentBearer with
    | none => simp [Monitor.run, Monitor.iwconfigRunner, hcb]
    | some cb =>
      simp only [Execution.runner, Execution.reading, hcb, Option.map_some] at hlast
      obtain ⟨hlq, hss⟩ := h.iwconfig _ hlast
      simp [Monitor.run, Monitor.iwconfigRunner, hcb, hlq, hss]

/-- **Notifications of the monitor**, in every reachable state. -/
theorem fires_changes (xs : List Execution) (s : Watched)
    (hrun : Run.Steps Watched.step Run.Any .init xs s) (x : Execution) :
    (∀ r ≤ 5, (s.monitor.run x).1.read r ≠ s.monitor.read r → r ∈ (s.monitor.run x).2) ∧
    (s.last x.runner = some (x.reading s.monitor) → (s.monitor.run x).2 = []) := by
  have hup := upToDate_of_runs hrun
  refine ⟨fun r hr hne => ?_, quiet_of_same hup⟩
  cases x with
  | ip ifaces => exact fired_ip hup.coded ifaces hr hne
  | gateway ips => exact fired_gateway ips hr hne
  | iwconfig lqss => exact fired_iwconfig lqss hr hne

/-- A monitor that read a wired interface. -/
def wired : Watched where
  monitor := (Monitor.init.ipRunner [⟨false, "eth0", ["10.0.0.2"]⟩]).1
  last r := if r = .ip then some (.interfaces [⟨false, "eth0", ["10.0.0.2"]⟩]) else none

/-- A change to a wireless interface fires the current bearer, and reading the same again nothing. -/
theorem wired_fires :
    wired.monitor.read 0 = .success 0 (.integer 41) ∧
    0 ∈ (wired.monitor.run (.ip [⟨false, "wlan0", ["10.0.0.2"]⟩])).2 ∧
    (wired.monitor.run (.ip [⟨false, "eth0", ["10.0.0.2"]⟩])).2 = [] := by
  have hrun : Run.Steps Watched.step Run.Any .init [.ip [⟨false, "eth0", ["10.0.0.2"]⟩]] wired :=
    .one trivial rfl
  refine ⟨rfl, (fires_changes _ _ hrun _).1 0 (by decide) ?_, (fires_changes _ _ hrun _).2 rfl⟩
  intro h
  have hcode : (21 : Int) = 41 := ReadContent.integer.inj (ReadResponse.success.inj h).2
  exact absurd hcode (by decide)

end Lhcb
end QosSupport
