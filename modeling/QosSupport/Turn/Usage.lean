import QosSupport.Lib.Run
import Mathlib.Tactic.Linarith
import Mathlib.Tactic.Positivity

/-!
# The load of a TURN server (`broker/coturn/src/apps/relay/broker.c`)

Each `register_to_db` publishes three figures: the usage of the CPU since the call before, and how full the
memory and the swap are. The counters are `unsigned long`s of 64 bits; the CPU figure is a quotient that is
taken exactly here.

* `getCpuUsage`: keeps the counters of the last call, and reads them once more in the first call.
* `memUsage`: the difference is turned into a `long long`, whose product with 100 may overflow, and back.
  There is no test for a total of zero.
* `getCpuUsage_spec`, `memUsage_ok_iff`: what each figure is, and when it is defined.
* `published_iff`: over all sequences of calls, exactly when the three figures are defined and in range.
-/

namespace QosSupport
namespace Turn

/-! ## Figures -/

/-- The difference of two `unsigned long`s. -/
def sub64 (a b : Nat) : Nat := (a + 2 ^ 64 - b) % 2 ^ 64

/-- Their sum. -/
def add64 (a b : Nat) : Nat := (a + b) % 2 ^ 64

/-- The first line of `/proc/stat`. -/
structure Stat where
  user : Nat
  userLow : Nat
  sys : Nat
  idle : Nat
  sum_lt : user + userLow + sys + idle < 2 ^ 64

/-- Some counter is below the one before. -/
def Stat.Backwards (last now : Stat) : Prop :=
  now.user < last.user ∨ now.userLow < last.userLow ∨ now.sys < last.sys ∨ now.idle < last.idle

instance (last now : Stat) : Decidable (last.Backwards now) := inferInstanceAs (Decidable (_ ∨ _))

/-- `getCpuUsage`. The state is absent before the first call, which reads `baseline` first. -/
def getCpuUsage (state : Option Stat) (baseline now : Stat) : ℚ × Option Stat :=
  let last := state.getD baseline
  let percent : ℚ :=
    if last.Backwards now then -1
    else
      let busy := add64 (add64 (sub64 now.user last.user) (sub64 now.userLow last.userLow))
        (sub64 now.sys last.sys)
      let total := add64 busy (sub64 now.idle last.idle)
      if total ≠ 0 then (busy : ℚ) * 100 / total else 0
  (percent, some now)

/-- What `sysinfo` returns. -/
structure Sysinfo where
  totalram : Nat
  freeram : Nat
  totalswap : Nat
  freeswap : Nat
  freeram_le : freeram ≤ totalram
  totalram_lt : totalram < 2 ^ 64
  freeswap_le : freeswap ≤ totalswap
  totalswap_lt : totalswap < 2 ^ 64

/-- How a computation is not defined. -/
inductive Fault where
  | signedOverflow
  | divideByZero
  deriving DecidableEq

/-- What is used, as a `long long`. -/
def memUsed (total free : Nat) : Int := (sub64 total free : Int).bmod (2 ^ 64)

/-- `memUsed * 100 / total`: a product of `long long`s, and a quotient of `unsigned long long`s. -/
def memUsage (total free : Nat) : Except Fault ℚ :=
  if memUsed total free * 100 < -2 ^ 63 ∨ 2 ^ 63 ≤ memUsed total free * 100 then .error .signedOverflow
  else if total = 0 then .error .divideByZero
  else .ok ((memUsed total free * 100 % 2 ^ 64).toNat / total : Nat)

/-- `getPhysMemUsage` -/
def getPhysMemUsage (memInfo : Sysinfo) : Except Fault ℚ := memUsage memInfo.totalram memInfo.freeram

/-- `getSwapMemUsage` -/
def getSwapMemUsage (memInfo : Sysinfo) : Except Fault ℚ := memUsage memInfo.totalswap memInfo.freeswap

/-- What one call of `register_to_db` reads; `sysinfo` is called twice. -/
structure Call where
  baseline : Stat
  now : Stat
  phys : Sysinfo
  swap : Sysinfo

structure Figures where
  cpu : ℚ
  physMem : ℚ
  swapMem : ℚ

/-- The figures of one call of `register_to_db`. A fault kills the server. -/
def figures (state : Option Stat) (call : Call) : Except Fault (Figures × Option Stat) := do
  let (cpu, state') := getCpuUsage state call.baseline call.now
  let physMem ← getPhysMemUsage call.phys
  let swapMem ← getSwapMemUsage call.swap
  return ({ cpu := cpu, physMem := physMem, swapMem := swapMem }, state')

/-- One call. -/
def registers (state : Option Stat) (call : Call) (state' : Option Stat) : Prop :=
  ∃ figs, figures state call = .ok (figs, state')

/-! ## The usage of the CPU -/

section Cpu

variable {last now : Stat}

theorem sub64_of_le {a b : Nat} (hle : b ≤ a) (hlt : a < 2 ^ 64) : sub64 a b = a - b := by
  unfold sub64
  omega

theorem add64_of_lt {a b : Nat} (hlt : a + b < 2 ^ 64) : add64 a b = a + b := Nat.mod_eq_of_lt hlt

/-- Nothing wraps around unless a counter is below the one before. -/
theorem busy_eq (h : ¬ last.Backwards now) :
    add64 (add64 (sub64 now.user last.user) (sub64 now.userLow last.userLow)) (sub64 now.sys last.sys) =
      (now.user - last.user) + (now.userLow - last.userLow) + (now.sys - last.sys) := by
  have hsum := now.sum_lt
  unfold Stat.Backwards at h
  rw [sub64_of_le (by omega) (by omega), sub64_of_le (by omega) (by omega),
    sub64_of_le (by omega) (by omega), add64_of_lt (b := now.userLow - last.userLow) (by omega),
    add64_of_lt (by omega)]

theorem percent_range {busy total : Nat} (hle : busy ≤ total) :
    0 ≤ (if total ≠ 0 then (busy : ℚ) * 100 / total else 0) ∧
      (if total ≠ 0 then (busy : ℚ) * 100 / total else 0) ≤ 100 := by
  by_cases h0 : total = 0
  · simp [h0]
  · have hpos : (0 : ℚ) < total := by
      have := Nat.pos_of_ne_zero h0
      exact_mod_cast this
    have hle' : (busy : ℚ) ≤ total := by exact_mod_cast hle
    rw [if_pos h0]
    refine ⟨by positivity, ?_⟩
    rw [div_le_iff₀ hpos]
    linarith

/-- The figure is `-1`, or a percentage. -/
theorem getCpuUsage_spec (state : Option Stat) (baseline now : Stat) :
    ((getCpuUsage state baseline now).1 = -1 ↔ (state.getD baseline).Backwards now) ∧
    (¬ (state.getD baseline).Backwards now →
      0 ≤ (getCpuUsage state baseline now).1 ∧ (getCpuUsage state baseline now).1 ≤ 100) := by
  by_cases hb : (state.getD baseline).Backwards now
  · simp [getCpuUsage, hb]
  · have hsum := now.sum_lt
    have hrange : 0 ≤ (getCpuUsage state baseline now).1 ∧ (getCpuUsage state baseline now).1 ≤ 100 := by
      have hb' := hb
      unfold Stat.Backwards at hb'
      simp only [getCpuUsage, if_neg hb]
      refine percent_range ?_
      rw [busy_eq hb, sub64_of_le (a := now.idle) (by omega) (by omega), add64_of_lt (by omega)]
      omega
    refine ⟨?_, fun _ => hrange⟩
    simp only [hb, iff_false]
    intro h
    rw [h] at hrange
    exact absurd hrange.1 (by norm_num)

end Cpu

/-! ## The usage of memory -/

/-- There is something to use, and what is used can be multiplied by 100 in a `long long`: it is small, or
so large that it is taken for a small negative number. -/
def Measurable (total free : Nat) : Prop :=
  total ≠ 0 ∧ (100 * (total - free) < 2 ^ 63 ∨ 100 * (2 ^ 64 - (total - free)) ≤ 2 ^ 63)

section Memory

variable {total free : Nat}

/-- From `2 ^ 63` on, an `unsigned long` is taken for a negative number. -/
theorem bmod_cases {u : Nat} (hlt : u < 2 ^ 64) :
    (u < 2 ^ 63 ∧ (u : Int).bmod (2 ^ 64) = u) ∨
      (2 ^ 63 ≤ u ∧ (u : Int).bmod (2 ^ 64) = (u : Int) - 2 ^ 64) := by
  rw [Int.bmod_def]
  split
  · left
    omega
  · right
    omega

theorem memUsed_cases (hle : free ≤ total) (hlt : total < 2 ^ 64) :
    (total - free < 2 ^ 63 ∧ memUsed total free = ((total - free : Nat) : Int)) ∨
      (2 ^ 63 ≤ total - free ∧ memUsed total free = ((total - free : Nat) : Int) - 2 ^ 64) := by
  have hused : memUsed total free = ((total - free : Nat) : Int).bmod (2 ^ 64) := by
    unfold memUsed
    rw [sub64_of_le hle hlt]
  rw [hused]
  exact bmod_cases (by omega)

/-- When the product does not overflow. -/
theorem no_overflow_iff (hle : free ≤ total) (hlt : total < 2 ^ 64) :
    ¬ (memUsed total free * 100 < -2 ^ 63 ∨ 2 ^ 63 ≤ memUsed total free * 100) ↔
      (100 * (total - free) < 2 ^ 63 ∨ 100 * (2 ^ 64 - (total - free)) ≤ 2 ^ 63) := by
  have hcases := memUsed_cases hle hlt
  omega

/-- The dividend is at most the one of 100 percent. -/
theorem dividend_le (hle : free ≤ total) (hlt : total < 2 ^ 64) :
    (memUsed total free * 100 % 2 ^ 64).toNat ≤ total * 100 := by
  have hcases := memUsed_cases hle hlt
  omega

/-- When the figure is defined. -/
theorem memUsage_ok_iff (hle : free ≤ total) (hlt : total < 2 ^ 64) (q : ℚ) :
    memUsage total free = .ok q ↔
      Measurable total free ∧ q = ((memUsed total free * 100 % 2 ^ 64).toNat / total : Nat) := by
  have hfits := no_overflow_iff hle hlt
  unfold memUsage Measurable
  rw [← hfits]
  split
  · rename_i hover
    refine iff_of_false ?_ fun h => h.1.2 hover
    intro h
    cases h
  · rename_i hover
    by_cases h0 : total = 0
    · simp [h0]
    · rw [if_neg h0]
      simp only [hover, h0, ne_eq, not_false_iff, true_and, Except.ok.injEq]
      exact eq_comm

/-- A figure that is defined is a percentage. -/
theorem memUsage_range (hle : free ≤ total) (hlt : total < 2 ^ 64) {q : ℚ}
    (h : memUsage total free = .ok q) : 0 ≤ q ∧ q ≤ 100 := by
  obtain ⟨-, rfl⟩ := (memUsage_ok_iff hle hlt q).mp h
  refine ⟨Nat.cast_nonneg _, ?_⟩
  have hdiv := Nat.div_le_of_le_mul (dividend_le hle hlt)
  exact_mod_cast hdiv

end Memory

/-! ## Calls -/

/-- The figures of one call are in range. -/
structure InRange (state : Option Stat) (call : Call) (figs : Figures) : Prop where
  physMem : 0 ≤ figs.physMem ∧ figs.physMem ≤ 100
  swapMem : 0 ≤ figs.swapMem ∧ figs.swapMem ≤ 100
  cpu_skipped : figs.cpu = -1 ↔ (state.getD call.baseline).Backwards call.now
  cpu : ¬ (state.getD call.baseline).Backwards call.now → 0 ≤ figs.cpu ∧ figs.cpu ≤ 100

/-- The figures of one call are defined and in range. -/
def Published (state : Option Stat) (call : Call) : Prop :=
  ∃ figs state', figures state call = .ok (figs, state') ∧ InRange state call figs

/-- The memory and the swap can be measured. -/
def Call.Measurable (call : Call) : Prop :=
  Turn.Measurable call.phys.totalram call.phys.freeram ∧
    Turn.Measurable call.swap.totalswap call.swap.freeswap

section Calls

variable {state state' : Option Stat} {call : Call} {figs : Figures}

theorem figures_ok_iff : figures state call = .ok (figs, state') ↔
    getPhysMemUsage call.phys = .ok figs.physMem ∧ getSwapMemUsage call.swap = .ok figs.swapMem ∧
      figs.cpu = (getCpuUsage state call.baseline call.now).1 ∧ state' = some call.now := by
  unfold figures
  cases hphys : getPhysMemUsage call.phys with
  | error fault => simp [bind, Except.bind]
  | ok physMem =>
    cases hswap : getSwapMemUsage call.swap with
    | error fault => simp [bind, Except.bind]
    | ok swapMem =>
      obtain ⟨cpu, phys, swap⟩ := figs
      simp only [bind, Except.bind, pure, Except.pure, Except.ok.injEq, Prod.mk.injEq, Figures.mk.injEq,
        getCpuUsage]
      constructor
      · rintro ⟨⟨rfl, rfl, rfl⟩, rfl⟩
        exact ⟨rfl, rfl, rfl, rfl⟩
      · rintro ⟨rfl, rfl, rfl, rfl⟩
        exact ⟨⟨rfl, rfl, rfl⟩, rfl⟩

/-- The counters are kept for the next call. -/
theorem state_of_registers (h : registers state call state') : state' = some call.now := by
  obtain ⟨figs, h⟩ := h
  exact (figures_ok_iff.mp h).2.2.2

theorem published_iff_measurable : Published state call ↔ call.Measurable := by
  have hphys := call.phys.freeram_le
  have hphys' := call.phys.totalram_lt
  have hswap := call.swap.freeswap_le
  have hswap' := call.swap.totalswap_lt
  constructor
  · rintro ⟨figs, state', h, -⟩
    obtain ⟨h1, h2, -⟩ := figures_ok_iff.mp h
    exact ⟨((memUsage_ok_iff hphys hphys' _).mp h1).1, ((memUsage_ok_iff hswap hswap' _).mp h2).1⟩
  · rintro ⟨h1, h2⟩
    have hp := (memUsage_ok_iff hphys hphys' _).mpr ⟨h1, rfl⟩
    have hs := (memUsage_ok_iff hswap hswap' _).mpr ⟨h2, rfl⟩
    obtain ⟨hskip, hcpu⟩ := getCpuUsage_spec state call.baseline call.now
    refine ⟨⟨_, _, _⟩, some call.now, figures_ok_iff.mpr ⟨hp, hs, rfl, rfl⟩, ?_⟩
    exact ⟨memUsage_range hphys hphys' hp, memUsage_range hswap hswap' hs, hskip, hcpu⟩

/-- After some calls, the state is what the last one read. -/
theorem state_of_calls {P : Option Stat → Call → Prop} {calls : List Call}
    (h : Run.Steps registers P state calls state') :
    state' = (calls.getLast?.map (·.now)).or state := by
  induction h with
  | nil s => rfl
  | @cons s s₁ s' call calls hP hst _ ih =>
    rw [ih, state_of_registers hst, List.getLast?_cons]
    cases calls.getLast? <;> rfl

end Calls

/-- **The load of a TURN server**, over all sequences of calls: the figures are defined and in range exactly
if the memory and the swap of every call can be measured. The usage of the CPU is always in range; it is
skipped if a counter is below the one of the call before. -/
theorem published_iff (calls : List Call) (state : Option Stat) :
    (Run.Steps registers (fun _ call => call.Measurable) none calls state ↔
      Run.Steps registers Published none calls state) ∧
    (Run.Steps registers Run.Any none calls state →
      state = calls.getLast?.map (·.now) ∧ ∀ call, Published state call ↔ call.Measurable) := by
  refine ⟨?_, ?_⟩
  · exact Run.Steps.congr_all fun _ _ => published_iff_measurable.symm
  · intro h
    refine ⟨?_, fun call => published_iff_measurable⟩
    rw [state_of_calls h, Option.or_none]

/-- A host with one gigabyte of memory and no swap. -/
def noSwap : Sysinfo where
  totalram := 2 ^ 30
  freeram := 2 ^ 29
  totalswap := 0
  freeswap := 0
  freeram_le := by decide
  totalram_lt := by decide
  freeswap_le := by decide
  totalswap_lt := by decide

/-- The first call there. -/
def noSwapCall : Call where
  baseline := { user := 100, userLow := 0, sys := 50, idle := 850, sum_lt := by decide }
  now := { user := 103, userLow := 0, sys := 51, idle := 856, sum_lt := by decide }
  phys := noSwap
  swap := noSwap

/-- It divides by zero. -/
theorem no_swap_divides_by_zero :
    figures none noSwapCall = .error .divideByZero ∧ ¬ Published none noSwapCall := by
  have hphys := (memUsage_ok_iff noSwap.freeram_le noSwap.totalram_lt _).mpr
    ⟨⟨by decide, .inl (by decide)⟩, rfl⟩
  have hswap : memUsage noSwap.totalswap noSwap.freeswap = .error .divideByZero := by
    have hused := memUsed_cases noSwap.freeswap_le noSwap.totalswap_lt
    have hzero : memUsed noSwap.totalswap noSwap.freeswap = 0 := by
      simp only [noSwap] at hused ⊢
      omega
    rw [memUsage, hzero]
    rfl
  have hfault : figures none noSwapCall = .error .divideByZero := by
    simp only [figures, getPhysMemUsage, getSwapMemUsage, noSwapCall, hphys, hswap, bind, Except.bind]
  refine ⟨hfault, ?_⟩
  rintro ⟨figs, state', h, -⟩
  rw [hfault] at h
  cases h

end Turn
end QosSupport
