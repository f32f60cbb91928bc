import QosSupport.Lhcb.Json
import QosSupport.Lib.Loop
import QosSupport.Lib.Run
import Mathlib.Order.Bounds.Basic

/-!
# The pace of the runner thread

The runner thread of `ConnectivityMonitor` executes all runnables, measures how long they took and
sleeps until the next cycle. If they took longer than `sleepTime`, a loop takes off one period after the
other.

* `Skips.InStep`: the invariant of that loop. A whole number of periods was taken off, and none too many.
* `sleep_on_grid`: the loop ends, and the thread sleeps until the end of the first period that holds the
  measured duration. So the starts of all cycles are whole periods apart.
-/

namespace QosSupport
namespace Lhcb

/-- The value that a `long` keeps of an integer: its low 64 bits. -/
def wrap64 (n : Int) : Int := n.bmod (2 ^ 64)

theorem wrap64_of_bounds {n : Int} (h : -2 ^ 63 ≤ n) (h' : n < 2 ^ 63) : wrap64 n = n := by
  unfold wrap64
  exact Int.bmod_eq_of_le (by omega) (by omega)

/-- The difference of two values of the clock, whatever its origin. -/
theorem wrap64_sub (m n : Int) : wrap64 (wrap64 m - wrap64 n) = wrap64 (m - n) := by
  unfold wrap64
  rw [Int.bmod_sub_bmod, Int.sub_bmod_bmod]

/-! ## The loop -/

/-- The variables of the loop in `startRunner`: an `int` and a `long`. -/
structure Skips where
  skips : Int
  diff : Int

namespace Skips

variable {sleepTime : Int} {s s' : Skips}

/-- `sleepTime - diff < 0` -/
def Behind (sleepTime : Int) (s : Skips) : Prop := wrap64 (sleepTime - s.diff) < 0

instance (sleepTime : Int) : DecidablePred (Behind sleepTime) :=
  fun s => inferInstanceAs (Decidable (wrap64 (sleepTime - s.diff) < 0))

/-- `skips++; diff -= sleepTime;` -/
def skip (sleepTime : Int) (s : Skips) : Skips :=
  { skips := wrap32 (s.skips + 1), diff := wrap64 (s.diff - sleepTime) }

end Skips

/-- From the measured duration `diff`, the thread gets to `Thread.sleep(millis)`. -/
def Sleeps (sleepTime diff millis : Int) : Prop :=
  ∃ s : Skips, Loop.Ends (Skips.Behind sleepTime) (Skips.skip sleepTime) { skips := 0, diff := diff } s ∧
    millis = wrap64 (sleepTime - s.diff)

/-- What is left of the duration `diff` after some whole periods were taken off it. -/
structure Skips.InStep (sleepTime diff : Int) (s : Skips) : Prop where
  nonneg : 0 ≤ s.diff
  le : s.diff ≤ diff
  periods : sleepTime ∣ diff - s.diff
  -- nothing is left only if nothing was there
  pos : s.diff = diff ∨ 0 < s.diff

/-- A duration that the thread can measure, and a period that it can have. -/
structure Measured (sleepTime diff : Int) : Prop where
  sleepTime_pos : 0 < sleepTime
  sleepTime_int : sleepTime < 2 ^ 31
  diff_nonneg : 0 ≤ diff
  diff_long : diff < 2 ^ 63

namespace Skips

variable {sleepTime diff : Int} {s s' : Skips}

theorem inStep_init (hm : Measured sleepTime diff) : InStep sleepTime diff { skips := 0, diff := diff } where
  nonneg := hm.diff_nonneg
  le := le_rfl
  periods := by simp
  pos := .inl rfl

/-- Nothing wraps around. -/
theorem InStep.sub_eq (hm : Measured sleepTime diff) (h : InStep sleepTime diff s) :
    wrap64 (sleepTime - s.diff) = sleepTime - s.diff := by
  obtain ⟨hpos, hint, -, hlong⟩ := hm
  have h0 := h.nonneg
  have hle := h.le
  exact wrap64_of_bounds (by omega) (by omega)

theorem InStep.behind_iff (hm : Measured sleepTime diff) (h : InStep sleepTime diff s) :
    Behind sleepTime s ↔ sleepTime < s.diff := by
  rw [Behind, h.sub_eq hm]
  omega

/-- One round takes off one period. -/
theorem InStep.skip_diff (hm : Measured sleepTime diff) (h : InStep sleepTime diff s)
    (hb : Behind sleepTime s) : (skip sleepTime s).diff = s.diff - sleepTime := by
  have hlt := (h.behind_iff hm).mp hb
  obtain ⟨hpos, hint, -, hlong⟩ := hm
  have hle := h.le
  exact wrap64_of_bounds (by omega) (by omega)

theorem InStep.skip (hm : Measured sleepTime diff) (h : InStep sleepTime diff s)
    (hb : Behind sleepTime s) : InStep sleepTime diff (skip sleepTime s) := by
  have hlt := (h.behind_iff hm).mp hb
  have hpos := hm.sleepTime_pos
  have hle := h.le
  have hd := h.skip_diff hm hb
  refine ⟨by omega, by omega, ?_, .inr (by omega)⟩
  have heq : diff - (Skips.skip sleepTime s).diff = diff - s.diff + sleepTime := by omega
  rw [heq]
  exact Int.dvd_add h.periods (Int.dvd_refl _)

/-- The loop ends. -/
theorem ends (hm : Measured sleepTime diff) :
    ∃ s, Loop.Ends (Behind sleepTime) (Skips.skip sleepTime) { skips := 0, diff := diff } s ∧
      InStep sleepTime diff s ∧ ¬ Behind sleepTime s := by
  apply Loop.ends_of_measure (InStep sleepTime diff) (fun s => s.diff.toNat)
  · intro s h hb
    have hd := h.skip_diff hm hb
    have hlt := (h.behind_iff hm).mp hb
    have hpos := hm.sleepTime_pos
    exact ⟨h.skip hm hb, by omega⟩
  · exact inStep_init hm

end Skips

/-! ## Sleeping -/

section Sleeping

variable {sleepTime diff : Int}

/-- The ends of periods that are not before `diff`. -/
def periodEnds (sleepTime diff : Int) : Set Int := {k | 0 < k ∧ sleepTime ∣ k ∧ diff ≤ k}

/-- What is left when the loop ends is in the period that the thread sleeps to the end of. -/
theorem isLeast_periodEnds {s : Skips} (hpos : 0 < sleepTime) (h : s.InStep sleepTime diff)
    (hle : s.diff ≤ sleepTime) : IsLeast (periodEnds sleepTime diff) (diff + (sleepTime - s.diff)) := by
  have h0 := h.nonneg
  have hdiff := h.le
  obtain ⟨m, hm⟩ := h.periods
  have hsum : diff + (sleepTime - s.diff) = sleepTime * (m + 1) := by
    rw [mul_add, ← hm]
    omega
  refine ⟨⟨by omega, ⟨m + 1, hsum⟩, by omega⟩, ?_⟩
  rintro k ⟨hk, ⟨j, rfl⟩, hjk⟩
  rw [hsum]
  -- an earlier end would be before the duration
  have hmj : m < j := by
    by_contra hnot
    have hle : sleepTime * j ≤ sleepTime * m := Int.mul_le_mul_of_nonneg_left (by omega) (by omega)
    have hp := h.pos
    omega
  exact Int.mul_le_mul_of_nonneg_left (by omega) (by omega)

/-- The argument of `Thread.sleep`. -/
theorem sleeps (hm : Measured sleepTime diff) :
    ∃ millis, (∀ n, Sleeps sleepTime diff n ↔ n = millis) ∧ 0 ≤ millis ∧ millis ≤ sleepTime ∧
      IsLeast (periodEnds sleepTime diff) (diff + millis) := by
  obtain ⟨s, hends, hs, hnot⟩ := Skips.ends hm
  rw [hs.behind_iff hm] at hnot
  have h0 := hs.nonneg
  refine ⟨sleepTime - s.diff, ?_, by omega, by omega,
    isLeast_periodEnds hm.sleepTime_pos hs (by omega)⟩
  intro n
  constructor
  · rintro ⟨s', hends', rfl⟩
    rw [← hends.unique hends', hs.sub_eq hm]
  · rintro rfl
    exact ⟨s, hends, (hs.sub_eq hm).symm⟩

end Sleeping

/-! ## Cycles -/

/-- One cycle that starts at `t` and whose runnables take `busy` milliseconds: the duration is the
difference of two values of the clock. The next cycle starts when the thread has slept. -/
def cycle (sleepTime t busy t' : Int) : Prop :=
  ∃ millis, Sleeps sleepTime (wrap64 (wrap64 (t + busy) - wrap64 t)) millis ∧ t' = t + busy + millis

theorem measured_busy (t : Int) {busy : Int} (h : 0 ≤ busy) (h' : busy < 2 ^ 63) :
    wrap64 (wrap64 (t + busy) - wrap64 t) = busy := by
  rw [wrap64_sub, add_sub_cancel_left]
  exact wrap64_of_bounds (by omega) h'

/-- A cycle takes whole periods. -/
theorem dvd_of_cycle {sleepTime t busy t' : Int} (hm : Measured sleepTime busy)
    (h : cycle sleepTime t busy t') : sleepTime ∣ t' - t := by
  obtain ⟨millis, hs, rfl⟩ := h
  rw [measured_busy t hm.diff_nonneg hm.diff_long] at hs
  obtain ⟨n, hn, -, -, ⟨-, hdvd, -⟩, -⟩ := sleeps hm
  rw [(hn millis).mp hs]
  have heq : t + busy + n - t = busy + n := by omega
  rwa [heq]

theorem dvd_of_cycles {sleepTime t t' : Int} {busy : List Int}
    (h : Run.Steps (cycle sleepTime) (fun _ b => Measured sleepTime b) t busy t') :
    sleepTime ∣ t' - t := by
  refine h.inv (I := fun u => sleepTime ∣ u - t) ?_ (by simp)
  intro u b u' hu hm hst
  have heq : u' - t = (u' - u) + (u - t) := by omega
  rw [heq]
  exact Int.dvd_add (dvd_of_cycle hm hst) hu

/-- **The pace of the runner thread.** -/
theorem sleep_on_grid (sleepTime : Int) (hpos : 0 < sleepTime) (hint : sleepTime < 2 ^ 31) :
    (∀ diff, 0 ≤ diff → diff < 2 ^ 63 →
      ∃ millis, (∀ n, Sleeps sleepTime diff n ↔ n = millis) ∧ 0 ≤ millis ∧ millis ≤ sleepTime ∧
        IsLeast (periodEnds sleepTime diff) (diff + millis)) ∧
    (∀ t busy, 0 ≤ busy → busy < 2 ^ 63 → ∃ t', cycle sleepTime t busy t') ∧
    (∀ t t' busy, Run.Steps (cycle sleepTime) (fun _ b => 0 ≤ b ∧ b < 2 ^ 63) t busy t' →
      sleepTime ∣ t' - t) := by
  refine ⟨?_, ?_, ?_⟩
  · intro diff h0 hlong
    exact sleeps ⟨hpos, hint, h0, hlong⟩
  · intro t busy h0 hlong
    obtain ⟨millis, hs, -⟩ := sleeps ⟨hpos, hint, h0, hlong⟩
    refine ⟨t + busy + millis, millis, ?_, rfl⟩
    rw [measured_busy t h0 hlong]
    exact (hs millis).mpr rfl
  · intro t t' busy h
    refine dvd_of_cycles (h.mono ?_)
    rintro - b ⟨h0, hlong⟩
    exact ⟨hpos, hint, h0, hlong⟩

/-- With a period of two seconds, runnables that take 4.5 seconds are followed by 1.5 seconds of sleep. -/
theorem sleep_after_two_periods :
    (∃ millis, (∀ n, Sleeps 2000 4500 n ↔ n = millis) ∧ 0 ≤ millis ∧ millis ≤ 2000 ∧
      IsLeast (periodEnds 2000 4500) (4500 + millis)) ∧ Sleeps 2000 4500 1500 := by
  refine ⟨(sleep_on_grid 2000 (by decide) (by decide)).1 4500 (by decide) (by decide), ?_⟩
  exact ⟨⟨2, 500⟩, ⟨3, by rfl⟩, by rfl⟩

end Lhcb
end QosSupport
