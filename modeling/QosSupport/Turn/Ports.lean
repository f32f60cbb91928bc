import QosSupport.Lib.Loop
import QosSupport.Lib.Run
import Mathlib.Algebra.Order.Interval.Finset.SuccPred
import Mathlib.Algebra.Group.Nat.Even
import Mathlib.Order.Interval.Finset.Nat

/-!
# The relay ports of a TURN server (`broker/coturn/src/apps/relay/turn_ports.c`)

The free ports of an address are in a queue: `ports` is a ring of 2^16 cells, and the positions from `low`
to `high` are in use. `status` has, for each port, its position in the queue or how it is taken. A port that
is taken together with the even one before it stays in the queue, and its entry there is stale.

* `Turnports.allocate`, `allocateEven`, `release`: as the code computes them. Positions are of 32 bits, an
  `int` port is `-1` if there is none, and `release` takes the low 16 bits of it.
* `Turnports.Consistent`: the invariant. Every free port has one entry, and each odd port at most one stale
  entry, which is older than the entry of the even port before it.
* `Consistent.queue_le`: so the ring does not overflow if the range is not too large.
* `allocate_cases`: what one allocation does.
-/

namespace QosSupport
namespace Turn

/-! ## The table -/

/-- `TPS_OUT_OF_RANGE` -/
def outOfRange : Nat := 2 ^ 32 - 1

/-- `TPS_TAKEN_SINGLE` -/
def takenSingle : Nat := 2 ^ 32 - 2

/-- `TPS_TAKEN_EVEN` -/
def takenEven : Nat := 2 ^ 32 - 3

/-- `TPS_TAKEN_ODD` -/
def takenOdd : Nat := 2 ^ 32 - 4

/-- `is_taken` -/
def IsTaken (status : Nat) : Prop := status = takenSingle ∨ status = takenEven ∨ status = takenOdd

instance (status : Nat) : Decidable (IsTaken status) := inferInstanceAs (Decidable (_ ∨ _ ∨ _))

/-- The struct `turnports`. -/
structure Turnports where
  status : Nat → Nat
  low : Nat
  high : Nat
  rangeStart : Nat
  rangeStop : Nat
  ports : Nat → Nat

namespace Turnports

variable {tp tp' : Turnports} {p q : Nat}

/-- `ports[(u16bits)(pos & 0x0000FFFF)]` -/
def entry (tp : Turnports) (pos : Nat) : Nat := tp.ports (pos % 2 ^ 16)

/-! ## Creating -/

/-- One round of `turnports_randomize`: two ports change their places. -/
def swap (tp : Turnports) (port1 port2 : Nat) : Turnports :=
  if port1 ≠ port2 then
    let pos1 := tp.status port1
    let pos2 := tp.status port2
    { tp with
      status := Function.update (Function.update tp.status port1 pos2) port2 pos1
      ports := Function.update (Function.update tp.ports pos1 (tp.ports pos2)) pos2 (tp.ports pos1) }
  else tp

/-- `turnports_randomize`, with the values of `random()`. -/
def randomize (tp : Turnports) (random : Nat → Nat) : Turnports :=
  let size := tp.high - tp.low
  let pick := fun i => (tp.low + random i % size % 2 ^ 16) % 2 ^ 16
  (List.range (size * 10)).foldl (fun t i => t.swap (pick (2 * i)) (pick (2 * i + 1))) tp

/-- The table before the ports change their places. -/
def fresh (start stop : Nat) : Turnports where
  status := fun i => if start ≤ i ∧ i ≤ stop then i else outOfRange
  low := start
  high := stop + 1
  rangeStart := start
  rangeStop := stop
  ports := fun i => i

/-- `turnports_init` -/
def init (start stop : Nat) (random : Nat → Nat) : Turnports := (fresh start stop).randomize random

/-! ## Operations -/

/-- `turnports_size` -/
def size (tp : Turnports) : Nat := (tp.high + 2 ^ 32 - tp.low) % 2 ^ 32 % 2 ^ 16

/-- The loop of `turnports_allocate` goes on: the first entry of the queue is stale. -/
def Skips (tp : Turnports) : Prop :=
  tp.low < tp.high ∧ (tp.rangeStart ≤ tp.entry tp.low ∧ tp.entry tp.low ≤ tp.rangeStop) ∧
    (IsTaken (tp.status (tp.entry tp.low)) ∨ tp.status (tp.entry tp.low) ≠ tp.low)

instance : DecidablePred Skips := fun _ => inferInstanceAs (Decidable (_ ∧ _ ∧ _))

/-- `++(tp->low)` -/
def advance (tp : Turnports) : Turnports := { tp with low := (tp.low + 1) % 2 ^ 32 }

/-- The first entry that is not stale, or the end of the queue. -/
def skipStale (tp : Turnports) : Turnports := Loop.after Skips advance (tp.high - tp.low) tp

/-- `turnports_allocate` -/
def allocate (tp : Turnports) : Int × Turnports :=
  let tp := tp.skipStale
  if tp.high ≤ tp.low then (-1, tp)
  else
    let port := tp.entry tp.low
    if port < tp.rangeStart ∨ tp.rangeStop < port then (-1, tp)
    else (port, { tp.advance with status := Function.update tp.status port takenSingle })

/-- `turnports_release` -/
def release (tp : Turnports) (port : Nat) : Turnports :=
  if tp.rangeStart ≤ port ∧ port ≤ tp.rangeStop then
    if IsTaken (tp.status port) then
      { tp with
        status := Function.update tp.status port tp.high
        ports := Function.update tp.ports (tp.high % 2 ^ 16) port
        high := (tp.high + 1) % 2 ^ 32 }
    else tp
  else tp

/-- `turnports_is_available` -/
def IsAvailable (tp : Turnports) (port : Nat) : Prop :=
  (tp.status port ≠ outOfRange ∧ ¬ IsTaken (tp.status port)) ∧ tp.entry (tp.status port) = port

instance (tp : Turnports) (port : Nat) : Decidable (tp.IsAvailable port) :=
  inferInstanceAs (Decidable ((_ ∧ _) ∧ _))

/-- The low 16 bits of an `int`. -/
def toU16 (port : Int) : Nat := (port % 2 ^ 16).toNat

/-- A port and the one after it are taken together. -/
def takePair (tp : Turnports) (port : Nat) : Turnports :=
  { tp with status := Function.update (Function.update tp.status port takenEven) (port + 1) takenOdd }

/-- One round of `turnports_allocate_even`: the port that it returns, if it does. -/
def evenRound (allocateRtcp : Bool) (tp : Turnports) : Option Int × Turnports :=
  let (port, tp) := tp.allocate
  if port % 2 = 1 then (none, tp.release (toU16 port))
  else if allocateRtcp = false then (some port, tp)
  else
    let rtcpPort := port + 1
    if rtcpPort > tp.rangeStop then (none, tp.release (toU16 port))
    else if ¬ tp.IsAvailable (toU16 rtcpPort) then (none, tp.release (toU16 port))
    else (some port, tp.takePair (toU16 port))

/-- At most `n` rounds. -/
def evenRounds (allocateRtcp : Bool) : Nat → Turnports → Int × Turnports
  | 0, tp => (-1, tp)
  | n + 1, tp =>
    match tp.evenRound allocateRtcp with
    | (some port, tp) => (port, tp)
    | (none, tp) => evenRounds allocateRtcp n tp

/-- `turnports_allocate_even` -/
def allocateEven (tp : Turnports) (allocateRtcp : Bool) : Int × Turnports :=
  if 1 < tp.size then evenRounds allocateRtcp tp.size tp else (-1, tp)

/-! ## The invariant -/

/-- The ports of the range that are not taken. -/
def free (tp : Turnports) : Finset Nat :=
  (Finset.Icc tp.rangeStart tp.rangeStop).filter fun p => ¬ IsTaken (tp.status p)

theorem mem_free : p ∈ tp.free ↔ (tp.rangeStart ≤ p ∧ p ≤ tp.rangeStop) ∧ ¬ IsTaken (tp.status p) := by
  rw [free, Finset.mem_filter, Finset.mem_Icc]

/-- A position that is in use. -/
def Queued (tp : Turnports) (q : Nat) : Prop := tp.low ≤ q ∧ q < tp.high

/-- A queued entry that is not the one of its port. -/
def Stale (tp : Turnports) (q : Nat) : Prop := tp.Queued q ∧ tp.status (tp.entry q) ≠ q

structure Consistent (tp : Turnports) : Prop where
  range : tp.rangeStop < 2 ^ 16
  low_le : tp.low ≤ tp.high
  high_le : tp.high ≤ 2 ^ 32 - 4
  outside : ∀ p, ¬ (tp.rangeStart ≤ p ∧ p ≤ tp.rangeStop) → tp.status p = outOfRange
  inside : ∀ q, tp.Queued q → tp.rangeStart ≤ tp.entry q ∧ tp.entry q ≤ tp.rangeStop
  listed : ∀ p ∈ tp.free, tp.Queued (tp.status p) ∧ tp.entry (tp.status p) = p
  stale_odd : ∀ q, tp.Stale q → tp.entry q % 2 = 1 ∧ tp.rangeStart ≤ tp.entry q - 1
  stale_old : ∀ q, tp.Stale q → ∀ p ∈ tp.free, p = tp.entry q ∨ p + 1 = tp.entry q → q < tp.status p
  stale_unique : ∀ q q', tp.Stale q → tp.Stale q' → tp.entry q = tp.entry q' → q = q'

theorem not_isTaken_of_lt {n : Nat} (h : n < 2 ^ 32 - 4) : ¬ IsTaken n := by
  unfold IsTaken takenSingle takenEven takenOdd
  omega

theorem isTaken_takenSingle : IsTaken takenSingle := .inl rfl

theorem isTaken_takenEven : IsTaken takenEven := .inr (.inl rfl)

theorem isTaken_takenOdd : IsTaken takenOdd := .inr (.inr rfl)

namespace Consistent

/-- The entry of a free port is its own. -/
theorem mem_free_of_status (h : tp.Consistent) (hq : tp.Queued q) (heq : tp.status (tp.entry q) = q) :
    tp.entry q ∈ tp.free := by
  refine mem_free.mpr ⟨h.inside q hq, ?_⟩
  rw [heq]
  have := h.high_le
  have := hq.2
  exact not_isTaken_of_lt (by omega)

theorem start_le_stop (h : tp.Consistent) (hq : tp.Queued q) : tp.rangeStart ≤ tp.rangeStop :=
  (h.inside q hq).1.trans (h.inside q hq).2

/-! ### The length of the queue -/

theorem card_valid_le (h : tp.Consistent) :
    ((Finset.Ico tp.low tp.high).filter fun q => tp.status (tp.entry q) = q).card ≤
      tp.rangeStop + 1 - tp.rangeStart := by
  rw [← Nat.card_Icc]
  refine Finset.card_le_card_of_injOn tp.entry ?_ ?_
  · intro q hq
    rw [Finset.mem_coe, Finset.mem_filter, Finset.mem_Ico] at hq
    rw [Finset.mem_coe, Finset.mem_Icc]
    exact h.inside q hq.1
  · intro q hq q' hq' heq
    rw [Finset.mem_coe, Finset.mem_filter] at hq hq'
    rw [← hq.2, ← hq'.2, heq]

/-- There are at most half as many stale entries as ports. -/
theorem card_stale_le (h : tp.Consistent) :
    ((Finset.Ico tp.low tp.high).filter fun q => ¬ tp.status (tp.entry q) = q).card ≤
      (tp.rangeStop + 1 - tp.rangeStart) / 2 := by
  have hcard : (Finset.Ico ((tp.rangeStart + 1) / 2) ((tp.rangeStop + 1) / 2)).card ≤
      (tp.rangeStop + 1 - tp.rangeStart) / 2 := by
    rw [Nat.card_Ico]
    omega
  refine le_trans ?_ hcard
  refine Finset.card_le_card_of_injOn (fun q => tp.entry q / 2) ?_ ?_
  · intro q hq
    rw [Finset.mem_coe, Finset.mem_filter, Finset.mem_Ico] at hq
    obtain ⟨hodd, hstart⟩ := h.stale_odd q hq
    have hin := h.inside q hq.1
    rw [Finset.mem_coe, Finset.mem_Ico]
    beta_reduce
    omega
  · intro q hq q' hq' heq
    rw [Finset.mem_coe, Finset.mem_filter, Finset.mem_Ico] at hq hq'
    have hodd := (h.stale_odd q hq).1
    have hodd' := (h.stale_odd q' hq').1
    refine h.stale_unique q q' hq hq' ?_
    simp only at heq
    omega

/-- The queue has at most one and a half times as many entries as there are ports. -/
theorem queue_le (h : tp.Consistent) :
    tp.high - tp.low ≤
      (tp.rangeStop + 1 - tp.rangeStart) + (tp.rangeStop + 1 - tp.rangeStart) / 2 := by
  have hsplit := Finset.card_filter_add_card_filter_not (s := Finset.Ico tp.low tp.high)
    (fun q => tp.status (tp.entry q) = q)
  rw [Nat.card_Ico] at hsplit
  have hvalid := h.card_valid_le
  have hstale := h.card_stale_le
  omega

end Consistent

/-! ## Skipping stale entries -/

/-- The queue from the position `l` on. -/
def startAt (tp : Turnports) (l : Nat) : Turnports := { tp with low := l }

@[simp] theorem free_startAt (tp : Turnports) (l : Nat) : (tp.startAt l).free = tp.free := rfl

namespace Consistent

theorem skips_iff (h : tp.Consistent) :
    tp.Skips ↔ tp.low < tp.high ∧ tp.status (tp.entry tp.low) ≠ tp.low := by
  unfold Skips
  refine and_congr_right fun hlt => ?_
  have hin := h.inside tp.low ⟨le_rfl, hlt⟩
  simp only [hin, and_self, true_and]
  refine ⟨fun hs => hs.elim (fun ht heq => ?_) id, .inr⟩
  have hle := h.high_le
  rw [heq] at ht
  exact not_isTaken_of_lt (by omega) ht

/-- An entry that is taken off the queue is the one of no free port. -/
theorem startAt_succ (h : tp.Consistent) (hlt : tp.low < tp.high)
    (hne : tp.status (tp.entry tp.low) ≠ tp.low) : (tp.startAt (tp.low + 1)).Consistent := by
  have hqueued : ∀ {q}, (tp.startAt (tp.low + 1)).Queued q → tp.Queued q :=
    fun hq => ⟨(Nat.le_succ _).trans hq.1, hq.2⟩
  have hstale : ∀ {q}, (tp.startAt (tp.low + 1)).Stale q → tp.Stale q := fun hq => ⟨hqueued hq.1, hq.2⟩
  refine ⟨h.range, hlt, h.high_le, h.outside, fun q hq => h.inside q (hqueued hq), ?_,
    fun q hq => h.stale_odd q (hstale hq), fun q hq => h.stale_old q (hstale hq),
    fun q q' hq hq' => h.stale_unique q q' (hstale hq) (hstale hq')⟩
  intro p hp
  obtain ⟨hq, hentry⟩ := h.listed p hp
  refine ⟨⟨?_, hq.2⟩, hentry⟩
  have hlow : tp.status p ≠ tp.low := by
    intro heq
    rw [heq] at hentry
    rw [hentry] at hne
    exact hne heq
  have hle := hq.1
  change tp.low + 1 ≤ tp.status p
  omega

/-- The loop of `turnports_allocate`. -/
theorem skipStale_eq (h : tp.Consistent) : ∃ l, tp.low ≤ l ∧ l ≤ tp.high ∧ tp.skipStale = tp.startAt l ∧
    (tp.startAt l).Consistent ∧ (l < tp.high → tp.status (tp.entry l) = l) := by
  unfold skipStale
  generalize hn : tp.high - tp.low = n
  induction n generalizing tp with
  | zero =>
    have hle := h.low_le
    exact ⟨tp.low, le_rfl, hle, rfl, h, fun hlt => by omega⟩
  | succ n ih =>
    rw [Loop.after]
    by_cases hs : tp.Skips
    · obtain ⟨hlt, hne⟩ := h.skips_iff.mp hs
      have hle := h.high_le
      have hadv : tp.advance = tp.startAt (tp.low + 1) := by
        rw [advance, Nat.mod_eq_of_lt (by omega)]
        rfl
      have hn' : (tp.startAt (tp.low + 1)).high - (tp.startAt (tp.low + 1)).low = n := by
        simp only [Turnports.startAt]
        omega
      obtain ⟨l, hl, hl', heq, hc, hhead⟩ := ih (h.startAt_succ hlt hne) hn'
      rw [if_pos hs, hadv]
      exact ⟨l, (Nat.le_succ _).trans hl, hl', heq, hc, hhead⟩
    · rw [if_neg hs]
      have hle := h.low_le
      refine ⟨tp.low, le_rfl, hle, rfl, h, ?_⟩
      intro hlt
      by_contra hne
      exact hs (h.skips_iff.mpr ⟨hlt, hne⟩)

/-- The bound on the rounds is enough: the loop has ended. -/
theorem skipStale_ends (h : tp.Consistent) : Loop.Ends Skips advance tp tp.skipStale := by
  refine Loop.ends_after ?_
  obtain ⟨l, -, -, heq, hc, hhead⟩ := h.skipStale_eq
  change ¬ tp.skipStale.Skips
  rw [heq, hc.skips_iff]
  rintro ⟨hlt, hne⟩
  exact hne (hhead hlt)

end Consistent

/-! ## Allocating -/

/-- The first entry of the queue is taken. -/
def takeHead (tp : Turnports) (t : Nat) : Turnports :=
  { tp with low := tp.low + 1, status := Function.update tp.status (tp.entry tp.low) t }

theorem free_takeHead (tp : Turnports) {t : Nat} (ht : IsTaken t) :
    (tp.takeHead t).free = tp.free.erase (tp.entry tp.low) := by
  ext p
  rw [Finset.mem_erase, mem_free, mem_free]
  by_cases hp : p = tp.entry tp.low
  · simp [takeHead, hp, ht]
  · simp [takeHead, hp]

theorem Consistent.takeHead (h : tp.Consistent) (hlt : tp.low < tp.high)
    (hhead : tp.status (tp.entry tp.low) = tp.low) {t : Nat} (ht : IsTaken t) :
    (tp.takeHead t).Consistent := by
  have hin := h.inside tp.low ⟨le_rfl, hlt⟩
  have hqueued : ∀ {q}, (tp.takeHead t).Queued q → tp.Queued q :=
    fun hq => ⟨(Nat.le_succ _).trans hq.1, hq.2⟩
  have hstatus : ∀ {p}, p ≠ tp.entry tp.low → (tp.takeHead t).status p = tp.status p :=
    fun hp => Function.update_of_ne hp _ _
  have hstale : ∀ {q}, (tp.takeHead t).Stale q → tp.Stale q := by
    rintro q ⟨hq, hne⟩
    refine ⟨hqueued hq, fun heq => ?_⟩
    by_cases hp : tp.entry q = tp.entry tp.low
    · have hql := hq.1
      rw [hp, hhead] at heq
      simp only [Turnports.takeHead] at hql
      omega
    · exact hne ((hstatus hp).trans heq)
  have hfree : ∀ {p}, p ∈ (tp.takeHead t).free → p ≠ tp.entry tp.low ∧ p ∈ tp.free := by
    intro p hp
    rw [free_takeHead tp ht, Finset.mem_erase] at hp
    exact hp
  refine ⟨h.range, hlt, h.high_le, ?_, fun q hq => h.inside q (hqueued hq), ?_,
    fun q hq => h.stale_odd q (hstale hq), ?_,
    fun q q' hq hq' => h.stale_unique q q' (hstale hq) (hstale hq')⟩
  · intro p hp
    have hne : p ≠ tp.entry tp.low := by
      rintro rfl
      exact hp hin
    rw [hstatus hne]
    exact h.outside p hp
  · intro p hp
    obtain ⟨hne, hp⟩ := hfree hp
    obtain ⟨hq, hentry⟩ := h.listed p hp
    rw [hstatus hne]
    refine ⟨⟨?_, hq.2⟩, hentry⟩
    have hlow : tp.status p ≠ tp.low := fun heq => hne (by rw [← heq, hentry])
    have hle := hq.1
    change tp.low + 1 ≤ tp.status p
    omega
  · intro q hq p hp hor
    obtain ⟨hne, hp⟩ := hfree hp
    rw [hstatus hne]
    exact h.stale_old q (hstale hq) p hp hor

/-- **One allocation**: there is no free port, or the first free port of the queue is taken. -/
theorem allocate_cases (h : tp.Consistent) :
    (tp.free = ∅ ∧ tp.allocate = (-1, tp.startAt tp.high) ∧ (tp.startAt tp.high).Consistent) ∨
    ∃ l, tp.low ≤ l ∧ l < tp.high ∧ (tp.startAt l).Consistent ∧ tp.entry l ∈ tp.free ∧
      tp.status (tp.entry l) = l ∧
      tp.allocate = ((tp.entry l : Int), (tp.startAt l).takeHead takenSingle) := by
  obtain ⟨l, hl, hl', heq, hc, hhead⟩ := h.skipStale_eq
  have hle := h.high_le
  rcases Nat.lt_or_ge l tp.high with hlt | hge
  · right
    have hin := hc.inside l ⟨le_rfl, hlt⟩
    have hmem : tp.entry l ∈ tp.free := hc.mem_free_of_status ⟨le_rfl, hlt⟩ (hhead hlt)
    refine ⟨l, hl, hlt, hc, hmem, hhead hlt, ?_⟩
    have h1 : ¬ (tp.startAt l).high ≤ (tp.startAt l).low := not_le.mpr hlt
    have h2 : ¬ ((tp.startAt l).entry (tp.startAt l).low < (tp.startAt l).rangeStart ∨
        (tp.startAt l).rangeStop < (tp.startAt l).entry (tp.startAt l).low) := by
      change ¬ ((tp.startAt l).entry l < (tp.startAt l).rangeStart ∨ (tp.startAt l).rangeStop < (tp.startAt l).entry l)
      omega
    simp only [allocate, heq, if_neg h1, if_neg h2, advance, Turnports.takeHead]
    have hmod : ((tp.startAt l).low + 1) % 2 ^ 32 = (tp.startAt l).low + 1 := by
      change (l + 1) % 2 ^ 32 = l + 1
      omega
    rw [hmod]
    rfl
  · left
    obtain rfl : l = tp.high := by omega
    have hfree : tp.free = ∅ := by
      refine Finset.eq_empty_of_forall_notMem fun p hp => ?_
      obtain ⟨⟨hq, hq'⟩, -⟩ := hc.listed p hp
      exact absurd (hq.trans_lt hq') (lt_irrefl _)
    refine ⟨hfree, ?_, hc⟩
    simp only [allocate, heq, if_pos (le_refl tp.high), Turnports.startAt]

/-! ## Releasing -/

/-- The range is small enough for the ring. -/
def Fits (tp : Turnports) : Prop :=
  (tp.rangeStop + 1 - tp.rangeStart) + (tp.rangeStop + 1 - tp.rangeStart) / 2 < 2 ^ 16

/-- A port that is put at the end of the queue. -/
def enqueue (tp : Turnports) (port : Nat) : Turnports :=
  { tp with
    status := Function.update tp.status port tp.high
    ports := Function.update tp.ports (tp.high % 2 ^ 16) port
    high := tp.high + 1 }

theorem free_enqueue (hin : tp.rangeStart ≤ p ∧ p ≤ tp.rangeStop) (hhigh : tp.high < 2 ^ 32 - 4) :
    (tp.enqueue p).free = insert p tp.free := by
  ext x
  rw [Finset.mem_insert, mem_free, mem_free]
  by_cases hx : x = p
  · subst hx
    simp [enqueue, hin, not_isTaken_of_lt hhigh]
  · simp [enqueue, hx]

/-- The entries of the queue are not written over. -/
theorem entry_enqueue (hroom : tp.high - tp.low < 2 ^ 16) (hq : tp.Queued q) (port : Nat) :
    (tp.enqueue port).entry q = tp.entry q := by
  obtain ⟨hlow, hhigh⟩ := hq
  refine Function.update_of_ne ?_ _ _
  omega

theorem entry_enqueue_high (tp : Turnports) (port : Nat) : (tp.enqueue port).entry tp.high = port :=
  Function.update_self _ _ _

theorem Consistent.enqueue (h : tp.Consistent) (hfits : tp.Fits) (hhigh : tp.high < 2 ^ 32 - 4)
    (hin : tp.rangeStart ≤ p ∧ p ≤ tp.rangeStop) (ht : IsTaken (tp.status p)) :
    (tp.enqueue p).Consistent := by
  have hroom : tp.high - tp.low < 2 ^ 16 := h.queue_le.trans_lt hfits
  have hlow := h.low_le
  have hstatus : ∀ {x}, x ≠ p → (tp.enqueue p).status x = tp.status x :=
    fun hx => Function.update_of_ne hx _ _
  have hself : (tp.enqueue p).status p = tp.high := Function.update_self _ _ _
  -- An entry is an old one, or the new one.
  have hqueued : ∀ {q}, (tp.enqueue p).Queued q → tp.Queued q ∨ q = tp.high := by
    rintro q ⟨hq, hq'⟩
    change q < tp.high + 1 at hq'
    rcases Nat.lt_or_ge q tp.high with hlt | hge
    · exact .inl ⟨hq, hlt⟩
    · exact .inr (by omega)
  have hstale : ∀ {q}, (tp.enqueue p).Stale q → tp.Stale q ∧ (tp.enqueue p).entry q = tp.entry q := by
    rintro q ⟨hq, hne⟩
    rcases hqueued hq with hold | rfl
    · have hentry := entry_enqueue hroom hold p
      refine ⟨⟨hold, fun heq => ?_⟩, hentry⟩
      rw [hentry] at hne
      by_cases hx : tp.entry q = p
      · rw [hx] at heq
        rw [heq] at ht
        have hqh := hold.2
        exact not_isTaken_of_lt (by omega) ht
      · exact hne ((hstatus hx).trans heq)
    · rw [entry_enqueue_high, hself] at hne
      exact absurd rfl hne
  have hfree : ∀ {x}, x ∈ (tp.enqueue p).free → x = p ∨ (x ≠ p ∧ x ∈ tp.free) := by
    intro x hx
    rw [free_enqueue hin hhigh, Finset.mem_insert] at hx
    by_cases hxp : x = p
    · exact .inl hxp
    · exact .inr ⟨hxp, hx.resolve_left hxp⟩
  refine ⟨h.range, Nat.le_succ_of_le hlow, hhigh, ?_, ?_, ?_, ?_, ?_, ?_⟩
  · intro x hx
    have hne : x ≠ p := by
      rintro rfl
      exact hx hin
    rw [hstatus hne]
    exact h.outside x hx
  · intro q hq
    rcases hqueued hq with hold | rfl
    · rw [entry_enqueue hroom hold]
      exact h.inside q hold
    · rw [entry_enqueue_high]
      exact hin
  · intro x hx
    rcases hfree hx with rfl | ⟨hne, hx⟩
    · rw [hself]
      exact ⟨⟨hlow, Nat.lt_succ_self _⟩, entry_enqueue_high tp _⟩
    · obtain ⟨hq, hentry⟩ := h.listed x hx
      rw [hstatus hne, entry_enqueue hroom hq]
      exact ⟨⟨hq.1, Nat.lt_succ_of_lt hq.2⟩, hentry⟩
  · intro q hq
    obtain ⟨hold, hentry⟩ := hstale hq
    rw [hentry]
    exact h.stale_odd q hold
  · intro q hq x hx hor
    obtain ⟨hold, hentry⟩ := hstale hq
    rcases hfree hx with rfl | ⟨hne, hx⟩
    · rw [hself]
      exact hold.1.2
    · rw [hstatus hne]
      rw [hentry] at hor
      exact h.stale_old q hold x hx hor
  · intro q q' hq hq' heq
    obtain ⟨hold, hentry⟩ := hstale hq
    obtain ⟨hold', hentry'⟩ := hstale hq'
    rw [hentry, hentry'] at heq
    exact h.stale_unique q q' hold hold' heq

/-- **One release**: a taken port of the range is put at the end of the queue. -/
theorem release_eq (hhigh : tp.high < 2 ^ 32 - 4) (p : Nat) :
    tp.release p =
      if (tp.rangeStart ≤ p ∧ p ≤ tp.rangeStop) ∧ p ∉ tp.free then tp.enqueue p else tp := by
  have hmod : (tp.high + 1) % 2 ^ 32 = tp.high + 1 := Nat.mod_eq_of_lt (by omega)
  unfold release
  rw [hmod]
  by_cases hin : tp.rangeStart ≤ p ∧ p ≤ tp.rangeStop
  · by_cases ht : IsTaken (tp.status p)
    · simp [mem_free, hin, ht, enqueue]
    · simp [mem_free, hin, ht]
  · simp [hin]

/-! ## Taking two ports -/

theorem free_takePair (tp : Turnports) (p : Nat) :
    (tp.takePair p).free = (tp.free.erase p).erase (p + 1) := by
  ext x
  rw [Finset.mem_erase, Finset.mem_erase, mem_free, mem_free]
  by_cases hx : x = p + 1
  · simp [takePair, hx, isTaken_takenOdd]
  · by_cases hxp : x = p
    · simp [takePair, hxp, isTaken_takenEven]
    · simp [takePair, hx, hxp]

/-- The entry of the second port gets stale. It is the only stale entry of this port, since the first port
was at the head of the queue. -/
theorem Consistent.takePair (h : tp.Consistent) (hp : p ∉ tp.free) (heven : p % 2 = 0)
    (hstart : tp.rangeStart ≤ p) (hrtcp : p + 1 ∈ tp.free) (hnone : ∀ q, tp.Stale q → tp.entry q ≠ p + 1) :
    (tp.takePair p).Consistent := by
  have hin := (mem_free.mp hrtcp).1
  have hstatus : ∀ {x}, x ≠ p → x ≠ p + 1 → (tp.takePair p).status x = tp.status x := by
    intro x hx hx'
    simp [Turnports.takePair, hx, hx']
  have hfree : ∀ {x}, x ∈ (tp.takePair p).free → x ≠ p ∧ x ≠ p + 1 ∧ x ∈ tp.free := by
    intro x hx
    rw [free_takePair, Finset.mem_erase, Finset.mem_erase] at hx
    exact ⟨hx.2.1, hx.1, hx.2.2⟩
  have hstale : ∀ {q}, (tp.takePair p).Stale q →
      (tp.entry q = p + 1 ∧ q = tp.status (p + 1)) ∨ (tp.entry q ≠ p + 1 ∧ tp.Stale q) := by
    rintro q ⟨hq, hne⟩
    by_cases hx : tp.entry q = p + 1
    · refine .inl ⟨hx, ?_⟩
      by_contra hqs
      exact hnone q ⟨hq, by rw [hx]; exact fun heq => hqs heq.symm⟩ hx
    · refine .inr ⟨hx, hq, fun heq => ?_⟩
      by_cases hxp : tp.entry q = p
      · have hmem := h.mem_free_of_status hq heq
        rw [hxp] at hmem
        exact hp hmem
      · exact hne ((hstatus hxp hx).trans heq)
  refine ⟨h.range, h.low_le, h.high_le, ?_, h.inside, ?_, ?_, ?_, ?_⟩
  · intro x hx
    have hx0 : ¬ (tp.rangeStart ≤ x ∧ x ≤ tp.rangeStop) := hx
    rw [hstatus (by omega) (by omega)]
    exact h.outside x hx
  · intro x hx
    obtain ⟨hne, hne', hx⟩ := hfree hx
    rw [hstatus hne hne']
    exact h.listed x hx
  · intro q hq
    rcases hstale hq with ⟨hx, -⟩ | ⟨-, hold⟩
    · change tp.entry q % 2 = 1 ∧ tp.rangeStart ≤ tp.entry q - 1
      omega
    · exact h.stale_odd q hold
  · intro q hq x hx hor
    obtain ⟨hne, hne', hx⟩ := hfree hx
    rw [hstatus hne hne']
    rcases hstale hq with ⟨hentry, -⟩ | ⟨-, hold⟩
    · change x = tp.entry q ∨ x + 1 = tp.entry q at hor
      omega
    · exact h.stale_old q hold x hx hor
  · intro q q' hq hq' heq
    change tp.entry q = tp.entry q' at heq
    rcases hstale hq with ⟨hx, hq⟩ | ⟨hx, hold⟩ <;> rcases hstale hq' with ⟨hx', hq'⟩ | ⟨hx', hold'⟩
    · rw [hq, hq']
    · exact absurd (heq ▸ hx) hx'
    · exact absurd (heq.trans hx') hx
    · exact h.stale_unique q q' hold hold' heq

/-! ## The first table -/

/-- All ports are free, and the queue has one entry for each. -/
structure Shuffled (start stop : Nat) (tp : Turnports) : Prop where
  low : tp.low = start
  high : tp.high = stop + 1
  rangeStart : tp.rangeStart = start
  rangeStop : tp.rangeStop = stop
  outside : ∀ p, ¬ (start ≤ p ∧ p ≤ stop) → tp.status p = outOfRange
  status : ∀ p, start ≤ p → p ≤ stop →
    start ≤ tp.status p ∧ tp.status p ≤ stop ∧ tp.ports (tp.status p) = p
  ports : ∀ q, start ≤ q → q ≤ stop → start ≤ tp.ports q ∧ tp.ports q ≤ stop ∧ tp.status (tp.ports q) = q

theorem shuffled_fresh (start stop : Nat) : (fresh start stop).Shuffled start stop where
  low := rfl
  high := rfl
  rangeStart := rfl
  rangeStop := rfl
  outside := fun p hp => if_neg hp
  status := by
    intro p h h'
    simp [fresh, h, h']
  ports := by
    intro q h h'
    simp [fresh, h, h']

theorem Shuffled.swap {start stop a b : Nat} (h : tp.Shuffled start stop) (ha : start ≤ a ∧ a ≤ stop)
    (hb : start ≤ b ∧ b ≤ stop) : (tp.swap a b).Shuffled start stop := by
  unfold Turnports.swap
  split
  swap
  · exact h
  rename_i hab
  obtain ⟨ha1, ha2, ha3⟩ := h.status a ha.1 ha.2
  obtain ⟨hb1, hb2, hb3⟩ := h.status b hb.1 hb.2
  have hpos : tp.status a ≠ tp.status b := fun heq => hab (by rw [← ha3, heq, hb3])
  refine ⟨h.low, h.high, h.rangeStart, h.rangeStop, ?_, ?_, ?_⟩
  · intro p hp
    have hpa : p ≠ a := by
      rintro rfl
      exact hp ha
    have hpb : p ≠ b := by
      rintro rfl
      exact hp hb
    simp only [Function.update_of_ne hpb, Function.update_of_ne hpa]
    exact h.outside p hp
  · intro p hp hp'
    by_cases hpb : p = b
    · subst hpb
      simp only [Function.update_self, Function.update_of_ne hpos, hb3]
      exact ⟨ha1, ha2, trivial⟩
    · by_cases hpa : p = a
      · subst hpa
        simp only [Function.update_of_ne hpb, Function.update_self, ha3]
        exact ⟨hb1, hb2, trivial⟩
      · obtain ⟨h1, h2, h3⟩ := h.status p hp hp'
        have hqa : tp.status p ≠ tp.status a := fun heq => hpa (by rw [← h3, heq, ha3])
        have hqb : tp.status p ≠ tp.status b := fun heq => hpb (by rw [← h3, heq, hb3])
        simp only [Function.update_of_ne hpb, Function.update_of_ne hpa, Function.update_of_ne hqb,
          Function.update_of_ne hqa]
        exact ⟨h1, h2, h3⟩
  · intro q hq hq'
    by_cases hqb : q = tp.status b
    · subst hqb
      simp only [Function.update_self, ha3, Function.update_of_ne hab]
      exact ⟨ha.1, ha.2, trivial⟩
    · by_cases hqa : q = tp.status a
      · subst hqa
        simp only [Function.update_of_ne hqb, Function.update_self, hb3]
        exact ⟨hb.1, hb.2, trivial⟩
      · obtain ⟨h1, h2, h3⟩ := h.ports q hq hq'
        have hpa : tp.ports q ≠ a := fun heq => hqa (by rw [← h3, heq])
        have hpb : tp.ports q ≠ b := fun heq => hqb (by rw [← h3, heq])
        simp only [Function.update_of_ne hqb, Function.update_of_ne hqa, Function.update_of_ne hpb,
          Function.update_of_ne hpa]
        exact ⟨h1, h2, h3⟩

theorem shuffled_init {start stop : Nat} (hle : start ≤ stop) (hstop : stop < 2 ^ 16)
    (random : Nat → Nat) : (init start stop random).Shuffled start stop := by
  have hpick : ∀ r, start ≤ (start + r % (stop + 1 - start) % 2 ^ 16) % 2 ^ 16 ∧
      (start + r % (stop + 1 - start) % 2 ^ 16) % 2 ^ 16 ≤ stop := by
    intro r
    have hlt := Nat.mod_lt r (show 0 < stop + 1 - start by omega)
    generalize r % (stop + 1 - start) = m at hlt
    omega
  have hfold : ∀ (is : List Nat) (tp : Turnports), tp.Shuffled start stop →
      (is.foldl (fun t i => t.swap ((start + random (2 * i) % (stop + 1 - start) % 2 ^ 16) % 2 ^ 16)
        ((start + random (2 * i + 1) % (stop + 1 - start) % 2 ^ 16) % 2 ^ 16)) tp).Shuffled start stop := by
    intro is
    induction is with
    | nil => exact fun _ h => h
    | cons i is ih => exact fun tp h => ih _ (h.swap (hpick _) (hpick _))
  exact hfold _ _ (shuffled_fresh start stop)

theorem Shuffled.consistent {start stop : Nat} (h : tp.Shuffled start stop) (hle : start ≤ stop)
    (hstop : stop < 2 ^ 16) : tp.Consistent ∧ tp.free = Finset.Icc start stop := by
  have hentry : ∀ q, q ≤ stop → tp.entry q = tp.ports q := by
    intro q hq
    rw [entry, Nat.mod_eq_of_lt (by omega)]
  have hqueued : ∀ q, tp.Queued q ↔ start ≤ q ∧ q ≤ stop := by
    intro q
    rw [Queued, h.low, h.high]
    omega
  have hnone : ∀ q, ¬ tp.Stale q := by
    rintro q ⟨hq, hne⟩
    have hin := (hqueued q).mp hq
    rw [hentry q hin.2] at hne
    exact hne (h.ports q hin.1 hin.2).2.2
  have hfree : tp.free = Finset.Icc start stop := by
    ext p
    rw [mem_free, h.rangeStart, h.rangeStop, Finset.mem_Icc]
    refine and_iff_left_of_imp fun hp => not_isTaken_of_lt ?_
    have := (h.status p hp.1 hp.2).2.1
    omega
  refine ⟨⟨?_, ?_, ?_, ?_, ?_, ?_, fun q hq => absurd hq (hnone q), fun q hq => absurd hq (hnone q),
    fun q _ hq => absurd hq (hnone q)⟩, hfree⟩
  · rw [h.rangeStop]
    exact hstop
  · rw [h.low, h.high]
    omega
  · rw [h.high]
    omega
  · rw [h.rangeStart, h.rangeStop]
    exact h.outside
  · intro q hq
    have hin := (hqueued q).mp hq
    obtain ⟨h1, h2, -⟩ := h.ports q hin.1 hin.2
    rw [h.rangeStart, h.rangeStop, hentry q hin.2]
    exact ⟨h1, h2⟩
  · intro p hp
    rw [hfree, Finset.mem_Icc] at hp
    obtain ⟨h1, h2, h3⟩ := h.status p hp.1 hp.2
    rw [hqueued, hentry _ h2]
    exact ⟨⟨h1, h2⟩, h3⟩

end Turnports
end Turn
end QosSupport
