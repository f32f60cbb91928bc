import QosSupport.Turn.Ports

/-!
# Allocating relay ports

What the requests to the port table of one address do to the set of its free ports, over all runs.

* `evenRounds_spec`: the loop of `allocateEven` finds an even port, or a pair of ports, if there is one.
* `Faults`: where it goes wrong. If no port is free and the queue has stale entries, then the `-1` of
  `allocate` counts as an odd port and 65535 is released, whoever has it.
* `Consistent.servedRight_iff`: a request is served as it should be exactly if it does not meet that case.
* `relayPorts_refines`: so the table refines the set of the free ports, over all runs.
-/

namespace QosSupport
namespace Turn

namespace Turnports

variable {tp : Turnports} {p l : Nat} {rtcp : Bool}

/-! ## Even ports -/

/-- A port that `allocateEven` may return. -/
def Suits (rtcp : Bool) (free : Finset Nat) (p : Nat) : Prop :=
  p ∈ free ∧ p % 2 = 0 ∧ (rtcp = true → p + 1 ∈ free)

/-- The free ports after it was returned. -/
def afterEven (rtcp : Bool) (free : Finset Nat) (p : Nat) : Finset Nat :=
  if rtcp then (free.erase p).erase (p + 1) else free.erase p

/-- What all operations keep. -/
structure SameRange (tp tp' : Turnports) : Prop where
  rangeStart : tp'.rangeStart = tp.rangeStart
  rangeStop : tp'.rangeStop = tp.rangeStop

theorem Consistent.isAvailable_iff (h : tp.Consistent) (x : Nat) : tp.IsAvailable x ↔ x ∈ tp.free := by
  constructor
  · rintro ⟨⟨hout, ht⟩, -⟩
    refine mem_free.mpr ⟨?_, ht⟩
    by_contra hin
    exact hout (h.outside x hin)
  · intro hx
    obtain ⟨hq, hentry⟩ := h.listed x hx
    refine ⟨⟨?_, (mem_free.mp hx).2⟩, hentry⟩
    have hhigh := h.high_le
    have hlt := hq.2
    unfold outOfRange
    omega

theorem toU16_natCast (hp : p < 2 ^ 16) : toU16 (p : Int) = p := by
  unfold toU16
  omega

/-- **One round** with a free port: it suits and is returned, or it is put at the end of the queue. -/
theorem evenRound_cases (h : tp.Consistent) (hfits : tp.Fits) (hhigh : tp.high < 2 ^ 32 - 4)
    (hne : tp.free.Nonempty) (rtcp : Bool) :
    ∃ l, tp.low ≤ l ∧ l < tp.high ∧ tp.entry l ∈ tp.free ∧
      ((Suits rtcp tp.free (tp.entry l) ∧ ∃ tp', tp.evenRound rtcp = (some (tp.entry l : Int), tp') ∧
          tp'.Consistent ∧ tp'.free = afterEven rtcp tp.free (tp.entry l) ∧ SameRange tp tp' ∧
          tp'.high = tp.high) ∨
        (¬ Suits rtcp tp.free (tp.entry l) ∧ ∃ tp', tp.evenRound rtcp = (none, tp') ∧
          tp'.Consistent ∧ tp'.free = tp.free ∧ SameRange tp tp' ∧ tp'.low = l + 1 ∧
          tp'.high = tp.high + 1 ∧ ∀ x ∈ tp.free, x ≠ tp.entry l → tp'.status x = tp.status x)) := by
  obtain ⟨hempty, -, -⟩ | ⟨l, hl, hlt, hc, hmem, hstatus, halloc⟩ := allocate_cases h
  · exact absurd hempty hne.ne_empty
  refine ⟨l, hl, hlt, hmem, ?_⟩
  generalize hp : tp.entry l = p at hmem hstatus halloc
  have hin := (mem_free.mp hmem).1
  have hrange := h.range
  have hu16 : toU16 (p : Int) = p := toU16_natCast (by omega)
  -- the table after the allocation
  have hentry : (tp.startAt l).entry (tp.startAt l).low = p := hp
  have hhead : (tp.startAt l).status ((tp.startAt l).entry (tp.startAt l).low) = (tp.startAt l).low := by
    rw [hentry]
    exact hstatus
  have hc1 := hc.takeHead hlt hhead isTaken_takenSingle
  have hfree1 : ((tp.startAt l).takeHead takenSingle).free = tp.free.erase p := by
    rw [free_takeHead _ isTaken_takenSingle, hentry, free_startAt]
  generalize htp1 : (tp.startAt l).takeHead takenSingle = tp1 at hc1 hfree1 halloc
  have hrange1 : SameRange tp tp1 := by
    rw [← htp1]
    exact ⟨rfl, rfl⟩
  have hhigh1 : tp1.high = tp.high := by
    rw [← htp1]
    rfl
  have hlow1 : tp1.low = l + 1 := by
    rw [← htp1]
    rfl
  have hstatus1 : ∀ x, x ≠ p → tp1.status x = tp.status x := by
    intro x hx
    rw [← htp1]
    refine Function.update_of_ne ?_ _ _
    rwa [hentry]
  have hnot1 : p ∉ tp1.free := by
    rw [hfree1]
    exact Finset.notMem_erase p _
  have hin1 : tp1.rangeStart ≤ p ∧ p ≤ tp1.rangeStop := by
    rw [hrange1.rangeStart, hrange1.rangeStop]
    exact hin
  have hfits1 : tp1.Fits := by
    unfold Fits
    rw [hrange1.rangeStart, hrange1.rangeStop]
    exact hfits
  -- the table after it was released again
  have hback : tp1.release p = tp1.enqueue p := by
    rw [release_eq (by omega), if_pos ⟨hin1, hnot1⟩]
  have hrejected : ∃ tp', (none, tp1.release p) = ((none, tp') : Option Int × Turnports) ∧
      tp'.Consistent ∧ tp'.free = tp.free ∧ SameRange tp tp' ∧ tp'.low = l + 1 ∧
      tp'.high = tp.high + 1 ∧ ∀ x ∈ tp.free, x ≠ p → tp'.status x = tp.status x := by
    refine ⟨tp1.enqueue p, by rw [hback], ?_, ?_, ⟨hrange1.1, hrange1.2⟩, hlow1, ?_, ?_⟩
    · refine hc1.enqueue hfits1 (by omega) hin1 ?_
      by_contra hnt
      exact hnot1 (mem_free.mpr ⟨hin1, hnt⟩)
    · rw [free_enqueue hin1 (by omega), hfree1, Finset.insert_erase hmem]
    · change tp1.high + 1 = tp.high + 1
      rw [hhigh1]
    · intro x _ hx
      refine Eq.trans ?_ (hstatus1 x hx)
      exact Function.update_of_ne hx _ _
  unfold evenRound
  rw [halloc]
  simp only [hu16]
  by_cases hodd : (p : Int) % 2 = 1
  · rw [if_pos hodd]
    exact .inr ⟨fun hs => by have := hs.2.1; omega, hrejected⟩
  rw [if_neg hodd]
  have heven : p % 2 = 0 := by omega
  cases rtcp with
  | false =>
    rw [if_pos rfl]
    exact .inl ⟨⟨hmem, heven, by simp⟩, tp1, rfl, hc1, by simp [afterEven, hfree1], hrange1, hhigh1⟩
  | true =>
    rw [if_neg (by simp)]
    have havail : tp1.IsAvailable (toU16 ((p : Int) + 1)) ↔ toU16 ((p : Int) + 1) ∈ tp1.free :=
      hc1.isAvailable_iff _
    by_cases hstop : (p : Int) + 1 > tp1.rangeStop
    · rw [if_pos hstop]
      refine .inr ⟨fun hs => ?_, hrejected⟩
      have hle := (mem_free.mp (hs.2.2 rfl)).1.2
      rw [hrange1.rangeStop] at hstop
      omega
    rw [if_neg hstop]
    have hu16' : toU16 ((p : Int) + 1) = p + 1 := by
      rw [hrange1.rangeStop] at hstop
      have hcast : (p : Int) + 1 = ((p + 1 : Nat) : Int) := by omega
      rw [hcast]
      exact toU16_natCast (by omega)
    rw [hu16', hfree1, Finset.mem_erase] at havail
    have hiff : tp1.IsAvailable (p + 1) ↔ p + 1 ∈ tp.free := by
      rw [havail]
      exact and_iff_right (by omega)
    rw [hu16']
    by_cases hfree : p + 1 ∈ tp.free
    · rw [if_neg (not_not.mpr (hiff.mpr hfree))]
      refine .inl ⟨⟨hmem, heven, fun _ => hfree⟩, _, rfl, ?_, ?_, ⟨hrange1.1, hrange1.2⟩, hhigh1⟩
      · refine hc1.takePair hnot1 heven hin1.1 ?_ ?_
        · rw [hfree1]
          exact Finset.mem_erase.mpr ⟨by omega, hfree⟩
        · -- an older stale entry of this port would be before the head of the queue
          intro q hq hx
          have hq0 : (tp.startAt l).Stale q := by
            refine ⟨⟨?_, ?_⟩, ?_⟩
            · have := hq.1.1
              change l ≤ q
              omega
            · have := hq.1.2
              change q < tp.high
              omega
            · have hs := hq.2
              rw [hx, hstatus1 (p + 1) (by omega)] at hs
              have hx0 : (tp.startAt l).entry q = p + 1 := by
                rw [← hx, ← htp1]
                rfl
              rw [hx0]
              exact hs
          have hx0 : (tp.startAt l).entry q = p + 1 := by
            rw [← hx, ← htp1]
            rfl
          have hold := hc.stale_old q hq0 p hmem (.inr hx0.symm)
          change q < tp.status p at hold
          have := hq.1.1
          omega
      · rw [free_takePair, hfree1]
        simp [afterEven]
    · rw [if_pos (fun hav => hfree (hiff.mp hav))]
      exact .inr ⟨fun hs => hfree (hs.2.2 rfl), hrejected⟩

/-- The loop does what it is for. -/
def EvenServed (rtcp : Bool) (tp : Turnports) (ret : Int) (tp' : Turnports) : Prop :=
  (∃ p, Suits rtcp tp.free p ∧ ret = p ∧ tp'.free = afterEven rtcp tp.free p) ∨
    ((∀ p, ¬ Suits rtcp tp.free p) ∧ ret = -1 ∧ tp'.free = tp.free)

/-- **The loop**, if there is a free port. The ports that were put at the end of the queue, at `top` or later,
do not suit, and there are enough rounds to get there. -/
theorem evenRounds_spec (rtcp : Bool) (n top : Nat) (h : tp.Consistent) (hfits : tp.Fits)
    (hne : tp.free.Nonempty)
    (hroom : tp.high + n ≤ 2 ^ 32 - 4) (hseen : ∀ p ∈ tp.free, top ≤ tp.status p → ¬ Suits rtcp tp.free p)
    (htop : top ≤ tp.low + n) :
    EvenServed rtcp tp (evenRounds rtcp n tp).1 (evenRounds rtcp n tp).2 ∧
      (evenRounds rtcp n tp).2.Consistent ∧ SameRange tp (evenRounds rtcp n tp).2 ∧
      (evenRounds rtcp n tp).2.high ≤ tp.high + n := by
  induction n generalizing tp with
  | zero =>
    refine ⟨.inr ⟨fun p hp => ?_, rfl, rfl⟩, h, ⟨rfl, rfl⟩, le_rfl⟩
    have hlow := (h.listed p hp.1).1.1
    exact hseen p hp.1 (by omega) hp
  | succ n ih =>
    obtain ⟨l, hl, hlt, hmem, ⟨hs, tp', heq, hc, hfree, hsame, hhigh⟩ |
      ⟨hs, tp', heq, hc, hfree, hsame, hlow, hhigh, hstatus⟩⟩ :=
        evenRound_cases h hfits (by omega) hne rtcp
    · simp only [evenRounds, heq]
      exact ⟨.inl ⟨_, hs, rfl, hfree⟩, hc, hsame, by omega⟩
    · have hfits' : tp'.Fits := by
        unfold Fits
        rw [hsame.rangeStart, hsame.rangeStop]
        exact hfits
      have hseen' : ∀ p ∈ tp'.free, top ≤ tp'.status p → ¬ Suits rtcp tp'.free p := by
        rw [hfree]
        intro p hp hle
        by_cases hpl : p = tp.entry l
        · rw [hpl]
          exact hs
        · rw [hstatus p hp hpl] at hle
          exact hseen p hp hle
      obtain ⟨hserved, hc', hsame', hhigh'⟩ :=
        ih hc hfits' (by rwa [hfree]) (by omega) hseen' (by omega)
      simp only [evenRounds, heq]
      refine ⟨?_, hc', ⟨hsame'.1.trans hsame.1, hsame'.2.trans hsame.2⟩, by omega⟩
      unfold EvenServed at hserved ⊢
      rwa [hfree] at hserved

/-! ## No free port -/

/-- No port is free, and the queue has stale entries. Then `allocateEven` releases 65535. -/
def Faults (tp : Turnports) : Prop := tp.rangeStop = 65535 ∧ tp.free = ∅ ∧ 1 < tp.high - tp.low

instance (tp : Turnports) : Decidable tp.Faults := inferInstanceAs (Decidable (_ ∧ _ ∧ _))

theorem evenRound_of_empty (rtcp : Bool) (h : tp.Consistent) (hempty : tp.free = ∅) :
    tp.evenRound rtcp = (none, (tp.startAt tp.high).release 65535) ∧ (tp.startAt tp.high).Consistent := by
  obtain ⟨-, halloc, hc⟩ | ⟨l, -, -, -, hmem, -⟩ := allocate_cases h
  · refine ⟨?_, hc⟩
    unfold evenRound
    rw [halloc]
    rfl
  · rw [hempty] at hmem
    exact absurd hmem (Finset.notMem_empty _)

/-- The `-1` of every round is a port out of the range. -/
theorem evenRounds_of_empty (rtcp : Bool) (n : Nat) (h : tp.Consistent) (hempty : tp.free = ∅)
    (hstop : tp.rangeStop ≠ 65535) : (evenRounds rtcp n tp).1 = -1 ∧ (evenRounds rtcp n tp).2.free = ∅ ∧
      (evenRounds rtcp n tp).2.Consistent ∧ SameRange tp (evenRounds rtcp n tp).2 ∧
      (evenRounds rtcp n tp).2.high = tp.high := by
  induction n generalizing tp with
  | zero => exact ⟨rfl, hempty, h, ⟨rfl, rfl⟩, rfl⟩
  | succ n ih =>
    obtain ⟨heq, hc⟩ := evenRound_of_empty rtcp h hempty
    have hrelease : (tp.startAt tp.high).release 65535 = tp.startAt tp.high := by
      refine if_neg ?_
      have hrange := h.range
      change ¬ (tp.rangeStart ≤ 65535 ∧ 65535 ≤ tp.rangeStop)
      omega
    rw [hrelease] at heq
    obtain ⟨h1, h2, h3, h4, h5⟩ := ih hc hempty hstop
    simp only [evenRounds, heq]
    exact ⟨h1, h2, h3, ⟨h4.1, h4.2⟩, h5⟩

/-- The `-1` of the first round is the port 65535, which is then the only free one. -/
theorem evenRounds_of_faults (rtcp : Bool) (n : Nat) (h : tp.Consistent) (hfits : tp.Fits) (hf : tp.Faults)
    (hroom : tp.high + (n + 1) ≤ 2 ^ 32 - 4) :
    (evenRounds rtcp (n + 1) tp).1 = -1 ∧ (evenRounds rtcp (n + 1) tp).2.free = {65535} ∧
      (evenRounds rtcp (n + 1) tp).2.Consistent ∧ SameRange tp (evenRounds rtcp (n + 1) tp).2 ∧
      (evenRounds rtcp (n + 1) tp).2.high ≤ tp.high + (n + 1) := by
  obtain ⟨hstop, hempty, hqueue⟩ := hf
  obtain ⟨heq, hc⟩ := evenRound_of_empty rtcp h hempty
  have hin : tp.rangeStart ≤ 65535 ∧ 65535 ≤ tp.rangeStop := by
    have hle := h.start_le_stop (q := tp.low) ⟨le_rfl, by omega⟩
    omega
  have hnot : (65535 : Nat) ∉ (tp.startAt tp.high).free := by
    rw [free_startAt, hempty]
    exact Finset.notMem_empty _
  have hhigh : (tp.startAt tp.high).high < 2 ^ 32 - 4 := by
    change tp.high < 2 ^ 32 - 4
    omega
  rw [release_eq hhigh, if_pos ⟨hin, hnot⟩] at heq
  have htaken : IsTaken ((tp.startAt tp.high).status 65535) := by
    by_contra hnt
    exact hnot (mem_free.mpr ⟨hin, hnt⟩)
  have hc' := hc.enqueue hfits hhigh hin htaken
  have hfree' : ((tp.startAt tp.high).enqueue 65535).free = {65535} := by
    refine (free_enqueue hin hhigh).trans ?_
    rw [hempty]
    rfl
  have hnone : ∀ p, ¬ Suits rtcp ((tp.startAt tp.high).enqueue 65535).free p := by
    intro p hp
    have hmem := hp.1
    rw [hfree', Finset.mem_singleton] at hmem
    have heven := hp.2.1
    omega
  obtain ⟨hserved, hc'', hsame, hhigh''⟩ := evenRounds_spec rtcp n 0 hc' hfits
    (by rw [hfree']; exact Finset.singleton_nonempty _)
    (by change tp.high + 1 + n ≤ _; omega) (fun p _ _ => hnone p) (Nat.zero_le _)
  simp only [evenRounds, heq]
  obtain ⟨p, hp, -⟩ | ⟨-, hret, hfree⟩ := hserved
  · exact absurd hp (hnone p)
  · refine ⟨hret, hfree.trans hfree', hc'', ⟨hsame.1, hsame.2⟩, hhigh''.trans ?_⟩
    change tp.high + 1 + n ≤ _
    omega

/-! ## The whole request -/

/-- The counters have room for one more request. -/
def Room (tp : Turnports) : Prop := tp.high + 2 ^ 16 ≤ 2 ^ 32 - 4

instance (tp : Turnports) : Decidable tp.Room := inferInstanceAs (Decidable (_ ≤ _))

theorem Consistent.size_eq (h : tp.Consistent) (hfits : tp.Fits) : tp.size = tp.high - tp.low := by
  have hle := h.queue_le.trans_lt hfits
  have hlow := h.low_le
  have hhigh := h.high_le
  unfold size
  omega

theorem Consistent.card_free_le (h : tp.Consistent) : tp.free.card ≤ tp.high - tp.low := by
  rw [← Nat.card_Ico]
  refine Finset.card_le_card_of_injOn tp.status ?_ ?_
  · intro p hp
    rw [Finset.mem_coe, Finset.mem_Ico]
    exact (h.listed p hp).1
  · intro p hp p' hp' heq
    rw [← (h.listed p hp).2, ← (h.listed p' hp').2, heq]

/-- What a request leaves behind in any case. -/
structure Keeps (tp tp' : Turnports) : Prop where
  consistent : tp'.Consistent
  same : SameRange tp tp'
  high_le : tp'.high < tp.high + 2 ^ 16

/-- `turnports_allocate_even` without the fault. -/
theorem allocateEven_served (rtcp : Bool) (h : tp.Consistent) (hfits : tp.Fits) (hroom : tp.Room) (hf : ¬ tp.Faults) :
    Keeps tp (tp.allocateEven rtcp).2 ∧
      ((∃ p, Suits rtcp tp.free p ∧ (tp.allocateEven rtcp).1 = p ∧
          (tp.allocateEven rtcp).2.free = afterEven rtcp tp.free p) ∨
        ((∀ p, Suits rtcp tp.free p → tp.free.card ≤ 1) ∧ (tp.allocateEven rtcp).1 = -1 ∧
          (tp.allocateEven rtcp).2.free = tp.free)) := by
  have hsize := h.size_eq hfits
  have hqueue := h.queue_le.trans_lt hfits
  have hlow := h.low_le
  unfold Room at hroom
  unfold allocateEven
  by_cases hone : 1 < tp.size
  · rw [if_pos hone]
    rcases tp.free.eq_empty_or_nonempty with hempty | hne
    · have hstop : tp.rangeStop ≠ 65535 := fun heq => hf ⟨heq, hempty, by omega⟩
      obtain ⟨hret, hfree, hc, hsame, hhigh⟩ := evenRounds_of_empty rtcp tp.size h hempty hstop
      refine ⟨⟨hc, hsame, by omega⟩, .inr ⟨fun p hp => ?_, hret, hfree.trans hempty.symm⟩⟩
      rw [hempty]
      exact Nat.zero_le 1
    · obtain ⟨hserved, hc, hsame, hhigh⟩ := evenRounds_spec rtcp tp.size tp.high h hfits hne
        (by omega) (fun p hp hle => absurd (h.listed p hp).1.2 (not_lt.mpr hle)) (by omega)
      refine ⟨⟨hc, hsame, by omega⟩, ?_⟩
      exact hserved.imp_right fun ⟨hnone, hret, hfree⟩ => ⟨fun p hp => absurd hp (hnone p), hret, hfree⟩
  · rw [if_neg hone]
    refine ⟨⟨h, ⟨rfl, rfl⟩, Nat.lt_add_of_pos_right (by decide)⟩, .inr ⟨fun _ _ => ?_, rfl, rfl⟩⟩
    have hcard := h.card_free_le
    omega

/-- `turnports_allocate_even` with the fault. -/
theorem allocateEven_of_faults (rtcp : Bool) (h : tp.Consistent) (hfits : tp.Fits) (hroom : tp.Room) (hf : tp.Faults) :
    Keeps tp (tp.allocateEven rtcp).2 ∧ (tp.allocateEven rtcp).1 = -1 ∧
      (tp.allocateEven rtcp).2.free = {65535} := by
  have hsize := h.size_eq hfits
  have hqueue := h.queue_le.trans_lt hfits
  have hone := hf.2.2
  unfold Room at hroom
  obtain ⟨n, hn⟩ : ∃ n, tp.size = n + 1 := ⟨tp.size - 1, by omega⟩
  obtain ⟨hret, hfree, hc, hsame, hhigh⟩ := evenRounds_of_faults rtcp n h hfits hf (by omega)
  unfold allocateEven
  rw [if_pos (by omega), hn]
  exact ⟨⟨hc, hsame, by omega⟩, hret, hfree⟩

/-! ## Requests -/

/-- A call of one of the functions of `turn_ports.c`. -/
inductive Request
  | allocate
  | allocateEven (rtcp : Bool)
  | release (port : Nat)

/-- What the caller gets (`release` returns nothing), and the table after the call. -/
def serve (tp : Turnports) : Request → Option Int × Turnports
  | .allocate => (some tp.allocate.1, tp.allocate.2)
  | .allocateEven rtcp => (some (tp.allocateEven rtcp).1, (tp.allocateEven rtcp).2)
  | .release port => (none, tp.release port)

theorem serve_allocate {ret : Int} {tp' : Turnports} (h : tp.allocate = (ret, tp')) :
    tp.serve .allocate = (some ret, tp') := by
  rw [serve, h]

theorem serve_allocateEven {ret : Int} {tp' : Turnports} (h : tp.allocateEven rtcp = (ret, tp')) :
    tp.serve (.allocateEven rtcp) = (some ret, tp') := by
  rw [serve, h]

/-- The fault is met. -/
def FaultsAt (tp : Turnports) : Request → Prop
  | .allocateEven _ => tp.Faults
  | _ => False

instance (tp : Turnports) : DecidablePred tp.FaultsAt
  | .allocate => .isFalse id
  | .allocateEven _ => inferInstanceAs (Decidable tp.Faults)
  | .release _ => .isFalse id

/-- What the table is for: a set of free ports. An even port may be refused if it is the last one. -/
inductive Serves (start stop : Nat) (free : Finset Nat) : Request → Option Int → Finset Nat → Prop
  | allocate {p : Nat} : p ∈ free → Serves start stop free .allocate (some p) (free.erase p)
  | none : free = ∅ → Serves start stop free .allocate (some (-1)) free
  | even {rtcp : Bool} {p : Nat} : Suits rtcp free p →
      Serves start stop free (.allocateEven rtcp) (some p) (afterEven rtcp free p)
  | noEven {rtcp : Bool} : (∀ p, Suits rtcp free p → free.card ≤ 1) →
      Serves start stop free (.allocateEven rtcp) (some (-1)) free
  | release {p : Nat} : start ≤ p ∧ p ≤ stop → Serves start stop free (.release p) .none (insert p free)
  | releaseOther {p : Nat} : ¬ (start ≤ p ∧ p ≤ stop) → Serves start stop free (.release p) .none free

/-- A request is served as it should be. -/
def ServedRight (tp : Turnports) (req : Request) : Prop :=
  Serves tp.rangeStart tp.rangeStop tp.free req (tp.serve req).1 (tp.serve req).2.free

theorem Consistent.keeps_allocate (h : tp.Consistent) : Keeps tp tp.allocate.2 := by
  obtain ⟨-, heq, hc⟩ | ⟨l, hl, hlt, hc, -, hstatus, heq⟩ := allocate_cases h
  · rw [heq]
    exact ⟨hc, ⟨rfl, rfl⟩, Nat.lt_add_of_pos_right (by decide)⟩
  · rw [heq]
    exact ⟨hc.takeHead hlt hstatus isTaken_takenSingle, ⟨rfl, rfl⟩, Nat.lt_add_of_pos_right (by decide)⟩

theorem Consistent.keeps_release (h : tp.Consistent) (hfits : tp.Fits) (hroom : tp.Room) (p : Nat) :
    Keeps tp (tp.release p) := by
  unfold Room at hroom
  rw [release_eq (by omega)]
  split
  · rename_i hp
    refine ⟨h.enqueue hfits (by omega) hp.1 ?_, ⟨rfl, rfl⟩, ?_⟩
    · by_contra hnt
      exact hp.2 (mem_free.mpr ⟨hp.1, hnt⟩)
    · change tp.high + 1 < tp.high + 2 ^ 16
      omega
  · exact ⟨h, ⟨rfl, rfl⟩, Nat.lt_add_of_pos_right (by decide)⟩

/-- **Every request keeps the invariant**, also if the fault is met. -/
theorem Consistent.keeps_serve (h : tp.Consistent) (hfits : tp.Fits) (hroom : tp.Room) (req : Request) :
    Keeps tp (tp.serve req).2 := by
  cases req with
  | allocate => exact h.keeps_allocate
  | allocateEven rtcp =>
    have hkeeps : Keeps tp (tp.allocateEven rtcp).2 := by
      by_cases hf : tp.Faults
      · exact (allocateEven_of_faults rtcp h hfits hroom hf).1
      · exact (allocateEven_served rtcp h hfits hroom hf).1
    obtain ⟨ret, tp', heq⟩ : ∃ ret tp', tp.allocateEven rtcp = (ret, tp') := ⟨_, _, Prod.mk.eta.symm⟩
    rw [heq] at hkeeps
    rw [serve_allocateEven heq]
    exact hkeeps
  | release p => exact h.keeps_release hfits hroom p

theorem Consistent.serves_allocate (h : tp.Consistent) : tp.ServedRight .allocate := by
  unfold ServedRight serve
  obtain ⟨hempty, heq, -⟩ | ⟨l, -, -, -, hmem, -, heq⟩ := allocate_cases h
  · rw [heq]
    exact .none hempty
  · have hfree : ((tp.startAt l).takeHead takenSingle).free = tp.free.erase (tp.entry l) :=
      free_takeHead _ isTaken_takenSingle
    rw [heq]
    simp only [hfree]
    exact .allocate hmem

theorem Consistent.serves_release (hroom : tp.Room) (p : Nat) : tp.ServedRight (.release p) := by
  unfold Room at hroom
  unfold ServedRight serve
  simp only [release_eq (show tp.high < 2 ^ 32 - 4 by omega)]
  by_cases hin : tp.rangeStart ≤ p ∧ p ≤ tp.rangeStop
  · by_cases hp : p ∈ tp.free
    · rw [if_neg (fun h => h.2 hp)]
      have hins : Serves tp.rangeStart tp.rangeStop tp.free (.release p) none (insert p tp.free) := .release hin
      rwa [Finset.insert_eq_of_mem hp] at hins
    · rw [if_pos ⟨hin, hp⟩, free_enqueue hin (by omega)]
      exact .release hin
  · rw [if_neg (fun h => hin h.1)]
    exact .releaseOther hin

/-- **One request** is served as it should be exactly if the fault is not met. -/
theorem Consistent.servedRight_iff (h : tp.Consistent) (hfits : tp.Fits) (hroom : tp.Room) (req : Request) :
    tp.ServedRight req ↔ ¬ tp.FaultsAt req := by
  cases req with
  | allocate => exact iff_of_true h.serves_allocate id
  | release p => exact iff_of_true (Consistent.serves_release hroom p) id
  | allocateEven rtcp =>
    obtain ⟨ret, tp', heq⟩ : ∃ ret tp', tp.allocateEven rtcp = (ret, tp') := ⟨_, _, Prod.mk.eta.symm⟩
    unfold ServedRight
    rw [serve_allocateEven heq]
    by_cases hf : tp.Faults
    · refine iff_of_false ?_ (not_not.mpr hf)
      obtain ⟨-, -, hfree⟩ := heq ▸ allocateEven_of_faults rtcp h hfits hroom hf
      intro hs
      generalize htp : tp'.free = F at hfree hs
      cases hs with
      | even hp =>
        have hmem := hp.1
        rw [hf.2.1] at hmem
        exact Finset.notMem_empty _ hmem
      | noEven _ => exact Finset.singleton_ne_empty _ (hfree.symm.trans hf.2.1)
    · refine iff_of_true ?_ hf
      obtain ⟨-, ⟨p, hp, hret, hfree⟩ | ⟨hnone, hret, hfree⟩⟩ :=
        heq ▸ allocateEven_served rtcp h hfits hroom hf
      · rw [show tp'.free = _ from hfree, show ret = _ from hret]
        exact .even hp
      · rw [show tp'.free = _ from hfree, show ret = _ from hret]
        exact .noEven hnone

/-! ## Runs -/

/-- A request and what the caller got. -/
abbrev Call := Request × Option Int

/-- One call. -/
def Step (tp : Turnports) (c : Call) (tp' : Turnports) : Prop := tp.serve c.1 = (c.2, tp')

/-- What holds between the calls. -/
structure Inv (start stop : Nat) (tp : Turnports) : Prop where
  consistent : tp.Consistent
  rangeStart : tp.rangeStart = start
  rangeStop : tp.rangeStop = stop

variable {start stop : Nat}

theorem inv_init (hle : start ≤ stop) (hstop : stop < 2 ^ 16) (random : Nat → Nat) :
    Inv start stop (init start stop random) := by
  have h := shuffled_init hle hstop random
  exact ⟨(h.consistent hle hstop).1, h.rangeStart, h.rangeStop⟩

theorem Inv.step (hfits : (stop + 1 - start) + (stop + 1 - start) / 2 < 2 ^ 16) {c : Call} {tp' : Turnports}
    (h : Inv start stop tp) (hroom : tp.Room) (hstep : Step tp c tp') : Inv start stop tp' := by
  obtain ⟨hc, rfl, rfl⟩ := h
  have hkeeps := hc.keeps_serve hfits hroom c.1
  rw [show tp.serve c.1 = (c.2, tp') from hstep] at hkeeps
  exact ⟨hkeeps.consistent, hkeeps.same.rangeStart, hkeeps.same.rangeStop⟩

/-- **The relay ports of one address**, for a range of at most 43690 ports and as long as the counters have room.
The calls that are served as they should be are exactly those that do not meet the fault, and without it every
run of the table is a run of the set of the free ports. -/
theorem relayPorts_refines (hle : start ≤ stop) (hstop : stop < 2 ^ 16)
    (hfits : (stop + 1 - start) + (stop + 1 - start) / 2 < 2 ^ 16) (random : Nat → Nat) (cs : List Call)
    (tp' : Turnports) :
    (Run.Steps Step (fun tp c => tp.Room ∧ tp.ServedRight c.1) (init start stop random) cs tp' ↔
      Run.Steps Step (fun tp c => tp.Room ∧ ¬ tp.FaultsAt c.1) (init start stop random) cs tp') ∧
    (Run.Steps Step (fun tp c => tp.Room ∧ ¬ tp.FaultsAt c.1) (init start stop random) cs tp' →
      Run.Steps (fun free c free' => Serves start stop free c.1 c.2 free') Run.Any (Finset.Icc start stop) cs
        tp'.free) := by
  have hinit := inv_init hle hstop random
  refine ⟨Run.Steps.congr (I := Inv start stop) (fun tp c tp' h hP => h.step hfits hP.1)
    (fun tp c h => and_congr_right fun hroom => ?_) hinit, fun hrun => ?_⟩
  · obtain ⟨hc, rfl, rfl⟩ := h
    exact hc.servedRight_iff hfits hroom c.1
  · rw [← ((shuffled_init hle hstop random).consistent hle hstop).2]
    generalize init start stop random = tp at hinit hrun
    induction hrun with
    | nil tp => exact .nil _
    | @cons tp tp₁ _ c _ hP hstep _ ih =>
      have hinv := hinit.step hfits hP.1 hstep
      obtain ⟨hc, rfl, rfl⟩ := hinit
      have hserved := (hc.servedRight_iff hfits hP.1 c.1).mpr hP.2
      unfold ServedRight at hserved
      rw [show tp.serve c.1 = (c.2, tp₁) from hstep] at hserved
      exact .cons trivial hserved (ih hinv)

/-- A port of a small range is taken and given back. -/
theorem relayPorts_refines_small :
    Run.Steps (fun free c free' => Serves 4 5 free c.1 c.2 free') Run.Any (Finset.Icc 4 5)
      [(.allocate, some 4), (.release 4, none)]
      (((init 4 5 fun _ => 0).serve .allocate).2.serve (.release 4)).2.free :=
  (relayPorts_refines (by decide) (by decide) (by decide) (fun _ => 0) _ _).2
    (.cons ⟨by decide +kernel, id⟩ rfl (.cons ⟨by decide +kernel, id⟩ rfl (.nil _)))

/-- The fault is met after two pairs are taken of four ports. -/
example : (((init 65532 65535 fun i => [1, 2].getD i 0).serve (.allocateEven true)).2.serve
    (.allocateEven true)).2.Faults := by
  decide +kernel

end Turnports
end Turn
end QosSupport
