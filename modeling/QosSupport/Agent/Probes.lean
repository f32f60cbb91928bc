import QosSupport.Js.Arithmetic
import Mathlib.Data.List.DropRight
import Mathlib.Data.List.Induction

/-!
# The probes of a TURN agent (`agent/src/agent/agent.js`)

`_storeProbe` keeps the last round-trip times of each agent, and their mean, in a plain object whose
properties are the ids of the agents.

* `TurnProbes`: the entries, and what a plain object finds besides them. A name that it inherits is found
  before the first probe; `__proto__` is not a property of its own.
* `entry_after`: the entry of every agent after any calls. The window has one probe more than
  `maxProbes`, and the mean of a first probe is an array.
* `MeanExact`: the mean is computed with Numbers, but has the right integer part. Round-trip times up to
  `2 ^ 45` are small enough (`meanExact_of_bound`).
* `window_iff`: exactly when an entry is the one that it should be.
-/

namespace QosSupport
namespace Agent

open Js

/-! ## Entries -/

/-- A round-trip time: an integer that is a Number. -/
structure Rtt where
  ms : Int
  isNumber : Number.ofRat ms = .fin ms

/-- `maxProbes` -/
def maxProbes : Nat := 10

/-- `meanProbes` of an entry. -/
inductive Mean where
  /-- `[calc]`, with the round-trip time of a first probe. -/
  | array (rtt : Rtt)
  | number (n : Number)

structure Entry where
  agentAddress : String
  lastProbes : List Rtt
  meanProbes : Mean
  lastSeen : Int

/-- One call of `_storeProbe`, and the time. -/
structure Call where
  agentId : String
  host : String
  rtt : Rtt
  now : Int

/-! ## The object -/

/-- `turnProbes`: its own properties, and the entry that was stored as `__proto__`, if any. -/
structure TurnProbes where
  own : String → Option Entry
  proto : Option Entry

/-- The names that every object inherits. -/
def objectPrototype : List String :=
  ["constructor", "__defineGetter__", "__defineSetter__", "hasOwnProperty", "__lookupGetter__",
   "__lookupSetter__", "isPrototypeOf", "propertyIsEnumerable", "toString", "valueOf", "__proto__",
   "toLocaleString"]

/-- The names that it inherits from an entry. -/
def entryFields : List String := ["agentAddress", "lastProbes", "meanProbes", "lastSeen"]

/-- What `turnProbes[agentId]` is. -/
inductive Found where
  | undefined
  | entry (e : Entry)
  /-- A value that has no `lastProbes`. -/
  | other

namespace TurnProbes

def empty : TurnProbes := { own := fun _ => none, proto := none }

/-- The entry of an agent. -/
def entryOf (t : TurnProbes) (agentId : String) : Option Entry :=
  if agentId = "__proto__" then t.proto else t.own agentId

/-- A name that is found without an entry. -/
def Inherits (t : TurnProbes) (agentId : String) : Prop :=
  agentId ∈ objectPrototype ∨ (agentId ∈ entryFields ∧ t.proto.isSome)

instance (t : TurnProbes) (agentId : String) : Decidable (t.Inherits agentId) :=
  inferInstanceAs (Decidable (_ ∨ _))

/-- `turnProbes[agentId]` -/
def get (t : TurnProbes) (agentId : String) : Found :=
  match t.entryOf agentId with
  | some e => .entry e
  | none => if t.Inherits agentId then .other else .undefined

/-- `turnProbes[agentId] = e` -/
def set (t : TurnProbes) (agentId : String) (e : Entry) : TurnProbes :=
  if agentId = "__proto__" then { t with proto := some e }
  else { t with own := Function.update t.own agentId (some e) }

end TurnProbes

/-- The mean of the probes, and what `parseInt` makes of it. -/
def meanProbes (lastProbes : List Rtt) : Number :=
  ((lastProbes.foldl (fun m p => Number.add m (.fin p.ms)) (.fin 0)).divNat lastProbes.length).parseInt

/-- The oldest probe is removed if there are more than `maxProbes`; then the new one is pushed. -/
def pushProbe (lastProbes : List Rtt) (rtt : Rtt) : List Rtt :=
  (if lastProbes.length > maxProbes then lastProbes.tail else lastProbes) ++ [rtt]

/-- The entry that a call stores. -/
def newEntry (t : TurnProbes) (c : Call) : Entry :=
  match t.get c.agentId with
  | .undefined =>
    { agentAddress := c.host, lastProbes := [c.rtt], meanProbes := .array c.rtt, lastSeen := c.now }
  | .other =>
    { agentAddress := c.host, lastProbes := [c.rtt], meanProbes := .number (meanProbes [c.rtt])
      lastSeen := c.now }
  | .entry e =>
    let lastProbes := pushProbe e.lastProbes c.rtt
    { agentAddress := c.host, lastProbes := lastProbes, meanProbes := .number (meanProbes lastProbes)
      lastSeen := c.now }

/-- `_storeProbe` -/
def storeProbe (t : TurnProbes) (c : Call) : TurnProbes := t.set c.agentId (newEntry t c)

/-- The object after some calls. -/
def after (cs : List Call) : TurnProbes := cs.foldl storeProbe .empty

/-! ## The calls of an agent -/

def callsOf (cs : List Call) (agentId : String) : List Call := cs.filter fun c => c.agentId = agentId

/-- Its probes, in their order. -/
def probesOf (cs : List Call) (agentId : String) : List Rtt := (callsOf cs agentId).map (·.rtt)

/-- Its first call finds a name that is inherited. -/
def FoundFirst (cs : List Call) (agentId : String) : Prop :=
  agentId ∈ objectPrototype ∨
    (agentId ∈ entryFields ∧ "__proto__" ∈ (cs.map (·.agentId)).takeWhile (· ≠ agentId))

instance (cs : List Call) (agentId : String) : Decidable (FoundFirst cs agentId) :=
  inferInstanceAs (Decidable (_ ∨ _))

/-! ## What a call changes -/

section Step

variable {t : TurnProbes} {a b : String} {e : Entry} {c : Call} {cs : List Call}

theorem entryOf_set_self (t : TurnProbes) (a : String) (e : Entry) : (t.set a e).entryOf a = some e := by
  unfold TurnProbes.set TurnProbes.entryOf
  split
  · rfl
  · simp

theorem entryOf_set_of_ne (h : a ≠ b) : (t.set b e).entryOf a = t.entryOf a := by
  unfold TurnProbes.set TurnProbes.entryOf
  by_cases hb : b = "__proto__"
  · have ha : a ≠ "__proto__" := fun ha => h (ha.trans hb.symm)
    simp [hb, ha]
  · simp [hb, h]

theorem after_append (cs : List Call) (c : Call) : after (cs ++ [c]) = storeProbe (after cs) c := by
  rw [after, List.foldl_append]
  rfl

/-- The entries of other agents stay as they are. -/
theorem entryOf_storeProbe_of_ne (h : a ≠ c.agentId) : (storeProbe t c).entryOf a = t.entryOf a := by
  rw [storeProbe, entryOf_set_of_ne h]

theorem callsOf_append (cs : List Call) (c : Call) (a : String) :
    callsOf (cs ++ [c]) a = callsOf cs a ++ if c.agentId = a then [c] else [] := by
  unfold callsOf
  rw [List.filter_append]
  congr 1
  by_cases h : c.agentId = a <;> simp [h]

/-- An entry is there after the first call. -/
theorem entryOf_eq_none_iff (cs : List Call) (a : String) :
    (after cs).entryOf a = none ↔ a ∉ cs.map (·.agentId) := by
  induction cs using List.reverseRecOn with
  | nil => simp [after, TurnProbes.empty, TurnProbes.entryOf]
  | append_singleton cs c ih =>
    rw [after_append]
    by_cases h : a = c.agentId
    · subst h
      rw [storeProbe, entryOf_set_self]
      simp
    · rw [entryOf_storeProbe_of_ne h, ih]
      simp [h]

end Step

/-! ## The entries after any calls -/

section Entries

variable {a : String} {c : Call} {cs : List Call}

/-- The window has room for one probe more than `maxProbes`. -/
theorem pushProbe_rtake (l : List Rtt) (rtt : Rtt) :
    pushProbe (l.rtake (maxProbes + 1)) rtt = (l ++ [rtt]).rtake (maxProbes + 1) := by
  rw [List.rtake_concat_succ, pushProbe]
  congr 1
  simp only [List.rtake, List.length_drop, List.tail_drop]
  split
  · congr 1
    omega
  · congr 1
    omega

/-- The entry of an agent after the calls `cs`, the last one of which for this agent is `c`. -/
def entryAfter (cs : List Call) (agentId : String) (c : Call) : Entry where
  agentAddress := c.host
  lastProbes := (probesOf cs agentId).rtake (maxProbes + 1)
  meanProbes :=
    if (callsOf cs agentId).length = 1 ∧ ¬ FoundFirst cs agentId then .array c.rtt
    else .number (meanProbes ((probesOf cs agentId).rtake (maxProbes + 1)))
  lastSeen := c.now

theorem callsOf_eq_nil_iff : callsOf cs a = [] ↔ a ∉ cs.map (·.agentId) := by
  simp only [callsOf, List.filter_eq_nil_iff, decide_eq_true_eq, List.mem_map, not_exists, not_and]

/-- The first call of an agent looks up its name in the object before. -/
theorem foundFirst_append_self (h : c.agentId ∉ cs.map (·.agentId)) :
    FoundFirst (cs ++ [c]) c.agentId ↔ (after cs).Inherits c.agentId := by
  have hwhile : ((cs ++ [c]).map (·.agentId)).takeWhile (· ≠ c.agentId) = cs.map (·.agentId) := by
    have hall : ∀ x ∈ cs.map (·.agentId), decide (x ≠ c.agentId) = true := by
      intro x hx
      exact decide_eq_true fun heq => h (heq ▸ hx)
    rw [List.map_append, List.takeWhile_append_of_pos hall]
    simp
  have hproto : (after cs).proto.isSome ↔ "__proto__" ∈ cs.map (·.agentId) := by
    have hentry := entryOf_eq_none_iff cs "__proto__"
    rw [← not_iff_not, ← hentry]
    simp [TurnProbes.entryOf]
  rw [FoundFirst, TurnProbes.Inherits, hwhile, hproto]

/-- Later calls of other agents make no difference to that. -/
theorem foundFirst_append_of_mem (h : a ∈ cs.map (·.agentId)) (c : Call) :
    FoundFirst (cs ++ [c]) a ↔ FoundFirst cs a := by
  have hwhile : ((cs ++ [c]).map (·.agentId)).takeWhile (· ≠ a) =
      (cs.map (·.agentId)).takeWhile (· ≠ a) := by
    rw [List.map_append, List.takeWhile_append, if_neg]
    intro hlen
    have hall := List.takeWhile_eq_self_iff.mp (List.takeWhile_sublist _ |>.eq_of_length hlen)
    exact absurd (hall a h) (by simp)
  rw [FoundFirst, FoundFirst, hwhile]

/-- The first probe of an agent. -/
theorem newEntry_first (h : callsOf cs c.agentId = []) :
    newEntry (after cs) c = entryAfter (cs ++ [c]) c.agentId c := by
  have hmem := callsOf_eq_nil_iff.mp h
  have hnone := (entryOf_eq_none_iff cs c.agentId).mpr hmem
  have hfound := foundFirst_append_self hmem
  have hcalls : callsOf (cs ++ [c]) c.agentId = [c] := by
    rw [callsOf_append, h, if_pos rfl, List.nil_append]
  have hwindow : (probesOf (cs ++ [c]) c.agentId).rtake (maxProbes + 1) = [c.rtt] := by
    rw [probesOf, hcalls]
    rfl
  rw [entryAfter, hwindow, hcalls]
  unfold newEntry TurnProbes.get
  rw [hnone]
  by_cases hin : (after cs).Inherits c.agentId
  · have hf := hfound.mpr hin
    simp [hin, hf]
  · have hf : ¬ FoundFirst (cs ++ [c]) c.agentId := fun hf => hin (hfound.mp hf)
    simp [hin, hf]

/-- Every other one. -/
theorem newEntry_next {c' : Call} (h : callsOf cs c.agentId ≠ [])
    (hentry : (after cs).entryOf c.agentId = some (entryAfter cs c.agentId c')) :
    newEntry (after cs) c = entryAfter (cs ++ [c]) c.agentId c := by
  have hcalls : callsOf (cs ++ [c]) c.agentId = callsOf cs c.agentId ++ [c] := by
    rw [callsOf_append, if_pos rfl]
  have hprobes : probesOf (cs ++ [c]) c.agentId = probesOf cs c.agentId ++ [c.rtt] := by
    rw [probesOf, hcalls, List.map_append]
    rfl
  have hlen : (callsOf (cs ++ [c]) c.agentId).length ≠ 1 := by
    have hpos := List.length_pos_of_ne_nil h
    rw [hcalls, List.length_append, List.length_singleton]
    omega
  unfold newEntry TurnProbes.get
  rw [hentry]
  simp only [entryAfter]
  rw [pushProbe_rtake, hprobes, if_neg (fun h1 => hlen h1.1)]

/-- **The entries after any calls.** -/
theorem entry_after (cs : List Call) (a : String) :
    (after cs).entryOf a = (callsOf cs a).getLast?.map (entryAfter cs a) := by
  induction cs using List.reverseRecOn with
  | nil => simp [after, TurnProbes.empty, TurnProbes.entryOf, callsOf]
  | append_singleton cs c ih =>
    rw [after_append]
    by_cases h : a = c.agentId
    · subst h
      rw [callsOf_append, if_pos rfl, List.getLast?_append, storeProbe, entryOf_set_self]
      simp only [List.getLast?_singleton, Option.some_or, Option.map_some]
      by_cases hnil : callsOf cs c.agentId = []
      · rw [newEntry_first hnil]
      · rw [List.getLast?_eq_some_getLast hnil] at ih
        rw [newEntry_next hnil ih]
    · have hcalls : callsOf (cs ++ [c]) a = callsOf cs a := by
        rw [callsOf_append, if_neg (fun heq => h heq.symm), List.append_nil]
      rw [entryOf_storeProbe_of_ne h, ih, hcalls]
      by_cases hnil : callsOf cs a = []
      · simp [hnil]
      · have hmem : a ∈ cs.map (·.agentId) := not_not.mp fun hn => hnil (callsOf_eq_nil_iff.mpr hn)
        congr 1
        funext c'
        simp only [entryAfter, probesOf, hcalls, foundFirst_append_of_mem hmem]

end Entries

/-! ## What the entries should be -/

/-- The integer part of the mean. -/
def integerMean (w : List Rtt) : Int := (w.map Rtt.ms).sum.tdiv w.length

/-- The entry of an agent with a probe: its last probes, at most `maxProbes`, the integer part of their
mean, and the host of the last one. -/
def Right (cs : List Call) (agentId : String) : Prop :=
  ∀ c, (callsOf cs agentId).getLast? = some c → ∃ e, (after cs).entryOf agentId = some e ∧
    e.lastProbes = (probesOf cs agentId).rtake (min (callsOf cs agentId).length maxProbes) ∧
    e.meanProbes = .number (.fin (integerMean e.lastProbes)) ∧ e.agentAddress = c.host

/-- The mean of these probes, computed with Numbers, has the right integer part. -/
def MeanExact (w : List Rtt) : Prop := meanProbes w = .fin (integerMean w)

section Windows

variable {a : String} {cs : List Call}

theorem natAbs_sum_le {B : Nat} {ms : List Int} (h : ∀ m ∈ ms, m.natAbs ≤ B) :
    ms.sum.natAbs ≤ ms.length * B := by
  induction ms with
  | nil => simp
  | cons m ms ih =>
    have hm := h m List.mem_cons_self
    have hms := ih fun x hx => h x (List.mem_cons_of_mem _ hx)
    rw [List.sum_cons, List.length_cons, Nat.succ_mul]
    omega

/-- Round-trip times of many years are small enough. -/
theorem meanExact_of_bound {w : List Rtt} (hne : w ≠ []) (hlen : w.length ≤ maxProbes)
    (h : ∀ p ∈ w, p.ms.natAbs ≤ 2 ^ 45) : MeanExact w := by
  have hms : ∀ m ∈ w.map Rtt.ms, m.natAbs ≤ 2 ^ 45 := by
    intro m hm
    obtain ⟨p, hp, rfl⟩ := List.mem_map.mp hm
    exact h p hp
  have hpos := List.length_pos_of_ne_nil hne
  unfold maxProbes at hlen
  have hsum := foldl_add (w.map Rtt.ms) hms 0 (by rw [List.length_map]; omega)
  have habs : (w.map Rtt.ms).sum.natAbs ≤ w.length * 2 ^ 45 := by
    rw [← List.length_map (f := Rtt.ms)]
    exact natAbs_sum_le hms
  rw [List.foldl_map, Int.cast_zero, zero_add] at hsum
  rw [MeanExact, meanProbes, hsum, integerMean]
  exact parseInt_divNat hpos (by omega) (by omega)

theorem length_probesOf (cs : List Call) (a : String) :
    (probesOf cs a).length = (callsOf cs a).length := List.length_map _

/-- A window of all probes. -/
theorem rtake_of_length_le {α : Type} {l : List α} {k : Nat} (h : l.length ≤ k) : l.rtake k = l := by
  rw [List.rtake, Nat.sub_eq_zero_of_le h, List.drop_zero]

theorem length_rtake {α : Type} (l : List α) (k : Nat) : (l.rtake k).length = min l.length k := by
  rw [List.rtake, List.length_drop]
  omega

/-- The window is one too long as soon as it is full. -/
theorem window_eq_iff {l : List Rtt} :
    l.rtake (maxProbes + 1) = l.rtake (min l.length maxProbes) ↔ l.length ≤ maxProbes := by
  constructor
  · intro h
    have hl := congrArg List.length h
    rw [length_rtake, length_rtake] at hl
    omega
  · intro h
    rw [rtake_of_length_le (by omega), rtake_of_length_le (by omega)]

/-- The mean of a window with all probes is the right one, unless it is the array of the first probe. -/
theorem mean_eq_iff (hne : callsOf cs a ≠ []) (hle : (callsOf cs a).length ≤ maxProbes) (c : Call) :
    (entryAfter cs a c).meanProbes = .number (.fin (integerMean (entryAfter cs a c).lastProbes)) ↔
      (2 ≤ (callsOf cs a).length ∨ FoundFirst cs a) ∧ MeanExact (probesOf cs a) := by
  have hpos := List.length_pos_of_ne_nil hne
  have hlen := length_probesOf cs a
  have hall : (probesOf cs a).rtake (maxProbes + 1) = probesOf cs a := rtake_of_length_le (by omega)
  simp only [entryAfter, hall]
  by_cases hfirst : (callsOf cs a).length = 1 ∧ ¬ FoundFirst cs a
  · rw [if_pos hfirst]
    refine iff_of_false ?_ ?_
    · intro h
      cases h
    · rintro ⟨h2 | hf, -⟩
      · omega
      · exact hfirst.2 hf
  · have hfound : 2 ≤ (callsOf cs a).length ∨ FoundFirst cs a := by
      by_contra hnot
      rw [not_or] at hnot
      exact hfirst ⟨by omega, hnot.2⟩
    rw [if_neg hfirst, Mean.number.injEq]
    exact ⟨fun h => ⟨hfound, h⟩, fun h => h.2⟩

theorem right_iff (cs : List Call) (a : String) : Right cs a ↔
    callsOf cs a = [] ∨ ((callsOf cs a).length ≤ maxProbes ∧
      (2 ≤ (callsOf cs a).length ∨ FoundFirst cs a) ∧ MeanExact (probesOf cs a)) := by
  by_cases hnil : callsOf cs a = []
  · refine iff_of_true ?_ (.inl hnil)
    intro c hc
    rw [hnil] at hc
    cases hc
  · have hlast := List.getLast?_eq_some_getLast hnil
    have hentry := entry_after cs a
    rw [hlast, Option.map_some] at hentry
    constructor
    · intro h
      obtain ⟨e, he, hprobes, hmean, -⟩ := h _ hlast
      obtain rfl := Option.some.inj (hentry.symm.trans he)
      rw [← length_probesOf] at hprobes
      have hle := window_eq_iff.mp hprobes
      rw [length_probesOf] at hle
      exact .inr ⟨hle, (mean_eq_iff hnil hle _).mp hmean⟩
    · rintro (h | ⟨hle, hmean⟩)
      · exact absurd h hnil
      · intro c hc
        obtain rfl := Option.some.inj (hlast.symm.trans hc)
        refine ⟨_, hentry, ?_, (mean_eq_iff hnil hle _).mpr hmean, rfl⟩
        rw [← length_probesOf] at hle ⊢
        exact window_eq_iff.mpr hle

end Windows

/-- **The windows of the agents**, after any calls: exactly when the entry of an agent is right. For small
round-trip times this depends on their number only. A call never changes the entry of another agent. -/
theorem window_iff (cs : List Call) (a : String) :
    (Right cs a ↔ callsOf cs a = [] ∨ ((callsOf cs a).length ≤ maxProbes ∧
      (2 ≤ (callsOf cs a).length ∨ FoundFirst cs a) ∧ MeanExact (probesOf cs a))) ∧
    ((∀ p ∈ probesOf cs a, p.ms.natAbs ≤ 2 ^ 45) →
      (Right cs a ↔ callsOf cs a = [] ∨ ((callsOf cs a).length ≤ maxProbes ∧
        (2 ≤ (callsOf cs a).length ∨ FoundFirst cs a)))) ∧
    (∀ c, a ≠ c.agentId → (after (cs ++ [c])).entryOf a = (after cs).entryOf a) := by
  refine ⟨right_iff cs a, ?_, ?_⟩
  · intro h
    rw [right_iff]
    by_cases hnil : callsOf cs a = []
    · exact iff_of_true (.inl hnil) (.inl hnil)
    · have hne : probesOf cs a ≠ [] := fun hp => hnil (List.map_eq_nil_iff.mp hp)
      have hexact : (callsOf cs a).length ≤ maxProbes → MeanExact (probesOf cs a) := by
        intro hle
        exact meanExact_of_bound hne (by rwa [length_probesOf]) h
      refine or_congr_right ⟨fun ⟨hle, hfirst, _⟩ => ⟨hle, hfirst⟩, ?_⟩
      rintro ⟨hle, hfirst⟩
      exact ⟨hle, hfirst, hexact hle⟩
  · intro c h
    rw [after_append, entryOf_storeProbe_of_ne h]

/-- A probe of the agent `a` that took 7 milliseconds. -/
def probe : Call where
  agentId := "a"
  host := "127.0.0.1:20000"
  rtt := { ms := 7, isNumber := ofRat_intCast (by decide) }
  now := 0

/-- The mean of the first probe is an array, and the window keeps eleven probes. -/
theorem first_and_eleventh_probe :
    ((after [probe]).entryOf "a").map (·.meanProbes) = some (.array probe.rtt) ∧ ¬ Right [probe] "a" ∧
    ((after (List.replicate 11 probe)).entryOf "a").map (·.lastProbes.length) = some 11 ∧
    ¬ Right (List.replicate 11 probe) "a" := by
  have hmean : ((after [probe]).entryOf "a").map (·.meanProbes) = some (.array probe.rtt) := rfl
  have hlen : ((after (List.replicate 11 probe)).entryOf "a").map (·.lastProbes.length) = some 11 := rfl
  refine ⟨hmean, ?_, hlen, ?_⟩
  · intro h
    obtain ⟨e, he, -, hm, -⟩ := h probe rfl
    rw [he, Option.map_some, hm] at hmean
    cases hmean
  · intro h
    obtain ⟨e, he, hprobes, -, -⟩ := h probe rfl
    rw [he, Option.map_some, hprobes] at hlen
    exact absurd hlen (by decide)

end Agent
end QosSupport
