import Mathlib.Logic.Function.Basic
import QosSupport.Lhcb.RequestHandler
import QosSupport.Lib.Run

/-!
# Replies to the messages that a client sends

`SendReplyWebsocketAdapter` returns a promise for every message it sends, and keeps it in `futureMap`,
under the id of the message, until a text with this id arrives.

* `Adapter`: the promises that `send` has returned, and the table. A promise records all attempts to
  complete it; the first one counts.
* `Exact`: the table has exactly the promises that are not completed, each under its own id, and every
  promise is `Sound`.
* `exact_iff`: in every run of messages with different ids, `Exact` holds in every state exactly if no
  message fails on the way out. The promise of such a message is completed, and stays in the table.
-/

namespace QosSupport
namespace Lhcb

open Run

/-- How a promise is completed. -/
inductive Completion where
  | complete (msg : Message)
  /-- `completeExceptionally`, with `IllegalStateException("No connection")`. -/
  | noConnection
  /-- `completeExceptionally`, with the `IOException`. -/
  | ioException

/-- A promise for the reply to the message with the id `mid`. -/
structure ReplyPromise where
  mid : Int
  completions : List Completion

namespace ReplyPromise

/-- The promise is not completed. -/
def Pending (p : ReplyPromise) : Prop := p.completions = []

/-- One more attempt to complete the promise. -/
def attempt (p : ReplyPromise) (c : Completion) : ReplyPromise :=
  { p with completions := p.completions ++ [c] }

/-- How the promise is completed: later attempts have no effect. -/
def outcome (p : ReplyPromise) : Option Completion := p.completions.head?

/-- The promise is completed once at most, and normally only by a message with its id. -/
structure Sound (p : ReplyPromise) : Prop where
  once : p.completions.length ≤ 1
  own : ∀ msg, p.outcome = some (.complete msg) → msg.mid = p.mid

end ReplyPromise

/-- The adapter; a promise is known by its place among all promises. -/
structure Adapter where
  futureMap : Int → Option Nat
  promises : List ReplyPromise

namespace Adapter

/-- Nothing was sent yet. -/
def init : Adapter := { futureMap := fun _ => none, promises := [] }

/-- What happens to a message that is sent. -/
inductive SendOutcome where
  | notConnected
  | sent
  | ioException
  deriving DecidableEq

/-- `send`: the new promise is the last one. -/
def send (s : Adapter) (msg : Message) : SendOutcome → Adapter
  | .notConnected =>
    { s with promises := s.promises ++ [{ mid := msg.mid, completions := [.noConnection] }] }
  | .sent =>
    { futureMap := Function.update s.futureMap msg.mid (some s.promises.length)
      promises := s.promises ++ [{ mid := msg.mid, completions := [] }] }
  | .ioException =>
    { futureMap := Function.update s.futureMap msg.mid (some s.promises.length)
      promises := s.promises ++ [{ mid := msg.mid, completions := [.ioException] }] }

/-- A message is received: its promise, if there is one, is taken from the table and completed. -/
def receive (s : Adapter) (msg : Message) : Adapter :=
  match s.futureMap msg.mid with
  | none => s
  | some i =>
    { futureMap := Function.update s.futureMap msg.mid none
      promises := s.promises.modify i (·.attempt (.complete msg)) }

/-- `onWebSocketText`: a text that is not decoded changes nothing. -/
def onWebSocketText (gson : Gson) (s : Adapter) (nextId : Int) (message : String) : Adapter :=
  match (Message.fromString gson message nextId).1 with
  | .ok msg => s.receive msg
  | .error _ => s

end Adapter

/-- A message is sent, or a text arrives, with the next automatic id that there is then. -/
inductive AdapterEvent where
  | send (msg : Message) (outcome : Adapter.SendOutcome)
  | text (nextId : Int) (message : String)

namespace Adapter

def next (gson : Gson) (s : Adapter) : AdapterEvent → Adapter
  | .send msg outcome => s.send msg outcome
  | .text nextId message => s.onWebSocketText gson nextId message

def step (gson : Gson) (s : Adapter) (e : AdapterEvent) (s' : Adapter) : Prop := s' = s.next gson e

/-- A message that is sent has another id than all messages before. -/
def Distinct (s : Adapter) : AdapterEvent → Prop
  | .send msg _ => ∀ p ∈ s.promises, p.mid ≠ msg.mid
  | .text _ _ => True

/-- No message fails on the way out. -/
def Delivers : AdapterEvent → Prop
  | .send _ outcome => outcome ≠ .ioException
  | .text _ _ => True

/-- The table and the promises (module doc). -/
structure Exact (s : Adapter) : Prop where
  table : ∀ mid i, s.futureMap mid = some i ↔ ∃ p, s.promises[i]? = some p ∧ p.Pending ∧ p.mid = mid
  sound : ∀ p ∈ s.promises, p.Sound

theorem exact_init : init.Exact := ⟨by simp [init], by simp [init]⟩

section Steps

variable {s s' : Adapter} {msg : Message}

/-- A promise that is new. -/
theorem getElem?_snoc {p q : ReplyPromise} {i : Nat} : (s.promises ++ [q])[i]? = some p ↔
    s.promises[i]? = some p ∨ i = s.promises.length ∧ p = q := by
  rcases Nat.lt_trichotomy i s.promises.length with h | rfl | h
  · rw [List.getElem?_append_left h]
    simp [Nat.ne_of_lt h]
  · simp [eq_comm]
  · rw [List.getElem?_eq_none (by simp; omega), List.getElem?_eq_none (by omega)]
    simp [Nat.ne_of_gt h]

theorem Exact.sound_snoc (hs : s.Exact) {q : ReplyPromise} (hq : q.Sound) :
    ∀ p ∈ s.promises ++ [q], p.Sound := by
  intro p hp
  rcases List.mem_append.mp hp with hp | hp
  · exact hs.sound p hp
  · rwa [List.mem_singleton.mp hp]

theorem exact_notConnected (hs : s.Exact) : (s.send msg .notConnected).Exact where
  table mid i := by
    simp only [send, getElem?_snoc, hs.table]
    refine exists_congr fun p => and_congr_left ?_
    rintro ⟨hp, -⟩
    refine ⟨.inl, fun h => h.resolve_right ?_⟩
    rintro ⟨-, rfl⟩
    cases hp
  sound := hs.sound_snoc ⟨Nat.le_refl 1, nofun⟩

theorem exact_sent (hs : s.Exact) (hd : ∀ p ∈ s.promises, p.mid ≠ msg.mid) :
    (s.send msg .sent).Exact where
  table mid i := by
    simp only [send, getElem?_snoc]
    by_cases hmid : mid = msg.mid
    · subst hmid
      rw [Function.update_self]
      constructor
      · intro h
        cases h
        exact ⟨_, .inr ⟨rfl, rfl⟩, rfl, rfl⟩
      · rintro ⟨p, hp | ⟨rfl, -⟩, -, hmid⟩
        · exact absurd hmid (hd p (List.mem_of_getElem? hp))
        · rfl
    · rw [Function.update_of_ne hmid, hs.table]
      refine exists_congr fun p => and_congr_left ?_
      rintro ⟨-, hp⟩
      refine ⟨.inl, fun h => h.resolve_right ?_⟩
      rintro ⟨-, rfl⟩
      exact hmid hp.symm
  sound := hs.sound_snoc ⟨Nat.zero_le 1, nofun⟩

/-- A message that fails on the way out leaves its promise in the table. -/
theorem not_exact_ioException (s : Adapter) (msg : Message) : ¬ (s.send msg .ioException).Exact := by
  intro h
  obtain ⟨p, hp, hpending, -⟩ := (h.table msg.mid s.promises.length).mp (by simp [send])
  obtain rfl : p = { mid := msg.mid, completions := [.ioException] } := by
    simpa [send, eq_comm] using hp
  cases hpending

/-- The promises after one was completed. -/
theorem getElem?_completed {p : ReplyPromise} {i j : Nat} {c : Completion} :
    (s.promises.modify i (·.attempt c))[j]? = some p ↔
      ∃ q, s.promises[j]? = some q ∧ p = if i = j then q.attempt c else q := by
  rw [List.getElem?_modify]
  cases s.promises[j]? with
  | none => simp
  | some q => by_cases hij : i = j <;> simp [hij, eq_comm]

/-- A completed promise is not pending; the others are what they were. -/
theorem pending_completed {i j : Nat} {c : Completion} {mid : Int} :
    (∃ p, (s.promises.modify i (·.attempt c))[j]? = some p ∧ p.Pending ∧ p.mid = mid) ↔
      i ≠ j ∧ ∃ q, s.promises[j]? = some q ∧ q.Pending ∧ q.mid = mid := by
  simp only [getElem?_completed]
  constructor
  · rintro ⟨_, ⟨q, hq, rfl⟩, hpend, hmid⟩
    split at hpend
    · simp [ReplyPromise.Pending, ReplyPromise.attempt] at hpend
    · rename_i hij
      rw [if_neg hij] at hmid
      exact ⟨hij, q, hq, hpend, hmid⟩
  · rintro ⟨hij, q, hq, hpend, hmid⟩
    exact ⟨q, ⟨q, hq, (if_neg hij).symm⟩, hpend, hmid⟩

/-- A pending promise that is completed with a message of its id. -/
theorem sound_attempt {p : ReplyPromise} {msg : Message} (hpending : p.Pending) (hmid : p.mid = msg.mid) :
    (p.attempt (.complete msg)).Sound := by
  have hone : (p.attempt (.complete msg)).completions = [.complete msg] := by
    rw [ReplyPromise.attempt, hpending]
    rfl
  constructor
  · rw [hone]
    exact Nat.le_refl 1
  · intro m hm
    rw [ReplyPromise.outcome, hone] at hm
    cases hm
    exact hmid.symm

/-- **A text arrives** for a message, or for none. -/
theorem exact_receive (hs : s.Exact) (msg : Message) : (s.receive msg).Exact := by
  unfold receive
  cases hi : s.futureMap msg.mid with
  | none => exact hs
  | some i =>
    obtain ⟨p, hp, hpending, hmid⟩ := (hs.table _ _).mp hi
    constructor
    · intro mid j
      simp only [pending_completed, ← hs.table]
      by_cases hm : mid = msg.mid
      · subst hm
        rw [Function.update_self, hi]
        refine iff_of_false nofun ?_
        -- What is pending under this id can only be the promise that was completed.
        rintro ⟨hij, hj⟩
        exact hij (Option.some.inj hj)
      · rw [Function.update_of_ne hm]
        refine ⟨fun hj => ⟨?_, hj⟩, fun h => h.2⟩
        rintro rfl
        obtain ⟨q, hq, -, rfl⟩ := (hs.table _ _).mp hj
        rw [hp] at hq
        cases hq
        exact hm hmid
    · intro q hq
      obtain ⟨j, hj⟩ := List.mem_iff_getElem?.mp hq
      obtain ⟨q, hq', rfl⟩ := getElem?_completed.mp hj
      split
      · rename_i hij
        subst hij
        rw [hp] at hq'
        cases hq'
        exact sound_attempt hpending hmid
      · exact hs.sound q (List.mem_of_getElem? hq')

/-- **One step** leads to an exact table exactly if no message fails on the way out. -/
theorem exact_next {gson : Gson} {e : AdapterEvent} (hs : s.Exact) (hd : s.Distinct e) :
    (s.next gson e).Exact ↔ Delivers e := by
  cases e with
  | text nextId message =>
    refine iff_of_true ?_ trivial
    simp only [next, onWebSocketText]
    split
    · exact exact_receive hs _
    · exact hs
  | send msg outcome =>
    cases outcome with
    | notConnected => exact iff_of_true (exact_notConnected hs) nofun
    | sent => exact iff_of_true (exact_sent hs hd) nofun
    | ioException => exact iff_of_false (not_exact_ioException s msg) fun h => h rfl

end Steps

end Adapter

/-- **The table in every run** of messages with different ids: if no message fails on the way out, it is
exact in every state; and if it is exact in every state, no message fails on the way out. -/
theorem exact_iff (gson : Gson) (es : List AdapterEvent) (s : Adapter) :
    (Steps (Adapter.step gson) (fun s e => s.Distinct e ∧ Adapter.Delivers e) .init es s → s.Exact) ∧
    (Steps (Adapter.step gson) (fun s e => s.Distinct e ∧ Adapter.Delivers e) .init es s ↔
      Steps (Adapter.step gson) (fun s e => s.Distinct e ∧ (s.next gson e).Exact) .init es s) := by
  have hstep : ∀ s e s', s.Exact → s.Distinct e ∧ Adapter.Delivers e → Adapter.step gson s e s' →
      s'.Exact := by
    rintro s e s' hs ⟨hd, he⟩ rfl
    exact (Adapter.exact_next hs hd).mpr he
  constructor
  · exact fun h => h.inv hstep Adapter.exact_init
  · refine Steps.congr hstep (fun s e hs => ?_) Adapter.exact_init
    exact and_congr_right fun hd => (Adapter.exact_next hs hd).symm

/-- A message with the id `0` fails on the way out: its promise is completed and stays in the table, and a
text with this id tries to complete it again. -/
theorem failed_promise_stays :
    Steps (Adapter.step sampleGson) Adapter.Distinct .init [.send readMsg .ioException]
      (Adapter.init.send readMsg .ioException) ∧
    (Adapter.init.send readMsg .ioException).futureMap 0 = some 0 ∧
    (Adapter.init.send readMsg .ioException).promises =
      [{ mid := 0, completions := [.ioException] }] ∧
    ¬ (Adapter.init.send readMsg .ioException).Exact ∧
    ((Adapter.init.send readMsg .ioException).next sampleGson (.text 0 readText)).promises =
      [{ mid := 0, completions := [.ioException, .complete readMsg] }] :=
  ⟨.one nofun rfl, rfl, rfl, Adapter.not_exact_ioException .init readMsg, rfl⟩

end Lhcb
end QosSupport
