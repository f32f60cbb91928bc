import QosSupport.Lib.Run

/-!
# The event servlet

A browser subscribes to the changes of a client: `onOpen` starts an observation of `/4/0` on the client,
and its notifications are sent to every browser that subscribed to this client. `onClose` cancels all
observations of the client.

* `Servlet`: the open events, the registered clients, and which of them are observed.
* `Good`: a client is observed while an event is open that was opened since it is registered (`live`).
* `good_iff_lastOne`: all states of a run are good exactly if each event that closes is the last of its
  client, and each notification goes to every open event of its client and to no other.
-/

namespace QosSupport
namespace Lhcb
namespace EventServlet

/-- `Event`: an object, and the endpoint that it is limited to. -/
structure Event where
  id : Nat
  endpoint : Option String
  deriving DecidableEq

/-- The servlet and what it knows of the LwM2M server. -/
structure Servlet where
  events : List Event
  registered : String → Bool
  /-- There is an observation of `/4/0`. -/
  observed : String → Bool
  /-- The client was registered when the event was opened, and has been since. -/
  live : Event → Bool

def Servlet.init : Servlet :=
  { events := [], registered := fun _ => false, observed := fun _ => false, live := fun _ => false }

/-- `onOpen`: the client is observed if it is registered. -/
def Servlet.onOpen (s : Servlet) (e : Event) : Servlet :=
  let found := e.endpoint.any s.registered
  { s with
    events := if e ∈ s.events then s.events else s.events ++ [e]
    observed := fun ep => s.observed ep || (found && decide (e.endpoint = some ep))
    live := fun x => if x = e then found else s.live x }

/-- `onClose`: all observations of the client are cancelled, if it is registered. -/
def Servlet.onClose (s : Servlet) (e : Event) : Servlet :=
  { s with
    events := s.events.filter (· ≠ e)
    observed := fun ep => s.observed ep && !(s.registered ep && decide (e.endpoint = some ep)) }

/-- The events that `sendEvent` sends to. -/
def Servlet.targets (s : Servlet) (ep : String) : List Event :=
  s.events.filter (·.endpoint = some ep)

/-- `sendEvent` for a notification of `ep`: an event that cannot be sent to is closed. -/
def Servlet.sendEvent (s : Servlet) (fails : Event → Bool) (ep : String) : List Event × Servlet :=
  (s.targets ep, (s.targets ep).foldl (fun s e => if fails e then s.onClose e else s) s)

/-- `newValue`: the client that sent the notification must be registered. -/
def Servlet.newValue (s : Servlet) (fails : Event → Bool) (ep : String) : List Event × Servlet :=
  if s.registered ep then s.sendEvent fails ep else ([], s)

/-- The client is no longer registered; its observations are gone. -/
def Servlet.unregister (s : Servlet) (ep : String) : Servlet :=
  { s with
    registered := fun q => if q = ep then false else s.registered q
    observed := fun q => if q = ep then false else s.observed q
    live := fun e => if e.endpoint = some ep then false else s.live e }

/-- A client that registers again is a new one. -/
def Servlet.register (s : Servlet) (ep : String) : Servlet :=
  { s.unregister ep with registered := fun q => if q = ep then true else s.registered q }

inductive Action where
  | onOpen (e : Event)
  | onClose (e : Event)
  | newValue (ep : String) (fails : Event → Bool)
  | register (ep : String)
  | unregister (ep : String)

def Servlet.next (s : Servlet) : Action → Servlet
  | .onOpen e => s.onOpen e
  | .onClose e => s.onClose e
  | .newValue ep fails => (s.newValue fails ep).2
  | .register ep => s.register ep
  | .unregister ep => s.unregister ep

def Servlet.step (s : Servlet) (a : Action) (s' : Servlet) : Prop := s' = s.next a

/-- Every client of an open, live event is observed. -/
def Servlet.Good (s : Servlet) : Prop :=
  ∀ e ∈ s.events, s.live e = true → ∀ ep, e.endpoint = some ep → s.observed ep = true

/-- An event that closes, or cannot be sent to, leaves no live event of its client behind. -/
def LastOne (s : Servlet) : Action → Prop
  | .onClose e => ∀ x ∈ s.events, x ≠ e → s.live x = true → x.endpoint ≠ e.endpoint
  | .newValue ep fails => s.registered ep = true → (∃ x ∈ s.targets ep, fails x = true) →
      ∀ x ∈ s.targets ep, s.live x = true → fails x = true
  | _ => True

/-! ## One action -/

/-- The client of a live event is registered. -/
def Servlet.Inv (s : Servlet) : Prop :=
  ∀ e, s.live e = true → ∃ ep, e.endpoint = some ep ∧ s.registered ep = true

variable {s s' : Servlet} {a : Action}

/-- The loop of `sendEvent`, over events of one registered client. -/
theorem closeAll {ep : String} (fails : Event → Bool) (l : List Event)
    (hl : ∀ e ∈ l, e.endpoint = some ep) (hreg : s.registered ep = true) :
    let s' := l.foldl (fun s e => if fails e then s.onClose e else s) s
    s'.registered = s.registered ∧ s'.live = s.live ∧
      (∀ x, x ∈ s'.events ↔ x ∈ s.events ∧ ¬ (x ∈ l ∧ fails x = true)) ∧
      ∀ q, s'.observed q = true ↔ s.observed q = true ∧ ¬ (q = ep ∧ ∃ x ∈ l, fails x = true) := by
  induction l generalizing s with
  | nil => simp
  | cons e l ih =>
    have hl' : ∀ e ∈ l, e.endpoint = some ep := fun x hx => hl x (List.mem_cons_of_mem _ hx)
    have hep := hl e List.mem_cons_self
    simp only [List.foldl_cons]
    by_cases hf : fails e = true
    · rw [if_pos hf]
      obtain ⟨hr, hlive, hev, hob⟩ := ih (s := s.onClose e) hl' hreg
      refine ⟨hr, hlive, fun x => ?_, fun q => ?_⟩
      · rw [hev x]
        by_cases hx : x = e
        · simp [Servlet.onClose, hx, hf]
        · simp [Servlet.onClose, hx]
      · rw [hob q]
        by_cases hq : q = ep
        · subst hq
          simp [Servlet.onClose, hep, hreg, hf]
        · have hne : ¬ ep = q := fun h => hq h.symm
          simp [Servlet.onClose, hep, hq, hne]
    · rw [if_neg hf]
      obtain ⟨hr, hlive, hev, hob⟩ := ih (s := s) hl' hreg
      refine ⟨hr, hlive, fun x => ?_, fun q => ?_⟩
      · rw [hev x]
        by_cases hx : x = e
        · simp [hx, hf]
        · simp [hx]
      · rw [hob q]
        simp [hf]

theorem mem_targets {ep : String} {e : Event} :
    e ∈ s.targets ep ↔ e ∈ s.events ∧ e.endpoint = some ep := by
  simp [Servlet.targets]

/-- What a notification of a registered client changes. -/
theorem newValue_registered {ep : String} (fails : Event → Bool) (hreg : s.registered ep = true) :
    let s' := (s.newValue fails ep).2
    s'.registered = s.registered ∧ s'.live = s.live ∧
      (∀ x, x ∈ s'.events ↔ x ∈ s.events ∧ ¬ (x ∈ s.targets ep ∧ fails x = true)) ∧
      ∀ q, s'.observed q = true ↔
        s.observed q = true ∧ ¬ (q = ep ∧ ∃ x ∈ s.targets ep, fails x = true) := by
  simp only [Servlet.newValue, if_pos hreg, Servlet.sendEvent]
  exact closeAll fails (s.targets ep) (fun e he => (mem_targets.mp he).2) hreg

theorem newValue_unregistered {ep : String} (fails : Event → Bool) (hreg : ¬ s.registered ep = true) :
    (s.newValue fails ep).2 = s := by
  rw [Servlet.newValue, if_neg hreg]

theorem inv_unregister (h : s.Inv) (ep : String) : (s.unregister ep).Inv := by
  intro e he
  simp only [Servlet.unregister] at he ⊢
  split at he
  · cases he
  · rename_i hne
    obtain ⟨q, hq, hreg⟩ := h e he
    have hqe : q ≠ ep := fun heq => hne (heq ▸ hq)
    exact ⟨q, hq, by rw [if_neg hqe]; exact hreg⟩

theorem inv_next (h : s.Inv) (a : Action) : (s.next a).Inv := by
  cases a with
  | onOpen e =>
    intro x hx
    simp only [Servlet.next, Servlet.onOpen] at hx ⊢
    split at hx
    · rename_i heq
      subst heq
      cases hep : x.endpoint with
      | none => simp [hep] at hx
      | some ep => exact ⟨ep, rfl, by simpa [hep] using hx⟩
    · exact h x hx
  | onClose e => exact h
  | newValue ep fails =>
    by_cases hreg : s.registered ep = true
    · obtain ⟨hr, hlive, -, -⟩ := newValue_registered fails hreg
      intro x hx
      simp only [Servlet.next, hlive] at hx
      simp only [Servlet.next, hr]
      exact h x hx
    · simp only [Servlet.next, newValue_unregistered fails hreg]
      exact h
  | register ep =>
    intro e he
    obtain ⟨q, hq, hreg⟩ := inv_unregister h ep e he
    refine ⟨q, hq, ?_⟩
    by_cases hqe : q = ep
    · simp [Servlet.next, Servlet.register, hqe]
    · simpa [Servlet.next, Servlet.register, Servlet.unregister, hqe] using hreg
  | unregister ep => exact inv_unregister h ep

theorem good_unregister (hg : s.Good) (ep : String) : (s.unregister ep).Good := by
  intro e he hlive q hq
  simp only [Servlet.unregister] at he hlive ⊢
  split at hlive
  · cases hlive
  · rename_i hne
    have hqe : q ≠ ep := fun heq => hne (heq ▸ hq)
    rw [if_neg hqe]
    exact hg e he hlive q hq

theorem good_onOpen (hg : s.Good) (e : Event) : (s.onOpen e).Good := by
  intro x hx hlive ep hep
  simp only [Servlet.onOpen] at hx hlive ⊢
  by_cases hxe : x = e
  · subst hxe
    rw [if_pos rfl, hep] at hlive
    have hreg : s.registered ep = true := hlive
    simp [hreg, hep]
  · rw [if_neg hxe] at hlive
    have hmem : x ∈ s.events := by
      split at hx
      · exact hx
      · simpa [hxe] using hx
    simp [hg x hmem hlive ep hep]

/-- The state after an action is good exactly if the action leaves no live event behind. -/
theorem good_next (h : s.Inv) (hg : s.Good) (a : Action) : LastOne s a ↔ (s.next a).Good := by
  cases a with
  | onOpen e => exact iff_of_true trivial (good_onOpen hg e)
  | register ep => exact iff_of_true trivial (good_unregister hg ep)
  | unregister ep => exact iff_of_true trivial (good_unregister hg ep)
  | onClose e =>
    constructor
    · intro hlast x hx hlive ep hep
      obtain ⟨hx, hne⟩ : x ∈ s.events ∧ x ≠ e := by simpa [Servlet.next, Servlet.onClose] using hx
      have hother : e.endpoint ≠ some ep := fun heq => hlast x hx hne hlive (hep.trans heq.symm)
      simp [Servlet.next, Servlet.onClose, hother, hg x hx hlive ep hep]
    · intro hgood x hx hne hlive heq
      obtain ⟨ep, hep, hreg⟩ := h x hlive
      have hob := hgood x (by simp [Servlet.next, Servlet.onClose, hx, hne]) hlive ep hep
      simp [Servlet.next, Servlet.onClose, hreg, ← heq, hep] at hob
  | newValue ep fails =>
    by_cases hreg : s.registered ep = true
    · obtain ⟨-, hlive', hev, hob⟩ := newValue_registered fails hreg
      constructor
      · intro hlast x hx hlive q hq
        simp only [Servlet.next] at hx hlive ⊢
        rw [hlive'] at hlive
        obtain ⟨hopen, hkept⟩ := (hev x).mp hx
        refine (hob q).mpr ⟨hg x hopen hlive q hq, ?_⟩
        rintro ⟨rfl, hfail⟩
        have hmem := mem_targets.mpr ⟨hopen, hq⟩
        exact hkept ⟨hmem, hlast hreg hfail x hmem hlive⟩
      · intro hgood _ hfail x hx hlive
        by_contra hok
        obtain ⟨hmem, hep⟩ := mem_targets.mp hx
        have hx' := (hev x).mpr ⟨hmem, fun hx' => hok hx'.2⟩
        have hstill := hgood x hx' (by simpa only [Servlet.next, hlive'] using hlive) ep hep
        exact ((hob ep).mp hstill).2 ⟨rfl, hfail⟩
    · simp only [Servlet.next, newValue_unregistered fails hreg]
      exact iff_of_true (fun hr => absurd hr hreg) hg

/-! ## All runs -/

/-- **Observations and notifications**: all states of a run are good exactly if each event that closes is
the last of its client; and in every state, a notification of a registered client is sent to the open
events of this client and to no others. -/
theorem good_iff_lastOne (as : List Action) (s : Servlet) :
    (Run.Steps Servlet.step LastOne .init as s → s.Good) ∧
    (Run.Steps Servlet.step LastOne .init as s ↔
      Run.Steps Servlet.step (fun s a => (s.next a).Good) .init as s) ∧
    ∀ ep fails e, s.registered ep = true →
      (e ∈ (s.newValue fails ep).1 ↔ e ∈ s.events ∧ e.endpoint = some ep) := by
  have hinit : Servlet.init.Inv ∧ Servlet.init.Good := by
    constructor
    · intro e he
      cases he
    · intro e he
      cases he
  have hstep : ∀ s a s', s.Inv ∧ s.Good → LastOne s a → Servlet.step s a s' → s'.Inv ∧ s'.Good := by
    rintro s a s' ⟨hi, hg⟩ hlast rfl
    exact ⟨inv_next hi a, (good_next hi hg a).mp hlast⟩
  refine ⟨fun hrun => (hrun.inv hstep hinit).2, ?_, ?_⟩
  · exact Run.Steps.congr hstep (fun s a hi => good_next hi.1 hi.2 a) hinit
  · intro ep fails e hreg
    rw [Servlet.newValue, if_pos hreg]
    exact mem_targets

/-- Two browsers that subscribe to the client `c`. -/
def first : Event := { id := 1, endpoint := some "c" }

def second : Event := { id := 2, endpoint := some "c" }

/-- A browser that subscribes to the client `d`. -/
def elsewhere : Event := { id := 3, endpoint := some "d" }

/-- The browser of `c` leaves; the one of `d` stays, and its client is still observed. -/
theorem elsewhere_still_observed :
    let s := ((((Servlet.init.register "c").register "d").onOpen first).onOpen elsewhere).onClose first
    Run.Steps Servlet.step LastOne .init
      [.register "c", .register "d", .onOpen first, .onOpen elsewhere, .onClose first] s ∧
    s.Good ∧ elsewhere ∈ s.events ∧ s.live elsewhere = true ∧ s.observed "d" = true := by
  have hlast : LastOne ((((Servlet.init.register "c").register "d").onOpen first).onOpen elsewhere) (.onClose first) := by
    intro x hx hne _
    obtain rfl | rfl : x = first ∨ x = elsewhere := by
      simpa [Servlet.onOpen, Servlet.register, Servlet.unregister, Servlet.init, first, elsewhere] using hx
    · exact absurd rfl hne
    · decide
  have hrun : Run.Steps Servlet.step LastOne .init
      [.register "c", .register "d", .onOpen first, .onOpen elsewhere, .onClose first]
      (((((Servlet.init.register "c").register "d").onOpen first).onOpen elsewhere).onClose first) :=
    .cons trivial rfl (.cons trivial rfl (.cons trivial rfl (.cons trivial rfl (.one hlast rfl))))
  have hgood := (good_iff_lastOne _ _).1 hrun
  have hopen : elsewhere ∈
      (((((Servlet.init.register "c").register "d").onOpen first).onOpen elsewhere).onClose first).events := by decide
  exact ⟨hrun, hgood, hopen, by decide, hgood elsewhere hopen (by decide) "d" rfl⟩

/-- The first browser leaves, and the second one gets no notification any more. -/
theorem second_not_observed :
    Run.Steps Servlet.step Run.Any .init
      [.register "c", .onOpen first, .onOpen second, .onClose first]
      ((((Servlet.init.register "c").onOpen first).onOpen second).onClose first) ∧
    ¬ ((((Servlet.init.register "c").onOpen first).onOpen second).onClose first).Good := by
  refine ⟨.cons trivial rfl (.cons trivial rfl (.cons trivial rfl (.one trivial rfl))), fun h => ?_⟩
  have hob := h second (by decide) (by decide) "c" rfl
  exact absurd hob (by decide)

end EventServlet
end Lhcb
end QosSupport
