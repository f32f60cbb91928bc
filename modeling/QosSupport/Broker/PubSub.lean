import QosSupport.Lib.Run
import QosSupport.Broker.Traffic

/-!
# Receiving traffic reports

The broker has one connection for subscriptions. It subscribes to the pattern of the traffic channels
(`dao.psubscribe`); when the pattern brings a report of a new channel, it subscribes to that very
channel (`on('pmessage')`), and only what the exact subscription brings is counted
(`on('message')`).

* `State`: the subscriptions that are in force at the server, the `SUBSCRIBE`s on their way to it, the
  events on their way back, the channels that the broker knows (`subscribers`), and what it has
  handed to `addCSPConso`.
* `Act`: a report is published, the server takes the pattern subscription or the oldest `SUBSCRIBE`
  into force, the broker handles its next event; in any order.
* `handed_iff`: a report is handed on exactly once if the exact subscription to its channel was in
  force when it was published; otherwise never.
* `not_exact_first`: for the first report of a channel it never is.
-/

namespace QosSupport
namespace Broker
namespace PubSub

open Redis Run

/-- An event of the subscription connection, for the report with number `id`. -/
inductive Push where
  | message (id : Nat) (channel text : String)
  | pmessage (id : Nat) (channel text : String)
  deriving DecidableEq

/-- The state of the server, the broker, and the connection between them (module doc). `published`
is the number of reports so far. -/
structure State where
  pattern : Bool
  exact : List String
  subscribing : List String
  events : List Push
  subscribers : List String
  handed : List (Nat × Option TrafficRecord)
  published : Nat
  deriving DecidableEq

/-- Before the server knows of any subscription. -/
def State.init : State :=
  { pattern := false, exact := [], subscribing := [], events := [], subscribers := [], handed := [],
    published := 0 }

/-- What can happen. -/
inductive Act where
  /-- The server takes the pattern subscription into force. -/
  | psubscribe
  /-- A TURN server publishes a report. -/
  | publish (channel text : String)
  /-- The server takes the oldest `SUBSCRIBE` into force. -/
  | subscribe
  /-- The broker handles its next event. -/
  | handle

/-- The events for a report: first the exact subscription, then the pattern. -/
def pushes (σ : State) (channel text : String) : List Push :=
  (if channel ∈ σ.exact then [.message σ.published channel text] else []) ++
  (if σ.pattern ∧ trafficPattern.matchString channel then [.pmessage σ.published channel text] else [])

/-- The handlers of `'message'` and `'pmessage'`. The client passes pattern, channel and message to the
latter, whose second parameter, called `message`, is therefore the channel. -/
def handler (σ : State) : Push → State
  | .message id channel text => { σ with handed := σ.handed ++ [(id, parseTurnTraffic channel text)] }
  | .pmessage _ channel _ =>
    if channel ∈ σ.subscribers then σ
    else { σ with
      subscribing := σ.subscribing ++ [channel]
      subscribers := σ.subscribers ++ [channel] }

/-- One step; `none` if it is not possible. -/
def next (σ : State) : Act → Option State
  | .psubscribe => some { σ with pattern := true }
  | .publish channel text =>
    some { σ with events := σ.events ++ pushes σ channel text, published := σ.published + 1 }
  | .subscribe =>
    match σ.subscribing with
    | [] => none
    | channel :: rest => some { σ with exact := σ.exact ++ [channel], subscribing := rest }
  | .handle =>
    match σ.events with
    | [] => none
    | e :: rest => some (handler { σ with events := rest } e)

def Step (σ : State) (a : Act) (σ' : State) : Prop := next σ a = some σ'

/-- What was handed to `addCSPConso` for the report `id`. -/
def State.handedFor (σ : State) (id : Nat) : List (Option TrafficRecord) :=
  (σ.handed.filter fun x => x.1 = id).map Prod.snd

/-- What is still to be handed on, for the report `id`. -/
def Push.due (id : Nat) : Push → List (Option TrafficRecord)
  | .message i channel text => if i = id then [parseTurnTraffic channel text] else []
  | .pmessage _ _ _ => []

/-- What has been and will be handed on for the report `id`. -/
def State.share (σ : State) (id : Nat) : List (Option TrafficRecord) :=
  σ.handedFor id ++ σ.events.flatMap (Push.due id)

/-! ## One step -/

/-- **Inversion of a step.** -/
theorem step_cases {σ σ' : State} {a : Act} (h : Step σ a σ') :
    (a = .psubscribe ∧ σ' = { σ with pattern := true }) ∨
    (∃ channel text, a = .publish channel text ∧ σ' = { σ with
      events := σ.events ++ pushes σ channel text, published := σ.published + 1 }) ∨
    (∃ channel rest, a = .subscribe ∧ σ.subscribing = channel :: rest ∧
      σ' = { σ with exact := σ.exact ++ [channel], subscribing := rest }) ∨
    (∃ e rest, a = .handle ∧ σ.events = e :: rest ∧ σ' = handler { σ with events := rest } e) := by
  cases a with
  | psubscribe => exact .inl ⟨rfl, by simpa [Step, next] using h.symm⟩
  | publish channel text =>
    exact .inr (.inl ⟨channel, text, rfl, by simpa [Step, next] using h.symm⟩)
  | subscribe =>
    cases hs : σ.subscribing with
    | nil => simp [Step, next, hs] at h
    | cons channel rest =>
      simp only [Step, next, hs, Option.some.injEq] at h
      exact .inr (.inr (.inl ⟨channel, rest, rfl, rfl, h.symm⟩))
  | handle =>
    cases he : σ.events with
    | nil => simp [Step, next, he] at h
    | cons e rest =>
      simp only [Step, next, he, Option.some.injEq] at h
      exact .inr (.inr (.inr ⟨e, rest, rfl, rfl, h.symm⟩))

@[simp] theorem handler_published (σ : State) (e : Push) : (handler σ e).published = σ.published := by
  cases e with
  | message => rfl
  | pmessage i channel text =>
    simp only [handler]
    split <;> rfl

theorem handler_message (σ : State) (i : Nat) (channel text : String) (id : Nat) :
    (handler σ (.message i channel text)).handedFor id =
      σ.handedFor id ++ Push.due id (.message i channel text) := by
  by_cases h : i = id
  · simp [handler, State.handedFor, Push.due, List.filter_append, h]
  · simp [handler, State.handedFor, Push.due, List.filter_append, h]

theorem handler_pmessage (σ : State) (i : Nat) (channel text : String) :
    (handler σ (.pmessage i channel text)).handed = σ.handed ∧
      (handler σ (.pmessage i channel text)).events = σ.events := by
  simp only [handler]
  split <;> exact ⟨rfl, rfl⟩

/-- Handling an event hands on what was due. -/
theorem share_handle {σ : State} {e : Push} {rest : List Push} (h : σ.events = e :: rest) (id : Nat) :
    (handler { σ with events := rest } e).share id = σ.share id := by
  cases e with
  | message i channel text =>
    have hm := handler_message { σ with events := rest } i channel text id
    rw [State.share, hm, State.share, h, List.flatMap_cons, ← List.append_assoc]
    rfl
  | pmessage i channel text =>
    obtain ⟨h1, h2⟩ := handler_pmessage { σ with events := rest } i channel text
    rw [State.share, State.share, State.handedFor, h1, h2, h]
    rfl

/-- The events of a report concern no other one. -/
theorem due_pushes (σ : State) (channel text : String) (id : Nat) :
    (pushes σ channel text).flatMap (Push.due id) =
      if channel ∈ σ.exact ∧ σ.published = id then [parseTurnTraffic channel text] else [] := by
  have hp : (if σ.pattern ∧ trafficPattern.matchString channel then
      [Push.pmessage σ.published channel text] else []).flatMap (Push.due id) = [] := by
    split <;> rfl
  rw [pushes, List.flatMap_append, hp, List.append_nil]
  by_cases h : channel ∈ σ.exact
  · simp [h, Push.due]
  · simp [h]

/-- **One step** adds to the share of a report only when it is published. -/
theorem share_step {σ σ' : State} {a : Act} (h : Step σ a σ') {id : Nat} (hid : id < σ.published) :
    σ'.share id = σ.share id ∧ id < σ'.published := by
  obtain ⟨-, rfl⟩ | ⟨channel, text, -, rfl⟩ | ⟨channel, rest, -, -, rfl⟩ | ⟨e, rest, -, he, rfl⟩ :=
    step_cases h
  · exact ⟨rfl, hid⟩
  · refine ⟨?_, Nat.lt_succ_of_lt hid⟩
    have hd := due_pushes σ channel text id
    rw [if_neg (by omega)] at hd
    simp only [State.share, State.handedFor, List.flatMap_append, hd, List.append_nil]
  · exact ⟨rfl, hid⟩
  · exact ⟨share_handle he id, by simpa using hid⟩

/-- All events and all that was handed on belong to reports that were published. -/
def Fresh (σ : State) : Prop := ∀ id, σ.published ≤ id → σ.share id = []

theorem fresh_step {σ σ' : State} {a : Act} (h : Step σ a σ') (hf : Fresh σ) : Fresh σ' := by
  intro id hid
  obtain ⟨-, rfl⟩ | ⟨channel, text, -, rfl⟩ | ⟨channel, rest, -, -, rfl⟩ | ⟨e, rest, -, he, rfl⟩ :=
    step_cases h
  · exact hf id hid
  · have hlt : σ.published < id := hid
    have hd := due_pushes σ channel text id
    rw [if_neg (by omega)] at hd
    have hold := hf id (by omega)
    simp only [State.share, State.handedFor, List.flatMap_append, hd, List.append_nil] at hold ⊢
    exact hold
  · exact hf id hid
  · rw [share_handle he]
    exact hf id (by simpa using hid)

/-! ## Runs -/

/-- The share of a report after its publication. -/
theorem share_publish {σ : State} (hf : Fresh σ) {σ' : State} {channel text : String}
    (h : Step σ (.publish channel text) σ') :
    σ'.share σ.published = (if channel ∈ σ.exact then [parseTurnTraffic channel text] else []) ∧
      σ.published < σ'.published := by
  cases h
  have hd := due_pushes σ channel text σ.published
  have hold := hf σ.published (le_refl _)
  refine ⟨?_, Nat.lt_succ_self _⟩
  simp only [State.share, State.handedFor, List.flatMap_append, hd, and_true] at hold ⊢
  rw [← List.append_assoc, hold, List.nil_append]

/-- **Exactly once**: in every run, a report that is published while the pattern subscription is in
force has been handed to `addCSPConso` exactly once, when all events have been handled, exactly if
the exact subscription to its channel was in force; and no report is ever handed on twice. -/
theorem handed_iff (evs evs' : List Act) (σ σ₁ σ₂ : State) (channel text : String)
    (hrun : Steps Step Any .init evs σ) (hpub : Step σ (.publish channel text) σ₁)
    (hrun' : Steps Step Any σ₁ evs' σ₂) :
    (σ₂.handedFor σ.published).length ≤ 1 ∧ (σ₂.events = [] →
      (σ₂.handedFor σ.published = [parseTurnTraffic channel text] ↔ channel ∈ σ.exact)) := by
  have hf : Fresh σ := hrun.inv (fun _ _ _ hf _ hst => fresh_step hst hf) (fun _ _ => rfl)
  obtain ⟨hshare, hlt⟩ := share_publish hf hpub
  obtain ⟨hshare', -⟩ := hrun'.inv
    (I := fun τ => τ.share σ.published =
      (if channel ∈ σ.exact then [parseTurnTraffic channel text] else []) ∧ σ.published < τ.published)
    (fun τ a τ' hτ _ hst => by
      obtain ⟨h1, h2⟩ := share_step hst hτ.2
      exact ⟨h1.trans hτ.1, h2⟩) ⟨hshare, hlt⟩
  constructor
  · have hle : (σ₂.share σ.published).length ≤ 1 := by
      rw [hshare']
      split <;> simp
    rw [State.share, List.length_append] at hle
    omega
  · intro he
    rw [State.share, he, List.flatMap_nil, List.append_nil] at hshare'
    rw [hshare']
    split
    · rename_i h
      simp [h]
    · rename_i h
      simp [h]

/-- A channel of the traffic of a user `u`. -/
def sampleChannel : String := "turn/192.0.2.1/3478/realm/orange.com/user/u/allocation/1/traffic"

/-- A report of one packet of seven bytes. -/
def sampleText : String := "rcvp=0, rcvb=0, sentp=1, sentb=7"

/-- The second report of a channel is handed on once, after the `SUBSCRIBE` has come into force. -/
theorem second_report_handed : ∃ σ σ₁ σ₂ : State,
    Steps Step Any .init [.psubscribe, .publish sampleChannel sampleText, .handle, .subscribe] σ ∧
    Step σ (.publish sampleChannel sampleText) σ₁ ∧ Steps Step Any σ₁ [.handle, .handle] σ₂ ∧
    σ₂.events = [] ∧ σ₂.handedFor σ.published = [parseTurnTraffic sampleChannel sampleText] := by
  obtain ⟨σ, σ₁, σ₂, hrun, hpub, hrun', he, hx⟩ : ∃ σ σ₁ σ₂ : State,
      Steps Step Any .init [.psubscribe, .publish sampleChannel sampleText, .handle, .subscribe] σ ∧
      Step σ (.publish sampleChannel sampleText) σ₁ ∧ Steps Step Any σ₁ [.handle, .handle] σ₂ ∧
      σ₂.events = [] ∧ sampleChannel ∈ σ.exact :=
    ⟨_, _, _, .cons trivial rfl (.cons trivial rfl (.cons trivial rfl (.one trivial rfl))), rfl,
      .cons trivial rfl (.one trivial rfl), rfl, by decide⟩
  exact ⟨σ, σ₁, σ₂, hrun, hpub, hrun', he,
    ((handed_iff _ _ σ σ₁ σ₂ _ _ hrun hpub hrun').2 he).mpr hx⟩

/-- The first report of a channel is lost: it only makes the broker subscribe. -/
theorem first_report_lost : ∃ σ σ₁ σ₂ : State,
    Steps Step Any .init [.psubscribe] σ ∧ σ.pattern = true ∧
    trafficPattern.matchString sampleChannel = true ∧
    Step σ (.publish sampleChannel sampleText) σ₁ ∧ Steps Step Any σ₁ [.handle, .subscribe] σ₂ ∧
    σ₂.events = [] ∧ σ₂.subscribing = [] ∧ σ₂.handed = [] :=
  ⟨_, _, _, .one trivial rfl, rfl, by decide, rfl, .cons trivial rfl (.one trivial rfl), rfl, rfl, rfl⟩

/-- A channel that is subscribed to, or will be, was brought by the pattern. -/
def Known (σ : State) (channels : List String) : Prop :=
  (∀ c ∈ σ.exact, c ∈ channels) ∧ (∀ c ∈ σ.subscribing, c ∈ channels) ∧
    ∀ i c t, Push.pmessage i c t ∈ σ.events → c ∈ channels

/-- The channels of the reports of a run. -/
def channelsOf (evs : List Act) : List String := evs.filterMap fun
  | .publish channel _ => some channel
  | _ => none

/-- Only the channel of the report itself. -/
theorem pmessage_pushes {σ : State} {channel text : String} {i : Nat} {c t : String}
    (h : Push.pmessage i c t ∈ pushes σ channel text) : c = channel := by
  rcases List.mem_append.mp h with h | h
  · split at h <;> simp at h
  · split at h
    · simp only [List.mem_singleton, Push.pmessage.injEq] at h
      exact h.2.1
    · simp at h

theorem known_handle {σ : State} {e : Push} {rest : List Push} {cs : List String}
    (he : σ.events = e :: rest) (hk : Known σ cs) : Known (handler { σ with events := rest } e) cs := by
  obtain ⟨h1, h2, h3⟩ := hk
  rw [he] at h3
  have h3' : ∀ i c t, Push.pmessage i c t ∈ rest → c ∈ cs := fun i c t hc =>
    h3 i c t (List.mem_cons_of_mem _ hc)
  cases e with
  | message => exact ⟨h1, h2, h3'⟩
  | pmessage i channel text =>
    simp only [handler]
    split
    · exact ⟨h1, h2, h3'⟩
    · refine ⟨h1, fun c hc => ?_, h3'⟩
      rcases List.mem_append.mp hc with hc | hc
      · exact h2 c hc
      · rw [List.mem_singleton.mp hc]
        exact h3 i channel text List.mem_cons_self

theorem known_mono {σ : State} {cs cs' : List String} (hk : Known σ cs) (h : ∀ c ∈ cs, c ∈ cs') :
    Known σ cs' :=
  ⟨fun c hc => h c (hk.1 c hc), fun c hc => h c (hk.2.1 c hc), fun i c t hc => h c (hk.2.2 i c t hc)⟩

theorem known_step {σ σ' : State} {a : Act} {cs : List String} (h : Step σ a σ') (hk : Known σ cs) :
    Known σ' (cs ++ channelsOf [a]) := by
  have hk' : Known σ (cs ++ channelsOf [a]) := known_mono hk fun c hc => List.mem_append_left _ hc
  obtain ⟨-, rfl⟩ | ⟨channel, text, rfl, rfl⟩ | ⟨channel, rest, -, hs, rfl⟩ | ⟨e, rest, -, he, rfl⟩ :=
    step_cases h
  · exact hk'
  · refine ⟨hk'.1, hk'.2.1, fun i c t hc => ?_⟩
    rcases List.mem_append.mp hc with hc | hc
    · exact hk'.2.2 i c t hc
    · simp [pmessage_pushes hc, channelsOf]
  · obtain ⟨h1, h2, h3⟩ := hk'
    rw [hs] at h2
    refine ⟨fun c hc => ?_, fun c hc => h2 c (List.mem_cons_of_mem _ hc), h3⟩
    rcases List.mem_append.mp hc with hc | hc
    · exact h1 c hc
    · rw [List.mem_singleton.mp hc]
      exact h2 _ List.mem_cons_self
  · exact known_handle he hk'

theorem known_run {σ σ' : State} {evs : List Act} (h : Steps Step Any σ evs σ') :
    ∀ {cs : List String}, Known σ cs → Known σ' (cs ++ channelsOf evs) := by
  induction h with
  | nil σ => exact fun hk => by simpa [channelsOf] using hk
  | @cons σ σ₁ σ' a evs _ hst _ ih =>
    intro cs hk
    have h := ih (known_step hst hk)
    rwa [List.append_assoc, show channelsOf [a] ++ channelsOf evs = channelsOf (a :: evs) by
      simp only [channelsOf, ← List.filterMap_append]
      rfl] at h

/-- **The first report of a channel** never finds the exact subscription in force. -/
theorem not_exact_first {evs : List Act} {σ : State} {channel : String}
    (hrun : Steps Step Any .init evs σ) (h : channel ∉ channelsOf evs) : channel ∉ σ.exact := by
  have h0 : Known .init [] := by simp [Known, State.init]
  have hk := known_run hrun h0
  exact fun hc => h (hk.1 channel hc)

end PubSub
end Broker
end QosSupport
