import QosSupport.Lhcb.Json
import QosSupport.Lib.Run

/-!
# Requests and responses of the JavaScript library

A socket of `lhcb.js` has one `onmessage` handler. Each call of `read` or `execute` replaces it, and so
does the first call on the local socket of an `LHCBClient`, whose constructor asked for the broker.

* `Socket`: the handler, the requests without a response, and the promises.
* `Correct`: each promise is resolved with the response to its own request, all are resolved in the end,
  and the client gets ready.
* `correct_iff_quiet`: this is so if every call is made when nothing is waiting, and in no other run. The
  handler of a request that is still waiting is lost at the next call (`Lost`) and never comes back.
-/

namespace QosSupport
namespace Lhcb
namespace Library

/-- Whose socket it is: of an `LHCBBroker`, or the local one of an `LHCBClient`. -/
inductive Kind where
  | broker
  | client

/-- A call of the library. -/
inductive Call where
  | read (name : String)
  | execute (client funcName : String) (args : Json)

/-- What a call sends. On the local socket there is no client to name. -/
def Call.request : Kind → Call → Json
  | .broker, .read name => .obj [("type", .str "read"), ("client", .str name)]
  | .broker, .execute client funcName args =>
    .obj [("type", .str "execute"), ("client", .str client),
      ("value", .obj [("name", .str funcName), ("args", args)])]
  | .client, .read _ => .obj [("type", .str "read")]
  | .client, .execute _ funcName args =>
    .obj [("type", .str "execute"), ("value", .obj [("name", .str funcName), ("args", args)])]

/-- What the constructor sends, with its `mid`. -/
def infoRequest (mid : Nat) : Json :=
  .obj [("type", .str "execute"), ("mid", .num (toString mid)),
    ("value", .obj [("name", .str "getBrokerInfo")])]

/-- A request: of the constructor, or of the `k`-th call. -/
inductive Asked where
  | info
  | call (k : Nat)
  deriving DecidableEq

/-- An open socket, with the responses that arrived. -/
structure Socket where
  onmessage : Option Asked
  calls : Nat
  sent : List Json
  waiting : List Asked
  promise : Nat → Option Json
  response : Asked → Option Json
  ready : Bool

/-- The socket when it is open: the constructor of an `LHCBClient` has sent its request. -/
def Socket.start (mid : Nat) : Kind → Socket
  | .broker =>
    { onmessage := none, calls := 0, sent := [], waiting := [], promise := fun _ => none,
      response := fun _ => none, ready := false }
  | .client =>
    { onmessage := some .info, calls := 0, sent := [infoRequest mid], waiting := [.info],
      promise := fun _ => none, response := fun _ => none, ready := false }

/-- `type == "response"`: an array is compared by its text. -/
def isResponse : Json → Bool
  | .str s => s = "response"
  | .arr [v] => isResponse v
  | _ => false

/-- The message tells where the broker is. `connects` says if a socket can be made from a value's
`host` and `port`. -/
def informs (connects : Json → Bool) : Json → Bool
  | .obj ms => (ms.lookup "type").any isResponse && match ms.lookup "value" with
    | none | some .null => false
    | some value => connects value
  | _ => false

inductive Event where
  | call (c : Call)
  /-- The response to a request arrives. -/
  | arrive (a : Asked) (data : Json)

/-- The handler gets a message; a promise keeps its first value. -/
def Socket.deliver (connects : Json → Bool) (s : Socket) (data : Json) : Socket :=
  match s.onmessage with
  | none => s
  | some .info => if informs connects data then { s with ready := true } else s
  | some (.call k) =>
    { s with promise := fun j => if j = k then (s.promise k).or (some data) else s.promise j }

/-- `read` and `execute` -/
def Socket.call (kind : Kind) (s : Socket) (c : Call) : Socket :=
  { s with
    onmessage := some (.call s.calls)
    calls := s.calls + 1
    sent := s.sent ++ [c.request kind]
    waiting := s.waiting ++ [.call s.calls] }

/-- The response to `a` is recorded as such, and delivered. -/
def Socket.arrive (connects : Json → Bool) (s : Socket) (a : Asked) (data : Json) : Socket :=
  { s with
    waiting := s.waiting.erase a
    response := fun b => if b = a then some data else s.response b }.deliver connects data

section Arrive

variable (connects : Json → Bool) (s : Socket) (a : Asked) (data : Json)

@[simp] theorem arrive_onmessage : (s.arrive connects a data).onmessage = s.onmessage := by
  unfold Socket.arrive Socket.deliver
  split
  · rfl
  · split <;> rfl
  · rfl

@[simp] theorem arrive_calls : (s.arrive connects a data).calls = s.calls := by
  unfold Socket.arrive Socket.deliver
  split
  · rfl
  · split <;> rfl
  · rfl

@[simp] theorem arrive_waiting : (s.arrive connects a data).waiting = s.waiting.erase a := by
  unfold Socket.arrive Socket.deliver
  split
  · rfl
  · split <;> rfl
  · rfl

@[simp] theorem arrive_response (b : Asked) : (s.arrive connects a data).response b =
    if b = a then some data else s.response b := by
  unfold Socket.arrive Socket.deliver
  split
  · rfl
  · split <;> rfl
  · rfl

/-- Only the promise that has the handler is resolved. -/
@[simp] theorem arrive_promise (k : Nat) : (s.arrive connects a data).promise k =
    if s.onmessage = some (.call k) then (s.promise k).or (some data) else s.promise k := by
  unfold Socket.arrive Socket.deliver
  split
  · rename_i h
    simp_all
  · rename_i h
    split <;> simp_all
  · rename_i j h
    simp only at h
    by_cases hk : k = j
    · simp [h, hk]
    · have hne : ¬ j = k := fun heq => hk heq.symm
      simp [h, hk, hne]

/-- Only the constructor's handler makes the client ready. -/
@[simp] theorem arrive_ready : (s.arrive connects a data).ready =
    (s.ready || (decide (s.onmessage = some .info) && informs connects data)) := by
  unfold Socket.arrive Socket.deliver
  split
  · rename_i h
    simp_all
  · rename_i h
    split <;> simp_all
  · rename_i j h
    simp_all

end Arrive

/-- One response arrives for each request. -/
inductive Step (connects : Json → Bool) (kind : Kind) (s : Socket) : Event → Socket → Prop
  | call (c : Call) : Step connects kind s (.call c) (s.call kind c)
  | arrive (a : Asked) (data : Json) : a ∈ s.waiting →
      Step connects kind s (.arrive a data) (s.arrive connects a data)

/-- A call is made when no request is waiting. -/
def Quiet (s : Socket) : Event → Prop
  | .call _ => s.waiting = []
  | .arrive _ _ => True

/-- Each promise has the response to its own request, all of them have one when nothing is waiting, and
the client is ready when it was told where the broker is. -/
structure Correct (connects : Json → Bool) (s : Socket) : Prop where
  own : ∀ k v, s.promise k = some v → s.response (.call k) = some v
  resolved : s.waiting = [] → ∀ k < s.calls, s.promise k ≠ none
  ready : ∀ data, s.response .info = some data → informs connects data = true → s.ready = true

section Runs

variable {connects : Json → Bool} {kind : Kind} {s s' : Socket} {e : Event} {mid : Nat}

/-! ## Calls one after the other -/

/-- At most one request waits, and it has the handler. -/
structure Orderly (connects : Json → Bool) (s : Socket) : Prop where
  waiting : s.waiting = [] ∨ ∃ a, s.waiting = [a] ∧ s.onmessage = some a
  asked : ∀ k, .call k ∈ s.waiting → k < s.calls
  settled : ∀ k < s.calls, .call k ∉ s.waiting →
    ∃ v, s.promise k = some v ∧ s.response (.call k) = some v
  unsettled : ∀ k, s.calls ≤ k ∨ .call k ∈ s.waiting → s.promise k = none
  info : .info ∈ s.waiting → s.ready = false ∧ s.response .info = none
  ready : ∀ data, s.response .info = some data → informs connects data = true → s.ready = true

theorem Orderly.correct (h : Orderly connects s) : Correct connects s where
  own k v hv := by
    have hk : ¬ (s.calls ≤ k ∨ .call k ∈ s.waiting) := fun hk => by simp [h.unsettled k hk] at hv
    obtain ⟨w, hw, hr⟩ := h.settled k (by omega) fun hmem => hk (.inr hmem)
    rw [hr, ← hw, hv]
  resolved hw k hk := by
    obtain ⟨v, hv, -⟩ := h.settled k hk (by simp [hw])
    simp [hv]
  ready := h.ready

theorem orderly_start (kind : Kind) : Orderly connects (Socket.start mid kind) := by
  cases kind with
  | broker => constructor <;> simp [Socket.start]
  | client => constructor <;> simp [Socket.start]

theorem Orderly.call (h : Orderly connects s) (hw : s.waiting = []) (c : Call) :
    Orderly connects (s.call kind c) := by
  have hwait : (s.call kind c).waiting = [.call s.calls] := by simp [Socket.call, hw]
  refine ⟨.inr ⟨.call s.calls, hwait, rfl⟩, ?_, ?_, ?_, ?_, h.ready⟩
  · intro k hk
    rw [hwait, List.mem_singleton] at hk
    cases hk
    exact Nat.lt_succ_self _
  · intro k hk hno
    rw [hwait, List.mem_singleton] at hno
    have hne : k ≠ s.calls := fun heq => hno (by rw [heq])
    have hlt : k < s.calls + 1 := hk
    exact h.settled k (by omega) (by simp [hw])
  · intro k hk
    refine h.unsettled k (.inl ?_)
    rcases hk with hk | hk
    · have hle : s.calls + 1 ≤ k := hk
      omega
    · rw [hwait, List.mem_singleton] at hk
      cases hk
      exact Nat.le_refl _
  · intro hmem
    rw [hwait, List.mem_singleton] at hmem
    cases hmem

/-- The only request that waits has the handler, so it gets its own response. -/
theorem Orderly.arrive (h : Orderly connects s) {a : Asked} (ha : a ∈ s.waiting) (data : Json) :
    Orderly connects (s.arrive connects a data) := by
  obtain ⟨hw, hon⟩ : s.waiting = [a] ∧ s.onmessage = some a := by
    rcases h.waiting with hw | ⟨b, hw, hon⟩
    · simp [hw] at ha
    · rw [hw, List.mem_singleton] at ha
      exact ⟨ha ▸ hw, ha ▸ hon⟩
  have hnone : s.waiting.erase a = [] := by simp [hw]
  refine ⟨.inl (by simp [hnone]), by simp [hnone], ?_, ?_, by simp [hnone], ?_⟩
  · intro k hk _
    rw [arrive_calls] at hk
    rw [arrive_promise, arrive_response, hon]
    by_cases hka : a = .call k
    · subst hka
      simp [h.unsettled k (.inr ha)]
    · have hback : Asked.call k ≠ a := fun heq => hka heq.symm
      simp only [Option.some.injEq, hka, hback, if_false]
      exact h.settled k hk (by simp [hw, hback])
  · intro k hk
    have hle : s.calls ≤ k := by simpa [hnone] using hk
    have hno : a ≠ .call k := by
      rintro rfl
      have hlt := h.asked k ha
      omega
    rw [arrive_promise, hon]
    simp [hno, h.unsettled k (.inl hle)]
  · intro d hd hinf
    rw [arrive_ready, hon]
    rw [arrive_response] at hd
    by_cases hinfo : a = .info
    · subst hinfo
      rw [if_pos rfl] at hd
      cases hd
      simp [hinf]
    · have hback : Asked.info ≠ a := fun heq => hinfo heq.symm
      rw [if_neg hback] at hd
      simp [h.ready d hd hinf]

theorem Orderly.step (h : Orderly connects s) (hq : Quiet s e) (hst : Step connects kind s e s') :
    Orderly connects s' := by
  cases hst with
  | call c => exact h.call hq c
  | arrive a data ha => exact h.arrive ha data

/-! ## A handler that is lost -/

/-- A request without a result does not have the handler. -/
def Lost (s : Socket) : Prop :=
  (∃ k < s.calls, s.onmessage ≠ some (.call k) ∧ s.promise k = none) ∨
  (s.onmessage ≠ some .info ∧ s.ready = false ∧
    (.info ∈ s.waiting ∨ ∃ data, s.response .info = some data))

/-- It never gets the handler back. -/
theorem Lost.step (h : Lost s) (hst : Step connects kind s e s') : Lost s' := by
  cases hst with
  | call c =>
    rcases h with ⟨k, hk, -, hp⟩ | ⟨-, hr, hinfo⟩
    · refine .inl ⟨k, Nat.lt_succ_of_lt hk, ?_, hp⟩
      intro heq
      cases heq
      exact Nat.lt_irrefl _ hk
    · refine .inr ⟨by simp [Socket.call], hr, ?_⟩
      rcases hinfo with hmem | hdata
      · exact .inl (List.mem_append_left _ hmem)
      · exact .inr hdata
  | arrive a data ha =>
    rcases h with ⟨k, hk, hon, hp⟩ | ⟨hon, hr, hinfo⟩
    · exact .inl ⟨k, by simpa using hk, by simpa using hon, by simp [hon, hp]⟩
    · refine .inr ⟨by simpa using hon, by simp [hon, hr], ?_⟩
      by_cases hia : Asked.info = a
      · exact .inr ⟨data, by simp [hia]⟩
      · rcases hinfo with hmem | ⟨d, hd⟩
        · exact .inl (by simpa using (List.mem_erase_of_ne hia).mpr hmem)
        · exact .inr ⟨d, by simp [hia, hd]⟩

/-- A call while a request waits takes its handler away. -/
theorem Orderly.lost (h : Orderly connects s) (hw : s.waiting ≠ []) (c : Call) :
    Lost (s.call kind c) := by
  rcases h.waiting with hno | ⟨a, hwait, hon⟩
  · exact absurd hno hw
  have hmem : a ∈ s.waiting := by simp [hwait]
  cases a with
  | info =>
    refine .inr ⟨by simp [Socket.call], (h.info hmem).1, .inl ?_⟩
    exact List.mem_append_left _ hmem
  | call k =>
    have hlt := h.asked k hmem
    refine .inl ⟨k, Nat.lt_succ_of_lt hlt, ?_, h.unsettled k (.inr hmem)⟩
    intro heq
    cases heq
    exact Nat.lt_irrefl _ hlt

theorem Lost.runs {es : List Event} (h : Lost s)
    (hrun : Run.Steps (Step connects kind) Run.Any s es s') : Lost s' :=
  hrun.inv (fun _ _ _ hi _ hst => Lost.step hi hst) h

/-- A run keeps its calls apart, or loses a handler. -/
theorem quiet_or_lost {es : List Event} (h : Orderly connects s)
    (hrun : Run.Steps (Step connects kind) Run.Any s es s') :
    Run.Steps (Step connects kind) Quiet s es s' ∨ Lost s' := by
  induction hrun with
  | nil s => exact .inl (.nil s)
  | @cons s s₁ s' e es _ hst hrest ih =>
    have hcons : Quiet s e → Run.Steps (Step connects kind) Quiet s (e :: es) s' ∨ Lost s' := by
      intro hq
      rcases ih (h.step hq hst) with hquiet | hlost
      · exact .inl (.cons hq hst hquiet)
      · exact .inr hlost
    cases hst with
    | call c =>
      by_cases hw : s.waiting = []
      · exact hcons hw
      · exact .inr ((h.lost hw c).runs hrest)
    | arrive a data ha => exact hcons trivial

/-- A socket that lost a handler is not correct when all responses have arrived. -/
theorem Lost.not_correct (h : Lost s) (hw : s.waiting = [])
    (hinf : ∀ data, s.response .info = some data → informs connects data = true) :
    ¬ Correct connects s := by
  intro hc
  rcases h with ⟨k, hk, -, hp⟩ | ⟨-, hr, hmem | ⟨data, hd⟩⟩
  · exact hc.resolved hw k hk hp
  · simp [hw] at hmem
  · have hready := hc.ready data hd (hinf data hd)
    simp [hr] at hready

/-- **Calls that are kept apart**: in every state of such a run the socket is correct; and in every run
after which all responses have arrived, the constructor's with the broker's address, it is correct only
if the calls were kept apart. -/
theorem correct_iff_quiet (connects : Json → Bool) (mid : Nat) (kind : Kind) :
    (∀ es s, Run.Steps (Step connects kind) Quiet (Socket.start mid kind) es s → Correct connects s) ∧
    ∀ es s, Run.Steps (Step connects kind) Run.Any (Socket.start mid kind) es s → s.waiting = [] →
      (∀ data, s.response .info = some data → informs connects data = true) →
      (Correct connects s ↔ Run.Steps (Step connects kind) Quiet (Socket.start mid kind) es s) := by
  have hcorrect : ∀ es s, Run.Steps (Step connects kind) Quiet (Socket.start mid kind) es s →
      Correct connects s := fun es s h =>
    (h.inv (fun _ _ _ hi hq hst => Orderly.step hi hq hst) (orderly_start kind)).correct
  refine ⟨hcorrect, fun es s hrun hw hinf => ⟨fun hc => ?_, hcorrect es s⟩⟩
  rcases quiet_or_lost (orderly_start kind) hrun with hquiet | hlost
  · exact hquiet
  · exact absurd hc (hlost.not_correct hw hinf)

end Runs

/-- A response with the name of a client. -/
def answer (name : String) : Json := .obj [("type", .str "response"), ("client", .str name)]

/-- The socket of a broker on which `a` is read, and `b` when the response has arrived. -/
def readsInTurn : Socket :=
  ((((Socket.start 0 .broker).call .broker (.read "a")).arrive (fun _ => true) (.call 0) (answer "a")).call
    .broker (.read "b")).arrive (fun _ => true) (.call 1) (answer "b")

/-- Each of two reads in turn gets its own response. -/
theorem reads_in_turn_correct : Correct (fun _ => true) readsInTurn ∧
    readsInTurn.promise 0 = some (answer "a") ∧ readsInTurn.promise 1 = some (answer "b") := by
  have hrun : Run.Steps (Step (fun _ => true) .broker) Quiet (Socket.start 0 .broker)
      [.call (.read "a"), .arrive (.call 0) (answer "a"), .call (.read "b"), .arrive (.call 1) (answer "b")]
      readsInTurn := by
    refine .cons rfl (.call _) (.cons trivial (.arrive _ _ ?_) (.cons rfl (.call _)
      (.one trivial (.arrive _ _ ?_))))
    · exact List.mem_singleton.mpr rfl
    · exact List.mem_singleton.mpr rfl
  exact ⟨(correct_iff_quiet (fun _ => true) 0 .broker).1 _ _ hrun, rfl, rfl⟩

/-- The socket on which `a` and `b` are read before the two responses arrive. -/
def twoReads : Socket :=
  ((((Socket.start 0 .broker).call .broker (.read "a")).call .broker (.read "b")).arrive
    (fun _ => true) (.call 0) (answer "a")).arrive (fun _ => true) (.call 1) (answer "b")

/-- The read of `b` gets the response for `a`, and the read of `a` gets none. -/
theorem two_reads_mixed :
    Run.Steps (Step (fun _ => true) .broker) Run.Any (Socket.start 0 .broker)
      [.call (.read "a"), .call (.read "b"), .arrive (.call 0) (answer "a"),
        .arrive (.call 1) (answer "b")] twoReads ∧
    twoReads.waiting = [] ∧ twoReads.promise 0 = none ∧ twoReads.promise 1 = some (answer "a") ∧
    ¬ Correct (fun _ => true) twoReads := by
  refine ⟨.cons trivial (.call _) (.cons trivial (.call _) (.cons trivial (.arrive _ _ ?_)
    (.one trivial (.arrive _ _ ?_)))), rfl, rfl, rfl, fun h => ?_⟩
  · exact List.mem_cons_self
  · exact List.mem_singleton.mpr rfl
  · exact h.resolved rfl 0 (by decide) rfl

end Library
end Lhcb
end QosSupport
