import QosSupport.Lhcb.Decoding
import QosSupport.Lhcb.MessageIds

/-!
# The id counter of messages

All ways to build a message share the static `nextId`: the constructors without an id take it, also if
they then fail, and the two decoders take it for the id `-1`.

* `Construction`: one call, with arbitrary arguments; `run` is what it returns and the next id after it,
  `taken` the id that it takes from the counter.
* `Construction.run_spec`: what one call does with the counter.
* `Counter.InOrder`: in every run, the ids that were taken are `0, 1, 2, ..`, and again from `0`.
* `counter_spec`: the range of the counter, the ids of the messages, and the answers to them.
-/

namespace QosSupport
namespace Lhcb

/-! ## Constructors -/

/-- The constructor `Message(client, value, type)`, and those that lead to it. The type may be `null`. -/
def construct (cls : MessageClass) (client : Option String) (value : Option Json)
    (type : Option MessageType) (nextId : Int) : Except Throwable Message × Int :=
  match Message.validate { cls, type, mid := nextId, client, value } with
  | .error e => (.error e, nextId)
  | .ok msg => (.ok msg, incNextId nextId)

namespace ExecuteMessage

/-- `new ExecuteMessage(client, value)` -/
def ofValue (client : Option String) (value : Option Json) (nextId : Int) :
    Except Throwable Message × Int :=
  match construct .executeMessage client value (some .execute) nextId with
  | (.error e, n) => (.error e, n)
  | (.ok msg, n) =>
    -- What is tried here, and caught, is what `getName` and `getArgs` do.
    match msg.getName, msg.getArgs with
    | .ok _, .ok _ => (.ok msg, n)
    | _, _ => (.error (.invalidMessage "Unable to parse ExecuteMessage"), n)

/-- `createValue` -/
def createValue (name : String) : Option (List Json) → Json
  | none => .obj [("name", .str name)]
  | some args => .obj [("name", .str name), ("args", .arr args)]

/-- `new ExecuteMessage(client, name, args)` -/
def ofName (client name : Option String) (args : Option (List Json)) (nextId : Int) :
    Except Throwable Message × Int :=
  match construct .executeMessage client none (some .execute) nextId with
  | (.error e, n) => (.error e, n)
  | (.ok msg, n) =>
    match name with
    | none => (.error (.invalidMessage "No function name specified."), n)
    | some name => (.ok { msg with value := some (createValue name args) }, n)

end ExecuteMessage

/-- One call that builds a message. -/
inductive Construction where
  /-- `new Message(client, type)` -/
  | message (client : Option String) (type : Option MessageType)
  /-- `new Message(client, value, type)` -/
  | element (client : Option String) (value : Option Json) (type : Option MessageType)
  /-- `new Message(client, value, type)` with a string -/
  | text (client : Option String) (value : Option String) (type : Option MessageType)
  /-- `new Message(client, e, type)`; an exception has a message, which may be `null`. -/
  | exception (client : Option String) (e : Option (Option String)) (type : Option MessageType)
  /-- `new Message(mid, client, value, type)` -/
  | withMid (mid : Int) (client : Option String) (value : Option Json) (type : Option MessageType)
  /-- `new ReadMessage(client, value)` -/
  | read (client : Option String) (value : Option Json)
  /-- `new ReadMessage(mid, client, value)`, which does not use its id -/
  | readMid (mid : Int) (client : Option String) (value : Option Json)
  /-- `new ExecuteMessage(client, value)` -/
  | execute (client : Option String) (value : Option Json)
  /-- `new ExecuteMessage(client, name, args)` -/
  | executeName (client name : Option String) (args : Option (List Json))
  /-- `fromString(json)` -/
  | fromString (json : Option String)
  /-- `fromParams(params)` -/
  | fromParams (params : Option (List (String × List String)))

namespace Construction

/-- There is no primitive for `null`. -/
def ofText (client value : Option String) (type : Option MessageType) (nextId : Int) :
    Except Throwable Message × Int :=
  match value with
  | none => (.error .nullPointer, nextId)
  | some s => construct .message client (some (.str s)) type nextId

/-- The message or the exception of a call, and the next id after it. -/
def run (gson : Gson) (nextId : Int) : Construction → Except Throwable Message × Int
  | .message client type => construct .message client none type nextId
  | .element client value type => construct .message client value type nextId
  | .text client value type => ofText client value type nextId
  | .exception client e type =>
    match e with
    | none => (.error .nullPointer, nextId)
    | some localized => ofText client localized type nextId
  | .withMid mid client value type =>
    (Message.validate { cls := .message, type, mid, client, value }, nextId)
  | .read client value => construct .readMessage client value (some .read) nextId
  | .readMid _ client value => construct .readMessage client value (some .read) nextId
  | .execute client value => ExecuteMessage.ofValue client value nextId
  | .executeName client name args => ExecuteMessage.ofName client name args nextId
  | .fromString json =>
    match json with
    | none => (.error .nullPointer, nextId)
    | some s => Message.fromString gson s nextId
  | .fromParams params =>
    match params with
    | none => (.error .nullPointer, nextId)
    | some ps => Message.fromParams ps nextId

/-- The decoders take an id for a message that has the id `-1`. -/
def takenFor (decoded : Except Throwable Message) (nextId : Int) : Option Int :=
  match decoded with
  | .ok msg => if msg.mid = -1 then some nextId else none
  | .error _ => none

/-- The id that a call takes from the counter, whether it fails after that or not. -/
def taken (gson : Gson) (nextId : Int) : Construction → Option Int
  | .message .. | .element .. | .read .. | .readMid .. | .execute .. | .executeName .. => some nextId
  | .text _ value _ => value.map fun _ => nextId
  | .exception _ e _ => e.join.map fun _ => nextId
  | .withMid .. => none
  | .fromString json =>
    match json.map gson.fromJson with
    | some (.ok (some genericJson)) => takenFor (Message.decode (Message.withMid genericJson)) nextId
    | _ => none
  | .fromParams params =>
    match params.map Message.firstValues with
    | some (.ok json) => takenFor (Message.decode json) nextId
    | _ => none

end Construction

/-! ## What a call does -/

/-- What a call that returns `r` does with the counter, if it takes the id `took` from it. -/
structure Uses (nextId : Int) (r : Except Throwable Message × Int) (took : Option Int) : Prop where
  taken : ∀ k, took = some k → k = nextId
  next : r.2 = if took.isSome then incNextId nextId else nextId
  mid : ∀ msg, r.1 = .ok msg → 0 ≤ msg.mid ∧ ∀ k, took = some k → msg.mid = k

section Calls

variable {nextId : Int}

/-- A call that fails without the counter. -/
theorem uses_error (e : Throwable) : Uses nextId (.error e, nextId) none where
  taken := by simp
  next := rfl
  mid := by
    intro msg h
    cases h

theorem construct_eq (h : Message.ValidId nextId) (cls : MessageClass) (client : Option String)
    (value : Option Json) (type : Option MessageType) :
    construct cls client value type nextId =
      (.ok { cls, type, mid := nextId, client, value }, incNextId nextId) := by
  have hv : Message.validate { cls, type, mid := nextId, client, value } =
      .ok { cls, type, mid := nextId, client, value } := Message.validate_eq_ok.mpr ⟨rfl, h.1⟩
  rw [construct, hv]

/-- A call that takes the next id, and fails or returns a message with it. -/
theorem uses_auto (h : Message.ValidId nextId) {r : Except Throwable Message}
    (hr : ∀ msg, r = .ok msg → msg.mid = nextId) : Uses nextId (r, incNextId nextId) (some nextId) where
  taken := by
    rintro k ⟨⟩
    rfl
  next := rfl
  mid := by
    intro msg hmsg
    have hmid := hr msg hmsg
    refine ⟨hmid ▸ h.1, ?_⟩
    rintro k ⟨⟩
    exact hmid

theorem uses_construct (h : Message.ValidId nextId) (cls : MessageClass) (client : Option String)
    (value : Option Json) (type : Option MessageType) :
    Uses nextId (construct cls client value type nextId) (some nextId) := by
  rw [construct_eq h]
  refine uses_auto h ?_
  rintro msg ⟨⟩
  rfl

theorem uses_ofText (h : Message.ValidId nextId) (client value : Option String)
    (type : Option MessageType) :
    Uses nextId (Construction.ofText client value type nextId) (value.map fun _ => nextId) := by
  cases value with
  | none => exact uses_error _
  | some s => exact uses_construct h ..

/-- The constructors of `ExecuteMessage` fail only after they took the id. -/
theorem uses_execute (h : Message.ValidId nextId) (client : Option String) (value : Option Json) :
    Uses nextId (ExecuteMessage.ofValue client value nextId) (some nextId) := by
  rw [ExecuteMessage.ofValue, construct_eq h]
  simp only
  split
  · refine uses_auto h ?_
    rintro msg ⟨⟩
    rfl
  · refine uses_auto h ?_
    intro msg hmsg
    cases hmsg

theorem uses_executeName (h : Message.ValidId nextId) (client name : Option String)
    (args : Option (List Json)) :
    Uses nextId (ExecuteMessage.ofName client name args nextId) (some nextId) := by
  rw [ExecuteMessage.ofName, construct_eq h]
  cases name with
  | none =>
    refine uses_auto h ?_
    intro msg hmsg
    cases hmsg
  | some name =>
    refine uses_auto h ?_
    rintro msg ⟨⟩
    rfl

/-- The decoders, once the object is known. -/
theorem uses_fromMembers (h : Message.ValidId nextId) (json : Members) :
    Uses nextId (Message.fromMembers json nextId)
      (Construction.takenFor (Message.decode json) nextId) := by
  unfold Message.fromMembers
  cases hd : Message.decode json with
  | error e => exact uses_error e
  | ok msg =>
    simp only [Construction.takenFor]
    by_cases hm : msg.mid = -1
    · rw [if_pos hm, Message.assignId_auto h hm]
      refine uses_auto h ?_
      rintro msg' ⟨⟩
      rfl
    · rw [if_neg hm]
      simp only [Message.assignId, if_neg hm]
      refine ⟨by simp, rfl, ?_⟩
      intro msg' hmsg
      obtain ⟨rfl, hnonneg⟩ := Message.validate_eq_ok.mp hmsg
      exact ⟨hnonneg, by simp⟩

/-- A text that is no object fails without the counter; an exception of Gson is only exchanged for
another one. -/
theorem uses_fromString (gson : Gson) (h : Message.ValidId nextId) (s : String) :
    Uses nextId (Message.fromString gson s nextId)
      (Construction.taken gson nextId (.fromString (some s))) := by
  simp only [Construction.taken, Message.fromString, Option.map_some]
  cases hg : gson.fromJson s with
  | error e => exact uses_error e
  | ok genericJson =>
    cases genericJson with
    | none => exact uses_error _
    | some ms =>
      have hu := uses_fromMembers h (Message.withMid ms)
      simp only
      split
      · rename_i n hn
        rw [hn] at hu
        refine ⟨hu.taken, hu.next, ?_⟩
        intro msg hmsg
        cases hmsg
      · exact hu

theorem uses_fromParams (gson : Gson) (h : Message.ValidId nextId) (ps : List (String × List String)) :
    Uses nextId (Message.fromParams ps nextId)
      (Construction.taken gson nextId (.fromParams (some ps))) := by
  simp only [Construction.taken, Message.fromParams, Option.map_some]
  cases hf : Message.firstValues ps with
  | error e => exact uses_error e
  | ok json => exact uses_fromMembers h json

/-- **One call** of any kind. -/
theorem Construction.run_spec (gson : Gson) (h : Message.ValidId nextId) (c : Construction) :
    Uses nextId (c.run gson nextId) (c.taken gson nextId) := by
  cases c with
  | message client type => exact uses_construct h ..
  | element client value type => exact uses_construct h ..
  | text client value type => exact uses_ofText h ..
  | exception client e type =>
    cases e with
    | none => exact uses_error _
    | some localized => exact uses_ofText h ..
  | withMid mid client value type =>
    refine ⟨by simp [taken], rfl, ?_⟩
    intro msg hmsg
    obtain ⟨rfl, hnonneg⟩ := Message.validate_eq_ok.mp hmsg
    exact ⟨hnonneg, by simp [taken]⟩
  | read client value => exact uses_construct h ..
  | readMid mid client value => exact uses_construct h ..
  | execute client value => exact uses_execute h ..
  | executeName client name args => exact uses_executeName h ..
  | fromString json =>
    cases json with
    | none => exact uses_error _
    | some s => exact uses_fromString gson h s
  | fromParams params =>
    cases params with
    | none => exact uses_error _
    | some ps => exact uses_fromParams gson h ps

end Calls

/-! ## Runs -/

/-- The counter, the ids that were taken from it, and the messages that were returned. -/
structure Counter where
  nextId : Int
  taken : List Int
  returned : List Message

namespace Counter

variable {gson : Gson} {s : Counter}

def init : Counter := { nextId := 0, taken := [], returned := [] }

/-- One call. -/
def next (gson : Gson) (s : Counter) (c : Construction) : Counter where
  nextId := (c.run gson s.nextId).2
  taken := s.taken ++ (c.taken gson s.nextId).toList
  returned := s.returned ++ (c.run gson s.nextId).1.toOption.toList

/-- Some calls, one after the other. -/
def after (gson : Gson) (cs : List Construction) : Counter := cs.foldl (next gson) init

/-- The ids were taken in order. -/
structure InOrder (s : Counter) : Prop where
  nextId : s.nextId = autoId s.taken.length
  taken : s.taken = (List.range s.taken.length).map autoId
  returned : ∀ msg ∈ s.returned, 0 ≤ msg.mid

theorem inOrder_next (h : s.InOrder) (c : Construction) : (s.next gson c).InOrder := by
  have hvalid : Message.ValidId s.nextId := h.nextId ▸ validId_autoId _
  have hu := Construction.run_spec gson hvalid c
  have hreturned : ∀ msg ∈ (s.next gson c).returned, 0 ≤ msg.mid := by
    intro msg hmem
    rcases List.mem_append.mp hmem with hold | hnew
    · exact h.returned msg hold
    · cases hr : (c.run gson s.nextId).1 with
      | error e =>
        rw [hr] at hnew
        cases hnew
      | ok msg' =>
        rw [hr] at hnew
        cases List.mem_singleton.mp hnew
        exact (hu.mid msg hr).1
  cases ht : c.taken gson s.nextId with
  | none =>
    have hnext : (s.next gson c).nextId = s.nextId := by
      have hn := hu.next
      rw [ht] at hn
      exact hn
    have htaken : (s.next gson c).taken = s.taken := by
      simp [next, ht]
    exact ⟨by rw [hnext, htaken, h.nextId], by rw [htaken]; exact h.taken, hreturned⟩
  | some k =>
    have hk := hu.taken k ht
    have hnext : (s.next gson c).nextId = incNextId s.nextId := by
      have hn := hu.next
      rw [ht] at hn
      exact hn
    have htaken : (s.next gson c).taken = s.taken ++ [s.nextId] := by
      simp [next, ht, hk]
    refine ⟨?_, ?_, hreturned⟩
    · rw [hnext, htaken, h.nextId, incNextId_autoId, List.length_append, List.length_singleton]
    · rw [htaken, List.length_append, List.length_singleton, List.range_succ, List.map_append, ← h.taken,
        h.nextId]
      rfl

theorem inOrder_after (gson : Gson) (cs : List Construction) : (after gson cs).InOrder := by
  have hrun : ∀ (cs : List Construction) (s : Counter), s.InOrder → (cs.foldl (next gson) s).InOrder := by
    intro cs
    induction cs with
    | nil => exact fun s h => h
    | cons c cs ih => exact fun s h => ih _ (inOrder_next h c)
  exact hrun cs init ⟨rfl, rfl, by simp [init]⟩

/-- The `i`-th id that was taken. -/
theorem InOrder.getElem? (h : s.InOrder) {i : Nat} {k : Int} (hi : s.taken[i]? = some k) :
    k = autoId i := by
  have hlt : i < s.taken.length := (List.getElem?_eq_some_iff.mp hi).1
  rw [h.taken, List.getElem?_map, List.getElem?_range hlt] at hi
  exact (Option.some.inj hi).symm

end Counter

/-! ## Answers -/

/-- What an `InvalidMessageException` handler around `r` does makes no difference. -/
def HandlerUnreachable (r : Except Throwable Message) : Prop :=
  ∀ handler handler', tryResponse r handler = tryResponse r handler'

/-- A message that can always be answered, with its own id and client. The argument of
`errorResponse` is the text of an exception or a string, which may be `null`. -/
structure AlwaysAnswered (msg : Message) : Prop where
  response : ∀ value, ∃ m, msg.response value = .ok m ∧ m.mid = msg.mid ∧ m.client = msg.client
  errorResponseText : ∀ text,
    ∃ m, msg.errorResponseText text = .ok m ∧ m.mid = msg.mid ∧ m.client = msg.client
  errorResponse : ∀ text reason, msg.errorResponse text ≠ .error (.invalidMessage reason)
  handlers : (∀ value, HandlerUnreachable (msg.response value)) ∧
    (∀ text, HandlerUnreachable (msg.errorResponseText text)) ∧
    ∀ text, HandlerUnreachable (msg.errorResponse text)
  requests : ∀ gson model registry o, ∀ call ∈ (handleRequest gson model registry msg).answers o,
    ∃ m, call = .response m ∧ m.mid = msg.mid ∧ m.client = msg.client

section Answers

variable {msg : Message}

theorem make_keeps {mid : Int} (h : 0 ≤ mid) (client : Option String) (value : Option Json)
    (type : MessageType) :
    Message.make mid client value type = .ok { cls := .message, type := some type, mid, client, value } :=
  Message.validate_eq_ok.mpr ⟨rfl, h⟩

theorem handlerUnreachable_ok (m : Message) : HandlerUnreachable (.ok m) := fun _ _ => rfl

theorem alwaysAnswered (h : 0 ≤ msg.mid) : AlwaysAnswered msg where
  response := fun value => ⟨_, make_keeps h .., rfl, rfl⟩
  errorResponseText := fun text => ⟨_, make_keeps h .., rfl, rfl⟩
  errorResponse := by
    intro text reason hr
    cases text with
    | none => cases hr
    | some s =>
      rw [Message.errorResponse, Message.errorResponseText, make_keeps h] at hr
      cases hr
  handlers := by
    refine ⟨?_, ?_, ?_⟩
    · intro value
      rw [Message.response, make_keeps h]
      exact handlerUnreachable_ok _
    · intro text
      rw [Message.errorResponseText, make_keeps h]
      exact handlerUnreachable_ok _
    · intro text
      cases text with
      | none => exact fun _ _ => rfl
      | some s =>
        rw [Message.errorResponse, Message.errorResponseText, make_keeps h]
        exact handlerUnreachable_ok _
  requests := by
    intro gson model registry o call hcall
    rcases oneAttempt_answers gson model registry msg o with hnil | ⟨value, type, handler, -, hcalls⟩
    · rw [hnil] at hcall
      cases hcall
    · rw [hcalls, make_keeps h] at hcall
      exact ⟨_, List.mem_singleton.mp hcall, rfl, rfl⟩

end Answers

end Lhcb
end QosSupport
