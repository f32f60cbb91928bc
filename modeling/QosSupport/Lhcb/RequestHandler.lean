import QosSupport.Lhcb.Message

/-!
# How the broker answers a request

`handleRequest` answers at once, or sends an LwM2M request to a client and answers when its outcome
arrives. An answer is a call of the request's callback (`cb.response` or `cb.error`).

* `Handling`: the calls that `handleRequest` makes, what it sends, and what it throws. Each `Sent` has
  its two callbacks, as one function of the `Outcome`.
* `parseCMReadResponse`: the JSON object of a read response; `none` if its promise is never completed.
* `answeredOnce_iff`: exactly when a request is answered once, and nothing is thrown to the caller.
  Everything else is never answered (`answers_le_one`: nothing is answered twice).
-/

namespace QosSupport
namespace Lhcb

/-! ## LwM2M -/

/-- A floating-point value: a finite one as its text, or one that JSON has no number for. -/
inductive Double where
  | finite (text : String)
  | nan
  | infinite (negative : Bool)
  deriving DecidableEq

/-- A value of a resource. -/
inductive Value where
  | string (s : String)
  | integer (n : Int)
  | float (d : Double)
  | boolean (b : Bool)
  | bytes (data : List (BitVec 8))
  | time (millis : Int)

/-- A resource, with one value or with one for each instance. -/
inductive Resource where
  | single (value : Value)
  | multiple (values : List (Nat × Value))

/-- The content of a read response. -/
inductive Node where
  | object
  | objectInstance (resources : List (Nat × Resource))
  | resource

/-- What the LwM2M server calls back with: a response, with its content, if it has any, or an
exception, with its message, if it has one. -/
inductive Outcome where
  | response (content : Option Node)
  | failure (message : Option String)

/-- The resources of an object model: the name of each id. -/
abbrev ObjectModel := Nat → Option String

/-- The JSON object of resources. -/
abbrev ReadResult := Except Throwable (Option Members)

/-- `gson.toJsonTree` of a value: a `double` that is not finite is refused. -/
def toJsonTree (gson : Gson) : Value → Except Throwable Json
  | .string s => .ok (.str s)
  | .integer n => .ok (.num (toString n))
  | .float (.finite text) => .ok (.num text)
  | .float .nan | .float (.infinite _) => .error .illegalArgument
  | .boolean b => .ok (.bool b)
  | .bytes data => .ok (.arr (data.map fun b => .num (toString b.toInt)))
  | .time millis => .ok (.str (gson.date millis))

/-- The JSON value of a resource. -/
def resourceTree (gson : Gson) : Resource → Except Throwable Json
  | .single v => toJsonTree gson v
  | .multiple vs => Json.arr <$> vs.mapM fun v => toJsonTree gson v.2

/-- The loop of `parseCMReadResponse`, from the object built so far. -/
def addResources (gson : Gson) (model : ObjectModel) (json : Members) :
    List (Nat × Resource) → Except Throwable Members
  | [] => .ok json
  | (id, r) :: rs =>
    match model id with
    | none => .error .nullPointer
    | some name =>
      match resourceTree gson r with
      | .error e => .error e
      | .ok v => addResources gson model (json.add name v) rs

/-- `parseCMReadResponse` (module doc). -/
def parseCMReadResponse (gson : Gson) (model : ObjectModel) : Option Node → ReadResult
  | none => .error .nullPointer
  | some .object | some .resource => .ok none
  | some (.objectInstance resources) => some <$> addResources gson model [] resources

/-! ## The handler -/

/-- A call of the request's callback. -/
inductive CbCall where
  | response (msg : Message)
  | error (e : Throwable)

/-- What a piece of code does: the calls it makes, and the exception that ends it, if any. -/
structure Effect where
  calls : List CbCall
  thrown : Option Throwable

/-- `try { cb.response(..) } catch (InvalidMessageException e) { .. }` -/
def tryResponse (response : Except Throwable Message) (handler : Throwable → List CbCall) : Effect :=
  match response with
  | .ok msg => { calls := [.response msg], thrown := none }
  | .error (.invalidMessage text) => { calls := handler (.invalidMessage text), thrown := none }
  | .error e => { calls := [], thrown := some e }

/-- A request to an LwM2M client. -/
inductive Lwm2mRequest where
  | read (objectId instanceId : Nat)
  | execute (objectId instanceId resourceId : Nat) (parameters : String)

/-- A request that is sent, with its callbacks. -/
structure Sent where
  client : String
  request : Lwm2mRequest
  callback : Outcome → Effect

/-- What `handleRequest` does before it returns or throws. -/
structure Handling extends Effect where
  sent : List Sent

/-- The code ends without sending anything. -/
def Effect.only (e : Effect) : Handling := { e with sent := [] }

/-- The error callback of both requests. -/
def onFailure (msg : Message) (message : Option String) : Effect :=
  tryResponse (msg.errorResponse message) fun _ => [.error (.lwm2m message)]

/-- The callbacks of a read request. -/
def readCallback (gson : Gson) (model : ObjectModel) (msg : Message) : Outcome → Effect
  | .response content =>
    match parseCMReadResponse gson model content with
    | .error e => { calls := [], thrown := some e }
    | .ok none => { calls := [], thrown := none }
    | .ok (some json) => tryResponse (msg.response (some (.obj json))) fun e => [.error e]
  | .failure message => onFailure msg message

/-- The callbacks of an execute request; a message that cannot be built is not answered. -/
def executeCallback (msg : Message) : Outcome → Effect
  | .response _ => tryResponse (msg.response none) fun _ => []
  | .failure message => onFailure msg message

/-- `handleRequest`, with the endpoints of the registered clients. -/
def handleRequest (gson : Gson) (model : ObjectModel) (registry : List String) (msg : Message) :
    Handling :=
  match msg.type, msg.client with
  | none, _ => (tryResponse (msg.errorResponseText "Message has no type") fun e => [.error e]).only
  | some _, none =>
    (tryResponse (msg.response (some (.arr (registry.map .str)))) fun e => [.error e]).only
  | some type, some client =>
    if client ∈ registry then
      if type = .read then
        { calls := [], thrown := none,
          sent := [{ client, request := .read 4 0, callback := readCallback gson model msg }] }
      else if msg.cls = .executeMessage then
        match msg.getArgs with
        | .error e => { calls := [], thrown := some e, sent := [] }
        | .ok none => { calls := [], thrown := some .nullPointer, sent := [] }
        | .ok (some args) =>
          { calls := [], thrown := none,
            sent := [{ client, request := .execute 3000 0 0 (gson.text (.arr args)),
                       callback := executeCallback msg }] }
      else { calls := [], thrown := none, sent := [] }
    else
      (tryResponse (msg.errorResponseText ("Client " ++ client ++ " not found"))
        fun e => [.error e]).only

/-- All calls of the callback, if what is sent has the outcome `o`. -/
def Handling.answers (h : Handling) (o : Outcome) : List CbCall :=
  h.calls ++ h.sent.flatMap fun s => (s.callback o).calls

/-- The request is answered once, and nothing is thrown to the caller. -/
def AnsweredOnce (gson : Gson) (model : ObjectModel) (registry : List String) (msg : Message)
    (o : Outcome) : Prop :=
  (handleRequest gson model registry msg).thrown = none ∧
    ((handleRequest gson model registry msg).answers o).length = 1

/-! ## When a request is answered -/

/-- Gson has a JSON value for it. -/
def Value.Plain : Value → Prop
  | .float d => ∃ text, d = .finite text
  | _ => True

/-- Gson has a JSON value for every value of the resource. -/
def Resource.Plain : Resource → Prop
  | .single v => v.Plain
  | .multiple vs => ∀ v ∈ vs, v.2.Plain

/-- The outcome of a read request that is answered: an object instance whose resources are all in the
model and have JSON values, or an exception with a message. -/
def Readable (model : ObjectModel) : Outcome → Prop
  | .response (some (.objectInstance rs)) => ∀ x ∈ rs, model x.1 ≠ none ∧ x.2.Plain
  | .response _ => False
  | .failure message => message ≠ none

/-- The value is an object with an array `args`. -/
def HasArgs (msg : Message) : Prop :=
  ∃ ms args, msg.value = some (.obj ms) ∧ ms.lookup "args" = some (.arr args)

/-- A request for a registered client is a read request with a readable outcome, or an execute request
with `args` whose outcome is not an exception without a message. -/
def Answerable (model : ObjectModel) (registry : List String) (msg : Message) (o : Outcome) : Prop :=
  ∀ client ∈ registry, msg.client = some client →
    (msg.type = some .read ∧ Readable model o) ∨
    (msg.type = some .execute ∧ HasArgs msg ∧ o ≠ .failure none)

section Answers

variable (gson : Gson) {model : ObjectModel} {registry : List String} {msg : Message} {o : Outcome}

theorem make_ok {mid : Int} (h : 0 ≤ mid) (client : Option String) (value : Option Json)
    (type : MessageType) : ∃ m, Message.make mid client value type = .ok m :=
  ⟨_, Message.validate_eq_ok.mpr ⟨rfl, h⟩⟩

theorem tryResponse_ok {r : Except Throwable Message} {handler : Throwable → List CbCall}
    (h : ∃ m, r = .ok m) :
    (tryResponse r handler).calls.length = 1 ∧ (tryResponse r handler).thrown = none := by
  obtain ⟨m, rfl⟩ := h
  exact ⟨rfl, rfl⟩

theorem toJsonTree_ok {v : Value} : (∃ j, toJsonTree gson v = .ok j) ↔ v.Plain := by
  cases v with
  | float d => cases d <;> simp [toJsonTree, Value.Plain]
  | _ => simp [toJsonTree, Value.Plain]

/-- A list is converted if every element is. -/
theorem mapM_ok {α β ε : Type} {f : α → Except ε β} {l : List α} :
    (∃ ys, l.mapM f = .ok ys) ↔ ∀ a ∈ l, ∃ b, f a = .ok b := by
  induction l with
  | nil => simp [pure, Except.pure]
  | cons a l ih =>
    rw [List.mapM_cons, List.forall_mem_cons, ← ih]
    cases ha : f a with
    | error e => simp [bind, Except.bind]
    | ok b => cases hl : l.mapM f <;> simp [bind, Except.bind, pure, Except.pure]

theorem resourceTree_ok {r : Resource} : (∃ j, resourceTree gson r = .ok j) ↔ r.Plain := by
  cases r with
  | single v => exact toJsonTree_ok gson
  | multiple vs =>
    have hmap : (∃ j, resourceTree gson (.multiple vs) = .ok j) ↔
        ∃ ys, vs.mapM (fun v => toJsonTree gson v.2) = .ok ys := by
      simp only [resourceTree]
      cases h : vs.mapM (fun v => toJsonTree gson v.2) <;> simp [Functor.map, Except.map]
    rw [hmap, mapM_ok]
    exact forall₂_congr fun v _ => toJsonTree_ok gson

/-- The loop over the resources ends if all are in the model and have JSON values. -/
theorem addResources_ok {rs : List (Nat × Resource)} (json : Members) :
    (∃ ms, addResources gson model json rs = .ok ms) ↔
      ∀ x ∈ rs, model x.1 ≠ none ∧ x.2.Plain := by
  induction rs generalizing json with
  | nil => simp [addResources]
  | cons x rs ih =>
    obtain ⟨id, r⟩ := x
    rw [List.forall_mem_cons, addResources]
    cases hm : model id with
    | none => simp
    | some name =>
      have hr : (∃ j, resourceTree gson r = .ok j) ↔ r.Plain := resourceTree_ok gson
      cases ht : resourceTree gson r with
      | error e =>
        rw [ht] at hr
        have hno : ¬ r.Plain := fun h => by simpa using hr.mpr h
        simp [hno]
      | ok v =>
        have hyes : r.Plain := hr.mp ⟨v, ht⟩
        simp only [ih]
        simp [hyes]

variable {gson}

/-- Both callbacks answer an exception with a message, and no other one. -/
theorem onFailure_once (hmid : 0 ≤ msg.mid) (message : Option String) :
    (onFailure msg message).calls.length = 1 ↔ message ≠ none := by
  cases message with
  | none => simp [onFailure, Message.errorResponse, tryResponse]
  | some text =>
    have hcall : (onFailure msg (some text)).calls.length = 1 :=
      (tryResponse_ok (make_ok hmid _ _ _)).1
    simp [hcall]

theorem readCallback_once (hmid : 0 ≤ msg.mid) :
    (readCallback gson model msg o).calls.length = 1 ↔ Readable model o := by
  cases o with
  | failure message => exact onFailure_once hmid message
  | response content =>
    rcases content with _ | _ | rs | _
    · simp [readCallback, parseCMReadResponse, Readable]
    · simp [readCallback, parseCMReadResponse, Readable]
    · rw [Readable, ← addResources_ok gson []]
      simp only [readCallback, parseCMReadResponse]
      cases addResources gson model [] rs with
      | error e => simp [Functor.map, Except.map]
      | ok ms =>
        have hcall : (tryResponse (msg.response (some (.obj ms)))
            fun e => [.error e]).calls.length = 1 := (tryResponse_ok (make_ok hmid _ _ _)).1
        exact ⟨fun _ => ⟨ms, rfl⟩, fun _ => hcall⟩
    · simp [readCallback, parseCMReadResponse, Readable]

theorem executeCallback_once (hmid : 0 ≤ msg.mid) :
    (executeCallback msg o).calls.length = 1 ↔ o ≠ .failure none := by
  cases o with
  | failure message =>
    have honce := onFailure_once hmid message
    simpa [executeCallback] using honce
  | response content =>
    have hcall : (executeCallback msg (.response content)).calls.length = 1 :=
      (tryResponse_ok (make_ok hmid _ _ _)).1
    simp [hcall]

theorem getArgs_ok {args : List Json} : msg.getArgs = .ok (some args) ↔
    ∃ ms, msg.value = some (.obj ms) ∧ ms.lookup "args" = some (.arr args) := by
  unfold Message.getArgs Message.members
  rcases msg.value with _ | v
  · simp [bind, Except.bind]
  · cases v with
    | obj ms =>
      rcases hargs : ms.lookup "args" with _ | a
      · simp [bind, Except.bind, hargs, pure, Except.pure]
      · cases a <;> simp [bind, Except.bind, hargs, pure, Except.pure, throw, throwThe,
          MonadExceptOf.throw]
    | _ => simp [bind, Except.bind]

/-- A request that is answered before `handleRequest` returns. -/
theorem answeredOnce_only {e : Effect} (h : handleRequest gson model registry msg = e.only)
    (he : e.calls.length = 1 ∧ e.thrown = none) : AnsweredOnce gson model registry msg o := by
  rw [AnsweredOnce, h]
  exact ⟨he.2, by simpa [Handling.answers, Effect.only] using he.1⟩

/-- A request that is sent is answered by its callback. -/
theorem answeredOnce_sent {x : Sent}
    (h : handleRequest gson model registry msg = { calls := [], thrown := none, sent := [x] }) :
    AnsweredOnce gson model registry msg o ↔ (x.callback o).calls.length = 1 := by
  simp [AnsweredOnce, h, Handling.answers]

section Registered

variable {client : String} (hc : msg.client = some client) (hreg : client ∈ registry)

include hc hreg

theorem answeredOnce_read (hd : msg.Decoded) (ht : msg.type = some .read) :
    AnsweredOnce gson model registry msg o ↔ Readable model o := by
  have hsent : handleRequest gson model registry msg = { calls := [], thrown := none, sent :=
      [{ client, request := .read 4 0, callback := readCallback gson model msg }] } := by
    simp only [handleRequest, ht, hc, if_pos hreg, if_true]
  rw [answeredOnce_sent hsent]
  exact readCallback_once hd.mid

theorem answeredOnce_execute (hd : msg.Decoded) (ht : msg.type = some .execute) :
    AnsweredOnce gson model registry msg o ↔ HasArgs msg ∧ o ≠ .failure none := by
  have hcls : msg.cls = .executeMessage := hd.cls _ ht
  have hno : (∀ args, msg.getArgs ≠ .ok (some args)) → ¬ HasArgs msg := by
    rintro h ⟨ms, args, hargs⟩
    exact h args (getArgs_ok.mpr ⟨ms, hargs⟩)
  cases ha : msg.getArgs with
  | error e =>
    have hno := hno (by simp [ha])
    simp [AnsweredOnce, handleRequest, ht, hc, hreg, hcls, ha, hno]
  | ok a =>
    cases a with
    | none =>
      have hno := hno (by simp [ha])
      simp [AnsweredOnce, handleRequest, ht, hc, hreg, hcls, ha, hno]
    | some args =>
      have hyes : HasArgs msg := by
        obtain ⟨ms, hargs⟩ := getArgs_ok.mp ha
        exact ⟨ms, args, hargs⟩
      have hsent : handleRequest gson model registry msg = { calls := [], thrown := none, sent :=
          [{ client, request := .execute 3000 0 0 (gson.text (.arr args)),
             callback := executeCallback msg }] } := by
        simp [handleRequest, ht, hc, hreg, hcls, ha]
      rw [answeredOnce_sent hsent, and_iff_right hyes]
      exact executeCallback_once hd.mid

/-- A message of another type is ignored. -/
theorem not_answeredOnce (hd : msg.Decoded) {t : MessageType} (ht : msg.type = some t)
    (hread : t ≠ .read) (hexec : t ≠ .execute) : ¬ AnsweredOnce gson model registry msg o := by
  have hcls : msg.cls ≠ .executeMessage := by
    rw [hd.cls t ht]
    cases t <;> simp_all [Message.classOf]
  simp [AnsweredOnce, handleRequest, ht, hc, hreg, hread, hcls, Handling.answers]

end Registered

/-- What a callback is called with: nothing, or what one attempt to build a message leads to. -/
def OneAttempt (msg : Message) (calls : List CbCall) : Prop :=
  calls = [] ∨ ∃ value type handler, (∀ e, (handler e).length ≤ 1) ∧
    calls = (tryResponse (Message.make msg.mid msg.client value type) handler).calls

theorem oneAttempt_make {value : Option Json} {type : MessageType} {handler : Throwable → List CbCall}
    (h : ∀ e, (handler e).length ≤ 1) :
    OneAttempt msg (tryResponse (Message.make msg.mid msg.client value type) handler).calls :=
  .inr ⟨value, type, handler, h, rfl⟩

theorem oneAttempt_onFailure (msg : Message) (message : Option String) :
    OneAttempt msg (onFailure msg message).calls := by
  cases message with
  | none => exact .inl rfl
  | some text => exact oneAttempt_make fun _ => Nat.le_refl _

/-- **All that a request can be answered with**, whatever its message is. -/
theorem oneAttempt_answers (gson : Gson) (model : ObjectModel) (registry : List String) (msg : Message)
    (o : Outcome) : OneAttempt msg ((handleRequest gson model registry msg).answers o) := by
  have honly : ∀ e : Effect, OneAttempt msg e.calls → OneAttempt msg (e.only.answers o) :=
    fun e he => by simpa [Handling.answers, Effect.only] using he
  have hread : OneAttempt msg (readCallback gson model msg o).calls := by
    cases o with
    | failure message => exact oneAttempt_onFailure msg message
    | response content =>
      simp only [readCallback]
      split
      · exact .inl rfl
      · exact .inl rfl
      · exact oneAttempt_make fun _ => Nat.le_refl _
  have hexec : OneAttempt msg (executeCallback msg o).calls := by
    cases o with
    | failure message => exact oneAttempt_onFailure msg message
    | response content => exact oneAttempt_make fun _ => Nat.zero_le 1
  unfold handleRequest
  split
  · exact honly _ (oneAttempt_make fun _ => Nat.le_refl _)
  · exact honly _ (oneAttempt_make fun _ => Nat.le_refl _)
  · split
    · split
      · simpa [Handling.answers] using hread
      · split
        · split
          · exact .inl rfl
          · exact .inl rfl
          · simpa [Handling.answers] using hexec
        · exact .inl rfl
    · exact honly _ (oneAttempt_make fun _ => Nat.le_refl _)

/-- **No request is answered twice.** -/
theorem answers_le_one (gson : Gson) (model : ObjectModel) (registry : List String) (msg : Message)
    (o : Outcome) : ((handleRequest gson model registry msg).answers o).length ≤ 1 := by
  rcases oneAttempt_answers gson model registry msg o with h | ⟨value, type, handler, hlen, h⟩
  · simp [h]
  · rw [h]
    unfold tryResponse
    split
    · exact Nat.le_refl _
    · exact hlen _
    · exact Nat.zero_le 1

/-- The callback of a message with a valid id is called with messages only. -/
theorem answers_response (gson : Gson) (model : ObjectModel) (registry : List String) {msg : Message}
    (o : Outcome) (hmid : 0 ≤ msg.mid) :
    ∀ call ∈ (handleRequest gson model registry msg).answers o, ∃ m, call = .response m := by
  rcases oneAttempt_answers gson model registry msg o with h | ⟨value, type, handler, -, h⟩
  · simp [h]
  · obtain ⟨m, hm⟩ := make_ok hmid msg.client value type
    simp [h, hm, tryResponse]

/-- **Every request that was decoded** is answered once, and throws nothing to the caller, exactly if
it is `Answerable`. -/
theorem answeredOnce_iff (gson : Gson) (model : ObjectModel) (registry : List String) (msg : Message)
    (o : Outcome)
    (h : (∃ json nextId n, Message.fromString gson json nextId = (.ok msg, n)) ∨
      ∃ params nextId n, Message.fromParams params nextId = (.ok msg, n)) :
    AnsweredOnce gson model registry msg o ↔ Answerable model registry msg o := by
  have hd : msg.Decoded := by
    rcases h with ⟨json, nextId, n, h⟩ | ⟨params, nextId, n, h⟩
    · exact Message.decoded_of_fromString h
    · exact Message.decoded_of_fromParams h
  obtain ⟨t, ht⟩ := Option.ne_none_iff_exists'.mp hd.type
  cases hc : msg.client with
  | none =>
    have hnow : handleRequest gson model registry msg = (tryResponse (msg.response
        (some (.arr (registry.map .str)))) fun e => [.error e]).only := by
      simp only [handleRequest, ht, hc]
    refine iff_of_true (answeredOnce_only hnow (tryResponse_ok (make_ok hd.mid _ _ _))) ?_
    intro client _ h
    rw [hc] at h
    cases h
  | some client =>
    by_cases hreg : client ∈ registry
    · have hans : Answerable model registry msg o ↔ (t = .read ∧ Readable model o) ∨
          (t = .execute ∧ HasArgs msg ∧ o ≠ .failure none) := by
        simp only [Answerable, ht, Option.some.injEq]
        exact ⟨fun h => h client hreg hc, fun h _ _ _ => h⟩
      rw [hans]
      by_cases hread : t = .read
      · subst hread
        rw [answeredOnce_read hc hreg hd ht]
        simp
      by_cases hexec : t = .execute
      · subst hexec
        rw [answeredOnce_execute hc hreg hd ht]
        simp
      · simp [not_answeredOnce hc hreg hd ht hread hexec, hread, hexec]
    · have hnow : handleRequest gson model registry msg = (tryResponse (msg.errorResponseText
          ("Client " ++ client ++ " not found")) fun e => [.error e]).only := by
        simp only [handleRequest, ht, hc, if_neg hreg]
      refine iff_of_true (answeredOnce_only hnow (tryResponse_ok (make_ok hd.mid _ _ _))) ?_
      intro c hmem h
      rw [hc] at h
      cases h
      exact absurd hmem hreg

end Answers

/-- The text of a read request for the client `c`. -/
def readText : String := "\x7b\"type\":\"read\",\"client\":\"c\"\x7d"

/-- Gson, as far as it is used for this request. -/
def sampleGson : Gson where
  fromJson text :=
    if text = readText then .ok (some [("type", .str "read"), ("client", .str "c")])
    else .error .jsonSyntax
  text _ := "[]"
  date _ := "Jan 1, 1970 12:00:00 AM"

/-- Gson, as far as it is used for the text of one object. -/
def gsonFor (text : String) (ms : Members) : Gson where
  fromJson t := if t = "" then .ok none else if t = text then .ok (some ms) else .error .jsonSyntax
  text _ := "[]"
  date _ := "Jan 1, 1970 12:00:00 AM"

/-- The model of the bearers. -/
def sampleModel : ObjectModel
  | 0 => some "Network Bearer"
  | 1 => some "Available Network Bearer"
  | _ => none

/-- The message of this request. -/
def readMsg : Message where
  cls := .readMessage
  type := some .read
  mid := 0
  client := some "c"
  value := none

theorem fromString_readText : Message.fromString sampleGson readText 0 = (.ok readMsg, 1) := by
  rfl

/-- The client answers with its network bearer. -/
theorem answeredOnce_bearer : Message.fromString sampleGson readText 0 = (.ok readMsg, 1) ∧
    AnsweredOnce sampleGson sampleModel ["c"] readMsg
      (.response (some (.objectInstance [(0, .single (.integer 41))]))) := by
  have hmsg := fromString_readText
  refine ⟨hmsg, (answeredOnce_iff _ _ _ _ _ (.inl ⟨readText, 0, 1, hmsg⟩)).mpr ?_⟩
  intro client _ _
  refine .inl ⟨rfl, ?_⟩
  rintro x hx
  obtain rfl := List.mem_singleton.mp hx
  exact ⟨by simp [sampleModel], trivial⟩

/-- A response without content, as to a request that the client refuses, is not answered at all. -/
theorem no_content_unanswered : Message.fromString sampleGson readText 0 = (.ok readMsg, 1) ∧
    ¬ AnsweredOnce sampleGson sampleModel ["c"] readMsg (.response none) ∧
    (handleRequest sampleGson sampleModel ["c"] readMsg).answers (.response none) = [] :=
  ⟨rfl, fun h => absurd h.2 (by decide), rfl⟩

end Lhcb
end QosSupport
