import Mathlib.Data.List.DropRight
import QosSupport.Lhcb.RequestHandler

/-!
# The two front ends of the broker

A request comes in as a WebSocket frame (`onWebSocketText`) or over HTTP (`WellKnownServlet.handleRequest`). A front end
decodes it and passes the message to the request handler, or answers it itself.

* `Reaction`: the messages that a front end passes to `handleRequest`, what it sends itself, and what it
  throws.
* `taken_iff`: exactly which frames and which HTTP requests are passed on once or answered once. All the
  others are dropped without an answer.
* `Seen`: what the clients and the requester see of a reaction, once its messages are handled.
* `seen_eq_iff`: exactly which messages have the same effect over both front ends.
-/

namespace QosSupport
namespace Lhcb

/-- What is sent to a requester: a message, or the text of an HTTP request that failed. -/
inductive Reply where
  | message (msg : Message)
  | failed (status : Nat) (text : String)

/-- The static variables of the broker. -/
structure Broker where
  externalHost : Option String
  nextId : Int
  valid : Message.ValidId nextId

/-- The state after a message was decoded. -/
def Broker.decoded (b : Broker) (n : Int) (h : n = b.nextId ∨ n = incNextId b.nextId) : Broker where
  externalHost := b.externalHost
  nextId := n
  valid := by
    rcases h with rfl | rfl
    · exact b.valid
    · exact Message.validId_incNextId b.valid

/-- What a front end does with one request. -/
structure Reaction where
  handled : List Message
  replies : List Reply
  thrown : Option Throwable
  broker : Broker

/-- `getLocalizedMessage`, appended to a text. The callbacks get no other exceptions than the first and
the last kind. -/
def Throwable.localized : Throwable → String
  | .invalidMessage text => text
  | .lwm2m (some message) => message
  | _ => "null"

/-! ## The WebSocket -/

/-- The lower case of a character, up to letters outside ASCII: besides the ASCII capitals, only the
Kelvin sign and the dotted capital I lead to ASCII letters. -/
def lowerChar (c : Char) : List Char :=
  if c = '\u212A' then ['k'] else if c = '\u0130' then ['i', '\u0307'] else [c.toLower]

/-- `toLowerCase` -/
def toLowerCase (s : String) : String := String.ofList (s.toList.flatMap lowerChar)

/-- `split(":")`: there are no empty parts at the end, except for the empty text. -/
def splitHost (host : String) : List String :=
  if host = "" then [""]
  else ((host.toList.splitOn ':').rdropWhile (·.isEmpty)).map String.ofList

/-- Where the broker listens, as far as it knows. -/
structure Address where
  localHost : String
  httpsPort : Int

/-- The value of the answer to `getBrokerInfo`. -/
def brokerInfo (addr : Address) : Option String → Except Throwable Json
  | none => .ok (.obj [("host", .str addr.localHost), ("port", .str (toString addr.httpsPort))])
  | some host => match splitHost host with
    | [] => .error .indexOutOfBounds
    | [h] => .ok (.obj [("host", .str h), ("port", .str (toString addr.httpsPort))])
    | h :: port :: _ => .ok (.obj [("host", .str h), ("port", .str port)])

/-- An execute message is dispatched by its name. -/
def onExecuteMessage (addr : Address) (b : Broker) (msg : Message) : Reaction :=
  let silent : Reaction := { handled := [], replies := [], thrown := none, broker := b }
  match msg.getName with
  | .error e => { silent with thrown := some e }
  | .ok name =>
    if toLowerCase name = "getbrokerinfo" then
      match brokerInfo addr b.externalHost with
      | .error e => { silent with thrown := some e }
      | .ok info => match msg.response (some info) with
        -- An `InvalidMessageException` is only printed.
        | .error _ => silent
        | .ok response => { silent with replies := [.message response] }
    else if toLowerCase name = "changeiface" then { silent with handled := [msg] }
    else silent

/-- `onWebSocketText`, on an open socket. -/
def onWebSocketText (gson : Gson) (addr : Address) (b : Broker) (message : String) : Reaction :=
  let b' := b.decoded _ (Message.fromString_nextId gson message b.nextId)
  let silent : Reaction := { handled := [], replies := [], thrown := none, broker := b' }
  match (Message.fromString gson message b.nextId).1 with
  | .error (.invalidMessage _) => silent
  | .error e => { silent with thrown := some e }
  | .ok msg => match msg.cls with
    | .readMessage => { silent with handled := [msg] }
    | .executeMessage => onExecuteMessage addr b' msg
    | .message => silent

/-- The callback that a frame's request gets; `mid` is the next automatic id when it is called. -/
def wsReply (message : String) (mid : Int) : CbCall → Reply
  | .response msg => .message msg
  | .error e => .message
    { cls := .message, type := some .error, mid, client := none,
      value := some (.str ("Request failed.\r\nOriginal request: " ++ message ++ "\r\nreason: " ++
        e.localized)) }

/-! ## HTTP -/

/-- A request to `/.well-known`. -/
structure HttpRequest where
  forwardedHost : Option String
  host : Option String
  payload : String
  params : List (String × List String)
  /-- The parameters as they are printed, which has the addresses of the arrays. -/
  paramsText : String

/-- The callback that an HTTP request gets. -/
def httpReply (req : HttpRequest) : CbCall → Reply
  | .response msg => .message msg
  | .error e =>
    .failed (match e with | .invalidMessage _ => 400 | _ => 500)
      ("Request failed.\r\npayload: " ++ req.payload ++ "\r\nparams: " ++ req.paramsText ++
        "\r\nreason: " ++ e.localized)

/-- The payload is decoded, or the parameters if it is empty. -/
def HttpRequest.decode (gson : Gson) (req : HttpRequest) (nextId : Int) :
    Except Throwable Message × Int :=
  if 0 < req.payload.length then Message.fromString gson req.payload nextId
  else Message.fromParams req.params nextId

theorem HttpRequest.decode_nextId (gson : Gson) (req : HttpRequest) (nextId : Int) :
    (req.decode gson nextId).2 = nextId ∨ (req.decode gson nextId).2 = incNextId nextId := by
  unfold decode
  split
  · exact Message.fromString_nextId gson req.payload nextId
  · exact Message.fromParams_nextId req.params nextId

/-- `handleRequest` of the servlet. -/
def WellKnownServlet.handleRequest (gson : Gson) (b : Broker) (req : HttpRequest) : Reaction :=
  let b' : Broker := { b.decoded _ (req.decode_nextId gson b.nextId) with
    externalHost := req.forwardedHost.or req.host }
  let silent : Reaction := { handled := [], replies := [], thrown := none, broker := b' }
  match (req.decode gson b.nextId).1 with
  | .ok msg => { silent with handled := [msg] }
  | .error (.invalidMessage text) =>
    { silent with replies := [httpReply req (.error (.invalidMessage text))] }
  | .error e => { silent with thrown := some e }

/-! ## Which requests are taken -/

/-- One message is passed on, or one reply is sent. -/
def Reaction.Taken (r : Reaction) : Prop :=
  (r.handled.length = 1 ∧ r.replies = []) ∨ (r.handled = [] ∧ r.replies.length = 1)

/-- What Gson is documented to do: an empty text is `null`, and it knows no exception of this program. -/
structure Gson.Lawful (gson : Gson) : Prop where
  empty : gson.fromJson "" = .ok none
  own : ∀ text e, gson.fromJson text ≠ .error (.invalidMessage e)

/-- The value is an object with the name `name`. -/
def Named (value : Option Json) (name : String) : Prop :=
  ∃ ms v, value = some (.obj ms) ∧ ms.lookup "name" = some v ∧ v.getAsString = .ok name

/-- The value is an object whose name is `word`, up to case. -/
def Calls (value : Option Json) (word : String) : Prop :=
  ∃ name, Named value name ∧ toLowerCase name = word

/-- The external host is colons only. -/
def OnlyColons (host : Option String) : Prop :=
  ∃ h, host = some h ∧ h ≠ "" ∧ ∀ c ∈ h.toList, c = ':'

/-- An execute message with the name `changeIface`, up to case. -/
def ChangesIface (msg : Message) : Prop :=
  msg.type = some .execute ∧ Calls msg.value "changeiface"

/-- An execute message that the WebSocket answers itself. -/
def AsksInfo (b : Broker) (msg : Message) : Prop :=
  msg.type = some .execute ∧ Calls msg.value "getbrokerinfo" ∧ ¬ OnlyColons b.externalHost

/-- The frames that the WebSocket takes: well-formed objects of type `read`, or of type `execute` for
one of the two names. -/
def FrameTaken (gson : Gson) (b : Broker) (message : String) : Prop :=
  ∃ ms t mid client, gson.fromJson message = .ok (some ms) ∧
    Message.Reads (Message.withMid ms) (some t) mid client ∧ -1 ≤ mid ∧
    (t = .read ∨ t = .execute ∧ (Calls (ms.lookup "value") "changeiface" ∨
      Calls (ms.lookup "value") "getbrokerinfo" ∧ ¬ OnlyColons b.externalHost))

/-- The requests that HTTP takes: objects that are malformed or have a type, and parameters that are
well formed and have a type. -/
def RequestTaken (gson : Gson) (req : HttpRequest) : Prop :=
  if req.payload = "" then
    ∃ ms t mid client, Message.firstValues req.params = .ok ms ∧
      Message.Reads ms (some t) mid client
  else
    ∃ ms, gson.fromJson req.payload = .ok (some ms) ∧
      (Message.Malformed (Message.withMid ms) ∨
        ∃ t mid client, Message.Reads (Message.withMid ms) (some t) mid client)

theorem getName_ok {msg : Message} {name : String} :
    msg.getName = .ok name ↔ Named msg.value name := by
  unfold Message.getName Message.members Named
  rcases msg.value with _ | v
  · simp [bind, Except.bind]
  · cases v with
    | obj ms =>
      rcases hname : ms.lookup "name" with _ | v <;>
        simp [bind, Except.bind, hname, throw, throwThe, MonadExceptOf.throw]
    | _ => simp [bind, Except.bind]

theorem splitOn_isEmpty (cs : List Char) :
    (∀ p ∈ cs.splitOn ':', p.isEmpty) ↔ ∀ c ∈ cs, c = ':' := by
  induction cs with
  | nil => simp
  | cons c cs ih =>
    obtain ⟨p, ps, hp⟩ := List.exists_cons_of_ne_nil (List.splitOnP_ne_nil (· == ':') cs)
    unfold List.splitOn at ih ⊢
    rw [List.splitOnP_cons_eq_if_modifyHead, List.forall_mem_cons, ← ih]
    by_cases hc : c = ':'
    · simp [hc]
    · simp [hc, hp]

/-- A host that is colons only has no parts. -/
theorem splitHost_eq_nil {host : String} :
    splitHost host = [] ↔ host ≠ "" ∧ ∀ c ∈ host.toList, c = ':' := by
  unfold splitHost
  split
  · rename_i h
    simp [h]
  · rename_i h
    rw [List.map_eq_nil_iff, List.rdropWhile_eq_nil_iff, splitOn_isEmpty, and_iff_right h]

theorem brokerInfo_ok (addr : Address) {host : Option String} :
    (∃ info, brokerInfo addr host = .ok info) ↔ ¬ OnlyColons host := by
  cases host with
  | none => simp [brokerInfo, OnlyColons]
  | some h =>
    have hcolons : OnlyColons (some h) ↔ splitHost h = [] := by
      rw [splitHost_eq_nil]
      simp [OnlyColons]
    rw [hcolons, brokerInfo]
    rcases splitHost h with _ | ⟨x, _ | ⟨y, xs⟩⟩ <;> simp

theorem Named.unique {value : Option Json} {name name' : String} (h : Named value name)
    (h' : Named value name') : name = name' := by
  obtain ⟨ms, v, rfl, hv, hs⟩ := h
  obtain ⟨ms', v', heq, hv', hs'⟩ := h'
  cases heq
  rw [hv] at hv'
  cases hv'
  exact Except.ok.inj (hs.symm.trans hs')

theorem calls_iff {value : Option Json} {name word : String} (h : Named value name) :
    Calls value word ↔ toLowerCase name = word := by
  refine ⟨?_, fun hw => ⟨name, h, hw⟩⟩
  rintro ⟨name', h', hw⟩
  rwa [h.unique h']

section Taken

variable {gson : Gson} (addr : Address) {b : Broker}

/-- What the WebSocket does with a message that it decoded. -/
inductive Dispatched (b : Broker) (msg : Message) (r : Reaction) : Prop
  | passed : msg.type = some .read ∨ ChangesIface msg → r.handled = [msg] → r.replies = [] →
      Dispatched b msg r
  | informed (m : Message) (ms : Members) : AsksInfo b msg → ¬ ChangesIface msg → r.handled = [] →
      r.replies = [.message m] → m.type = some .response → m.value = some (.obj ms) →
      Dispatched b msg r
  | dropped : msg.type ≠ some .read → ¬ ChangesIface msg → ¬ AsksInfo b msg → r.handled = [] →
      r.replies = [] → Dispatched b msg r

theorem brokerInfo_obj {host : Option String} {info : Json} (h : brokerInfo addr host = .ok info) :
    ∃ ms, info = .obj ms := by
  unfold brokerInfo at h
  repeat' split at h
  all_goals cases h
  all_goals exact ⟨_, rfl⟩

theorem dispatched_execute {msg : Message} (hmid : 0 ≤ msg.mid) (ht : msg.type = some .execute) :
    Dispatched b msg (onExecuteMessage addr b msg) := by
  have hread : msg.type ≠ some .read := by simp [ht]
  cases hname : msg.getName with
  | error e =>
    have hno : ∀ word, ¬ Calls msg.value word := by
      rintro word ⟨name, h, -⟩
      rw [getName_ok.mpr h] at hname
      cases hname
    refine .dropped hread (fun h => hno _ h.2) (fun h => hno _ h.2.1) ?_ ?_ <;>
      simp [onExecuteMessage, hname]
  | ok name =>
    have hn := getName_ok.mp hname
    by_cases hinfo : toLowerCase name = "getbrokerinfo"
    · have hchange : ¬ ChangesIface msg := by
        rintro ⟨-, h⟩
        rw [calls_iff hn, hinfo] at h
        exact absurd h (by decide)
      cases hb : brokerInfo addr b.externalHost with
      | error e =>
        have hcolons : ¬ AsksInfo b msg := by
          rintro ⟨-, -, h⟩
          obtain ⟨info, hok⟩ := (brokerInfo_ok addr).mpr h
          rw [hok] at hb
          cases hb
        refine .dropped hread hchange hcolons ?_ ?_ <;> simp [onExecuteMessage, hname, hinfo, hb]
      | ok info =>
        obtain ⟨m, hresp, hmt, hmv⟩ : ∃ m, msg.response (some info) = .ok m ∧
            m.type = some .response ∧ m.value = some info :=
          ⟨_, Message.validate_eq_ok.mpr ⟨rfl, hmid⟩, rfl, rfl⟩
        obtain ⟨ms, rfl⟩ := brokerInfo_obj addr hb
        have hasks : AsksInfo b msg :=
          ⟨ht, (calls_iff hn).mpr hinfo, (brokerInfo_ok addr).mp ⟨_, hb⟩⟩
        refine .informed m ms hasks hchange ?_ ?_ hmt hmv <;>
          simp [onExecuteMessage, hname, hinfo, hb, hresp]
    · have hasks : ¬ AsksInfo b msg := fun h => hinfo ((calls_iff hn).mp h.2.1)
      by_cases hchange : toLowerCase name = "changeiface"
      · refine .passed (.inr ⟨ht, (calls_iff hn).mpr hchange⟩) ?_ ?_ <;>
          simp [onExecuteMessage, hname, hchange]
      · refine .dropped hread (fun h => hchange ((calls_iff hn).mp h.2)) hasks ?_ ?_ <;>
          simp [onExecuteMessage, hname, hchange, hinfo]

theorem dispatched {message : String} {msg : Message} {n : Int}
    (h : Message.fromString gson message b.nextId = (.ok msg, n)) :
    Dispatched b msg (onWebSocketText gson addr b message) := by
  have hd := Message.decoded_of_fromString h
  obtain ⟨t, ht⟩ := Option.ne_none_iff_exists'.mp hd.type
  have hcls := hd.cls t ht
  by_cases hread : t = .read
  · subst hread
    refine .passed (.inl ht) ?_ ?_ <;> simp [onWebSocketText, h, hcls, Message.classOf]
  by_cases hexec : t = .execute
  · subst hexec
    have heq : onWebSocketText gson addr b message = onExecuteMessage addr
        (b.decoded _ (Message.fromString_nextId gson message b.nextId)) msg := by
      simp only [onWebSocketText, h, hcls, Message.classOf]
    rw [heq]
    -- The external host is the same in both states.
    have hx := dispatched_execute addr (b := b.decoded _ (Message.fromString_nextId gson message b.nextId))
      hd.mid ht
    cases hx with
    | passed h₁ h₂ h₃ => exact .passed h₁ h₂ h₃
    | informed m ms h₁ h₂ h₃ h₄ h₅ h₆ => exact .informed m ms h₁ h₂ h₃ h₄ h₅ h₆
    | dropped h₁ h₂ h₃ h₄ h₅ => exact .dropped h₁ h₂ h₃ h₄ h₅
  · have hother : msg.cls = .message := by
      rw [hcls]
      cases t <;> simp_all [Message.classOf]
    refine .dropped (by simp [ht, hread]) (by simp [ChangesIface, ht, hexec])
      (by simp [AsksInfo, ht, hexec]) ?_ ?_ <;> simp [onWebSocketText, h, hother]

/-- A frame that is decoded is taken or not by its type and its value. -/
theorem decoded_taken {message : String} {msg : Message} {n : Int}
    (h : Message.fromString gson message b.nextId = (.ok msg, n)) :
    (onWebSocketText gson addr b message).Taken ↔
      msg.type = some .read ∨ ChangesIface msg ∨ AsksInfo b msg := by
  cases dispatched addr h with
  | passed hcase hh hr =>
    refine iff_of_true (.inl ⟨by simp [hh], hr⟩) ?_
    rcases hcase with hread | hchange
    · exact .inl hread
    · exact .inr (.inl hchange)
  | informed m ms hasks _ hh hr =>
    exact iff_of_true (.inr ⟨hh, by simp [hr]⟩) (.inr (.inr hasks))
  | dropped hread hchange hasks hh hr =>
    simp [Reaction.Taken, hh, hr, hread, hchange, hasks]

/-- A frame with a type is decoded if its id is not negative, or `-1`. -/
theorem typed_taken {message : String} {ms : Members} {t : MessageType} {mid : Int}
    {client : Option String} (hg : gson.fromJson message = .ok (some ms))
    (hr : Message.Reads (Message.withMid ms) (some t) mid client) (hmid : -1 ≤ mid) :
    (onWebSocketText gson addr b message).Taken ↔ t = .read ∨
      t = .execute ∧ (Calls (ms.lookup "value") "changeiface" ∨
        Calls (ms.lookup "value") "getbrokerinfo" ∧ ¬ OnlyColons b.externalHost) := by
  have hdec := Message.fromString_reads hg b.valid hr
  rw [← Message.lookup_withMid ms (show "value" ≠ "mid" by decide)]
  by_cases hauto : mid = -1
  · rw [if_pos hauto] at hdec
    rw [decoded_taken addr hdec]
    simp [Message.ofFields, ChangesIface, AsksInfo, and_or_left]
  · rw [if_neg hauto, if_pos (by omega)] at hdec
    rw [decoded_taken addr hdec]
    simp [Message.ofFields, ChangesIface, AsksInfo, and_or_left]

theorem onWebSocketText_taken (message : String) :
    (onWebSocketText gson addr b message).Taken ↔ FrameTaken gson b message := by
  constructor
  · intro htaken
    cases hdec : (Message.fromString gson message b.nextId).1 with
    | error e =>
      have hno : ¬ (onWebSocketText gson addr b message).Taken := by
        simp only [onWebSocketText, hdec]
        split <;> simp_all [Reaction.Taken]
      exact absurd htaken hno
    | ok msg =>
      obtain ⟨ms, hg, hms⟩ := Message.fromString_ok_iff.mp hdec
      obtain ⟨t, mid, client, hr, hmid, -⟩ := (Message.fromMembers_ok_iff b.valid).mp hms
      exact ⟨ms, t, mid, client, hg, hr, hmid, (typed_taken addr hg hr hmid).mp htaken⟩
  · rintro ⟨ms, t, mid, client, hg, hr, hmid, hcase⟩
    exact (typed_taken addr hg hr hmid).mpr hcase

/-- The servlet passes the message on, or calls its error callback. -/
def Answered (r : Except Throwable Message) : Prop :=
  (∃ msg, r = .ok msg) ∨ ∃ text, r = .error (.invalidMessage text)

/-- A message with a type gets its id, or its id is refused. -/
theorem answered_assignId (msg : Message) (nextId : Int) : Answered (msg.assignId nextId).1 := by
  unfold Message.assignId Message.validate
  repeat' split
  · exact .inr ⟨_, rfl⟩
  · exact .inl ⟨_, rfl⟩
  · exact .inr ⟨_, rfl⟩
  · exact .inl ⟨_, rfl⟩

theorem fromString_answered (hgson : gson.Lawful) (text : String) (nextId : Int) :
    Answered (Message.fromString gson text nextId).1 ↔
      ∃ ms, gson.fromJson text = .ok (some ms) ∧ (Message.Malformed (Message.withMid ms) ∨
        ∃ t mid client, Message.Reads (Message.withMid ms) (some t) mid client) := by
  cases hg : gson.fromJson text with
  | error e =>
    have hown : ∀ t, e ≠ .invalidMessage t := fun t he => hgson.own text t (he ▸ hg)
    simp [Message.fromString, hg, Answered, hown]
  | ok r =>
    cases r with
    | none => simp [Message.fromString, hg, Answered]
    | some ms =>
      simp only [Except.ok.injEq, Option.some.injEq, exists_eq_left']
      rcases Message.reads_or_malformed (Message.withMid ms) with ⟨type, mid, client, hr⟩ | hm
      · cases type with
        | none =>
          rw [Message.fromString_untyped hg hr nextId]
          refine iff_of_false (by simp [Answered]) ?_
          rintro (hm | ⟨t, mid', client', hr'⟩)
          · exact hr.not_malformed hm
          · cases (hr.unique hr').1
        | some t =>
          rw [Message.fromString_decode hg (Message.decode_reads hr) nextId]
          exact iff_of_true (answered_assignId _ nextId) (.inr ⟨t, mid, client, hr⟩)
      · rw [Message.fromString_malformed hg hm nextId]
        exact iff_of_true (.inr ⟨_, rfl⟩) (.inl hm)

theorem firstValues_error {params : List (String × List String)} {e : Throwable}
    (h : Message.firstValues params = .error e) : e = .indexOutOfBounds := by
  unfold Message.firstValues at h
  induction params with
  | nil => simp [pure, Except.pure] at h
  | cons p params ih =>
    obtain ⟨name, values⟩ := p
    rw [List.mapM_cons] at h
    cases values with
    | nil =>
      simp only [bind, Except.bind, Except.error.injEq] at h
      exact h.symm
    | cons v vs =>
      simp only [bind, Except.bind, pure, Except.pure] at h
      split at h
      · rename_i heq
        cases h
        exact ih heq
      · cases h

theorem fromParams_answered (params : List (String × List String)) (nextId : Int) :
    Answered (Message.fromParams params nextId).1 ↔
      ∃ ms t mid client, Message.firstValues params = .ok ms ∧
        Message.Reads ms (some t) mid client := by
  cases hv : Message.firstValues params with
  | error e =>
    rw [firstValues_error hv] at hv
    simp [Message.fromParams, hv, Answered]
  | ok ms =>
    simp only [Message.fromParams, hv, Except.ok.injEq, exists_and_left, exists_eq_left']
    rcases Message.reads_or_malformed ms with ⟨type, mid, client, hr⟩ | hm
    · cases type with
      | none =>
        rw [Message.fromMembers, Message.decode_untyped hr]
        refine iff_of_false (by simp [Answered]) ?_
        rintro ⟨t, mid', client', hr'⟩
        cases (hr.unique hr').1
      | some t =>
        rw [Message.fromMembers_decode (Message.decode_reads hr)]
        exact iff_of_true (answered_assignId _ nextId) ⟨t, mid, client, hr⟩
    · rw [Message.fromMembers, Message.decode_malformed hm]
      refine iff_of_false (by simp [Answered]) ?_
      rintro ⟨t, mid', client', hr'⟩
      exact hr'.not_malformed hm

theorem handleRequest_taken (hgson : gson.Lawful) (req : HttpRequest) :
    (WellKnownServlet.handleRequest gson b req).Taken ↔ RequestTaken gson req := by
  have htaken : (WellKnownServlet.handleRequest gson b req).Taken ↔
      Answered (req.decode gson b.nextId).1 := by
    unfold WellKnownServlet.handleRequest
    split <;> simp_all [Reaction.Taken, Answered]
  rw [htaken]
  unfold HttpRequest.decode RequestTaken
  by_cases hempty : req.payload = ""
  · rw [if_pos hempty, hempty, if_neg (by decide)]
    exact fromParams_answered req.params b.nextId
  · have hlen : 0 < req.payload.length := by
      rw [Nat.pos_iff_ne_zero, Ne, String.length_eq_zero_iff]
      exact hempty
    rw [if_neg hempty, if_pos hlen]
    exact fromString_answered hgson req.payload b.nextId

/-- **Which requests are not dropped.** -/
theorem taken_iff (gson : Gson) (hgson : gson.Lawful) (addr : Address) (b : Broker) :
    (∀ message, (onWebSocketText gson addr b message).Taken ↔ FrameTaken gson b message) ∧
    ∀ req, (WellKnownServlet.handleRequest gson b req).Taken ↔ RequestTaken gson req :=
  ⟨onWebSocketText_taken addr, handleRequest_taken hgson⟩

end Taken

theorem lawful_gsonFor (text : String) (ms : Members) : (gsonFor text ms).Lawful where
  empty := rfl
  own t e h := by
    simp only [gsonFor] at h
    repeat' split at h
    all_goals cases h

/-- A broker that has just started. -/
def startedBroker : Broker where
  externalHost := none
  nextId := 0
  valid := ⟨Int.le_refl 0, by decide⟩

def sampleAddress : Address where
  localHost := "localhost"
  httpsPort := 8443

/-- A request with one parameter and no payload. -/
def paramRequest (name value : String) : HttpRequest where
  forwardedHost := none
  host := some "localhost:8443"
  payload := ""
  params := [(name, [value])]
  paramsText := "\x7b" ++ name ++ "=[Ljava.lang.String;@1b2c\x7d"

/-- The object of the read request for the client `c`. -/
def readMembers : Members := [("type", .str "read"), ("client", .str "c")]

/-- The frame of a read request is taken. -/
theorem read_frame_taken : (gsonFor readText readMembers).Lawful ∧
    (onWebSocketText (gsonFor readText readMembers) sampleAddress startedBroker readText).Taken := by
  have hlawful := lawful_gsonFor readText readMembers
  refine ⟨hlawful, ((taken_iff _ hlawful sampleAddress startedBroker).1 readText).mpr ?_⟩
  exact ⟨_, .read, -1, some "c", rfl, ⟨rfl, rfl, rfl⟩, Int.le_refl _, .inl rfl⟩

/-- A message of a type that does not exist is dropped by both front ends. -/
theorem unknown_type_dropped :
    ¬ (onWebSocketText (gsonFor "\x7b\"type\":\"list\"\x7d" [("type", .str "list")]) sampleAddress
      startedBroker "\x7b\"type\":\"list\"\x7d").Taken ∧
    ¬ (WellKnownServlet.handleRequest (gsonFor "\x7b\"type\":\"list\"\x7d" [("type", .str "list")])
      startedBroker (paramRequest "type" "list")).Taken := by
  constructor
  · rintro (⟨h, -⟩ | ⟨-, h⟩)
    · exact absurd h (by decide)
    · exact absurd h (by decide)
  · rintro (⟨h, -⟩ | ⟨-, h⟩)
    · exact absurd h (by decide)
    · exact absurd h (by decide)

/-! ## What is seen of a request -/

/-- The type and the value of a message that is sent back. -/
def Reply.content : Reply → Option (Option MessageType × Option Json)
  | .message msg => some (msg.type, msg.value)
  | .failed _ _ => none

/-- The LwM2M requests that the clients get, and what the requester gets. -/
structure Seen where
  requests : List (String × Lwm2mRequest)
  replies : List (Option (Option MessageType × Option Json))

/-- What is seen of a reaction, if what is sent to a client has the outcome `o`. -/
def Reaction.seen (r : Reaction) (gson : Gson) (model : ObjectModel) (registry : List String)
    (o : Outcome) (reply : CbCall → Reply) : Seen where
  requests := r.handled.flatMap fun msg =>
    (handleRequest gson model registry msg).sent.map fun s => (s.client, s.request)
  replies := (r.replies ++ r.handled.flatMap fun msg =>
    ((handleRequest gson model registry msg).answers o).map reply).map Reply.content

/-- A message for a registered client that the request handler does nothing for. -/
def Ignored (registry : List String) (msg : Message) : Prop :=
  (∃ client ∈ registry, msg.client = some client) ∧ msg.type ≠ some .read ∧
    (msg.type = some .execute → ¬ HasArgs msg)

/-- A message that has the same effect over both front ends: both pass it on, or neither does
anything. -/
def SameOnBoth (registry : List String) (b : Broker) (msg : Message) : Prop :=
  msg.type = some .read ∨ ChangesIface msg ∨ Ignored registry msg ∧ ¬ AsksInfo b msg

/-- Every interface-change command comes from a message with that name. -/
def OnlyChangeIface (seen : Seen) (msg : Message) : Prop :=
  ∀ client args, (client, Lwm2mRequest.execute 3000 0 0 args) ∈ seen.requests → ChangesIface msg

section Seen

variable (gson : Gson) (model : ObjectModel) (registry : List String) {msg : Message} (o : Outcome)

/-- Both callbacks send the same messages on. -/
theorem content_replies (hmid : 0 ≤ msg.mid) (req : HttpRequest) (message : String) (mid : Int) :
    (((handleRequest gson model registry msg).answers o).map (httpReply req)).map Reply.content =
      (((handleRequest gson model registry msg).answers o).map (wsReply message mid)).map
        Reply.content := by
  rw [List.map_map, List.map_map]
  refine List.map_congr_left fun call hcall => ?_
  obtain ⟨m, rfl⟩ := answers_response gson model registry o hmid call hcall
  rfl

/-- A message that is not for a registered client is answered at once: with an array, or with an
error. -/
theorem answers_unregistered (hd : msg.Decoded) (h : ∀ client ∈ registry, msg.client ≠ some client) :
    (handleRequest gson model registry msg).sent = [] ∧
    ∃ m, (handleRequest gson model registry msg).answers o = [.response m] ∧
      (m.type = some .error ∨ ∃ vs, m.value = some (.arr vs)) := by
  obtain ⟨t, ht⟩ := Option.ne_none_iff_exists'.mp hd.type
  cases hc : msg.client with
  | none =>
    have hm : msg.response (some (.arr (registry.map .str))) = .ok
        { cls := .message, type := some .response, mid := msg.mid, client := msg.client,
          value := some (.arr (registry.map .str)) } := Message.validate_eq_ok.mpr ⟨rfl, hd.mid⟩
    simp only [handleRequest, ht, hc, hm, tryResponse, Effect.only, Handling.answers]
    exact ⟨trivial, _, rfl, .inr ⟨_, rfl⟩⟩
  | some client =>
    have hreg : client ∉ registry := fun hmem => h client hmem hc
    have hm : msg.errorResponseText ("Client " ++ client ++ " not found") = .ok
        { cls := .message, type := some .error, mid := msg.mid, client := msg.client,
          value := some (.str ("Client " ++ client ++ " not found")) } :=
      Message.validate_eq_ok.mpr ⟨rfl, hd.mid⟩
    simp only [handleRequest, ht, hc, if_neg hreg, hm, tryResponse, Effect.only, Handling.answers]
    exact ⟨trivial, _, rfl, .inl rfl⟩

/-- A message that is ignored has no effect at all. -/
theorem handleRequest_ignored (hd : msg.Decoded) (h : Ignored registry msg) :
    (handleRequest gson model registry msg).sent = [] ∧
      (handleRequest gson model registry msg).answers o = [] := by
  obtain ⟨⟨client, hreg, hc⟩, hread, hexec⟩ := h
  obtain ⟨t, ht⟩ := Option.ne_none_iff_exists'.mp hd.type
  have hread : t ≠ .read := fun h => hread (h ▸ ht)
  have hcls := hd.cls t ht
  by_cases hex : t = .execute
  · subst hex
    have hargs := hexec ht
    cases ha : msg.getArgs with
    | error e => simp [handleRequest, ht, hc, hreg, hcls, ha, Message.classOf, Handling.answers]
    | ok a =>
      cases a with
      | none => simp [handleRequest, ht, hc, hreg, hcls, ha, Message.classOf, Handling.answers]
      | some args =>
        obtain ⟨ms, hms⟩ := getArgs_ok.mp ha
        exact absurd ⟨ms, args, hms⟩ hargs
  · have hno : msg.cls ≠ .executeMessage := by
      rw [hcls]
      cases t <;> simp_all [Message.classOf]
    simp [handleRequest, ht, hc, hreg, hread, hno, Handling.answers]

/-- An execute message with arguments is sent to its client, whatever its name is. -/
theorem handleRequest_executed {client : String} {args : List Json} (hd : msg.Decoded)
    (hc : msg.client = some client) (hreg : client ∈ registry) (ht : msg.type = some .execute)
    (hargs : msg.getArgs = .ok (some args)) : (handleRequest gson model registry msg).sent =
      [⟨client, .execute 3000 0 0 (gson.text (.arr args)), executeCallback msg⟩] := by
  have hcls := hd.cls _ ht
  simp [handleRequest, ht, hc, hreg, hcls, hargs, Message.classOf]

/-- What is seen of a message that is passed on. -/
def passed (gson : Gson) (model : ObjectModel) (registry : List String) (msg : Message) (o : Outcome)
    (reply : CbCall → Reply) : Seen where
  requests := (handleRequest gson model registry msg).sent.map fun s => (s.client, s.request)
  replies := (((handleRequest gson model registry msg).answers o).map reply).map Reply.content

/-- What is seen of a message that is dropped. -/
def Seen.nothing : Seen := { requests := [], replies := [] }

/-- HTTP passes every message on that it decodes from its payload. -/
theorem seen_http (hgson : gson.Lawful) {b : Broker} {req : HttpRequest} {n : Int}
    (h : Message.fromString gson req.payload b.nextId = (.ok msg, n)) (reply : CbCall → Reply) :
    (WellKnownServlet.handleRequest gson b req).seen gson model registry o reply =
      passed gson model registry msg o reply := by
  have hlen : 0 < req.payload.length := by
    rw [Nat.pos_iff_ne_zero, Ne, String.length_eq_zero_iff]
    intro hempty
    rw [hempty, Message.fromString, hgson.empty] at h
    cases h
  have hdec : req.decode gson b.nextId = (.ok msg, n) := by rw [HttpRequest.decode, if_pos hlen, h]
  simp only [WellKnownServlet.handleRequest, hdec]
  simp [Reaction.seen, passed]

/-- A message that is not a read is ignored, or sent to a client, or answered with an array or an
error. -/
theorem passed_cases (hd : msg.Decoded) (hread : msg.type ≠ some .read) (req : HttpRequest) :
    (Ignored registry msg ∧ passed gson model registry msg o (httpReply req) = .nothing) ∨
    (¬ Ignored registry msg ∧
      ((passed gson model registry msg o (httpReply req)).requests ≠ [] ∨
        ∃ m : Message, (passed gson model registry msg o (httpReply req)).replies =
          [some (m.type, m.value)] ∧ (m.type = some .error ∨ ∃ vs, m.value = some (.arr vs)))) := by
  by_cases hign : Ignored registry msg
  · obtain ⟨hsent, hans⟩ := handleRequest_ignored gson model registry o hd hign
    exact .inl ⟨hign, by simp [passed, hsent, hans, Seen.nothing]⟩
  refine .inr ⟨hign, ?_⟩
  by_cases hreg : ∃ client ∈ registry, msg.client = some client
  · have hexec : msg.type = some .execute ∧ HasArgs msg := by
      by_contra hno
      exact hign ⟨hreg, hread, fun ht hargs => hno ⟨ht, hargs⟩⟩
    obtain ⟨client, hmem, hc⟩ := hreg
    obtain ⟨ms, args, hms⟩ := hexec.2
    have hsent := handleRequest_executed gson model registry hd hc hmem hexec.1
      (getArgs_ok.mpr ⟨ms, hms⟩)
    exact .inl (by simp [passed, hsent])
  · obtain ⟨-, m, hans, hm⟩ := answers_unregistered gson model registry o hd
      fun client hmem hc => hreg ⟨client, hmem, hc⟩
    exact .inr ⟨m, by simp [passed, hans, httpReply, Reply.content], hm⟩

/-- A read is never an interface change. -/
theorem onlyChangeIface_passed (h : msg.type = some .read ∨ ChangesIface msg)
    (reply : CbCall → Reply) :
    OnlyChangeIface (passed gson model registry msg o reply) msg := by
  rcases h with hread | hchange
  · intro client args hmem
    obtain ⟨s, hs, heq⟩ := List.mem_map.mp hmem
    unfold handleRequest at hs
    rw [hread] at hs
    split at hs
    · cases hs
    · cases hs
    · rename_i t c ht hc
      cases ht
      split at hs
      · rw [if_pos rfl] at hs
        obtain rfl := List.mem_singleton.mp hs
        cases heq
      · cases hs
  · exact fun _ _ _ => hchange

theorem onlyChangeIface_nothing {seen : Seen} (h : seen.requests = []) :
    OnlyChangeIface seen msg := by
  intro client args hmem
  rw [h] at hmem
  cases hmem

/-- **Both front ends**: exactly which messages have the same effect over HTTP and over the WebSocket,
with interface changes only for `changeIface`. -/
theorem seen_eq_iff (gson : Gson) (hgson : gson.Lawful) (model : ObjectModel) (registry : List String)
    (addr : Address) (b : Broker) (o : Outcome) (req : HttpRequest) (mid n : Int) (msg : Message)
    (h : Message.fromString gson req.payload b.nextId = (.ok msg, n)) :
    ((WellKnownServlet.handleRequest gson b req).seen gson model registry o (httpReply req) =
        (onWebSocketText gson addr b req.payload).seen gson model registry o
          (wsReply req.payload mid) ∧
      OnlyChangeIface ((WellKnownServlet.handleRequest gson b req).seen gson model registry o
        (httpReply req)) msg ∧
      OnlyChangeIface ((onWebSocketText gson addr b req.payload).seen gson model registry o
        (wsReply req.payload mid)) msg) ↔ SameOnBoth registry b msg := by
  have hd := Message.decoded_of_fromString h
  rw [seen_http gson model registry o hgson h]
  cases dispatched addr h with
  | passed hcase hh hr =>
    have hws : (onWebSocketText gson addr b req.payload).seen gson model registry o
        (wsReply req.payload mid) = passed gson model registry msg o (wsReply req.payload mid) := by
      simp [Reaction.seen, passed, hh, hr]
    have heq : passed gson model registry msg o (httpReply req) =
        passed gson model registry msg o (wsReply req.payload mid) := by
      simp only [passed, content_replies gson model registry o hd.mid req req.payload mid]
    have honly := onlyChangeIface_passed gson model registry o hcase (wsReply req.payload mid)
    rw [hws, heq]
    refine iff_of_true ⟨rfl, honly, honly⟩ ?_
    rcases hcase with hread | hchange
    · exact .inl hread
    · exact .inr (.inl hchange)
  | informed m ms hasks hchange hh hr hmt hmv =>
    have hread : msg.type ≠ some .read := by simp [hasks.1]
    have hws : (onWebSocketText gson addr b req.payload).seen gson model registry o
        (wsReply req.payload mid) =
          { requests := [], replies := [some (some .response, some (.obj ms))] } := by
      simp [Reaction.seen, hh, hr, Reply.content, hmt, hmv]
    rw [hws]
    refine iff_of_false ?_ (by simp [SameOnBoth, hread, hchange, hasks])
    rintro ⟨heq, -⟩
    rcases passed_cases gson model registry o hd hread req with
      ⟨-, hno⟩ | ⟨-, hne | ⟨m', hm', hcase⟩⟩
    · rw [hno] at heq
      cases heq
    · exact hne (by rw [heq])
    · rw [heq] at hm'
      obtain ⟨ht, hv⟩ := Prod.mk.inj (Option.some.inj (List.cons.inj hm').1)
      rcases hcase with hcase | ⟨vs, hcase⟩
      · rw [hcase] at ht
        cases ht
      · rw [hcase] at hv
        cases hv
  | dropped hread hchange hasks hh hr =>
    have hws : (onWebSocketText gson addr b req.payload).seen gson model registry o
        (wsReply req.payload mid) = .nothing := by
      simp [Reaction.seen, hh, hr, Seen.nothing]
    have hsame : SameOnBoth registry b msg ↔ Ignored registry msg := by
      simp [SameOnBoth, hread, hchange, hasks]
    rw [hws, hsame]
    rcases passed_cases gson model registry o hd hread req with
      ⟨hign, hno⟩ | ⟨hign, hcase⟩
    · rw [hno]
      exact iff_of_true ⟨rfl, onlyChangeIface_nothing rfl, onlyChangeIface_nothing rfl⟩ hign
    · refine iff_of_false ?_ hign
      rintro ⟨heq, -⟩
      rw [heq] at hcase
      rcases hcase with hne | ⟨m, hm, -⟩
      · exact hne rfl
      · cases hm

end Seen

/-- A request with a payload and no parameters. -/
def payloadRequest (payload : String) : HttpRequest where
  forwardedHost := none
  host := some "localhost:8443"
  payload := payload
  params := []
  paramsText := "\x7b\x7d"

/-- A read has the same effect over both. -/
theorem read_same :
    Message.fromString (gsonFor readText readMembers) readText 0 = (.ok readMsg, 1) ∧
    (WellKnownServlet.handleRequest (gsonFor readText readMembers) startedBroker
        (payloadRequest readText)).seen (gsonFor readText readMembers) sampleModel ["c"]
        (.failure (some "timeout")) (httpReply (payloadRequest readText)) =
      (onWebSocketText (gsonFor readText readMembers) sampleAddress startedBroker readText).seen
        (gsonFor readText readMembers) sampleModel ["c"] (.failure (some "timeout"))
        (wsReply readText 1) :=
  ⟨rfl, ((seen_eq_iff _ (lawful_gsonFor readText readMembers) sampleModel ["c"] sampleAddress
    startedBroker (.failure (some "timeout")) (payloadRequest readText) 1 1 readMsg rfl).mpr
      (.inl rfl)).1⟩

/-- The text of an execute message with another name. -/
def rebootText : String :=
  "\x7b\"type\":\"execute\",\"client\":\"c\",\"value\":\x7b\"name\":\"reboot\",\"args\":[]\x7d\x7d"

def rebootMembers : Members :=
  [("type", .str "execute"), ("client", .str "c"),
   ("value", .obj [("name", .str "reboot"), ("args", .arr [])])]

def rebootMsg : Message where
  cls := .executeMessage
  type := some .execute
  mid := 0
  client := some "c"
  value := some (.obj [("name", .str "reboot"), ("args", .arr [])])

/-- Over HTTP it is an interface change for the client, over the WebSocket it is dropped. -/
theorem reboot_differs :
    Message.fromString (gsonFor rebootText rebootMembers) rebootText 0 = (.ok rebootMsg, 1) ∧
    (WellKnownServlet.handleRequest (gsonFor rebootText rebootMembers) startedBroker
        (payloadRequest rebootText)).seen (gsonFor rebootText rebootMembers) sampleModel ["c"]
        (.response none) (httpReply (payloadRequest rebootText)) ≠
      (onWebSocketText (gsonFor rebootText rebootMembers) sampleAddress startedBroker rebootText).seen
        (gsonFor rebootText rebootMembers) sampleModel ["c"] (.response none)
        (wsReply rebootText 1) ∧
    ¬ OnlyChangeIface ((WellKnownServlet.handleRequest (gsonFor rebootText rebootMembers)
      startedBroker (payloadRequest rebootText)).seen (gsonFor rebootText rebootMembers) sampleModel
      ["c"] (.response none) (httpReply (payloadRequest rebootText))) rebootMsg := by
  refine ⟨rfl, fun h => ?_, fun h => ?_⟩
  · exact absurd (congrArg (·.requests.length) h) (by decide)
  · obtain ⟨-, name, ⟨ms, v, hvalue, hname, htext⟩, hlower⟩ := h "c" "[]" (List.mem_singleton.mpr rfl)
    cases hvalue
    cases hname
    cases htext
    exact absurd hlower (by decide)

end Lhcb
end QosSupport
