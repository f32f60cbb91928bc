import QosSupport.Lhcb.Json

/-!
# Messages of the LHCB

* `Message`: a message with its Java class. `fromString` and `fromParams` decode it, with the next
  automatic id (`nextId`, a static variable) as their state.
* `Gson`: what the code takes from the Gson library and is not modelled: its text parser and printer,
  and how it writes a date.
* `decoded_of_fromString`, `decoded_of_fromParams`: a decoded message has a type, an id that is not
  negative, and the class of its type.
-/

namespace QosSupport
namespace Lhcb

/-- `Message.Type` -/
inductive MessageType where
  | read | write | execute | observe | notify | response | error
  deriving DecidableEq

/-- The constant of a name. -/
def MessageType.ofName : String → Option MessageType
  | "read" => some .read
  | "write" => some .write
  | "execute" => some .execute
  | "observe" => some .observe
  | "notify" => some .notify
  | "response" => some .response
  | "error" => some .error
  | _ => none

/-- The class of a message. -/
inductive MessageClass where
  | message | readMessage | executeMessage
  deriving DecidableEq

/-- What the code throws. -/
inductive Throwable where
  | invalidMessage (text : String)
  | jsonSyntax
  | nullPointer
  | illegalState
  | illegalArgument
  | indexOutOfBounds
  | unsupportedOperation
  /-- An exception of the LwM2M server, with its message, if it has one. -/
  | lwm2m (message : Option String)
  deriving DecidableEq

/-- `getAsString`: an array has a text if it has one element. -/
def Json.getAsString : Json → Except Throwable String
  | .str s | .num s => .ok s
  | .bool b => .ok (toString b)
  | .arr [v] => v.getAsString
  | .arr _ => .error .illegalState
  | .null | .obj _ => .error .unsupportedOperation

/-- The parts of Gson that are not modelled. -/
structure Gson where
  /-- `gson.fromJson(text, JsonObject.class)`, which may be `null`. -/
  fromJson : String → Except Throwable (Option Members)
  /-- `JsonElement.toString()` -/
  text : Json → String
  /-- The text of a date, given in milliseconds. -/
  date : Int → String

structure Message where
  cls : MessageClass
  type : Option MessageType
  mid : Int
  client : Option String
  value : Option Json

/-- `incNextId` -/
def incNextId (nextId : Int) : Int := (wrap32 (nextId + 1)).tmod (2 ^ 31 - 1)

namespace Message

/-- `validate` -/
def validate (msg : Message) : Except Throwable Message :=
  if msg.mid < 0 then .error (.invalidMessage "Message ID must not be negative") else .ok msg

/-- `new Message(mid, client, value, type)` -/
def make (mid : Int) (client : Option String) (value : Option Json) (type : MessageType) :
    Except Throwable Message :=
  validate { cls := .message, type := some type, mid, client, value }

/-- `response` -/
def response (msg : Message) (value : Option Json) : Except Throwable Message :=
  make msg.mid msg.client value .response

/-- `errorResponse(String)` -/
def errorResponseText (msg : Message) (value : String) : Except Throwable Message :=
  make msg.mid msg.client (some (.str value)) .error

/-- `errorResponse(Exception)` for an exception with the message `localized`: there is no primitive for
`null`. -/
def errorResponse (msg : Message) : Option String → Except Throwable Message
  | none => .error .nullPointer
  | some localized => msg.errorResponseText localized

/-- `value.getAsJsonObject()` -/
def members (msg : Message) : Except Throwable Members :=
  match msg.value with
  | none => .error .nullPointer
  | some (.obj ms) => .ok ms
  | some _ => .error .illegalState

/-- `getArgs` of an execute message; `none` is `null`. -/
def getArgs (msg : Message) : Except Throwable (Option (List Json)) := do
  match (← msg.members).lookup "args" with
  | none => return none
  | some (.arr args) => return some args
  | some _ => throw .illegalState

/-- `getName` of an execute message. -/
def getName (msg : Message) : Except Throwable String := do
  match (← msg.members).lookup "name" with
  | none => throw .nullPointer
  | some name => name.getAsString

/-! ## Decoding -/

/-- The field `type`: a name that is no constant is `null`. -/
def readType : Option Json → Except Throwable (Option MessageType)
  | none | some .null => .ok none
  | some (.str s) | some (.num s) => .ok (MessageType.ofName s)
  | some (.bool _) | some (.arr _) | some (.obj _) => .error .jsonSyntax

/-- The field `mid`: zero if it is absent or `null`. -/
def readMid : Option Json → Except Throwable Int
  | none | some .null => .ok 0
  | some (.num text) => match intValue text with
    | some n => .ok n
    | none => .error .jsonSyntax
  | some (.str s) => match javaInt s with
    | some n => .ok n
    | none => .error .jsonSyntax
  | some (.bool _) | some (.arr _) | some (.obj _) => .error .jsonSyntax

/-- The field `client`. -/
def readClient : Option Json → Except Throwable (Option String)
  | none | some .null => .ok none
  | some (.str s) | some (.num s) => .ok (some s)
  | some (.bool b) => .ok (some (toString b))
  | some (.arr _) | some (.obj _) => .error .jsonSyntax

/-- `gson.fromJson(json, Message.class)`, or one of its two subclasses. -/
def ofMembers (cls : MessageClass) (json : Members) : Except Throwable Message := do
  let type ← readType (json.lookup "type")
  let mid ← readMid (json.lookup "mid")
  let client ← readClient (json.lookup "client")
  return { cls, type, mid, client, value := json.lookup "value" }

/-- The class that a message is decoded to. -/
def classOf : MessageType → MessageClass
  | .execute => .executeMessage
  | .read => .readMessage
  | _ => .message

/-- The message of an object, before its id is checked; a message without a type leads to
`NullPointerException`. -/
def decode (json : Members) : Except Throwable Message := do
  let msg ← ofMembers .message json
  match msg.type with
  | none => .error .nullPointer
  | some .execute => ofMembers .executeMessage json
  | some .read => ofMembers .readMessage json
  | some _ => .ok msg

/-- The id `-1` is replaced by the next automatic one. -/
def assignId (msg : Message) (nextId : Int) : Except Throwable Message × Int :=
  if msg.mid = -1 then (validate { msg with mid := nextId }, incNextId nextId)
  else (validate msg, nextId)

/-- The two methods after their object is known. -/
def fromMembers (json : Members) (nextId : Int) : Except Throwable Message × Int :=
  match decode json with
  | .ok msg => assignId msg nextId
  | .error e => (.error e, nextId)

/-- An object without an id gets the id `-1`. -/
def withMid (genericJson : Members) : Members :=
  if genericJson.has "mid" then genericJson else genericJson.add "mid" (.num "-1")

/-- `fromString`: the message, and the next automatic id after it. -/
def fromString (gson : Gson) (json : String) (nextId : Int) : Except Throwable Message × Int :=
  match gson.fromJson json with
  | .error e => (.error e, nextId)
  | .ok none => (.error .nullPointer, nextId)
  | .ok (some genericJson) =>
    match fromMembers (withMid genericJson) nextId with
    | (.error .jsonSyntax, n) => (.error (.invalidMessage "Message not in JSON format"), n)
    | r => r

/-- The first value of each parameter. -/
def firstValues (params : List (String × List String)) : Except Throwable Members :=
  params.mapM fun
    | (name, value :: _) => .ok (name, .str value)
    | (_, []) => .error .indexOutOfBounds

/-- `fromParams` -/
def fromParams (params : List (String × List String)) (nextId : Int) :
    Except Throwable Message × Int :=
  match firstValues params with
  | .error e => (.error e, nextId)
  | .ok json => fromMembers json nextId

/-! ## Decoded messages -/

/-- What holds of every message that is decoded. -/
structure Decoded (msg : Message) : Prop where
  type : msg.type ≠ none
  mid : 0 ≤ msg.mid
  cls : ∀ t, msg.type = some t → msg.cls = classOf t

theorem validate_eq_ok {msg msg' : Message} : validate msg = .ok msg' ↔ msg' = msg ∧ 0 ≤ msg.mid := by
  unfold validate
  split
  · simp only [reduceCtorEq, false_iff]
    omega
  · simp only [Except.ok.injEq]
    constructor
    · rintro rfl
      exact ⟨rfl, by omega⟩
    · exact fun h => h.1.symm

/-! ## What the fields say -/

/-- The fields of an object are well formed. -/
structure Reads (json : Members) (type : Option MessageType) (mid : Int) (client : Option String) :
    Prop where
  type : readType (json.lookup "type") = .ok type
  mid : readMid (json.lookup "mid") = .ok mid
  client : readClient (json.lookup "client") = .ok client

/-- One of them is not. -/
def Malformed (json : Members) : Prop :=
  readType (json.lookup "type") = .error .jsonSyntax ∨
  readMid (json.lookup "mid") = .error .jsonSyntax ∨
  readClient (json.lookup "client") = .error .jsonSyntax

theorem readType_error {v : Option Json} {e : Throwable} (h : readType v = .error e) :
    e = .jsonSyntax := by
  unfold readType at h
  split at h <;> simp_all

theorem readMid_error {v : Option Json} {e : Throwable} (h : readMid v = .error e) :
    e = .jsonSyntax := by
  unfold readMid at h
  repeat' split at h
  all_goals simp_all

theorem readClient_error {v : Option Json} {e : Throwable} (h : readClient v = .error e) :
    e = .jsonSyntax := by
  unfold readClient at h
  split at h <;> simp_all

theorem reads_or_malformed (json : Members) :
    (∃ type mid client, Reads json type mid client) ∨ Malformed json := by
  cases ht : readType (json.lookup "type") with
  | error e => exact .inr (.inl (readType_error ht ▸ ht))
  | ok type =>
    cases hm : readMid (json.lookup "mid") with
    | error e => exact .inr (.inr (.inl (readMid_error hm ▸ hm)))
    | ok mid =>
      cases hc : readClient (json.lookup "client") with
      | error e => exact .inr (.inr (.inr (readClient_error hc ▸ hc)))
      | ok client => exact .inl ⟨type, mid, client, ht, hm, hc⟩

theorem Reads.not_malformed {json : Members} {type : Option MessageType} {mid : Int}
    {client : Option String} (h : Reads json type mid client) : ¬ Malformed json := by
  rintro (ht | hm | hc)
  · simp [h.type] at ht
  · simp [h.mid] at hm
  · simp [h.client] at hc

/-- Only the id is added. -/
theorem lookup_withMid (ms : Members) {n : String} (hn : n ≠ "mid") :
    (withMid ms).lookup n = ms.lookup n := by
  unfold withMid
  split
  · rfl
  · rw [Members.lookup_add, if_neg hn]

theorem lookup_mid (ms : Members) :
    (withMid ms).lookup "mid" = some ((ms.lookup "mid").getD (.num "-1")) := by
  unfold withMid Members.has
  cases h : ms.lookup "mid" with
  | some v => simpa using h
  | none => simp [Members.lookup_add]

/-- An object without an id is not malformed for it. -/
theorem malformed_withMid (ms : Members) : Malformed (withMid ms) ↔ Malformed ms := by
  have hmid : readMid ((withMid ms).lookup "mid") = .error .jsonSyntax ↔
      readMid (ms.lookup "mid") = .error .jsonSyntax := by
    rw [lookup_mid]
    cases ms.lookup "mid" with
    | some v => rfl
    | none => exact iff_of_false nofun nofun
  rw [Malformed, Malformed, hmid, lookup_withMid ms (by decide), lookup_withMid ms (by decide)]

/-- Both say the same of the fields. -/
theorem Reads.unique {json : Members} {type type' : Option MessageType} {mid mid' : Int}
    {client client' : Option String} (h : Reads json type mid client)
    (h' : Reads json type' mid' client') : type = type' ∧ mid = mid' ∧ client = client' :=
  ⟨Except.ok.inj (h.type.symm.trans h'.type), Except.ok.inj (h.mid.symm.trans h'.mid),
    Except.ok.inj (h.client.symm.trans h'.client)⟩

/-- The message of well-formed fields, before its id is checked. -/
def ofFields (json : Members) (t : MessageType) (mid : Int) (client : Option String) : Message where
  cls := classOf t
  type := some t
  mid := mid
  client := client
  value := json.lookup "value"

section Fields

variable {json : Members} {t : MessageType} {mid : Int} {client : Option String}

theorem ofMembers_reads {type : Option MessageType} (h : Reads json type mid client)
    (cls : MessageClass) :
    ofMembers cls json = .ok { cls, type, mid, client, value := json.lookup "value" } := by
  simp [ofMembers, h.type, h.mid, h.client, bind, Except.bind, pure, Except.pure]

theorem decode_reads (h : Reads json (some t) mid client) :
    decode json = .ok (ofFields json t mid client) := by
  rw [decode, ofMembers_reads h, ofMembers_reads h, ofMembers_reads h]
  cases t <;> rfl

theorem decode_untyped (h : Reads json none mid client) : decode json = .error .nullPointer := by
  rw [decode, ofMembers_reads h]
  rfl

theorem decode_malformed (h : Malformed json) : decode json = .error .jsonSyntax := by
  have hof : ofMembers .message json = .error .jsonSyntax := by
    simp only [ofMembers, bind, Except.bind]
    cases ht : readType (json.lookup "type") with
    | error e => rw [readType_error ht]
    | ok type =>
      cases hm : readMid (json.lookup "mid") with
      | error e => rw [readMid_error hm]
      | ok mid =>
        cases hc : readClient (json.lookup "client") with
        | error e => rw [readClient_error hc]
        | ok client => exact absurd h (Reads.not_malformed ⟨ht, hm, hc⟩)
  simp only [decode, hof, bind, Except.bind]

theorem decode_type {msg : Message} (h : decode json = .ok msg) :
    ∃ t, msg.type = some t ∧ msg.cls = classOf t := by
  rcases reads_or_malformed json with ⟨type, mid, client, hr⟩ | hm
  · cases type with
    | none =>
      rw [decode_untyped hr] at h
      cases h
    | some t =>
      rw [decode_reads hr] at h
      cases h
      exact ⟨t, rfl, rfl⟩
  · rw [decode_malformed hm] at h
    cases h

end Fields

theorem decoded_of_fromMembers {json : Members} {nextId n : Int} {msg : Message}
    (h : fromMembers json nextId = (.ok msg, n)) : Decoded msg := by
  unfold fromMembers at h
  split at h
  · rename_i m hm
    obtain ⟨t, ht, hcls⟩ := decode_type hm
    unfold assignId at h
    split at h
    · obtain ⟨rfl, hmid⟩ := validate_eq_ok.mp (Prod.mk.inj h).1
      exact ⟨by simp [ht], hmid, fun t' h' => by simp_all⟩
    · obtain ⟨rfl, hmid⟩ := validate_eq_ok.mp (Prod.mk.inj h).1
      exact ⟨by simp [ht], hmid, fun t' h' => by simp_all⟩
  · cases h

/-- What is decoded from a text is decoded from its object. -/
theorem fromString_ok_iff {gson : Gson} {text : String} {nextId : Int} {msg : Message} :
    (fromString gson text nextId).1 = .ok msg ↔
      ∃ ms, gson.fromJson text = .ok (some ms) ∧ (fromMembers (withMid ms) nextId).1 = .ok msg := by
  unfold fromString
  rcases gson.fromJson text with e | _ | ms
  · simp
  · simp
  · simp only [Except.ok.injEq, Option.some.injEq, exists_eq_left']
    split
    · rename_i h
      simp [h]
    · rfl

/-- **Every message that `fromString` returns.** -/
theorem decoded_of_fromString {gson : Gson} {json : String} {nextId n : Int} {msg : Message}
    (h : fromString gson json nextId = (.ok msg, n)) : Decoded msg := by
  obtain ⟨ms, -, hms⟩ := fromString_ok_iff.mp (congrArg Prod.fst h)
  exact decoded_of_fromMembers (Prod.ext hms rfl)

/-- **Every message that `fromParams` returns.** -/
theorem decoded_of_fromParams {params : List (String × List String)} {nextId n : Int}
    {msg : Message} (h : fromParams params nextId = (.ok msg, n)) : Decoded msg := by
  unfold fromParams at h
  split at h
  · cases h
  · exact decoded_of_fromMembers h

/-! ## The next automatic id -/

/-- What the static variable may hold. -/
def ValidId (n : Int) : Prop := 0 ≤ n ∧ n < 2 ^ 31 - 1

theorem assignId_auto {msg : Message} {nextId : Int} (h : ValidId nextId) (hm : msg.mid = -1) :
    assignId msg nextId = (.ok { msg with mid := nextId }, incNextId nextId) := by
  rw [assignId, if_pos hm, validate_eq_ok.mpr ⟨rfl, h.1⟩]

theorem assignId_own {msg : Message} {nextId : Int} (hm : 0 ≤ msg.mid) :
    assignId msg nextId = (.ok msg, nextId) := by
  rw [assignId, if_neg (by omega), validate_eq_ok.mpr ⟨rfl, hm⟩]

theorem assignId_negative {msg : Message} {nextId : Int} (hm : msg.mid < -1) :
    assignId msg nextId =
      (.error (.invalidMessage "Message ID must not be negative"), nextId) := by
  rw [assignId, if_neg (by omega), validate, if_pos (by omega)]

/-- The next id follows, or is zero again. -/
theorem incNextId_eq {n : Int} (h : ValidId n) :
    incNextId n = if n + 1 = 2 ^ 31 - 1 then 0 else n + 1 := by
  obtain ⟨h0, hlt⟩ := h
  have hwrap : wrap32 (n + 1) = n + 1 := by
    unfold wrap32
    exact Int.bmod_eq_of_le (by omega) (by omega)
  rw [incNextId, hwrap]
  split
  · rename_i heq
    rw [heq]
    rfl
  · exact Int.tmod_eq_of_lt (by omega) (by omega)

theorem validId_incNextId {n : Int} (h : ValidId n) : ValidId (incNextId n) := by
  have hn := h
  obtain ⟨h0, hlt⟩ := hn
  rw [incNextId_eq h]
  split
  · exact ⟨Int.le_refl 0, by omega⟩
  · exact ⟨by omega, by omega⟩

theorem fromMembers_decode {json : Members} {msg : Message} (h : decode json = .ok msg)
    (nextId : Int) : fromMembers json nextId = assignId msg nextId := by
  rw [fromMembers, h]

/-- The id of a decoded object is its own one or the next automatic one. -/
theorem fromMembers_reads {json : Members} {t : MessageType} {mid nextId : Int}
    {client : Option String} (hn : ValidId nextId) (h : Reads json (some t) mid client) :
    fromMembers json nextId =
      if mid = -1 then (.ok (ofFields json t nextId client), incNextId nextId)
      else if 0 ≤ mid then (.ok (ofFields json t mid client), nextId)
      else (.error (.invalidMessage "Message ID must not be negative"), nextId) := by
  rw [fromMembers_decode (decode_reads h)]
  by_cases hauto : mid = -1
  · rw [if_pos hauto]
    exact assignId_auto hn hauto
  rw [if_neg hauto]
  by_cases hown : 0 ≤ mid
  · rw [if_pos hown]
    exact assignId_own hown
  · rw [if_neg hown]
    have hneg : mid < -1 := by omega
    exact assignId_negative hneg

/-- **Every message that is decoded from an object**, and only these. -/
theorem fromMembers_ok_iff {json : Members} {nextId : Int} {msg : Message} (hn : ValidId nextId) :
    (fromMembers json nextId).1 = .ok msg ↔ ∃ t mid client, Reads json (some t) mid client ∧ -1 ≤ mid ∧
      msg = ofFields json t (if mid = -1 then nextId else mid) client := by
  rcases reads_or_malformed json with ⟨type, mid, client, hr⟩ | hm
  · cases type with
    | none =>
      rw [fromMembers, decode_untyped hr]
      refine iff_of_false nofun ?_
      rintro ⟨t, mid', client', hr', -⟩
      cases (hr.unique hr').1
    | some t =>
      have honly : (∃ t mid client, Reads json (some t) mid client ∧ -1 ≤ mid ∧
          msg = ofFields json t (if mid = -1 then nextId else mid) client) ↔
          -1 ≤ mid ∧ msg = ofFields json t (if mid = -1 then nextId else mid) client := by
        constructor
        · rintro ⟨t', mid', client', hr', hmid, rfl⟩
          obtain ⟨ht, rfl, rfl⟩ := hr.unique hr'
          cases ht
          exact ⟨hmid, rfl⟩
        · rintro ⟨hmid, rfl⟩
          exact ⟨t, mid, client, hr, hmid, rfl⟩
      rw [honly, fromMembers_reads hn hr]
      by_cases hauto : mid = -1
      · simp [hauto, eq_comm]
      by_cases hown : 0 ≤ mid
      · have hle : -1 ≤ mid := by omega
        simp [hauto, hown, hle, eq_comm]
      · have hno : ¬ -1 ≤ mid := by omega
        simp [hauto, hown, hno]
  · rw [fromMembers, decode_malformed hm]
    refine iff_of_false nofun ?_
    rintro ⟨t, mid, client, hr, -⟩
    exact hr.not_malformed hm

theorem fromMembers_nextId (json : Members) (nextId : Int) :
    (fromMembers json nextId).2 = nextId ∨ (fromMembers json nextId).2 = incNextId nextId := by
  unfold fromMembers
  split
  · unfold assignId
    split
    · exact .inr rfl
    · exact .inl rfl
  · exact .inl rfl

theorem fromString_nextId (gson : Gson) (json : String) (nextId : Int) :
    (fromString gson json nextId).2 = nextId ∨
      (fromString gson json nextId).2 = incNextId nextId := by
  unfold fromString
  split
  · exact .inl rfl
  · exact .inl rfl
  · rename_i genericJson _
    have hn := fromMembers_nextId (withMid genericJson) nextId
    split
    · rename_i h
      rw [h] at hn
      exact hn
    · exact hn

/-- A message for which the counter moved on has the next automatic id. -/
theorem fromMembers_auto {ms : Members} {nextId n : Int} {msg : Message}
    (h : fromMembers ms nextId = (.ok msg, n)) (hn : n ≠ nextId) :
    msg.mid = nextId ∧ n = incNextId nextId := by
  unfold fromMembers at h
  split at h
  · unfold assignId at h
    split at h
    · obtain ⟨rfl, -⟩ := validate_eq_ok.mp (Prod.mk.inj h).1
      exact ⟨rfl, (Prod.mk.inj h).2.symm⟩
    · exact absurd (Prod.mk.inj h).2.symm hn
  · exact absurd (Prod.mk.inj h).2.symm hn

theorem fromString_auto {gson : Gson} {json : String} {nextId n : Int} {msg : Message}
    (h : fromString gson json nextId = (.ok msg, n)) (hn : n ≠ nextId) :
    msg.mid = nextId ∧ n = incNextId nextId := by
  unfold fromString at h
  split at h
  · cases h
  · cases h
  · split at h
    · cases h
    · exact fromMembers_auto h hn

theorem fromParams_nextId (params : List (String × List String)) (nextId : Int) :
    (fromParams params nextId).2 = nextId ∨ (fromParams params nextId).2 = incNextId nextId := by
  unfold fromParams
  split
  · exact .inl rfl
  · exact fromMembers_nextId _ nextId

section Text

variable {gson : Gson} {text : String} {ms : Members} {mid nextId : Int} {client : Option String}
variable (hg : gson.fromJson text = .ok (some ms))

include hg

/-- A text is decoded to what its object is decoded to. -/
theorem fromString_decode {msg : Message} (h : decode (withMid ms) = .ok msg) (nextId : Int) :
    fromString gson text nextId = assignId msg nextId := by
  simp only [fromString, hg, fromMembers_decode h]
  unfold assignId validate
  by_cases hauto : msg.mid = -1
  · by_cases hn : nextId < 0 <;> simp only [if_pos hauto, hn, if_true, if_false]
  · by_cases hm : msg.mid < 0 <;> simp only [if_neg hauto, hm, if_true, if_false]

theorem fromString_reads {t : MessageType} (hn : ValidId nextId)
    (h : Reads (withMid ms) (some t) mid client) : fromString gson text nextId =
      if mid = -1 then (.ok (ofFields (withMid ms) t nextId client), incNextId nextId)
      else if 0 ≤ mid then (.ok (ofFields (withMid ms) t mid client), nextId)
      else (.error (.invalidMessage "Message ID must not be negative"), nextId) := by
  rw [fromString_decode hg (decode_reads h) nextId, ← fromMembers_reads hn h,
    fromMembers_decode (decode_reads h)]

theorem fromString_untyped (h : Reads (withMid ms) none mid client) (nextId : Int) :
    fromString gson text nextId = (.error .nullPointer, nextId) := by
  simp only [fromString, hg, fromMembers, decode_untyped h]

theorem fromString_malformed (h : Malformed (withMid ms)) (nextId : Int) : fromString gson text nextId =
    (.error (.invalidMessage "Message not in JSON format"), nextId) := by
  simp only [fromString, hg, fromMembers, decode_malformed h]

end Text

end Message

end Lhcb
end QosSupport
