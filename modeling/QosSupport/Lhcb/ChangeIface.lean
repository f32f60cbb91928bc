import QosSupport.Lhcb.FrontEnds

/-!
# Changing the interface of a client

A client changes its WiFi network (`Utils.changeIface`) for an execute message on its own WebSocket, or
for an LwM2M request that the broker makes of such a message (`ExtendedDevice.execute`).

* `ClientAction`: what the WebSocket of the client does with a text.
* `localCalls`, `remoteCalls`: the calls of `changeIface` on the two ways.
* `sameCalls_iff`: the two ways make the same call, or none, except for a password that cannot be read as
  a string. The client connects without a password then, but only for its own WebSocket.
-/

namespace QosSupport
namespace Lhcb

/-- A call of `Utils.changeIface`. -/
structure IfaceCall where
  ssid : String
  pw : Option String
  deriving DecidableEq

/-! ## The WebSocket of the client -/

/-- What the client does with a text on its WebSocket. -/
inductive ClientAction where
  | ignore
  | throws (e : Throwable)
  /-- The connectivity monitor is read. -/
  | read (msg : Message)
  /-- The broker is asked where it listens. -/
  | getBrokerInfo (msg : Message)
  /-- The interface is changed, and what this prints is answered. -/
  | changeIface (call : IfaceCall) (reply : Option String → Except Throwable Message)

namespace ClientWebSocketListener

/-- The arguments of `changeIface`. An exception from the second one is printed only. -/
def ifaceArgs : List Json → Except Throwable IfaceCall
  | [] => throw .indexOutOfBounds
  | ssid :: rest => do
    let ssid ← ssid.getAsString
    return { ssid, pw := rest.head?.bind fun pw => pw.getAsString.toOption }

/-- `m.response(new JsonPrimitive(result))`: there is no primitive for `null`. -/
def ifaceReply (msg : Message) : Option String → Except Throwable Message
  | none => throw .nullPointer
  | some result => msg.response (some (.str result))

/-- An execute message is dispatched by its name. -/
def onExecuteMessage (msg : Message) : Except Throwable ClientAction := do
  let name ← msg.getName
  if toLowerCase name = "changeiface" then
    match (← msg.members).lookup "args" with
    | none => throw .nullPointer
    | some (.arr args) => return .changeIface (← ifaceArgs args) (ifaceReply msg)
    | some _ => throw .illegalState
  else if toLowerCase name = "getbrokerinfo" then return .getBrokerInfo msg
  else return .ignore

/-- `onWebSocketText`, on an open socket. -/
def onWebSocketText (gson : Gson) (nextId : Int) (message : String) : ClientAction :=
  match (Message.fromString gson message nextId).1 with
  | .error (.invalidMessage _) => .ignore
  | .error e => .throws e
  | .ok msg => match msg.cls with
    | .readMessage => .read msg
    | .executeMessage => match onExecuteMessage msg with
      | .ok action => action
      | .error e => .throws e
    | .message => .ignore

end ClientWebSocketListener

/-- The calls on the way over the client's own WebSocket. -/
def localCalls (gson : Gson) (nextId : Int) (message : String) : List IfaceCall :=
  match ClientWebSocketListener.onWebSocketText gson nextId message with
  | .changeIface call _ => [call]
  | _ => []

/-! ## The LwM2M object of the client -/

/-- What a device answers to an execute request. -/
inductive ExecuteResponse where
  | success
  /-- The answer of `BaseInstanceEnabler`. -/
  | unsupported

namespace ExtendedDevice

/-- The arguments of `changeIface`; the array may be `null`. -/
def ifaceArgs : Option (List Json) → Except Throwable IfaceCall
  | none => throw .nullPointer
  | some [] => throw .indexOutOfBounds
  | some [ssid] => return { ssid := ← ssid.getAsString, pw := none }
  | some (ssid :: pw :: _) => return { ssid := ← ssid.getAsString, pw := some (← pw.getAsString) }

/-- `execute`: the call it makes, if any, and its answer. `parseArray` is Gson's parser for arrays. -/
def execute (parseArray : String → Except Throwable (Option (List Json))) (resourceid : Nat)
    (params : String) : Except Throwable (Option IfaceCall × ExecuteResponse) := do
  let array ← parseArray params
  if resourceid = 0 then return (some (← ifaceArgs array), .success)
  else return (none, .unsupported)

end ExtendedDevice

/-- The calls that a request to the client leads to: `3000` is its `ExtendedDevice`. -/
def Lwm2mRequest.ifaceCalls (parseArray : String → Except Throwable (Option (List Json))) :
    Lwm2mRequest → List IfaceCall
  | .execute 3000 0 resourceid params =>
    match ExtendedDevice.execute parseArray resourceid params with
    | .ok (some call, _) => [call]
    | _ => []
  | _ => []

/-- The calls on the way over the broker: what the WebSocket of the broker passes on is handled, and the
requests for it are delivered. -/
def remoteCalls (gson : Gson) (parseArray : String → Except Throwable (Option (List Json)))
    (model : ObjectModel) (registry : List String) (addr : Address) (b : Broker) (message : String) :
    List IfaceCall :=
  (onWebSocketText gson addr b message).handled.flatMap fun msg =>
    (handleRequest gson model registry msg).sent.flatMap fun s => s.request.ifaceCalls parseArray

/-! ## Both ways -/

/-- The text is an execute message for the client, with the name `changeIface` up to case and these
arguments. -/
def ChangeIfaceText (gson : Gson) (message client : String) (args : List Json) : Prop :=
  ∃ ms mid vs, gson.fromJson message = .ok (some ms) ∧
    Message.Reads (Message.withMid ms) (some .execute) mid (some client) ∧ -1 ≤ mid ∧
    ms.lookup "value" = some (.obj vs) ∧ Calls (some (.obj vs)) "changeiface" ∧
    vs.lookup "args" = some (.arr args)

/-- The name of the network can be read as a string, and the password that follows cannot. -/
def PwUnreadable : List Json → Prop
  | ssid :: pw :: _ => (∃ s, ssid.getAsString = .ok s) ∧ ∀ s, pw.getAsString ≠ .ok s
  | _ => False

/-- The call of the client's WebSocket, if there is one. -/
def listenerCall (args : List Json) : List IfaceCall :=
  ((ClientWebSocketListener.ifaceArgs args).toOption).toList

/-- The call of the client's device, if there is one. -/
def deviceCall (args : List Json) : List IfaceCall :=
  ((ExtendedDevice.ifaceArgs (some args)).toOption).toList

/-- **The two readings of the arguments** differ in an unreadable password only. -/
theorem listenerCall_eq_iff (args : List Json) :
    listenerCall args = deviceCall args ↔ ¬ PwUnreadable args := by
  unfold listenerCall deviceCall
  rcases args with _ | ⟨ssid, _ | ⟨pw, rest⟩⟩
  · exact iff_of_true rfl id
  · refine iff_of_true ?_ id
    cases ssid.getAsString <;> rfl
  · cases hs : ssid.getAsString with
    | error e => simp [ClientWebSocketListener.ifaceArgs, ExtendedDevice.ifaceArgs, PwUnreadable, hs,
        bind, Except.bind, Except.toOption]
    | ok s => cases hp : pw.getAsString <;>
        simp [ClientWebSocketListener.ifaceArgs, ExtendedDevice.ifaceArgs, PwUnreadable, hs, hp, bind,
          Except.bind, pure, Except.pure, Except.toOption]

section Text

variable {gson : Gson} {message client : String} {args : List Json}

/-- What both sides decode the text to, each with its own next id. -/
theorem decoded_changeIface (h : ChangeIfaceText gson message client args) {nextId : Int}
    (hn : Message.ValidId nextId) : ∃ msg name, (Message.fromString gson message nextId).1 = .ok msg ∧
      msg.Decoded ∧ msg.type = some .execute ∧ msg.cls = .executeMessage ∧ msg.client = some client ∧
      msg.getName = .ok name ∧ toLowerCase name = "changeiface" ∧
      ∃ vs, msg.value = some (.obj vs) ∧ vs.lookup "args" = some (.arr args) := by
  obtain ⟨ms, mid, vs, hg, hr, hmid, hv, ⟨name, hname, hlower⟩, hargs⟩ := h
  have hvalue : (Message.withMid ms).lookup "value" = some (.obj vs) := by
    rw [Message.lookup_withMid ms (by decide), hv]
  have hok := Message.fromString_ok_iff.mpr
    ⟨ms, hg, (Message.fromMembers_ok_iff hn).mpr ⟨.execute, mid, some client, hr, hmid, rfl⟩⟩
  refine ⟨_, name, hok, Message.decoded_of_fromString (Prod.ext hok rfl), rfl, rfl, rfl, ?_, hlower, vs,
    hvalue, hargs⟩
  rw [getName_ok, Message.ofFields, hvalue]
  exact hname

theorem localCalls_eq (h : ChangeIfaceText gson message client args) {nextId : Int}
    (hn : Message.ValidId nextId) : localCalls gson nextId message = listenerCall args := by
  obtain ⟨msg, name, hok, -, -, hcls, -, hname, hlower, vs, hvalue, hargs⟩ := decoded_changeIface h hn
  have hdispatch : ClientWebSocketListener.onExecuteMessage msg =
      (ClientWebSocketListener.ifaceArgs args).map
        (.changeIface · (ClientWebSocketListener.ifaceReply msg)) := by
    simp only [ClientWebSocketListener.onExecuteMessage, hname, bind, Except.bind, hlower, if_true,
      Message.members, hvalue, hargs]
    cases ClientWebSocketListener.ifaceArgs args <;> rfl
  simp only [localCalls, ClientWebSocketListener.onWebSocketText, hok, hcls, hdispatch, listenerCall]
  cases ClientWebSocketListener.ifaceArgs args <;> rfl

theorem remoteCalls_eq {parseArray : String → Except Throwable (Option (List Json))}
    {model : ObjectModel} {registry : List String} (addr : Address) (b : Broker)
    (h : ChangeIfaceText gson message client args) (hreg : client ∈ registry)
    (hparse : parseArray (gson.text (.arr args)) = .ok (some args)) :
    remoteCalls gson parseArray model registry addr b message = deviceCall args := by
  obtain ⟨msg, name, hok, hd, ht, hcls, hc, hname, hlower, vs, hvalue, hargs⟩ :=
    decoded_changeIface h b.valid
  have hpassed : (onWebSocketText gson addr b message).handled = [msg] := by
    have hne : ¬ toLowerCase name = "getbrokerinfo" := by
      rw [hlower]
      decide
    simp only [onWebSocketText, hok, hcls, onExecuteMessage, hname, if_neg hne, if_pos hlower]
  have hsent := handleRequest_executed gson model registry hd hc hreg ht
    (getArgs_ok.mpr ⟨vs, hvalue, hargs⟩)
  simp only [remoteCalls, hpassed, hsent, List.flatMap_cons, List.flatMap_nil, List.append_nil,
    Lwm2mRequest.ifaceCalls, ExtendedDevice.execute, hparse, deviceCall, bind, Except.bind, if_true]
  cases ExtendedDevice.ifaceArgs (some args) <;> rfl

end Text

/-- **The two ways to change the interface** make the same call, or none, exactly if the password can be
read as a string, where it matters. Gson's parser is assumed to read the array back that was printed. -/
theorem sameCalls_iff (gson : Gson) (parseArray : String → Except Throwable (Option (List Json)))
    (model : ObjectModel) (registry : List String) (addr : Address) (b : Broker) (nextId : Int)
    (message client : String) (args : List Json) (hn : Message.ValidId nextId)
    (hmsg : ChangeIfaceText gson message client args) (hreg : client ∈ registry)
    (hparse : parseArray (gson.text (.arr args)) = .ok (some args)) :
    localCalls gson nextId message =
      remoteCalls gson parseArray model registry addr b message ↔ ¬ PwUnreadable args := by
  rw [localCalls_eq hmsg hn, remoteCalls_eq addr b hmsg hreg hparse]
  exact listenerCall_eq_iff args

/-- A request to connect to `w`, with the arguments as Gson prints them. -/
def wifiText (args : String) : String :=
  "\x7b\"type\":\"execute\",\"client\":\"c\",\"value\":\x7b\"name\":\"changeIface\",\"args\":" ++
    args ++ "\x7d\x7d"

def wifiMembers (args : List Json) : Members :=
  [("type", .str "execute"), ("client", .str "c"),
   ("value", .obj [("name", .str "changeIface"), ("args", .arr args)])]

/-- Gson, as far as it is used for this request. -/
def wifiGson (text : String) (args : List Json) : Gson where
  fromJson t :=
    if t = wifiText text then .ok (some (wifiMembers args))
    else if t = "" then .ok none else .error .jsonSyntax
  text _ := text
  date _ := "Jan 1, 1970 12:00:00 AM"

theorem changeIface_wifiText (text : String) (args : List Json) :
    ChangeIfaceText (wifiGson text args) (wifiText text) "c" args := by
  exact ⟨wifiMembers args, -1, _, if_pos rfl, ⟨rfl, rfl, rfl⟩, Int.le_refl _, rfl,
    ⟨"changeIface", ⟨_, _, rfl, rfl, rfl⟩, by decide⟩, rfl⟩

/-- With a password, both ways connect to `w` with it. -/
theorem sameCalls_password :
    localCalls (wifiGson "[\"w\",\"p\"]" [.str "w", .str "p"]) 0 (wifiText "[\"w\",\"p\"]") =
      remoteCalls (wifiGson "[\"w\",\"p\"]" [.str "w", .str "p"])
        (fun t => if t = "[\"w\",\"p\"]" then .ok (some [.str "w", .str "p"]) else .error .jsonSyntax)
        sampleModel ["c"] sampleAddress startedBroker (wifiText "[\"w\",\"p\"]") :=
  (sameCalls_iff _ _ sampleModel ["c"] sampleAddress startedBroker 0 _ "c" [.str "w", .str "p"]
    ⟨Int.le_refl 0, by decide⟩ (changeIface_wifiText _ _) (List.mem_singleton.mpr rfl) rfl).mpr
      fun h => h.2 "p" rfl

/-- With `null` as the password, the client connects to `w` for its own WebSocket only. -/
theorem null_password_differs :
    ChangeIfaceText (wifiGson "[\"w\",null]" [.str "w", .null]) (wifiText "[\"w\",null]") "c"
      [.str "w", .null] ∧
    localCalls (wifiGson "[\"w\",null]" [.str "w", .null]) 0 (wifiText "[\"w\",null]") =
      [{ ssid := "w", pw := none }] ∧
    remoteCalls (wifiGson "[\"w\",null]" [.str "w", .null])
      (fun t => if t = "[\"w\",null]" then .ok (some [.str "w", .null]) else .error .jsonSyntax)
      sampleModel ["c"] sampleAddress startedBroker (wifiText "[\"w\",null]") = [] := by
  have hmsg := changeIface_wifiText "[\"w\",null]" [.str "w", .null]
  refine ⟨hmsg, ?_, ?_⟩
  · rw [localCalls_eq hmsg ⟨Int.le_refl 0, by decide⟩]
    rfl
  · rw [remoteCalls_eq sampleAddress startedBroker hmsg (List.mem_singleton.mpr rfl) rfl]
    rfl

end Lhcb
end QosSupport
