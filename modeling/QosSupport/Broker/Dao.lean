import QosSupport.Lib.EventLoop
import QosSupport.Redis.Db
import QosSupport.Js.Number

/-!
# The broker's data access object (`broker/BrokerServer/app/dao.js`)

Each method of `redisDAO` is a callback program (`Lib/EventLoop.lean`) over the commands of one Redis
connection (`Redis/Db.lean`). A promise is the program that continues with its value: `k` is what
its consumers do when it is settled.

* `selectAsync n`: `client.selectAsync(n).then(..)`; `select(n, function(){})` is a `send`.
* Arguments are the strings that the routes pass on; `text` is JavaScript's rendering of an absent
  one, in a concatenation and as a command argument alike.
* `MD5` (of `crypto-js`) is a parameter. What is read from the world (the date, `Math.random()`, the
  generated password) is part of the operation.
* `dao md5`: the client, with the operations that the routes and the traffic handler start (`Op`).
-/

namespace QosSupport
namespace Broker

open Redis EventLoop Js

/-- `REALM` -/
def realm : String := "orange.com"

/-- `TTLUSER`: one week, in seconds. -/
def ttlUser : Nat := 604800

/-- `asGB` -/
def asGB : Number := .fin (1024 * 1024 * 1024)

/-- An absent value as text. -/
def text (v : Option String) : String := v.getD "undefined"

/-- `Number(v)` of a field that may be absent. -/
def numberOf : Option String → Number
  | none => .nan
  | some s => toNumber s

/-- `s.replace(pat, "")` -/
def removeFirst (pat : List Char) : List Char → List Char
  | [] => []
  | c :: cs => if pat <+: c :: cs then (c :: cs).drop pat.length else c :: removeFirst pat cs

/-- The fields of the provisioning form. -/
structure FormDatas where
  servicename : Option String
  audio : Option String
  video : Option String
  qdata : Option String

/-- A traffic report, as `parseTurnTraffic` returns it. -/
structure TrafficRecord where
  user : String
  sent_bytes : String
  deriving DecidableEq

/-- An item of the list of TURN servers. -/
structure TurnServer where
  turnUrl : String
  turnStatus : Option String
  deriving DecidableEq

/-- An item of the list of CSPs. -/
structure CspInfo where
  csp : String
  fields : Hash
  deriving DecidableEq

/-- Why a promise is rejected. -/
inductive Reason where
  | redis (e : Error)
  | text (s : String)
  deriving DecidableEq

/-- What a promise resolves to. -/
inductive JsVal where
  /-- `1` -/
  | one
  /-- A reply of Redis. -/
  | reply (r : Reply)
  /-- The fields of a hash, or `null`. -/
  | object (h : Option Hash)
  /-- The address of a TURN server, if any, and the client's id. -/
  | turn (turnUrl : Option String) (clientId : String)
  | turnServers (l : List TurnServer)
  | infos (l : List CspInfo)
  | credentials (clientId password : String)
  deriving DecidableEq

inductive Outcome where
  | resolved (v : JsVal)
  | rejected (r : Reason)
  deriving DecidableEq

/-- The variables that an operation's callbacks share, and how its promise was settled. -/
structure Locals where
  turnList : List TurnServer
  infos : List CspInfo
  outcome : Option Outcome
  deriving DecidableEq

/-- The variables at the start. -/
def Locals.init : Locals := { turnList := [], infos := [], outcome := none }

abbrev P := Prog Cmd Reply Locals

/-- `resolve` or `reject`: the first one settles the promise. -/
def settle (o : Outcome) : P := .upd (fun l => { l with outcome := l.outcome.or (some o) }) fun _ => .done

def resolve (v : JsVal) : P := settle (.resolved v)

def reject (r : Reason) : P := settle (.rejected r)

/-- The continuation `k` of a promise for a reply. -/
def thenOk (k : P) : Reply → P
  | .err _ => .done
  | _ => k

/-- `client.selectAsync(n).then(k)` -/
def selectAsync (n : Nat) (k : P) : P := .call (.select n) (thenOk k) .done

/-- The object that `HGETALL` gives: `null` for no field. -/
def hgetallReply : Reply → Except Error (Option Hash)
  | .err e => .error e
  | .fields h => .ok (if h = ∅ then none else some h)
  | _ => .ok none

/-- `if (err) reject(err) else resolve(reply)` -/
def settleReply : Reply → P
  | .err e => reject (.redis e)
  | r => resolve (.reply r)

/-! ## Provisioning -/

/-- The key of a CSP. -/
def provKey (csp : String) : String := "prov:" ++ csp

/-- The key of the consumption of the CSP with key `key`. -/
def consoKey (key : String) : String := key ++ ":conso"

/-- The key under which a deleted CSP is kept. -/
def histoKey (key : String) : String := "histo" ++ key

/-- The key of a user. -/
def usersKey (user : String) : String := "users:" ++ user

/-- `audioQuota*asGB` and `videoQuota*asGB`: zero if the field is absent. -/
def optionalQuota (v : Option String) : String :=
  (Number.mul (match v with
    | none => .fin 0
    | some s => parseInt s) asGB).toStr

/-- `parseInt(formDatas.qdata)*asGB` -/
def dataQuota (v : Option String) : String := (Number.mul (parseInt (text v)) asGB).toStr

/-- The seven `HSETNX` of `registerCSP`. -/
def registerCmds (formDatas : FormDatas) : List Cmd :=
  let redisKey := provKey (text formDatas.servicename)
  [.hsetnx redisKey "audioQuota" (optionalQuota formDatas.audio),
   .hsetnx redisKey "videoQuota" (optionalQuota formDatas.video),
   .hsetnx redisKey "dataQuota" (dataQuota formDatas.qdata),
   .hsetnx redisKey "conso" (consoKey redisKey),
   .hsetnx (consoKey redisKey) "audio" "0",
   .hsetnx (consoKey redisKey) "video" "0",
   .hsetnx (consoKey redisKey) "data" "0"]

/-- Issue commands whose replies nobody reads. -/
def sendAll (cs : List Cmd) (next : P) : P := cs.foldr .send next

def registerCSP (formDatas : FormDatas) : P := selectAsync 2 (sendAll (registerCmds formDatas) .done)

/-- The commands of `registerUser`. -/
def registerUserCmds (csp user : String) : List Cmd :=
  [.select 2, .set (usersKey user) csp, .expire (usersKey user) ttlUser]

def registerUser (csp user : String) (next : P) : P := sendAll (registerUserCmds csp user) next

def getCSPInfos (cspkey : String) (k : Except Error (Option Hash) → P) : P :=
  selectAsync 2 (.call (.hgetall cspkey) (fun r => k (hgetallReply r)) .done)

def getCSPConso (cspConsoKey : String) (k : Except Error (Option Hash) → P) : P :=
  selectAsync 2 (.call (.hgetall (consoKey cspConsoKey)) (fun r => k (hgetallReply r)) .done)

/-- The `dataQuota` and `dataConso` of a CSP, or the reason of the rejection. A missing hash is
`null`, and reading a field of it throws. -/
def getCspInfoAndConso (cspName : String) (k : Except String (Option String × Option String) → P) :
    P :=
  getCSPInfos (provKey cspName) fun
    | .ok (some cspInfos) =>
      getCSPConso (provKey cspName) fun
        | .ok (some consoResult) => k (.ok (cspInfos.lookup "dataQuota", consoResult.lookup "data"))
        | _ => k (.error "CSP consumption unknown")
    | _ => k (.error "CSP not found")

/-- The callback of `getAllCspInfo` for one key. -/
def gotCspInfo (size : Nat) (provKey : String) (r : Reply) : P :=
  match hgetallReply r with
  | .error e => reject (.redis e)
  | .ok none => .done
  | .ok (some info) =>
    .upd (fun l => { l with infos := l.infos ++ [⟨provKey, info⟩] }) fun l =>
      if l.infos.length = size then resolve (.infos l.infos) else .done

/-- The keys that `getAllCspInfo` reads: those without `:conso`. -/
def cspKeys (reply : List String) : List String := reply.filter fun k => ¬ ":conso".toList <:+: k.toList

/-- The callback of `getAllCspInfo` for the list of keys. -/
def gotProvKeys : Reply → P
  | .multi reply =>
    (cspKeys reply).foldr (fun provKey next =>
      .call (.hgetall provKey) (gotCspInfo (cspKeys reply).length provKey) next) .done
  | _ => .done

def getAllCspInfo : P :=
  .send (.select 2) <| .call (.keys (Glob.ofString "prov:*")) gotProvKeys .done

/-- The callback of `deleteCSP`. -/
def deletedCSP : Reply → P
  | .err e => reject (.redis e)
  | _ => resolve .one

def deleteCSP (cspkey : String) : P :=
  .send (.select 2) <| .send (.rename (consoKey cspkey) (histoKey (consoKey cspkey))) <|
    .call (.rename cspkey (histoKey cspkey)) deletedCSP .done

/-- The fields that `updateCSPQuotas` writes. -/
def quotaFields (audioQuota videoQuota dataQuota : Option String) : List (String × String) :=
  [("audioQuota", text audioQuota), ("videoQuota", text videoQuota), ("dataQuota", text dataQuota)]

def updateCSPQuotas (cspkey : Option String) (audioQuota videoQuota dataQuota : Option String) : P :=
  selectAsync 2 (.call (.hmset (text cspkey) (quotaFields audioQuota videoQuota dataQuota))
    settleReply .done)

/-! ## TURN servers and credentials -/

/-- The callback of `getTurnServers` for one key. -/
def gotTurnServer (size : Nat) (turnName : String) (k : Except Reason (List TurnServer) → P)
    (r : Reply) : P :=
  match r with
  | .err e => k (.error (.redis e))
  | r =>
    .upd (fun l => { l with turnList := l.turnList ++ [⟨turnName, match r with
      | .bulk s => some s
      | _ => none⟩] }) fun l => if l.turnList.length = size then k (.ok l.turnList) else .done

/-- The callback of `getTurnServers` for the list of keys. -/
def gotTurnKeys (k : Except Reason (List TurnServer) → P) : Reply → P
  | .err e => k (.error (.redis e))
  | .multi [] => k (.error (.text "No turn found"))
  | .multi reply => reply.foldr (fun turnName next =>
      .call (.get turnName) (gotTurnServer reply.length turnName k) next) .done
  | _ => .done

def getTurnServers (k : Except Reason (List TurnServer) → P) : P :=
  selectAsync 2 (.call (.keys (Glob.ofString "turnservers:*")) (gotTurnKeys k) .done)

/-- `Math.floor((Math.random() * length))` -/
def randomIndex (random : Rat) (length : Nat) : Nat :=
  match Number.mul (.fin random) (.fin length) with
  | .fin q => q.floor.toNat
  | _ => length

/-- The address of a TURN server: its key without `turnservers:`. -/
def turnAddress (t : TurnServer) : String :=
  String.ofList (removeFirst "turnservers:".toList t.turnUrl.toList)

/-- What `getAppropriateTurn` resolves to. -/
def chooseTurn (random : Rat) (clientId : String) (availableTurnServers : List TurnServer) : JsVal :=
  let addresses := availableTurnServers.map turnAddress
  .turn addresses[randomIndex random addresses.length]? clientId

/-- The text of the rejections of `getAppropriateTurn` before it looks for a TURN server. -/
def unable (err : String) : Reason := .text ("Unable to get a turn server : " ++ err)

/-- `getAppropriateTurn` after `registerUser`. -/
def quotaGate (cspName clientId : String) (random : Rat) : P :=
  getCspInfoAndConso cspName fun
    | .error err => reject (unable err)
    | .ok (dataQuota, dataConso) =>
      if (numberOf dataConso).gt (numberOf dataQuota) then
        reject (unable "data consumption exceeded")
      else
        getTurnServers fun
          | .ok res => resolve (chooseTurn random clientId res)
          | .error err => reject err

/-- The client's id. -/
def clientIdOf (md5 : String → String) (cspName clientname date : String) : String :=
  md5 (cspName ++ ":" ++ clientname ++ date)

def getAppropriateTurn (md5 : String → String) (cspName clientname date : String) (random : Rat) :
    P :=
  let clientId := clientIdOf md5 cspName clientname date
  registerUser cspName clientId (quotaGate cspName clientId random)

/-- The key of a TURN credential. -/
def credentialKey (clientId : String) : String := "turn/realm/" ++ realm ++ "/user/" ++ clientId ++ "/key"

/-- The callback of `createTurnCredentials`. -/
def createdCredentials (password : String) (k : Except Error String → P) : Reply → P
  | .err e => k (.error e)
  | _ => k (.ok password)

def createTurnCredentials (md5 : String → String) (clientId password : String)
    (k : Except Error String → P) : P :=
  selectAsync 0 (.call
    (.set (credentialKey clientId) (md5 (clientId ++ ":" ++ realm ++ ":" ++ password)))
    (createdCredentials password k) .done)

/-- `getCredentials`: nobody catches a rejection of `createTurnCredentials`. -/
def getCredentials (md5 : String → String) (clientId password : String) : P :=
  createTurnCredentials md5 clientId password fun
    | .ok password => resolve (.credentials clientId password)
    | .error _ => .done

/-! ## Consumption -/

/-- The increment of `addCSPConso`, once the CSP of the user is known. -/
def chargeCSP (parsedTraffic : TrafficRecord) (csp : String) : P :=
  .call (.hincrby (consoKey (provKey csp)) "data" parsedTraffic.sent_bytes) settleReply .done

/-- The callback of `addCSPConso` for the user's CSP: a missing one is `null`, as text. -/
def gotUser (parsedTraffic : TrafficRecord) : Reply → P
  | .err _ => .done
  | .bulk csp => chargeCSP parsedTraffic csp
  | _ => chargeCSP parsedTraffic "null"

/-- `addCSPConso`; for a report that could not be parsed, reading its user throws. -/
def addCSPConso : Option TrafficRecord → P
  | none => selectAsync 2 .done
  | some parsedTraffic =>
    selectAsync 2 (.call (.get (usersKey parsedTraffic.user)) (gotUser parsedTraffic) .done)

/-! ## The client -/

/-- The operations that the routes and the traffic handler start. -/
inductive Op where
  | registerCSP (formDatas : FormDatas)
  | registerUser (csp user : String)
  | getAppropriateTurn (cspName clientname date : String) (random : Rat)
  | getCredentials (clientId password : String)
  | getAllCspInfo
  | getCSPInfos (cspkey : String)
  | getCSPConso (cspConsoKey : String)
  | getTurnServers
  | deleteCSP (cspkey : String)
  | updateCSPQuotas (cspkey audioQuota videoQuota dataQuota : Option String)
  | addCSPConso (parsedTraffic : Option TrafficRecord)

/-- How a route answers with the fields of a hash. -/
def settleObject : Except Error (Option Hash) → P
  | .ok h => resolve (.object h)
  | .error e => reject (.redis e)

def Op.code (md5 : String → String) : Op → P
  | .registerCSP formDatas => Broker.registerCSP formDatas
  | .registerUser csp user => Broker.registerUser csp user .done
  | .getAppropriateTurn cspName clientname date random =>
    Broker.getAppropriateTurn md5 cspName clientname date random
  | .getCredentials clientId password => Broker.getCredentials md5 clientId password
  | .getAllCspInfo => Broker.getAllCspInfo
  | .getCSPInfos cspkey => Broker.getCSPInfos cspkey settleObject
  | .getCSPConso cspConsoKey => Broker.getCSPConso cspConsoKey settleObject
  | .getTurnServers => Broker.getTurnServers fun
    | .ok l => resolve (.turnServers l)
    | .error e => reject e
  | .deleteCSP cspkey => Broker.deleteCSP cspkey
  | .updateCSPQuotas cspkey audioQuota videoQuota dataQuota =>
    Broker.updateCSPQuotas cspkey audioQuota videoQuota dataQuota
  | .addCSPConso parsedTraffic => Broker.addCSPConso parsedTraffic

/-- The broker's Redis client. -/
def dao (md5 : String → String) : Client Server Cmd Reply Locals Op Env where
  exec := exec
  code := Op.code md5
  init := .init
  env := Env.act

/-- The state of the client and its server. -/
abbrev DaoSys := Sys Server Cmd Reply Locals Op

end Broker
end QosSupport
