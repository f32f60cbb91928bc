import QosSupport.Broker.Credentials
import QosSupport.Lib.Text
import QosSupport.Turn.Auth

/-!
# From the broker to the TURN server

The broker writes a key for each client to Redis (`createTurnCredentials` in `broker/BrokerServer/app/dao.js`). The
TURN server reads it when a request of the client waits (`redis_get_user_key` in
`broker/coturn/src/apps/relay/dbdrivers/dbd_redis.c`), in the database that `turnserver-rethink.conf` names, where
there are no static accounts and no shared secrets. Both sides compute it on their own: the one as a text, the other
as bytes.

* `redisGetUserKey`, and `redisGetUserKey_credential`: it is the key of the credential of that user.
* `LoginStep`: the broker, others that use Redis, and a session of the TURN server, in any order.
* `credentials_pass`: a request that is signed with what the broker gave to its user passes.
* `passed_has_credentials`: and there is no other way to pass.
-/

namespace QosSupport
namespace Turn
namespace Stun

open Bytes Run

/-! ## Keys -/

/-- MD5. -/
structure Md5 where
  digest : List Byte → List Byte
  length : ∀ data, (digest data).length = 16

/-- `MD5` of `crypto-js`, as the text that is stored. -/
def Md5.text (m : Md5) (s : String) : String := String.ofList (hexChars (m.digest (utf8 s)))

/-- `stun_produce_integrity_key_str`, with `SHATYPE_SHA1` -/
def produceIntegrityKey (m : Md5) (uname realm upwd : List Byte) : List Byte :=
  m.digest (uname ++ ascii ":" ++ realm ++ ascii ":" ++ upwd)

/-! ## The lookup -/

/-- What hiredis and the C library do with texts that the code does not expect. -/
structure Unexpected where
  /-- The text that is the reply, if there is one, to a command with a `%` in it. -/
  reply : String → Option String
  /-- What `sscanf` leaves in the key, for a text with other characters than hexadecimal digits. -/
  key : String → List Byte

/-- `convert_string_key_to_binary` -/
def convertStringKeyToBinary (c : Unexpected) (keysource : String) (sz : Nat) : List Byte :=
  (hexBytes sz keysource.toList).getD (c.key keysource)

/-- `redisCommand`, for a command `get`: the text that is the reply, if there is one. -/
def redisCommand (c : Unexpected) (s : Redis.Server) (format : String) : Option String :=
  if '%' ∈ format.toList then c.reply format
  else
    -- The arguments are the words of the command.
    match (format.toList.splitOn ' ').filter (· ≠ []) with
    | [_, key] =>
      match (Redis.execDb s.now (.get (String.ofList key)) (s.dbs 0)).2 with
      | .bulk str => some str
      | _ => none
    | _ => none

/-- `redis_get_user_key`. Its buffer has room for all names and realms of requests. The keys of the model are texts,
so a name that is no text has none. -/
def redisGetUserKey (c : Unexpected) (s : Redis.Server) (usname realm : List Byte) : Option (List Byte) :=
  match ofUtf8 usname, ofUtf8 realm with
  | some usname, some realm =>
    match redisCommand c s ("get turn/realm/" ++ realm ++ "/user/" ++ usname ++ "/key") with
    | none => none
    | some str =>
      if strlen str < 2 * Shatype.sha1.keySize then none
      else some (convertStringKeyToBinary c str Shatype.sha1.keySize)
  | _, _ => none

section Lookup

variable {c : Unexpected} {s : Redis.Server} {u : String}

/-- A name that the command leaves as it is. -/
def Plain (u : String) : Prop := '%' ∉ u.toList ∧ ' ' ∉ u.toList

theorem redisCommand_credentialKey (h : Plain u) :
    redisCommand c s ("get turn/realm/" ++ Broker.realm ++ "/user/" ++ u ++ "/key") =
      match (Redis.execDb s.now (.get (Broker.credentialKey u)) (s.dbs 0)).2 with
      | .bulk str => some str
      | _ => none := by
  have hcmd : ("get turn/realm/" ++ Broker.realm ++ "/user/" ++ u ++ "/key").toList =
      [' '].intercalate ["get".toList, (Broker.credentialKey u).toList] := by
    simp [Broker.credentialKey, Broker.realm, List.intercalate]
  have hkey : ' ' ∉ (Broker.credentialKey u).toList := by
    simp [Broker.credentialKey, Broker.realm, h.2]
  have hpercent : '%' ∉ [' '].intercalate ["get".toList, (Broker.credentialKey u).toList] := by
    simp [Broker.credentialKey, Broker.realm, List.intercalate, h.1]
  have hwords : ∀ l ∈ ["get".toList, (Broker.credentialKey u).toList], ' ' ∉ l := by
    intro l hl
    rcases List.mem_cons.mp hl with rfl | hl
    · decide
    · rw [List.mem_singleton.mp hl]
      exact hkey
  have hne : (Broker.credentialKey u).toList ≠ [] := by
    simp [Broker.credentialKey]
  rw [redisCommand, hcmd, if_neg hpercent, List.splitOn_intercalate _ hwords (by simp)]
  rw [List.filter_eq_self.mpr fun l hl => ?_]
  · dsimp only
    rw [String.ofList_toList]
  · rcases List.mem_cons.mp hl with rfl | hl
    · decide
    · rw [List.mem_singleton.mp hl]
      exact decide_eq_true hne

theorem redisGetUserKey_utf8 (u : String) : redisGetUserKey c s (utf8 u) (utf8 Broker.realm) =
    match redisCommand c s ("get turn/realm/" ++ Broker.realm ++ "/user/" ++ u ++ "/key") with
    | none => none
    | some str =>
      if strlen str < 2 * Shatype.sha1.keySize then none
      else some (convertStringKeyToBinary c str Shatype.sha1.keySize) := by
  rw [redisGetUserKey, ofUtf8_utf8, ofUtf8_utf8]

/-- **What the broker stores, and what the TURN server gets.** -/
theorem redisGetUserKey_credential (m : Md5) {t : String} (h : Plain u)
    (hc : Broker.credentialOf s u = some ⟨.str (m.text t), none⟩) :
    redisGetUserKey c s (utf8 u) (utf8 Broker.realm) = some (m.digest (utf8 t)) := by
  have hfind : Redis.find s.now (s.dbs 0) (Broker.credentialKey u) = some ⟨.str (m.text t), none⟩ := by
    rw [Redis.find, show (s.dbs 0).lookup (Broker.credentialKey u) = _ from hc]
    rfl
  have hlen := m.length (utf8 t)
  have hconv : convertStringKeyToBinary c (m.text t) 16 = m.digest (utf8 t) := by
    have hhex := hexBytes_hexChars (m.digest (utf8 t))
    rw [hlen] at hhex
    rw [convertStringKeyToBinary, Md5.text, String.toList_ofList, hhex]
    rfl
  rw [redisGetUserKey_utf8, redisCommand_credentialKey h, Redis.execDb, hfind]
  dsimp only
  rw [Md5.text, strlen_hexChars, hlen, if_neg (by decide)]
  exact congrArg some hconv

theorem redisGetUserKey_none (h : Plain u) (hc : Broker.credentialOf s u = none) :
    redisGetUserKey c s (utf8 u) (utf8 Broker.realm) = none := by
  have hfind : Redis.find s.now (s.dbs 0) (Broker.credentialKey u) = none := by
    rw [Redis.find, show (s.dbs 0).lookup (Broker.credentialKey u) = _ from hc]
    rfl
  rw [redisGetUserKey_utf8, redisCommand_credentialKey h, Redis.execDb, hfind]

end Lookup

/-! ## The system -/

/-- What happens at the broker and in Redis, or at the TURN server. -/
inductive LoginEvent where
  | broker (e : Broker.CallEvent)
  | turn (e : AuthEvent Redis.Server)

/-- One step. The TURN server reads the database, the broker and others write it. -/
inductive LoginStep (m : Md5) (h : Hmac) (srv : AuthServer) (c : Unexpected) :
    AuthSys Redis.Server → LoginEvent → AuthSys Redis.Server → Prop
  | broker {σ : AuthSys Redis.Server} {e : Broker.CallEvent} {s : Redis.Server} :
      Broker.Answered m.text σ.users e s → LoginStep m h srv c σ (.broker e) { σ with users := s }
  | turn {σ σ' : AuthSys Redis.Server} {e : AuthEvent Redis.Server} : (∀ d, e ≠ .users d) →
      AuthSys.Step h srv (redisGetUserKey c) σ e σ' → LoginStep m h srv c σ (.turn e) σ'

/-- Nobody else writes credentials. -/
def OnlyBrokerWrites (σ : AuthSys Redis.Server) : LoginEvent → Prop
  | .broker e => Broker.OnlyBroker σ.users e
  | .turn _ => True

/-- Nobody else writes credentials, and the client does not get new ones. -/
def KeepsCredentials (clientId : String) (σ : AuthSys Redis.Server) (e : LoginEvent) : Prop :=
  OnlyBrokerWrites σ e ∧ ∀ password answer, e ≠ .broker (.call (.getCredentials clientId password) answer)

/-- The key for what the broker gave to a client. -/
def clientKey (m : Md5) (clientId password : String) : List Byte :=
  produceIntegrityKey m (utf8 clientId) (utf8 Broker.realm) (utf8 password)

/-- The credential of a client, as it is stored. -/
def storedKey (m : Md5) (clientId password : String) : Redis.Entry :=
  ⟨.str (m.text (clientId ++ ":" ++ Broker.realm ++ ":" ++ password)), none⟩

section Login

variable {m : Md5} {h : Hmac} {srv : AuthServer} {c : Unexpected} {σ σ' : AuthSys Redis.Server} {e : LoginEvent}
  {evs : List LoginEvent} {P : AuthSys Redis.Server → LoginEvent → Prop} {s : Redis.Server} {u : String}

/-- The two sides compute the same key. -/
theorem redisGetUserKey_stored {password : String} (hu : Plain u)
    (hc : Broker.credentialOf s u = some (storedKey m u password)) :
    redisGetUserKey c s (utf8 u) (utf8 Broker.realm) = some (clientKey m u password) := by
  rw [redisGetUserKey_credential m hu hc, clientKey, produceIntegrityKey]
  simp only [utf8_append]
  rfl

theorem LoginStep.auth (hst : LoginStep m h srv c σ e σ') :
    ∃ e', AuthSys.Step h srv (redisGetUserKey c) σ e' σ' := by
  cases hst with
  | broker _ => exact ⟨_, .users σ _⟩
  | turn _ hst => exact ⟨_, hst⟩

/-- A run, as the session sees it. -/
theorem auth_of_login (hrun : Steps (LoginStep m h srv c) P σ evs σ') :
    ∃ evs', AuthRuns h srv (redisGetUserKey c) σ evs' σ' := by
  induction hrun with
  | nil σ => exact ⟨[], .nil σ⟩
  | cons _ hst _ ih =>
    obtain ⟨e', hst'⟩ := hst.auth
    obtain ⟨evs', hrun'⟩ := ih
    exact ⟨e' :: evs', .cons trivial hst' hrun'⟩

theorem users_step {e : AuthEvent Redis.Server} (he : ∀ d, e ≠ .users d)
    (hst : AuthSys.Step h srv (redisGetUserKey c) σ e σ') : σ'.users = σ.users := by
  cases hst with
  | users d => exact absurd rfl (he _)
  | _ => rfl

/-- **One step** changes a credential only if the broker gives a new one to the client. -/
theorem credential_step (hst : LoginStep m h srv c σ e σ') (he : OnlyBrokerWrites σ e) (x : String) :
    Broker.credentialOf σ'.users x = Broker.credentialOf σ.users x ∨
      ∃ password answer, e = .broker (.call (.getCredentials x password) answer) ∧
        Broker.credentialOf σ'.users x = some (storedKey m x password) := by
  cases hst with
  | broker hans =>
    rcases Broker.credentialOf_step hans he x with hsame | ⟨password, answer, rfl, hnew⟩
    · exact .inl hsame
    · exact .inr ⟨password, answer, rfl, hnew⟩
  | turn hne hst => exact .inl (by rw [users_step hne hst])

/-- **Every run** that keeps the credentials of a client. -/
theorem credential_kept {clientId : String} {o : Option Redis.Entry}
    (hrun : Steps (LoginStep m h srv c) (KeepsCredentials clientId) σ evs σ')
    (hc : Broker.credentialOf σ.users clientId = o) : Broker.credentialOf σ'.users clientId = o := by
  refine hrun.inv (I := fun σ => Broker.credentialOf σ.users clientId = o) ?_ hc
  intro σ e σ' hi hkeeps hst
  rcases credential_step hst hkeeps.1 clientId with hsame | ⟨password, answer, rfl, -⟩
  · exact hsame.trans hi
  · exact absurd rfl (hkeeps.2 password answer)

theorem credential_given {clientId password : String} {answer : Option Broker.Outcome}
    (hst : LoginStep m h srv c σ (.broker (.call (.getCredentials clientId password) answer)) σ') :
    Broker.credentialOf σ'.users clientId = some (storedKey m clientId password) := by
  cases hst with
  | broker hans =>
    obtain ⟨l, hdone, -⟩ := hans
    obtain rfl := Broker.server_of_completes hdone
    exact (Broker.credentialOf_getCredentials clientId).trans (if_pos rfl)

/-- A secure name has no blank. -/
theorem plain_of_secure (hs : isSecureUsername (utf8 u) = true) (hu : '%' ∉ u.toList) : Plain u := by
  refine ⟨hu, fun hblank => ?_⟩
  have hbyte : (32 : Byte) ∈ utf8 u := mem_utf8 (c := ' ') (by decide) hblank
  have hany : (((utf8 u).map toLower).any fun b => b ∈ ascii " \t'\"\n\r\\") = true :=
    List.any_eq_true.mpr ⟨32, List.mem_map.mpr ⟨32, hbyte, by decide⟩, by decide +kernel⟩
  unfold isSecureUsername at hs
  simp only [hany] at hs
  cases hs

theorem secure_of_postponed {req : AuthRequest} {fresh : Nonce} {usname : List Byte}
    (hst : AuthSys.Step h srv (redisGetUserKey c) σ (.receive req fresh (.postponed usname)) σ') :
    isSecureUsername usname = true := by
  cases hst with
  | receive hv =>
    obtain ⟨hpres, rfl⟩ := postponed_presents hv
    exact hpres.secure

end Login

/-- The key of `bob`, in the realm `orange.com`, with the password `pw`. -/
def bobKey : List Byte :=
  [0xFF, 0xBC, 0x0F, 0xA1, 0xB3, 0xEC, 0x5D, 0x90, 0x4B, 0x72, 0x82, 0x77, 0xAD, 0xE3, 0x17, 0x3B]

/-- MD5 of `bob:orange.com:pw` and of `:orange.com:pw`. -/
def sampleMd5 : Md5 where
  digest data := if data.length = 14 then namelessKey else bobKey
  length data := by split <;> rfl

/-- The HMAC with SHA-1 of the request of `bob`. -/
def bobHmac : Hmac where
  mac shatype _ _ :=
    match shatype with
    | .sha1 => [0x91, 0x92, 0x26, 0x36, 0x64, 0x39, 0x1E, 0x8A, 0xA6, 0xC5,
        0x5C, 0xBF, 0x49, 0x83, 0x62, 0xD0, 0x56, 0xE1, 0x98, 0xE2]
    | other => List.replicate other.size 0
  length shatype _ _ := by cases shatype <;> simp [Shatype.size]

def bobRequest : AuthRequest := sampleRequest bobHmac bobKey "bob"

/-- No reply to a command with a `%`, and no key from other characters. -/
def noReply : Unexpected := ⟨fun _ => none, fun _ => []⟩

/-- The broker gave the key to the user, if the lookup takes the name as it is. -/
def FromBroker (m : Md5) (evs : List LoginEvent) (usname key : List Byte) : Prop :=
  ∃ u, usname = utf8 u ∧ (Plain u → ∃ password answer,
    .broker (.call (.getCredentials u password) answer) ∈ evs ∧ key = clientKey m u password)

/-- What holds after the events of a run. -/
structure LoginInv (m : Md5) (evs : List LoginEvent) (σ : AuthSys Redis.Server) : Prop where
  stored : ∀ x, Broker.credentialOf σ.users x = none ∨ ∃ password answer,
    .broker (.call (.getCredentials x password) answer) ∈ evs ∧
      Broker.credentialOf σ.users x = some (storedKey m x password)
  keys : KeysFrom (FromBroker m evs) σ.ss σ.waiting
  realm : σ.ss.realm = utf8 Broker.realm

section Sound

variable {m : Md5} {h : Hmac} {srv : AuthServer} {c : Unexpected} {σ σ' : AuthSys Redis.Server} {e : LoginEvent}
  {evs : List LoginEvent} {usname key : List Byte}

theorem FromBroker.append (hf : FromBroker m evs usname key) (es : List LoginEvent) :
    FromBroker m (evs ++ es) usname key := by
  obtain ⟨u, hu, hgiven⟩ := hf
  refine ⟨u, hu, fun hplain => ?_⟩
  obtain ⟨password, answer, hmem, hkey⟩ := hgiven hplain
  exact ⟨password, answer, List.mem_append_left es hmem, hkey⟩

/-- A key that is found is one that the broker gave. -/
theorem LoginInv.lookup (hi : LoginInv m evs σ) (hkey : redisGetUserKey c σ.users usname σ.ss.realm = some key) :
    FromBroker m evs usname key := by
  rw [hi.realm] at hkey
  cases hu : ofUtf8 usname with
  | none =>
    rw [redisGetUserKey, hu] at hkey
    cases hkey
  | some u =>
    obtain rfl := eq_utf8 hu
    refine ⟨u, rfl, fun hplain => ?_⟩
    rcases hi.stored u with hnone | ⟨password, answer, hmem, hstored⟩
    · rw [redisGetUserKey_none hplain hnone] at hkey
      cases hkey
    · rw [redisGetUserKey_stored hplain hstored] at hkey
      exact ⟨password, answer, hmem, (Option.some.inj hkey).symm⟩

/-- **One step** keeps that. -/
theorem LoginInv.step (hi : LoginInv m evs σ) (he : OnlyBrokerWrites σ e) (hst : LoginStep m h srv c σ e σ') :
    LoginInv m (evs ++ [e]) σ' := by
  obtain ⟨e', hst'⟩ := hst.auth
  refine ⟨fun x => ?_, ?_, (realm_step hst').trans hi.realm⟩
  · rcases credential_step hst he x with hsame | ⟨password, answer, rfl, hnew⟩
    · rw [hsame]
      rcases hi.stored x with hnone | ⟨password, answer, hmem, hstored⟩
      · exact .inl hnone
      · exact .inr ⟨password, answer, List.mem_append_left _ hmem, hstored⟩
    · exact .inr ⟨password, answer, List.mem_append_right _ List.mem_cons_self, hnew⟩
  · exact keysFrom_step hst' (hi.keys.mono fun u key hf => hf.append [e]) fun u key hkey => (hi.lookup hkey).append [e]

/-- **Every run** from a new session and a database without credentials. -/
theorem loginInv_run {s : Redis.Server} {ctime : Nat} (hempty : ∀ x, Broker.credentialOf s x = none)
    (hrun : Steps (LoginStep m h srv c) OnlyBrokerWrites (.new (utf8 Broker.realm) s ctime) evs σ) :
    LoginInv m evs σ :=
  Steps.history (I := fun evs σ => LoginInv m evs σ) ⟨fun x => .inl (hempty x), keysFrom_new _ _ s ctime, rfl⟩
    (fun _ _ _ _ _ he hst hi => hi.step he hst) hrun

end Sound

/-- **Only credentials of the broker pass.** In every run in which nobody else writes credentials, a request passes
only if it is signed with what the broker gave before, to its user or to the client without a name. A name with a `%`
is left out: Redis is asked for something else then. -/
theorem passed_has_credentials (m : Md5) (h : Hmac) (srv : AuthServer) (c : Unexpected) (s : Redis.Server) (ctime : Nat)
    {evs : List LoginEvent} {e : AuthEvent Redis.Server} {σ σ' : AuthSys Redis.Server} {req : AuthRequest}
    (hempty : ∀ x, Broker.credentialOf s x = none)
    (hrun : Steps (LoginStep m h srv c) OnlyBrokerWrites (.new (utf8 Broker.realm) s ctime) evs σ)
    (hst : LoginStep m h srv c σ (.turn e) σ') (hpass : e.answer = some (req, .passed true))
    (hpercent : ∀ u, req.usname = some (utf8 u) → '%' ∉ u.toList) :
    ∃ clientId password answer, .broker (.call (.getCredentials clientId password) answer) ∈ evs ∧
      (req.usname = some (utf8 clientId) ∨ clientId = "") ∧ req.SignedWith h (clientKey m clientId password) := by
  have hi := loginInv_run hempty hrun
  cases hst with
  | turn _ hst =>
    obtain ⟨hpres, u, key, hu, hsigned, t, rfl, hgiven⟩ := passed_step hst hpass hi.keys
    rcases hu with hname | hnil
    · have husname : req.usname = some (utf8 t) := by rw [hpres.usname, hname]
      have hsecure : isSecureUsername (utf8 t) = true := by rw [hname]; exact hpres.secure
      obtain ⟨password, answer, hmem, rfl⟩ := hgiven (plain_of_secure hsecure (hpercent t husname))
      exact ⟨t, password, answer, hmem, .inl husname, hsigned⟩
    · obtain rfl : t = "" := utf8_inj hnil
      obtain ⟨password, answer, hmem, rfl⟩ := hgiven ⟨by decide, by decide⟩
      exact ⟨"", password, answer, hmem, .inr rfl, hsigned⟩

/-- The client without a name gets credentials, a nonce, and passes. Then a request of `bob` passes, though `bob` got
no credentials: it is signed with those. -/
theorem passed_has_credentials_nameless : ∃ (evs : List LoginEvent) (e : AuthEvent Redis.Server)
    (σ σ' : AuthSys Redis.Server), Steps (LoginStep sampleMd5 namelessHmac longTermServer noReply) OnlyBrokerWrites
        (.new (utf8 Broker.realm) Broker.blank 0) evs σ ∧
      LoginStep sampleMd5 namelessHmac longTermServer noReply σ (.turn e) σ' ∧
      e.answer = some (namelessRequest "bob", .passed true) ∧
      ∃ clientId password answer, .broker (.call (.getCredentials clientId password) answer) ∈ evs ∧
        ((namelessRequest "bob").usname = some (utf8 clientId) ∨ clientId = "") ∧
        (namelessRequest "bob").SignedWith namelessHmac (clientKey sampleMd5 clientId password) := by
  have hfirst : checkStunAuth namelessHmac longTermServer 0 sampleNonce
      (AuthSys.new (utf8 Broker.realm) Broker.blank 0).ss (namelessRequest "") true =
      (.challenge 438 (some "Wrong nonce"), sampleSession [] none) := by decide +kernel
  have hsecond : checkStunAuth namelessHmac longTermServer 0 sampleNonce (sampleSession [] none)
      (namelessRequest "") true = (.postponed [], sampleSession [] none) := by decide +kernel
  have hresumed : checkStunAuth namelessHmac longTermServer 0 sampleNonce
      ((sampleSession [] none).setKey (some namelessKey)) (namelessRequest "") false =
      (.passed true, sampleSession [] (some namelessKey)) := by decide +kernel
  have hbob : checkStunAuth namelessHmac longTermServer 0 sampleNonce (sampleSession [] (some namelessKey))
      (namelessRequest "bob") true = (.passed true, sampleSession (ascii "bob") (some namelessKey)) := by
    decide +kernel
  have husname : (namelessRequest "bob").usname = some (utf8 "bob") := by decide +kernel
  obtain ⟨s, l, hdone⟩ := EventLoop.Client.exists_completes (Broker.dao sampleMd5.text) (.getCredentials "" "pw")
    Broker.blank
  have hgive : LoginStep sampleMd5 namelessHmac longTermServer noReply (.new (utf8 Broker.realm) Broker.blank 0)
      (.broker (.call (.getCredentials "" "pw") l.outcome)) (.new (utf8 Broker.realm) s 0) :=
    .broker ⟨l, hdone, rfl⟩
  have hkey : redisGetUserKey noReply s [] (utf8 Broker.realm) = some namelessKey :=
    redisGetUserKey_stored (u := "") ⟨by decide, by decide⟩ (credential_given hgive)
  obtain ⟨σ, hrun, hss, hctime⟩ : ∃ σ, Steps (LoginStep sampleMd5 namelessHmac longTermServer noReply)
      OnlyBrokerWrites (.new (utf8 Broker.realm) s 0)
      [.turn (.receive (namelessRequest "") sampleNonce (.challenge 438 (some "Wrong nonce"))),
        .turn (.receive (namelessRequest "") sampleNonce (.postponed [])), .turn (.lookup 1),
        .turn (.resume 1 (namelessRequest "") sampleNonce (.passed true))] σ ∧
      σ.ss = sampleSession [] (some namelessKey) ∧ σ.ctime = 0 := by
    refine ⟨_, .cons trivial (.turn nofun (.receive hfirst)) (.cons trivial (.turn nofun (.receive hsecond))
      (.cons trivial (.turn nofun (@AuthSys.Step.lookup _ _ _ _ _ 1 _ rfl rfl))
        (.cons trivial (.turn nofun (@AuthSys.Step.resume _ _ _ _ _ 1
          ⟨namelessRequest "", [], some (redisGetUserKey noReply s [] (utf8 Broker.realm))⟩ (some namelessKey) _ _ _
          rfl (congrArg some hkey) hresumed)) (.nil _)))), ?_, ?_⟩
    · rfl
    · rfl
  rw [← hss, ← hctime] at hbob
  have hst : LoginStep sampleMd5 namelessHmac longTermServer noReply σ
      (.turn (.receive (namelessRequest "bob") sampleNonce (.passed true))) _ := .turn nofun (.receive hbob)
  have hpercent : ∀ u, (namelessRequest "bob").usname = some (utf8 u) → '%' ∉ u.toList := by
    intro u hu
    obtain rfl : "bob" = u := utf8_inj (Option.some.inj (husname.symm.trans hu))
    decide
  have hruns : Steps (LoginStep sampleMd5 namelessHmac longTermServer noReply) OnlyBrokerWrites
      (.new (utf8 Broker.realm) Broker.blank 0) (.broker (.call (.getCredentials "" "pw") l.outcome) :: _) σ :=
    .cons trivial hgive hrun
  exact ⟨_, _, _, _, hruns, hst, rfl, passed_has_credentials sampleMd5 namelessHmac longTermServer noReply
    Broker.blank 0 (fun _ => rfl) hruns hst rfl hpercent⟩

end Stun
end Turn
end QosSupport
