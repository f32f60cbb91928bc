import QosSupport.Lib.Run
import QosSupport.Turn.Integrity

/-!
# Authentication of requests (`broker/coturn/src/server/ns_turn_server.c`)

A request has to be signed with the key of its user. The session keeps the nonce, the name of the user and the
key; a key that is missing, or does not fit, is looked up by another thread (`apps/relay/userdb.c`), and the
request is checked once more when the answer comes. In between, other requests are checked.

* `checkStunAuth`: one check of a request.
* `AuthSys.Step`: requests, lookups and their answers, in any order, while the users and their keys change.
* `checkStunAuth_spec`: what a check can do.
* `passed_request_signed`: in every run, a request passes only if it has the nonce of the session, and is signed
  with a key that the database has given: for its user, or for the user without a name.
* `right_key_passes`: in every run, a request that is signed with the key that is looked up for it passes.

There is no oAuth and no shared secret here: the server is configured for neither (`turnserver-rethink.conf`), so
`ss->oauth` is never set. Requests that bind a connection (`AuthRequest`) and the table that gives origins a realm
are left out: both could change the realm of a session.
-/

namespace QosSupport
namespace Turn
namespace Stun

open Bytes Run

/-! ## Requests -/

/-- The bytes of a text of ASCII characters. -/
def ascii (s : String) : List Byte := s.toList.map fun c => Fin.ofNat 256 c.toNat

/-- `STUN_ATTRIBUTE_USERNAME` -/
def usernameAttr : U16 := 0x0006#16

/-- `STUN_ATTRIBUTE_REALM` -/
def realmAttr : U16 := 0x0014#16

/-- `STUN_ATTRIBUTE_NONCE` -/
def nonceAttr : U16 := 0x0015#16

/-- `STUN_METHOD_ALLOCATE` -/
def allocateMethod : U16 := 0x0003#16

/-- `STUN_MAX_USERNAME_SIZE` -/
def maxUsernameSize : Nat := 512

/-- `STUN_MAX_REALM_SIZE` -/
def maxRealmSize : Nat := 127

/-- `STUN_MAX_NONCE_SIZE` -/
def maxNonceSize : Nat := 127

/-- `STUN_METHOD_CONNECTION_BIND` -/
def connectionBindMethod : U16 := 0x000B#16

/-- A request in its buffer, and its method. It binds no connection: such a request may name any realm, which the
session that it is checked against takes over. -/
structure AuthRequest where
  buf : Buf
  len : Nat
  method : U16
  noBind : method ≠ connectionBindMethod

/-- The text of the attribute at `sar`, of which at most `n` bytes are copied. It ends at the first zero. -/
def attrText (m : Buf) (n sar : Nat) : List Byte :=
  (slice m (sar + 4) (min (attrGetLen m sar) n)).takeWhile (· ≠ 0)

/-- The text of the first attribute of a type. -/
def AuthRequest.text (req : AuthRequest) (type : U16) (n : Nat) : Option (List Byte) :=
  (attrGetFirstByType req.buf req.len type).map (attrText req.buf n)

/-- `realm` -/
def AuthRequest.realm (req : AuthRequest) : Option (List Byte) := req.text realmAttr maxRealmSize

/-- `usname` -/
def AuthRequest.usname (req : AuthRequest) : Option (List Byte) := req.text usernameAttr maxUsernameSize

/-- `nonce` -/
def AuthRequest.nonce (req : AuthRequest) : Option (List Byte) := req.text nonceAttr maxNonceSize

/-- `tolower` -/
def toLower (b : Byte) : Byte := if 65 ≤ b.val ∧ b.val ≤ 90 then b + 32 else b

/-- `is_secure_username` -/
def isSecureUsername (username : List Byte) : Bool :=
  let s := username.map toLower
  !(s.any fun b => b ∈ ascii " \t'\"\n\r\\") &&
    !(decide (ascii "union" <:+: s) && decide (ascii "select" <:+: s))

/-! ## Sessions -/

/-- A nonce: the text of random numbers. -/
structure Nonce where
  bytes : List Byte
  nonempty : bytes ≠ []
  noZero : 0 ∉ bytes
  deriving DecidableEq

/-- What a session (`ts_ur_super_session`) keeps for the checks. -/
structure AuthState where
  /-- `realm_options.name` -/
  realm : List Byte
  /-- `nonce`, absent if its first byte is zero. -/
  nonce : Option Nonce
  nonceExpirationTime : Nat
  username : List Byte
  /-- `hmackey`, if `hmackey_set`. -/
  hmackey : Option (List Byte)
  deriving DecidableEq

/-- The options of a server (`turn_turnserver`) that the check reads. Its `oauth` is not set. -/
structure AuthServer where
  /-- `ct` is `TURN_CREDENTIALS_LONG_TERM`. -/
  longTerm : Bool
  staleNonce : Bool

/-- `STUN_NONCE_EXPIRATION_TIME` -/
def nonceLifetime : Nat := 600

/-- What becomes of a request. -/
inductive Verdict where
  /-- It is handled; the flag is `message_integrity`. -/
  | passed (messageIntegrity : Bool)
  /-- `create_challenge_response`: an error, with the nonce and the realm. -/
  | challenge (errCode : Nat) (reason : Option String)
  /-- An error. -/
  | refused (errCode : Nat) (reason : Option String)
  /-- `postpone_reply`: the key of a user is looked up. -/
  | postponed (usname : List Byte)
  deriving DecidableEq

/-- The nonce is generated when it is missing, and when it is too old. -/
def renewNonce (srv : AuthServer) (ctime : Nat) (fresh : Nonce) (ss : AuthState) : AuthState :=
  if ss.nonce.isNone || (srv.staleNonce && decide (ss.nonceExpirationTime < ctime)) then
    { ss with nonce := some fresh, nonceExpirationTime := ctime + nonceLifetime }
  else ss

/-- The last part of `check_stun_auth`: the key is looked up, if it is missing or does not fit. -/
def checkKey (h : Hmac) (ss : AuthState) (req : AuthRequest) (usname : List Byte) (canResume : Bool) : Verdict :=
  let right := ss.hmackey.any fun key => decide (1 ≤ checkIntegrity h (.longTerm key) req.buf req.len .sha1)
  if right then .passed true else if canResume then .postponed usname else .challenge 401 none

/-- The part of it that reads the nonce. -/
def checkNonce (h : Hmac) (ss : AuthState) (newNonce : Bool) (req : AuthRequest) (usname : List Byte)
    (canResume : Bool) : Verdict :=
  match req.nonce with
  | none => .refused 400 none
  | some nonce =>
    if newNonce then .challenge 438 (some "Wrong nonce")
    else if ss.nonce.map Nonce.bytes ≠ some nonce then .challenge 438 (some "Stale nonce")
    else checkKey h ss req usname canResume

/-- The part of it that reads the name of the user, which is the same in all requests of a session where
`ss->oauth` is not set. -/
def checkUsername (h : Hmac) (ss : AuthState) (newNonce : Bool) (req : AuthRequest) (canResume : Bool) :
    Verdict × AuthState :=
  match req.usname with
  | none => (.refused 400 none, ss)
  | some usname =>
    if isSecureUsername usname = false then (.refused 400 none, ss)
    else if ss.username ≠ [] ∧ ss.username ≠ usname then
      if req.method = allocateMethod then (.refused 437 (some "Allocation mismatch: wrong credentials"), ss)
      else (.refused 441 none, ss)
    else
      let ss := { ss with username := usname }
      (checkNonce h ss newNonce req usname canResume, ss)

/-- The part of it that reads the realm, where `ss->oauth` is not set and the request binds no connection. -/
def checkRealm (h : Hmac) (ss : AuthState) (newNonce : Bool) (req : AuthRequest) (canResume : Bool) :
    Verdict × AuthState :=
  match req.realm with
  | none => (.refused 400 none, ss)
  | some realm =>
    if realm ≠ ss.realm then
      if req.method = allocateMethod then
        (.refused 437 (some "Allocation mismatch: wrong credentials: the realm value is incorrect"), ss)
      else (.refused 441 (some "Wrong credentials: the realm value is incorrect"), ss)
    else checkUsername h ss newNonce req canResume

/-- `check_stun_auth` -/
def checkStunAuth (h : Hmac) (srv : AuthServer) (ctime : Nat) (fresh : Nonce) (ss : AuthState) (req : AuthRequest)
    (canResume : Bool) : Verdict × AuthState :=
  if srv.longTerm = false then (.passed false, ss)
  else
    let newNonce := ss.nonce.isNone
    let ss := renewNonce srv ctime fresh ss
    match attrGetFirstByType req.buf req.len messageIntegrity with
    | none => (.challenge 401 none, ss)
    | some sar =>
      if attrGetLen req.buf sar ≠ Shatype.sha1.size then (.challenge 401 none, ss)
      else checkRealm h ss newNonce req canResume

/-! ## The system -/

/-- A request that waits for a key (`auth_message`). -/
structure AuthMessage where
  req : AuthRequest
  username : List Byte
  /-- The answer of `get_user_key`, once it is known. -/
  answer : Option (Option (List Byte))

/-- A session, the database of the users, and the requests that wait. -/
structure AuthSys (D : Type) where
  ss : AuthState
  users : D
  ctime : Nat
  waiting : Nat → Option AuthMessage
  /-- The number of the next request. -/
  next : Nat

/-- What happens, with what becomes of the request. -/
inductive AuthEvent (D : Type) where
  | receive (req : AuthRequest) (fresh : Nonce) (v : Verdict)
  | lookup (id : Nat)
  | resume (id : Nat) (req : AuthRequest) (fresh : Nonce) (v : Verdict)
  | users (d : D)
  | tick (seconds : Nat)

/-- The request that is checked, and what becomes of it. -/
def AuthEvent.answer {D : Type} : AuthEvent D → Option (AuthRequest × Verdict)
  | receive req _ v => some (req, v)
  | resume _ req _ v => some (req, v)
  | _ => none

section System

variable {D : Type}

/-- A new session. -/
def AuthSys.new (realm : List Byte) (users : D) (ctime : Nat) : AuthSys D where
  ss := { realm := realm, nonce := none, nonceExpirationTime := 0, username := [], hmackey := none }
  users := users
  ctime := ctime
  waiting := fun _ => none
  next := 0

/-- The requests that wait, after a check. -/
def AuthSys.postpone (σ : AuthSys D) (req : AuthRequest) : Verdict → Nat → Option AuthMessage
  | .postponed usname => Function.update σ.waiting σ.next (some ⟨req, usname, none⟩)
  | _ => σ.waiting

/-- `resume_processing_after_username_check`: the key is kept if there is one. -/
def AuthState.setKey (ss : AuthState) : Option (List Byte) → AuthState
  | some key => { ss with hmackey := some key }
  | none => ss

/-- One step, where `userKey` is `get_user_key`. -/
inductive AuthSys.Step (h : Hmac) (srv : AuthServer) (userKey : D → List Byte → List Byte → Option (List Byte)) :
    AuthSys D → AuthEvent D → AuthSys D → Prop
  /-- A request arrives. -/
  | receive {σ : AuthSys D} {req : AuthRequest} {fresh : Nonce} {v : Verdict} {ss : AuthState} :
      checkStunAuth h srv σ.ctime fresh σ.ss req true = (v, ss) →
      Step h srv userKey σ (.receive req fresh v)
        { σ with ss := ss, waiting := σ.postpone req v, next := σ.next + 1 }
  /-- `auth_server_receive_message` -/
  | lookup {σ : AuthSys D} {id : Nat} {p : AuthMessage} : σ.waiting id = some p → p.answer = none →
      Step h srv userKey σ (.lookup id)
        { σ with
          waiting := Function.update σ.waiting id
            (some { p with answer := some (userKey σ.users p.username σ.ss.realm) }) }
  /-- The answer arrives. -/
  | resume {σ : AuthSys D} {id : Nat} {p : AuthMessage} {key : Option (List Byte)} {fresh : Nonce} {v : Verdict}
      {ss : AuthState} : σ.waiting id = some p → p.answer = some key →
      checkStunAuth h srv σ.ctime fresh (σ.ss.setKey key) p.req false = (v, ss) →
      Step h srv userKey σ (.resume id p.req fresh v)
        { σ with ss := ss, waiting := Function.update σ.waiting id none }
  /-- The database changes. -/
  | users (σ : AuthSys D) (d : D) : Step h srv userKey σ (.users d) { σ with users := d }
  | tick (σ : AuthSys D) (seconds : Nat) :
      Step h srv userKey σ (.tick seconds) { σ with ctime := σ.ctime + seconds }

end System

/-! ## What a check can do -/

/-- The request is signed with this key. -/
def AuthRequest.SignedWith (req : AuthRequest) (h : Hmac) (key : List Byte) : Prop :=
  1 ≤ checkIntegrity h (.longTerm key) req.buf req.len .sha1

instance (req : AuthRequest) (h : Hmac) (key : List Byte) : Decidable (req.SignedWith h key) :=
  inferInstanceAs (Decidable (_ ≤ _))

/-- The request has a signature. -/
def AuthRequest.IsSigned (req : AuthRequest) : Prop :=
  ∃ sar, attrGetFirstByType req.buf req.len messageIntegrity = some sar ∧
    attrGetLen req.buf sar = Shatype.sha1.size

/-- The request has the nonce of the session. -/
def AuthRequest.HasNonce (req : AuthRequest) (ss : AuthState) : Prop :=
  ∃ n, ss.nonce = some n ∧ req.nonce = some n.bytes

/-- The request has all that the session asks for, but for the key. -/
structure AuthRequest.Presents (req : AuthRequest) (ss : AuthState) : Prop where
  signed : req.IsSigned
  realm : req.realm = some ss.realm
  usname : req.usname = some ss.username
  secure : isSecureUsername ss.username = true
  nonce : req.HasNonce ss

/-- The request is answered with an error. -/
def Verdict.IsError : Verdict → Prop
  | challenge _ _ => True
  | refused _ _ => True
  | _ => False

/-- **What a check can do** once the nonce is renewed: it may take the name of the user, if there is none yet, and
looks at the key of a request that has all the rest. -/
structure CheckSpec (h : Hmac) (ss : AuthState) (req : AuthRequest) (canResume : Bool) (v : Verdict)
    (ss' : AuthState) : Prop where
  realm : ss'.realm = ss.realm
  hmackey : ss'.hmackey = ss.hmackey
  nonce : ss'.nonce = ss.nonce ∧ ss'.nonceExpirationTime = ss.nonceExpirationTime
  username : ss'.username = ss.username ∨ ss.username = []
  verdict : v.IsError ∨ (req.Presents ss' ∧ v = checkKey h ss' req ss'.username canResume)

section Check

variable {h : Hmac} {srv : AuthServer} {ctime : Nat} {fresh : Nonce} {ss ss' : AuthState} {req : AuthRequest}
  {usname : List Byte} {newNonce canResume : Bool} {v : Verdict}

@[simp] theorem renewNonce_realm : (renewNonce srv ctime fresh ss).realm = ss.realm := by
  unfold renewNonce
  split <;> rfl

@[simp] theorem renewNonce_username : (renewNonce srv ctime fresh ss).username = ss.username := by
  unfold renewNonce
  split <;> rfl

@[simp] theorem renewNonce_hmackey : (renewNonce srv ctime fresh ss).hmackey = ss.hmackey := by
  unfold renewNonce
  split <;> rfl

theorem checkKey_cases (h : Hmac) (ss : AuthState) (req : AuthRequest) (usname : List Byte) (canResume : Bool) :
    (checkKey h ss req usname canResume = .passed true ∧ ∃ key, ss.hmackey = some key ∧ req.SignedWith h key) ∨
      (checkKey h ss req usname canResume = .postponed usname ∧ canResume = true) ∨
      checkKey h ss req usname canResume = .challenge 401 none := by
  unfold checkKey
  dsimp only
  split
  · rename_i hright
    obtain ⟨key, hkey, hsigned⟩ := (Option.any_eq_true _ _).mp hright
    exact .inl ⟨rfl, key, hkey, of_decide_eq_true hsigned⟩
  · split
    · rename_i hresume
      exact .inr (.inl ⟨rfl, hresume⟩)
    · exact .inr (.inr rfl)

theorem checkKey_signed {key : List Byte} (hkey : ss.hmackey = some key) (hsigned : req.SignedWith h key) :
    checkKey h ss req usname canResume = .passed true := by
  have hright : (ss.hmackey.any fun key => decide (1 ≤ checkIntegrity h (.longTerm key) req.buf req.len .sha1)) := by
    rw [hkey]
    exact decide_eq_true hsigned
  unfold checkKey
  dsimp only
  rw [if_pos hright]

/-- An error changes nothing else. -/
theorem checkSpec_error (he : v.IsError) : CheckSpec h ss req canResume v ss :=
  ⟨rfl, rfl, ⟨rfl, rfl⟩, .inl rfl, .inl he⟩

theorem checkNonce_spec (hsigned : req.IsSigned) (hname : req.usname = some ss.username)
    (hsecure : isSecureUsername ss.username = true) (hrealm : req.realm = some ss.realm)
    (hv : checkNonce h ss newNonce req ss.username canResume = v) : CheckSpec h ss req canResume v ss := by
  unfold checkNonce at hv
  split at hv
  · exact checkSpec_error (hv ▸ trivial)
  · rename_i nonce hnonce
    split at hv
    · exact checkSpec_error (hv ▸ trivial)
    · split at hv
      · exact checkSpec_error (hv ▸ trivial)
      · rename_i heq
        obtain ⟨n, hn, rfl⟩ := Option.map_eq_some_iff.mp (not_not.mp heq)
        exact ⟨rfl, rfl, ⟨rfl, rfl⟩, .inl rfl, .inr ⟨⟨hsigned, hrealm, hname, hsecure, n, hn, hnonce⟩, hv.symm⟩⟩

theorem checkUsername_spec (hsigned : req.IsSigned) (hrealm : req.realm = some ss.realm)
    (hv : checkUsername h ss newNonce req canResume = (v, ss')) : CheckSpec h ss req canResume v ss' := by
  have hrefused : ∀ {code reason}, (Verdict.refused code reason, ss) = (v, ss') →
      CheckSpec h ss req canResume v ss' := by
    intro code reason heq
    cases heq
    exact checkSpec_error trivial
  unfold checkUsername at hv
  split at hv
  · exact hrefused hv
  · rename_i usname hname
    split at hv
    · exact hrefused hv
    · rename_i hsecure
      split at hv
      · split at hv
        · exact hrefused hv
        · exact hrefused hv
      · rename_i hsame
        obtain ⟨hnonce, rfl⟩ := Prod.mk.inj hv
        have huser : usname = ss.username ∨ ss.username = [] := by
          by_cases hempty : ss.username = []
          · exact .inr hempty
          · exact .inl (not_not.mp fun hne => hsame ⟨hempty, Ne.symm hne⟩)
        have hspec : CheckSpec h { ss with username := usname } req canResume v { ss with username := usname } :=
          checkNonce_spec hsigned hname (Bool.eq_true_of_not_eq_false hsecure) hrealm hnonce
        exact ⟨rfl, rfl, ⟨rfl, rfl⟩, huser, hspec.verdict⟩

theorem checkRealm_spec (hsigned : req.IsSigned) (hv : checkRealm h ss newNonce req canResume = (v, ss')) :
    CheckSpec h ss req canResume v ss' := by
  have hrefused : ∀ {code reason}, (Verdict.refused code reason, ss) = (v, ss') →
      CheckSpec h ss req canResume v ss' := by
    intro code reason heq
    cases heq
    exact checkSpec_error trivial
  unfold checkRealm at hv
  split at hv
  · exact hrefused hv
  · rename_i realm hrealm
    split at hv
    · split at hv
      · exact hrefused hv
      · exact hrefused hv
    · rename_i heq
      rw [not_not.mp heq] at hrealm
      exact checkUsername_spec hsigned hrealm hv

/-- **One check.** -/
theorem checkStunAuth_spec (hv : checkStunAuth h srv ctime fresh ss req canResume = (v, ss')) :
    (v = .passed false ∧ ss' = ss) ∨ CheckSpec h (renewNonce srv ctime fresh ss) req canResume v ss' := by
  have hchallenge : (Verdict.challenge 401 none, renewNonce srv ctime fresh ss) = (v, ss') →
      CheckSpec h (renewNonce srv ctime fresh ss) req canResume v ss' := by
    intro heq
    cases heq
    exact checkSpec_error trivial
  unfold checkStunAuth at hv
  split at hv
  · cases hv
    exact .inl ⟨rfl, rfl⟩
  · dsimp only at hv
    split at hv
    · exact .inr (hchallenge hv)
    · rename_i sar hsar
      split at hv
      · exact .inr (hchallenge hv)
      · rename_i hlen
        exact .inr (checkRealm_spec ⟨sar, hsar, not_not.mp hlen⟩ hv)

/-- A request that has all that the session asks for comes to its key. -/
theorem checkStunAuth_presents (hp : req.Presents ss) (hlong : srv.longTerm = true)
    (hnonce : srv.staleNonce = false ∨ ctime ≤ ss.nonceExpirationTime) :
    checkStunAuth h srv ctime fresh ss req canResume = (checkKey h ss req ss.username canResume, ss) := by
  obtain ⟨⟨sar, hsar, hlen⟩, hrealm, husname, hsecure, n, hn, hreq⟩ := hp
  have hrenew : renewNonce srv ctime fresh ss = ss := by
    unfold renewNonce
    rw [hn]
    rcases hnonce with hstale | htime
    · simp [hstale]
    · simp [not_lt.mpr htime]
  unfold checkStunAuth
  rw [if_neg (by simp [hlong])]
  dsimp only
  rw [hrenew, hsar]
  dsimp only
  rw [if_neg (not_not.mpr hlen), checkRealm, hrealm]
  dsimp only
  rw [if_neg (not_not.mpr rfl), checkUsername, husname]
  dsimp only
  rw [if_neg (by simp [hsecure]), if_neg (fun hne => hne.2 rfl), checkNonce, hreq]
  dsimp only
  rw [if_neg (by simp [hn]), if_neg (by simp [hn])]

/-- A request that passes is signed with the key of the session. -/
theorem passed_presents (hv : checkStunAuth h srv ctime fresh ss req canResume = (.passed true, ss')) :
    req.Presents ss' ∧ ∃ key, ss'.hmackey = some key ∧ req.SignedWith h key := by
  obtain ⟨heq, -⟩ | hspec := checkStunAuth_spec hv
  · cases heq
  · obtain herr | ⟨hpres, heq⟩ := hspec.verdict
    · exact herr.elim
    · obtain ⟨-, hkey⟩ | ⟨hkey, -⟩ | hkey := checkKey_cases h ss' req ss'.username canResume
      · exact ⟨hpres, hkey⟩
      · cases heq.trans hkey
      · cases heq.trans hkey

/-- A request that is postponed waits for the key of the session's user. -/
theorem postponed_presents (hv : checkStunAuth h srv ctime fresh ss req canResume = (.postponed usname, ss')) :
    req.Presents ss' ∧ usname = ss'.username := by
  obtain ⟨heq, -⟩ | hspec := checkStunAuth_spec hv
  · cases heq
  · obtain herr | ⟨hpres, heq⟩ := hspec.verdict
    · exact herr.elim
    · obtain ⟨hkey, -⟩ | ⟨hkey, -⟩ | hkey := checkKey_cases h ss' req ss'.username canResume
      · cases heq.trans hkey
      · cases heq.trans hkey
        exact ⟨hpres, rfl⟩
      · cases heq.trans hkey

theorem postponed_longTerm (hv : checkStunAuth h srv ctime fresh ss req canResume = (.postponed usname, ss')) :
    srv.longTerm = true := by
  refine Bool.eq_true_of_not_eq_false fun hshort => ?_
  unfold checkStunAuth at hv
  rw [if_pos hshort] at hv
  cases hv

end Check

/-! ## Where the keys come from -/

/-- The key of the session, and those that are on their way to it, are keys that were given (`G`) for its user or
for the user without a name. -/
structure KeysFrom (G : List Byte → List Byte → Prop) (ss : AuthState) (waiting : Nat → Option AuthMessage) :
    Prop where
  kept : ∀ key, ss.hmackey = some key → ∃ u, (u = ss.username ∨ u = []) ∧ G u key
  users : ∀ id p, waiting id = some p → p.username = ss.username ∨ p.username = []
  answers : ∀ id p key, waiting id = some p → p.answer = some (some key) → G p.username key

section KeysFrom

variable {G G' : List Byte → List Byte → Prop} {h : Hmac} {ss ss' : AuthState} {req : AuthRequest} {v : Verdict}
  {canResume : Bool} {waiting : Nat → Option AuthMessage} {id : Nat} {p : AuthMessage}

theorem KeysFrom.mono (hk : KeysFrom G ss waiting) (hG : ∀ u key, G u key → G' u key) : KeysFrom G' ss waiting where
  kept key hkey := by
    obtain ⟨u, hu, hg⟩ := hk.kept key hkey
    exact ⟨u, hu, hG u key hg⟩
  users := hk.users
  answers id p key hp ha := hG _ _ (hk.answers id p key hp ha)

/-- A check. The name of the user changes only if there was none. -/
theorem KeysFrom.check {srv : AuthServer} {ctime : Nat} {fresh : Nonce} (hk : KeysFrom G ss waiting)
    (hs : CheckSpec h (renewNonce srv ctime fresh ss) req canResume v ss') : KeysFrom G ss' waiting := by
  have husername := hs.username
  have hhmackey := hs.hmackey
  rw [renewNonce_username] at husername
  rw [renewNonce_hmackey] at hhmackey
  have hname : ∀ u, u = ss.username ∨ u = [] → u = ss'.username ∨ u = [] := by
    rintro u (rfl | rfl)
    · rcases husername with heq | hempty
      · exact .inl heq.symm
      · exact .inr hempty
    · exact .inr rfl
  refine ⟨fun key hkey => ?_, fun id p hp => hname _ (hk.users id p hp), hk.answers⟩
  obtain ⟨u, hu, hg⟩ := hk.kept key (hhmackey ▸ hkey)
  exact ⟨u, hname u hu, hg⟩

/-- A request begins to wait, an answer comes, or a request no longer waits. -/
theorem KeysFrom.update (hk : KeysFrom G ss waiting) {o : Option AuthMessage}
    (hname : ∀ p, o = some p → p.username = ss.username ∨ p.username = [])
    (hkey : ∀ p key, o = some p → p.answer = some (some key) → G p.username key) :
    KeysFrom G ss (Function.update waiting id o) := by
  refine ⟨hk.kept, fun i p hp => ?_, fun i p key hp ha => ?_⟩
  · by_cases hi : i = id
    · subst hi
      rw [Function.update_self] at hp
      exact hname p hp
    · rw [Function.update_of_ne hi] at hp
      exact hk.users i p hp
  · by_cases hi : i = id
    · subst hi
      rw [Function.update_self] at hp
      exact hkey p key hp ha
    · rw [Function.update_of_ne hi] at hp
      exact hk.answers i p key hp ha

/-- The key of a request that has waited is kept. -/
theorem KeysFrom.setKey (hk : KeysFrom G ss waiting) (hp : waiting id = some p) {key : Option (List Byte)}
    (ha : p.answer = some key) : KeysFrom G (ss.setKey key) waiting := by
  cases key with
  | none => exact hk
  | some key =>
    refine ⟨fun k hkey => ?_, hk.users, hk.answers⟩
    cases hkey
    exact ⟨p.username, hk.users id p hp, hk.answers id p key hp ha⟩

end KeysFrom

section Runs

variable {D : Type} {h : Hmac} {srv : AuthServer} {userKey : D → List Byte → List Byte → Option (List Byte)}
  {σ₀ σ σ' : AuthSys D} {evs : List (AuthEvent D)} {e : AuthEvent D} {u key : List Byte}

/-- The runs of the system. -/
abbrev AuthRuns (h : Hmac) (srv : AuthServer) (userKey : D → List Byte → List Byte → Option (List Byte)) :=
  Steps (AuthSys.Step h srv userKey) Any

/-- The database has the key `key` for the user `u` in some state of a run with the events `evs`. -/
def Given (h : Hmac) (srv : AuthServer) (userKey : D → List Byte → List Byte → Option (List Byte)) (σ₀ : AuthSys D)
    (evs : List (AuthEvent D)) (u key : List Byte) : Prop :=
  ∃ before after σ, evs = before ++ after ∧ AuthRuns h srv userKey σ₀ before σ ∧
    userKey σ.users u σ₀.ss.realm = some key

theorem Given.append (hg : Given h srv userKey σ₀ evs u key) (es : List (AuthEvent D)) :
    Given h srv userKey σ₀ (evs ++ es) u key := by
  obtain ⟨before, after, σ, rfl, hrun, hkey⟩ := hg
  exact ⟨before, after ++ es, σ, List.append_assoc .., hrun, hkey⟩

@[simp] theorem setKey_realm (ss : AuthState) (key : Option (List Byte)) : (ss.setKey key).realm = ss.realm := by
  cases key <;> rfl

@[simp] theorem setKey_username (ss : AuthState) (key : Option (List Byte)) :
    (ss.setKey key).username = ss.username := by
  cases key <;> rfl

/-- A check that is made, for the step lemmas. -/
theorem checked_realm {ctime : Nat} {fresh : Nonce} {ss ss' : AuthState} {req : AuthRequest} {canResume : Bool}
    {v : Verdict} (hv : checkStunAuth h srv ctime fresh ss req canResume = (v, ss')) : ss'.realm = ss.realm := by
  obtain ⟨-, rfl⟩ | hspec := checkStunAuth_spec hv
  · rfl
  · exact hspec.realm.trans renewNonce_realm

theorem realm_step (hst : AuthSys.Step h srv userKey σ e σ') : σ'.ss.realm = σ.ss.realm := by
  cases hst with
  | receive hv => exact checked_realm hv
  | lookup => rfl
  | resume hp ha hv => exact (checked_realm hv).trans (setKey_realm _ _)
  | users => rfl
  | tick => rfl

theorem realm_run (hrun : AuthRuns h srv userKey σ₀ evs σ) : σ.ss.realm = σ₀.ss.realm :=
  hrun.inv (I := fun σ => σ.ss.realm = σ₀.ss.realm) (fun _ _ _ hi _ hst => (realm_step hst).trans hi) rfl

/-- The key that is kept when a check is over. -/
theorem keysFrom_checked {G : List Byte → List Byte → Prop} {ctime : Nat} {fresh : Nonce} {ss ss' : AuthState}
    {req : AuthRequest} {canResume : Bool} {v : Verdict} {waiting : Nat → Option AuthMessage}
    (hv : checkStunAuth h srv ctime fresh ss req canResume = (v, ss')) (hk : KeysFrom G ss waiting) :
    KeysFrom G ss' waiting := by
  obtain ⟨-, rfl⟩ | hspec := checkStunAuth_spec hv
  · exact hk
  · exact hk.check hspec

/-- **One step** keeps that. -/
theorem keysFrom_step {G : List Byte → List Byte → Prop} (hst : AuthSys.Step h srv userKey σ e σ')
    (hk : KeysFrom G σ.ss σ.waiting) (hG : ∀ u key, userKey σ.users u σ.ss.realm = some key → G u key) :
    KeysFrom G σ'.ss σ'.waiting := by
  cases hst with
  | @receive req fresh v ss hv =>
    have hchecked := keysFrom_checked hv hk
    cases v with
    | postponed usname =>
      refine hchecked.update (fun p hp => ?_) (fun p key hp ha => ?_)
      · cases hp
        exact .inl (postponed_presents hv).2
      · cases hp
        cases ha
    | _ => exact hchecked
  | @lookup id p hp ha =>
    refine hk.update (fun q hq => ?_) (fun q key hq hkey => ?_)
    · cases hq
      exact hk.users id p hp
    · cases hq
      exact hG _ _ (Option.some.inj hkey)
  | resume hp ha hv => exact (keysFrom_checked hv (hk.setKey hp ha)).update nofun nofun
  | users => exact hk
  | tick => exact hk

/-- A request that passes, in one step. -/
theorem passed_step {G : List Byte → List Byte → Prop} {req : AuthRequest} (hst : AuthSys.Step h srv userKey σ e σ')
    (hpass : e.answer = some (req, .passed true)) (hk : KeysFrom G σ.ss σ.waiting) :
    req.Presents σ'.ss ∧ ∃ u key, (u = σ'.ss.username ∨ u = []) ∧ req.SignedWith h key ∧ G u key := by
  have hchecked : ∀ {ss fresh canResume}, checkStunAuth h srv σ.ctime fresh ss req canResume = (.passed true, σ'.ss) →
      KeysFrom G ss σ.waiting →
      req.Presents σ'.ss ∧ ∃ u key, (u = σ'.ss.username ∨ u = []) ∧ req.SignedWith h key ∧ G u key := by
    intro ss fresh canResume hv hkeys
    obtain ⟨hpres, key, hkey, hsigned⟩ := passed_presents hv
    obtain ⟨u, hu, hgiven⟩ := (keysFrom_checked hv hkeys).kept key hkey
    exact ⟨hpres, u, key, hu, hsigned, hgiven⟩
  cases hst with
  | receive hv =>
    cases hpass
    exact hchecked hv hk
  | resume hp ha hv =>
    cases hpass
    exact hchecked hv (hk.setKey hp ha)
  | lookup => cases hpass
  | users => cases hpass
  | tick => cases hpass

theorem keysFrom_new (G : List Byte → List Byte → Prop) (realm : List Byte) (users : D) (ctime : Nat) :
    KeysFrom G (AuthSys.new realm users ctime).ss (AuthSys.new realm users ctime).waiting := by
  refine ⟨fun key hkey => ?_, fun id p hp => ?_, fun id p key hp _ => ?_⟩
  · cases hkey
  · cases hp
  · cases hp

/-- **Every run** of a new session. -/
theorem keysFrom_run {realm : List Byte} {users : D} {ctime : Nat}
    (hrun : AuthRuns h srv userKey (.new realm users ctime) evs σ) :
    KeysFrom (Given h srv userKey (.new realm users ctime) evs) σ.ss σ.waiting := by
  refine Steps.history (I := fun evs σ => KeysFrom (Given h srv userKey (.new realm users ctime) evs) σ.ss σ.waiting)
    (keysFrom_new _ realm users ctime) ?_ hrun
  intro evs σ e σ' hbefore _ hst hk
  refine keysFrom_step hst (hk.mono fun u key hg => hg.append [e]) fun u key hkey => ?_
  rw [realm_run hbefore] at hkey
  exact ⟨evs, [e], σ, rfl, hbefore, hkey⟩

end Runs

/-- **Who passes.** In every run of a session with requests that bind no connection, a request passes only with the
nonce, the realm and the name of the user that the session has, and signed with a key that the database has had
before: for this user, or for the user without a name. -/
theorem passed_request_signed {D : Type} (h : Hmac) (srv : AuthServer)
    (userKey : D → List Byte → List Byte → Option (List Byte)) (realm : List Byte) (users : D) (ctime : Nat)
    {evs : List (AuthEvent D)} {e : AuthEvent D} {σ σ' : AuthSys D} {req : AuthRequest}
    (hrun : AuthRuns h srv userKey (.new realm users ctime) evs σ) (hst : AuthSys.Step h srv userKey σ e σ')
    (hpass : e.answer = some (req, .passed true)) :
    req.realm = some realm ∧ req.HasNonce σ'.ss ∧ req.usname = some σ'.ss.username ∧
      ∃ u key, (u = σ'.ss.username ∨ u = []) ∧ req.SignedWith h key ∧
        Given h srv userKey (.new realm users ctime) evs u key := by
  obtain ⟨hpres, hsigned⟩ := passed_step hst hpass (keysFrom_run hrun)
  exact ⟨hpres.realm.trans (congrArg some ((realm_step hst).trans (realm_run hrun))), hpres.nonce, hpres.usname, hsigned⟩

/-! ## The user without a name -/

/-- The key of the user without a name, in the realm `orange.com`, with the password `pw`. -/
def namelessKey : List Byte :=
  [0xC1, 0x3A, 0x0A, 0xD5, 0xF1, 0xAE, 0x94, 0xAF,
   0xC7, 0xEF, 0x76, 0x63, 0x45, 0x10, 0xA5, 0xB7]

/-- The HMAC with SHA-1 of the two requests below. -/
def namelessHmac : Hmac where
  mac shatype _ data :=
    match shatype with
    | .sha1 =>
      if data.length = 60 then
        [0xC0, 0xE2, 0x73, 0x4C, 0xD5, 0x00, 0x4F, 0xF4, 0x55, 0xFE,
         0x9C, 0x38, 0x24, 0x47, 0x6C, 0x24, 0x73, 0x64, 0x82, 0xD5]
      else
        [0x1F, 0x1F, 0x72, 0xCF, 0x0D, 0xF8, 0x47, 0x7D, 0x76, 0xE4,
         0x20, 0xF8, 0x34, 0x9C, 0xF8, 0x47, 0x60, 0xA9, 0x97, 0x09]
    | other => List.replicate other.size 0
  length shatype _ data := by
    cases shatype
    · dsimp only
      split <;> rfl
    all_goals simp [Shatype.size]

def sampleNonce : Nonce where
  bytes := ascii "0123456789abcdef"
  nonempty := by decide +kernel
  noZero := by decide +kernel

/-- A request of a user for an allocation, with `sampleNonce`, that is signed. -/
def sampleRequest (h : Hmac) (key : List Byte) (username : String) : AuthRequest :=
  let s := initCommand (makeRequest allocateMethod) 0 0
  let s := (addAll s [(usernameAttr, ascii username), (realmAttr, ascii "orange.com"),
    (nonceAttr, sampleNonce.bytes)]).getD s
  let s := (attrAddIntegrity h (.longTerm key) s .sha1).getD s
  ⟨s.buf, s.len, allocateMethod, by decide⟩

def namelessRequest (username : String) : AuthRequest := sampleRequest namelessHmac namelessKey username

/-- A table of users and their keys. -/
abbrev UserTable := List Byte → Option (List Byte)

/-- The keys of a table, in every realm. -/
def UserTable.userKey (users : UserTable) (usname _ : List Byte) : Option (List Byte) := users usname

/-- The only user is the one without a name. -/
def namelessOnly : UserTable := fun u => if u = [] then some namelessKey else none

def longTermServer : AuthServer := { longTerm := true, staleNonce := false }

/-- A session with its nonce. -/
def sampleSession (username : List Byte) (hmackey : Option (List Byte)) : AuthState where
  realm := ascii "orange.com"
  nonce := some sampleNonce
  nonceExpirationTime := 600
  username := username
  hmackey := hmackey

/-- The user without a name gets a nonce and passes. Then a request of `bob` passes with the same key, though
`bob` has none. -/
theorem passed_request_signed_nameless :
    ∃ (evs : List (AuthEvent UserTable)) (e : AuthEvent UserTable) (σ σ' : AuthSys UserTable),
      AuthRuns namelessHmac longTermServer UserTable.userKey (.new (ascii "orange.com") namelessOnly 0) evs σ ∧
      AuthSys.Step namelessHmac longTermServer UserTable.userKey σ e σ' ∧
      e.answer = some (namelessRequest "bob", .passed true) ∧ namelessOnly (ascii "bob") = none ∧
      (namelessRequest "bob").HasNonce σ'.ss ∧ σ'.ss.username = ascii "bob" := by
  have hfirst : checkStunAuth namelessHmac longTermServer 0 sampleNonce
      (AuthSys.new (ascii "orange.com") namelessOnly 0).ss (namelessRequest "") true =
      (.challenge 438 (some "Wrong nonce"), sampleSession [] none) := by decide +kernel
  have hsecond : checkStunAuth namelessHmac longTermServer 0 sampleNonce (sampleSession [] none)
      (namelessRequest "") true = (.postponed [], sampleSession [] none) := by decide +kernel
  have hresumed : checkStunAuth namelessHmac longTermServer 0 sampleNonce
      ((sampleSession [] none).setKey (some namelessKey)) (namelessRequest "") false =
      (.passed true, sampleSession [] (some namelessKey)) := by decide +kernel
  have hbob : checkStunAuth namelessHmac longTermServer 0 sampleNonce (sampleSession [] (some namelessKey))
      (namelessRequest "bob") true = (.passed true, sampleSession (ascii "bob") (some namelessKey)) := by
    decide +kernel
  obtain ⟨evs, σ, hrun, hss, hctime⟩ : ∃ evs σ, AuthRuns namelessHmac longTermServer UserTable.userKey
      (.new (ascii "orange.com") namelessOnly 0) evs σ ∧ σ.ss = sampleSession [] (some namelessKey) ∧ σ.ctime = 0 :=
    ⟨_, _, .cons trivial (.receive hfirst) (.cons trivial (.receive hsecond)
      (.cons trivial (@AuthSys.Step.lookup _ _ _ _ _ 1 _ rfl rfl)
        (.cons trivial (@AuthSys.Step.resume _ _ _ _ _ 1 _ (some namelessKey) _ _ _ rfl rfl hresumed) (.nil _)))),
      rfl, rfl⟩
  rw [← hss, ← hctime] at hbob
  have hst : AuthSys.Step namelessHmac longTermServer UserTable.userKey σ
      (.receive (namelessRequest "bob") sampleNonce (.passed true)) _ := .receive hbob
  obtain ⟨-, hnonce, -⟩ := passed_request_signed namelessHmac longTermServer _ _ _ _ hrun hst rfl
  exact ⟨_, _, _, _, hrun, hst, rfl, by decide +kernel, hnonce, rfl⟩

/-! ## Requests that wait -/

section Waiting

variable {D : Type} {h : Hmac} {srv : AuthServer} {userKey : D → List Byte → List Byte → Option (List Byte)}
  {σ σ' : AuthSys D} {evs : List (AuthEvent D)} {e : AuthEvent D} {id : Nat} {P : AuthMessage → Prop}
  {usname : List Byte} {n : Nonce}

/-- The request with this number has come, and meets `P` as long as it waits. -/
def AuthSys.Waits (id : Nat) (P : AuthMessage → Prop) (σ : AuthSys D) : Prop :=
  id < σ.next ∧ ∀ p, σ.waiting id = some p → P p

theorem waits_step (hP : ∀ p key, P p → p.answer = none → P { p with answer := some key })
    (hst : AuthSys.Step h srv userKey σ e σ') (hw : σ.Waits id P) : σ'.Waits id P := by
  obtain ⟨hlt, hp⟩ := hw
  cases hst with
  | @receive req fresh v ss hv =>
    refine ⟨Nat.lt_succ_of_lt hlt, fun p hw => hp p ?_⟩
    cases v with
    | postponed usname =>
      dsimp only [AuthSys.postpone] at hw
      rwa [Function.update_of_ne hlt.ne] at hw
    | _ => exact hw
  | @lookup id' q hq ha =>
    refine ⟨hlt, fun p hw => ?_⟩
    by_cases hid : id = id'
    · subst hid
      dsimp only at hw
      rw [Function.update_self] at hw
      cases hw
      exact hP q _ (hp q hq) ha
    · dsimp only at hw
      rw [Function.update_of_ne hid] at hw
      exact hp p hw
  | @resume id' q key fresh v ss hq ha hv =>
    refine ⟨hlt, fun p hw => ?_⟩
    by_cases hid : id = id'
    · subst hid
      dsimp only at hw
      rw [Function.update_self] at hw
      cases hw
    · dsimp only at hw
      rw [Function.update_of_ne hid] at hw
      exact hp p hw
  | users => exact ⟨hlt, hp⟩
  | tick => exact ⟨hlt, hp⟩

theorem waits_run (hP : ∀ p key, P p → p.answer = none → P { p with answer := some key })
    (hrun : AuthRuns h srv userKey σ evs σ') (hw : σ.Waits id P) : σ'.Waits id P :=
  hrun.inv (I := AuthSys.Waits id P) (fun _ _ _ hw _ hst => waits_step hP hst hw) hw

/-- The session has this user, and this nonce as long as it is not too old. -/
structure AuthState.Stays (srv : AuthServer) (usname : List Byte) (n : Nonce) (expires ctime : Nat) (ss : AuthState) :
    Prop where
  username : ss.username = usname
  nonce : (ss.nonce = some n ∧ ss.nonceExpirationTime = expires) ∨ (srv.staleNonce = true ∧ expires < ctime)

theorem renewNonce_cases (srv : AuthServer) (ctime : Nat) (fresh : Nonce) (ss : AuthState) :
    renewNonce srv ctime fresh ss = ss ∨ ss.nonce = none ∨
      (srv.staleNonce = true ∧ ss.nonceExpirationTime < ctime) := by
  unfold renewNonce
  split
  · rename_i hcond
    rw [Bool.or_eq_true, Option.isNone_iff_eq_none, Bool.and_eq_true, decide_eq_true_eq] at hcond
    exact .inr hcond
  · exact .inl rfl

theorem stays_checked {ctime expires : Nat} {fresh : Nonce} {ss ss' : AuthState} {req : AuthRequest}
    {canResume : Bool} {v : Verdict} (hv : checkStunAuth h srv ctime fresh ss req canResume = (v, ss'))
    (hname : usname ≠ []) (hs : ss.Stays srv usname n expires ctime) : ss'.Stays srv usname n expires ctime := by
  obtain ⟨-, rfl⟩ | hspec := checkStunAuth_spec hv
  · exact hs
  · have huser := hspec.username
    rw [renewNonce_username, hs.username] at huser
    refine ⟨huser.resolve_right hname, ?_⟩
    rw [hspec.nonce.1, hspec.nonce.2]
    obtain ⟨hn, hexp⟩ | hold := hs.nonce
    · obtain hsame | hnone | ⟨hstale, hlt⟩ := renewNonce_cases srv ctime fresh ss
      · rw [hsame]
        exact .inl ⟨hn, hexp⟩
      · rw [hn] at hnone
        cases hnone
      · exact .inr ⟨hstale, hexp ▸ hlt⟩
    · exact .inr hold

theorem stays_step {expires : Nat} (hname : usname ≠ []) (hst : AuthSys.Step h srv userKey σ e σ')
    (hs : σ.ss.Stays srv usname n expires σ.ctime) : σ'.ss.Stays srv usname n expires σ'.ctime := by
  cases hst with
  | receive hv => exact stays_checked hv hname hs
  | lookup => exact hs
  | @resume id p key fresh v ss hp ha hv =>
    refine stays_checked hv hname ?_
    cases key with
    | none => exact hs
    | some key => exact ⟨hs.username, hs.nonce⟩
  | users => exact hs
  | tick seconds =>
    refine ⟨hs.username, hs.nonce.imp_right fun hold => ⟨hold.1, ?_⟩⟩
    exact Nat.lt_add_right seconds hold.2

theorem stays_run {expires : Nat} (hname : usname ≠ []) (hrun : AuthRuns h srv userKey σ evs σ')
    (hs : σ.ss.Stays srv usname n expires σ.ctime) : σ'.ss.Stays srv usname n expires σ'.ctime :=
  hrun.inv (I := fun σ => σ.ss.Stays srv usname n expires σ.ctime) (fun _ _ _ hs _ hst => stays_step hname hst hs) hs

/-- **Inversion of a lookup.** -/
theorem lookup_cases (hst : AuthSys.Step h srv userKey σ (.lookup id) σ') : ∃ p, σ.waiting id = some p ∧
    p.answer = none ∧ σ' = { σ with
      waiting := Function.update σ.waiting id
        (some { p with answer := some (userKey σ.users p.username σ.ss.realm) }) } := by
  cases hst with
  | lookup hp ha => exact ⟨_, hp, ha, rfl⟩

end Waiting

/-- **Who is let in.** Whatever happens between its steps: if a request has to wait, and the key that is looked up
for its user is the one that it was signed with, it passes when the answer comes, unless the nonce has become too
old. -/
theorem right_key_passes {D : Type} (h : Hmac) (srv : AuthServer)
    (userKey : D → List Byte → List Byte → Option (List Byte)) {σ σ₁ σ₂ σ₃ σ₄ σ₅ : AuthSys D}
    {req req' : AuthRequest} {fresh fresh' : Nonce} {usname key : List Byte} {mid mid' : List (AuthEvent D)}
    {v : Verdict} (hrecv : AuthSys.Step h srv userKey σ (.receive req fresh (.postponed usname)) σ₁)
    (hmid : AuthRuns h srv userKey σ₁ mid σ₂) (hlook : AuthSys.Step h srv userKey σ₂ (.lookup σ.next) σ₃)
    (hmid' : AuthRuns h srv userKey σ₃ mid' σ₄)
    (hres : AuthSys.Step h srv userKey σ₄ (.resume σ.next req' fresh' v) σ₅) (hname : usname ≠ [])
    (hkey : userKey σ₂.users usname σ₂.ss.realm = some key) (hsigned : req.SignedWith h key)
    (hnonce : srv.staleNonce = false ∨ σ₄.ctime ≤ σ₁.ss.nonceExpirationTime) :
    req' = req ∧ v = .passed true := by
  cases hrecv with
  | @receive _ _ _ ss hv =>
  obtain ⟨hpres, rfl⟩ := postponed_presents hv
  obtain ⟨n, hn, hreq⟩ := hpres.nonce
  -- The request waits until its key is looked up.
  have hwait₁ : AuthSys.Waits σ.next (fun p => p.req = req ∧ p.username = ss.username)
      { σ with ss := ss, waiting := σ.postpone req (.postponed ss.username), next := σ.next + 1 } := by
    refine ⟨Nat.lt_succ_self _, fun p hp => ?_⟩
    dsimp only [AuthSys.postpone] at hp
    rw [Function.update_self] at hp
    cases hp
    exact ⟨rfl, rfl⟩
  have hwait₂ := waits_run (fun p key hp _ => hp) hmid hwait₁
  obtain ⟨p, hp, ha, rfl⟩ := lookup_cases hlook
  obtain ⟨hpreq, hpname⟩ := hwait₂.2 p hp
  -- From then on, it waits with this key.
  have hwait₃ : AuthSys.Waits σ.next
      (fun p => p.req = req ∧ p.answer = some (some key))
      { σ₂ with
        waiting := Function.update σ₂.waiting σ.next
          (some { p with answer := some (userKey σ₂.users p.username σ₂.ss.realm) }) } := by
    refine ⟨hwait₂.1, fun q hq => ?_⟩
    dsimp only at hq
    rw [Function.update_self] at hq
    cases hq
    exact ⟨hpreq, by rw [hpname, hkey]⟩
  have hwait₄ := waits_run (fun p k hp hnone => absurd (hp.2.symm.trans hnone) nofun) hmid' hwait₃
  -- The session keeps the user and the nonce.
  have hstay₂ := stays_run hname hmid ⟨rfl, .inl ⟨hn, rfl⟩⟩
  have hstay₄ := stays_run hname hmid' hstay₂
  have hrealm : σ₄.ss.realm = ss.realm := (realm_run hmid').trans (realm_run hmid)
  cases hres with
  | @resume _ q k _ _ ss' hq hqa hv' =>
    obtain ⟨hqreq, hqkey⟩ := hwait₄.2 q hq
    obtain rfl : k = some key := Option.some.inj (hqa.symm.trans hqkey)
    obtain ⟨hn₄, hexp⟩ : σ₄.ss.nonce = some n ∧ σ₄.ss.nonceExpirationTime = ss.nonceExpirationTime := by
      refine hstay₄.nonce.resolve_right fun hold => ?_
      rcases hnonce with hstale | htime
      · rw [hstale] at hold
        cases hold.1
      · exact absurd hold.2 (not_lt.mpr htime)
    have hpres₄ : q.req.Presents (σ₄.ss.setKey (some key)) := by
      rw [hqreq]
      refine ⟨hpres.signed, hpres.realm.trans (congrArg some hrealm.symm), ?_, ?_, n, hn₄, hreq⟩
      · exact hpres.usname.trans (congrArg some hstay₄.username.symm)
      · exact (congrArg isSecureUsername hstay₄.username).trans hpres.secure
    have hfresh : srv.staleNonce = false ∨ σ₄.ctime ≤ (σ₄.ss.setKey (some key)).nonceExpirationTime :=
      hnonce.imp_right fun htime => htime.trans hexp.ge
    rw [checkStunAuth_presents hpres₄ (postponed_longTerm hv) hfresh] at hv'
    refine ⟨hqreq, ?_⟩
    rw [← (Prod.mk.inj hv').1, checkKey_signed rfl (hqreq ▸ hsigned)]

end Stun
end Turn
end QosSupport
