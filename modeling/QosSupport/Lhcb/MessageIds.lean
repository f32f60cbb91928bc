import QosSupport.Lhcb.RequestHandler
import QosSupport.Lib.Run

/-!
# The ids of messages

* `agree_iff`: exactly when the same fields are decoded to the same message from parameters and from
  text. An id that is absent is `0` in the first case and the next automatic one in the second.
* `Requests`: the requests that were decoded and not answered yet, with the order in which their
  automatic ids were assigned.
* `unused_iff`: in every reachable state, exactly when the next automatic id is unused. Ids that were
  assigned automatically are never in its way (`inOrder_of_runs`), ids that the clients chose may be.
-/

namespace QosSupport
namespace Lhcb

/-! ## Parameters and text -/

/-- The fields of a request with a valid type, as texts. -/
structure Fields where
  type : MessageType
  client : Option String
  mid : Option String

/-- The members of an object are these fields. -/
structure Carries (fields : Fields) (ms : Members) : Prop where
  type : ∃ name, ms.lookup "type" = some (.str name) ∧ MessageType.ofName name = some fields.type
  client : ms.lookup "client" = fields.client.map .str
  mid : ms.lookup "mid" = fields.mid.map .str

/-- Both decoders return the same message and leave the same next id, or both refuse the message. -/
def Agree (r r' : Except Throwable Message × Int) : Prop :=
  (∃ msg msg', r.1 = .ok msg ∧ r'.1 = .ok msg' ∧ msg.cls = msg'.cls ∧ msg.type = msg'.type ∧
    msg.client = msg'.client ∧ msg.mid = msg'.mid ∧ r.2 = r'.2) ∨
  (∃ text text', r.1 = .error (.invalidMessage text) ∧ r'.1 = .error (.invalidMessage text'))

namespace Carries

variable {fields : Fields} {ms : Members}

theorem readType (h : Carries fields ms) :
    Message.readType (ms.lookup "type") = .ok (some fields.type) := by
  obtain ⟨name, hname, hof⟩ := h.type
  rw [hname, Message.readType, hof]

theorem readClient (h : Carries fields ms) :
    Message.readClient (ms.lookup "client") = .ok fields.client := by
  rw [h.client]
  cases fields.client <;> rfl

/-- Only the id may be malformed. -/
theorem reads (h : Carries fields ms) {mid : Int}
    (hmid : Message.readMid (fields.mid.map .str) = .ok mid) :
    Message.Reads ms (some fields.type) mid fields.client :=
  ⟨h.readType, h.mid ▸ hmid, h.readClient⟩

/-- An object with an id stays as it is. -/
theorem withMid (h : Carries fields ms) {s : String} (hs : fields.mid = some s) :
    Message.withMid ms = ms := by
  have hhas : ms.has "mid" = true := by simp [Members.has, h.mid, hs]
  rw [Message.withMid, if_pos hhas]

/-- An object without an id gets `-1`. -/
theorem reads_withMid (h : Carries fields ms) (hs : fields.mid = none) :
    Message.Reads (Message.withMid ms) (some fields.type) (-1) fields.client := by
  constructor
  · rw [Message.lookup_withMid ms (by decide)]
    exact h.readType
  · rw [Message.lookup_mid, h.mid, hs]
    rfl
  · rw [Message.lookup_withMid ms (by decide)]
    exact h.readClient

end Carries

/-- Messages that differ in their value only get the same id. -/
theorem agree_assignId {msg msg' : Message} (hcls : msg.cls = msg'.cls) (htype : msg.type = msg'.type)
    (hclient : msg.client = msg'.client) (hmid : msg.mid = msg'.mid) (nextId : Int) :
    Agree (Message.assignId msg nextId) (Message.assignId msg' nextId) := by
  unfold Message.assignId Message.validate
  rw [hmid]
  split
  · by_cases hn : nextId < 0
    · simp only [hn, if_true]
      exact .inr ⟨_, _, rfl, rfl⟩
    · simp only [hn, if_false]
      exact .inl ⟨_, _, rfl, rfl, hcls, htype, hclient, rfl, rfl⟩
  · by_cases hn : msg'.mid < 0
    · simp only [hn, if_true]
      exact .inr ⟨_, _, rfl, rfl⟩
    · simp only [hn, if_false]
      exact .inl ⟨_, _, rfl, rfl, hcls, htype, hclient, hmid, rfl⟩

/-- **Parameters and text** with the same fields are decoded alike exactly if there is an id, and it is
an `int`. -/
theorem agree_iff (gson : Gson) (fields : Fields) (text : String) (ms : Members)
    (params : List (String × List String)) (ps : Members) (nextId : Int)
    (htext : gson.fromJson text = .ok (some ms)) (hms : Carries fields ms)
    (hparams : Message.firstValues params = .ok ps) (hps : Carries fields ps) :
    Agree (Message.fromParams params nextId) (Message.fromString gson text nextId) ↔
      ∃ s n, fields.mid = some s ∧ javaInt s = some n := by
  have hfrom : Message.fromParams params nextId = Message.fromMembers ps nextId := by
    simp only [Message.fromParams, hparams]
  rw [hfrom]
  cases hmid : fields.mid with
  | none =>
    -- The parameters give the id `0` and leave the counter, the text moves it on.
    have hp : Message.fromMembers ps nextId =
        (.ok (Message.ofFields ps fields.type 0 fields.client), nextId) := by
      rw [Message.fromMembers_decode (Message.decode_reads (hps.reads (by rw [hmid]; rfl)))]
      exact Message.assignId_own (Int.le_refl 0)
    have ht : Message.fromString gson text nextId = (Message.validate
        (Message.ofFields (Message.withMid ms) fields.type nextId fields.client), incNextId nextId) := by
      rw [Message.fromString_decode htext (Message.decode_reads (hms.reads_withMid hmid)) nextId]
      exact if_pos rfl
    rw [hp, ht]
    refine iff_of_false ?_ (by simp)
    rintro (⟨msg, msg', hm, hm', -, -, -, hid, hnext⟩ | ⟨e, e', he, -⟩)
    · cases hm
      obtain ⟨rfl, -⟩ := Message.validate_eq_ok.mp hm'
      have hzero : (0 : Int) = nextId := hid
      have hnext : nextId = incNextId nextId := hnext
      rw [← hzero] at hnext
      exact absurd hnext (by decide)
    · cases he
  | some s =>
    cases hint : javaInt s with
    | none =>
      have hbad : Message.Malformed ps := .inr (.inl (by rw [hps.mid, hmid]; simp [Message.readMid, hint]))
      rw [Message.fromMembers, Message.decode_malformed hbad]
      refine iff_of_false ?_ (by simp [hint])
      rintro (⟨msg, msg', hm, -⟩ | ⟨e, e', he, -⟩)
      · cases hm
      · cases he
    | some n =>
      have hread : Message.readMid (fields.mid.map .str) = .ok n := by
        rw [hmid]
        simp [Message.readMid, hint]
      have ht := Message.fromString_decode htext
        (Message.decode_reads ((hms.withMid hmid).symm ▸ hms.reads hread)) nextId
      rw [Message.fromMembers_decode (Message.decode_reads (hps.reads hread)), ht]
      refine iff_of_true ?_ ⟨s, n, rfl, hint⟩
      apply agree_assignId <;> rfl

/-- The parameters of a read request for the client `c`, with the id `5`. -/
def midParams : List (String × List String) := [("type", ["read"]), ("client", ["c"]), ("mid", ["5"])]

def midMembers : Members := [("type", .str "read"), ("client", .str "c"), ("mid", .str "5")]

def midText : String := "\x7b\"type\":\"read\",\"client\":\"c\",\"mid\":\"5\"\x7d"

/-- A request with an id is decoded alike. -/
theorem mid_agrees : Agree (Message.fromParams midParams 7)
    (Message.fromString (gsonFor midText midMembers) midText 7) := by
  have hcarries : Carries ⟨.read, some "c", some "5"⟩ midMembers := ⟨⟨"read", rfl, rfl⟩, rfl, rfl⟩
  exact (agree_iff (gsonFor midText midMembers) _ midText _ midParams _ 7 rfl hcarries rfl
    hcarries).mpr ⟨"5", 5, rfl, by decide⟩

/-- Without an id, the parameters give the id `0` and the text gives the next one. -/
theorem no_mid_differs :
    (Message.fromParams [("type", ["read"]), ("client", ["c"])] 7).1.toOption.map (·.mid) = some 0 ∧
    (Message.fromString sampleGson readText 7).1.toOption.map (·.mid) = some 7 ∧
    ¬ Agree (Message.fromParams [("type", ["read"]), ("client", ["c"])] 7)
      (Message.fromString sampleGson readText 7) := by
  refine ⟨rfl, rfl, ?_⟩
  rintro (⟨msg, msg', hm, hm', -, -, -, hid, -⟩ | ⟨e, e', he, -⟩)
  · cases hm
    cases hm'
    exact absurd hid (by decide)
  · cases he

/-! ## Requests that are not answered yet -/

/-- A request that was decoded: its id and, if this was assigned automatically, how many were assigned
before it. -/
structure Request where
  mid : Int
  auto : Option Nat

/-- The next automatic id, how many were assigned, and the requests that are not answered yet. -/
structure Requests where
  nextId : Int
  assigned : Nat
  outstanding : List Request

/-- No request yet. -/
def Requests.init : Requests := { nextId := 0, assigned := 0, outstanding := [] }

inductive RequestEvent where
  | decode (text : String)
  /-- The `i`-th request that is outstanding is answered. -/
  | answer (i : Nat)

/-- What `fromString` assigned, if the counter moved on. -/
def Requests.auto (s : Requests) (n : Int) : Option Nat :=
  if n = s.nextId then none else some s.assigned

/-- One event. A text that is not decoded leads to no request. -/
def Requests.next (gson : Gson) (s : Requests) : RequestEvent → Requests
  | .decode text =>
    let (r, n) := Message.fromString gson text s.nextId
    { nextId := n
      assigned := if n = s.nextId then s.assigned else s.assigned + 1
      outstanding := match r with
        | .ok msg => s.outstanding ++ [{ mid := msg.mid, auto := s.auto n }]
        | .error _ => s.outstanding }
  | .answer i => { s with outstanding := s.outstanding.eraseIdx i }

/-- The runs of requests and answers. -/
def Requests.step (gson : Gson) (s : Requests) (e : RequestEvent) (s' : Requests) : Prop :=
  s' = s.next gson e

/-- The automatic id that comes after `k` others. -/
def autoId (k : Nat) : Int := (k : Int) % (2 ^ 31 - 1)

theorem validId_autoId (k : Nat) : Message.ValidId (autoId k) := by
  unfold Message.ValidId autoId
  omega

theorem incNextId_autoId (k : Nat) : incNextId (autoId k) = autoId (k + 1) := by
  rw [Message.incNextId_eq (validId_autoId k)]
  unfold autoId
  push_cast
  split <;> omega

/-- Ids are not used again before all others were. -/
theorem autoId_ne {k j : Nat} (hlt : k < j) (hwin : j - k < 2 ^ 31 - 1) : autoId k ≠ autoId j := by
  unfold autoId
  omega

/-- The automatic ids are assigned in order. -/
structure Requests.InOrder (s : Requests) : Prop where
  nextId : s.nextId = autoId s.assigned
  outstanding : ∀ r ∈ s.outstanding, ∀ k, r.auto = some k → k < s.assigned ∧ r.mid = autoId k

namespace Requests

variable {gson : Gson} {s s' : Requests} {e : RequestEvent}

theorem inOrder_init : init.InOrder := ⟨rfl, by simp [init]⟩

/-- A text that is decoded moves the counter on, or leaves it. -/
theorem inOrder_decode (h : s.InOrder) (text : String) : (s.next gson (.decode text)).InOrder := by
  have hn := Message.fromString_nextId gson text s.nextId
  cases hr : Message.fromString gson text s.nextId with
  | mk r n =>
    rw [hr] at hn
    simp only at hn
    simp only [next, hr]
    by_cases hsame : n = s.nextId
    · -- No id was assigned, so a new request has its own one.
      subst hsame
      simp only [if_true, auto]
      refine ⟨h.nextId, fun x hx k hk => ?_⟩
      cases r with
      | error e => exact h.outstanding x hx k hk
      | ok msg =>
        rcases List.mem_append.mp hx with hx | hx
        · exact h.outstanding x hx k hk
        · cases List.mem_singleton.mp hx
          cases hk
    · have hinc : n = autoId (s.assigned + 1) := by
        rw [hn.resolve_left hsame, h.nextId, incNextId_autoId]
      simp only [if_neg hsame, auto]
      refine ⟨hinc, fun x hx k hk => ?_⟩
      have hold : x ∈ s.outstanding → k < s.assigned + 1 ∧ x.mid = autoId k := fun hx => by
        obtain ⟨hlt, hid⟩ := h.outstanding x hx k hk
        exact ⟨by omega, hid⟩
      cases r with
      | error e => exact hold hx
      | ok msg =>
        rcases List.mem_append.mp hx with hx | hx
        · exact hold hx
        · cases List.mem_singleton.mp hx
          cases hk
          exact ⟨Nat.lt_succ_self _, (Message.fromString_auto hr hsame).1.trans h.nextId⟩

theorem inOrder_step (h : s.InOrder) (hst : step gson s e s') : s'.InOrder := by
  obtain rfl := hst
  cases e with
  | decode text => exact inOrder_decode h text
  | answer i => exact ⟨h.nextId, fun r hr => h.outstanding r (List.mem_of_mem_eraseIdx hr)⟩

/-- In every reachable state the automatic ids were assigned in order. -/
theorem inOrder_of_runs {es : List RequestEvent} (h : Run.Steps (step gson) Run.Any init es s) :
    s.InOrder :=
  h.inv (fun _ _ _ hi _ hst => inOrder_step hi hst) inOrder_init

end Requests

/-- **The next automatic id** is unused, in every reachable state in which its window is not over,
exactly if no client chose it for a request that is still open. -/
theorem unused_iff (gson : Gson) (es : List RequestEvent) (s : Requests)
    (hrun : Run.Steps (Requests.step gson) Run.Any .init es s)
    (hwindow : ∀ r ∈ s.outstanding, ∀ k, r.auto = some k → s.assigned - k < 2 ^ 31 - 1)
    (text : String) (msg : Message) (n : Int)
    (hdec : Message.fromString gson text s.nextId = (.ok msg, n)) (hauto : n ≠ s.nextId) :
    (∀ r ∈ s.outstanding, r.mid ≠ msg.mid) ↔
      ∀ r ∈ s.outstanding, r.auto = none → r.mid ≠ s.nextId := by
  have horder := Requests.inOrder_of_runs hrun
  rw [(Message.fromString_auto hdec hauto).1]
  constructor
  · exact fun h r hr _ => h r hr
  · intro h r hr
    cases hr' : r.auto with
    | none => exact h r hr hr'
    | some k =>
      obtain ⟨hlt, hid⟩ := horder.outstanding r hr k hr'
      rw [hid, horder.nextId]
      exact autoId_ne hlt (hwindow r hr k hr')

/-- A request for which the client chose the id `0`. -/
def zeroText : String := "\x7b\"type\":\"read\",\"client\":\"c\",\"mid\":0\x7d"

/-- Gson, for this request and the one without an id. -/
def zeroGson : Gson where
  fromJson t :=
    if t = zeroText then .ok (some [("type", .str "read"), ("client", .str "c"), ("mid", .num "0")])
    else sampleGson.fromJson t
  text _ := "[]"
  date _ := "Jan 1, 1970 12:00:00 AM"

/-- Two requests without an id get different ones. -/
theorem second_id_unused :
    Message.fromString zeroGson readText (Requests.init.next zeroGson (.decode readText)).nextId =
      (.ok { readMsg with mid := 1 }, 2) ∧
    ∀ r ∈ (Requests.init.next zeroGson (.decode readText)).outstanding, r.mid ≠ 1 := by
  have hdec : Message.fromString zeroGson readText
      (Requests.init.next zeroGson (.decode readText)).nextId = (.ok { readMsg with mid := 1 }, 2) := rfl
  have hout : (Requests.init.next zeroGson (.decode readText)).outstanding = [⟨0, some 0⟩] := rfl
  refine ⟨hdec, (unused_iff zeroGson [.decode readText] _ (.one trivial rfl) ?_ readText _ 2 hdec
    (by decide)).mpr ?_⟩
  · rw [hout]
    rintro r hr k hk
    cases List.mem_singleton.mp hr
    cases hk
    decide
  · rw [hout]
    rintro r hr hno
    cases List.mem_singleton.mp hr
    cases hno

/-- A request without an id gets the one that a client chose for a request that is still open. -/
theorem chosen_id_reused :
    Run.Steps (Requests.step zeroGson) Run.Any .init [.decode zeroText]
      (Requests.init.next zeroGson (.decode zeroText)) ∧
    Message.fromString zeroGson readText (Requests.init.next zeroGson (.decode zeroText)).nextId =
      (.ok readMsg, 1) ∧
    ¬ ∀ r ∈ (Requests.init.next zeroGson (.decode zeroText)).outstanding, r.mid ≠ readMsg.mid := by
  refine ⟨.one trivial rfl, rfl, fun h => ?_⟩
  exact h ⟨0, none⟩ (List.mem_singleton.mpr rfl) rfl

end Lhcb
end QosSupport
