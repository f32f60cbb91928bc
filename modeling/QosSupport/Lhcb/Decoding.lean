import QosSupport.Lhcb.FrontEnds

/-!
# How decoding fails

`fromString` and `fromParams` are meant to refuse what they cannot decode with an
`InvalidMessageException`.

* `failsOneWay_iff`: exactly which texts and which parameters are decoded or refused that way. A text that
  is no JSON object, an object without a known type, and every parameter that cannot be read lead to
  another exception.
-/

namespace QosSupport
namespace Lhcb

/-- A message with a type and an id that is not negative, or an `InvalidMessageException`. -/
def FailsOneWay (r : Except Throwable Message) : Prop :=
  (∃ msg, r = .ok msg ∧ msg.type ≠ none ∧ 0 ≤ msg.mid) ∨ ∃ text, r = .error (.invalidMessage text)

/-- The object has a type that is known. -/
def Typed (ms : Members) : Prop := ∃ t, Message.readType (ms.lookup "type") = .ok (some t)

/-- The text is an object that has a type, or a field of the wrong kind. -/
def TextRead (gson : Gson) (text : String) : Prop :=
  ∃ ms, gson.fromJson text = .ok (some ms) ∧ (Typed ms ∨ Message.Malformed ms)

/-- The first value of a parameter. -/
def param (params : List (String × List String)) (name : String) : Option String :=
  (params.lookup name).bind List.head?

/-- Each parameter has a value, the type is known, and the id, if there is one, is an `int`. -/
structure ParamsRead (params : List (String × List String)) : Prop where
  values : ∀ p ∈ params, p.2 ≠ []
  type : ∃ name t, param params "type" = some name ∧ MessageType.ofName name = some t
  mid : ∀ s, param params "mid" = some s → javaInt s ≠ none

theorem failsOneWay_iff_answered {r : Except Throwable Message}
    (h : ∀ msg, r = .ok msg → msg.Decoded) : FailsOneWay r ↔ Answered r := by
  refine or_congr_left ⟨?_, ?_⟩
  · rintro ⟨msg, hr, -⟩
    exact ⟨msg, hr⟩
  · rintro ⟨msg, hr⟩
    exact ⟨msg, hr, (h msg hr).type, (h msg hr).mid⟩

section Fields

variable {ms : Members}

/-- Fields that can be read, the type being known. -/
theorem reads_typed (hm : ¬ Message.Malformed ms) :
    (∃ t mid client, Message.Reads ms (some t) mid client) ↔ Typed ms := by
  constructor
  · rintro ⟨t, mid, client, hr⟩
    exact ⟨t, hr.type⟩
  · rintro ⟨t, ht⟩
    obtain ⟨type, mid, client, hr⟩ := (Message.reads_or_malformed ms).resolve_right hm
    obtain rfl : type = some t := Except.ok.inj (hr.type.symm.trans ht)
    exact ⟨t, mid, client, hr⟩

theorem typed_withMid : Typed (Message.withMid ms) ↔ Typed ms := by
  rw [Typed, Typed, Message.lookup_withMid ms (by decide)]

end Fields

theorem textRead_iff (gson : Gson) (text : String) : TextRead gson text ↔
    ∃ ms, gson.fromJson text = .ok (some ms) ∧ (Message.Malformed (Message.withMid ms) ∨
      ∃ t mid client, Message.Reads (Message.withMid ms) (some t) mid client) := by
  refine exists_congr fun ms => and_congr_right fun _ => ?_
  rw [← typed_withMid, ← Message.malformed_withMid, or_comm]
  by_cases hm : Message.Malformed (Message.withMid ms)
  · simp [hm]
  · rw [reads_typed hm]

section Params

variable {params : List (String × List String)}

theorem firstValues_ok : (∃ ps, Message.firstValues params = .ok ps) ↔ ∀ p ∈ params, p.2 ≠ [] := by
  unfold Message.firstValues
  rw [mapM_ok]
  refine forall₂_congr fun p _ => ?_
  rcases p with ⟨name, _ | ⟨v, vs⟩⟩ <;> simp

theorem firstValues_cons (name v : String) (vs : List String) :
    Message.firstValues ((name, v :: vs) :: params) =
      (Message.firstValues params).map ((name, .str v) :: ·) := by
  unfold Message.firstValues
  rw [List.mapM_cons]
  simp only [bind, Except.bind, pure, Except.pure, Except.map]

/-- The object of the parameters has their first values. -/
theorem lookup_firstValues {ps : Members} (h : Message.firstValues params = .ok ps) (name : String) :
    ps.lookup name = (param params name).map .str := by
  induction params generalizing ps with
  | nil =>
    cases h
    rfl
  | cons p params ih =>
    rcases p with ⟨n, _ | ⟨v, vs⟩⟩
    · cases h
    rw [firstValues_cons] at h
    cases hrest : Message.firstValues params with
    | error e =>
      rw [hrest] at h
      cases h
    | ok rest =>
      rw [hrest] at h
      cases h
      rw [Members.lookup_cons, ih hrest, param, param, List.lookup_cons]
      by_cases hn : name = n
      · subst hn
        simp
      · have hb : (name == n) = false := by simpa using hn
        simp only [if_neg hn, hb]

theorem readType_str {v : Option String} : (∃ t, Message.readType (v.map .str) = .ok (some t)) ↔
    ∃ name t, v = some name ∧ MessageType.ofName name = some t := by
  cases v with
  | none => simp [Message.readType]
  | some name => simp [Message.readType]

theorem readMid_str {v : Option String} : Message.readMid (v.map .str) = .error .jsonSyntax ↔
    ∃ s, v = some s ∧ javaInt s = none := by
  cases v with
  | none => simp [Message.readMid]
  | some s => cases h : javaInt s <;> simp [Message.readMid, h]

theorem paramsRead_iff : ParamsRead params ↔
    ∃ ms t mid client, Message.firstValues params = .ok ms ∧
      Message.Reads ms (some t) mid client := by
  constructor
  · rintro ⟨hvalues, htype, hmid⟩
    obtain ⟨ms, hms⟩ := firstValues_ok.mpr hvalues
    have htyped : Typed ms := by
      rw [Typed, lookup_firstValues hms]
      exact readType_str.mpr htype
    have hm : ¬ Message.Malformed ms := by
      obtain ⟨t, ht⟩ := htyped
      rintro (h | h | h)
      · simp [ht] at h
      · rw [lookup_firstValues hms, readMid_str] at h
        obtain ⟨s, hs, hno⟩ := h
        exact hmid s hs hno
      · rw [lookup_firstValues hms] at h
        cases hc : param params "client" <;> simp [hc, Message.readClient] at h
    obtain ⟨t, mid, client, hr⟩ := (reads_typed hm).mpr htyped
    exact ⟨ms, t, mid, client, hms, hr⟩
  · rintro ⟨ms, t, mid, client, hms, hr⟩
    refine ⟨firstValues_ok.mp ⟨ms, hms⟩, ?_, ?_⟩
    · have ht := hr.type
      rw [lookup_firstValues hms] at ht
      exact readType_str.mp ⟨t, ht⟩
    · intro s hs hno
      have hm := readMid_str.mpr ⟨s, hs, hno⟩
      rw [← lookup_firstValues hms, hr.mid] at hm
      cases hm

end Params

/-- **When decoding fails one way**, for each text, for all parameters and for every next id. -/
theorem failsOneWay_iff (gson : Gson) (hgson : gson.Lawful) (nextId : Int) :
    (∀ text, FailsOneWay (Message.fromString gson text nextId).1 ↔ TextRead gson text) ∧
    ∀ params, FailsOneWay (Message.fromParams params nextId).1 ↔ ParamsRead params := by
  constructor
  · intro text
    rw [textRead_iff, ← fromString_answered hgson text nextId]
    exact failsOneWay_iff_answered fun msg h => Message.decoded_of_fromString (Prod.ext h rfl)
  · intro params
    rw [paramsRead_iff, ← fromParams_answered params nextId]
    exact failsOneWay_iff_answered fun msg h => Message.decoded_of_fromParams (Prod.ext h rfl)

/-- The read request for the client `c`, as a text and as parameters. -/
theorem failsOneWay_read : (gsonFor readText readMembers).Lawful ∧
    FailsOneWay (Message.fromString (gsonFor readText readMembers) readText 7).1 ∧
    FailsOneWay (Message.fromParams [("type", ["read"]), ("client", ["c"])] 7).1 := by
  have hlawful := lawful_gsonFor readText readMembers
  obtain ⟨htext, hparams⟩ := failsOneWay_iff _ hlawful 7
  refine ⟨hlawful, (htext readText).mpr ⟨readMembers, rfl, .inl ⟨.read, rfl⟩⟩, (hparams _).mpr ?_⟩
  exact ⟨by simp, ⟨"read", .read, rfl, rfl⟩, nofun⟩

/-- A text that is not JSON, the empty text, parameters without a type, and an id that is no number. -/
theorem fails_otherwise : (gsonFor readText readMembers).Lawful ∧
    (Message.fromString (gsonFor readText readMembers) "hello" 0).1 = .error .jsonSyntax ∧
    (Message.fromString (gsonFor readText readMembers) "" 0).1 = .error .nullPointer ∧
    (Message.fromParams [] 0).1 = .error .nullPointer ∧
    (Message.fromParams [("type", ["read"]), ("mid", ["x"])] 0).1 = .error .jsonSyntax ∧
    ¬ FailsOneWay (Message.fromString (gsonFor readText readMembers) "hello" 0).1 ∧
    ¬ FailsOneWay (Message.fromParams [] 0).1 := by
  refine ⟨lawful_gsonFor readText readMembers, rfl, rfl, rfl, rfl, ?_, ?_⟩
  · rintro (⟨msg, h, -⟩ | ⟨text, h⟩) <;> cases h
  · rintro (⟨msg, h, -⟩ | ⟨text, h⟩) <;> cases h

end Lhcb
end QosSupport
