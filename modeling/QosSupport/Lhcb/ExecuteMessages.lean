import QosSupport.Lhcb.Constructors
import QosSupport.Lib.Run

/-!
# Execute messages

The constructors of `ExecuteMessage` refuse a value that is no call. The decoders do not check it, and what
they make of parameters never is one.

* `IsCall`: what the constructors check of a value, so that `getName` and `getArgs` throw nothing.
* `executes_wellFormed_iff`: exactly in which runs all execute messages have such a value.
-/

namespace QosSupport
namespace Lhcb

open Run

/-- The value is an object whose name can be read as a string, and whose `args`, if there are any, are an
array. -/
structure IsCall (value : Option Json) : Prop where
  name : ∃ name, Named value name
  args : ∀ ms a, value = some (.obj ms) → ms.lookup "args" = some a → ∃ args, a = .arr args

/-- The message is well formed: neither method throws. -/
structure WellFormed (msg : Message) : Prop where
  call : IsCall msg.value
  getName : ∃ name, msg.getName = .ok name
  getArgs : ∃ args, msg.getArgs = .ok args

/-- The next automatic id, and the execute messages that exist. -/
structure Objects where
  nextId : Int
  executes : List Message

/-- No message yet. -/
def Objects.init : Objects := { nextId := 0, executes := [] }

/-- A message is created; an exception leaves no message. -/
def Objects.next (gson : Gson) (s : Objects) (c : Construction) : Objects where
  nextId := (c.run gson s.nextId).2
  executes := match (c.run gson s.nextId).1 with
    | .ok msg => if msg.cls = .executeMessage then s.executes ++ [msg] else s.executes
    | .error _ => s.executes

def Objects.step (gson : Gson) (s : Objects) (c : Construction) (s' : Objects) : Prop :=
  s' = s.next gson c

/-- All execute messages are well formed. -/
def Objects.AllWellFormed (s : Objects) : Prop := ∀ msg ∈ s.executes, WellFormed msg

/-- The object is decoded to an execute message. -/
def DecodesExecute (ms : Members) : Prop :=
  ∃ mid client, Message.Reads ms (some .execute) mid client ∧ -1 ≤ mid

/-- The condition on a step: an execute message is decoded from a text only, and the text has a call as
its value. -/
def CreatesCalls (gson : Gson) (_ : Objects) : Construction → Prop
  | .fromString (some text) => ∀ ms, gson.fromJson text = .ok (some ms) →
      DecodesExecute (Message.withMid ms) → IsCall (ms.lookup "value")
  | .fromParams (some params) => ∀ ms, Message.firstValues params = .ok ms → ¬ DecodesExecute ms
  | _ => True

theorem wellFormed_iff {msg : Message} : WellFormed msg ↔ IsCall msg.value := by
  refine ⟨fun h => h.call, fun h => ⟨h, ?_, ?_⟩⟩
  · obtain ⟨name, hn⟩ := h.name
    exact ⟨name, getName_ok.mpr hn⟩
  · obtain ⟨name, ms, v, hv, -⟩ := h.name
    have hargs := h.args ms
    simp only [Message.getArgs, Message.members, hv]
    cases ha : ms.lookup "args" with
    | none => exact ⟨none, by simp [bind, Except.bind, ha, pure, Except.pure]⟩
    | some a =>
      obtain ⟨args, rfl⟩ := hargs a hv ha
      exact ⟨some args, by simp [bind, Except.bind, ha, pure, Except.pure]⟩

/-- What the first constructor checks. -/
theorem isCall_of_methods {msg : Message} {name : String} {args : Option (List Json)}
    (hname : msg.getName = .ok name) (hargs : msg.getArgs = .ok args) : IsCall msg.value := by
  have hn := getName_ok.mp hname
  refine ⟨⟨name, hn⟩, fun ms a hv ha => ?_⟩
  simp only [Message.getArgs, Message.members, hv, bind, Except.bind, ha] at hargs
  cases a with
  | arr args => exact ⟨args, rfl⟩
  | _ => cases hargs

theorem isCall_createValue (name : String) (args : Option (List Json)) :
    IsCall (some (ExecuteMessage.createValue name args)) := by
  cases args with
  | none =>
    refine ⟨⟨name, _, .str name, rfl, rfl, rfl⟩, fun ms a hv ha => ?_⟩
    cases hv
    cases ha
  | some args =>
    refine ⟨⟨name, _, .str name, rfl, rfl, rfl⟩, fun ms a hv ha => ?_⟩
    cases hv
    cases ha
    exact ⟨args, rfl⟩

section Call

variable {gson : Gson} {nextId : Int} {msg : Message}

theorem isCall_ofValue (hn : Message.ValidId nextId) {client : Option String} {value : Option Json}
    (h : (ExecuteMessage.ofValue client value nextId).1 = .ok msg) : IsCall msg.value := by
  rw [ExecuteMessage.ofValue, construct_eq hn] at h
  dsimp only at h
  split at h
  · rename_i name args hname hargs
    cases h
    exact isCall_of_methods hname hargs
  · cases h

theorem isCall_ofName (hn : Message.ValidId nextId) {client name : Option String}
    {args : Option (List Json)} (h : (ExecuteMessage.ofName client name args nextId).1 = .ok msg) :
    IsCall msg.value := by
  rw [ExecuteMessage.ofName, construct_eq hn] at h
  cases name with
  | none => cases h
  | some name =>
    cases h
    exact isCall_createValue name args

/-- A string as value makes no execute message. -/
theorem cls_ofText (hn : Message.ValidId nextId) {client value : Option String} {type : Option MessageType}
    (h : (Construction.ofText client value type nextId).1 = .ok msg) : msg.cls ≠ .executeMessage := by
  cases value with
  | none => cases h
  | some s =>
    rw [Construction.ofText, construct_eq hn] at h
    cases h
    nofun

/-- The execute messages that an object is decoded to. -/
theorem executes_fromMembers (hn : Message.ValidId nextId) {json : Members} {P : Option Json → Prop} :
    (∀ msg, (Message.fromMembers json nextId).1 = .ok msg → msg.cls = .executeMessage → P msg.value) ↔
      (DecodesExecute json → P (json.lookup "value")) := by
  constructor
  · rintro h ⟨mid, client, hr, hmid⟩
    exact h _ ((Message.fromMembers_ok_iff hn).mpr ⟨.execute, mid, client, hr, hmid, rfl⟩) rfl
  · intro h msg hmsg hcls
    obtain ⟨t, mid, client, hr, hmid, rfl⟩ := (Message.fromMembers_ok_iff hn).mp hmsg
    cases t with
    | execute => exact h ⟨mid, client, hr, hmid⟩
    | _ => cases hcls

/-- The value of a parameter is a string, and no call. -/
theorem not_isCall_param {params : List (String × List String)} {ms : Members}
    (h : Message.firstValues params = .ok ms) : ¬ IsCall (ms.lookup "value") := by
  rintro ⟨⟨name, ms', v, hv, -⟩, -⟩
  rw [lookup_firstValues h] at hv
  cases hp : param params "value" <;> simp [hp] at hv

/-- **One call.** The condition says exactly when an execute message that it returns is well formed. -/
theorem createsCalls_iff (s : Objects) (hn : Message.ValidId s.nextId) (c : Construction) :
    CreatesCalls gson s c ↔ ∀ msg, (c.run gson s.nextId).1 = .ok msg →
      msg.cls = .executeMessage → IsCall msg.value := by
  cases c with
  | message client type | element client value type | read client value | readMid mid client value =>
    refine iff_of_true trivial fun msg h hcls => ?_
    rw [Construction.run, construct_eq hn] at h
    cases h
    cases hcls
  | text client value type => exact iff_of_true trivial fun msg h hcls => absurd hcls (cls_ofText hn h)
  | exception client e type =>
    cases e with
    | none => exact iff_of_true trivial nofun
    | some localized => exact iff_of_true trivial fun msg h hcls => absurd hcls (cls_ofText hn h)
  | withMid mid client value type =>
    refine iff_of_true trivial fun msg h hcls => ?_
    obtain ⟨rfl, -⟩ := Message.validate_eq_ok.mp h
    cases hcls
  | execute client value => exact iff_of_true trivial fun msg h _ => isCall_ofValue hn h
  | executeName client name args => exact iff_of_true trivial fun msg h _ => isCall_ofName hn h
  | fromString json =>
    cases json with
    | none => exact iff_of_true trivial nofun
    | some text =>
      simp only [CreatesCalls, Construction.run, Message.fromString_ok_iff]
      constructor
      · rintro h msg ⟨ms, hg, hmsg⟩ hcls
        have hms := h ms hg
        rw [← Message.lookup_withMid ms (show "value" ≠ "mid" by decide)] at hms
        exact (executes_fromMembers hn).mpr hms msg hmsg hcls
      · intro h ms hg
        rw [← Message.lookup_withMid ms (show "value" ≠ "mid" by decide)]
        exact (executes_fromMembers hn).mp fun msg hmsg hcls => h msg ⟨ms, hg, hmsg⟩ hcls
  | fromParams params =>
    cases params with
    | none => exact iff_of_true trivial nofun
    | some ps =>
      simp only [CreatesCalls, Construction.run, Message.fromParams]
      cases hv : Message.firstValues ps with
      | error e =>
        refine iff_of_true ?_ ?_
        · intro ms h
          cases h
        · intro msg h
          cases h
      | ok ms =>
        simp only [Except.ok.injEq, forall_eq', executes_fromMembers hn]
        exact forall_congr' fun _ => (iff_false_intro (not_isCall_param hv)).symm

theorem validId_run (hn : Message.ValidId nextId) (c : Construction) :
    Message.ValidId (c.run gson nextId).2 := by
  rw [(c.run_spec gson hn).next]
  split
  · exact Message.validId_incNextId hn
  · exact hn

end Call

namespace Objects

variable {gson : Gson} {s s' : Objects} {c : Construction}

/-- The next id is valid, and all execute messages are well formed. -/
structure Good (s : Objects) : Prop where
  nextId : Message.ValidId s.nextId
  executes : s.AllWellFormed

theorem good_init : init.Good := ⟨⟨Int.le_refl 0, by decide⟩, nofun⟩

/-- **One step** keeps all execute messages well formed exactly if it meets the condition. -/
theorem allWellFormed_next (hs : s.Good) :
    (s.next gson c).AllWellFormed ↔ CreatesCalls gson s c := by
  rw [createsCalls_iff s hs.nextId c]
  unfold AllWellFormed next
  cases hr : (c.run gson s.nextId).1 with
  | error e => exact iff_of_true hs.executes nofun
  | ok msg =>
    simp only [Except.ok.injEq, forall_eq']
    split
    · rename_i hcls
      constructor
      · intro h _
        exact (h msg (by simp)).call
      · intro h m hm
        rcases List.mem_append.mp hm with hm | hm
        · exact hs.executes m hm
        · rw [List.mem_singleton.mp hm]
          exact wellFormed_iff.mpr (h hcls)
    · rename_i hcls
      exact iff_of_true hs.executes fun h => absurd h hcls

theorem good_step (hs : s.Good) (hc : CreatesCalls gson s c) (h : step gson s c s') : s'.Good := by
  subst h
  exact ⟨validId_run hs.nextId c, (allWellFormed_next hs).mpr hc⟩

end Objects

/-- **Execute messages in every run.** If every step meets the condition, all execute messages are well
formed in every state; and if they are in every state, every step meets the condition. -/
theorem executes_wellFormed_iff (gson : Gson) (cs : List Construction) (s : Objects) :
    (Steps (Objects.step gson) (CreatesCalls gson) .init cs s → s.AllWellFormed) ∧
    (Steps (Objects.step gson) (CreatesCalls gson) .init cs s ↔
      Steps (Objects.step gson) (fun s c => (s.next gson c).AllWellFormed) .init cs s) := by
  have hstep : ∀ s c s', s.Good → CreatesCalls gson s c → Objects.step gson s c s' → s'.Good :=
    fun _ _ _ hs hc h => Objects.good_step hs hc h
  constructor
  · exact fun h => (h.inv hstep Objects.good_init).executes
  · exact Steps.congr hstep (fun s c hs => (Objects.allWellFormed_next hs).symm) Objects.good_init

/-- An execute message whose `args` are a number. -/
def argsText : String :=
  "\x7b\"type\":\"execute\",\"value\":\x7b\"name\":\"f\",\"args\":1\x7d\x7d"

def argsMembers : Members :=
  [("type", .str "execute"), ("value", .obj [("name", .str "f"), ("args", .num "1")])]

/-- This text, and parameters that only name the type, are decoded to execute messages. The methods of
both throw. -/
theorem execute_without_value : ∃ msg msg' : Message,
    (Objects.init.next (gsonFor argsText argsMembers) (.fromParams (some [("type", ["execute"])]))).executes =
      [msg] ∧ msg.getName = .error .nullPointer ∧ ¬ WellFormed msg ∧
    (Objects.init.next (gsonFor argsText argsMembers) (.fromString (some argsText))).executes = [msg'] ∧
      msg'.getArgs = .error .illegalState ∧ ¬ WellFormed msg' := by
  refine ⟨_, _, rfl, rfl, ?_, rfl, rfl, ?_⟩
  · rintro ⟨-, ⟨name, hname⟩, -⟩
    cases hname
  · rintro ⟨-, -, ⟨args, hargs⟩⟩
    cases hargs

end Lhcb
end QosSupport
