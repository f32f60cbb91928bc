import QosSupport.Lhcb.RequestHandler

/-!
# The text of a message

`toString` prints a message with Gson, which leaves out what is `null`: fields of the message, and members
of objects in its value. `fromString` decodes it.

* `Json.written`: what Gson writes of a value. Elements of arrays that are `null` stay.
* `Message.tree`: the object that is printed for a message. It has no members that are `null`
  (`noNulls_tree`), so Gson is assumed to read it back.
* `fromString_toString`: a message is decoded to what was written of it, and gets no new id.
-/

namespace QosSupport
namespace Lhcb

/-! ## What Gson writes -/

mutual

/-- What is written of a value: members that are `null` are left out. -/
def Json.written : Json → Json
  | .arr elements => .arr (writtenElements elements)
  | .obj members => .obj (writtenMembers members)
  | v => v

def writtenElements : List Json → List Json
  | [] => []
  | v :: vs => v.written :: writtenElements vs

def writtenMembers : List (String × Json) → List (String × Json)
  | [] => []
  | (_, .null) :: ms => writtenMembers ms
  | (n, v) :: ms => (n, v.written) :: writtenMembers ms

end

mutual

/-- No object in the tree has a member that is `null`. -/
def Json.NoNulls : Json → Prop
  | .arr elements => NoNullElements elements
  | .obj members => NoNullMembers members
  | _ => True

def NoNullElements : List Json → Prop
  | [] => True
  | v :: vs => v.NoNulls ∧ NoNullElements vs

def NoNullMembers : List (String × Json) → Prop
  | [] => True
  | (_, v) :: ms => v ≠ .null ∧ v.NoNulls ∧ NoNullMembers ms

end

mutual

/-- What is written has no members that are `null`. -/
theorem noNulls_written : ∀ v : Json, v.written.NoNulls
  | .arr elements => by
    rw [Json.written, Json.NoNulls]
    exact noNulls_writtenElements elements
  | .obj members => by
    rw [Json.written, Json.NoNulls]
    exact noNulls_writtenMembers members
  | .null | .bool _ | .num _ | .str _ => by simp [Json.written, Json.NoNulls]

theorem noNulls_writtenElements : ∀ vs : List Json, NoNullElements (writtenElements vs)
  | [] => trivial
  | v :: vs => ⟨noNulls_written v, noNulls_writtenElements vs⟩

theorem noNulls_writtenMembers : ∀ ms : List (String × Json), NoNullMembers (writtenMembers ms)
  | [] => trivial
  | (n, v) :: ms => by
    have hv := noNulls_written v
    have hms := noNulls_writtenMembers ms
    cases v with
    | null => exact hms
    | bool b => exact ⟨nofun, hv, hms⟩
    | num t => exact ⟨nofun, hv, hms⟩
    | str s => exact ⟨nofun, hv, hms⟩
    | arr es => exact ⟨nofun, hv, hms⟩
    | obj ms' => exact ⟨nofun, hv, hms⟩

end

mutual

/-- A value without such members is written as it is. -/
theorem written_of_noNulls : ∀ v : Json, v.NoNulls → v.written = v
  | .arr elements, h => by
    rw [Json.NoNulls] at h
    rw [Json.written, writtenElements_of_noNulls elements h]
  | .obj members, h => by
    rw [Json.NoNulls] at h
    rw [Json.written, writtenMembers_of_noNulls members h]
  | .null, _ | .bool _, _ | .num _, _ | .str _, _ => by simp [Json.written]

theorem writtenElements_of_noNulls : ∀ vs : List Json, NoNullElements vs → writtenElements vs = vs
  | [], _ => rfl
  | v :: vs, h => by
    rw [writtenElements, written_of_noNulls v h.1, writtenElements_of_noNulls vs h.2]

theorem writtenMembers_of_noNulls :
    ∀ ms : List (String × Json), NoNullMembers ms → writtenMembers ms = ms
  | [], _ => rfl
  | (n, v) :: ms, h => by
    rw [writtenMembers, written_of_noNulls v h.2.1, writtenMembers_of_noNulls ms h.2.2]
    exact fun hv => h.1 hv

end

/-! ## What is printed for a message -/

/-- The name of a constant. -/
def MessageType.name : MessageType → String
  | .read => "read"
  | .write => "write"
  | .execute => "execute"
  | .observe => "observe"
  | .notify => "notify"
  | .response => "response"
  | .error => "error"

theorem MessageType.ofName_name (t : MessageType) : ofName t.name = some t := by cases t <;> rfl

/-- What is written of the field `value`. -/
def writtenValue : Option Json → Option Json
  | none | some .null => none
  | some v => some v.written

namespace Message

/-- The object that is printed for a message: the fields in their order, without those that are `null`. -/
def tree (msg : Message) : Members :=
  [("type", msg.type.map fun t => .str t.name), ("mid", some (.num (toString msg.mid))),
   ("client", msg.client.map .str), ("value", writtenValue msg.value)].filterMap
    fun (name, v) => v.map (name, ·)

/-- `toString`; `print` is Gson's text of an object. -/
def toString (print : Members → String) (msg : Message) : String := print msg.tree

end Message

theorem noNulls_writtenValue {value : Option Json} {v : Json} (h : writtenValue value = some v) :
    v ≠ .null ∧ v.NoNulls := by
  unfold writtenValue at h
  split at h
  · cases h
  · cases h
  · rename_i w hw
    cases h
    refine ⟨fun hnull => ?_, noNulls_written w⟩
    cases w with
    | null => exact hw rfl
    | _ => simp [Json.written] at hnull

/-- A value without members that are `null`, and not `null` itself, is written as it is. -/
theorem writtenValue_of_noNulls {v : Json} (hv : v ≠ .null) (h : v.NoNulls) :
    writtenValue (some v) = some v := by
  rw [writtenValue, written_of_noNulls v h]
  exact hv

section Tree

variable {msg : Message} {t : MessageType}

/-- Nothing that is printed is `null`. -/
theorem noNulls_tree (msg : Message) : NoNullMembers msg.tree := by
  have hvalue := @noNulls_writtenValue msg.value
  unfold Message.tree
  cases msg.type <;> cases msg.client <;> cases hv : writtenValue msg.value <;>
    simp_all [NoNullMembers, Json.NoNulls]

theorem lookup_tree (ht : msg.type = some t) : msg.tree.lookup "type" = some (.str t.name) ∧
    msg.tree.lookup "mid" = some (.num (toString msg.mid)) ∧
    msg.tree.lookup "client" = msg.client.map .str ∧
    msg.tree.lookup "value" = writtenValue msg.value := by
  unfold Message.tree
  rw [ht]
  cases msg.client <;> cases writtenValue msg.value <;> exact ⟨rfl, rfl, rfl, rfl⟩

/-- The object has an id, so that it gets no new one. -/
theorem withMid_tree (ht : msg.type = some t) : Message.withMid msg.tree = msg.tree := by
  have hhas : msg.tree.has "mid" = true := by
    rw [Members.has, (lookup_tree ht).2.1]
    rfl
  rw [Message.withMid, if_pos hhas]

/-- The fields of the object are those of the message. -/
theorem reads_tree (ht : msg.type = some t) (h0 : 0 ≤ msg.mid) (hmax : msg.mid ≤ 2 ^ 31 - 1) :
    Message.Reads msg.tree (some t) msg.mid msg.client := by
  obtain ⟨htype, hmid, hclient, -⟩ := lookup_tree ht
  constructor
  · rw [htype, Message.readType, MessageType.ofName_name]
  · have hint : intValue (toString msg.mid) = some msg.mid := intValue_toString h0 (by omega)
    rw [hmid, Message.readMid, hint]
  · rw [hclient]
    cases msg.client <;> rfl

end Tree

/-- **Round trip.** A message with a type and an id that is an `int` and not negative is decoded from its
text: to a message with the same type, id and client, with what was written of the value, and of the class
of its type. The next automatic id stays. Gson is assumed to read an object back that it has printed, if
no member in it is `null`. -/
theorem fromString_toString (gson : Gson) (print : Members → String) (msg : Message) (t : MessageType)
    (nextId : Int) (ht : msg.type = some t) (h0 : 0 ≤ msg.mid) (hmax : msg.mid ≤ 2 ^ 31 - 1)
    (hgson : NoNullMembers msg.tree → gson.fromJson (print msg.tree) = .ok (some msg.tree)) :
    ∃ m, Message.fromString gson (msg.toString print) nextId = (.ok m, nextId) ∧
      m.type = msg.type ∧ m.mid = msg.mid ∧ m.client = msg.client ∧
      m.value = writtenValue msg.value ∧
      (∀ v, msg.value = some v → v ≠ .null → v.NoNulls → m.value = some v) ∧
      (m.cls = .executeMessage ↔ t = .execute) ∧ (m.cls = .readMessage ↔ t = .read) := by
  have hr := reads_tree ht h0 hmax
  have hdecode : Message.decode (Message.withMid msg.tree) =
      .ok (Message.ofFields msg.tree t msg.mid msg.client) := by
    rw [withMid_tree ht, Message.decode_reads hr]
  have hvalue : msg.tree.lookup "value" = writtenValue msg.value := (lookup_tree ht).2.2.2
  refine ⟨Message.ofFields msg.tree t msg.mid msg.client, ?_, ht.symm, rfl, rfl, hvalue, ?_, ?_, ?_⟩
  · rw [Message.toString, Message.fromString_decode (hgson (noNulls_tree msg)) hdecode]
    exact Message.assignId_own h0
  · intro v hv hnull hno
    rw [Message.ofFields, hvalue, hv, writtenValue_of_noNulls hnull hno]
  · cases t <;> simp [Message.ofFields, Message.classOf]
  · cases t <;> simp [Message.ofFields, Message.classOf]

/-- A call of `f` with `null` among its arguments and as a member, with the largest id. -/
def nullMsg : Message where
  cls := .executeMessage
  type := some .execute
  mid := 2 ^ 31 - 1
  client := none
  value := some (.obj [("name", .str "f"), ("x", .null), ("args", .arr [.null])])

/-- Its text, as it is printed. -/
def nullText : String :=
  "\x7b\n  \"type\": \"execute\",\n  \"mid\": 2147483647,\n  \"value\": \x7b\n    \"name\": \"f\",\n" ++
    "    \"args\": [\n      null\n    ]\n  \x7d\n\x7d"

/-- It is decoded from its text without the member. -/
theorem fromString_nullMsg :
    ∃ m, Message.fromString (gsonFor nullText nullMsg.tree) (nullMsg.toString fun _ => nullText) 0 =
        (.ok m, 0) ∧ m.type = some .execute ∧ m.mid = 2 ^ 31 - 1 ∧ m.client = none ∧
      m.value = some (.obj [("name", .str "f"), ("args", .arr [.null])]) ∧
      m.cls = .executeMessage := by
  obtain ⟨m, hm, htype, hmid, hclient, hvalue, -, hcls, -⟩ :=
    fromString_toString (gsonFor nullText nullMsg.tree) (fun _ => nullText) nullMsg .execute 0 rfl
      (by decide) (by decide) fun _ => rfl
  exact ⟨m, hm, htype, hmid, hclient, hvalue, hcls.mpr rfl⟩

end Lhcb
end QosSupport
