import QosSupport.Lib.Regex
import QosSupport.Broker.Dao

/-!
# Traffic reports: written by the TURN server, read by the broker

The TURN server publishes the usage of a session on a channel that names it
(`turn_report_session_usage` and `send_message_to_redis` of coturn). The broker subscribes to a pattern
of such channels and takes the user and the sent bytes out of channel and message with two regular
expressions (`parseTurnTraffic`).

* `Session`: a session of a user who could authenticate, with its counters.
* `turnReportSessionUsage`: the channel and the message that are published, if any: the command is
  formatted in a buffer of 513 bytes, and a channel that does not fit is not published at all.
* `agrees_iff`: what is published is read back as it was written, if it fits and neither the realm
  nor the user name contains the separators of the channel (`RealmClean`, `UserClean`).
-/

namespace QosSupport
namespace Broker

open Redis Regex

/-! ## The TURN server -/

/-- `strstr`: the text `part` occurs in `s`. -/
def contains (s : List Char) (part : String) : Bool := decide (part.toList <:+: s)

/-- `is_secure_username` -/
def isSecureUsername (username : String) : Bool :=
  let s := username.toList.map Char.toLower
  if contains s " " || contains s "\t" || contains s "'" || contains s "\"" || contains s "\n" ||
    contains s "\r" || contains s "\\" then false
  else !(contains s "union" && contains s "select")

/-- A character of the text of an IP address. -/
def isIpChar (c : Char) : Bool :=
  c.isDigit || ('a' ≤ c && c ≤ 'f') || ('A' ≤ c && c ≤ 'F') || c = '.' || c = ':'

/-- A session. Its user could authenticate: the name is secure, and it has no `%`, which the formatting
of the lookup command would not leave alone; nor does the realm, and no blank, which would split
the command. -/
structure Session where
  publicIp : String
  publicPort : Int
  realm : String
  username : String
  id : Nat
  receivedPackets : Nat
  receivedBytes : Nat
  sentPackets : Nat
  sentBytes : Nat
  ip_chars : publicIp.toList.all isIpChar = true
  realm_chars : ' ' ∉ realm.toList ∧ '%' ∉ realm.toList
  username_secure : isSecureUsername username = true ∧ '%' ∉ username.toList
  id_lt : id < 2 ^ 64
  counters_lt : receivedPackets < 2 ^ 32 ∧ receivedBytes < 2 ^ 32 ∧ sentPackets < 2 ^ 32 ∧
    sentBytes < 2 ^ 32

/-- `%018llu` -/
def pad18 (n : Nat) : List Char :=
  List.replicate (18 - (Nat.toDigits 10 n).length) '0' ++ Nat.toDigits 10 n

namespace Session

variable (s : Session)

/-- The channel of a session. The buffer of 1024 bytes cuts nothing off that could be published. -/
def key : String :=
  let start := "turn/" ++ s.publicIp ++ "/" ++ toString s.publicPort
  let rest := "/user/" ++ s.username ++ "/allocation/" ++ String.ofList (pad18 s.id) ++ "/traffic"
  if s.realm ≠ "" then start ++ "/realm/" ++ s.realm ++ rest else start ++ rest

/-- The message with the usage of a session. -/
def usage : String :=
  "rcvp=" ++ toString s.receivedPackets ++ ", rcvb=" ++ toString s.receivedBytes ++
    ", sentp=" ++ toString s.sentPackets ++ ", sentb=" ++ toString s.sentBytes

/-- A report is made after each 2048 packets. -/
def Due : Prop :=
  (s.receivedPackets ≠ 0 ∨ s.sentPackets ≠ 0) ∧
    (s.receivedPackets + s.sentPackets) % 2 ^ 32 % 2048 = 0

instance : Decidable s.Due := inferInstanceAs (Decidable (_ ∧ _))

end Session

/-- The command and the key fit in the format buffer, with the blank after the key. -/
def Fits (command key : String) : Prop := (command ++ " " ++ key ++ " ").utf8ByteSize ≤ 509

instance (command key : String) : Decidable (Fits command key) := inferInstanceAs (Decidable (_ ≤ _))

/-- `send_message_to_redis` with the command `publish`: the channel and the message. Without the blank
after the key, the message becomes a part of it and the command is refused for a missing
argument. -/
def sendPublish (key arg : String) : Option (String × String) :=
  if Fits "publish" key then some (key, arg) else none

/-- `turn_report_session_usage`: what is published. -/
def turnReportSessionUsage (s : Session) : Option (String × String) :=
  if s.Due then sendPublish s.key s.usage else none

/-! ## The broker -/

/-- The pattern that the broker subscribes to. -/
def trafficPattern : Glob := Glob.ofString "turn/*/*/realm/*/user/*/allocation/*/traffic"

/-- `.` -/
def dot (c : Char) : Bool :=
  !(c = '\n' || c = '\r' || c = Char.ofNat 0x2028 || c = Char.ofNat 0x2029)

/-- `/turn\/.*?\/.*?\/realm\/.*?\/user\/(.*?)\/allocation\/([0-9]*)\//` -/
def channelPattern : List Item :=
  [.lit "turn/".toList, .lazy dot false, .lit "/".toList, .lazy dot false, .lit "/realm/".toList,
   .lazy dot false, .lit "/user/".toList, .lazy dot true, .lit "/allocation/".toList,
   .greedy Char.isDigit true, .lit "/".toList]

/-- `/rcvp=[0-9]*, rcvb=([0-9]*), sentp=[0-9]*, sentb=([0-9]*)/` -/
def messagePattern : List Item :=
  [.lit "rcvp=".toList, .greedy Char.isDigit false, .lit ", rcvb=".toList,
   .greedy Char.isDigit true, .lit ", sentp=".toList, .greedy Char.isDigit false,
   .lit ", sentb=".toList, .greedy Char.isDigit true]

/-- `parseTurnTraffic`; `none` for `undefined`. -/
def parseTurnTraffic (channel message : String) : Option TrafficRecord :=
  match search channelPattern channel.toList with
  | some [user, _] =>
    match search messagePattern message.toList with
    | some [_, sent_bytes] => some ⟨String.ofList user, String.ofList sent_bytes⟩
    | _ => none
  | _ => none

/-! ## The message -/

theorem run_digits {n : Nat} {capture : Bool} {r : List Item} {rest : List Char}
    {x : List (List Char)} (hrest : ∀ c cs, rest = c :: cs → c.isDigit = false)
    (hk : run r rest = some x) :
    run (.greedy Char.isDigit capture :: r) ((toString n).toList ++ rest) =
      some (keep capture ((toString n).toList, x)) := by
  have hl : (toString n).toList = Nat.toDigits 10 n := by simp
  have hd : (toString n).toList.all Char.isDigit = true := by
    rw [hl, List.all_eq_true]
    exact fun c hc => Nat.isDigit_of_mem_toDigits (by decide) (by decide) hc
  exact run_greedy hd hrest hk

/-- The message reads back. -/
theorem search_usage (s : Session) : search messagePattern s.usage.toList =
    some [(toString s.receivedBytes).toList, (toString s.sentBytes).toList] := by
  refine search_of_run ?_
  simp only [Session.usage, String.toList_append, List.append_assoc, messagePattern]
  rw [run_lit, run_digits (x := [(toString s.receivedBytes).toList, (toString s.sentBytes).toList])]
  · rfl
  · intro c cs h
    cases h
    rfl
  · rw [run_lit, run_digits (x := [(toString s.sentBytes).toList])]
    · rfl
    · intro c cs h
      cases h
      rfl
    · rw [run_lit, run_digits (x := [(toString s.sentBytes).toList])]
      · rfl
      · intro c cs h
        cases h
        rfl
      · rw [run_lit, ← List.append_nil (toString s.sentBytes).toList, run_digits (x := [])]
        · simp [keep]
        · intro c cs h
          cases h
        · rfl

/-! ## The channel -/

/-- The user name and what follows it in the channel. -/
def userTail (s : Session) : List Char :=
  s.username.toList ++ ("/allocation/".toList ++ (pad18 s.id ++ "/traffic".toList))

theorem key_toList (s : Session) (h : s.realm ≠ "") : s.key.toList = "turn/".toList ++
    (s.publicIp.toList ++ ("/".toList ++ ((toString s.publicPort).toList ++ ("/realm/".toList ++
      (s.realm.toList ++ ("/user/".toList ++ userTail s)))))) := by
  simp only [Session.key, if_pos h, userTail, String.toList_append, List.append_assoc,
    String.toList_ofList]

/-- No line terminator, and no `/user/` before the one that follows the realm. -/
def RealmClean (realm : String) : Prop :=
  realm.toList.all dot = true ∧ ∀ a b,
    realm.toList ++ "/user/".toList = a ++ ("/user/".toList ++ b) → b = []

/-- No line terminator, and no `/allocation/`, digits and `/` in the name and the `/` that follows
it. -/
def UserClean (username : String) : Prop :=
  username.toList.all dot = true ∧ ∀ a ds b,
    username.toList ++ ['/'] = a ++ ("/allocation/".toList ++ (ds ++ '/' :: b)) →
      ds.all Char.isDigit = false

/-- What the broker looks for after the user name. -/
def afterUser : List Item :=
  [.lit "/allocation/".toList, .greedy Char.isDigit true, .lit "/".toList]

/-- Digits between slashes match. -/
theorem run_afterUser {ds : List Char} (h : ds.all Char.isDigit = true) (b : List Char) :
    run afterUser ("/allocation/".toList ++ (ds ++ '/' :: b)) = some [ds] := by
  have hstop : ∀ c cs, '/' :: b = c :: cs → c.isDigit = false := by
    rintro c cs ⟨⟩
    rfl
  rw [afterUser, run_lit]
  exact run_greedy h hstop (run_lit b)

/-- And nothing else does. -/
theorem run_afterUser_some {cs : List Char} {x : List (List Char)} (h : run afterUser cs = some x) :
    ∃ ds b, ds.all Char.isDigit = true ∧ cs = "/allocation/".toList ++ (ds ++ '/' :: b) := by
  obtain ⟨_, rfl, h₁⟩ := run_lit_some h
  obtain ⟨ds, _, y, hd, rfl, h₂⟩ := run_greedy_some h₁
  obtain ⟨b, rfl, -⟩ := run_lit_some h₂
  exact ⟨ds, b, hd, rfl⟩

/-- The separator after the user name does not begin inside an earlier one. -/
theorem slash_a_not_inside {w c ds : List Char} (hd : ds.all Char.isDigit = true)
    (h : "allocation/".toList ++ (ds ++ ['/']) = w ++ '/' :: 'a' :: c) : False := by
  have ha : 'a' ∉ ds ++ ['/'] := by
    intro ha
    rcases List.mem_append.mp ha with ha | ha
    · exact absurd (List.all_eq_true.mp hd _ ha) (by decide)
    · exact absurd ha (by decide)
  rcases List.append_eq_append_iff.mp h with ⟨e, -, he⟩ | ⟨e, he, he'⟩
  · exact ha (by rw [he]; simp)
  · rcases e with _ | ⟨c₁, e⟩
    · exact ha (by rw [← List.nil_append (ds ++ ['/']), ← he']; simp)
    · simp only [List.cons_append, List.cons.injEq] at he'
      obtain ⟨rfl, he'⟩ := he'
      rcases List.eq_nil_or_concat e with rfl | ⟨e, c₂, rfl⟩
      · exact ha (by rw [← List.nil_append (ds ++ ['/']), ← he']; simp)
      · -- The only slash of `allocation/` is its last character.
        have hal : "allocation".toList ++ ['/'] = (w ++ '/' :: e) ++ [c₂] := by
          rw [List.concat_eq_append] at he
          rw [List.append_assoc]
          exact he
        have hmem := (List.append_inj' hal rfl).1
        exact absurd (show '/' ∈ "allocation".toList by rw [hmem]; simp) (by decide)

/-- Nothing in front of the end of a clean user name looks like its end. -/
theorem run_afterUser_none {s : Session} (hu : UserClean s.username) {a b : List Char}
    (hab : a ++ b = userTail s) (hlen : a.length < s.username.toList.length) :
    run afterUser b = none := by
  cases hr : run afterUser b with
  | none => rfl
  | some x =>
    exfalso
    obtain ⟨ds, b, hd, rfl⟩ := run_afterUser_some hr
    have hclean := hu.2 a ds
    obtain ⟨w, hw, hb⟩ : ∃ w, s.username.toList = a ++ w ∧
        "/allocation/".toList ++ (ds ++ '/' :: b) =
          w ++ ("/allocation/".toList ++ (pad18 s.id ++ "/traffic".toList)) := by
      rcases List.append_eq_append_iff.mp hab with ⟨w, h1, h2⟩ | ⟨w, h1, h2⟩
      · exact ⟨w, h1, h2⟩
      · rw [h1, List.length_append] at hlen
        omega
    rw [hw] at hclean hlen
    have hb' : ("/allocation/".toList ++ (ds ++ ['/'])) ++ b =
        w ++ ("/allocation/".toList ++ (pad18 s.id ++ "/traffic".toList)) := by
      rw [← hb]
      simp
    rcases List.append_eq_append_iff.mp hb' with ⟨c, h1, h2⟩ | ⟨c, h1, h2⟩
    · -- The false end lies inside the name.
      rw [hclean (c ++ ['/']) (by rw [h1]; simp)] at hd
      cases hd
    · rcases c with _ | ⟨c₁, _ | ⟨c₂, c⟩⟩
      · rw [hclean ['/'] (by rw [← List.append_nil w, ← h1]; simp)] at hd
        cases hd
      · -- It ends with the slash after the name.
        obtain rfl : c₁ = '/' := by
          have := congrArg List.head? h2
          simpa using this.symm
        rw [hclean [] (by rw [List.append_assoc, ← h1])] at hd
        cases hd
      · obtain ⟨rfl, rfl⟩ : c₁ = '/' ∧ c₂ = 'a' := by
          have h₁ := congrArg List.head? h2
          have h₂ := congrArg (fun l => l.tail.head?) h2
          exact ⟨by simpa using h₁.symm, by simpa using h₂.symm⟩
        rcases w with _ | ⟨c₁, w⟩
        · simp at hlen
        · have h1' : '/' :: ("allocation/".toList ++ (ds ++ ['/'])) = c₁ :: (w ++ '/' :: 'a' :: c) := h1
          exact slash_a_not_inside hd (List.cons.inj h1').2

/-- Nothing in front of the end of a clean realm looks like its end. -/
theorem not_prefix_user {realm a b z : List Char}
    (hr : ∀ a b, realm ++ "/user/".toList = a ++ ("/user/".toList ++ b) → b = [])
    (hab : a ++ b = realm ++ ("/user/".toList ++ z)) (hlen : a.length < realm.length) :
    ¬ "/user/".toList <+: b := by
  rintro ⟨b, rfl⟩
  rw [← List.append_assoc, ← List.append_assoc realm] at hab
  rcases List.append_eq_append_iff.mp hab with ⟨c, h1, -⟩ | ⟨c, h1, -⟩
  · have hc := hr a c (by rw [h1]; simp)
    have hl := congrArg List.length h1
    simp only [hc, List.length_append, List.append_nil] at hl
    omega
  · have hl := congrArg List.length h1
    simp only [List.length_append] at hl
    omega

/-- In front of the end of a text without slashes, nothing begins with a slash. -/
theorem not_prefix_slash {t a b rest sep : List Char} (ht : '/' ∉ t)
    (hab : a ++ b = t ++ rest) (hlen : a.length < t.length) : ¬ '/' :: sep <+: b := by
  rintro ⟨c, rfl⟩
  rcases List.append_eq_append_iff.mp hab with ⟨w, h1, h2⟩ | ⟨w, h1, -⟩
  · rcases w with _ | ⟨d, w⟩
    · simp [h1] at hlen
    · simp only [List.cons_append, List.cons.injEq] at h2
      exact ht (by rw [h1, ← h2.1]; simp)
  · have hl := congrArg List.length h1
    simp only [List.length_append] at hl
    omega

theorem dot_eq_false {c : Char} (h : dot c = false) :
    c ∈ ['\n', '\r', Char.ofNat 0x2028, Char.ofNat 0x2029] := by
  simp only [dot, Bool.not_eq_false', Bool.or_eq_true, decide_eq_true_eq] at h
  simpa [or_assoc] using h

/-- A class without a slash and without line terminators. -/
theorem plain_class {p : Char → Bool}
    (hp : ['/', '\n', '\r', Char.ofNat 0x2028, Char.ofNat 0x2029].all (!p ·) = true) {t : List Char}
    (ht : ∀ c ∈ t, p c = true) : '/' ∉ t ∧ t.all dot = true := by
  have h : ∀ c ∈ ['/', '\n', '\r', Char.ofNat 0x2028, Char.ofNat 0x2029], p c = false := fun c hc =>
    Bool.not_eq_true' (p c) ▸ List.all_eq_true.mp hp c hc
  refine ⟨fun hm => ?_, List.all_eq_true.mpr fun c hc => ?_⟩
  · have := ht _ hm
    rw [h _ (by simp)] at this
    cases this
  · cases hd : dot c with
    | true => rfl
    | false =>
      have := ht c hc
      rw [h c (List.mem_cons_of_mem _ (dot_eq_false hd))] at this
      cases this

/-- A character of a decimal integer. -/
def isIntChar (c : Char) : Bool := c.isDigit || c = '-'

theorem isIntChar_toString (n : Int) : ∀ c ∈ (toString n).toList, isIntChar c = true := by
  have hd : ∀ m : Nat, ∀ c ∈ Nat.toDigits 10 m, c.isDigit = true := fun m c hc =>
    Nat.isDigit_of_mem_toDigits (by decide) (by decide) hc
  cases n with
  | ofNat m =>
    intro c hc
    have hl : (toString (Int.ofNat m)).toList = Nat.toDigits 10 m := by
      show m.repr.toList = _
      simp
    rw [hl] at hc
    simp [isIntChar, hd m c hc]
  | negSucc m =>
    intro c hc
    have hl : (toString (Int.negSucc m)).toList = '-' :: Nat.toDigits 10 (m + 1) := by
      show ("-" ++ (m + 1).repr).toList = _
      simp
    rw [hl] at hc
    rcases List.mem_cons.mp hc with rfl | hc
    · rfl
    · simp [isIntChar, hd _ c hc]

theorem pad18_digits (n : Nat) : (pad18 n).all Char.isDigit = true := by
  refine List.all_eq_true.mpr fun c hc => ?_
  rcases List.mem_append.mp hc with hc | hc
  · rw [List.eq_of_mem_replicate hc]
    rfl
  · exact Nat.isDigit_of_mem_toDigits (by decide) (by decide) hc

/-- The channel is read up to the user name, whatever follows it. -/
theorem search_key {s : Session} (hne : s.realm ≠ "") (hr : RealmClean s.realm) {u : List Char}
    {x : List (List Char)} (h : lazyStar dot (run afterUser) (userTail s) = some (u, x)) :
    search channelPattern s.key.toList = some (u :: x) := by
  have hip := plain_class (p := isIpChar) (by decide) (List.all_eq_true.mp s.ip_chars)
  have hport := plain_class (p := isIntChar) (by decide) (isIntChar_toString s.publicPort)
  have huser : run (.lazy dot true :: afterUser) (userTail s) = some (u :: x) := by
    simp only [run, h, Option.map_some]
    rfl
  refine search_of_run ?_
  rw [key_toList s hne, channelPattern, run_lit]
  refine run_lazy hip.2 ?_ fun a b hab hlen => run_lit_ne (not_prefix_slash hip.1 hab hlen)
  rw [run_lit]
  refine run_lazy hport.2 ?_ fun a b hab hlen => run_lit_ne (not_prefix_slash hport.1 hab hlen)
  rw [run_lit]
  refine run_lazy hr.1 ?_ fun a b hab hlen => run_lit_ne (not_prefix_user hr.2 hab hlen)
  rw [run_lit]
  exact huser

/-- The pattern: literals with a `*` in between. -/
theorem trafficPattern_eq : trafficPattern = "turn/".toList.map GlobTok.lit ++ .star ::
    ("/".toList.map GlobTok.lit ++ .star :: ("/realm/".toList.map GlobTok.lit ++ .star ::
      ("/user/".toList.map GlobTok.lit ++ .star :: ("/allocation/".toList.map GlobTok.lit ++ .star ::
        "/traffic".toList.map GlobTok.lit)))) := by
  decide +kernel

/-- The channel of a session with a realm matches the pattern. -/
theorem trafficPattern_key {s : Session} (hne : s.realm ≠ "") :
    trafficPattern.matchString s.key = true := by
  rw [Glob.matchString, Glob.matchChars_iff, trafficPattern_eq, key_toList s hne]
  exact Glob.denotes_field (Glob.denotes_field (Glob.denotes_field (Glob.denotes_field
    (Glob.denotes_field (Glob.denotes_self _) _ _) _ _) _ _) _ _) _ _

/-! ## Agreement -/

/-- What is published for the session is received, and read back as its user and its sent bytes. -/
def Agrees (s : Session) : Prop :=
  ∃ channel message, turnReportSessionUsage s = some (channel, message) ∧
    trafficPattern.matchString channel = true ∧
    parseTurnTraffic channel message = some ⟨s.username, toString s.sentBytes⟩

theorem parse_key {s : Session} {u : List Char} {x : List (List Char)}
    (h : search channelPattern s.key.toList = some (u :: x)) (hx : x.length = 1) :
    parseTurnTraffic s.key s.usage = some ⟨String.ofList u, toString s.sentBytes⟩ := by
  obtain ⟨d, rfl⟩ := List.length_eq_one_iff.mp hx
  simp only [parseTurnTraffic, h, search_usage, String.ofList_toList]

/-- The user that is read has no line terminator. -/
theorem dot_of_parse {channel message : String} {t : TrafficRecord}
    (h : parseTurnTraffic channel message = some t) : t.user.toList.all dot = true := by
  unfold parseTurnTraffic at h
  split at h
  · rename_i user d hs
    split at h
    · cases h
      have hc := search_captures hs
      cases hc with
      | cons hdot _ => simpa using hdot
    · cases h
  · cases h

theorem agrees_of_clean {s : Session} (hne : s.realm ≠ "") (hdue : s.Due)
    (hfits : Fits "publish" s.key) (hr : RealmClean s.realm) (hu : UserClean s.username) :
    Agrees s := by
  have hend : run afterUser ("/allocation/".toList ++ (pad18 s.id ++ "/traffic".toList)) =
      some [pad18 s.id] := run_afterUser (pad18_digits s.id) "traffic".toList
  have hstar : lazyStar dot (run afterUser) (userTail s) =
      some (s.username.toList, [pad18 s.id]) :=
    lazyStar_eq hu.1 hend fun a b hab hlen => run_afterUser_none hu hab hlen
  refine ⟨s.key, s.usage, ?_, trafficPattern_key hne, ?_⟩
  · rw [turnReportSessionUsage, if_pos hdue, sendPublish, if_pos hfits]
  · rw [parse_key (search_key hne hr hstar) rfl, String.ofList_toList]

/-- With a clean realm, an unclean user name is cut off. -/
theorem clean_of_agrees {s : Session} (hne : s.realm ≠ "") (hr : RealmClean s.realm)
    (h : Agrees s) : Fits "publish" s.key ∧ UserClean s.username := by
  obtain ⟨channel, message, hpub, -, hparse⟩ := h
  unfold turnReportSessionUsage sendPublish at hpub
  split at hpub
  · split at hpub
    · rename_i hfits
      cases hpub
      have hdot : s.username.toList.all dot = true := dot_of_parse hparse
      refine ⟨hfits, hdot, fun a ds b hsplit => ?_⟩
      cases hd : ds.all Char.isDigit with
      | false => rfl
      | true =>
        exfalso
        -- The match ends at the first end of a user name, which is in front of the real one.
        obtain ⟨e, he⟩ : ∃ e, userTail s = a ++ ("/allocation/".toList ++ (ds ++ '/' :: e)) := by
          refine ⟨b ++ ("allocation/".toList ++ (pad18 s.id ++ "/traffic".toList)), ?_⟩
          have := congrArg (· ++ ("allocation/".toList ++ (pad18 s.id ++ "/traffic".toList))) hsplit
          simpa [userTail] using this
        have hlen : a.length < s.username.toList.length := by
          have := congrArg List.length hsplit
          simp only [List.length_append, List.length_cons, List.length_nil] at this
          have h12 : "/allocation/".toList.length = 12 := rfl
          omega
        have hall : a.all dot = true := by
          rcases List.append_eq_append_iff.mp hsplit with ⟨w, h, -⟩ | ⟨w, h, -⟩
          · rw [h, List.length_append] at hlen
            omega
          · rw [h, List.all_append, Bool.and_eq_true] at hdot
            exact hdot.1
        obtain ⟨u, x, hstar, hle⟩ := lazyStar_le hall (run_afterUser hd e)
        rw [← he] at hstar
        have hx : x.length = 1 := by
          obtain ⟨-, b', -, hk⟩ := lazyStar_some hstar
          exact (run_captures hk).length_eq.symm
        rw [parse_key (search_key hne hr hstar) hx] at hparse
        simp only [Option.some.injEq, TrafficRecord.mk.injEq, and_true] at hparse
        rw [← hparse, String.toList_ofList] at hlen
        omega
    · cases hpub
  · cases hpub

/-- A text without slashes and line terminators is clean, as a realm and as a user name. -/
theorem clean_of_plain {t : String} (hs : '/' ∉ t.toList) (hd : t.toList.all dot = true) :
    RealmClean t ∧ UserClean t := by
  refine ⟨⟨hd, fun a b hab => ?_⟩, hd, fun a ds b hab => ?_⟩
  · have hl := congrArg List.length hab
    simp only [List.length_append] at hl
    by_cases hlen : a.length < t.toList.length
    · exact absurd (List.prefix_append _ _) (not_prefix_slash hs hab.symm hlen)
    · exact List.length_eq_zero_iff.mp (by omega)
  · have hl := congrArg List.length hab
    have h12 : "/allocation/".toList.length = 12 := rfl
    simp only [List.length_append, List.length_cons, List.length_nil] at hl
    exact absurd (List.prefix_append _ _) (not_prefix_slash hs hab.symm (by omega))

/-- A session of a user of the default realm. -/
def sampleSession (username : String)
    (h : isSecureUsername username = true ∧ '%' ∉ username.toList) : Session where
  publicIp := "192.0.2.1"
  publicPort := 3478
  realm := realm
  username := username
  id := 1
  receivedPackets := 2000
  receivedBytes := 60000
  sentPackets := 48
  sentBytes := 4800
  ip_chars := by decide +kernel
  realm_chars := by decide +kernel
  username_secure := h
  id_lt := by decide
  counters_lt := by decide

end Broker
end QosSupport
