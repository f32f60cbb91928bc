import Mathlib.Data.List.Perm.Basic
import Mathlib.Data.List.Count
import QosSupport.Broker.Effects

/-!
# The TURN servers that are offered

`getTurnServers` reads the keys `turnservers:*` and then the value of each one. The replies are collected
in a list, in the order in which their callbacks run, and the promise is resolved when the list is
complete.

* `turnKeys`: the keys that are there; `Offers`: there is one, and each holds a string.
* `outcome_of_front`: if the servers are offered, every complete run resolves, with each of them once, in
  some order. Otherwise (no server, or a key of another type) every complete run rejects.
-/

namespace QosSupport
namespace Broker

open Redis EventLoop Js

/-- The key of a TURN server. -/
def turnKey (name : String) : String := "turnservers:" ++ name

/-- The keys that `KEYS turnservers:*` gives. -/
def turnKeys (now : Nat) (db : Db) : List String :=
  db.keys.filter fun k => (find now db k).isSome && (Glob.ofString "turnservers:*").matchString k

/-- There is a TURN server, and what is kept of each one is a string. -/
def Offers (now : Nat) (db : Db) : Prop :=
  (∃ name e, find now db (turnKey name) = some e) ∧
    ∀ name e, find now db (turnKey name) = some e → ∃ v, e.value = .str v

/-- The item of the list for a key, by the reply to its `GET`. -/
def turnServerOf (reply : String → Reply) (turnName : String) : TurnServer :=
  ⟨turnName, match reply turnName with
    | .bulk s => some s
    | _ => none⟩

/-- The item of the list for a key and the reply to its `GET`. -/
def answered (z : String × Reply) : TurnServer := turnServerOf (fun _ => z.2) z.1

/-- The promise is rejected. -/
def IsRejected (l : Locals) : Prop := ∃ r, l.outcome = some (.rejected r)

/-! ## The keys -/

theorem mem_turnKeys {now : Nat} {db : Db} {k : String} :
    k ∈ turnKeys now db ↔ (∃ name, k = turnKey name) ∧ ∃ e, find now db k = some e := by
  have hglob : Glob.ofString "turnservers:*" = "turnservers:".toList.map .lit ++ [.star] := by decide
  rw [turnKeys, mem_keys, Glob.matchString_star hglob]
  rfl

/-- The replies to `GET` of the keys decide whether the servers are offered. -/
theorem offers_iff {now : Nat} {db : Db} : Offers now db ↔ turnKeys now db ≠ [] ∧
    ∀ k ∈ turnKeys now db, (execDb now (.get k) db).2.isOk = true := by
  have hreply : ∀ k e, find now db k = some e →
      ((execDb now (.get k) db).2.isOk = true ↔ ∃ v, e.value = .str v) := by
    intro k ⟨v, t⟩ he
    cases v <;> simp [execDb, he, Reply.isOk]
  constructor
  · rintro ⟨⟨name, e, he⟩, hall⟩
    refine ⟨List.ne_nil_of_mem (mem_turnKeys.mpr ⟨⟨name, rfl⟩, e, he⟩), fun k hk => ?_⟩
    obtain ⟨⟨name', rfl⟩, e', he'⟩ := mem_turnKeys.mp hk
    exact (hreply _ _ he').mpr (hall name' e' he')
  · rintro ⟨hne, hall⟩
    obtain ⟨k, hk⟩ := List.exists_mem_of_ne_nil _ hne
    obtain ⟨⟨name, rfl⟩, e, he⟩ := mem_turnKeys.mp hk
    refine ⟨⟨name, e, he⟩, fun name' e' he' => ?_⟩
    exact (hreply _ _ he').mp (hall _ (mem_turnKeys.mpr ⟨⟨name', rfl⟩, e', he'⟩))

/-! ## The callbacks of the list -/

/-- **A list that callbacks complete.** Each callback appends an item, and settles the promise if the list
has reached its size: so nothing is settled before the last one, and the last one settles it with all
items, in the order of the callbacks. -/
theorem gathered {α β : Type} (get : Locals → List β) (turn : α → P) (item : α → β)
    (res : List β → Outcome) {size : Nat} (ts : List α) (l : Locals)
    (hget : ∀ a ∈ ts, ∀ l, get ((turn a).issue l).2 = get l ++ [item a])
    (hout : ∀ a ∈ ts, ∀ l, ((turn a).issue l).2.outcome = l.outcome.or
      (if (get l).length + 1 = size then some (res (get l ++ [item a])) else none)) :
    ((get l).length + ts.length < size →
      (Client.runTurns (ts.map turn) l).outcome = l.outcome) ∧
    (ts ≠ [] → (get l).length + ts.length = size →
      (Client.runTurns (ts.map turn) l).outcome = l.outcome.or (some (res (get l ++ ts.map item)))) := by
  induction ts generalizing l with
  | nil => exact ⟨fun _ => rfl, fun hts => absurd rfl hts⟩
  | cons a ts ih =>
    obtain ⟨ih₁, ih₂⟩ := ih ((turn a).issue l).2 (fun b hb => hget b (List.mem_cons_of_mem _ hb))
      (fun b hb => hout b (List.mem_cons_of_mem _ hb))
    rw [hget a List.mem_cons_self, hout a List.mem_cons_self, List.length_append,
      List.length_singleton] at ih₁ ih₂
    rw [List.map_cons, Client.runTurns, List.foldl_cons, List.length_cons]
    refine ⟨fun hlt => ?_, fun _ hsize => ?_⟩
    · refine (ih₁ (by omega)).trans ?_
      rw [if_neg (by omega), Option.or_none]
    · by_cases hnil : ts = []
      · subst hnil
        have hlast : (get l).length + 1 = size := by simpa using hsize
        simp [hout a List.mem_cons_self, hlast]
      · have hpos := List.length_pos_of_ne_nil hnil
        refine (ih₂ hnil (by omega)).trans ?_
        rw [if_neg (by omega), Option.or_none]
        simp

section Collect

variable {k : Except Reason (List TurnServer) → P} {v : List TurnServer → JsVal} {size : Nat}

theorem quiet_answer (hok : ∀ l, k (.ok l) = resolve (v l)) (herr : ∀ e, k (.error e) = reject e)
    (x : Except Reason (List TurnServer)) : (k x).Quiet := by
  cases x with
  | ok l =>
    rw [hok]
    exact quiet_settle _
  | error e =>
    rw [herr]
    exact quiet_settle _

/-- The callback of a reply that is no error. -/
theorem issue_collected (hok : ∀ l, k (.ok l) = resolve (v l)) {z : String × Reply}
    (h : z.2.isOk = true) (l : Locals) :
    ((gotTurnServer size z.1 k z.2).issue l).2 =
      { l with
        turnList := l.turnList ++ [answered z]
        outcome := l.outcome.or (if l.turnList.length + 1 = size then
          some (.resolved (v (l.turnList ++ [answered z]))) else none) } := by
  unfold answered turnServerOf
  cases hr : z.2 with
  | err e =>
    rw [hr] at h
    cases h
  | _ =>
    simp only [gotTurnServer, Prog.issue, List.length_append, List.length_cons, List.length_nil,
      Nat.zero_add]
    split
    · rw [hok]
      rfl
    · simp [Prog.issue]

/-- The callback of an error. -/
theorem issue_failed (herr : ∀ e, k (.error e) = reject e) (size : Nat) {z : String × Reply}
    (h : z.2.isOk = false) (l : Locals) : ∃ r,
    ((gotTurnServer size z.1 k z.2).issue l).2 =
      { l with outcome := l.outcome.or (some (.rejected r)) } := by
  cases hr : z.2 with
  | err e =>
    refine ⟨.redis e, ?_⟩
    simp only [gotTurnServer, herr]
    rfl
  | _ =>
    rw [hr] at h
    cases h

/-- **Without an error**, the promise is resolved by the callback that completes the list. -/
theorem runTurns_collected (hok : ∀ l, k (.ok l) = resolve (v l)) (zs : List (String × Reply))
    (l : Locals) (h : ∀ z ∈ zs, z.2.isOk = true) :
    (l.turnList.length + zs.length < size →
      (Client.runTurns (zs.map fun z => gotTurnServer size z.1 k z.2) l).outcome = l.outcome) ∧
    (zs ≠ [] → l.turnList.length + zs.length = size →
      (Client.runTurns (zs.map fun z => gotTurnServer size z.1 k z.2) l).outcome =
        l.outcome.or (some (.resolved (v (l.turnList ++ zs.map answered))))) := by
  refine gathered Locals.turnList (fun z => gotTurnServer size z.1 k z.2) answered
    (fun ts => .resolved (v ts)) zs l (fun z hz l => ?_) (fun z hz l => ?_)
  · rw [issue_collected hok (h z hz)]
  · rw [issue_collected hok (h z hz)]

/-- **With an error**, the list is never complete, and the promise is rejected. -/
theorem runTurns_failed (hok : ∀ l, k (.ok l) = resolve (v l))
    (herr : ∀ e, k (.error e) = reject e) (zs : List (String × Reply)) (l : Locals)
    (hsize : l.turnList.length + zs.countP (fun z => z.2.isOk) < size)
    (hl : l.outcome = none ∨ IsRejected l)
    (h : IsRejected l ∨ ∃ z ∈ zs, z.2.isOk = false) :
    IsRejected (Client.runTurns (zs.map fun z => gotTurnServer size z.1 k z.2) l) := by
  induction zs generalizing l with
  | nil => simpa [Client.runTurns] using h
  | cons z zs ih =>
    rw [List.map_cons, Client.runTurns, List.foldl_cons]
    cases hz : z.2.isOk with
    | false =>
      obtain ⟨r, hr⟩ := issue_failed herr size hz l
      rw [hr]
      have hrej : IsRejected { l with outcome := l.outcome.or (some (.rejected r)) } := by
        rcases hl with hl | ⟨r', hl⟩
        · exact ⟨r, by rw [hl]; rfl⟩
        · exact ⟨r', by rw [hl]; rfl⟩
      rw [List.countP_cons_of_neg (by simp [hz])] at hsize
      exact ih _ hsize (.inr hrej) (.inl hrej)
    | true =>
      rw [List.countP_cons_of_pos (by simpa using hz)] at hsize
      rw [issue_collected hok hz l, if_neg (by omega), Option.or_none]
      refine ih _ ?_ hl ?_
      · simp only [List.length_append, List.length_cons, List.length_nil]
        omega
      · refine h.imp id ?_
        rintro ⟨x, hx, hxr⟩
        rcases List.mem_cons.mp hx with rfl | hx
        · rw [hz] at hxr
          cases hxr
        · exact ⟨x, hx, hxr⟩

/-- **The list at any moment**, when the callbacks of `zs` have run: unsettled while some are missing,
resolved with all of them when none is, and rejected with an error. -/
theorem runTurns_cases (hok : ∀ l, k (.ok l) = resolve (v l)) (herr : ∀ e, k (.error e) = reject e)
    (size : Nat) (zs : List (String × Reply)) (hsize : zs.length ≤ size) :
    ((∀ z ∈ zs, z.2.isOk = true) → zs.length < size →
      (Client.runTurns (zs.map fun z => gotTurnServer size z.1 k z.2) Locals.init).outcome = none) ∧
    ((∀ z ∈ zs, z.2.isOk = true) → zs ≠ [] → zs.length = size →
      (Client.runTurns (zs.map fun z => gotTurnServer size z.1 k z.2) Locals.init).outcome =
        some (.resolved (v (zs.map answered)))) ∧
    ((∃ z ∈ zs, z.2.isOk = false) →
      IsRejected (Client.runTurns (zs.map fun z => gotTurnServer size z.1 k z.2) Locals.init)) := by
  refine ⟨fun h hlt => ?_, fun h hne heq => ?_, fun h => ?_⟩
  · exact (runTurns_collected hok zs Locals.init h).1 ((Nat.zero_add _).trans_lt hlt)
  · exact (runTurns_collected hok zs Locals.init h).2 hne ((Nat.zero_add _).trans heq)
  · obtain ⟨z, hz, hbad⟩ := h
    refine runTurns_failed hok herr zs Locals.init ?_ (.inl rfl) (.inr ⟨z, hz, hbad⟩)
    have hlt : zs.countP (fun z => z.2.isOk) < zs.length :=
      List.countP_lt_length_iff.mpr ⟨z, hz, by simp [hbad]⟩
    exact (Nat.zero_add _).trans_lt (hlt.trans_le hsize)

end Collect

/-! ## The answer -/

/-- The commands of a burst. -/
theorem issue_foldr_call {α : Type} (as : List α) (cmd : α → Cmd) (cb : α → Reply → P) (l : Locals) :
    (as.foldr (fun a next => Prog.call (cmd a) (cb a) next) .done).issue l =
      (as.map fun a => (cmd a, some (cb a)), l) := by
  induction as with
  | nil => rfl
  | cons a as ih => simp [Prog.issue, ih]

/-- A permutation of the images of a list comes from a permutation of the list. -/
theorem exists_perm_map {α β : Type} {f : α → β} {l : List α} {l' : List β} (h : l'.Perm (l.map f)) :
    ∃ l₁ : List α, l₁.Perm l ∧ l' = l₁.map f := by
  obtain ⟨l₁, h₁, h₂⟩ := (congrFun (congrFun (List.eq_map_comp_perm f) l') l).mpr h
  exact ⟨l₁, h₂, h₁⟩

section Answer

variable {md5 : String → String} {s s₁ s' : Server} {l l₁ : Locals} {op : Op}
  {k : Except Reason (List TurnServer) → P} {v : List TurnServer → JsVal}

/-- **A burst of reads runs all its callbacks, in some order**, each with the reply that the server has for
it. -/
theorem vars_of_reads {α : Type} {as : List α} {cmd : α → Cmd} {cb : α → Reply → P}
    (hdata : ∀ a, (cmd a).isData = true) (hread : ∀ a, (cmd a).writes = [])
    (hquiet : ∀ a r, (cb a r).Quiet)
    (hfront : (dao md5).front ((dao md5).code op) s (dao md5).init =
      (dao md5).front (as.foldr (fun a next => .call (cmd a) (cb a) next) .done) s₁ Locals.init)
    (h : (dao md5).Completes op s s' l) :
    ∃ ts : List α, ts.Perm as ∧
      l = Client.runTurns (ts.map fun a => cb a (exec (cmd a) s₁).2) Locals.init := by
  have hissue := issue_foldr_call as cmd cb Locals.init
  have hreads : ∀ p ∈ (as.map fun a => (cmd a, some (cb a))), (dao md5).ReadsQuietly s₁ p := by
    intro p hp
    obtain ⟨a, -, rfl⟩ := List.mem_map.mp hp
    refine ⟨exec_read (hdata a) (hread a) _, ?_⟩
    rintro f ⟨⟩ r
    exact hquiet a r
  obtain ⟨order, hperm, hl⟩ := Client.vars_of_burst hfront (by rw [hissue]; exact hreads) h
  rw [hissue] at hperm hl
  have hreplies : (dao md5).replies s₁ (as.map fun a => (cmd a, some (cb a))) =
      as.map fun a => cb a (exec (cmd a) s₁).2 := by
    simp only [Client.replies, List.filterMap_map]
    exact congrFun List.filterMap_eq_map _
  rw [hreplies] at hperm
  obtain ⟨ts, hts, rfl⟩ := exists_perm_map hperm
  exact ⟨ts, hts, hl⟩

theorem front_getTurnServers (k : Except Reason (List TurnServer) → P) (s : Server) (l : Locals) :
    (dao md5).front (getTurnServers k) s l =
      (dao md5).front (gotTurnKeys k (.multi (turnKeys s.now (s.dbs 2)))) (selected 2 s) l := by
  rw [getTurnServers, front_selectAsync (by decide), front_read rfl rfl]
  rfl

/-- The reply to `GET` of a key in the second database. -/
def turnReply (s : Server) (turnName : String) : Reply := (execDb s.now (.get turnName) (s.dbs 2)).2

theorem gotTurnKeys_multi {names : List String} (h : names ≠ []) :
    gotTurnKeys k (.multi names) = names.foldr (fun turnName next =>
      .call (.get turnName) (gotTurnServer names.length turnName k) next) .done := by
  cases names with
  | nil => exact absurd rfl h
  | cons t ts => rfl

/-- If there are keys, the callbacks for their values run, in some order. -/
theorem vars_of_getTurnServers (hquiet : ∀ x, (k x).Quiet)
    (hne : turnKeys s₁.now (s₁.dbs 2) ≠ [])
    (hfront : (dao md5).front ((dao md5).code op) s (dao md5).init =
      (dao md5).front (getTurnServers k) s₁ Locals.init) (h : (dao md5).Completes op s s' l) :
    ∃ ts : List String, ts.Perm (turnKeys s₁.now (s₁.dbs 2)) ∧
      l = Client.runTurns (ts.map fun t => gotTurnServer ts.length t k (turnReply s₁ t))
        Locals.init := by
  rw [front_getTurnServers, gotTurnKeys_multi hne] at hfront
  obtain ⟨ts, hts, hl⟩ := vars_of_reads (fun _ => rfl) (fun _ => rfl)
    (fun _ r => quiet_gotTurnServer hquiet r) hfront h
  exact ⟨ts, hts, by rw [hts.length_eq]; exact hl⟩

/-- **What an operation answers that ends with `getTurnServers`**: all the servers, in some order, if
they are offered; a rejection otherwise. -/
theorem outcome_of_front (hok : ∀ l, k (.ok l) = resolve (v l)) (herr : ∀ e, k (.error e) = reject e)
    (hfront : (dao md5).front ((dao md5).code op) s (dao md5).init =
      (dao md5).front (getTurnServers k) s₁ Locals.init)
    (h : (dao md5).Completes op s s' l) :
    (Offers s₁.now (s₁.dbs 2) ∧ ∃ ts : List String, ts.Perm (turnKeys s₁.now (s₁.dbs 2)) ∧
      l.outcome = some (.resolved (v (ts.map (turnServerOf (turnReply s₁)))))) ∨
    (¬ Offers s₁.now (s₁.dbs 2) ∧ IsRejected l) := by
  by_cases hkeys : turnKeys s₁.now (s₁.dbs 2) = []
  · have hno : ¬ Offers s₁.now (s₁.dbs 2) := fun ho => (offers_iff.mp ho).1 hkeys
    rw [front_getTurnServers, hkeys, gotTurnKeys, herr] at hfront
    have hend := Client.end_of_completes hfront h
    refine .inr ⟨hno, .text "No turn found", ?_⟩
    rw [(Prod.mk.inj hend).2]
    rfl
  · obtain ⟨ts, hperm, rfl⟩ := vars_of_getTurnServers (quiet_answer hok herr) hkeys hfront h
    have hts : ts ≠ [] := fun hnil => hkeys (List.Perm.nil_eq (hnil ▸ hperm)).symm
    have hturns : (ts.map fun t => gotTurnServer ts.length t k (turnReply s₁ t)) =
        (ts.map fun t => (t, turnReply s₁ t)).map fun z => gotTurnServer ts.length z.1 k z.2 := by simp
    obtain ⟨-, hresolved, hrejected⟩ := runTurns_cases hok herr ts.length
      (ts.map fun t => (t, turnReply s₁ t)) (by simp)
    rw [hturns]
    by_cases hall : ∀ t ∈ ts, (turnReply s₁ t).isOk = true
    · have ho : Offers s₁.now (s₁.dbs 2) :=
        offers_iff.mpr ⟨hkeys, fun t ht => hall t (hperm.mem_iff.mpr ht)⟩
      refine .inl ⟨ho, ts, hperm, ?_⟩
      rw [hresolved (by simpa using hall) (by simpa using hts) (by simp), List.map_map]
      rfl
    · have hno : ¬ Offers s₁.now (s₁.dbs 2) := fun ho =>
        hall fun t ht => (offers_iff.mp ho).2 t (hperm.mem_iff.mp ht)
      simp only [not_forall, Bool.not_eq_true] at hall
      obtain ⟨t, ht, hbad⟩ := hall
      exact .inr ⟨hno, hrejected ⟨(t, turnReply s₁ t), List.mem_map_of_mem ht, hbad⟩⟩

/-- **The answer of `getTurnServers`.** -/
theorem outcome_getTurnServers (h : (dao md5).Completes .getTurnServers s s' l) :
    (Offers s.now (s.dbs 2) ∧ ∃ ts : List String, ts.Perm (turnKeys s.now (s.dbs 2)) ∧
      l.outcome = some (.resolved (.turnServers (ts.map (turnServerOf (turnReply s)))))) ∨
    (¬ Offers s.now (s.dbs 2) ∧ IsRejected l) :=
  outcome_of_front (fun _ => rfl) (fun _ => rfl) rfl h

end Answer

end Broker
end QosSupport
