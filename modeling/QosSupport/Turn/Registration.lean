import QosSupport.Broker.Keys
import QosSupport.Broker.Traffic
import QosSupport.Broker.TurnServers

/-!
# The registration of a TURN server (`broker/coturn/src/apps/relay/broker.c`)

A TURN server writes its key `turnservers:ip:port` with two commands: a `SET`, which takes away a time to
live, and an `EXPIRE`. It does so at its start and then with a timer, in another thread. Redis executes the
commands in the order in which they were sent; a command may be lost when the connection breaks, or when
it could not be sent (`send_message_to_redis` in `hiredis_libevent2.c`).

* `Relay`: one TURN server and the Redis server; `Relay.last` is the last command that was executed for it,
  with the time.
* `Disappears`: the key is there, and `getTurnServers` offers the TURN server, only within
  `TURN_REGISTERED_TTL_VALUE` seconds after the last command.
* `Timely`: after a `SET`, the `EXPIRE` (or the next `SET`) is executed before this time is over.
* `disappears_iff_timely`: all states of a run have the property exactly if all its steps are timely.
* `stopped_still_there`: a TURN server that stops after the `SET` of its registration stays in the list.
-/

namespace QosSupport
namespace Turn

open Redis EventLoop Broker Run

/-- `TURN_REGISTER_REFRESH_PERIOD`, in seconds. -/
def turnRegisterRefreshPeriod : Nat := 60

/-- `TURN_REGISTERED_TTL_VALUE` -/
def turnRegisteredTtlValue : Nat := turnRegisterRefreshPeriod + 5

/-- The public address of a TURN server. It is short enough for all buffers of its key. -/
structure Address where
  publicMappedIp : String
  publicMappedPort : Int
  ip_chars : publicMappedIp.toList.all isIpChar = true
  ip_length : publicMappedIp.length ≤ 45
  port_range : -2 ^ 31 ≤ publicMappedPort ∧ publicMappedPort < 2 ^ 31

/-- `db_turn_register_key` -/
def Address.key (a : Address) : String :=
  "turnservers:" ++ a.publicMappedIp ++ ":" ++ toString a.publicMappedPort

/-- What `getCpuUsage`, `getPhysMemUsage` and `getSwapMemUsage` give, with two decimals. -/
structure Load where
  cpu : String
  physMem : String
  swapMem : String

/-- The value of the key. -/
def Load.text (load : Load) : String :=
  "cpu=" ++ load.cpu ++ "%, phys_mem=" ++ load.physMem ++ "%, swap_mem=" ++ load.swapMem ++ "%"

/-- The commands that `register_to_db` sends, one after the other. -/
def registerToDb (key : String) (load : Load) : List Cmd :=
  [.set key load.text, .expire key turnRegisteredTtlValue]

/-- The TURN server and the Redis server. -/
structure Relay where
  server : Server
  /-- What each call of `register_to_db` has still to send. -/
  calls : List (List Cmd)
  /-- The commands that were sent and are not executed yet. -/
  sent : List Cmd
  /-- The last command that was executed, and when. -/
  last : Option (Nat × Cmd)
  running : Bool

inductive Event where
  /-- `setup_broker_server`: the TURN server starts, and registers. -/
  | start (load : Load)
  /-- `turn_register_timeout_handler`: the timer calls `register_to_db`. -/
  | refresh (load : Load)
  /-- The `i`-th call sends its next command. -/
  | send (i : Nat)
  /-- Redis executes the oldest command. -/
  | execute
  /-- The oldest command is lost. -/
  | lose
  /-- The TURN server stops. -/
  | stop
  /-- Time passes, or another client of Redis executes a command. -/
  | env (a : Env)

/-- Others do not write the key. -/
def spares (key : String) : Env → Bool
  | .tick _ => true
  | .client n c => n ≠ 2 ∨ key ∉ c.writes

/-- The oldest command is executed, in the broker's database. -/
def Relay.execute (σ : Relay) (c : Cmd) (rest : List Cmd) : Relay :=
  { σ with
    server := (Env.client 2 c).act σ.server
    sent := rest
    last := some (σ.server.now, c) }

/-- One step; `none` if the event is not possible. -/
def Relay.step (key : String) (σ : Relay) : Event → Option Relay
  | .start load =>
    if σ.running then none
    else some { σ with running := true, calls := σ.calls ++ [registerToDb key load] }
  | .refresh load =>
    if σ.running then some { σ with calls := σ.calls ++ [registerToDb key load] } else none
  | .send i =>
    match σ.calls[i]? with
    | some (c :: rest) => some { σ with calls := σ.calls.set i rest, sent := σ.sent ++ [c] }
    | _ => none
  | .execute =>
    match σ.sent with
    | [] => none
    | c :: rest => some (σ.execute c rest)
  | .lose =>
    match σ.sent with
    | [] => none
    | _ :: rest => some { σ with sent := rest }
  | .stop => some { σ with running := false, calls := [] }
  | .env a => if spares key a then some { σ with server := a.act σ.server } else none

/-- `Relay.step` as a relation. -/
def Step (key : String) (σ : Relay) (e : Event) (σ' : Relay) : Prop := σ.step key e = some σ'

/-- Before the first start. -/
def Relay.init (s : Server) : Relay :=
  { server := s, calls := [], sent := [], last := none, running := false }

/-- A command of the TURN server was executed within the time to live. -/
def Recent (σ : Relay) : Prop :=
  ∃ t c, σ.last = some (t, c) ∧ σ.server.now < t + turnRegisteredTtlValue

/-- **A stopped TURN server disappears**: its key is there, and it is offered, only within the time to
live after its last command. -/
structure Disappears (key : String) (σ : Relay) : Prop where
  gone : ∀ e, find σ.server.now (σ.server.dbs 2) key = some e → Recent σ
  notOffered : ∀ md5 s' l ts, (dao md5).Completes .getTurnServers σ.server s' l →
    l.outcome = some (.resolved (.turnServers ts)) → (∃ x ∈ ts, x.turnUrl = key) → Recent σ

/-- Between a `SET` and the next command, less time passes than the time to live. -/
def Timely (σ : Relay) : Event → Prop
  | .env (.tick secs) => ∀ t k v, σ.last = some (t, .set k v) →
    σ.server.now + secs < t + turnRegisteredTtlValue
  | _ => True

/-! ## What is stored -/

/-- What the last command left at the key. -/
def Stored (entry : Option Entry) : Option (Nat × Cmd) → Prop
  | none => entry = none
  | some (_, .set _ _) => ∃ v, entry = some ⟨.str v, none⟩
  | some (t, _) => ∀ e, entry = some e → ∃ x, e.expireAt = some x ∧ x ≤ t + turnRegisteredTtlValue

/-- A command of `register_to_db`. -/
def OfCall (key : String) (c : Cmd) : Prop := ∃ load, c ∈ registerToDb key load

structure Inv (key : String) (σ : Relay) : Prop where
  calls : ∀ cs ∈ σ.calls, ∀ c ∈ cs, OfCall key c
  sent : ∀ c ∈ σ.sent, OfCall key c
  stored : Stored ((σ.server.dbs 2).lookup key) σ.last

section Steps

variable {key : String} {σ σ' : Relay} {e : Event}

/-- **Everything that an event can do**: calls are made, commands are sent, lost or forgotten; the oldest
command is executed; or others act. -/
theorem step_cases (h : Step key σ e σ') :
    ((∀ a, e ≠ .env a) ∧ σ'.server = σ.server ∧ σ'.last = σ.last ∧
      (∀ cs ∈ σ'.calls, (∃ load, cs = registerToDb key load) ∨ ∃ cs' ∈ σ.calls, cs <:+ cs') ∧
      ∀ c ∈ σ'.sent, c ∈ σ.sent ∨ ∃ cs ∈ σ.calls, c ∈ cs) ∨
    (∃ c rest, e = .execute ∧ σ.sent = c :: rest ∧ σ' = σ.execute c rest) ∨
    (∃ a, e = .env a ∧ spares key a = true ∧ σ' = { σ with server := a.act σ.server }) := by
  -- The calls in progress after a new one.
  have hadd : ∀ load, ∀ cs ∈ σ.calls ++ [registerToDb key load],
      (∃ load, cs = registerToDb key load) ∨ ∃ cs' ∈ σ.calls, cs <:+ cs' := by
    intro load cs hcs
    rcases List.mem_append.mp hcs with hcs | hcs
    · exact .inr ⟨cs, hcs, List.suffix_refl cs⟩
    · exact .inl ⟨load, List.mem_singleton.mp hcs⟩
  have hsame : ∀ cs ∈ σ.calls, (∃ load, cs = registerToDb key load) ∨
      ∃ cs' ∈ σ.calls, cs <:+ cs' := fun cs hcs => .inr ⟨cs, hcs, List.suffix_refl cs⟩
  unfold Step Relay.step at h
  cases e with
  | start load =>
    simp only [Option.ite_none_left_eq_some, Option.some.injEq] at h
    obtain ⟨-, rfl⟩ := h
    exact .inl ⟨nofun, rfl, rfl, hadd load, fun c => .inl⟩
  | refresh load =>
    simp only [Option.ite_none_right_eq_some, Option.some.injEq] at h
    obtain ⟨-, rfl⟩ := h
    exact .inl ⟨nofun, rfl, rfl, hadd load, fun c => .inl⟩
  | send i =>
    simp only at h
    split at h
    · rename_i c rest hi
      have hmem := List.mem_of_getElem? hi
      cases h
      refine .inl ⟨nofun, rfl, rfl, fun cs hcs => ?_, fun x hx => ?_⟩
      · rcases List.mem_or_eq_of_mem_set hcs with hcs | rfl
        · exact hsame cs hcs
        · exact .inr ⟨_, hmem, List.suffix_cons c cs⟩
      · rcases List.mem_append.mp hx with hx | hx
        · exact .inl hx
        · rw [List.mem_singleton.mp hx]
          exact .inr ⟨_, hmem, List.mem_cons_self⟩
    · cases h
  | execute =>
    cases hs : σ.sent with
    | nil => simp [hs] at h
    | cons c rest =>
      simp only [hs, Option.some.injEq] at h
      exact .inr (.inl ⟨c, rest, rfl, rfl, h.symm⟩)
  | lose =>
    simp only at h
    split at h
    · cases h
    · rename_i c rest hs
      cases h
      refine .inl ⟨nofun, rfl, rfl, hsame, fun x hx => .inl ?_⟩
      rw [hs]
      exact List.mem_cons_of_mem _ hx
  | stop =>
    cases h
    exact .inl ⟨nofun, rfl, rfl, by simp, fun c => .inl⟩
  | env a =>
    simp only [Option.ite_none_right_eq_some, Option.some.injEq] at h
    obtain ⟨ha, rfl⟩ := h
    exact .inr (.inr ⟨a, rfl, ha, rfl⟩)

/-- Others leave what is stored alone. -/
theorem lookup_spares {a : Env} (h : spares key a = true) (s : Server) :
    ((a.act s).dbs 2).lookup key = (s.dbs 2).lookup key := by
  cases a with
  | tick secs => rfl
  | client n c =>
    by_cases hn : n = 2
    · subst hn
      simp only [Env.act, Function.update_self]
      exact execDb_frame (by simpa [spares] using h)
    · simp [Env.act, Function.update_of_ne (Ne.symm hn)]

/-- After a `SET`, the key has no time to live; after an `EXPIRE`, it has one. -/
theorem stored_execute {c : Cmd} (hc : OfCall key c) (σ : Relay) (rest : List Cmd) :
    Stored (((σ.execute c rest).server.dbs 2).lookup key) (σ.execute c rest).last := by
  have hdb : (σ.execute c rest).server.dbs 2 = (execDb σ.server.now c (σ.server.dbs 2)).1 := by
    simp [Relay.execute, Env.act]
  rw [hdb]
  obtain ⟨load, hc⟩ := hc
  simp only [registerToDb, List.mem_cons, List.not_mem_nil, or_false] at hc
  rcases hc with rfl | rfl
  · exact ⟨load.text, AList.lookup_insert _⟩
  · intro e he
    simp only [execDb] at he
    cases hf : find σ.server.now (σ.server.dbs 2) key with
    | some e' =>
      rw [hf] at he
      simp only [AList.lookup_insert, Option.some.injEq] at he
      subst he
      exact ⟨_, rfl, Nat.le_refl _⟩
    | none =>
      -- The entry, if any, has expired already.
      rw [hf] at he
      have hlive : e.live σ.server.now = false := by
        simp only [find, he, Option.filter_eq_none_iff, Option.some.injEq] at hf
        simpa using hf e rfl
      unfold Entry.live at hlive
      split at hlive
      · cases hlive
      · rename_i x hx
        have hle : x ≤ σ.server.now := by simpa using hlive
        exact ⟨x, hx, by omega⟩

theorem inv_step (h : Step key σ e σ') (hi : Inv key σ) : Inv key σ' := by
  obtain ⟨-, hserver, hlast, hcalls, hsent⟩ | ⟨c, rest, -, hs, rfl⟩ | ⟨a, -, ha, rfl⟩ := step_cases h
  · refine ⟨fun cs hcs c hc => ?_, fun c hc => ?_, by rw [hserver, hlast]; exact hi.stored⟩
    · obtain ⟨load, rfl⟩ | ⟨cs', hcs', hsuf⟩ := hcalls cs hcs
      · exact ⟨load, hc⟩
      · exact hi.calls cs' hcs' c (hsuf.subset hc)
    · obtain hc | ⟨cs, hcs, hc⟩ := hsent c hc
      · exact hi.sent c hc
      · exact hi.calls cs hcs c hc
  · have hsent : ∀ x ∈ c :: rest, OfCall key x := hs ▸ hi.sent
    refine ⟨hi.calls, fun x hx => hsent x (List.mem_cons_of_mem _ hx), ?_⟩
    exact stored_execute (hsent c List.mem_cons_self) σ rest
  · exact ⟨hi.calls, hi.sent, by rw [lookup_spares ha]; exact hi.stored⟩

/-! ## When the key is there -/

/-- What is not there is not offered. -/
theorem disappears_iff :
    Disappears key σ ↔ ∀ e, find σ.server.now (σ.server.dbs 2) key = some e → Recent σ := by
  refine ⟨fun h => h.gone, fun h => ⟨h, fun md5 s' l ts hdone hl hx => ?_⟩⟩
  obtain ⟨x, hx, rfl⟩ := hx
  obtain ⟨-, names, hperm, hl'⟩ | ⟨-, r, hl'⟩ := outcome_getTurnServers hdone
  · rw [hl] at hl'
    cases hl'
    obtain ⟨name, hname, rfl⟩ := List.mem_map.mp hx
    obtain ⟨-, e, he⟩ := mem_turnKeys.mp (hperm.mem_iff.mp hname)
    exact h e he
  · rw [hl] at hl'
    cases hl'

theorem disappears_congr (hserver : σ'.server = σ.server) (hlast : σ'.last = σ.last) :
    Disappears key σ' ↔ Disappears key σ := by
  simp only [disappears_iff, Recent, hserver, hlast]

/-- After `secs` seconds, the property depends on the last command: a `SET` must not be too old. -/
theorem disappears_tick (hi : Inv key σ) (secs : Nat) :
    Disappears key { σ with server := (Env.tick secs).act σ.server } ↔
      Timely σ (.env (.tick secs)) := by
  have hstored := hi.stored
  rw [disappears_iff]
  simp only [Timely, Recent, Env.act, find]
  rcases hl : σ.last with _ | ⟨t, c⟩
  · rw [hl] at hstored
    have hnone : (σ.server.dbs 2).lookup key = none := hstored
    simp [hnone]
  · rw [hl] at hstored
    cases c with
    | set k v =>
      obtain ⟨w, hw⟩ := hstored
      rw [hw]
      constructor
      · intro h t' k' v' heq
        cases heq
        obtain ⟨t', c', heq, hlt⟩ := h ⟨.str w, none⟩ rfl
        cases heq
        exact hlt
      · intro h e _
        exact ⟨t, .set k v, rfl, h t k v rfl⟩
    | _ =>
      refine iff_of_true (fun e he => ?_) (by simp)
      obtain ⟨hlookup, hlive⟩ := Option.filter_eq_some_iff.mp he
      obtain ⟨x, hx, hle⟩ := hstored e hlookup
      have hlt : σ.server.now + secs < x := by simpa [Entry.live, hx] using hlive
      exact ⟨t, _, rfl, by omega⟩

/-- **The state after a step** has the property exactly if the step is timely. -/
theorem disappears_step (h : Step key σ e σ') (hi : Inv key σ) (hd : Disappears key σ) :
    Timely σ e ↔ Disappears key σ' := by
  obtain ⟨hne, hserver, hlast, -⟩ | ⟨c, rest, rfl, -, rfl⟩ | ⟨a, rfl, ha, rfl⟩ := step_cases h
  · have ht : Timely σ e := by
      cases e with
      | env a => exact absurd rfl (hne a)
      | _ => trivial
    exact iff_of_true ht ((disappears_congr hserver hlast).mpr hd)
  · refine iff_of_true trivial (disappears_iff.mpr fun e _ => ⟨σ.server.now, c, rfl, ?_⟩)
    exact Nat.lt_add_of_pos_right (by decide)
  · cases a with
    | tick secs => exact (disappears_tick hi secs).symm
    | client n c =>
      refine iff_of_true trivial (disappears_iff.mpr fun e hf => ?_)
      have hfind : find σ.server.now (σ.server.dbs 2) key = some e := by
        rw [← hf]
        exact (find_congr (lookup_spares ha σ.server)).symm
      exact hd.gone e hfind

/-- Time can always pass. -/
theorem timely_of_impossible (h : σ.step key e = none) : Timely σ e := by
  cases e with
  | env a =>
    cases a with
    | tick secs => simp [Relay.step, spares] at h
    | client n c => trivial
  | _ => trivial

end Steps

/-! ## All runs -/

/-- **A stopped TURN server disappears** in all states of a run exactly if all steps of the run are
timely. -/
theorem disappears_iff_timely (a : Address) (s : Server) (es : List Event) (σ : Relay)
    (hs : (s.dbs 2).lookup a.key = none) :
    (Steps (Step a.key) Timely (.init s) es σ → Disappears a.key σ) ∧
    (Steps (Step a.key) Timely (.init s) es σ ↔
      Steps (Step a.key) (fun τ e => ∀ τ', Step a.key τ e τ' → Disappears a.key τ') (.init s) es σ) := by
  have hinit : Inv a.key (.init s) ∧ Disappears a.key (.init s) := by
    refine ⟨⟨by simp [Relay.init], by simp [Relay.init], hs⟩, disappears_iff.mpr fun e he => ?_⟩
    obtain ⟨hlookup, -⟩ := Option.filter_eq_some_iff.mp he
    rw [show ((Relay.init s).server.dbs 2).lookup a.key = none from hs] at hlookup
    cases hlookup
  have hstep : ∀ τ e τ', Inv a.key τ ∧ Disappears a.key τ → Timely τ e → Step a.key τ e τ' →
      Inv a.key τ' ∧ Disappears a.key τ' := fun τ e τ' hi ht hst =>
    ⟨inv_step hst hi.1, (disappears_step hst hi.1 hi.2).mp ht⟩
  refine ⟨fun hrun => (hrun.inv hstep hinit).2, Steps.congr hstep (fun τ e hi => ?_) hinit⟩
  constructor
  · intro ht τ' hst
    exact (disappears_step hst hi.1 hi.2).mp ht
  · intro hgood
    cases hst : τ.step a.key e with
    | none => exact timely_of_impossible hst
    | some τ' => exact (disappears_step hst hi.1 hi.2).mpr (hgood τ' hst)

/-- The load of an idle host. -/
def idle : Load := { cpu := "1.00", physMem := "2.00", swapMem := "0.00" }

/-- An address. -/
def sampleAddress : Address := ⟨"198.51.100.7", 3478, by decide, by decide, by decide⟩

/-- A TURN server registers and stops; its key is gone after the time to live. -/
theorem stopped_disappears : ∃ σ, Steps (Step sampleAddress.key) Timely (.init blank)
    [.start idle, .send 0, .send 0, .execute, .execute, .stop, .env (.tick 65)] σ ∧
    Disappears sampleAddress.key σ ∧ ¬ Recent σ := by
  obtain ⟨σ, hrun, hlast, hnow⟩ : ∃ σ, Steps (Step sampleAddress.key) Timely (.init blank)
      [.start idle, .send 0, .send 0, .execute, .execute, .stop, .env (.tick 65)] σ ∧
      σ.last = some (0, .expire sampleAddress.key turnRegisteredTtlValue) ∧ σ.server.now = 65 := by
    refine ⟨_, .cons trivial rfl (.cons trivial rfl (.cons trivial rfl (.cons trivial rfl
      (.cons trivial rfl (.cons trivial rfl (.one ?_ rfl)))))), rfl, rfl⟩
    intro t k v hl
    cases hl
  refine ⟨σ, hrun, (disappears_iff_timely sampleAddress blank _ _ rfl).1 hrun, ?_⟩
  rintro ⟨t, c, hl, hlt⟩
  rw [hlast] at hl
  cases hl
  rw [hnow] at hlt
  exact absurd hlt (by decide)

/-- A TURN server stops after the `SET` of its registration; its key is still there a day later. -/
theorem stopped_still_there : ∃ σ, Steps (Step sampleAddress.key) Any (.init blank)
    [.start idle, .send 0, .execute, .stop, .env (.tick 86400)] σ ∧
    ¬ Disappears sampleAddress.key σ := by
  refine ⟨_, .cons trivial rfl (.cons trivial rfl (.cons trivial rfl (.cons trivial rfl
    (.one trivial rfl)))), fun h => ?_⟩
  obtain ⟨t, c, hl, hlt⟩ := h.gone ⟨.str idle.text, none⟩ (by decide)
  cases hl
  exact absurd hlt (by decide)

end Turn
end QosSupport
