import Mathlib.Data.Finmap
import Mathlib.Data.List.TakeWhile
import QosSupport.Redis.Glob

/-!
# A Redis server

The part of Redis that its clients see: sixteen databases of string and hash entries with optional
times to live, one connection with a selected database, and the commands on them. Expired entries
are not there for any command (`find`).

The definitions follow Redis 3.0.7, which `redis/Dockerfile` builds. What the proofs use of it: `HINCRBY`
reads its increment and the old value with `strtoll`, writes a decimal text and refuses a sum that
overflows; the commands on hashes are refused for a string, and `GET` for a hash; `SET` takes away a
time to live, the commands on hashes keep it, and `RENAME` moves it; `RENAME` overwrites its target, and
is refused for a key and itself.

* `getLongLong`: the reading of a 64-bit integer. What is written reads back (`getLongLong_toString`);
  a text of digits is read as their value (`getLongLong_digits`).
* `execDb now c db`: a data command on one database; `exec c s`: a command of the connection.
* `execDb_frame`: a command changes only the keys of `Cmd.writes`.
* `field`: the value of one field of a hash, and what each hash command does to it.
-/

namespace QosSupport
namespace Redis

/-! ## Integers as text -/

/-- The value of one or more decimal digits. -/
def digitsValue (cs : List Char) : Option Nat :=
  if cs ≠ [] ∧ cs.all Char.isDigit then some (Nat.ofDigitChars 10 cs 0) else none

/-- `getLongLongFromObject`, which has the text up to its first NUL read by `strtoll`: a text without
any character is zero, and leading zeros and a `+` are read as well. -/
def getLongLong (s : String) : Option Int :=
  match s.toList.takeWhile (· ≠ Char.ofNat 0) with
  | [] => some 0
  | '-' :: cs => (digitsValue cs).bind fun n => if n ≤ 2 ^ 63 then some (-n) else none
  | '+' :: cs => (digitsValue cs).bind fun n => if n < 2 ^ 63 then some n else none
  | cs => (digitsValue cs).bind fun n => if n < 2 ^ 63 then some n else none

theorem digitsValue_eq {cs : List Char} (hne : cs ≠ []) (hd : ∀ c ∈ cs, c.isDigit = true) :
    digitsValue cs = some (Nat.ofDigitChars 10 cs 0) :=
  if_pos ⟨hne, List.all_eq_true.mpr hd⟩

theorem takeWhile_digits {cs : List Char} (hd : ∀ c ∈ cs, c.isDigit = true) :
    cs.takeWhile (· ≠ Char.ofNat 0) = cs := by
  refine List.takeWhile_eq_self_iff.mpr fun c hc => decide_eq_true ?_
  rintro rfl
  exact absurd (hd _ hc) (by decide)

/-- **A text of digits** is read as their value, if it has 63 bits. Without a digit, this is zero. -/
theorem getLongLong_digits {s : String} (hd : ∀ c ∈ s.toList, c.isDigit = true) :
    getLongLong s = if Nat.ofDigitChars 10 s.toList 0 < 2 ^ 63 then
      some (Nat.ofDigitChars 10 s.toList 0 : Int) else none := by
  rw [getLongLong, takeWhile_digits hd]
  split
  · rename_i hnil
    rw [hnil]
    rfl
  · rename_i cs hs
    exact absurd (hd '-' (by rw [hs]; exact List.mem_cons_self)) (by decide)
  · rename_i cs hs
    exact absurd (hd '+' (by rw [hs]; exact List.mem_cons_self)) (by decide)
  · rename_i hne _ _
    rw [digitsValue_eq hne hd, Option.bind_some]

example : getLongLong "" = some 0 ∧ getLongLong "007" = some 7 ∧ getLongLong " 7" = none := by
  decide +kernel

theorem toList_toString (n : Nat) : (toString n).toList = Nat.toDigits 10 n := by simp

theorem isDigit_toString (n : Nat) : ∀ c ∈ (toString n).toList, c.isDigit = true := by
  intro c hc
  rw [toList_toString] at hc
  exact Nat.isDigit_of_mem_toDigits (by decide) (by decide) hc

/-- What Redis writes for an integer reads back, if it has 64 bits. -/
theorem getLongLong_toString (v : Int) :
    getLongLong (toString v) = if -2 ^ 63 ≤ v ∧ v < 2 ^ 63 then some v else none := by
  cases v with
  | ofNat n =>
    have hs : toString (Int.ofNat n) = toString n := rfl
    rw [hs, getLongLong_digits (isDigit_toString n), toList_toString, Nat.ofDigitChars_ten_toDigits]
    have hcast : Int.ofNat n = (n : Int) := rfl
    rw [hcast]
    by_cases hn : n < 2 ^ 63
    · rw [if_pos hn, if_pos (by omega)]
    · rw [if_neg hn, if_neg (by omega)]
  | negSucc m =>
    have hl : (toString (Int.negSucc m)).toList = '-' :: Nat.toDigits 10 (m + 1) := by
      show ("-" ++ (m + 1).repr).toList = _
      simp
    have hd : ∀ c ∈ Nat.toDigits 10 (m + 1), c.isDigit = true := fun c hc =>
      Nat.isDigit_of_mem_toDigits (by decide) (by decide) hc
    have hne : Nat.toDigits 10 (m + 1) ≠ [] := Nat.toDigits_ne_nil
    rw [getLongLong, hl, List.takeWhile_cons, if_pos (by decide), takeWhile_digits hd]
    show (digitsValue (Nat.toDigits 10 (m + 1))).bind
      (fun n => if n ≤ 2 ^ 63 then some (-(n : Int)) else none) = _
    rw [digitsValue_eq hne hd, Option.bind_some, Nat.ofDigitChars_ten_toDigits]
    by_cases hm : m + 1 ≤ 2 ^ 63
    · rw [if_pos hm, if_pos (by omega)]
      rfl
    · rw [if_neg hm, if_neg (by omega)]

theorem getLongLong_repr {n : Nat} (h : n < 2 ^ 63) : getLongLong (toString n) = some (n : Int) := by
  have hv := getLongLong_toString (n : Int)
  rwa [if_pos ⟨by omega, by exact_mod_cast h⟩] at hv

/-- What Redis reads is a 64-bit integer. -/
theorem getLongLong_range {s : String} {v : Int} (h : getLongLong s = some v) :
    -2 ^ 63 ≤ v ∧ v < 2 ^ 63 := by
  unfold getLongLong at h
  split at h
  · cases h
    decide
  · obtain ⟨n, -, h⟩ := Option.bind_eq_some_iff.mp h
    split at h
    · cases h
      omega
    · cases h
  · obtain ⟨n, -, h⟩ := Option.bind_eq_some_iff.mp h
    split at h
    · cases h
      omega
    · cases h
  · obtain ⟨n, -, h⟩ := Option.bind_eq_some_iff.mp h
    split at h
    · cases h
      omega
    · cases h

/-! ## Data -/

abbrev Hash := Finmap fun _ : String => String

inductive Value where
  | str (s : String)
  | hash (h : Hash)
  deriving DecidableEq

/-- A value with the time at which it expires, if any. -/
structure Entry where
  value : Value
  expireAt : Option Nat
  deriving DecidableEq

/-- The entry is there at time `now`. -/
def Entry.live (now : Nat) (e : Entry) : Bool :=
  match e.expireAt with
  | none => true
  | some t => now < t

abbrev Db := AList fun _ : String => Entry

/-- The entry of a key, unless it has expired. -/
def find (now : Nat) (db : Db) (k : String) : Option Entry := (db.lookup k).filter (Entry.live now)

inductive Error where
  /-- `WRONGTYPE Operation against a key holding the wrong kind of value` -/
  | wrongType
  /-- `ERR value is not an integer or out of range` -/
  | notInteger
  /-- `ERR hash value is not an integer` -/
  | hashNotInteger
  /-- `ERR increment or decrement would overflow` -/
  | overflow
  /-- `ERR no such key` -/
  | noSuchKey
  /-- `ERR source and destination objects are the same` -/
  | sameObject
  /-- `ERR DB index is out of range` -/
  | dbIndex
  deriving DecidableEq, Repr

inductive Cmd where
  | select (n : Nat)
  | get (k : String)
  | set (k v : String)
  | expire (k : String) (secs : Nat)
  | keys (p : Glob)
  | hgetall (k : String)
  | hsetnx (k f v : String)
  | hmset (k : String) (fvs : List (String × String))
  | hincrby (k f by_ : String)
  | rename (k k' : String)
  deriving DecidableEq

/-- What the server answers. `HGETALL` of a missing key answers no field. -/
inductive Reply where
  | ok
  | nil
  | int (i : Int)
  | bulk (s : String)
  | multi (l : List String)
  | fields (h : Hash)
  | err (e : Error)
  deriving DecidableEq

/-- The reply is no error. -/
def Reply.isOk : Reply → Bool
  | .err _ => false
  | _ => true

/-! ## Commands -/

/-- Change the hash at `k`, a new one if there is none; its time to live stays. -/
def withHash (now : Nat) (db : Db) (k : String) (f : Hash → Except Error (Hash × Reply)) :
    Db × Reply :=
  match find now db k with
  | some ⟨.str _, _⟩ => (db, .err .wrongType)
  | some ⟨.hash h, t⟩ =>
    match f h with
    | .ok (h', r) => (db.insert k ⟨.hash h', t⟩, r)
    | .error e => (db, .err e)
  | none =>
    match f ∅ with
    | .ok (h', r) => (db.insert k ⟨.hash h', none⟩, r)
    | .error e => (db, .err e)

/-- `HINCRBY` of a field by `n`: a missing field counts as zero; a sum out of range is refused. -/
def incrField (f : String) (n : Int) (h : Hash) : Except Error (Hash × Reply) :=
  match (h.lookup f).map getLongLong with
  | some none => .error .hashNotInteger
  | some (some v) =>
    if -2 ^ 63 ≤ v + n ∧ v + n < 2 ^ 63 then
      .ok (h.insert f (toString (v + n)), .int (v + n))
    else .error .overflow
  | none => .ok (h.insert f (toString n), .int n)

/-- `HSETNX` of a field. -/
def setnxField (f v : String) (h : Hash) : Except Error (Hash × Reply) :=
  if f ∈ h then .ok (h, .int 0) else .ok (h.insert f v, .int 1)

/-- `HMSET` of some fields. -/
def setFields (fvs : List (String × String)) (h : Hash) : Except Error (Hash × Reply) :=
  .ok (fvs.foldl (fun h fv => h.insert fv.1 fv.2) h, .ok)

/-- A data command on one database at time `now`. -/
def execDb (now : Nat) : Cmd → Db → Db × Reply
  | .select _, db => (db, .ok)
  | .get k, db =>
    match find now db k with
    | none => (db, .nil)
    | some ⟨.str s, _⟩ => (db, .bulk s)
    | some ⟨.hash _, _⟩ => (db, .err .wrongType)
  | .set k v, db => (db.insert k ⟨.str v, none⟩, .ok)
  | .expire k secs, db =>
    match find now db k with
    | none => (db, .int 0)
    | some e => (db.insert k { e with expireAt := some (now + secs) }, .int 1)
  | .keys p, db =>
    (db, .multi (db.keys.filter fun k => (find now db k).isSome && p.matchString k))
  | .hgetall k, db =>
    match find now db k with
    | none => (db, .fields ∅)
    | some ⟨.hash h, _⟩ => (db, .fields h)
    | some ⟨.str _, _⟩ => (db, .err .wrongType)
  | .hsetnx k f v, db => withHash now db k (setnxField f v)
  | .hmset k fvs, db => withHash now db k (setFields fvs)
  | .hincrby k f by_, db =>
    match getLongLong by_ with
    | none => (db, .err .notInteger)
    | some n => withHash now db k (incrField f n)
  | .rename k k', db =>
    if k = k' then (db, .err .sameObject)
    else
      match find now db k with
      | none => (db, .err .noSuchKey)
      | some e => ((db.erase k).insert k' e, .ok)

theorem execDb_rename {a b : String} (h : a ≠ b) (now : Nat) (db : Db) :
    execDb now (.rename a b) db =
      match find now db a with
      | none => (db, .err .noSuchKey)
      | some e => ((db.erase a).insert b e, .ok) :=
  if_neg h

theorem execDb_rename_self (now : Nat) (db : Db) (a : String) :
    execDb now (.rename a a) db = (db, .err .sameObject) :=
  if_pos rfl

/-- The server and the connection: the clock, the selected database, the databases. -/
structure Server where
  now : Nat
  selected : Nat
  dbs : Nat → Db

/-- A command of the connection. -/
def exec : Cmd → Server → Server × Reply
  | .select n, s => if n < 16 then ({ s with selected := n }, .ok) else (s, .err .dbIndex)
  | c, s =>
    ({ s with dbs := Function.update s.dbs s.selected (execDb s.now c (s.dbs s.selected)).1 },
      (execDb s.now c (s.dbs s.selected)).2)

/-- The command acts on the selected database. -/
def Cmd.isData : Cmd → Bool
  | .select _ => false
  | _ => true

theorem exec_data {c : Cmd} (h : c.isData = true) (s : Server) :
    exec c s =
      ({ s with dbs := Function.update s.dbs s.selected (execDb s.now c (s.dbs s.selected)).1 },
        (execDb s.now c (s.dbs s.selected)).2) := by
  cases c <;> first | rfl | cases h

/-- What happens to the server outside of the connection. -/
inductive Env where
  /-- Time passes. -/
  | tick (secs : Nat)
  /-- Another client executes a data command in database `n`. -/
  | client (n : Nat) (c : Cmd)

def Env.act : Env → Server → Server
  | .tick secs, s => { s with now := s.now + secs }
  | .client n c, s => { s with dbs := Function.update s.dbs n (execDb s.now c (s.dbs n)).1 }

/-- Nobody else changes what the connection has selected. -/
@[simp] theorem Env.act_selected (a : Env) (s : Server) : (a.act s).selected = s.selected := by
  cases a <;> rfl

/-! ## Entries after a command -/

section Find

variable {now : Nat} {db : Db} {k k' : String} {e : Entry}

theorem find_insert_self : find now (db.insert k e) k = if e.live now then some e else none := by
  simp [find, Option.filter]

theorem find_insert_ne (h : k' ≠ k) : find now (db.insert k e) k' = find now db k' := by
  simp [find, AList.lookup_insert_ne h]

theorem find_erase_self : find now (db.erase k) k = none := by simp [find]

theorem find_erase_ne (h : k' ≠ k) : find now (db.erase k) k' = find now db k' := by
  simp [find, AList.lookup_erase_ne h]

theorem live_of_find (h : find now db k = some e) : e.live now = true := by
  simp only [find, Option.filter_eq_some_iff] at h
  exact h.2

/-- An entry that was found is found where it is put. -/
theorem find_insert_live {v : Value} {t : Option Nat} (h : (⟨v, t⟩ : Entry).live now = true) :
    find now (db.insert k ⟨v, t⟩) k = some ⟨v, t⟩ := by
  rw [find_insert_self, if_pos h]

end Find

/-- The keys that `KEYS` gives are those that are found and match. -/
theorem mem_keys {now : Nat} {db : Db} {p : Glob} {k : String} :
    k ∈ db.keys.filter (fun k => (find now db k).isSome && p.matchString k) ↔
      p.matchString k = true ∧ ∃ e, find now db k = some e := by
  have hmem : (∃ e, find now db k = some e) → k ∈ db.keys := by
    rintro ⟨e, he⟩
    obtain ⟨hl, -⟩ := Option.filter_eq_some_iff.mp he
    exact AList.mem_keys.mp (AList.lookup_isSome.mp (by rw [hl]; rfl))
  simp only [List.mem_filter, Bool.and_eq_true, Option.isSome_iff_exists]
  exact ⟨fun h => ⟨h.2.2, h.2.1⟩, fun h => ⟨hmem h.2, h.2, h.1⟩⟩

/-- The keys that a command may change. -/
def Cmd.writes : Cmd → List String
  | .set k _ | .expire k _ | .hsetnx k _ _ | .hmset k _ | .hincrby k _ _ => [k]
  | .rename k k' => [k, k']
  | .select _ | .get _ | .keys _ | .hgetall _ => []

theorem withHash_frame {now : Nat} {db : Db} {k k' : String}
    {f : Hash → Except Error (Hash × Reply)} (h : k' ≠ k) :
    (withHash now db k f).1.lookup k' = db.lookup k' := by
  unfold withHash
  split
  · rfl
  · split
    · exact AList.lookup_insert_ne h
    · rfl
  · split
    · exact AList.lookup_insert_ne h
    · rfl

/-- **Frame**: a command changes only the keys it writes. -/
theorem execDb_frame {now : Nat} {c : Cmd} {db : Db} {k : String} (h : k ∉ c.writes) :
    (execDb now c db).1.lookup k = db.lookup k := by
  cases c with
  | select | keys => rfl
  | get | hgetall => simp only [execDb]; split <;> rfl
  | set k' v => exact AList.lookup_insert_ne (by simpa [Cmd.writes] using h)
  | expire k' secs =>
    simp only [execDb]
    split
    · rfl
    · exact AList.lookup_insert_ne (by simpa [Cmd.writes] using h)
  | hsetnx k' f v => exact withHash_frame (by simpa [Cmd.writes] using h)
  | hmset k' fvs => exact withHash_frame (by simpa [Cmd.writes] using h)
  | hincrby k' f by_ =>
    simp only [execDb]
    split
    · rfl
    · exact withHash_frame (by simpa [Cmd.writes] using h)
  | rename a b =>
    simp only [Cmd.writes, List.mem_cons, List.not_mem_nil, or_false, not_or] at h
    by_cases hab : a = b
    · rw [hab, execDb_rename_self]
    · rw [execDb_rename hab]
      split
      · rfl
      · rw [AList.lookup_insert_ne h.2, AList.lookup_erase_ne h.1]

theorem find_congr {now : Nat} {db db' : Db} {k : String} (h : db'.lookup k = db.lookup k) :
    find now db' k = find now db k := by
  simp only [find, h]

/-- The commands on hashes put no string anywhere. -/
theorem str_of_withHash {now : Nat} {db : Db} {k v : String} {t : Option Nat}
    {f : Hash → Except Error (Hash × Reply)}
    (h : (withHash now db k f).1.lookup k = some ⟨.str v, t⟩) : ∃ t', db.lookup k = some ⟨.str v, t'⟩ := by
  unfold withHash at h
  split at h
  · exact ⟨t, h⟩
  · split at h
    · simp at h
    · exact ⟨t, h⟩
  · split at h
    · simp at h
    · exact ⟨t, h⟩

/-- A string that is at a key after a command was there before, or was put there. -/
theorem str_of_execDb {now : Nat} {c : Cmd} {db : Db} {k v : String} {t : Option Nat}
    (h : (execDb now c db).1.lookup k = some ⟨.str v, t⟩) :
    (∃ t', db.lookup k = some ⟨.str v, t'⟩) ∨ c = .set k v ∨ ∃ k', c = .rename k' k := by
  by_cases hk : k ∈ c.writes
  · cases c with
    | select | get | keys | hgetall => simp [Cmd.writes] at hk
    | set k₁ v₁ =>
      obtain rfl : k = k₁ := by simpa [Cmd.writes] using hk
      have hv : v₁ = v ∧ none = t := by simpa [execDb] using h
      exact .inr (.inl (by rw [hv.1]))
    | expire k₁ secs =>
      obtain rfl : k = k₁ := by simpa [Cmd.writes] using hk
      left
      simp only [execDb] at h
      split at h
      · exact ⟨t, h⟩
      · rename_i e he
        obtain ⟨he, -⟩ := Option.filter_eq_some_iff.mp he
        have hv : e.value = .str v := by
          rw [AList.lookup_insert, Option.some.injEq, Entry.mk.injEq] at h
          exact h.1
        exact ⟨e.expireAt, by rw [he, ← hv]⟩
    | hsetnx k₁ f v₁ =>
      obtain rfl : k = k₁ := by simpa [Cmd.writes] using hk
      exact .inl (str_of_withHash h)
    | hmset k₁ fvs =>
      obtain rfl : k = k₁ := by simpa [Cmd.writes] using hk
      exact .inl (str_of_withHash h)
    | hincrby k₁ f b =>
      obtain rfl : k = k₁ := by simpa [Cmd.writes] using hk
      left
      simp only [execDb] at h
      split at h
      · exact ⟨t, h⟩
      · exact str_of_withHash h
    | rename k₁ k₂ =>
      by_cases h2 : k = k₂
      · exact .inr (.inr ⟨k₁, by rw [h2]⟩)
      · obtain rfl : k = k₁ := by simpa [Cmd.writes, h2] using hk
        left
        rw [execDb_rename h2] at h
        split at h
        · exact ⟨t, h⟩
        · rw [AList.lookup_insert_ne h2] at h
          simp at h
  · rw [execDb_frame hk] at h
    exact .inl ⟨t, h⟩

/-- A command that writes no key changes nothing. -/
theorem execDb_read {now : Nat} {c : Cmd} {db : Db} (h : c.writes = []) : (execDb now c db).1 = db := by
  cases c with
  | select | keys => rfl
  | get | hgetall => simp only [execDb]; split <;> rfl
  | _ => simp [Cmd.writes] at h

/-- Run data commands in one database. -/
def runCmds (now : Nat) (cs : List Cmd) (db : Db) : Db := cs.foldl (fun db c => (execDb now c db).1) db

/-- **Frame** of a list of commands. -/
theorem runCmds_frame {now : Nat} {cs : List Cmd} {db : Db} {k : String}
    (h : ∀ c ∈ cs, k ∉ c.writes) : (runCmds now cs db).lookup k = db.lookup k := by
  induction cs generalizing db with
  | nil => rfl
  | cons c cs ih =>
    show (runCmds now cs (execDb now c db).1).lookup k = _
    rw [ih fun x hx => h x (List.mem_cons_of_mem _ hx), execDb_frame (h c List.mem_cons_self)]

/-! ## Fields of hashes -/

/-- The key holds no string: hash commands are not refused. -/
def IsHash (now : Nat) (db : Db) (k : String) : Prop :=
  ∀ e, find now db k = some e → ∃ h, e.value = .hash h

/-- The fields of the hash at a key. -/
def fieldsAt (now : Nat) (db : Db) (k : String) : Hash :=
  match find now db k with
  | some ⟨.hash h, _⟩ => h
  | _ => ∅

/-- The time at which the key expires, if any. -/
def expiry (now : Nat) (db : Db) (k : String) : Option Nat := (find now db k).bind (·.expireAt)

/-- The value of a field. -/
def field (now : Nat) (db : Db) (k f : String) : Option String := (fieldsAt now db k).lookup f

section Fields

variable {now : Nat} {db db' : Db} {k k' f f' : String}

theorem field_congr (h : find now db' k = find now db k) : field now db' k f = field now db k f := by
  simp only [field, fieldsAt, h]

theorem field_of_find {h : Hash} {t : Option Nat} (hk : find now db k = some ⟨.hash h, t⟩) :
    field now db k f = h.lookup f := by
  simp only [field, fieldsAt, hk]

theorem field_of_none (hk : find now db k = none) : field now db k f = none := by
  simp [field, fieldsAt, hk]

/-- A hash command on a string is refused. -/
theorem withHash_string {F : Hash → Except Error (Hash × Reply)} (hk : ¬ IsHash now db k) :
    (withHash now db k F).1 = db := by
  simp only [IsHash, not_forall] at hk
  obtain ⟨⟨v, t⟩, hf, hv⟩ := hk
  cases v with
  | str s => simp only [withHash, hf]
  | hash h => exact absurd ⟨h, rfl⟩ hv

/-- A refused hash command changes nothing. -/
theorem withHash_error {F : Hash → Except Error (Hash × Reply)} {e : Error} (hk : IsHash now db k)
    (hF : F (fieldsAt now db k) = .error e) : (withHash now db k F).1 = db := by
  unfold fieldsAt at hF
  unfold withHash
  rcases hf : find now db k with _ | ⟨_ | h, t⟩
  · simp only [hf] at hF
    simp only [hF]
  · obtain ⟨h, hv⟩ := hk _ hf
    cases hv
  · simp only [hf] at hF
    simp only [hF]

/-- A hash command puts the new fields at its key, with the same time to live. -/
theorem withHash_ok {F : Hash → Except Error (Hash × Reply)} {h' : Hash} {r : Reply}
    (hk : IsHash now db k) (hF : F (fieldsAt now db k) = .ok (h', r)) :
    (withHash now db k F).1 = db.insert k ⟨.hash h', expiry now db k⟩ := by
  unfold fieldsAt at hF
  unfold withHash expiry
  rcases hf : find now db k with _ | ⟨_ | h, t⟩
  · simp only [hf] at hF
    simp only [hF]
    rfl
  · obtain ⟨h, hv⟩ := hk _ hf
    cases hv
  · simp only [hf] at hF
    simp only [hF]
    rfl

/-- What a hash command put at its key is found there. -/
theorem find_insert_expiry (h : Hash) :
    find now (db.insert k ⟨.hash h, expiry now db k⟩) k = some ⟨.hash h, expiry now db k⟩ := by
  refine find_insert_live ?_
  unfold expiry
  cases hf : find now db k with
  | none => rfl
  | some e =>
    have hlive := live_of_find hf
    exact hlive

/-- `HSETNX` writes a field that is not there. -/
theorem field_hsetnx (hk : IsHash now db k) (v : String) :
    field now (execDb now (.hsetnx k f v) db).1 k' f' =
      if k' = k ∧ f' = f then some ((field now db k f).getD v) else field now db k' f' := by
  by_cases hkk : k' = k
  · subst hkk
    simp only [execDb, true_and]
    by_cases hf : f ∈ fieldsAt now db k'
    · obtain ⟨w, hw⟩ := Finmap.mem_iff.mp hf
      rw [withHash_ok hk (by rw [setnxField, if_pos hf]), field_of_find (find_insert_expiry _)]
      split
      · rename_i h
        rw [h, hw, field, hw]
        rfl
      · rfl
    · have hw : field now db k' f = none := Finmap.lookup_eq_none.mpr hf
      rw [withHash_ok hk (by rw [setnxField, if_neg hf]), field_of_find (find_insert_expiry _)]
      split
      · rename_i h
        rw [h, Finmap.lookup_insert, hw]
        rfl
      · rename_i h
        rw [Finmap.lookup_insert_of_ne _ h]
        rfl
  · rw [if_neg fun h => hkk h.1]
    exact field_congr (find_congr (execDb_frame (by simpa [Cmd.writes] using hkk)))

theorem isHash_congr (h : find now db' k = find now db k) (hk : IsHash now db k) :
    IsHash now db' k := by
  rwa [IsHash, h]

/-- A hash command puts a hash, if it puts anything. -/
theorem isHash_withHash {F : Hash → Except Error (Hash × Reply)} (h : IsHash now db k') :
    IsHash now (withHash now db k F).1 k' := by
  by_cases hkk : k' = k
  · subst hkk
    cases hF : F (fieldsAt now db k') with
    | error e => rwa [withHash_error h hF]
    | ok x =>
      obtain ⟨h', r⟩ := x
      rw [withHash_ok h hF]
      intro e he
      rw [find_insert_expiry] at he
      cases he
      exact ⟨h', rfl⟩
  · exact isHash_congr (find_congr (withHash_frame hkk)) h

/-- `RENAME` takes the fields away from its source. -/
theorem field_rename {a b : String} (h : k ≠ b) :
    field now (execDb now (.rename a b) db).1 k f = if k = a then none else field now db k f := by
  by_cases hab : a = b
  · rw [hab, execDb_rename_self, if_neg h]
  rw [execDb_rename hab]
  cases ha : find now db a with
  | none =>
    by_cases hk : k = a
    · rw [if_pos hk, hk]
      exact field_of_none ha
    · rw [if_neg hk]
  | some e =>
    by_cases hk : k = a
    · rw [if_pos hk]
      apply field_of_none
      rw [find_insert_ne h, hk, find_erase_self]
    · rw [if_neg hk]
      apply field_congr
      rw [find_insert_ne h, find_erase_ne hk]

/-- Many `HSETNX` write the fields that are not there. -/
theorem field_setnxAll {l : List (String × String × String)} (hl : ∀ x ∈ l, IsHash now db x.1) :
    field now (runCmds now (l.map fun x => .hsetnx x.1 x.2.1 x.2.2) db) k f =
      (field now db k f).or ((l.find? fun x => x.1 = k ∧ x.2.1 = f).map (·.2.2)) := by
  induction l generalizing db with
  | nil => simp [runCmds]
  | cons x l ih =>
    obtain ⟨k₁, f₁, v⟩ := x
    have hk₁ : IsHash now db k₁ := hl _ List.mem_cons_self
    have hl' : ∀ y ∈ l, IsHash now (execDb now (.hsetnx k₁ f₁ v) db).1 y.1 := fun y hy =>
      isHash_withHash (hl y (List.mem_cons_of_mem _ hy))
    refine (ih hl').trans ?_
    rw [field_hsetnx hk₁]
    by_cases h : k = k₁ ∧ f = f₁
    · obtain ⟨rfl, rfl⟩ := h
      cases field now db k f <;> simp
    · have h' : ¬ (k₁ = k ∧ f₁ = f) := fun h' => h ⟨h'.1.symm, h'.2.symm⟩
      rw [if_neg h, List.find?_cons_of_neg (by simpa using h')]

theorem lookup_setFields_ne {fvs : List (String × String)} (hf : f ∉ fvs.map Prod.fst) (h : Hash) :
    (fvs.foldl (fun h fv => h.insert fv.1 fv.2) h).lookup f = h.lookup f := by
  induction fvs generalizing h with
  | nil => rfl
  | cons fv fvs ih =>
    simp only [List.map_cons, List.mem_cons, not_or] at hf
    rw [List.foldl_cons, ih hf.2, Finmap.lookup_insert_of_ne _ hf.1]

theorem isSome_setFields {fvs : List (String × String)} {h : Hash}
    (hs : (h.lookup f).isSome = true) :
    ((fvs.foldl (fun h fv => h.insert fv.1 fv.2) h).lookup f).isSome = true := by
  induction fvs generalizing h with
  | nil => exact hs
  | cons fv fvs ih =>
    refine ih ?_
    by_cases hf : f = fv.1
    · rw [hf, Finmap.lookup_insert]
      rfl
    · rw [Finmap.lookup_insert_of_ne _ hf]
      exact hs

/-- `HMSET` changes only the fields it names. -/
theorem field_hmset_ne {fvs : List (String × String)} (hf : f ∉ fvs.map Prod.fst) :
    field now (execDb now (.hmset k fvs) db).1 k' f = field now db k' f := by
  by_cases hkk : k' = k
  · subst hkk
    simp only [execDb]
    by_cases hk : IsHash now db k'
    · rw [withHash_ok hk rfl, field_of_find (find_insert_expiry _), lookup_setFields_ne hf]
      rfl
    · rw [withHash_string hk]
  · exact field_congr (find_congr (execDb_frame (by simpa [Cmd.writes] using hkk)))

/-- `HMSET` writes its last field. -/
theorem field_hmset_last (fvs : List (String × String)) (hk : IsHash now db k) (v : String) :
    field now (execDb now (.hmset k (fvs ++ [(f, v)])) db).1 k f = some v := by
  simp only [execDb]
  rw [withHash_ok hk rfl, field_of_find (find_insert_expiry _), List.foldl_append, List.foldl_cons,
    List.foldl_nil, Finmap.lookup_insert]

/-- `HMSET` removes no field. -/
theorem isSome_field_hmset {fvs : List (String × String)}
    (hs : (field now db k' f).isSome = true) :
    (field now (execDb now (.hmset k fvs) db).1 k' f).isSome = true := by
  by_cases hkk : k' = k
  · subst hkk
    simp only [execDb]
    by_cases hk : IsHash now db k'
    · rw [withHash_ok hk rfl, field_of_find (find_insert_expiry _)]
      exact isSome_setFields hs
    · rwa [withHash_string hk]
  · rwa [field_congr (find_congr (execDb_frame (by simpa [Cmd.writes] using hkk)))]

/-- The value of a field after `HINCRBY`; `none` if the command is refused for it. -/
def incremented (old : Option String) (by_ : String) : Option Int :=
  (getLongLong by_).bind fun n =>
    match old with
    | none => some n
    | some t => (getLongLong t).bind fun v =>
      if -2 ^ 63 ≤ v + n ∧ v + n < 2 ^ 63 then some (v + n) else none

theorem hincrby_string {by_ : String} (hk : ¬ IsHash now db k) :
    (execDb now (.hincrby k f by_) db).1 = db := by
  simp only [execDb]
  split
  · rfl
  · exact withHash_string hk

theorem hincrby_refused {by_ : String} (hk : IsHash now db k)
    (hv : incremented (field now db k f) by_ = none) :
    (execDb now (.hincrby k f by_) db).1 = db := by
  simp only [execDb]
  cases hn : getLongLong by_ with
  | none => rfl
  | some n =>
    simp only [incremented, hn, Option.bind_some] at hv
    cases hf : field now db k f with
    | none => simp [hf] at hv
    | some t =>
      simp only [hf] at hv
      unfold field at hf
      cases ht : getLongLong t with
      | none => exact withHash_error hk (by simp only [incrField, hf, Option.map_some, ht]; rfl)
      | some v =>
        simp only [ht, Option.bind_some, ite_eq_right_iff, reduceCtorEq, imp_false] at hv
        exact withHash_error hk
          (by simp only [incrField, hf, Option.map_some, ht, if_neg hv]; rfl)

theorem hincrby_done {by_ : String} {v : Int} (hk : IsHash now db k)
    (hv : incremented (field now db k f) by_ = some v) :
    (execDb now (.hincrby k f by_) db).1 =
      db.insert k ⟨.hash ((fieldsAt now db k).insert f (toString v)), expiry now db k⟩ := by
  simp only [execDb]
  cases hn : getLongLong by_ with
  | none => simp [incremented, hn] at hv
  | some n =>
    simp only [incremented, hn, Option.bind_some] at hv
    cases hf : field now db k f with
    | none =>
      simp only [hf, Option.some.injEq] at hv
      subst hv
      unfold field at hf
      exact withHash_ok hk (by simp only [incrField, hf, Option.map_none]; rfl)
    | some t =>
      simp only [hf, Option.bind_eq_some_iff] at hv
      obtain ⟨w, hw, hv⟩ := hv
      unfold field at hf
      split at hv
      · rename_i hr
        cases hv
        exact withHash_ok hk (by simp only [incrField, hf, Option.map_some, hw, if_pos hr]; rfl)
      · cases hv

/-- `HINCRBY` changes only its field. -/
theorem field_hincrby_ne {by_ : String} (h : k' ≠ k ∨ f' ≠ f) :
    field now (execDb now (.hincrby k f by_) db).1 k' f' = field now db k' f' := by
  by_cases hkk : k' = k
  · subst hkk
    have hff := h.resolve_left (fun h => h rfl)
    by_cases hk : IsHash now db k'
    · cases hv : incremented (field now db k' f) by_ with
      | none => rw [hincrby_refused hk hv]
      | some v =>
        rw [hincrby_done hk hv, field_of_find (find_insert_expiry _),
          Finmap.lookup_insert_of_ne _ hff]
        rfl
    · rw [hincrby_string hk]
  · exact field_congr (find_congr (execDb_frame (by simpa [Cmd.writes] using hkk)))

/-- The field of an `HINCRBY` has its new value, unless the command is refused. -/
theorem field_hincrby_self {by_ : String} (hk : IsHash now db k) :
    field now (execDb now (.hincrby k f by_) db).1 k f =
      match incremented (field now db k f) by_ with
      | some v => some (toString v)
      | none => field now db k f := by
  cases hv : incremented (field now db k f) by_ with
  | none => rw [hincrby_refused hk hv]
  | some v => rw [hincrby_done hk hv, field_of_find (find_insert_expiry _), Finmap.lookup_insert]

/-! ## A field that has a value -/

/-- The commands that write fields of hashes. -/
def Cmd.WritesFields : Cmd → Prop
  | .hsetnx _ _ _ | .hmset _ _ | .hincrby _ _ _ => True
  | _ => False

/-- The new value of the field `f` at `k`, if it has the value `v`. -/
def Cmd.updated (k f v : String) : Cmd → String
  | .hmset k' fvs => if k' = k then fvs.foldl (fun v fv => if fv.1 = f then fv.2 else v) v else v
  | .hincrby k' f' by_ =>
    if k' = k ∧ f' = f then
      match incremented (some v) by_ with
      | some n => toString n
      | none => v
    else v
  | _ => v

theorem isHash_of_field {v : String} (h : field now db k f = some v) : IsHash now db k := by
  intro e he
  obtain ⟨value, t⟩ := e
  cases value with
  | hash h => exact ⟨h, rfl⟩
  | str s => simp [field, fieldsAt, he] at h

theorem lookup_setFields {fvs : List (String × String)} {h : Hash} {v : String}
    (hv : h.lookup f = some v) :
    (fvs.foldl (fun h fv => h.insert fv.1 fv.2) h).lookup f =
      some (fvs.foldl (fun v fv => if fv.1 = f then fv.2 else v) v) := by
  induction fvs generalizing h v with
  | nil => exact hv
  | cons fv fvs ih =>
    refine ih ?_
    show (h.insert fv.1 fv.2).lookup f = some (if fv.1 = f then fv.2 else v)
    by_cases hf : fv.1 = f
    · rw [if_pos hf, ← hf, Finmap.lookup_insert]
    · rw [if_neg hf, Finmap.lookup_insert_of_ne _ (Ne.symm hf), hv]

/-- **A field that has a value keeps one**, and only its own value decides on the new one. -/
theorem field_updated {c : Cmd} (hc : c.WritesFields) {v : String} (h : field now db k f = some v) :
    field now (execDb now c db).1 k f = some (c.updated k f v) := by
  cases c with
  | select | get | set | expire | keys | hgetall | rename => exact hc.elim
  | hsetnx k' f' v' =>
    by_cases hk : k = k'
    · subst hk
      rw [field_hsetnx (isHash_of_field h)]
      split
      · rename_i hf
        rw [← hf.2, h]
        rfl
      · exact h
    · rw [field_congr (find_congr (execDb_frame (by simpa [Cmd.writes] using hk))), h]
      rfl
  | hmset k' fvs =>
    by_cases hk : k' = k
    · subst hk
      have hF : setFields fvs (fieldsAt now db k') =
          .ok (fvs.foldl (fun h fv => h.insert fv.1 fv.2) (fieldsAt now db k'), .ok) := rfl
      rw [execDb, withHash_ok (isHash_of_field h) hF, field_of_find (find_insert_expiry _),
        lookup_setFields h, Cmd.updated, if_pos rfl]
    · rw [field_congr (find_congr (execDb_frame (by simpa [Cmd.writes] using Ne.symm hk))), h,
        Cmd.updated, if_neg hk]
  | hincrby k' f' b =>
    by_cases hkf : k' = k ∧ f' = f
    · obtain ⟨rfl, rfl⟩ := hkf
      rw [field_hincrby_self (isHash_of_field h), h, Cmd.updated, if_pos ⟨rfl, rfl⟩]
      split <;> rfl
    · have hne : k ≠ k' ∨ f ≠ f' := by
        by_contra hno
        simp only [not_or, not_not] at hno
        exact hkf ⟨hno.1.symm, hno.2.symm⟩
      rw [field_hincrby_ne hne, h, Cmd.updated, if_neg hkf]

theorem field_runCmds {cs : List Cmd} (hcs : ∀ c ∈ cs, c.WritesFields) {v : String}
    (h : field now db k f = some v) :
    field now (runCmds now cs db) k f = some (cs.foldl (fun v c => c.updated k f v) v) := by
  induction cs generalizing db v with
  | nil => exact h
  | cons c cs ih =>
    have hc := field_updated (hcs c List.mem_cons_self) h
    exact ih (fun d hd => hcs d (List.mem_cons_of_mem _ hd)) hc

/-- The field has a value, or the key holds a string: `HSETNX` of it does nothing. -/
def Taken (now : Nat) (db : Db) (k f : String) : Prop :=
  ¬ IsHash now db k ∨ (field now db k f).isSome = true

theorem find_hsetnx_taken {v : String} (h : Taken now db k f) (k' : String) :
    find now (execDb now (.hsetnx k f v) db).1 k' = find now db k' := by
  rcases h with hk | hv
  · rw [execDb, withHash_string hk]
  · obtain ⟨w, hw⟩ := Option.isSome_iff_exists.mp hv
    have hF : setnxField f v (fieldsAt now db k) = .ok (fieldsAt now db k, .int 0) :=
      if_pos (Finmap.lookup_isSome.mp hv)
    rw [execDb, withHash_ok (isHash_of_field hw) hF]
    by_cases hkk : k' = k
    · subst hkk
      rw [find_insert_expiry]
      unfold field fieldsAt at hw
      unfold fieldsAt expiry
      split at hw
      · rename_i he
        rw [he]
        rfl
      · simp at hw
    · exact find_insert_ne hkk

theorem taken_hsetnx (v : String) : Taken now (execDb now (.hsetnx k f v) db).1 k f := by
  by_cases hk : IsHash now db k
  · right
    rw [field_hsetnx hk, if_pos ⟨rfl, rfl⟩]
    rfl
  · left
    rwa [execDb, withHash_string hk]

theorem taken_of_taken {k₁ f₁ v₁ : String} (h : Taken now db k f) :
    Taken now (execDb now (.hsetnx k₁ f₁ v₁) db).1 k f := by
  rcases h with hk | hv
  · left
    by_cases hkk : k = k₁
    · subst hkk
      rwa [execDb, withHash_string hk]
    · refine fun hash => hk (isHash_congr (find_congr ?_) hash)
      exact (execDb_frame (by simpa [Cmd.writes] using hkk)).symm
  · right
    obtain ⟨w, hw⟩ := Option.isSome_iff_exists.mp hv
    have hc : (Cmd.hsetnx k₁ f₁ v₁).WritesFields := trivial
    rw [field_updated hc hw]
    rfl

theorem taken_congr {db' : Db} (h : ∀ k, find now db' k = find now db k) (ht : Taken now db k f) :
    Taken now db' k f :=
  ht.imp (fun hno hash => hno (isHash_congr (h k).symm hash)) fun hv => by rwa [field_congr (h k)]

section SetnxAll

variable {l : List (String × String × String)}

/-- `HSETNX` of fields that are all taken leaves everything as it is. -/
theorem find_setnxAll_taken (h : ∀ x ∈ l, Taken now db x.1 x.2.1) (k : String) :
    find now (runCmds now (l.map fun x => .hsetnx x.1 x.2.1 x.2.2) db) k = find now db k := by
  induction l generalizing db with
  | nil => rfl
  | cons x l ih =>
    have hx : ∀ k, find now (execDb now (.hsetnx x.1 x.2.1 x.2.2) db).1 k = find now db k :=
      find_hsetnx_taken (h x List.mem_cons_self)
    refine (ih fun y hy => ?_).trans (hx k)
    exact taken_congr hx (h y (List.mem_cons_of_mem _ hy))

/-- After `HSETNX` of some fields, all of them are taken. -/
theorem taken_setnxAll (h : Taken now db k f ∨ ∃ x ∈ l, x.1 = k ∧ x.2.1 = f) :
    Taken now (runCmds now (l.map fun x => .hsetnx x.1 x.2.1 x.2.2) db) k f := by
  induction l generalizing db with
  | nil => simpa [runCmds] using h
  | cons x l ih =>
    refine ih ?_
    rcases h with h | ⟨y, hy, hk, hf⟩
    · exact .inl (taken_of_taken h)
    · rcases List.mem_cons.mp hy with rfl | hy
      · left
        rw [← hk, ← hf]
        exact taken_hsetnx _
      · exact .inr ⟨y, hy, hk, hf⟩

end SetnxAll

end Fields

end Redis
end QosSupport
