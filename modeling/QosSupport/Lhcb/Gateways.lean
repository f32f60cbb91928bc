import QosSupport.Lib.Loop
import Mathlib.Data.List.DropRight
import Mathlib.Data.List.Infix

/-!
# The gateways in the output of `route`

`Utils.getGatewayIPs` scans the output line by line. In each line, two spaces are replaced by one until
there are no two spaces left; the line is then split at the spaces. A line with too few fields ends the
scan with an exception, and what was found before is returned.

* `scanLines`: the lines of a `Scanner`; the last one counts only if it is not empty.
* `fields`: the fields of a line, which are separated by any number of spaces.
* `Squeezed`: the invariant of the loop. The line keeps its fields and does not start with a space.
* `javaSplit_of_squeezed`: where the loop ends, `split` finds exactly these fields.
* `getGatewayIPs_eq`: the scan ends, and returns the gateways in their order.
-/

namespace QosSupport
namespace Lhcb

/-! ## Lines -/

/-- A line separator of `Scanner`, apart from `\r\n`. -/
def isLineSeparator (c : Char) : Bool :=
  c == '\n' || c == '\r' || c == '\u2028' || c == '\u2029' || c == '\u0085'

/-- `line` is what was read of the current line, backwards. -/
def linesFrom : List Char → List Char → List (List Char)
  | line, [] => if line = [] then [] else [line.reverse]
  | line, '\r' :: '\n' :: cs => line.reverse :: linesFrom [] cs
  | line, c :: cs => if isLineSeparator c then line.reverse :: linesFrom [] cs else linesFrom (c :: line) cs

/-- What `hasNextLine` and `nextLine` give, one after the other. -/
def scanLines (text : List Char) : List (List Char) := linesFrom [] text

/-! ## One line -/

/-- `line.replace("  ", " ")` -/
def replacePairs : List Char → List Char
  | ' ' :: ' ' :: cs => ' ' :: replacePairs cs
  | c :: cs => c :: replacePairs cs
  | [] => []

/-- `line.contains("  ")` -/
def HasPair (line : List Char) : Prop := [' ', ' '] <:+: line

instance : DecidablePred HasPair := fun line => inferInstanceAs (Decidable ([' ', ' '] <:+: line))

/-- `line.split(" ")`: without the empty fields at the end. A line without a space is its only field. -/
def javaSplit (line : List Char) : List (List Char) :=
  if ' ' ∈ line then (line.splitOn ' ').rdropWhile (·.isEmpty) else [line]

/-! ## The scan -/

/-- The lines of the table from index `i` on, with at most `n` rounds of the loop for each line. -/
def scanTable (n : Nat) : Nat → List (List Char) → Option (List (Nat × String))
  | _, [] => some []
  | i, line :: lines =>
    match Loop.run HasPair replacePairs n (replacePairs line) with
    | none => none
    | some line' =>
      match javaSplit line' with
      | _ :: gateway :: _ :: flags :: _ =>
        if flags = ['U', 'G'] then (scanTable n (i + 1) lines).map ((i, String.ofList gateway) :: ·)
        else scanTable n i lines
      -- there is no `splitLine[3]`
      | _ => some []

/-- `getGatewayIPs`, for the output of the command. The first two lines are the head of the table. -/
def getGatewayIPs (n : Nat) (output : String) : Option (List (Nat × String)) :=
  match scanLines output.toList with
  | _ :: _ :: lines => scanTable n 0 lines
  | _ => some []

/-! ## What it is for -/

/-- The fields of a line. -/
def fields (line : List Char) : List (List Char) := (line.splitOn ' ').filter fun field => !field.isEmpty

/-- The gateway of a line, if it is one. -/
def gateway (line : List Char) : Option String :=
  if (fields line)[3]? = some ['U', 'G'] then (fields line)[1]?.map String.ofList else none

/-- The gateways of the lines before the first one with fewer than four fields, numbered from `i` on. -/
def gatewaysFrom (i : Nat) (lines : List (List Char)) : List (Nat × String) :=
  (((lines.takeWhile fun line => 4 ≤ (fields line).length).filterMap gateway).zipIdx i).map Prod.swap

/-- The gateways of the table, without its head. -/
def gateways (output : String) : List (Nat × String) :=
  gatewaysFrom 0 ((scanLines output.toList).drop 2)

/-! ## The loop -/

section Loop

variable {line : List Char}

theorem hasPair_cons {c : Char} : HasPair (c :: line) ↔ (c = ' ' ∧ line.head? = some ' ') ∨ HasPair line := by
  unfold HasPair
  rw [List.infix_cons_iff]
  refine or_congr_left ?_
  cases line with
  | nil => simp
  | cons d line => simp [eq_comm]

theorem head?_replacePairs (line : List Char) : (replacePairs line).head? = line.head? := by
  fun_cases replacePairs line <;> rfl

theorem length_replacePairs_le (line : List Char) : (replacePairs line).length ≤ line.length := by
  fun_induction replacePairs line with
  | case1 cs ih =>
    simp only [List.length_cons]
    omega
  | case2 c cs h ih =>
    simp only [List.length_cons]
    omega
  | case3 => exact le_rfl

/-- A round that has something to do makes the line shorter. -/
theorem length_replacePairs_lt (h : HasPair line) : (replacePairs line).length < line.length := by
  fun_induction replacePairs line with
  | case1 cs ih =>
    have hle := length_replacePairs_le cs
    simp only [List.length_cons]
    omega
  | case2 c cs hne ih =>
    rcases hasPair_cons.mp h with ⟨rfl, hhead⟩ | hcs
    · cases cs with
      | nil => cases hhead
      | cons d cs =>
        cases hhead
        exact absurd rfl (hne cs rfl)
    · have hlt := ih hcs
      simp only [List.length_cons]
      omega
  | case3 => exact absurd (List.infix_nil.mp h) (by simp)

theorem splitOn_space (line : List Char) : (' ' :: line).splitOn ' ' = [] :: line.splitOn ' ' := by
  rw [List.splitOn_cons_eq_if_modifyHead, if_pos (beq_self_eq_true ' ')]

theorem splitOn_char {c : Char} (hc : c ≠ ' ') (line : List Char) :
    (c :: line).splitOn ' ' = (line.splitOn ' ').modifyHead (c :: ·) := by
  rw [List.splitOn_cons_eq_if_modifyHead, if_neg (by simpa using hc)]

/-- A round keeps the first field, also if it is empty, and the other ones that are not. -/
theorem splitOn_replacePairs (line : List Char) : ∃ first rest rest',
    line.splitOn ' ' = first :: rest ∧ (replacePairs line).splitOn ' ' = first :: rest' ∧
      (rest'.filter fun field => !field.isEmpty) = rest.filter fun field => !field.isEmpty := by
  fun_induction replacePairs line with
  | case1 cs ih =>
    obtain ⟨first, rest, rest', h, h', hrest⟩ := ih
    refine ⟨[], [] :: first :: rest, first :: rest', ?_, ?_, ?_⟩
    · rw [splitOn_space, splitOn_space, h]
    · rw [splitOn_space, h']
    · simp [List.filter_cons, hrest]
  | case2 c cs _ ih =>
    obtain ⟨first, rest, rest', h, h', hrest⟩ := ih
    by_cases hc : c = ' '
    · subst hc
      refine ⟨[], first :: rest, first :: rest', ?_, ?_, ?_⟩
      · rw [splitOn_space, h]
      · rw [splitOn_space, h']
      · simp [List.filter_cons, hrest]
    · refine ⟨c :: first, rest, rest', ?_, ?_, hrest⟩
      · rw [splitOn_char hc, h]
        rfl
      · rw [splitOn_char hc, h']
        rfl
  | case3 => exact ⟨[], [], [], rfl, rfl, rfl⟩

theorem fields_replacePairs (line : List Char) : fields (replacePairs line) = fields line := by
  obtain ⟨first, rest, rest', h, h', hrest⟩ := splitOn_replacePairs line
  unfold fields
  rw [h, h', List.filter_cons, List.filter_cons, hrest]

/-- What the loop keeps of a line that does not start with a space. -/
structure Squeezed (line line' : List Char) : Prop where
  fields : fields line' = fields line
  head : line'.head? ≠ some ' '
  nil : line' = [] ↔ line = []

theorem replacePairs_eq_nil : replacePairs line = [] ↔ line = [] := by
  fun_cases replacePairs line <;> simp

theorem Squeezed.replacePairs {line' : List Char} (h : Squeezed line line') :
    Squeezed line (replacePairs line') where
  fields := (fields_replacePairs line').trans h.fields
  head := by
    rw [head?_replacePairs]
    exact h.head
  nil := replacePairs_eq_nil.trans h.nil

/-- The loop ends. -/
theorem ends_squeezed (hline : line.head? ≠ some ' ') :
    ∃ line', Loop.Ends HasPair Lhcb.replacePairs (Lhcb.replacePairs line) line' ∧ Squeezed line line' ∧
      ¬ HasPair line' := by
  refine Loop.ends_of_measure (Squeezed line) List.length ?_ ?_
  · intro line' h hpair
    exact ⟨h.replacePairs, length_replacePairs_lt hpair⟩
  · exact Squeezed.replacePairs ⟨rfl, hline, Iff.rfl⟩

/-! ## Splitting -/

theorem rdropWhile_cons {α : Type} {p : α → Bool} {a : α} (h : p a = false) (l : List α) :
    (a :: l).rdropWhile p = a :: l.rdropWhile p := by
  simp only [List.rdropWhile, List.reverse_cons, List.dropWhile_append, List.dropWhile_cons, h,
    List.dropWhile_nil]
  split
  · rename_i hnil
    simp [List.isEmpty_iff.mp hnil]
  · simp

/-- Without two spaces, only the last field may be empty, apart from the first one. -/
theorem rdropWhile_rest (h : ¬ HasPair line) {first : List Char} {rest : List (List Char)}
    (hsplit : line.splitOn ' ' = first :: rest) :
    rest.rdropWhile (·.isEmpty) = rest.filter fun field => !field.isEmpty := by
  induction line generalizing first rest with
  | nil =>
    cases hsplit
    rfl
  | cons c cs ih =>
    rw [hasPair_cons, not_or] at h
    obtain ⟨hhead, hcs⟩ := h
    obtain ⟨first', rest', hsplit'⟩ := List.exists_cons_of_ne_nil (List.splitOn_ne_nil ' ' cs)
    have hrest := ih hcs hsplit'
    by_cases hc : c = ' '
    · subst hc
      rw [splitOn_space, hsplit'] at hsplit
      cases hsplit
      cases cs with
      | nil =>
        cases hsplit'
        rfl
      | cons d cs =>
        have hd : d ≠ ' ' := by
          rintro rfl
          exact hhead ⟨rfl, rfl⟩
        obtain ⟨f, r, hfr⟩ := List.exists_cons_of_ne_nil (List.splitOn_ne_nil ' ' cs)
        rw [splitOn_char hd, hfr] at hsplit'
        cases hsplit'
        rw [rdropWhile_cons rfl, hrest]
        rfl
    · rw [splitOn_char hc, hsplit'] at hsplit
      cases hsplit
      exact hrest

/-- Where the loop ends, `split` finds the fields. -/
theorem javaSplit_of_squeezed {line' : List Char} (h : Squeezed line line') (hpair : ¬ HasPair line')
    (hne : line ≠ []) : javaSplit line' = fields line := by
  obtain ⟨first, rest, hsplit⟩ := List.exists_cons_of_ne_nil (List.splitOn_ne_nil ' ' line')
  have hrest := rdropWhile_rest hpair hsplit
  have hne' : line' ≠ [] := fun hnil => hne (h.nil.mp hnil)
  have hfirst : first.isEmpty = false := by
    cases line' with
    | nil => exact absurd rfl hne'
    | cons c cs =>
      have hc : c ≠ ' ' := fun hc => h.head (by rw [hc]; rfl)
      obtain ⟨f, r, hfr⟩ := List.exists_cons_of_ne_nil (List.splitOn_ne_nil ' ' cs)
      rw [splitOn_char hc, hfr] at hsplit
      cases hsplit
      rfl
  have hdrop : (line'.splitOn ' ').rdropWhile (·.isEmpty) = fields line' := by
    unfold fields
    rw [hsplit, rdropWhile_cons hfirst, hrest, List.filter_cons, if_pos (by simp [hfirst])]
  rw [← h.fields, ← hdrop, javaSplit]
  split
  · rfl
  · rename_i hspace
    rw [List.splitOn_eq_singleton hspace, rdropWhile_cons (by simpa using hne')]
    rfl

end Loop

/-! ## The scan ends -/

section Scan

variable {line : List Char} {lines : List (List Char)} {i n : Nat}

/-- A line without enough fields ends the table. -/
theorem gatewaysFrom_cons (i : Nat) (line : List Char) (lines : List (List Char)) :
    gatewaysFrom i (line :: lines) =
      if 4 ≤ (fields line).length then
        (gateway line).elim (gatewaysFrom i lines) fun g => (i, g) :: gatewaysFrom (i + 1) lines
      else [] := by
  unfold gatewaysFrom
  rw [List.takeWhile_cons]
  by_cases h : 4 ≤ (fields line).length
  · simp only [h, decide_true, if_true]
    cases hg : gateway line with
    | none => rw [List.filterMap_cons_none hg, Option.elim_none]
    | some g => rw [List.filterMap_cons_some hg, Option.elim_some, List.zipIdx_cons, List.map_cons]; rfl
  · simp [h]

/-- One line of the table, for any number of rounds that is enough. -/
theorem scanTable_cons (hline : line.head? ≠ some ' ') {line' : List Char}
    (hrun : Loop.run HasPair replacePairs n (replacePairs line) = some line') :
    scanTable n i (line :: lines) =
      if 4 ≤ (fields line).length then
        (gateway line).elim (scanTable n i lines)
          fun g => (scanTable n (i + 1) lines).map ((i, g) :: ·)
      else some [] := by
  obtain ⟨line'', hends, hsq, hpair⟩ := ends_squeezed hline
  obtain rfl : line'' = line' := hends.unique ⟨n, hrun⟩
  rw [scanTable, hrun]
  by_cases hnil : line = []
  · have hnil' := hsq.nil.mpr hnil
    subst hnil hnil'
    rfl
  · simp only [javaSplit_of_squeezed hsq hpair hnil, gateway]
    split
    · rename_i gw _ flags more hfields
      simp only [hfields, List.length_cons, List.getElem?_cons_succ, List.getElem?_cons_zero,
        Option.some.injEq, Option.map_some]
      have hlen : 4 ≤ more.length + 1 + 1 + 1 + 1 := by omega
      rw [if_pos hlen]
      split <;> rfl
    · rename_i hshort
      rw [if_neg]
      intro hlen
      rcases hf : fields line with _ | ⟨a, _ | ⟨b, _ | ⟨c, _ | ⟨d, more⟩⟩⟩⟩
      · simp [hf] at hlen
      · simp [hf] at hlen
      · simp [hf] at hlen
      · simp [hf] at hlen
      · exact hshort a b c d more hf

theorem scanTable_mem {r : List (Nat × String)} (hlines : ∀ line ∈ lines, line.head? ≠ some ' ')
    (h : scanTable n i lines = some r) : r = gatewaysFrom i lines := by
  induction lines generalizing i r with
  | nil =>
    cases h
    rfl
  | cons line lines ih =>
    rw [gatewaysFrom_cons]
    cases hrun : Loop.run HasPair replacePairs n (replacePairs line) with
    | none =>
      rw [scanTable, hrun] at h
      cases h
    | some line' =>
      rw [scanTable_cons (hlines line List.mem_cons_self) hrun] at h
      have ih' := fun i r => @ih i r fun l hl => hlines l (List.mem_cons_of_mem _ hl)
      by_cases hlen : 4 ≤ (fields line).length
      · rw [if_pos hlen] at h ⊢
        cases hg : gateway line with
        | none =>
          rw [hg] at h
          exact ih' i r h
        | some g =>
          rw [hg] at h
          obtain ⟨r', hr', rfl⟩ := Option.map_eq_some_iff.mp h
          rw [ih' (i + 1) r' hr']
          rfl
      · rw [if_neg hlen] at h ⊢
        cases h
        rfl

/-- Enough rounds for all lines. -/
theorem scanTable_ends (hlines : ∀ line ∈ lines, line.head? ≠ some ' ') (i : Nat) :
    ∃ N, ∀ n ≥ N, scanTable n i lines = some (gatewaysFrom i lines) := by
  induction lines generalizing i with
  | nil => exact ⟨0, fun _ _ => rfl⟩
  | cons line lines ih =>
    have hline := hlines line List.mem_cons_self
    have ih' := ih fun l hl => hlines l (List.mem_cons_of_mem _ hl)
    obtain ⟨line', ⟨N, hN⟩, -, -⟩ := ends_squeezed hline
    obtain ⟨N₁, h₁⟩ := ih' i
    obtain ⟨N₂, h₂⟩ := ih' (i + 1)
    refine ⟨max N (max N₁ N₂), ?_⟩
    intro n hn
    rw [scanTable_cons hline (Loop.run_mono (by omega) hN), gatewaysFrom_cons, h₁ n (by omega),
      h₂ n (by omega)]
    split
    · cases gateway line <;> rfl
    · rfl

end Scan

/-- **The gateways**: for every output whose table has no line that starts with a space, the scan ends, and
returns the gateways of the table. -/
theorem getGatewayIPs_eq (output : String)
    (h : ∀ line ∈ (scanLines output.toList).drop 2, line.head? ≠ some ' ') :
    (∃ N, ∀ n ≥ N, getGatewayIPs n output = some (gateways output)) ∧
    (∀ n ips, getGatewayIPs n output = some ips → ips = gateways output) ∧
    ((scanLines output.toList).length < 2 → gateways output = []) := by
  unfold getGatewayIPs gateways
  rcases hl : scanLines output.toList with _ | ⟨first, _ | ⟨second, lines⟩⟩
  · exact ⟨⟨0, fun _ _ => rfl⟩, fun _ _ h => (Option.some.inj h).symm, fun _ => rfl⟩
  · exact ⟨⟨0, fun _ _ => rfl⟩, fun _ _ h => (Option.some.inj h).symm, fun _ => rfl⟩
  · rw [hl] at h
    exact ⟨scanTable_ends h 0, fun n ips => scanTable_mem h, fun hlt => absurd hlt (by simp)⟩

/-- A routing table with one gateway, and a line that is too short. -/
def routeOutput : String :=
  "Kernel\nDestination\n0.0.0.0    10.0.0.1   0.0.0.0 UG 0\n10.0.0.0 0.0.0.0 255.0.0.0 U 0\nx y\n1 2 3 UG\n"

theorem routeOutput_gateways : gateways routeOutput = [(0, "10.0.0.1")] ∧
    ∃ N, ∀ n ≥ N, getGatewayIPs n routeOutput = some (gateways routeOutput) := by
  refine ⟨by decide, ?_⟩
  exact (getGatewayIPs_eq routeOutput (by decide)).1

end Lhcb
end QosSupport
