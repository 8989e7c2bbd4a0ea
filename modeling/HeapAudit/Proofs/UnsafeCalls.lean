import HeapAudit.Quality
import HeapAudit.Proofs.Assignments
import Mathlib.Algebra.Order.Group.Nat

namespace HeapAudit.Quality
open Text

/-- The function is called at a position of a line: from there on the line reads its name, blanks
or none, and an opening parenthesis, and no word character or point comes before. -/
def CallAt (function line : Chars) (i : Nat) : Prop :=
  ∃ before gap after, line = before ++ (function ++ gap ++ '(' :: after) ∧ before.length = i ∧
    (∀ c ∈ gap, isBlank c = true) ∧ ∀ c, before.getLast? = some c → isWord c = false ∧ c ≠ '.'

theorem calledAt_iff {function above cs : Chars} :
    calledAt function above.getLast? cs = true ↔ CallAt function (above ++ cs) above.length := by
  have hallowed : notNamePart above.getLast? = true ↔
      ∀ c, above.getLast? = some c → isWord c = false ∧ c ≠ '.' := by
    cases above.getLast? with
    | none => simp [notNamePart]
    | some c => simp [notNamePart, isNamePart]
  rw [calledAt, Bool.and_eq_true, hallowed, Option.isSome_iff_exists]
  constructor
  · rintro ⟨hbefore, after, hopen⟩
    obtain ⟨gap, hgap, rfl⟩ := (opens?_iff (by decide)).mp hopen
    exact ⟨above, gap, after, rfl, rfl, hgap, hbefore⟩
  · rintro ⟨before, gap, after, hline, hlength, hgap, hbefore⟩
    obtain ⟨rfl, rfl⟩ := List.append_inj hline hlength.symm
    exact ⟨hbefore, after, (opens?_iff (by decide)).mpr ⟨gap, hgap, rfl⟩⟩

namespace CallAt

variable {function other cs : Chars} {i j k : Nat}

/-- The text of a call is made of word characters as far as the name goes, and of none after it. -/
theorem chars (h : CallAt function cs i) (hf : IsName function)
    (hk : k < callLength function (cs.drop i)) :
    ∃ c, cs[i + k]? = some c ∧ (isWord c = true ↔ k < function.length) := by
  obtain ⟨before, gap, after, rfl, rfl, hgap, -⟩ := h
  have hlength : callLength function (function ++ gap ++ '(' :: after) =
      function.length + gap.length + 1 := by
    have hblank : isBlank '(' = false := by decide
    simp [callLength, indent, List.takeWhile_append_of_pos hgap, hblank]
  rw [List.drop_left, hlength] at hk
  rw [List.getElem?_append_right (Nat.le_add_right _ _), Nat.add_sub_cancel_left, List.append_assoc]
  by_cases hname : k < function.length
  · refine ⟨function[k], ?_, iff_of_true (hf.2 _ (List.getElem_mem hname)) hname⟩
    rw [List.getElem?_append_left hname, List.getElem?_eq_getElem hname]
  · rw [List.getElem?_append_right (Nat.le_of_not_lt hname)]
    by_cases hin : k - function.length < gap.length
    · refine ⟨gap[k - function.length], ?_, iff_of_false ?_ hname⟩
      · rw [List.getElem?_append_left hin, List.getElem?_eq_getElem hin]
      · simp [isWord_of_isBlank (hgap _ (List.getElem_mem hin))]
    · have hend : k - function.length = gap.length := by omega
      exact ⟨'(', by simp [hend], iff_of_false (by decide) hname⟩

/-- A call has no word character before it. -/
theorem not_word_before (h : CallAt function cs (i + 1)) {c : Char} (hc : cs[i]? = some c) :
    isWord c = false := by
  obtain ⟨before, gap, after, rfl, hlength, -, hbefore⟩ := h
  refine (hbefore c ?_).1
  rw [List.getElem?_append_left (by omega)] at hc
  rw [List.getLast?_eq_getElem?, hlength]
  exact hc

/-- No call starts inside of the text of another one: its name is made of word characters, and a
call has none before it. -/
theorem not_inside (h : CallAt function cs i) (hf : IsName function) (hi : i < j)
    (hj : j < i + callLength function (cs.drop i)) : ¬ CallAt function cs j := by
  intro hcall
  obtain ⟨k, rfl⟩ : ∃ k, j = i + k + 1 := ⟨j - i - 1, by omega⟩
  have hpos : 0 < function.length := List.length_pos_iff.mpr hf.1
  -- It would start with a word character, so within the name, and there it has one before it.
  obtain ⟨c, hc, hword⟩ := hcall.chars hf (k := 0) (by unfold callLength; omega)
  obtain ⟨d, hd, hname⟩ := h.chars hf (k := k + 1) (by omega)
  obtain ⟨b, hb, hinside⟩ := h.chars hf (k := k) (by omega)
  have hcd : c = d := Option.some.inj (hc.symm.trans hd)
  have hin : k + 1 < function.length := hname.mp (hcd ▸ hword.mpr hpos)
  have hbefore := hcall.not_word_before hb
  rw [hinside.mpr (by omega)] at hbefore
  cases hbefore

theorem length_le (h : CallAt function cs i) (hf : IsName function) (h' : CallAt other cs i)
    (ho : IsName other) : other.length ≤ function.length := by
  by_contra hlt
  -- The character after the shorter name would still belong to the longer one.
  obtain ⟨c, hc, hend⟩ := h.chars hf (k := function.length) (by unfold callLength; omega)
  obtain ⟨d, hd, hin⟩ := h'.chars ho (k := function.length) (by unfold callLength; omega)
  have hcd : c = d := Option.some.inj (hc.symm.trans hd)
  exact absurd (hend.mp (hcd ▸ hin.mpr (by omega))) (lt_irrefl _)

theorem take_eq (h : CallAt function cs i) : (cs.drop i).take function.length = function := by
  obtain ⟨before, gap, after, rfl, rfl, -, -⟩ := h
  simp

/-- The function that is called is determined by the place. -/
theorem eq_of_callAt (h : CallAt function cs i) (hf : IsName function) (h' : CallAt other cs i)
    (ho : IsName other) : function = other := by
  have hlength : function.length = other.length :=
    le_antisymm (h'.length_le ho h hf) (h.length_le hf h' ho)
  rw [← h.take_eq, hlength, h'.take_eq]

theorem lt_length (h : CallAt function cs i) : i < cs.length := by
  obtain ⟨before, gap, after, rfl, rfl, -, -⟩ := h
  simp

end CallAt

section Search

variable {function : Chars}

/-- What the search finds in the rest of a line, if no call starts between there and `next`. -/
theorem mem_sitesFrom (hf : IsName function) {above cs : Chars} {done : List Nat} {next x : Nat}
    (hnext : ∀ j, above.length ≤ j → j < next → ¬ CallAt function (above ++ cs) j) :
    x ∈ sitesFrom function done above.length next above.getLast? cs ↔
      x ∈ done ∨ above.length ≤ x ∧ CallAt function (above ++ cs) x := by
  induction cs generalizing above done next with
  | nil =>
    have hnone : ¬ (above.length ≤ x ∧ CallAt function (above ++ []) x) := by
      rintro ⟨hle, hcall⟩
      have hlt := hcall.lt_length
      rw [List.append_nil] at hlt
      omega
    rw [sitesFrom, List.mem_reverse, or_iff_left hnone]
  | cons c cs ih =>
    have hline : above ++ c :: cs = above ++ [c] ++ cs := by simp
    have hlast : (above ++ [c]).getLast? = some c := List.getLast?_concat
    have hlength : (above ++ [c]).length = above.length + 1 := by simp
    have hlater : x ≠ above.length → (above.length + 1 ≤ x ↔ above.length ≤ x) := by omega
    rw [sitesFrom]
    split
    · rename_i hcalled
      have hcall := calledAt_iff.mp hcalled.2
      have hquiet : ∀ j, (above ++ [c]).length ≤ j →
          j < above.length + callLength function (c :: cs) →
          ¬ CallAt function (above ++ [c] ++ cs) j := by
        intro j hj hlt
        rw [← hline]
        exact hcall.not_inside hf (by omega) (by rwa [List.drop_left])
      rw [← hlast, ← hlength, ih hquiet, hlength, ← hline, List.mem_cons]
      by_cases hx : x = above.length
      · simp [hx, hcall]
      · simp [hx, hlater hx]
    · rename_i hcalled
      have hnot : ¬ CallAt function (above ++ c :: cs) above.length := by
        intro hcall
        by_cases hle : next ≤ above.length
        · exact hcalled ⟨hle, calledAt_iff.mpr hcall⟩
        · exact hnext _ le_rfl (Nat.lt_of_not_le hle) hcall
      have hquiet : ∀ j, (above ++ [c]).length ≤ j → j < next →
          ¬ CallAt function (above ++ [c] ++ cs) j := by
        intro j hj
        rw [← hline]
        exact hnext j (by omega)
      rw [← hlast, ← hlength, ih hquiet, hlength, ← hline]
      by_cases hx : x = above.length
      · simp [hx, hnot]
      · simp [hlater hx]

/-- The positions that are found ascend. -/
theorem pairwise_sitesFrom {cs : Chars} {done : List Nat} {i next : Nat} {before : Option Char}
    (hdone : done.Pairwise (· > ·)) (hbelow : ∀ x ∈ done, x < i) :
    (sitesFrom function done i next before cs).Pairwise (· < ·) := by
  induction cs generalizing done i next before with
  | nil => exact List.pairwise_reverse.mpr hdone
  | cons c cs ih =>
    rw [sitesFrom]
    split
    · apply ih
      · exact List.pairwise_cons.mpr ⟨hbelow, hdone⟩
      · intro x hx
        rcases List.mem_cons.mp hx with rfl | hx
        · exact Nat.lt_succ_self _
        · exact Nat.lt_succ_of_lt (hbelow x hx)
    · exact ih hdone fun x hx => Nat.lt_succ_of_lt (hbelow x hx)

theorem mem_callSites (hf : IsName function) {cs : Chars} {i : Nat} :
    i ∈ callSites function cs ↔ CallAt function cs i := by
  have hnext : ∀ j, ([] : Chars).length ≤ j → j < 0 → ¬ CallAt function ([] ++ cs) j :=
    fun j _ hj => absurd hj (Nat.not_lt_zero j)
  exact (mem_sitesFrom hf hnext).trans (by simp)

theorem pairwise_callSites (cs : Chars) : (callSites function cs).Pairwise (· < ·) :=
  pairwise_sitesFrom .nil (by simp)

end Search

/-- A place where a call may start: the line and the rule, both counted from zero, and the position
in the line. -/
structure Site where
  row : Nat
  rule : Nat
  start : Nat
  deriving DecidableEq, Repr

/-- Places are ordered by line, then by rule, then by position. -/
def Site.Before (s t : Site) : Prop :=
  s.row < t.row ∨ s.row = t.row ∧ (s.rule < t.rule ∨ s.rule = t.rule ∧ s.start < t.start)

/-- The warning about a call in a line. -/
def warningAbout (rule : Rule) (number : Nat) (text : Chars) : Warning :=
  { kind := .unsafeFunction, line := some number, message := rule.message,
    lineText := String.ofList (trim text) }

/-- At a place the function of a rule is called, and the warning is about that call. -/
def Reports (rs : List Rule) (lines : List Chars) (s : Site) (w : Warning) : Prop :=
  ∃ rule text, rs[s.rule]? = some rule ∧ lines[s.row]? = some text ∧
    CallAt rule.function.toList text s.start ∧ w = warningAbout rule (s.row + 1) text

/-- The same warning some lines further down. -/
def moved (n : Nat) (w : Warning) : Warning := { w with line := w.line.map (· + (n : Int)) }

/-- The warnings of a scan with the places they are about. -/
def reports (rs : List Rule) (lines : List Chars) : List (Site × Warning) :=
  lines.zipIdx.flatMap fun (text, row) => rs.zipIdx.flatMap fun (rule, k) =>
    (callSites rule.function.toList text).map fun i =>
      (⟨row, k, i⟩, warningAbout rule (row + 1) text)

section Scan

variable {rs : List Rule} {lines : List Chars}

theorem lineWarnings_eq (rs : List Rule) (number : Nat) (text : Chars) :
    lineWarnings rs number text = rs.flatMap fun rule =>
      (callSites rule.function.toList text).map fun _ => warningAbout rule number text := rfl

theorem scan_eq_reports (rs : List Rule) (lines : List Chars) :
    scan rs lines = (reports rs lines).map Prod.snd := by
  have hline : ∀ row text, lineWarnings rs (1 + row) text =
      (rs.zipIdx.flatMap fun (rule, k) => (callSites rule.function.toList text).map fun i =>
        ((⟨row, k, i⟩ : Site), warningAbout rule (row + 1) text)).map Prod.snd := by
    intro row text
    nth_rewrite 1 [lineWarnings_eq, ← List.zipIdx_map_fst 0 rs]
    simp only [List.flatMap_map, List.map_flatMap, List.map_map, Function.comp_def, Nat.add_comm]
  rw [scan, scanFrom, List.zipIdx_eq_map_add, reports, List.flatMap_map, List.map_flatMap]
  simp only [hline]

theorem mem_reports (hrs : ∀ r ∈ rs, IsName r.function.toList) {s : Site} {w : Warning} :
    (s, w) ∈ reports rs lines ↔ Reports rs lines s w := by
  simp only [reports, List.mem_flatMap, List.mem_map, Prod.exists, List.mk_mem_zipIdx_iff_getElem?]
  constructor
  · rintro ⟨text, row, hrow, rule, k, hrule, i, hi, heq⟩
    obtain ⟨rfl, rfl⟩ := Prod.mk.inj heq
    have hname := hrs rule (List.mem_of_getElem? hrule)
    exact ⟨rule, text, hrule, hrow, (mem_callSites hname).mp hi, rfl⟩
  · rintro ⟨rule, text, hrule, hrow, hcall, rfl⟩
    have hname := hrs rule (List.mem_of_getElem? hrule)
    exact ⟨text, s.row, hrow, rule, s.rule, hrule, s.start, (mem_callSites hname).mpr hcall, rfl⟩

theorem pairwise_zipIdx {α : Type} (xs : List α) :
    xs.zipIdx.Pairwise fun a b => a.2 < b.2 := by
  have hindices : (xs.zipIdx.map Prod.snd).Pairwise (· < ·) := by
    rw [List.zipIdx_map_snd]
    exact List.pairwise_lt_range'
  exact List.pairwise_map.mp hindices

theorem pairwise_reports (rs : List Rule) (lines : List Chars) :
    (reports rs lines).Pairwise fun a b => a.1.Before b.1 := by
  refine List.pairwise_flatMap.mpr ⟨fun (text, row) _ => ?_, ?_⟩
  · refine List.pairwise_flatMap.mpr ⟨fun (rule, k) _ => ?_, ?_⟩
    · refine List.pairwise_map.mpr ((pairwise_callSites text).imp fun hlt => ?_)
      exact .inr ⟨rfl, .inr ⟨rfl, hlt⟩⟩
    · refine (pairwise_zipIdx rs).imp fun hlt a ha b hb => ?_
      obtain ⟨i, -, rfl⟩ := List.mem_map.mp ha
      obtain ⟨j, -, rfl⟩ := List.mem_map.mp hb
      exact .inr ⟨rfl, .inl hlt⟩
  · refine (pairwise_zipIdx lines).imp fun hlt a ha b hb => ?_
    obtain ⟨entry, -, ha⟩ := List.mem_flatMap.mp ha
    obtain ⟨entry', -, hb⟩ := List.mem_flatMap.mp hb
    obtain ⟨i, -, rfl⟩ := List.mem_map.mp ha
    obtain ⟨j, -, rfl⟩ := List.mem_map.mp hb
    exact .inl hlt

theorem lineWarnings_moved (rs : List Rule) (n number : Nat) (text : Chars) :
    lineWarnings rs (n + number) text = (lineWarnings rs number text).map (moved n) := by
  simp only [lineWarnings_eq, List.map_flatMap, List.map_map, Function.comp_def, warningAbout,
    moved, Option.map_some, Int.natCast_add, Int.add_comm]

theorem scanFrom_moved (rs : List Rule) (n number : Nat) (lines : List Chars) :
    scanFrom rs (n + number) lines = (scanFrom rs number lines).map (moved n) := by
  induction lines generalizing number with
  | nil => rfl
  | cons text lines ih =>
    have hcons : ∀ number, scanFrom rs number (text :: lines) =
        lineWarnings rs number text ++ scanFrom rs (number + 1) lines := fun _ => rfl
    rw [hcons, hcons, List.map_append, lineWarnings_moved, Nat.add_assoc, ih]

theorem scan_append (rs : List Rule) (lines more : List Chars) :
    scan rs (lines ++ more) = scan rs lines ++ (scan rs more).map (moved lines.length) := by
  rw [scan, scan, scan, ← scanFrom_moved, scanFrom, List.zipIdx_append, List.flatMap_append,
    Nat.add_comm 1]
  rfl

end Scan

theorem isName_of_mem_rules {rule : Rule} (h : rule ∈ rules) : IsName rule.function.toList := by
  have hall : ∀ rule ∈ rules, IsName rule.function.toList := by decide +kernel
  exact hall rule h

/-- In the table every function has one rule. -/
theorem rule_eq_of_function {k l : Nat} {rule other : Rule} (hk : rules[k]? = some rule)
    (hl : rules[l]? = some other) (hf : rule.function = other.function) : k = l := by
  have hnodup : (rules.map Rule.function).Nodup := by decide +kernel
  have hlt : k < (rules.map Rule.function).length := by
    rw [List.length_map]
    exact (List.getElem?_eq_some_iff.mp hk).1
  exact (List.getElem?_inj hlt hnodup).mp (by simp [hk, hl, hf])

/-- The scan reports the calls of the functions of its rules and nothing else, each of them once, by
line, rule and position. No place is a call of two functions of the table, and lines that come
before others only move their warnings. -/
theorem scan_calls {rs : List Rule} (hrs : ∀ r ∈ rs, r ∈ rules) (lines : List Chars) :
    (∃ found : List (Site × Warning), scan rs lines = found.map Prod.snd ∧
      found.Pairwise (fun a b => a.1.Before b.1) ∧
      ∀ s w, (s, w) ∈ found ↔ Reports rs lines s w) ∧
    (∀ s t w v, Reports rules lines s w → Reports rules lines t v → s.row = t.row →
      s.start = t.start → s = t) ∧
    ∀ more, scan rs (lines ++ more) = scan rs lines ++ (scan rs more).map (moved lines.length) := by
  refine ⟨⟨reports rs lines, scan_eq_reports rs lines, pairwise_reports rs lines, fun s w =>
    mem_reports fun r hr => isName_of_mem_rules (hrs r hr)⟩, ?_, scan_append rs lines⟩
  rintro ⟨row, k, i⟩ ⟨row', l, j⟩ w v ⟨rule, text, hrule, hrow, hcall, -⟩
    ⟨other, text', hother, hrow', hcall', -⟩ rfl rfl
  obtain rfl : text = text' := Option.some.inj (hrow.symm.trans hrow')
  have hfunction := hcall.eq_of_callAt (isName_of_mem_rules (List.mem_of_getElem? hrule)) hcall'
    (isName_of_mem_rules (List.mem_of_getElem? hother))
  obtain rfl := rule_eq_of_function hrule hother (String.toList_inj.mp hfunction)
  rfl

/-- Three rules of the table in another order. -/
def someRules : List Rule := ((rules.drop 2).take 3).reverse

/-- Calls inside of the arguments of others, names that end like a function, and a member. -/
def nestedCalls : List Chars :=
  ["n = vsprintf(s, sprintf (t, a.gets(u)));".toList, "fgets(s); if (gets\t(s)) return;".toList]

theorem scan_calls_nested :
    (∀ r ∈ someRules, r ∈ rules) ∧
      ∃ found : List (Site × Warning), scan someRules nestedCalls = found.map Prod.snd ∧
        found.length = 3 ∧ (∃ w, (⟨0, 1, 4⟩, w) ∈ found) ∧ (∃ w, (⟨0, 2, 16⟩, w) ∈ found) ∧
        ∃ w, (⟨1, 0, 14⟩, w) ∈ found := by
  have hrs : ∀ r ∈ someRules, r ∈ rules := by decide +kernel
  obtain ⟨⟨found, hscan, -, hmem⟩, -⟩ := scan_calls hrs nestedCalls
  have hlength : (scan someRules nestedCalls).length = 3 := by decide +kernel
  rw [hscan, List.length_map] at hlength
  have hcall : ∀ s : Site, (∃ rule text, someRules[s.rule]? = some rule ∧
      nestedCalls[s.row]? = some text ∧ s.start ∈ callSites rule.function.toList text) →
      ∃ w, (s, w) ∈ found := by
    rintro s ⟨rule, text, hrule, htext, hin⟩
    have hname := isName_of_mem_rules (hrs rule (List.mem_of_getElem? hrule))
    exact ⟨_, (hmem _ _).mpr ⟨rule, text, hrule, htext, (mem_callSites hname).mp hin, rfl⟩⟩
  exact ⟨hrs, found, hscan, hlength, hcall _ ⟨_, _, rfl, rfl, by decide +kernel⟩,
    hcall _ ⟨_, _, rfl, rfl, by decide +kernel⟩, hcall _ ⟨_, _, rfl, rfl, by decide +kernel⟩⟩

end HeapAudit.Quality
