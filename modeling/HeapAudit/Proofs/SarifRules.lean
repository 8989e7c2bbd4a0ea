import HeapAudit.CommandLine.Run
import Mathlib.Data.List.Forall2
import Mathlib.Data.List.Induction
import Mathlib.Data.List.Nodup

namespace HeapAudit

namespace Document

/-- The value of a field. -/
def field? (name : String) : Document → Option Document
  | .object fields => fields.lookup name
  | _ => none

/-- The value at the end of a path of fields. -/
def at? : List String → Document → Option Document
  | [], d => some d
  | name :: path, d => (d.field? name).bind (at? path)

def text? (path : List String) (d : Document) : Option String :=
  match d.at? path with
  | some (.text s) => some s
  | _ => none

end Document

namespace Sarif

/-- Every rule there is. -/
def catalog : List Rule :=
  [ruleOfLeak .reassignment .high, ruleOfLeak .unreleased .high] ++
    WarningKind.all.map ruleOfWarning

/-- Rules with one id are one rule. -/
theorem catalog_id {r r' : Rule} (hr : r ∈ catalog) (hr' : r' ∈ catalog) (h : r.id = r'.id) :
    r = r' := by
  have hall : ∀ r ∈ catalog, ∀ r' ∈ catalog, r.id = r'.id → r = r' := by decide +kernel
  exact hall r hr r' hr' h

theorem results_catalog (a : Analysis) : ∀ r ∈ results a, r.rule ∈ catalog := by
  intro r hr
  unfold results at hr
  rcases List.mem_append.mp hr with hr | hr
  · obtain ⟨l, -, rfl⟩ := List.mem_map.mp hr
    unfold catalog Leak.severity
    cases l.kind <;> simp
  · obtain ⟨w, -, rfl⟩ := List.mem_map.mp hr
    unfold catalog WarningKind.all
    cases w.kind <;> simp

section FirstUse

variable {α β : Type} [BEq α] [LawfulBEq α] [BEq β] [LawfulBEq β]

theorem eraseDups_concat (l : List α) (a : α) :
    (l ++ [a]).eraseDups = if a ∈ l then l.eraseDups else l.eraseDups ++ [a] := by
  rw [List.eraseDups_append]
  by_cases h : a ∈ l
  · simp [List.removeAll, h]
  · simp [List.removeAll, h, List.eraseDups_cons]

theorem nodup_eraseDups (l : List α) : l.eraseDups.Nodup := by
  induction l using List.reverseRecOn with
  | nil => simp
  | append_singleton l a ih =>
    rw [eraseDups_concat]
    split_ifs with h
    · exact ih
    · rw [← List.concat_eq_append]
      exact ih.concat (by simpa using h)

theorem eraseDups_map {f : α → β} {l : List α}
    (hf : ∀ a ∈ l, ∀ b ∈ l, f a = f b → a = b) : (l.map f).eraseDups = l.eraseDups.map f := by
  induction l using List.reverseRecOn with
  | nil => simp
  | append_singleton l a ih =>
    have ih := ih fun b hb c hc => hf b (by simp [hb]) c (by simp [hc])
    have hmem : f a ∈ l.map f ↔ a ∈ l := by
      constructor
      · intro h
        obtain ⟨b, hb, he⟩ := List.mem_map.mp h
        exact hf b (by simp [hb]) a (by simp) he ▸ hb
      · exact List.mem_map_of_mem
    rw [List.map_append, List.map_singleton, eraseDups_concat, eraseDups_concat, ih]
    simp only [hmem]
    split_ifs <;> simp

end FirstUse

section Collect

variable {met more : List Rule} {rule : Rule}

theorem any_id (hm : met ⊆ catalog) (hr : rule ∈ catalog) :
    met.eraseDups.any (·.id = rule.id) = true ↔ rule ∈ met := by
  rw [List.any_eq_true]
  constructor
  · rintro ⟨r, hin, he⟩
    have hin := List.mem_eraseDups.mp hin
    exact catalog_id (hm hin) hr (by simpa using he) ▸ hin
  · exact fun hin => ⟨rule, List.mem_eraseDups.mpr hin, by simp⟩

/-- A rule that is declared again replaces itself. -/
theorem declare_eraseDups (hm : met ⊆ catalog) (hr : rule ∈ catalog) :
    declare met.eraseDups rule = (met ++ [rule]).eraseDups := by
  rw [eraseDups_concat]
  unfold declare
  simp only [any_id hm hr]
  split_ifs with hin
  · have hself : ∀ r ∈ met.eraseDups, (if r.id = rule.id then rule else r) = r := by
      intro r hmem
      split_ifs with he
      · exact (catalog_id (hm (List.mem_eraseDups.mp hmem)) hr he).symm
      · rfl
    rw [List.map_congr_left hself, List.map_id']
  · rfl

/-- The rules of one more file, each declared once already. -/
theorem foldl_declare (hm : met ⊆ catalog) (hmore : more ⊆ catalog) :
    more.eraseDups.foldl declare met.eraseDups = (met ++ more).eraseDups := by
  induction more using List.reverseRecOn with
  | nil => simp
  | append_singleton more rule ih =>
    obtain ⟨hbefore, hrule⟩ := List.append_subset.mp hmore
    have hr : rule ∈ catalog := hrule (List.mem_singleton_self rule)
    rw [← List.append_assoc, eraseDups_concat more]
    split_ifs with hin
    · rw [ih hbefore, eraseDups_concat, if_pos (by simp [hin])]
    · rw [List.foldl_append, ih hbefore, List.foldl_cons, List.foldl_nil,
        declare_eraseDups (List.append_subset.mpr ⟨hm, hbefore⟩) hr]

end Collect

theorem rules_catalog (a : Analysis) : (results a).map Result.rule ⊆ catalog := by
  intro rule hin
  obtain ⟨r, hr, rfl⟩ := List.mem_map.mp hin
  exact results_catalog a r hr

theorem rulesOf_eq {rs : List Result} (h : rs.map Result.rule ⊆ catalog) :
    rulesOf rs = (rs.map Result.rule).eraseDups := by
  induction rs using List.reverseRecOn with
  | nil => rfl
  | append_singleton rs r ih =>
    rw [List.map_append, List.map_singleton] at h ⊢
    obtain ⟨hbefore, hrule⟩ := List.append_subset.mp h
    have ih := ih hbefore
    unfold rulesOf at ih ⊢
    rw [List.foldl_append, ih, eraseDups_concat]
    simp only [List.foldl_cons, List.foldl_nil,
      any_id hbefore (hrule (List.mem_singleton_self r.rule))]

/-- The run of some analyses: all their results, and the rules of these in the order of first
use. -/
def runOfAll (as : List Analysis) : Run :=
  ⟨((as.flatMap results).map Result.rule).eraseDups, as.flatMap results⟩

theorem runOf_eq (a : Analysis) : runOf a = runOfAll [a] := by
  simp [runOf, runOfAll, rulesOf_eq (rules_catalog a)]

theorem foldl_rules {met : List Rule} (hm : met ⊆ catalog) (as : List Analysis) :
    ((as.map runOf).flatMap Run.rules).foldl declare met.eraseDups =
      (met ++ (as.flatMap results).map Result.rule).eraseDups := by
  induction as generalizing met with
  | nil => simp
  | cons a as ih =>
    have hrules := rules_catalog a
    rw [List.map_cons, List.flatMap_cons, List.foldl_append, List.flatMap_cons, List.map_append,
      ← List.append_assoc, ← ih (List.append_subset.mpr ⟨hm, hrules⟩), ← foldl_declare hm hrules,
      runOf, rulesOf_eq hrules]

theorem merge_eq (as : List Analysis) : merge (as.map runOf) = runOfAll as := by
  have hrules := foldl_rules (List.nil_subset catalog) as
  rw [List.nil_append] at hrules
  unfold merge runOfAll
  congr 1
  rw [List.flatMap_map]
  rfl

theorem combine?_eq {as : List Analysis} (h : as ≠ []) : combine? as = some (runOfAll as) := by
  match as with
  | [] => exact absurd rfl h
  | [a] => rw [combine?, runOf_eq]
  | _ :: _ :: _ => exact congrArg some (merge_eq _)

/-- What a leak or a warning has to say in a document. -/
structure Entry where
  ruleId : String
  level : Level
  message : String
  uri : String
  line : LineNo

/-- The leaks of an analysis, and then its warnings. -/
def entries (a : Analysis) : List Entry :=
  a.leaks.map (fun l =>
    { ruleId := "leaklens/leak-" ++ l.kind.name
      level := .ofSeverity l.severity
      message := l.fix
      uri := a.filename
      line := l.line }) ++
  a.warnings.map fun w =>
    { ruleId := "leaklens/" ++ dashed w.kind.name
      level := .ofSeverity w.severity
      message := w.message
      uri := a.filename
      line := w.line }

/-- A result of a document that says what it has to, at one place. -/
structure Entry.WrittenIn (e : Entry) (d : Document) : Prop where
  ruleId : d.text? ["ruleId"] = some e.ruleId
  level : d.text? ["level"] = some e.level.name
  message : d.text? ["message", "text"] = some e.message
  place : ∃ place, d.at? ["locations"] = some (.list [place]) ∧
    place.text? ["physicalLocation", "artifactLocation", "uri"] = some e.uri ∧
    ∀ n, e.line = some n →
      place.at? ["physicalLocation", "region", "startLine"] = some (.int (max 1 n))

def Result.entry (r : Result) : Entry := ⟨r.rule.id, r.rule.level, r.text, r.uri, r.line⟩

theorem map_entry (a : Analysis) : (results a).map Result.entry = entries a := by
  simp [results, entries, Result.entry, ruleOfLeak, ruleOfWarning, Warning.severity,
    Function.comp_def]

theorem entry_written (r : Result) : r.entry.WrittenIn r.document := by
  refine ⟨rfl, rfl, rfl, _, rfl, rfl, ?_⟩
  intro n hn
  change some (Document.int r.startLine) = _
  rw [Result.startLine, show r.line = some n from hn]
  rfl

theorem results_written (as : List Analysis) :
    List.Forall₂ Entry.WrittenIn (as.flatMap entries)
      ((runOfAll as).results.map Result.document) := by
  have hentries : as.flatMap entries = (runOfAll as).results.map Result.entry := by
    simp only [runOfAll, List.map_flatMap, map_entry]
  rw [hentries, List.forall₂_map_left_iff, List.forall₂_map_right_iff, List.forall₂_same]
  exact fun r _ => entry_written r

theorem all_catalog (as : List Analysis) :
    (as.flatMap results).map Result.rule ⊆ catalog := by
  intro rule hin
  obtain ⟨r, hr, rfl⟩ := List.mem_map.mp hin
  obtain ⟨a, -, ha⟩ := List.mem_flatMap.mp hr
  exact results_catalog a r ha

/-- The ids of the declared rules are the first uses among those of the results. -/
theorem ids_written (as : List Analysis) :
    ((runOfAll as).rules.map Rule.document).map (·.text? ["id"]) =
      (((runOfAll as).results.map Result.document).map (·.text? ["ruleId"])).eraseDups := by
  have hid : ∀ r ∈ (as.flatMap results).map Result.rule,
      ∀ r' ∈ (as.flatMap results).map Result.rule, some r.id = some r'.id → r = r' :=
    fun r hr r' hr' he =>
      catalog_id (all_catalog as hr) (all_catalog as hr') (Option.some.inj he)
  have huses := eraseDups_map hid
  rw [List.map_map] at huses
  rw [List.map_map, List.map_map]
  exact huses.symm

/-- A document on some analyses, with the rules and the results of its one run, in which all fits
together. -/
structure Consistent (as : List Analysis) (d : Document) (rules results : List Document) :
    Prop where
  /-- One file alone is written as it would be among several. -/
  merged : (merge (as.map runOf)).document = d
  single : ∃ run, d.at? ["runs"] = some (.list [run]) ∧
    run.at? ["tool", "driver", "rules"] = some (.list rules) ∧
    run.at? ["results"] = some (.list results)
  /-- The results are what there is to say, file by file. -/
  written : List.Forall₂ Entry.WrittenIn (as.flatMap entries) results
  distinct : (rules.map (·.text? ["id"])).Nodup
  /-- The rules are those that the results refer to, in the order of first use. -/
  firstUses : rules.map (·.text? ["id"]) = (results.map (·.text? ["ruleId"])).eraseDups
  levels : ∀ result ∈ results, ∃ rule ∈ rules,
    rule.text? ["id"] = result.text? ["ruleId"] ∧
      rule.text? ["defaultConfiguration", "level"] = result.text? ["level"]

theorem runOfAll_consistent (as : List Analysis) :
    Consistent as (runOfAll as).document ((runOfAll as).rules.map Rule.document)
      ((runOfAll as).results.map Result.document) where
  merged := by rw [merge_eq]
  single := ⟨_, rfl, rfl, rfl⟩
  written := results_written as
  distinct := by
    rw [ids_written]
    exact nodup_eraseDups _
  firstUses := ids_written as
  levels := by
    intro result hin
    obtain ⟨r, hr, rfl⟩ := List.mem_map.mp hin
    have hrule : r.rule ∈ (runOfAll as).rules :=
      List.mem_eraseDups.mpr (List.mem_map_of_mem hr)
    exact ⟨r.rule.document, List.mem_map_of_mem hrule, rfl, rfl⟩

/-- Whatever was found in some files, there is a report on them, and it is consistent. -/
theorem report_consistent (as : List Analysis) (h : as ≠ []) :
    ∃ d rules results,
      (∀ time, CommandLine.report time .sarif as = .ok (d.render Document.standard)) ∧
        Consistent as d rules results := by
  refine ⟨_, _, _, ?_, runOfAll_consistent as⟩
  intro time
  rw [CommandLine.report, combine?_eq h]

/-- Two files that share a rule, and a third that could not be analyzed. -/
def someFiles : List Analysis :=
  [{ language := "c"
     filename := "a.c"
     leaks := [⟨"p", some 2, "malloc", 4, false, none, .unreleased, "free(p);", "p_line2_1"⟩]
     warnings := [⟨.unsafeFunction, some 3, "gets", "", none⟩] },
    { language := "c"
      filename := "b.c"
      warnings := [⟨.doubleFree, some 5, "q", "", some "q"⟩,
        ⟨.unsafeFunction, some 1, "gets", "", none⟩] },
    .failed "c" "why" "c.c"]

theorem report_consistent_three :
    someFiles ≠ [] ∧
      ((someFiles.flatMap entries).map Entry.ruleId).eraseDups =
        ["leaklens/leak-unreleased", "leaklens/unsafe-function", "leaklens/double-free",
          "leaklens/analysis-error"] ∧
      ∃ d rules results,
        (∀ time, CommandLine.report time .sarif someFiles = .ok (d.render Document.standard)) ∧
          Consistent someFiles d rules results := by
  have hfiles : someFiles ≠ [] := List.cons_ne_nil _ _
  exact ⟨hfiles, by decide +kernel, report_consistent someFiles hfiles⟩

end Sarif

end HeapAudit
