import QualityGate.Semantic.DefaultExport
import QualityGate.Syntax.Literals
import QualityGate.Proofs.Violation
import QualityGate.Proofs.Syntax.Places

/-!
Which exports give the default export no name. Such are functions without a name, and entries of
export clauses whose exported name is `default`. The check passes over generators among the
functions. Of an entry it takes either name for the exported one and reads no quotes, so that it
reports the default of another module even where it gets a name, and does not find the name
`default` in quotes.
-/
namespace QualityGate.DefaultExport

open Syntax Node

/-- What an export statement exports: a function, as the value of a default export, or what an entry
of an export clause names. Clauses that export types only do not count. -/
inductive Export
  | function (n : Node)
  | entry (n : Node)

def Export.node : Export → Node
  | function n => n
  | entry n => n

def isFunction (n : Node) : Bool :=
  n.kind = .arrowFunction || n.kind = .functionExpression || n.kind = .generatorFunction

variable (file : SourceFile)

def entries (n : Node) : List Node :=
  if hasKeyword file n "type" then [] else (n.parts.filter (·.kind = .exportClause)).flatMap parts

def functions (n : Node) : List Node :=
  if hasKeyword file n "default" then (n.child? .value).toList.filter isFunction else []

def ofStatement (n : Node) : List Export :=
  (functions file n).map .function ++ (entries file n).map .entry

/-- The exports at the top level of a file. -/
def exports : List Export :=
  (file.root.parts.filter (·.kind = .exportStatement)).flatMap (ofStatement file)

/-- The name under which an entry exports: its alias if it has one, otherwise its name. -/
def exportedName? (entry : Node) : Option String :=
  ((entry.child? .alias).or (entry.child? .name)).map fun name =>
    (file.stringValue? name).getD (file.textOf name)

namespace Export

def isUnnamed : Export → Bool
  | function n => n.kind = .arrowFunction || !n.has .name
  | entry n => exportedName? file n == some "default"

/-- What the check takes for such an export. -/
def isNoticed : Export → Bool
  | function n => (fault? n).isSome
  | entry n => namesDefault file n

def message : Export → String
  | function n => (fault? n).getD "Default export should not be an anonymous function"
  | entry _ => "Default export should be explicitly named"

def breach (e : Export) : Violation :=
  (Violation.warning .noDefaultExportAnon e.message).located (file.location e.node)

end Export

def unnamed : List Violation := ((exports file).filter (·.isUnnamed file)).map (·.breach file)

variable {file} {n : Node} {e : Export}

theorem ofValue_eq : ofValue file n =
    (((functions file n).map Export.function).filter (·.isNoticed file)).map (·.breach file) := by
  unfold ofValue functions
  cases hasKeyword file n "default" with
  | false => rfl
  | true =>
    cases n.child? .value with
    | none => rfl
    | some value =>
      have hfault : fault? value ≠ none → isFunction value = true := by
        unfold fault? isFunction
        split <;> simp_all
      cases h : fault? value with
      | none => cases hkind : isFunction value <;> simp [h, hkind, Export.isNoticed]
      | some message =>
        simp [h, hfault (by simp [h]), Export.isNoticed, Export.breach, Export.message, Export.node]

theorem ofClauses_eq : ofClauses file n =
    (((entries file n).map Export.entry).filter (·.isNoticed file)).map (·.breach file) := by
  unfold ofClauses entries
  split_ifs
  · rfl
  · rw [List.filter_map, List.map_map]
    rfl

/-- The check reports the exports that it notices, one after the other. -/
theorem check_eq_noticed :
    check file = ((exports file).filter (·.isNoticed file)).map (·.breach file) := by
  simp only [check, exports, ofStatement, List.filter_flatMap, List.map_flatMap, List.filter_append,
    List.map_append, ofValue_eq, ofClauses_eq]

theorem start_ne_of_inside {m : Node} {left middle middle' right : ℕ} (hm : Inside left middle m)
    (hn : Inside middle' right n) (h : middle ≤ middle') : m.start ≠ n.start :=
  (hm.start_lt.trans_le (hm.le_right.trans (h.trans hn.left_le))).ne

/-- Nodes in different children start at different offsets. -/
theorem start_ne_of_siblings {left right : ℕ} {ns : List Node} (h : orderedAll left right ns = true)
    {c d m : Node} (hc : c ∈ ns) (hd : d ∈ ns) (hne : c ≠ d) (hm : Inside c.start c.stop m)
    (hn : Inside d.start d.stop n) :
    m.start ≠ n.start := by
  rcases apart_of_orderedAll h hc hd hne with hcd | hdc
  · exact start_ne_of_inside hm hn hcd
  · exact (start_ne_of_inside hn hm hdc).symm

theorem mem_functions {value : Node} (h : value ∈ functions file n) :
    value ∈ n.children ∧ isFunction value = true := by
  unfold functions at h
  split_ifs at h
  · obtain ⟨hvalue, hfunction⟩ := List.mem_filter.1 h
    exact ⟨List.mem_of_find?_eq_some (Option.mem_toList.1 hvalue), hfunction⟩
  · cases h

theorem exists_clause {entry : Node} (h : entry ∈ entries file n) :
    ∃ clause ∈ n.children, clause.kind = .exportClause ∧ entry ∈ clause.children := by
  unfold entries at h
  split_ifs at h
  · cases h
  · obtain ⟨clause, hclause, hentry⟩ := List.mem_flatMap.1 h
    obtain ⟨hclause, hkind⟩ := List.mem_filter.1 hclause
    exact ⟨clause, List.mem_of_mem_filter hclause, of_decide_eq_true hkind,
      List.mem_of_mem_filter hentry⟩

/-- What a statement exports stands inside it. -/
theorem inside_of_mem {left right : ℕ} (h : Inside left right n) (he : e ∈ ofStatement file n) :
    Inside left right e.node := by
  rcases List.mem_append.1 he with he | he
  · obtain ⟨value, hvalue, rfl⟩ := List.mem_map.1 he
    exact h.child (mem_functions hvalue).1
  · obtain ⟨entry, hentry, rfl⟩ := List.mem_map.1 he
    obtain ⟨clause, hclause, -, hentry⟩ := exists_clause hentry
    exact (h.child hclause).child hentry

theorem pairwise_parts {left right : ℕ} (h : Inside left right n) :
    n.parts.Pairwise fun c d => c.stop ≤ d.start :=
  (pairwise_of_orderedAll (ordered_eq n ▸ h.ordered)).sublist List.filter_sublist

theorem pairwise_entries {left right : ℕ} (h : Inside left right n) :
    (entries file n).Pairwise fun c d => c.start ≠ d.start := by
  have hinside (c : Node) (hc : c ∈ n.parts) : Inside left right c :=
    h.child (List.mem_of_mem_filter hc)
  unfold entries
  split_ifs
  · exact .nil
  · refine List.pairwise_flatMap.2 ⟨fun clause hclause => ?within, ?between⟩
    case within =>
      have hclause := hinside clause (List.mem_of_mem_filter hclause)
      refine (pairwise_parts hclause).imp_of_mem fun hc hd => ?_
      exact start_ne_of_inside (hclause.child (List.mem_of_mem_filter hc)).own
        (hclause.child (List.mem_of_mem_filter hd)).own
    case between =>
      refine ((pairwise_parts h).sublist List.filter_sublist).imp_of_mem
        fun hc hd hcd x hx y hy => ?_
      exact start_ne_of_inside ((hinside _ (List.mem_of_mem_filter hc)).own.child
        (List.mem_of_mem_filter hx))
        ((hinside _ (List.mem_of_mem_filter hd)).own.child (List.mem_of_mem_filter hy)) hcd

theorem pairwise_ofStatement {left right : ℕ} (h : Inside left right n) :
    (ofStatement file n).Pairwise fun d e => d.node.start ≠ e.node.start := by
  refine List.pairwise_append.2 ⟨List.pairwise_map.2 ?one,
    List.pairwise_map.2 (pairwise_entries h), ?between⟩
  case one =>
    -- A statement has one value at most.
    unfold functions
    split_ifs
    · cases n.child? .value with
      | none => exact .nil
      | some value => exact (List.pairwise_singleton _ _).sublist List.filter_sublist
    · exact .nil
  case between =>
    intro d hd e he
    obtain ⟨value, hvalue, rfl⟩ := List.mem_map.1 hd
    obtain ⟨entry, hentry, rfl⟩ := List.mem_map.1 he
    obtain ⟨hvalue, hfunction⟩ := mem_functions hvalue
    obtain ⟨clause, hclause, hkind, hentry⟩ := exists_clause hentry
    have hne : value ≠ clause := by
      rintro rfl
      simp [isFunction, hkind] at hfunction
    exact start_ne_of_siblings (ordered_eq n ▸ h.ordered) hvalue hclause hne (h.child hvalue).own
      ((h.child hclause).own.child hentry)

/-- The exports of a file stand at different places. -/
theorem nodup_exports : ((exports file).map fun e => file.location e.node).Nodup := by
  have hinside := inside_of_orderedAll file.isOrdered
  have hstatements := (pairwise_of_orderedAll file.isOrdered).sublist
    ((List.filter_sublist (p := (fun n : Node => decide (n.kind = .exportStatement)))).trans
      (List.filter_sublist (p := fun c => c.named && c.kind != .comment)))
  have hmem {n : Node} (hn : n ∈ file.root.parts.filter (·.kind = .exportStatement)) :
      Inside 0 file.text.size n :=
    hinside n (List.mem_of_mem_filter (List.mem_of_mem_filter hn))
  have hstarts : (exports file).Pairwise fun d e => d.node.start ≠ e.node.start := by
    refine List.pairwise_flatMap.2 ⟨fun n hn => pairwise_ofStatement (hmem hn), ?_⟩
    refine hstatements.imp_of_mem fun hm hn hmn d hd e he => ?_
    exact start_ne_of_inside (inside_of_mem (hmem hm).own hd) (inside_of_mem (hmem hn).own he) hmn
  refine List.pairwise_map.2 (hstarts.imp_of_mem fun {d e} hd he hne => ?_)
  obtain ⟨m, hm, hd⟩ := List.mem_flatMap.1 hd
  obtain ⟨n, hn, he⟩ := List.mem_flatMap.1 he
  have hd := inside_of_mem (hmem hm) hd
  have he := inside_of_mem (hmem hn) he
  exact file.location_ne (hd.start_lt.le.trans hd.le_right) (he.start_lt.le.trans he.le_right) hne

def TakesDefault (file : SourceFile) (entry : Node) : Prop :=
  ∃ name, entry.child? .name = some name ∧ file.textOf name = "default"

/-- The check reads the names of an entry as they are spelled. That is right where a `default` that
is taken is also given, and one that is given in quotes also taken. -/
structure GivesTaken (file : SourceFile) (entry : Node) : Prop where
  given : TakesDefault file entry → exportedName? file entry = some "default"
  taken : ∀ name, (entry.child? .alias).or (entry.child? .name) = some name →
    file.stringValue? name = some "default" → TakesDefault file entry
  -- Strings are spelled with their quotes, which the tree alone does not say.
  spelled : ∀ other, entry.child? .alias = some other → other.kind = .string →
    file.textOf other ≠ "default"

/-- Whether the check takes an export rightly. -/
def IsJudged (file : SourceFile) : Export → Prop
  | .function n => n.kind = .generatorFunction → n.has .name = true
  | .entry n => GivesTaken file n

theorem namesDefault_iff : namesDefault file n = true ↔
    TakesDefault file n ∨ ∃ other, n.child? .alias = some other ∧
      file.textOf other = "default" := by
  simp [namesDefault, TakesDefault]

theorem stringValue?_ne_of_textOf (h : file.textOf n = "default") :
    file.stringValue? n ≠ some "default" := by
  have hslice : file.slice n.start n.stop = "default".toList := by
    rw [← h, SourceFile.textOf, String.toList_ofList, SourceFile.slice]
  unfold SourceFile.stringValue?
  split_ifs
  · rw [hslice]
    decide
  · exact (Option.some_ne_none _).symm

theorem nameOf_eq_default_iff : (file.stringValue? n).getD (file.textOf n) = "default" ↔
    file.stringValue? n = some "default" ∨ n.kind ≠ .string ∧ file.textOf n = "default" := by
  unfold SourceFile.stringValue?
  split_ifs with hkind <;> simp [hkind]

theorem namesDefault_eq_iff : namesDefault file n = (exportedName? file n == some "default") ↔
    GivesTaken file n := by
  rw [Bool.eq_iff_iff, namesDefault_iff, beq_iff_eq]
  refine ⟨fun h => ⟨fun htakes => h.1 (.inl htakes), ?taken, ?spelled⟩, fun h => ⟨?given, ?named⟩⟩
  case taken =>
    intro name hname hvalue
    rcases h.2 (by simp [exportedName?, hname, hvalue]) with htakes | ⟨other, hother, htext⟩
    · exact htakes
    · obtain rfl : other = name := by simpa [hother] using hname
      exact absurd hvalue (stringValue?_ne_of_textOf htext)
  case spelled =>
    intro other hother hkind htext
    have hvalue : (file.stringValue? other).getD (file.textOf other) = "default" := by
      simpa [exportedName?, hother] using h.1 (.inr ⟨other, hother, htext⟩)
    rcases nameOf_eq_default_iff.1 hvalue with hvalue | ⟨hne, -⟩
    · exact stringValue?_ne_of_textOf htext hvalue
    · exact hne hkind
  case given =>
    rintro (htakes | ⟨other, hother, htext⟩)
    · exact h.given htakes
    · have hkind : other.kind ≠ .string := fun hkind => h.spelled other hother hkind htext
      simpa [exportedName?, hother] using nameOf_eq_default_iff.2 (.inr ⟨hkind, htext⟩)
  case named =>
    intro hgiven
    obtain ⟨name, hname, hvalue⟩ := Option.map_eq_some_iff.1 hgiven
    rcases nameOf_eq_default_iff.1 hvalue with hvalue | ⟨-, htext⟩
    · exact .inl (h.taken name hname hvalue)
    · rcases Option.or_eq_some_iff.1 hname with hother | ⟨-, hname⟩
      · exact .inr ⟨name, hother, htext⟩
      · exact .inl ⟨name, hname, htext⟩

theorem isNoticed_eq_isUnnamed_iff (he : e ∈ exports file) :
    e.isNoticed file = e.isUnnamed file ↔ IsJudged file e := by
  cases e with
  | entry n => exact namesDefault_eq_iff
  | function n =>
    obtain ⟨statement, -, he⟩ := List.mem_flatMap.1 he
    have hfunction : isFunction n = true := by
      rcases List.mem_append.1 he with he | he
      · obtain ⟨value, hvalue, hn⟩ := List.mem_map.1 he
        cases hn
        exact (mem_functions hvalue).2
      · obtain ⟨entry, -, hn⟩ := List.mem_map.1 he
        cases hn
    unfold isFunction at hfunction
    unfold Export.isNoticed Export.isUnnamed IsJudged fault?
    cases hname : n.has .name <;> cases hkind : n.kind <;> simp_all

/-- Reports at different places tell which exports are reported. -/
theorem map_breach_filter_eq_iff {exports : List Export}
    (h : (exports.map fun e => file.location e.node).Nodup) (p q : Export → Bool) :
    (exports.filter p).map (·.breach file) = (exports.filter q).map (·.breach file) ↔
      ∀ e ∈ exports, p e = q e := by
  have hsubset {p q : Export → Bool}
      (heq : (exports.filter p).map (·.breach file) = (exports.filter q).map (·.breach file))
      (e : Export) (he : e ∈ exports) (hp : p e = true) : q e = true := by
    obtain ⟨d, hd, hbreach⟩ :=
      List.mem_map.1 (heq ▸ List.mem_map_of_mem (List.mem_filter.2 ⟨he, hp⟩))
    obtain ⟨hd, hq⟩ := List.mem_filter.1 hd
    have hplace : file.location d.node = file.location e.node := by
      simp only [Export.breach, Violation.located, Violation.mk.injEq, Option.some.injEq] at hbreach
      obtain ⟨-, -, -, hline, hcolumn, -⟩ := hbreach
      exact Location.mk.injEq .. ▸ ⟨hline, hcolumn⟩
    exact List.inj_on_of_nodup_map h hd he hplace ▸ hq
  constructor
  · exact fun heq e he => Bool.eq_iff_iff.2 ⟨hsubset heq e he, hsubset heq.symm e he⟩
  · exact fun heq => congrArg _ (List.filter_congr heq)

/-- Each export that the check notices is reported once, at a place of its own. These are the
exports that give the default export no name, provided that no generator without a name is one, and
that every entry gives on the `default` that it takes, and takes the one that it gives in quotes. -/
theorem check_unnamed_iff (file : SourceFile) :
    check file = ((exports file).filter (·.isNoticed file)).map (·.breach file) ∧
      ((exports file).map fun e => file.location e.node).Nodup ∧
      (check file = unnamed file ↔ ∀ e ∈ exports file, IsJudged file e) := by
  refine ⟨check_eq_noticed, nodup_exports, ?_⟩
  rw [check_eq_noticed, unnamed, map_breach_filter_eq_iff nodup_exports]
  exact forall₂_congr fun e he => isNoticed_eq_isUnnamed_iff he

/-- How many reports are made for a text, and how many are due. -/
def Reports (source : String) (made due : ℕ) : Prop :=
  ∃ file, SourceFile.parse ⟨"a.ts"⟩ source = .ok file ∧ (check file).length = made ∧
    (unnamed file).length = due

theorem reports_of_any {source : String} {made due : ℕ}
    (h : (SourceFile.parse ⟨"a.ts"⟩ source).toOption.any
    (fun file => (check file).length = made ∧ (unnamed file).length = due) = true) :
    Reports source made due := by
  obtain ⟨file, hfile, h⟩ := exists_ok_of_any h
  exact ⟨file, hfile, of_decide_eq_true h⟩

/-- The default of another module under a name of its own is reported. A generator without a name
and the name `default` in quotes are not. -/
theorem check_misjudged : Reports "export \x7b default as Page \x7d from './page';" 1 0 ∧
    Reports "export default function* () \x7b\x7d" 0 1 ∧
    Reports "export \x7b a as 'default' \x7d;" 0 1 :=
  ⟨reports_of_any (by decide +kernel), reports_of_any (by decide +kernel),
    reports_of_any (by decide +kernel)⟩

end QualityGate.DefaultExport
