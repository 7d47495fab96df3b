import QualityGate.Command.Execute
import QualityGate.Proofs.Path.Below
import QualityGate.Proofs.Report.RollUp
import Mathlib.Data.List.Forall2

/-!
Reports for readers, read line by line. What a line shows is said without the renderer: a line for a
violation has a mark for its severity, the rule, the place and the message, and no other line opens
as such a line does.
-/
namespace QualityGate.Report

open List (Forall₂)

/-- What a reader sees of a text: all of it, but for color codes where colors are on. -/
inductive Shows (colors : Bool) : List Char → List Char → Prop
  | nil : Shows colors [] []
  | char {text seen : List Char} (c : Char) (h : Shows colors text seen) :
    Shows colors (c :: text) (c :: seen)
  | code {codes text seen : List Char} (hcolors : colors = true)
    (hcodes : ∀ c ∈ codes, c.isDigit = true ∨ c = ';') (h : Shows colors text seen) :
    Shows colors ('\x1b' :: '[' :: (codes ++ 'm' :: text)) seen

/-- What is shown for a file: what leads to it from the project, if it lies below. -/
def IsShort (projectDir file short : String) : Prop :=
  if (Path.mk projectDir).components <+: (Path.mk file).components then
    (Path.mk file).components = (Path.mk projectDir).components ++ (Path.mk short).components
  else short = file

/-- Where a violation is: in the project as a whole, in a file, or at a position in a file. -/
inductive IsPlace (projectDir : String) (v : Violation) : String → Prop
  | project (h : v.file = none) : IsPlace projectDir v "[project-level]"
  | file {file short : String} (hfile : v.file = some file) (hshort : IsShort projectDir file short)
    (hposition : v.line = none ∨ v.column = none) : IsPlace projectDir v short
  | position {file short : String} {line column : ℕ} (hfile : v.file = some file)
    (hshort : IsShort projectDir file short) (hline : v.line = some line)
    (hcolumn : v.column = some column) :
    IsPlace projectDir v (short ++ ":" ++ toString line ++ ":" ++ toString column)

def markOf : Severity → String
  | .error => "x"
  | .warning => "!"

def IsEntry (colors : Bool) (projectDir : String) (v : Violation) (line : List Char) : Prop :=
  ∃ place, IsPlace projectDir v place ∧ Shows colors line
    ("   " ++ markOf v.severity ++ " [" ++ v.rule ++ "] " ++ place ++ " — " ++ v.message).toList

/-- Whether a line begins with three blanks and a mark, or the color code of one. -/
def opensEntry (line : List Char) : Bool :=
  ["   x".toList, "   !".toList, "   \x1b".toList].contains (line.take 4)

/-- Lines that list violations, one line each, behind a heading with their number and in front of
an empty line. There are none without a violation. -/
inductive IsListing (colors : Bool) (projectDir heading : String) :
    List Violation → List (List Char) → Prop
  | none : IsListing colors projectDir heading [] []
  | some {vs : List Violation} {first : List Char} {lines : List (List Char)} (hvs : vs ≠ [])
    (hfirst : Shows colors first (toString lines.length ++ heading).toList)
    (hlines : Forall₂ (IsEntry colors projectDir) vs lines) :
    IsListing colors projectDir heading vs (first :: (lines ++ [[]]))

/-- No line ends inside of what is quoted of a violation. -/
structure KeepsLine (v : Violation) : Prop where
  rule : '\n' ∉ v.rule.toList
  message : '\n' ∉ v.message.toList
  file : ∀ file ∈ v.file, '\n' ∉ file.toList

/-- The text has lines at the top, then those that list the errors and, unless they are left out,
the warnings, each in the order of the report, and a last one with the decision that the exit code
tells. The lines that open as entries do are the entries. Where no line ends inside of what the
report quotes, the lines are those into which the text falls. -/
def ListedForReaders (colors : Bool) (filter : SeverityFilter) (text : String) (r : Report) :
    Prop :=
  let errors := r.violations.filter (·.severity = .error)
  let warnings := r.violations.filter (·.severity = .warning)
  let shown := if filter = .error then [] else warnings
  ∃ top errorLines warningLines last lines,
    lines = top ++ errorLines ++ warningLines ++ [last] ∧
    text.toList = lines.flatMap (· ++ ['\n']) ∧
    IsListing colors r.projectDir " ERROR(s) — BLOCKING" errors errorLines ∧
    IsListing colors r.projectDir " WARNING(s)" shown warningLines ∧
    Shows colors last (if Command.exitCode r = 1 then
        "AST GATE: BLOCKED (" ++ toString errors.length ++ " errors)"
      else "AST GATE: PASSED (" ++ toString warnings.length ++ " warnings)").toList ∧
    Forall₂ (IsEntry colors r.projectDir) (errors ++ shown) (lines.filter opensEntry) ∧
    ('\n' ∉ r.projectDir.toList → (∀ v ∈ r.violations, KeepsLine v) →
      text.toList.splitOn '\n' = lines ++ [[]])

variable {colors : Bool} {projectDir heading : String} {v : Violation} {vs : List Violation}
  {text more seen rest : List Char}

theorem Shows.refl (text : List Char) : Shows colors text text := by
  induction text with
  | nil => exact .nil
  | cons c text ih => exact .char c ih

theorem Shows.append (h : Shows colors text seen) (k : Shows colors more rest) :
    Shows colors (text ++ more) (seen ++ rest) := by
  induction h with
  | nil => exact k
  | char c _ ih => exact .char c ih
  | @code codes text seen hcolors hcodes _ ih =>
    have hcode := Shows.code hcolors hcodes ih
    simpa using hcode

theorem isDigit_codes (s : Style) : ∀ c ∈ (";".intercalate s.codes).toList,
    c.isDigit = true ∨ c = ';' := by
  have hall : (";".intercalate s.codes).toList.all (fun c => c.isDigit || c == ';') = true := by
    obtain ⟨bold, color⟩ := s
    cases bold <;> rcases color with _ | _ | _ | _ | _ <;> decide
  simpa using hall

theorem shows_paint (s : Style) (text : String) :
    Shows colors (s.paint colors text).toList text.toList := by
  rw [Style.paint]
  split_ifs with hcolors
  · have hend : Shows colors ['\x1b', '[', '0', 'm'] [] :=
      @Shows.code colors ['0'] [] [] hcolors (by simp) .nil
    have hpainted := Shows.code hcolors (isDigit_codes s) ((Shows.refl text.toList).append hend)
    simpa using hpainted
  · exact .refl _

theorem newline_not_mem_paint (s : Style) {text : String} (h : '\n' ∉ text.toList) :
    '\n' ∉ (s.paint colors text).toList := by
  have hcodes : '\n' ∉ (";".intercalate s.codes).toList := fun hc =>
    absurd (isDigit_codes s _ hc) (by decide)
  rw [Style.paint]
  split_ifs
  · have hcodes : '\n' ∉ [';'].intercalate (s.codes.map String.toList) := by
      rwa [String.toList_intercalate] at hcodes
    simp [h, hcodes]
  · exact h

theorem isShort_below? (projectDir file : String) :
    IsShort projectDir file (((Path.mk file).below? ⟨projectDir⟩).getD file) := by
  have hbelow := @Path.isSome_below?_iff ⟨file⟩ ⟨projectDir⟩
  rw [IsShort]
  cases h : (Path.mk file).below? ⟨projectDir⟩ with
  | none =>
    rw [h] at hbelow
    rw [if_neg (by simpa using hbelow)]
    rfl
  | some short =>
    rw [if_pos (hbelow.1 (by rw [h]; rfl))]
    exact Path.components_below? h

theorem isPlace_place (projectDir : String) (v : Violation) :
    IsPlace projectDir v (place projectDir v) := by
  rw [place]
  cases hfile : v.file with
  | none => exact .project hfile
  | some file =>
    have hshort := isShort_below? projectDir file
    cases hline : v.line with
    | none => exact .file hfile hshort (.inl hline)
    | some line =>
      cases hcolumn : v.column with
      | none => exact .file hfile hshort (.inr hcolumn)
      | some column => exact .position hfile hshort hline hcolumn

theorem newline_not_mem_toDigits (n : ℕ) : '\n' ∉ Nat.toDigits 10 n := fun h =>
  absurd (Nat.isDigit_of_mem_toDigits (by decide) (by decide) h) (by decide)

theorem newline_not_mem_place (h : KeepsLine v) : '\n' ∉ (place projectDir v).toList := by
  rw [place]
  cases hfile : v.file with
  | none => exact show '\n' ∉ "[project-level]".toList by decide
  | some file =>
    have hshort : '\n' ∉ (((Path.mk file).below? ⟨projectDir⟩).getD file).toList := by
      cases hbelow : (Path.mk file).below? ⟨projectDir⟩ with
      | none => exact h.file file hfile
      | some short =>
        intro hc
        exact (Path.mem_below? hbelow hc).elim (by decide) (h.file file hfile)
    cases v.line with
    | none => exact hshort
    | some line =>
      cases v.column with
      | none => exact hshort
      | some column => simp [hshort, newline_not_mem_toDigits]

def colorOf : Severity → Color16
  | .error => .red
  | .warning => .yellow

def paintedMark (colors : Bool) (severity : Severity) : String :=
  (Style.plain (colorOf severity)).paint colors (markOf severity)

theorem opensEntry_append (h : 4 ≤ text.length) (more : List Char) :
    opensEntry (text ++ more) = opensEntry text := by
  rw [opensEntry, opensEntry, List.take_append_of_le_length h]

/-- A line for a violation, and what holds of it. -/
structure IsLine (colors : Bool) (projectDir : String) (v : Violation) (line : List Char) :
    Prop where
  isEntry : IsEntry colors projectDir v line
  opens : opensEntry line = true
  keeps : KeepsLine v → '\n' ∉ line

theorem exists_isLine (colors : Bool) (projectDir : String) (v : Violation) :
    ∃ line, IsLine colors projectDir v line ∧
      (entry colors projectDir (paintedMark colors v.severity) v).toList = line ++ ['\n'] := by
  refine ⟨("   " ++ paintedMark colors v.severity ++ " [" ++
    (Style.plain .yellow).paint colors v.rule ++ "] " ++ place projectDir v ++ " — " ++
      v.message).toList, ⟨⟨_, isPlace_place projectDir v, ?_⟩, ?_, fun h => ?_⟩, ?_⟩
  · simp only [String.toList_append, List.append_assoc]
    exact (Shows.refl _).append ((shows_paint _ _).append ((Shows.refl _).append
      ((shows_paint _ _).append (.refl _))))
  · have hmark : 4 ≤ ("   " ++ paintedMark colors v.severity).toList.length ∧
        opensEntry ("   " ++ paintedMark colors v.severity).toList = true := by
      cases v.severity <;> cases colors <;> decide
    rw [String.append_assoc, String.append_assoc, String.append_assoc, String.append_assoc,
      String.append_assoc, String.toList_append, opensEntry_append hmark.1]
    exact hmark.2
  · have hmark : '\n' ∉ (markOf v.severity).toList := by cases v.severity <;> decide
    simp only [String.toList_append, List.mem_append, not_or]
    exact ⟨⟨⟨⟨⟨⟨⟨by decide, newline_not_mem_paint _ hmark⟩, by decide⟩,
      newline_not_mem_paint _ h.rule⟩, by decide⟩, newline_not_mem_place h⟩, by decide⟩, h.message⟩
  · rw [entry, String.toList_append]
    rfl

theorem opensEntry_eq_false (h : text.head? ≠ some ' ') : opensEntry text = false := by
  cases text with
  | nil => rfl
  | cons c cs =>
    have hc : c ≠ ' ' := by simpa using h
    simp [opensEntry, hc]

theorem opensEntry_paint (s : Style) {text : String} (h : text.toList.head? ≠ some ' ') :
    opensEntry (s.paint colors text).toList = false := by
  refine opensEntry_eq_false ?_
  rw [Style.paint]
  split_ifs
  · simp
  · exact h

theorem head?_toString_append (n : ℕ) (text : String) :
    (toString n ++ text).toList.head? ≠ some ' ' := by
  obtain ⟨c, cs, hcs⟩ := List.exists_cons_of_ne_nil (Nat.toDigits_ne_nil (b := 10) (n := n))
  have hdigit : c.isDigit = true :=
    Nat.isDigit_of_mem_toDigits (by decide) (by decide) (hcs ▸ List.mem_cons_self)
  have hhead : (toString n ++ text).toList.head? = some c := by simp [hcs]
  rw [hhead]
  rintro h
  exact absurd (Option.some.inj h ▸ hdigit) (by decide)

/-- A part of the text: lines, those that open as entries do, and what they are entries of. -/
structure IsPart (colors : Bool) (projectDir : String) (vs : List Violation)
    (lines : List (List Char)) : Prop where
  entries : Forall₂ (IsEntry colors projectDir) vs (lines.filter opensEntry)
  keeps : (∀ v ∈ vs, KeepsLine v) → ∀ line ∈ lines, '\n' ∉ line

theorem IsPart.append {ws : List Violation} {lines others : List (List Char)}
    (h : IsPart colors projectDir vs lines) (k : IsPart colors projectDir ws others) :
    IsPart colors projectDir (vs ++ ws) (lines ++ others) where
  entries := by
    rw [List.filter_append]
    exact List.rel_append h.entries k.entries
  keeps hkeeps := by
    obtain ⟨hvs, hws⟩ := List.forall_mem_append.1 hkeeps
    exact List.forall_mem_append.2 ⟨h.keeps hvs, k.keeps hws⟩

theorem IsPart.of_isLine {lines : List (List Char)}
    (h : Forall₂ (IsLine colors projectDir) vs lines) : IsPart colors projectDir vs lines := by
  induction h with
  | nil => exact ⟨.nil, fun _ => List.forall_mem_nil _⟩
  | cons hline _ ih =>
    refine ⟨?_, fun hkeeps => ?_⟩
    · rw [List.filter_cons_of_pos hline.opens]
      exact .cons hline.isEntry ih.entries
    · obtain ⟨hv, hvs⟩ := List.forall_mem_cons.1 hkeeps
      exact List.forall_mem_cons.2 ⟨hline.keeps hv, ih.keeps hvs⟩

/-- Lines that do not open as entries do are entries of nothing. -/
theorem IsPart.of_opens_eq_false {lines : List (List Char)}
    (h : ∀ line ∈ lines, opensEntry line = false) (hkeeps : ∀ line ∈ lines, '\n' ∉ line) :
    IsPart colors projectDir [] lines where
  entries := by
    rw [List.filter_eq_nil_iff.2 fun line hline => by simp [h line hline]]
    exact .nil
  keeps _ := hkeeps

theorem exists_isLines (colors : Bool) (projectDir : String) {severity : Severity}
    (hvs : ∀ v ∈ vs, v.severity = severity) :
    ∃ lines, Forall₂ (IsLine colors projectDir) vs lines ∧
      (String.join (vs.map (entry colors projectDir (paintedMark colors severity)))).toList =
        lines.flatMap (· ++ ['\n']) := by
  induction vs with
  | nil => exact ⟨[], .nil, rfl⟩
  | cons v vs ih =>
    obtain ⟨hv, hvs⟩ := List.forall_mem_cons.1 hvs
    obtain ⟨lines, hlines, htext⟩ := ih hvs
    obtain ⟨line, hline, hentry⟩ := exists_isLine colors projectDir v
    refine ⟨line :: lines, .cons hline hlines, ?_⟩
    rw [hv] at hentry
    simp [hentry, htext]

theorem exists_isListing (colors : Bool) (projectDir : String) {severity : Severity}
    (hvs : ∀ v ∈ vs, v.severity = severity) (style : Style) (heading : String)
    (hheading : '\n' ∉ heading.toList) :
    ∃ lines, IsListing colors projectDir heading vs lines ∧ IsPart colors projectDir vs lines ∧
      (if vs.isEmpty then "" else style.paint colors (toString vs.length ++ heading) ++ "\n"
        ++ String.join (vs.map (entry colors projectDir (paintedMark colors severity)))
        ++ "\n").toList = lines.flatMap (· ++ ['\n']) := by
  obtain ⟨lines, hlines, htext⟩ := exists_isLines colors projectDir hvs
  by_cases hnone : vs = []
  · subst hnone
    exact ⟨[], .none, .of_opens_eq_false (List.forall_mem_nil _) (List.forall_mem_nil _), rfl⟩
  · obtain ⟨first, hfirst⟩ : ∃ first,
      first = (style.paint colors (toString vs.length ++ heading)).toList := ⟨_, rfl⟩
    have hshows : Shows colors first (toString lines.length ++ heading).toList := by
      rw [hfirst, ← hlines.length_eq]
      exact shows_paint _ _
    have hopens : opensEntry first = false :=
      hfirst ▸ opensEntry_paint style (head?_toString_append _ _)
    have hkeeps : '\n' ∉ first := by
      rw [hfirst]
      exact newline_not_mem_paint style (by simp [newline_not_mem_toDigits, hheading])
    have hpart : IsPart colors projectDir ([] ++ (vs ++ [])) ([first] ++ (lines ++ [[]])) :=
      .append (.of_opens_eq_false (by simpa using hopens) (by simpa using hkeeps))
        (.append (.of_isLine hlines) (.of_opens_eq_false (by simp [opensEntry]) (by simp)))
    refine ⟨first :: (lines ++ [[]]),
      .some hnone hshows (hlines.imp fun _ _ h => h.isEntry), by simpa using hpart, ?_⟩
    rw [if_neg (by simpa using hnone)]
    simp [htext, hfirst]

def topLines (colors : Bool) (r : Report) : List String :=
  ["", (Style.mk true none).paint colors ("BRUDI AST GATE v" ++ version),
    "   Project: " ++ r.projectDir,
    "   Files: " ++ toString r.metrics.filesAnalyzed ++ " (" ++
      toString r.metrics.componentFilesAnalyzed ++ " components, " ++
      toString r.metrics.typedFilesAnalyzed ++ " TypeScript)",
    "   Time: " ++ toString r.metrics.milliseconds ++ "ms",
    "   Analyzers: " ++ toString r.metrics.analyzersRun ++ "/5", ""]

theorem head_eq (colors : Bool) (r : Report) :
    head colors r = String.join ((topLines colors r).map (· ++ "\n")) := by
  have hfiles : " TypeScript)\n" = " TypeScript)" ++ "\n" := by decide
  have htime : "ms\n" = "ms" ++ "\n" := by decide
  have hanalyzers : "/5\n\n" = "/5" ++ ("\n" ++ "\n") := by decide
  unfold head topLines
  generalize (Style.mk true none).paint colors ("BRUDI AST GATE v" ++ version) = title
  simp only [hfiles, htime, hanalyzers, List.map_cons, List.map_nil, String.join_cons,
    String.join_nil, String.append_assoc, String.empty_append, String.append_empty]

theorem opensEntry_topLines (colors : Bool) (r : Report) :
    ∀ line ∈ topLines colors r, opensEntry line.toList = false := by
  have htop {text more : String} (hlength : 4 ≤ text.toList.length)
      (htext : opensEntry text.toList = false) : opensEntry (text ++ more).toList = false := by
    rw [String.toList_append, opensEntry_append hlength, htext]
  intro line hline
  simp only [topLines, List.mem_cons, List.not_mem_nil, or_false, String.append_assoc] at hline
  rcases hline with rfl | rfl | rfl | rfl | rfl | rfl | rfl
  · rfl
  · exact opensEntry_paint _ (by decide)
  · exact htop (by decide) (by decide)
  · exact htop (by decide) (by decide)
  · exact htop (by decide) (by decide)
  · exact htop (by decide) (by decide)
  · rfl

theorem newline_not_mem_topLines {r : Report} (h : '\n' ∉ r.projectDir.toList) :
    ∀ line ∈ topLines colors r, '\n' ∉ line.toList := by
  intro line hline
  simp only [topLines, List.mem_cons, List.not_mem_nil, or_false] at hline
  rcases hline with rfl | rfl | rfl | rfl | rfl | rfl | rfl
  · exact List.not_mem_nil
  · exact newline_not_mem_paint _ (by decide)
  · simp [h]
  · simp [newline_not_mem_toDigits]
  · simp [newline_not_mem_toDigits]
  · simp [newline_not_mem_toDigits]
  · exact List.not_mem_nil

theorem exitCode_eq_one_iff (r : Report) : Command.exitCode r = 1 ↔ r.isBlocked = true := by
  rw [Command.exitCode]
  split_ifs with h <;> simp [h]

theorem decision_eq (colors : Bool) (r : Report) : decision colors r =
    (if Command.exitCode r = 1 then (Style.strong .red).paint colors
        ("AST GATE: BLOCKED (" ++ toString r.errors.length ++ " errors)")
      else (Style.strong .green).paint colors
        ("AST GATE: PASSED (" ++ toString r.warnings.length ++ " warnings)")) ++ "\n" := by
  simp only [decision, exitCode_eq_one_iff, summary_warnings]
  split_ifs
  · rfl
  · rfl

/-- The last line, and what holds of it. -/
theorem exists_last (colors : Bool) (r : Report) :
    ∃ last, (decision colors r).toList = last ++ ['\n'] ∧
      Shows colors last (if Command.exitCode r = 1 then
          "AST GATE: BLOCKED (" ++ toString r.errors.length ++ " errors)"
        else "AST GATE: PASSED (" ++ toString r.warnings.length ++ " warnings)").toList ∧
      IsPart colors r.projectDir [] [last] := by
  have hlast (style : Style) (core : String) (hopens : core.toList.head? ≠ some ' ')
      (hcore : '\n' ∉ core.toList) :
        IsPart colors r.projectDir [] [(style.paint colors core).toList] :=
    .of_opens_eq_false (List.forall_mem_singleton.2 (opensEntry_paint style hopens))
      (List.forall_mem_singleton.2 (newline_not_mem_paint style hcore))
  rw [decision_eq]
  refine ⟨_, String.toList_append, ?_, ?_⟩
  · split_ifs
    · exact shows_paint _ _
    · exact shows_paint _ _
  · split_ifs
    · exact hlast _ _ (by simp) (by simp [newline_not_mem_toDigits])
    · exact hlast _ _ (by simp) (by simp [newline_not_mem_toDigits])

/-- Lines that hold no end of a line are those into which their text falls. -/
theorem splitOn_flatMap {lines : List (List Char)} (h : ∀ line ∈ lines, '\n' ∉ line) :
    (lines.flatMap (· ++ ['\n'])).splitOn '\n' = lines ++ [[]] := by
  have htext : lines.flatMap (· ++ ['\n']) = ['\n'].intercalate (lines ++ [[]]) := by
    induction lines with
    | nil => rfl
    | cons line lines ih =>
      have hmore : lines ++ [[]] ≠ [] := by simp
      rw [List.flatMap_cons, ih (List.forall_mem_cons.1 h).2, List.cons_append,
        List.intercalate_cons_of_ne_nil hmore]
  rw [htext, List.splitOn_intercalate _ (by simpa [or_imp, forall_and] using h) (by simp)]

theorem filter_error (r : Report) : r.violations.filter (·.severity = .error) = r.errors :=
  List.filter_congr fun v _ => by cases h : v.severity <;> simp [Violation.isError, h]

theorem filter_warning (r : Report) : r.violations.filter (·.severity = .warning) = r.warnings :=
  List.filter_congr fun v _ => by cases h : v.severity <;> simp [Violation.isError, h]

/-- The lines at the top. None of them opens as an entry does. -/
theorem exists_top (colors : Bool) (r : Report) :
    ∃ top : List (List Char), (head colors r).toList = top.flatMap (· ++ ['\n']) ∧
      top.filter opensEntry = [] ∧
      ('\n' ∉ r.projectDir.toList → ∀ line ∈ top, '\n' ∉ line) := by
  refine ⟨(topLines colors r).map String.toList, ?_, ?_,
    fun hdir => List.forall_mem_map.2 (newline_not_mem_topLines hdir)⟩
  · rw [head_eq]
    simp [List.flatMap_map]
  · simpa using opensEntry_topLines colors r

theorem exists_errorLines (colors : Bool) (r : Report) :
    ∃ lines, IsListing colors r.projectDir " ERROR(s) — BLOCKING" r.errors lines ∧
      IsPart colors r.projectDir r.errors lines ∧
      (errorList colors r).toList = lines.flatMap (· ++ ['\n']) := by
  have herrors : ∀ v ∈ r.errors, v.severity = .error := fun v hv => by
    simpa [Violation.isError] using (List.mem_filter.1 hv).2
  obtain ⟨lines, hlisting, hpart, htext⟩ :=
    exists_isListing colors r.projectDir herrors (Style.strong .red) " ERROR(s) — BLOCKING"
      (by decide)
  exact ⟨lines, hlisting, hpart, htext⟩

/-- The lines for the warnings, which a filter may leave out. -/
theorem exists_warningLines (colors : Bool) (filter : SeverityFilter) (r : Report) :
    ∃ lines, IsListing colors r.projectDir " WARNING(s)"
        (if filter = .error then [] else r.warnings) lines ∧
      IsPart colors r.projectDir (if filter = .error then [] else r.warnings) lines ∧
      (if filter.shows .warning then warningList colors r else "").toList =
        lines.flatMap (· ++ ['\n']) := by
  have hshown : ∀ v ∈ if filter = .error then [] else r.warnings, v.severity = .warning := by
    intro v hv
    rw [← filter_warning] at hv
    split_ifs at hv
    · exact absurd hv List.not_mem_nil
    · simpa using (List.mem_filter.1 hv).2
  obtain ⟨lines, hlisting, hpart, htext⟩ :=
    exists_isListing colors r.projectDir hshown (Style.strong .yellow) " WARNING(s)" (by decide)
  refine ⟨lines, hlisting, hpart, ?_⟩
  rw [← htext]
  cases filter <;> rfl

/-- What is printed for readers lists what is in the report. -/
theorem listedForReaders (colors : Bool) (filter : SeverityFilter) (r : Report) :
    ListedForReaders colors filter (r.renderHuman colors filter) r := by
  rw [ListedForReaders, filter_error, filter_warning]
  obtain ⟨top, htop, hopens, hkeepsTop⟩ := exists_top colors r
  obtain ⟨errorLines, herrors, herrorPart, herrorText⟩ := exists_errorLines colors r
  obtain ⟨warningLines, hwarnings, hwarningPart, hwarningText⟩ :=
    exists_warningLines colors filter r
  obtain ⟨last, hlastText, hlast, hlastPart⟩ := exists_last colors r
  have htext : (r.renderHuman colors filter).toList =
      (top ++ errorLines ++ warningLines ++ [last]).flatMap (· ++ ['\n']) := by
    rw [renderHuman, String.toList_append, String.toList_append, String.toList_append, htop,
      herrorText, hwarningText, hlastText]
    simp
  have hparts := (herrorPart.append hwarningPart).append hlastPart
  refine ⟨top, errorLines, warningLines, last, _, rfl, htext, herrors, hwarnings, hlast, ?_,
    fun hdir hkeeps => ?_⟩
  · simpa [hopens] using hparts.entries
  · have hrest : ∀ line ∈ errorLines ++ warningLines ++ [last], '\n' ∉ line := by
      refine hparts.keeps fun v hv => hkeeps v ?_
      rw [List.append_nil] at hv
      rcases List.mem_append.1 hv with hv | hv
      · exact List.mem_of_mem_filter hv
      · split_ifs at hv
        · exact absurd hv List.not_mem_nil
        · exact List.mem_of_mem_filter hv
    rw [htext]
    refine splitOn_flatMap ?_
    rw [List.append_assoc, List.append_assoc, ← List.append_assoc errorLines]
    exact List.forall_mem_append.2 ⟨hkeepsTop hdir, hrest⟩

end QualityGate.Report
