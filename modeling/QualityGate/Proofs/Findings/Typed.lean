import QualityGate.Semantic.Check
import QualityGate.Proofs.Violation
import QualityGate.Proofs.Walks
import QualityGate.Proofs.PropDrilling.Levels

/-!
What the checks on typed files find: each one breaches of its own rule, at places of the file.
-/
namespace QualityGate

open Syntax Violation

variable {file : SourceFile}

namespace AnyType

theorem findings_explicit : Findings (· = .noAnyType) (explicit file) := .map fun _ _ => found_at

theorem counted_ofParameter (p : Node) : ∀ d ∈ ofParameter file p, d.place.Counted := by
  unfold ofParameter
  split
  · exact List.forall_mem_nil _
  · split
    · exact List.forall_mem_nil _
    · split
      · exact List.forall_mem_singleton.2 (file.counted_location _)
      · exact List.forall_mem_map.2 fun _ _ => file.counted_location _
      · exact List.forall_mem_map.2 fun _ _ => file.counted_location _
      · exact List.forall_mem_singleton.2 (file.counted_location _)
      · exact List.forall_mem_nil _

theorem counted_ofFunction (p : Node.Place) : ∀ d ∈ ofFunction file p, d.place.Counted := by
  unfold ofFunction
  split
  · exact List.forall_mem_nil _
  · split
    · split
      · exact List.forall_mem_singleton.2 (file.counted_location _)
      · exact List.forall_mem_nil _
    · exact List.forall_mem_flatMap.2 fun q _ => counted_ofParameter q
    · exact List.forall_mem_nil _

theorem counted_ofNew (functions : List String) (n : Node) :
    ∀ d ∈ ofNew file functions n, d.place.Counted := by
  unfold ofNew
  split
  · split
    · exact List.forall_mem_singleton.2 (file.counted_location n)
    · exact List.forall_mem_nil _
  · exact List.forall_mem_nil _

theorem counted_ofExport (n : Node) : ∀ d ∈ ofExport file n, d.place.Counted := by
  unfold ofExport
  split
  · split
    · exact List.forall_mem_map.2 fun _ _ => file.counted_location _
    · exact List.forall_mem_nil _
  · exact List.forall_mem_nil _

theorem counted_ofField (n : Node) : ∀ d ∈ ofField file n, d.place.Counted := by
  unfold ofField
  split
  · exact List.forall_mem_map.2 fun _ _ => file.counted_location _
  · exact List.forall_mem_nil _

theorem counted_diagnostics : ∀ d ∈ diagnostics file, d.place.Counted := by
  refine List.forall_mem_flatMap.2 fun p _ => ?_
  unfold ofPlace
  split
  · exact counted_ofFunction p
  · split
    · exact counted_ofNew _ p.node
    · exact counted_ofExport p.node
    · exact counted_ofField p.node
    · exact List.forall_mem_nil _

theorem findings_implicit (tables : Tables) :
    Findings (· = .noImplicitAny) (implicit file tables) :=
  .map fun d hd => found_breach.located (counted_diagnostics d (List.mem_of_mem_filter hd))

end AnyType

namespace Import

theorem counted_ofSpecifier? {n : Node} {b : ImportBinding} (h : ofSpecifier? file n = some b) :
    b.place.Counted := by
  unfold ofSpecifier? at h
  split_ifs at h
  obtain ⟨name, -, rfl⟩ := Option.map_eq_some_iff.1 h
  exact file.counted_location _

theorem counted_ofClausePart (n : Node) : ∀ b ∈ ofClausePart file n, b.place.Counted := by
  unfold ofClausePart
  split
  · exact List.forall_mem_singleton.2 (file.counted_location n)
  · intro b hb
    obtain ⟨name, -, rfl⟩ := Option.map_eq_some_iff.1 (Option.mem_toList.1 hb)
    exact file.counted_location name
  · intro b hb
    obtain ⟨spec, -, hs⟩ := List.mem_filterMap.1 hb
    exact counted_ofSpecifier? hs
  · exact List.forall_mem_nil _

theorem counted_bindings {i : Import} (h : i ∈ ofFile file) :
    ∀ b ∈ i.bindings, b.place.Counted := by
  obtain ⟨n, -, hn⟩ := List.mem_filterMap.1 h
  obtain ⟨source, -, hs⟩ := Option.bind_eq_some_iff.1 hn
  obtain rfl := Option.some.inj hs
  exact List.forall_mem_flatMap.2 fun part _ => counted_ofClausePart part

end Import

theorem UnusedImport.findings_check : Findings (· = .noUnusedImports) (check file) := by
  unfold check
  split
  · exact .nil
  · refine .map fun b hb => found_breach.located ?_
    obtain ⟨i, hi, hb⟩ := List.mem_flatMap.1 (List.mem_of_mem_filter hb)
    exact Import.counted_bindings hi b hb

namespace DefaultExport

theorem findings_ofValue {n : Node} : Findings (· = .noDefaultExportAnon) (ofValue file n) := by
  unfold ofValue
  split
  · exact .map fun _ _ => found_at
  · exact .nil

theorem findings_check : Findings (· = .noDefaultExportAnon) (check file) :=
  .flatMap fun _ _ => findings_ofValue.append (.ite .nil (.map fun _ _ => found_at))

end DefaultExport

namespace Nesting

theorem findings_check (settings : Settings) :
    Findings (· = .noDeepNesting) (check settings file) := by
  rw [check_eq]
  exact .map fun _ _ => found_at

end Nesting

namespace PropDrilling

theorem findings_check (settings : Settings) :
    Findings (· = .noPropDrilling) (check settings file) := by
  rw [check_eq]
  refine .map fun e he => found_breach.located ?_
  obtain ⟨body, -, htag⟩ := List.mem_flatMap.1 (mem_worst he).1
  obtain ⟨_, _, tag, _, rfl⟩ := mem_tagsAt.1 htag
  exact file.counted_location tag

end PropDrilling

namespace TypeShape

theorem findings_repeats (seen : Seen) (ns : List Node) :
    Findings (· = .noDuplicatedTypes) (repeats file seen ns) := by
  induction ns generalizing seen with
  | nil => exact .nil
  | cons n ns ih =>
    rw [repeats]
    split
    · exact ih seen
    · simp only
      split
      · exact (Findings.singleton found_at).append (ih seen)
      · exact ih _

theorem findings_check : Findings (· = .noDuplicatedTypes) (check file) := findings_repeats _ _

end TypeShape

namespace Program

variable (program : Program)

theorem findings_strictness : Findings (· = .strictModeCheck) program.strictness :=
  .append (.map fun _ _ => found_breach.inFile _) (.ite (.singleton found_breach) .nil)

theorem findings_cycleBreach (file : SourceFile) :
    Findings (· = .noCircularImports) (program.cycleBreach file) :=
  .map fun _ _ => found_breach

end Program

namespace Semantic

variable (settings : Settings) (tables : Tables) (program : Program)

def ofFile (file : SourceFile) : List Violation :=
  AnyType.explicit file ++ implicitAny tables program file ++ UnusedImport.check file
    ++ DefaultExport.check file ++ Nesting.check settings file ++
      PropDrilling.check settings file ++ TypeShape.check file

theorem checkFile_eq (file : SourceFile) : checkFile settings tables program file =
    (ofFile settings tables program file ++ program.cycleBreach file).map (·.inFile file.path) :=
  rfl

theorem findings_implicitAny (file : SourceFile) :
    Findings (· = .noImplicitAny) (implicitAny tables program file) :=
  .ite (AnyType.findings_implicit tables) .nil

theorem findings_ofFile (file : SourceFile) :
    Findings (fun r => r.analyzer = "semantic" ∧ r ≠ .strictModeCheck ∧ r ≠ .noCircularImports)
      (ofFile settings tables program file) := by
  refine .append (.append (.append (.append (.append (.append ?_ ?_) ?_) ?_) ?_) ?_) ?_
  · exact AnyType.findings_explicit.among (by decide)
  · exact (findings_implicitAny tables program file).among (by decide)
  · exact UnusedImport.findings_check.among (by decide)
  · exact DefaultExport.findings_check.among (by decide)
  · exact (Nesting.findings_check settings).among (by decide)
  · exact (PropDrilling.findings_check settings).among (by decide)
  · exact TypeShape.findings_check.among (by decide)

theorem findings_check : Findings (·.analyzer = "semantic") (check settings tables program) := by
  refine .append (program.findings_strictness.among rfl) (.flatMap fun file _ => ?_)
  rw [checkFile_eq]
  refine .inFile (.append ?_ ?_) _
  · exact (findings_ofFile settings tables program file).mono fun r hr => hr.1
  · exact (program.findings_cycleBreach file).among rfl

/-- Of all checks on typed files only the one on configurations finds lax ones. -/
theorem ofRule_strictModeCheck_check :
    ofRule .strictModeCheck (check settings tables program) = program.strictness := by
  have hfiles : Findings (· ≠ .strictModeCheck)
      (program.files.flatMap (checkFile settings tables program)) := by
    refine .flatMap fun file _ => ?_
    rw [checkFile_eq]
    refine .inFile (.append ?_ ?_) _
    · exact (findings_ofFile settings tables program file).mono fun r hr => hr.2.1
    · exact (program.findings_cycleBreach file).among (by decide)
  rw [check, ofRule_append, ofRule_eq_self program.findings_strictness,
    ofRule_eq_nil hfiles (by simp), List.append_nil]

/-- Of all checks on typed files only the search for cycles finds files on cycles. -/
theorem ofRule_noCircularImports_check : ofRule .noCircularImports (check settings tables program) =
    program.files.flatMap fun file => (program.cycleBreach file).map (·.inFile file.path) := by
  have hstrict := ofRule_eq_nil (r := .noCircularImports) program.findings_strictness (by decide)
  have hfile (file : SourceFile) :
      ofRule .noCircularImports (ofFile settings tables program file) = [] :=
    ofRule_eq_nil (findings_ofFile settings tables program file) (by simp)
  rw [check, ofRule_append, hstrict, List.nil_append, ofRule, List.filter_flatMap]
  congr 1
  funext file
  rw [checkFile_eq, ← ofRule, ofRule_map_inFile, ofRule_append, hfile, List.nil_append,
    ofRule_eq_self (program.findings_cycleBreach file)]

end Semantic
end QualityGate
