import QualityGate.Proofs.Findings.Project

/-!
The files that violations name. A check on single files names the file that it was given, a check on
the project as a whole names no file and no place, and only the check on imports names files that it
has not read.
-/
namespace QualityGate

open Syntax

namespace Violation

/-- A violation names one of the files, or neither a file nor a place in it. -/
def Filed (files : Path → Prop) (v : Violation) : Prop :=
  v.file = none ∧ v.line = none ∨ ∃ p, files p ∧ v.file = some p.text

def AllFiled (files : Path → Prop) (vs : List Violation) : Prop := ∀ v ∈ vs, v.Filed files

variable {files more : Path → Prop} {v : Violation} {vs ws : List Violation} {p : Path}

theorem Filed.mono (h : v.Filed files) (hm : ∀ p, files p → more p) : v.Filed more :=
  h.imp_right fun ⟨p, hp, he⟩ => ⟨p, hm p hp, he⟩

theorem filed_inFile (h : files p) : (v.inFile p).Filed files := .inr ⟨p, h, rfl⟩

theorem filed_breach {r : Rule} {message : String} : (r.breach message).Filed files :=
  .inl ⟨rfl, rfl⟩

theorem Filed.file_isSome (h : v.Filed files) (hv : v.line.isSome = true) :
    v.file.isSome = true := by
  rcases h with ⟨-, hl⟩ | ⟨p, -, hp⟩
  · simp [hl] at hv
  · simp [hp]

namespace AllFiled

theorem nil : AllFiled files [] := List.forall_mem_nil _

theorem append (h : AllFiled files vs) (k : AllFiled files ws) : AllFiled files (vs ++ ws) :=
  List.forall_mem_append.2 ⟨h, k⟩

theorem ite {c : Prop} [Decidable c] (h : AllFiled files vs) (k : AllFiled files ws) :
    AllFiled files (if c then vs else ws) := by
  split
  · exact h
  · exact k

theorem mono (h : AllFiled files vs) (hm : ∀ p, files p → more p) : AllFiled more vs :=
  fun v hv => (h v hv).mono hm

theorem singleton (h : v.Filed files) : AllFiled files [v] := List.forall_mem_singleton.2 h

theorem map {α : Type*} {l : List α} {f : α → Violation} (h : ∀ a ∈ l, (f a).Filed files) :
    AllFiled files (l.map f) :=
  List.forall_mem_map.2 h

theorem flatMap {α : Type*} {l : List α} {f : α → List Violation}
    (h : ∀ a ∈ l, AllFiled files (f a)) : AllFiled files (l.flatMap f) := fun v hv => by
  obtain ⟨a, ha, hv⟩ := List.mem_flatMap.1 hv
  exact h a ha v hv

/-- What is found in a file is put down to this file, wherever it lies in it. -/
theorem inFile (vs : List Violation) (p : Path) : AllFiled (· = p) (vs.map (·.inFile p)) :=
  .map fun _ _ => filed_inFile rfl

end AllFiled
end Violation

open Violation

section

variable (settings : Settings) (tables : Tables) (file : SourceFile)

theorem NodeRule.filed_run (checks : List NodeRule) :
    AllFiled (· = file.path) (run checks ⟨file, settings, tables⟩) := by
  rw [run_eq]
  exact .inFile _ _

theorem UtilityClass.filed_checkFile :
    AllFiled (· = file.path) (checkFile settings tables file).1 := by
  simp only [checkFile]
  exact .inFile _ _

theorem FileAnalysis.filed_violations :
    AllFiled (· = file.path) (FileAnalysis.of settings tables file).violations :=
  .append (.append (NodeRule.filed_run settings tables file _)
    (UtilityClass.filed_checkFile settings tables file)) (NodeRule.filed_run settings tables file _)

theorem Semantic.filed_checkFile (program : Program) :
    AllFiled (· = file.path) (checkFile settings tables program file) :=
  .inFile _ _

end

theorem DesignToken.filed_unused {named : Path → Prop} (settings : Settings)
    (files : List SourceFile) :
    AllFiled named (unused settings files) := by
  unfold unused
  split
  · exact .nil
  · exact .map fun _ _ => filed_breach

theorem Program.filed_strictness (program : Program) :
    AllFiled (∃ c ∈ program.configs, c.path = ·) program.strictness := by
  refine .append (.map fun c hc => ?_) (.ite (.singleton filed_breach) .nil)
  exact filed_inFile ⟨c, List.mem_of_mem_filter hc, rfl⟩

theorem Semantic.filed_check (settings : Settings) (tables : Tables) (program : Program) :
    AllFiled (fun p => (∃ c ∈ program.configs, c.path = p) ∨ ∃ file ∈ program.files, file.path = p)
      (check settings tables program) := by
  refine .append (program.filed_strictness.mono fun p hp => .inl hp) (.flatMap fun file hf => ?_)
  exact (filed_checkFile settings tables file program).mono fun p hp => .inr ⟨file, hf, hp.symm⟩

namespace Graph

variable {named : Path → Prop}

theorem filed_cycleBreaches (root : Path) (g : Graph) : AllFiled named (cycleBreaches root g) :=
  .map fun _ _ => filed_breach

theorem filed_chainBreach (limit depth : Nat) : AllFiled named (chainBreach limit depth) :=
  .ite (.singleton filed_breach) .nil

variable (disk : Disk) (settings : Settings) (files : List SourceFile)

theorem filed_unusedPrimitives (s : Primitive.Surroundings) :
    AllFiled named (unusedPrimitives disk settings s files) :=
  .ite (.singleton filed_breach) .nil

theorem filed_overwritten (s : Primitive.Surroundings) :
    AllFiled (∃ file ∈ files, file.path = ·) (files.filterMap (Primitive.overwritten? s)) := by
  intro v hv
  obtain ⟨file, hf, hv⟩ := List.mem_filterMap.1 hv
  unfold Primitive.overwritten? at hv
  split at hv
  · simp at hv
  · obtain rfl := Option.some.inj hv
    exact filed_inFile ⟨file, hf, rfl⟩

/-- Of the checks on imports only the one for much imported modules names files that were not
read. -/
theorem filed_check (resolver : Resolver) (root : Path) :
    ∀ v ∈ (check disk settings resolver root files).1,
      v.rule = Rule.duplicateImport.id ∧ v.Filed (fun _ => True) ∨
        v.Filed (∃ file ∈ files, file.path = ·) := by
  intro v hv
  rw [check_eq] at hv
  simp only [otherBreaches, List.mem_append, or_assoc] at hv
  rcases hv with hv | hv | hv | hv | hv
  · exact .inr (filed_cycleBreaches root _ v hv)
  · exact .inr (filed_chainBreach _ _ v hv)
  · exact .inr (filed_unusedPrimitives disk settings files _ v hv)
  · refine .inr ((filed_overwritten _ _ v hv).mono ?_)
    rintro p ⟨file, hf, rfl⟩
    exact ⟨file, List.mem_of_mem_filter hf, rfl⟩
  · obtain ⟨e, -, rfl⟩ := List.mem_map.1 hv
    exact .inl ⟨rfl, filed_inFile trivial⟩

end Graph

namespace Gate

variable (settings : Settings) (tables : Tables) (disk : Disk) (root : Path)

def failure? (p : Path) : Option Violation :=
  match SourceFile.load disk p with
  | .ok _ => none
  | .error failure => some (failure.breach p)

theorem broken_eq : (Sources.load settings disk root).broken =
    (Discovery.sources settings disk root).filterMap (failure? disk) := by
  simp only [Sources.load, List.filterMap_map]
  rfl

theorem file_of_failure? {disk : Disk} {p : Path} {v : Violation} (h : failure? disk p = some v) :
    v.file = some p.text := by
  unfold failure? at h
  split at h
  · simp at h
  · next failure _ =>
    obtain rfl := Option.some.inj h
    unfold ParseFailure.breach
    split <;> rfl

/-- A file that a check has read: a parsed source or a configuration. -/
def IsRead (p : Path) : Prop :=
  (∃ file ∈ (Sources.load settings disk root).files, file.path = p) ∨
    ∃ c ∈ (typedProgram settings disk root).configs, c.path = p

theorem filed_components : AllFiled (IsRead settings disk root)
    (((Sources.load settings disk root).components.map (FileAnalysis.of settings tables)).flatMap
      FileAnalysis.violations) := by
  rw [List.flatMap_map]
  refine .flatMap fun file hf => (FileAnalysis.filed_violations settings tables file).mono ?_
  rintro p rfl
  exact .inl ⟨file, List.mem_of_mem_filter hf, rfl⟩

theorem filed_typedViolations : AllFiled (IsRead settings disk root)
    (typedViolations settings tables disk root (Sources.load settings disk root)) := by
  refine .ite .nil ((Semantic.filed_check settings tables _).mono ?_)
  rintro p (hconfig | ⟨file, hf, rfl⟩)
  · exact .inr hconfig
  · exact .inl ⟨file, List.mem_of_mem_filter hf, rfl⟩

/-- Sources that cannot be parsed are named by the breaches that say so, and files that were not
read by the check on imports alone. -/
theorem filed_found : ∀ v ∈ found settings tables disk root,
    v.rule = Rule.parseError.id ∧ v.Filed (fun _ => True) ∨
      v.rule = Rule.duplicateImport.id ∧ v.Filed (fun _ => True) ∨
        v.Filed (IsRead settings disk root) := by
  intro v hv
  simp only [found, List.mem_append, or_assoc] at hv
  rcases hv with hv | hv | hv | hv | hv
  · obtain ⟨r, rfl, hr, -⟩ := (findings_broken settings disk root v hv).rule
    rw [broken_eq] at hv
    obtain ⟨p, -, hp⟩ := List.mem_filterMap.1 hv
    exact .inl ⟨hr, .inr ⟨p, trivial, file_of_failure? hp⟩⟩
  · exact .inr (.inr (filed_components settings tables disk root v hv))
  · exact .inr (.inr (filed_typedViolations settings tables disk root v hv))
  · exact .inr (.inr (DesignToken.filed_unused settings _ v hv))
  · rcases Graph.filed_check disk settings _ _ root v hv with h | h
    · exact .inr (.inl h)
    · exact .inr (.inr (h.mono fun p hp => .inl hp))

end Gate
end QualityGate
