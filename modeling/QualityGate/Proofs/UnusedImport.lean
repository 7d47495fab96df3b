import QualityGate.Proofs.Violation
import QualityGate.Semantic.UnusedImport

/-!
Which imported names count as used. A name uses an import of that name unless it only names a
property. The check knows two kinds of property names, those behind a point and the keys of pairs.
All others, of methods, fields, attributes and members of types, hide an import that nothing refers
to.
-/
namespace QualityGate.UnusedImport

open Syntax Node

variable (file : SourceFile)

def bindings : List ImportBinding := (Import.ofFile file).flatMap (·.bindings)

/-- The places in the statements of a file other than its imports. -/
def outside : List Place :=
  (file.root.parts.filter (·.kind != .importStatement)).flatMap (places [file.root])

/-- The last name of a qualified type, as in `a.T`. -/
def isQualified (p : Place) : Bool :=
  p.node.kind = .typeIdentifier && match p.parent?.map Node.children with
    | some [_, point, last] => file.textOf point = "." && last.start = p.node.start
    | _ => false

/-- Half of the name of an attribute, as in `a:b`. -/
def isAttributePart (p : Place) : Bool :=
  match p.above with
  | parent :: outer :: _ => parent.kind = .other && outer.kind = .jsxAttribute
  | _ => false

/-- A name that only names a property: what stands behind a point, a key, and the name of a method,
a field, an attribute or a member of a type. -/
def namesProperty (p : Place) : Bool :=
  p.node.kind = .propertyIdentifier || p.node.role = some .property || p.node.role = some .key
    || isQualified file p || isAttributePart p

/-- A name that can refer to a binding of the file. -/
def canRefer (p : Place) : Bool :=
  p.node.kind.isName && !namesProperty file p && !p.above.any (·.kind = .importStatement)

/-- Some name outside the imports is that of the binding, and refers to it as `refers` sees it. -/
def isUsed (refers : Place → Bool) (b : ImportBinding) : Bool :=
  (outside file).any fun p => refers p && file.textOf p.node == b.bound

def breach (b : ImportBinding) : Violation :=
  (Violation.warning .noUnusedImports ("Import \"" ++ b.bound ++ "\" is not used")).located b.place

/-- The breaches of the imports that are not used, as `refers` sees it. -/
def unused (refers : Place → Bool) : List Violation :=
  ((bindings file).filter fun b => !isUsed file refers b).map breach

variable {file}

theorem isReference_of_canRefer {p : Place} (h : canRefer file p = true) :
    SourceFile.isReference p = true := by
  simp only [canRefer, namesProperty, Bool.and_eq_true, Bool.not_eq_true', Bool.or_eq_false_iff,
    decide_eq_false_iff_not] at h
  obtain ⟨⟨hname, ⟨⟨⟨-, hproperty⟩, hkey⟩, -⟩, -⟩, -⟩ := h
  unfold SourceFile.isReference
  split <;> simp [hname, hproperty, hkey]

theorem isUsed_mono {refers coarser : Place → Bool} (h : ∀ p, refers p = true → coarser p = true)
    {b : ImportBinding} (hb : isUsed file refers b = true) : isUsed file coarser b = true := by
  simp only [isUsed, List.any_eq_true, Bool.and_eq_true] at hb ⊢
  obtain ⟨p, hp, hrefers, htext⟩ := hb
  exact ⟨p, hp, h p hrefers, htext⟩

theorem contains_referenced (b : ImportBinding) :
    (referenced file).contains b.bound = isUsed file SourceFile.isReference b := by
  rw [Bool.eq_iff_iff, List.contains_iff_mem]
  simp only [referenced, isUsed, outside, List.mem_map, List.mem_filter, List.any_eq_true,
    Bool.and_eq_true, beq_iff_eq, and_assoc]

/-- The check goes by the references as it sees them. -/
theorem check_eq_unused : check file = unused file SourceFile.isReference := by
  have hfilter :
      ((bindings file).filter fun b => !(referenced file).contains b.bound).map (breach) =
      unused file SourceFile.isReference := by
    simp only [contains_referenced, unused]
  rw [← hfilter, check, bindings]
  split
  · next hnone => rw [hnone]; rfl
  · rfl

variable (file)

/-- The check reports the imports whose names do not stand outside the imports, other than behind a
point or as the key of a pair. These are the ones that nothing refers to just if each import whose
name stands there as some other name of a property is referred to as well. -/
theorem check_unused_iff : check file = unused file SourceFile.isReference ∧
    (check file = unused file (canRefer file) ↔
      ∀ b ∈ bindings file, isUsed file SourceFile.isReference b = true →
        isUsed file (canRefer file) b = true) := by
  refine ⟨check_eq_unused, ?_⟩
  have hmono (b : ImportBinding) : isUsed file (canRefer file) b = true →
      isUsed file SourceFile.isReference b = true := isUsed_mono fun p => isReference_of_canRefer
  rw [check_eq_unused, eq_comm]
  unfold unused
  rw [map_filter_eq_iff]
  · refine forall₂_congr fun b _ => ?_
    rw [Bool.not_eq_true', Bool.not_eq_true', ← Bool.not_eq_true, ← Bool.not_eq_true]
    exact not_imp_not
  · intro b hb
    have hb := mt (hmono b)
    simp_all

/-- Texts in which the imported name `a` only names a property. -/
def hidingNames : List (String × String) :=
  [("a.ts", "import \x7b a \x7d from 'm'; class C \x7b a = 1 \x7d"),
   ("a.ts", "import \x7b a \x7d from 'm'; class C \x7b a() \x7b\x7d \x7d"),
   ("a.ts", "import \x7b a \x7d from 'm'; f(\x7b a() \x7b\x7d \x7d)"),
   ("a.ts", "import \x7b a \x7d from 'm'; interface I \x7b a: 1 \x7d"),
   ("a.ts", "import \x7b a \x7d from 'm'; type T = \x7b a(): 1 \x7d"),
   ("a.tsx", "import \x7b a \x7d from 'm'; f(<b a />)")]

theorem check_hidingNames :
    hidingNames.Forall fun t => ∃ file, SourceFile.parse ⟨t.1⟩ t.2 = .ok file ∧
    check file = [] ∧ (unused file (canRefer file)).map (·.message) =
      ["Import \"a\" is not used"] := by
  have hrun : ∀ t ∈ hidingNames, (SourceFile.parse ⟨t.1⟩ t.2).toOption.any (fun file =>
      check file = [] ∧ (unused file (canRefer file)).map (·.message) =
        ["Import \"a\" is not used"]) = true := by
    decide +kernel
  apply List.forall_iff_forall_mem.2
  intro t ht
  obtain ⟨file, hfile, h⟩ := exists_ok_of_any (hrun t ht)
  exact ⟨file, hfile, of_decide_eq_true h⟩

end QualityGate.UnusedImport
