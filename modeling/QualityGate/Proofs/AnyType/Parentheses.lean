import QualityGate.Proofs.AnyType.Copies
import QualityGate.Proofs.AnyType.Order

/-!
Diagnostics of a file with parentheses around one of its functions or object literals. They have the
codes and, but for one thing, the messages that they had: where the expression stands inside what a
message quotes, the quotation shows the parentheses.
-/
namespace QualityGate.AnyType

open Syntax Node List

variable {file : SourceFile} {e : Operand file} {k : ℕ} {n : Node} {above above' : List Node}

theorem isEnclosed_of_isOperand (h : n.kind.isOperand = true) : isEnclosed n.kind = true := by
  simp [isEnclosed, h]

theorem alike_shift (k : ℕ) (hn : Inside e.node.start e.node.stop n) :
    Alike (shift k) (Inside e.node.start e.node.stop) n (shift k n) where
  kind := by rw [shift_eq]
  children := by rw [shift_eq]
  covered _ hc := hn.child hc

/-- What is inside the expression is copied further on. -/
theorem copies_shift (e : Operand file) (k : ℕ) : Copies file (file.parenthesize e k) (shift k)
    (Inside e.node.start e.node.stop) fun _ => False where
  role n := by rw [shift_eq]
  named n := by rw [shift_eq]
  node n hn := .inl (alike_shift k hn)
  text n hn _ := e.textOf_shift k hn
  name _ _ _ := id
  declared _ _ _ _ _ := id

/-- Nodes below the root that are around the expression or apart from it. -/
structure IsOutside (e : Operand file) (n : Node) : Prop where
  mem : n ∈ file.root.preorder
  inside : Inside 0 file.text.size n
  clear : Clear e.node n

theorem IsOutside.child (h : IsOutside e n) (hne : n ≠ e.node) :
    ∀ c ∈ n.children, IsOutside e c := fun c hc =>
  ⟨child_mem_preorder h.mem hc, h.inside.child hc, clear_children h.inside h.clear hne c hc⟩

theorem isOutside_of_mem_root (e : Operand file) : ∀ c ∈ file.root.children, IsOutside e c := by
  intro c hc
  have hbelow := (mem_preorder_iff.1 e.mem).resolve_left e.ne_root
  exact ⟨child_mem_preorder (self_mem_preorder _) hc, inside_of_orderedAll file.isOrdered c hc,
    clear_of_orderedAll file.isOrdered (.inr (.inr hbelow)) c hc⟩

theorem alike_parenthesize (hne : n ≠ e.node) (hn : ∀ c ∈ n.children, IsOutside e c) :
    Alike (parenthesize e.node k) (IsOutside e) n (parenthesize e.node k n) where
  kind := by rw [parenthesize_of_ne hne]
  children := by rw [parenthesize_of_ne hne]
  covered := hn

theorem isEnclosed_inParentheses (h : n.kind.isOperand = true) (offset : ℕ) (role : Option Role) :
    isEnclosed (inParentheses n k offset role).kind = true := by
  cases k with
  | zero => exact isEnclosed_of_isOperand (by rwa [inParentheses, shift_eq])
  | succ k => rfl

/-- What is outside of the expression is copied with the parentheses that it shows. -/
theorem copies_parenthesize (e : Operand file) (k : ℕ) : Copies file (file.parenthesize e k)
    (parenthesize e.node k) (IsOutside e) (e.node ∈ ·.preorder) where
  role := e.role_parenthesize k
  named := e.named_parenthesize k
  node n hn := by
    by_cases hne : n = e.node
    · refine .inr ⟨?_, ?_, ?_⟩
      · exact isEnclosed_of_isOperand (hne ▸ e.isOperand)
      · rw [hne, parenthesize_self]
        exact isEnclosed_inParentheses e.isOperand 0 e.node.role
      · exact hne ▸ e.notParameters
    · exact .inl (alike_parenthesize hne (hn.child hne))
  text n hn := e.textOf_parenthesize k hn.inside.start_lt hn.clear
  name n hn := e.notInName n hn.mem
  declared n hn := e.notInDeclared n hn.mem

theorem agree_of_isOperand {n' : Node} (hn : n.kind.isOperand = true) (hkind : n'.kind = n.kind)
    (h : isTypedBy above' = isTypedBy above) : Agree (n :: above) (n' :: above') where
  isTypedBy := by
    rw [isTypedBy_cons, isTypedBy_cons, hkind]
    cases hn' : n.kind <;> simp_all [Kind.isOperand]
  inTypedObject := by rw [inTypedObject, inTypedObject, hkind, h]

theorem isContextual_of_isOperand (hn : n.kind.isOperand = true) :
    isContextual ⟨n, above⟩ = isTypedBy above := by
  rw [isContextual_eq]
  cases hn' : n.kind <;> simp_all [Kind.isOperand]

section
variable {α : Type} {find : SourceFile → Place → List α}

/-- Whether nothing is found at parentheses, other tokens and whole programs. -/
def IsQuiet (find : SourceFile → Place → List α) : Prop :=
  ∀ file n above, n.kind ∈ [.parenthesizedExpression, .other, .program] → find file ⟨n, above⟩ = []

/-- In parentheses just the operand is found, moved but with the type that it had. -/
theorem exists_operand (hquiet : IsQuiet find) (file' : SourceFile) (e : Node) (k offset : ℕ)
    (role : Option Role) (above : List Node) :
    ∃ n' above', n'.kind = e.kind ∧ n'.children = e.children.map (shift (offset + k)) ∧
      isTypedBy above' = isTypedBy above ∧
      (places above (inParentheses e k offset role)).flatMap (find file') =
        (places above' n').flatMap (find file') := by
  induction k generalizing offset role above with
  | zero =>
    refine ⟨_, above, ?_, ?_, rfl, rfl⟩
    · rw [inParentheses, shift_eq]
    · rw [inParentheses, shift_eq, Nat.add_zero]
  | succ k ih =>
    obtain ⟨n', above', hkind, hchildren, htyped, hfound⟩ :=
      ih (offset + 1) none (inParentheses e (k + 1) offset role :: above)
    refine ⟨n', above', hkind, by rw [hchildren, Nat.add_right_comm, Nat.add_assoc], ?_, ?_⟩
    · rw [htyped, isTypedBy_cons]
      rfl
    · have hleaf (start stop : ℕ) (above : List Node) :
          (places above (leaf .other false start stop)).flatMap (find file') = [] := by
        rw [places_eq, List.flatMap_cons, hquiet _ _ _ (by simp [leaf])]
        rfl
      have hpair :=
        hquiet file' (inParentheses e (k + 1) offset role) above (by simp [inParentheses])
      rw [← hfound, places_eq, List.flatMap_cons, hpair, List.nil_append]
      simp only [inParentheses, placesAll, List.flatMap_append, hleaf, List.nil_append,
        List.append_nil]

variable {R : α → α → Prop}

/-- Whether what is found at a place corresponds to what is found at its copy, if functions have
their types from there alike. -/
def FindsAlike (find : SourceFile → Place → List α) (R : α → α → Prop) (file file' : SourceFile)
    (copy : Node → Node) (covers : Node → Prop) : Prop :=
  ∀ n n' above above', covers n → Alike copy covers n n' →
    isContextual ⟨n', above'⟩ = isContextual ⟨n, above⟩ →
    Forall₂ R (find file ⟨n, above⟩) (find file' ⟨n', above'⟩)

theorem FindsAlike.step {file' : SourceFile} {copy : Node → Node} {covers shows : Node → Prop}
    (h : FindsAlike find R file file' copy covers) (hcopies : Copies file file' copy covers shows)
    (hn : covers n) (halike : Alike copy covers n (copy n)) (hagree : Agree above above') :
    Alike copy covers n (copy n) ∧ Agree (n :: above) (copy n :: above') ∧
      Forall₂ R (find file ⟨n, above⟩) (find file' ⟨copy n, above'⟩) :=
  ⟨halike, hagree.cons halike.kind (hcopies.has halike _),
    h n _ above above' hn halike (hagree.isContextual halike.kind)⟩

/-- What is found of the expression corresponds to what is found of it in parentheses. -/
theorem forall₂_operand (hquiet : IsQuiet find)
    (hinside : FindsAlike find R file (file.parenthesize e k) (shift k)
      (Inside e.node.start e.node.stop))
    (hagree : Agree above above') : Forall₂ R ((places above e.node).flatMap (find file))
      ((places above' (parenthesize e.node k e.node)).flatMap (find (file.parenthesize e k))) := by
  obtain ⟨n', above'', hkind, hchildren, htyped, hfound⟩ :=
    exists_operand hquiet (file.parenthesize e k) e.node k 0 e.node.role above'
  rw [Nat.zero_add] at hchildren
  have htyped := htyped.trans hagree.isTypedBy
  have hcontext : isContextual ⟨n', above''⟩ = isContextual ⟨e.node, above⟩ := by
    rw [isContextual_of_isOperand (hkind ▸ e.isOperand),
      isContextual_of_isOperand e.isOperand, htyped]
  have hcovered (c : Node) (hc : c ∈ e.node.children) := e.inside.own.child hc
  have hfollows : Follows (shift k) (Inside e.node.start e.node.stop) Agree R (find file)
      (find (file.parenthesize e k)) := fun _ _ _ hn hagree =>
    .inr (hinside.step (copies_shift e k) hn (alike_shift k hn) hagree)
  rw [parenthesize_self, hfound, places_eq, places_eq above'', hchildren, List.flatMap_cons,
    List.flatMap_cons]
  exact rel_append (hinside _ _ _ _ e.inside.own ⟨hkind, hchildren, hcovered⟩ hcontext)
    (hfollows.placesAll _ _ _ hcovered (agree_of_isOperand e.isOperand hkind htyped))

/-- What is found in a file corresponds to what is found once there are parentheses, if it does at
single nodes. Outside of the expression the copies are followed down to it, inside it they are
further on. -/
theorem forall₂_parenthesize (hquiet : IsQuiet find)
    (hinside : FindsAlike find R file (file.parenthesize e k) (shift k)
      (Inside e.node.start e.node.stop))
    (houtside : FindsAlike find R file (file.parenthesize e k) (parenthesize e.node k)
      (IsOutside e)) :
    Forall₂ R ((places [] file.root).flatMap (find file))
      ((places [] (file.parenthesize e k).root).flatMap (find (file.parenthesize e k))) := by
  have hcopies := copies_parenthesize e k
  have hfollows : Follows (parenthesize e.node k) (IsOutside e) Agree R (find file)
      (find (file.parenthesize e k)) := fun n _ _ hn hagree => by
    by_cases hne : n = e.node
    · exact .inl (hne ▸ forall₂_operand hquiet hinside hagree)
    · exact .inr (houtside.step hcopies hn (alike_parenthesize hne (hn.child hne)) hagree)
  have hroot := alike_parenthesize (k := k) e.ne_root.symm (isOutside_of_mem_root e)
  have hfile : (file.parenthesize e k).root = parenthesize e.node k file.root := rfl
  rw [hfile, places_eq, places_eq [] (parenthesize e.node k file.root), List.flatMap_cons,
    List.flatMap_cons, hquiet _ _ _ (by simp [file.isProgram]),
    hquiet _ _ _ (by simp [hroot.kind, file.isProgram]), hroot.children]
  exact hfollows.placesAll _ _ _ hroot.covered
    (Agree.cons ⟨rfl, rfl⟩ hroot.kind (hcopies.has hroot _))

end

theorem isQuiet_declaredName : IsQuiet declaredName := by
  intro file n above hn
  simp only [List.mem_cons, List.not_mem_nil, or_false] at hn
  rcases hn with hn | hn | hn <;> simp [declaredName, hn]

theorem isQuiet_ofPlace (functions : List String) : IsQuiet fun file => ofPlace file functions := by
  intro file n above hn
  simp only [List.mem_cons, List.not_mem_nil, or_false] at hn
  rcases hn with hn | hn | hn <;> simp [ofPlace, hn, Kind.isFunctionLike]

theorem declaredFunctions_parenthesize (e : Operand file) (k : ℕ) :
    declaredFunctions (file.parenthesize e k) = declaredFunctions file := by
  rw [declaredFunctions_eq, declaredFunctions_eq, eq_comm, ← forall₂_eq_eq_eq]
  refine forall₂_parenthesize isQuiet_declaredName ?inside ?outside
  case inside =>
    intro n n' above above' hn halike _
    rw [declaredName_eq (copies_shift e k) halike hn, forall₂_eq_eq_eq]
  case outside =>
    intro n n' above above' hn halike _
    rw [declaredName_eq (copies_parenthesize e k) halike hn, forall₂_eq_eq_eq]

/-- Two diagnostics have one message, but for the parentheses that the latter shows if it quotes a
name around the expression. -/
def SameButQuoted (file : SourceFile) (e : Operand file) (k : ℕ) (d d' : Diagnostic) : Prop :=
  d'.cause = d.cause ∨ ∃ cause ∈ [Cause.exported, Cause.member, Cause.rest],
    ∃ name ∈ file.root.preorder, e.node ∈ name.preorder ∧ d.cause = cause (file.textOf name) ∧
      d'.cause = cause
        (String.ofList (parenthesizedText file.text e.node k name.start name.stop).toList)

theorem SameButQuoted.code_eq {d d' : Diagnostic} (h : SameButQuoted file e k d d') :
    d'.cause.code = d.cause.code := by
  rcases h with h | ⟨cause, hcause, name, -, -, h, h'⟩
  · rw [h]
  · simp only [List.mem_cons, List.not_mem_nil, or_false] at hcause
    rw [h, h']
    rcases hcause with rfl | rfl | rfl <;> rfl

theorem sameButQuoted_diagnostics (e : Operand file) (k : ℕ) :
    Forall₂ (SameButQuoted file e k) (diagnostics file) (diagnostics (file.parenthesize e k)) := by
  unfold diagnostics
  rw [declaredFunctions_parenthesize]
  refine forall₂_parenthesize (isQuiet_ofPlace _) ?inside ?outside
  case inside =>
    intro n n' above above' hn halike hcontext
    refine (retold_ofPlace (copies_shift e k) halike hcontext _).imp fun d d' h => ?_
    exact .inl (h.resolve_right fun ⟨_, _, _, _, hshows, _⟩ => hshows)
  case outside =>
    intro n n' above above' hn halike hcontext
    refine (retold_ofPlace (copies_parenthesize e k) halike hcontext _).imp fun d d' h => ?_
    refine h.imp_right ?_
    rintro ⟨cause, hcause, name, hname, hmem, h, h'⟩
    rw [e.textOf_parenthesize_of_mem k hname.inside hmem] at h'
    exact ⟨cause, hcause, name, hname.mem, hmem, h, h'⟩

/-- Parentheses around a function or an object literal change no code of a diagnostic, and no
message but where it quotes the expression with what is around it. And the parameters of a function
with a body are diagnosed for what they leave open, unless the function has a type from what it
stands in. -/
theorem diagnostics_parenthesize (file : SourceFile) :
    (∀ (e : Operand file) (k : ℕ),
      Forall₂ (SameButQuoted file e k) (diagnostics file) (diagnostics (file.parenthesize e k)) ∧
        (diagnostics (file.parenthesize e k)).map (·.cause.code) =
          (diagnostics file).map (·.cause.code)) ∧
      ∀ f ∈ places [] file.root, f.node.kind.isFunctionLike = true → f.node.has .body = true →
        found file f = if HasType f then [] else untyped file f.node := by
  refine ⟨fun e k => ⟨sameButQuoted_diagnostics e k, ?_⟩, fun f _ hfunction hbody => ?_⟩
  · have hcodes := (sameButQuoted_diagnostics e k).imp fun _ _ h => h.code_eq.symm
    rw [eq_comm, ← forall₂_eq_eq_eq, forall₂_map_left_iff, forall₂_map_right_iff]
    exact hcodes
  · rw [found, ofPlace, if_pos hfunction, ofFunction_eq, hbody]
    simp only [isContextual_iff, Bool.not_true, Bool.false_or]

def quoted : String := "function f(...[a = (x) => x]) \x7b\x7d"

def quotedInParentheses : String := "function f(...[a = ((x) => x)]) \x7b\x7d"

/-- The rest parameter is quoted as it is written. -/
theorem diagnostics_of_quoted : ∃ file, SourceFile.parse ⟨"a.ts"⟩ quoted = .ok file ∧
    ∃ e : Operand file,
      SourceFile.parse ⟨"a.ts"⟩ quotedInParentheses = .ok (file.parenthesize e 1) ∧
      (diagnostics file).map (·.cause) = [.rest "[a = (x) => x]", .parameter "x"] ∧
      (diagnostics (file.parenthesize e 1)).map (·.cause) =
        [.rest "[a = ((x) => x)]", .parameter "x"] := by
  have hrun : (SourceFile.parse ⟨"a.ts"⟩ quoted).toOption.any (fun file =>
      (SourceFile.parse ⟨"a.ts"⟩ quotedInParentheses).toOption.any fun file' =>
        file.root.preorder.any fun e => e.named = true ∧ e.kind.isOperand = true ∧
          e.role ≠ some .parameters ∧
          (∀ n ∈ file.root.preorder, n.kind.isName = true → e ∉ n.preorder) ∧
          (∀ f ∈ file.root.preorder, f.kind = .functionDeclaration →
            ∀ name ∈ f.child? .name, e ∉ name.preorder) ∧
          file'.path = file.path ∧ file'.language = file.language ∧
          file'.text = parenthesizedText file.text e 1 0 file.text.size ∧
          file'.root = parenthesize e 1 file.root ∧
          (diagnostics file).map (·.cause) = [.rest "[a = (x) => x]", .parameter "x"] ∧
          (diagnostics file').map (·.cause) = [.rest "[a = ((x) => x)]", .parameter "x"]) =
            true := by
    decide +kernel
  obtain ⟨file, hfile, hrun⟩ := exists_ok_of_any hrun
  obtain ⟨file', hfile', hrun⟩ := exists_ok_of_any hrun
  obtain ⟨node, hmem, hrun⟩ := List.any_eq_true.1 hrun
  obtain ⟨hnamed, hoperand, hrole, hname, hdeclared, hpath, hlanguage, htext, hroot, hcauses⟩ :=
    of_decide_eq_true hrun
  let e : Operand file := ⟨node, hmem, hnamed, hoperand, hrole, hname, hdeclared⟩
  obtain rfl : file' = file.parenthesize e 1 := SourceFile.eq_of_root_eq hpath hlanguage htext hroot
  exact ⟨file, hfile, e, hfile', hcauses⟩

end QualityGate.AnyType
