import QualityGate.Proofs.AnyType.Bindings
import QualityGate.Proofs.AnyType.Context
import QualityGate.Proofs.Syntax.Parentheses
import Mathlib.Data.List.Forall2

/-!
Diagnostics of nodes that were copied into another file. A copy has the role and, in the same order,
the copies of the children that its node has; only operands may come with parentheses around them.
Single nodes are diagnosed for the same as their copies, and so are whole trees.
-/
namespace QualityGate.AnyType

open Syntax Node List

/-- A node that was copied with its children. -/
structure Alike (copy : Node → Node) (covers : Node → Prop) (n n' : Node) : Prop where
  kind : n'.kind = n.kind
  children : n'.children = n.children.map copy
  covered : ∀ c ∈ n.children, covers c

def isEnclosed (k : Kind) : Bool := k.isOperand || k = .parenthesizedExpression

/-- Copies that one file has of nodes of another one. Operands may be in parentheses there, and
nodes that show this have another text. -/
structure Copies (file file' : SourceFile) (copy : Node → Node)
    (covers shows : Node → Prop) : Prop where
  role : ∀ n, (copy n).role = n.role
  named : ∀ n, (copy n).named = n.named
  node : ∀ n, covers n → Alike copy covers n (copy n) ∨
    isEnclosed n.kind = true ∧ isEnclosed (copy n).kind = true ∧ n.role ≠ some .parameters
  text : ∀ n, covers n → ¬ shows n → file'.textOf (copy n) = file.textOf n
  name : ∀ n, covers n → n.kind.isName = true → ¬ shows n
  declared : ∀ n, covers n → n.kind = .functionDeclaration → ∀ name ∈ n.child? .name, ¬ shows name

variable {file file' : SourceFile} {copy : Node → Node} {covers shows : Node → Prop}
  {n n' name place place' : Node}

namespace Alike

theorem covered_child (h : Alike copy covers n n') {role : Role} {c : Node}
    (hc : n.child? role = some c) :
    covers c :=
  h.covered c (List.mem_of_find?_eq_some hc)

theorem covered_part (h : Alike copy covers n n') {c : Node} (hc : c ∈ n.parts) : covers c :=
  h.covered c (List.mem_of_mem_filter hc)

end Alike

namespace Copies

theorem child? (h : Copies file file' copy covers shows) (hn : Alike copy covers n n')
    (role : Role) :
    n'.child? role = (n.child? role).map copy := by
  simp only [Node.child?, hn.children, List.find?_map]
  congr 2
  funext c
  simp [h.role]

theorem has (h : Copies file file' copy covers shows) (hn : Alike copy covers n n') (role : Role) :
    n'.has role = n.has role := by
  rw [Node.has, Node.has, h.child? hn, Option.isSome_map]

theorem kind_eq_iff (h : Copies file file' copy covers shows) (hn : covers n) (kind : Kind)
    (hkind : isEnclosed kind = false) : (copy n).kind = kind ↔ n.kind = kind := by
  rcases h.node n hn with halike | ⟨hold, hnew, -⟩
  · rw [halike.kind]
  · refine iff_of_false ?_ ?_
    · rintro rfl
      cases hnew.symm.trans hkind
    · rintro rfl
      cases hold.symm.trans hkind

theorem alike (h : Copies file file' copy covers shows) (hn : covers n)
    (hkind : isEnclosed n.kind = false) :
    Alike copy covers n (copy n) := by
  refine (h.node n hn).resolve_right fun ⟨hold, _⟩ => ?_
  cases hold.symm.trans hkind

theorem parts (h : Copies file file' copy covers shows) (hn : Alike copy covers n n') :
    n'.parts = n.parts.map copy := by
  rw [Node.parts, Node.parts, hn.children, List.filter_map]
  congr 1
  refine List.filter_congr fun c hc => ?_
  have hcomment := h.kind_eq_iff (hn.covered c hc) .comment rfl
  rw [Bool.eq_iff_iff]
  simp only [Function.comp, h.named, Bool.and_eq_true, bne_iff_ne, ne_eq, hcomment]

theorem elements (h : Copies file file' copy covers shows) (hn : Alike copy covers n n') :
    elements n' = (elements n).map copy := by
  unfold AnyType.elements
  rw [hn.kind]
  split
  · exact h.parts hn
  · exact h.parts hn
  · exact h.parts hn
  · rw [h.child? hn]
    cases n.child? .value <;> rfl
  · rfl

end Copies

theorem elements_of_isEnclosed (h : isEnclosed n.kind = true) : elements n = [] := by
  unfold elements
  split <;> simp_all [isEnclosed, Kind.isOperand]

theorem boundNames_of_isEnclosed (h : isEnclosed n.kind = true) : boundNames n = [] := by
  have hkind : isBinding n.kind = false := by
    cases hk : n.kind <;> simp_all [isEnclosed, Kind.isOperand, isBinding]
  rw [boundNames_eq, elements_of_isEnclosed h, hkind]
  rfl

structure IsNameCopy (copy : Node → Node) (covers : Node → Prop) (name name' : Node) : Prop where
  covered : covers name
  isName : name.kind.isName = true
  eq : name' = copy name

theorem forall₂_flatMap_map {α β γ δ : Type*} {R : β → δ → Prop} {φ : α → γ} {f : α → List β}
    {g : γ → List δ} {l : List α} (h : ∀ a ∈ l, Forall₂ R (f a) (g (φ a))) :
    Forall₂ R (l.flatMap f) ((l.map φ).flatMap g) := by
  rw [List.flatMap_map]
  refine List.rel_flatten ?_
  rw [forall₂_map_left_iff, forall₂_map_right_iff, forall₂_same]
  exact h

theorem copies_boundNames (h : Copies file file' copy covers shows) (n : Node) : covers n →
    Forall₂ (IsNameCopy copy covers) (boundNames n) (boundNames (copy n)) := by
  induction n using elements_induction with
  | step n ih =>
    intro hn
    rcases h.node n hn with halike | ⟨hold, hnew, -⟩
    · rw [boundNames_eq n, boundNames_eq (copy n), halike.kind, h.elements halike]
      split_ifs with hkind
      · have hname : n.kind.isName = true := by
          cases hk : n.kind <;> simp_all [isBinding, Kind.isName]
        exact .cons ⟨hn, hname, rfl⟩ .nil
      · exact forall₂_flatMap_map fun c hc =>
          ih c hc (halike.covered c ((elements_sublist n).subset hc))
    · rw [boundNames_of_isEnclosed hold, boundNames_of_isEnclosed hnew]
      exact .nil

/-- Two diagnostics of the same thing. What they quote besides identifiers may show parentheses in
one of them. -/
def Retold (file file' : SourceFile) (copy : Node → Node) (covers shows : Node → Prop)
    (d d' : Diagnostic) : Prop :=
  d'.cause = d.cause ∨ ∃ cause ∈ [Cause.exported, Cause.member, Cause.rest], ∃ name, covers name ∧
    shows name ∧
    d.cause = cause (file.textOf name) ∧ d'.cause = cause (file'.textOf (copy name))

theorem map_filterMap_filter {α β γ : Type*} (p : α → Bool) (f : α → Option β) (g : β → γ)
    (l : List α) :
    ((l.filter p).filterMap f).map g = l.flatMap fun a =>
      if p a then (f a).toList.map g else [] := by
  induction l with
  | nil => rfl
  | cons a l ih =>
    rw [List.flatMap_cons, ← ih, List.filter_cons]
    split_ifs
    · rw [List.filterMap_cons]
      cases f a <;> rfl
    · rfl

section
variable (h : Copies file file' copy covers shows)
include h

theorem retold_name (hcovered : covers name) (hname : name.kind.isName = true)
    (cause : String → Cause) :
    Retold file file' copy covers shows (diagnostic file cause name place)
      (diagnostic file' cause (copy name) place') := by
  have htext := h.text name hcovered (h.name name hcovered hname)
  exact .inl (congrArg cause htext)

theorem retold_quoted (place place' : Node) (hcovered : covers name) {cause : String → Cause}
    (hcause : cause ∈ [Cause.exported, Cause.member, Cause.rest]) :
    Retold file file' copy covers shows (diagnostic file cause name place)
      (diagnostic file' cause (copy name) place') := by
  by_cases hshows : shows name
  · exact .inr ⟨cause, hcause, name, hcovered, hshows, rfl, rfl⟩
  · exact .inl (congrArg cause (h.text name hcovered hshows))

/-- What a parameter with the pattern leaves open. -/
def ofPattern (file : SourceFile) (pattern : Node) (hasValue : Bool) : List Diagnostic :=
  match pattern.kind, hasValue with
  | .restPattern, _ =>
    [⟨.rest ((pattern.parts.head?.map file.textOf).getD ""), file.location pattern⟩]
  | .objectPattern, false | .arrayPattern, false =>
    (boundNames pattern).map fun name => diagnostic file .element name name
  | .identifier, false => [diagnostic file .parameter pattern pattern]
  | _, _ => []

omit h in
theorem ofParameter_eq (file : SourceFile) (n : Node) : ofParameter file n =
    if !(n.kind = .requiredParameter || n.kind = .optionalParameter) || n.has .type then []
    else (n.child? .pattern).toList.flatMap fun pattern =>
      ofPattern file pattern (n.has .value) := by
  unfold ofParameter
  split_ifs
  · rfl
  · cases n.child? .pattern with
    | none => rfl
    | some pattern => exact (List.append_nil _).symm

omit h in
theorem ofPattern_of_isEnclosed (hn : isEnclosed n.kind = true) (hasValue : Bool) :
    ofPattern file n hasValue = [] := by
  unfold ofPattern
  split <;> simp_all [isEnclosed, Kind.isOperand]

theorem retold_ofPattern (hn : covers n) (hasValue : Bool) :
    Forall₂ (Retold file file' copy covers shows)
    (ofPattern file n hasValue) (ofPattern file' (copy n) hasValue) := by
  rcases h.node n hn with halike | ⟨hold, hnew, -⟩
  case inr =>
    rw [ofPattern_of_isEnclosed hold, ofPattern_of_isEnclosed hnew]
    exact .nil
  have hnames : Forall₂ (Retold file file' copy covers shows)
      ((boundNames n).map fun name => diagnostic file .element name name)
      ((boundNames (copy n)).map fun name => diagnostic file' .element name name) := by
    refine rel_map ?_ (copies_boundNames h n hn)
    rintro name _ ⟨hcovered, hname, rfl⟩
    exact retold_name h hcovered hname .element
  unfold ofPattern
  rw [halike.kind]
  split
  · rw [h.parts halike, List.head?_map]
    cases hhead : n.parts.head? with
    | none => exact .cons (.inl rfl) .nil
    | some name =>
      have hname : covers name := halike.covered_part (List.mem_of_head? hhead)
      exact .cons (retold_quoted h n (copy n) hname (by simp)) .nil
  · exact hnames
  · exact hnames
  · exact .cons (retold_name h hn (by simp_all [Kind.isName]) .parameter) .nil
  · exact .nil

omit h in
theorem ofParameter_of_isEnclosed (hn : isEnclosed n.kind = true) : ofParameter file n = [] := by
  rw [ofParameter_eq]
  cases hkind : n.kind <;> simp_all [isEnclosed, Kind.isOperand]

theorem retold_ofParameter (hn : covers n) : Forall₂ (Retold file file' copy covers shows)
    (ofParameter file n) (ofParameter file' (copy n)) := by
  rcases h.node n hn with halike | ⟨hold, hnew, -⟩
  case inr =>
    rw [ofParameter_of_isEnclosed hold, ofParameter_of_isEnclosed hnew]
    exact .nil
  rw [ofParameter_eq, ofParameter_eq, halike.kind, h.has halike, h.has halike, h.child? halike]
  split_ifs
  · exact .nil
  · cases hpattern : n.child? .pattern with
    | none => exact .nil
    | some pattern => simpa using retold_ofPattern h (halike.covered_child hpattern) _

theorem retold_untyped (hn : Alike copy covers n n') :
    Forall₂ (Retold file file' copy covers shows) (untyped file n) (untyped file' n') := by
  unfold untyped
  rw [h.child? hn, h.child? hn]
  cases honly : n.child? .parameter with
  | some only =>
    have hcovered := hn.covered_child honly
    simp only [Option.map_some, h.kind_eq_iff hcovered .identifier rfl]
    split_ifs with hkind
    · exact .cons (retold_name h hcovered (by simp [hkind, Kind.isName]) .parameter) .nil
    · exact .nil
  | none =>
    cases hall : n.child? .parameters with
    | none => exact .nil
    | some all =>
      -- A list of parameters is never in parentheses.
      have hcovered := hn.covered_child hall
      have hrole : all.role = some .parameters := by simpa using List.find?_some hall
      have halike := (h.node all hcovered).resolve_right fun ⟨_, _, hrole'⟩ => hrole' hrole
      simp only [Option.map_none, Option.map_some, h.parts halike]
      exact forall₂_flatMap_map fun n hn => retold_ofParameter h (halike.covered_part hn)

theorem retold_ofFunction {above above' : List Node} (hn : Alike copy covers n n')
    (hcontext : isContextual ⟨n', above'⟩ = isContextual ⟨n, above⟩) :
    Forall₂ (Retold file file' copy covers shows) (ofFunction file ⟨n, above⟩)
      (ofFunction file' ⟨n', above'⟩) := by
  rw [ofFunction_eq, ofFunction_eq, hcontext, h.has hn]
  split_ifs
  · exact .nil
  · exact retold_untyped h hn

theorem retold_ofNew (hn : Alike copy covers n n') (functions : List String) :
    Forall₂ (Retold file file' copy covers shows) (ofNew file functions n)
      (ofNew file' functions n') := by
  unfold ofNew
  rw [h.child? hn]
  cases htarget : n.child? .constructor with
  | none => exact .nil
  | some target =>
    have hcovered := hn.covered_child htarget
    have hkind := h.kind_eq_iff hcovered .identifier rfl
    by_cases hidentifier : target.kind = .identifier
    · have htext :=
        h.text target hcovered (h.name target hcovered (by simp [hidentifier, Kind.isName]))
      simp only [Option.map_some, hkind, htext]
      split_ifs
      · exact .cons (.inl rfl) .nil
      · exact .nil
    · simp [hkind, hidentifier]

def ofVariable (file : SourceFile) (v : Node) : List Diagnostic :=
  if v.kind = .variableDeclarator && isBare v then
    (v.child? .name).toList.map fun name => diagnostic file .exported name name
  else []

omit h in
theorem ofExport_eq (file : SourceFile) (n : Node) : ofExport file n =
    match n.child? .declaration with
    | some d =>
      if d.kind = .lexicalDeclaration || d.kind =
        .variableDeclaration then d.parts.flatMap (ofVariable file) else []
    | none => [] := by
  unfold ofExport ofVariable
  cases n.child? .declaration with
  | none => rfl
  | some d => simp only [map_filterMap_filter]

theorem retold_ofVariable (hn : covers n) : Forall₂ (Retold file file' copy covers shows)
    (ofVariable file n) (ofVariable file' (copy n)) := by
  unfold ofVariable
  by_cases hkind : n.kind = .variableDeclarator
  · have halike := h.alike hn (by simp [hkind, isEnclosed, Kind.isOperand])
    rw [halike.kind, isBare, isBare, h.has halike, h.has halike, h.child? halike]
    split_ifs
    · cases hname : n.child? .name with
      | none => exact .nil
      | some name => exact .cons (retold_quoted h _ _ (halike.covered_child hname) (by simp)) .nil
    · exact .nil
  · simp [h.kind_eq_iff hn .variableDeclarator rfl, hkind]

theorem retold_ofExport (hn : Alike copy covers n n') :
    Forall₂ (Retold file file' copy covers shows) (ofExport file n) (ofExport file' n') := by
  rw [ofExport_eq, ofExport_eq, h.child? hn]
  cases hd : n.child? .declaration with
  | none => exact .nil
  | some d =>
    have hcovered := hn.covered_child hd
    simp only [Option.map_some, h.kind_eq_iff hcovered .lexicalDeclaration rfl,
      h.kind_eq_iff hcovered .variableDeclaration rfl]
    split_ifs with hkind
    · have halike :=
        h.alike hcovered (by cases hd : d.kind <;> simp_all [isEnclosed, Kind.isOperand])
      rw [h.parts halike]
      exact forall₂_flatMap_map fun v hv => retold_ofVariable h (halike.covered_part hv)
    · exact .nil

theorem retold_ofField (hn : Alike copy covers n n') :
    Forall₂ (Retold file file' copy covers shows) (ofField file n) (ofField file' n') := by
  unfold ofField isBare
  rw [h.has hn, h.has hn, h.child? hn]
  split_ifs
  · cases hname : n.child? .name with
    | none => exact .nil
    | some name => exact .cons (retold_quoted h _ _ (hn.covered_child hname) (by simp)) .nil
  · exact .nil

theorem retold_ofPlace {above above' : List Node} (hn : Alike copy covers n n')
    (hcontext : isContextual ⟨n', above'⟩ = isContextual ⟨n, above⟩) (functions : List String) :
    Forall₂ (Retold file file' copy covers shows) (ofPlace file functions ⟨n, above⟩)
      (ofPlace file' functions ⟨n', above'⟩) := by
  unfold ofPlace
  simp only [hn.kind]
  split_ifs
  · exact retold_ofFunction h hn hcontext
  · split
    · exact retold_ofNew h hn functions
    · exact retold_ofExport h hn
    · exact retold_ofField h hn
    · exact .nil

def declaredName (file : SourceFile) (p : Place) : List String :=
  if p.node.kind = .functionDeclaration then (p.node.child? .name).toList.map file.textOf else []

omit h in
theorem declaredFunctions_eq (file : SourceFile) :
    declaredFunctions file = (places [] file.root).flatMap (declaredName file) := by
  unfold declaredFunctions
  rw [preorder_eq, map_filterMap_filter, List.flatMap_map]
  simp only [decide_eq_true_eq]
  rfl

theorem declaredName_eq {above above' : List Node} (hn : Alike copy covers n n')
    (hcovered : covers n) :
    declaredName file' ⟨n', above'⟩ = declaredName file ⟨n, above⟩ := by
  unfold declaredName
  simp only [hn.kind, h.child? hn]
  split_ifs with hkind
  · cases hname : n.child? .name with
    | none => rfl
    | some name =>
      simp [h.text name (hn.covered_child hname) (h.declared n hcovered hkind name hname)]
  · rfl

end

/-- Two surroundings give types alike. -/
structure Agree (above above' : List Node) : Prop where
  isTypedBy : isTypedBy above' = isTypedBy above
  inTypedObject : inTypedObject above' = inTypedObject above

theorem Agree.cons {above above' : List Node} (h : Agree above above') (hkind : n'.kind = n.kind)
    (htype : n'.has .type = n.has .type) : Agree (n :: above) (n' :: above') where
  isTypedBy := by rw [isTypedBy_cons, isTypedBy_cons, hkind, htype, h.isTypedBy, h.inTypedObject]
  inTypedObject := by rw [AnyType.inTypedObject, AnyType.inTypedObject, hkind, h.isTypedBy]

theorem Agree.isContextual {above above' : List Node} (h : Agree above above')
    (hkind : n'.kind = n.kind) :
    isContextual ⟨n', above'⟩ = isContextual ⟨n, above⟩ := by
  simp only [isContextual_eq, hkind, h.isTypedBy, h.inTypedObject]

section
variable {α β : Type*} {R : α → β → Prop} {agree : List Node → List Node → Prop}
  {find : Place → List α} {find' : Place → List β}

/-- What is found of a node corresponds to what is found of its copy, and on goes the walk to the
children, or so it does at once for all that is below. -/
def Follows (copy : Node → Node) (covers : Node → Prop) (agree : List Node → List Node → Prop)
    (R : α → β → Prop) (find : Place → List α) (find' : Place → List β) : Prop :=
  ∀ n above above', covers n → agree above above' →
    Forall₂ R ((places above n).flatMap find) ((places above' (copy n)).flatMap find') ∨
      Alike copy covers n (copy n) ∧ agree (n :: above) (copy n :: above') ∧
        Forall₂ R (find ⟨n, above⟩) (find' ⟨copy n, above'⟩)

mutual
/-- What is found of the nodes of a tree corresponds to what is found of their copies. -/
theorem Follows.places (h : Follows copy covers agree R find find') :
    (n : Node) → ∀ above above', covers n →
    agree above above' →
    Forall₂ R ((places above n).flatMap find) ((places above' (copy n)).flatMap find')
  | ⟨kind, role, named, start, stop, children⟩, above, above', hn, hagree => by
    rcases h _ above above' hn hagree with hall | ⟨halike, hbelow, hfound⟩
    · exact hall
    · rw [places_eq above' (copy _), halike.children, Node.places, List.flatMap_cons,
        List.flatMap_cons]
      exact rel_append hfound (h.placesAll children _ _ halike.covered hbelow)

theorem Follows.placesAll (h : Follows copy covers agree R find find') :
    (ns : List Node) → ∀ above above', (∀ n ∈ ns, covers n) → agree above above' →
    Forall₂ R ((placesAll above ns).flatMap find) ((placesAll above' (ns.map copy)).flatMap find')
  | [], _, _, _, _ => .nil
  | n :: ns, above, above', hns, hagree => by
    obtain ⟨hn, hns⟩ := List.forall_mem_cons.1 hns
    rw [List.map_cons, Node.placesAll, Node.placesAll, List.flatMap_append, List.flatMap_append]
    exact rel_append (h.places n above above' hn hagree) (h.placesAll ns above above' hns hagree)
end

end

end QualityGate.AnyType
