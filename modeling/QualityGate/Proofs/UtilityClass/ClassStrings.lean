import QualityGate.Proofs.Syntax.Cursor
import QualityGate.Proofs.Syntax.Literals
import QualityGate.UtilityClass.ClassString
import Mathlib.Data.List.TakeWhile

/-!
Where class lists are written. A literal is taken if it is the value of a class attribute, as it
stands or in braces, or an argument of a class helper, and then it is taken once, however elements
and helpers stand in each other.
-/
namespace QualityGate.UtilityClass.ClassString

open Syntax Node

variable (file : SourceFile) (settings : Settings) (tables : Tables)

/-- An attribute of the tag that holds classes. -/
structure ClassAttribute (tag attr : Node) : Prop where
  mem : attr ∈ tag.parts
  kind : attr.kind = .jsxAttribute
  name : ∃ name ∈ attr.parts.head?, file.textOf name ∈ tables.classAttributes

/-- The value of an attribute, as it stands or in braces. -/
inductive ValueOf (attr : Node) : Node → Prop
  | bare {name value : Node} (h : attr.parts = [name, value]) : ValueOf attr value
  | braces {name braces value : Node} (h : attr.parts = [name, braces]) (hkind : braces.kind =
    .jsxExpression)
      (hvalue : braces.parts = [value]) : ValueOf attr value

/-- An expression with any number of parentheses around it. -/
inductive Wraps (inner : Node) : Node → Prop
  | none : Wraps inner inner
  | parens {outer next : Node} (hkind : outer.kind = .parenthesizedExpression)
      (hnext : outer.parts.head? = some next) (h : Wraps inner next) : Wraps inner outer

/-- The expression is the whole value of a class attribute of the tag, parentheses ignored. -/
def IsWholeValue (tag expression : Node) : Prop :=
  ∃ attr value, ClassAttribute file tables tag attr ∧ ValueOf attr value ∧ Wraps expression value

/-- A call of a class helper, with its arguments. -/
structure HelperCall (call arguments : Node) : Prop where
  kind : call.kind = .callExpression
  helper : ∃ callee, call.child? .function = some callee ∧ callee.kind = .identifier ∧
    file.textOf callee ∈ settings.classHelpers
  arguments : call.child? .arguments = some arguments

/-- A node in a position of class lists, with the name of the element that gets the classes. -/
inductive Position : Node → Option String → Prop
  | value {tag attr literal : Node} (htag : tag ∈ file.root.preorder)
      (hkind : tag.kind.isTag = true)
      (hattr : ClassAttribute file tables tag attr) (hvalue : ValueOf attr literal) :
      Position literal (file.tagName? tag)
  | argument {call arguments literal : Node} {element : Option String}
      (hcall : call ∈ file.root.preorder)
      (hhelper : HelperCall file settings call arguments) (hliteral : literal ∈ arguments.parts)
      (hnamed : element.isSome = true ↔ ∃ tag ∈ file.root.preorder, tag.kind.isTag = true ∧
        IsWholeValue file tables tag call)
      (hname : ∀ tag ∈ file.root.preorder, tag.kind.isTag = true →
        IsWholeValue file tables tag call →
        element = file.tagName? tag) :
      Position literal element

/-- A string or a template in a position of class lists. -/
structure ClassLiteral (literal : Node) (element : Option String) : Prop where
  isLiteral : literal.isLiteral = true
  position : Position file settings tables literal element

variable {file settings tables} {p q l : Place} {n attr tag value literal : Node}
  {c d : ClassString} {name : String} {element : Option String}

theorem mem_parts : n ∈ tag.parts ↔ n ∈ tag.children ∧ n.named = true ∧ n.kind ≠ .comment := by
  simp [parts]

theorem place_of_mem_parts (hp : p ∈ places [] file.root) (h : n ∈ p.node.parts) :
    ⟨n, p.path⟩ ∈ places [] file.root :=
  child_mem_places (mem_parts.1 h).1 [] file.root hp

theorem isClassAttribute_iff : isClassAttribute file tables attr = true ↔
    ∃ name ∈ attr.parts.head?, file.textOf name ∈ tables.classAttributes := by
  unfold isClassAttribute SourceFile.nameAndValue
  cases attr.parts <;> simp

/-- What the attributes of a tag are looked through for. -/
theorem classAttribute_iff (hp : p ∈ places [] file.root) :
    ClassAttribute file tables p.node attr ↔ attr ∈ (SourceFile.attributes p.node).filter fun a =>
      a.kind = .jsxAttribute && isClassAttribute file tables a := by
  have hrole (hmem : attr ∈ p.node.parts) (hkind : attr.kind = .jsxAttribute) :
      attr.role ≠ some .name := by
    have hshape := (Bool.and_eq_true_iff.1 (file.hasShape (place_of_mem_parts hp hmem))).2
    simp only [hkind, Bool.and_eq_true, bne_iff_ne] at hshape
    exact hshape.1
  simp only [List.mem_filter, SourceFile.attributes, Bool.and_eq_true, decide_eq_true_eq,
    isClassAttribute_iff, bne_iff_ne, Bool.or_eq_true]
  constructor
  · rintro ⟨hmem, hkind, hname⟩
    exact ⟨⟨hmem, hrole hmem hkind, .inl hkind⟩, hkind, hname⟩
  · rintro ⟨⟨hmem, -, -⟩, hkind, hname⟩
    exact ⟨hmem, hkind, hname⟩

theorem isAttributeShape (hp : p ∈ places [] file.root) (hkind : p.node.kind = .jsxAttribute) :
    hasShape.isAttributeShape p.node.parts = true := by
  have hshape := (Bool.and_eq_true_iff.1 (file.hasShape hp)).2
  simp only [hkind, Bool.and_eq_true] at hshape
  exact hshape.2

/-- Braces that are not empty hold one expression. -/
theorem parts_eq_singleton (hp : p ∈ places [] file.root) (hkind : p.node.kind = .jsxExpression)
    (h : n ∈ p.node.parts) : p.node.parts = [n] := by
  have hshape := (Bool.and_eq_true_iff.1 (file.hasShape hp)).2
  simp only [hkind, decide_eq_true_eq] at hshape
  match hparts : p.node.parts, hshape with
  | [], _ => simp [hparts] at h
  | [m], _ =>
    rw [hparts, List.mem_singleton] at h
    rw [h]

/-- Braces in an attribute are its value. -/
theorem exists_parts_eq_pair (hp : p ∈ places [] file.root) (hkind : p.node.kind = .jsxAttribute)
    (hn : n.kind = .jsxExpression) (h : n ∈ p.node.parts) : ∃ first, p.node.parts = [first, n] := by
  have hshape := isAttributeShape hp hkind
  match hparts : p.node.parts, hshape with
  | [first], hfirst =>
    rw [hparts, List.mem_singleton] at h
    simp [hasShape.isAttributeShape, ← h, hn] at hfirst
  | [first, value], hfirst =>
    rw [hparts, List.mem_pair] at h
    rcases h with rfl | rfl
    · simp [hasShape.isAttributeShape, hn] at hfirst
    · exact ⟨first, rfl⟩

/-- Attributes stand in tags that have a name. -/
theorem isTag_of_mem_children (hp : p ∈ places [] file.root) (h : attr ∈ p.node.children)
    (hkind : attr.kind = .jsxAttribute) : p.node.kind.isTag = true ∧ p.node.has .name = true := by
  have hattributes := (Bool.and_eq_true_iff.1 (Bool.and_eq_true_iff.1 (file.hasShape hp)).1).2
  rcases Bool.or_eq_true_iff.1 hattributes with htag | hnone
  · exact Bool.and_eq_true_iff.1 htag
  · simpa [hkind] using List.all_eq_true.1 hnone attr h

theorem exists_tagName? (hp : p ∈ places [] file.root)
    (h : ClassAttribute file tables p.node attr) :
    ∃ name, file.tagName? p.node = some name := by
  have hname := (isTag_of_mem_children hp (mem_parts.1 h.mem).1 h.kind).2
  rw [← Option.isSome_iff_exists, SourceFile.tagName?, Option.isSome_map]
  exact hname

def valueOf? (file : SourceFile) (attr : Node) : Option Node :=
  (file.nameAndValue attr).2.bind fun value =>
    if value.kind = .jsxExpression then value.parts.head? else some value

theorem valueOf?_eq_some_iff (hp : p ∈ places [] file.root) (hkind : p.node.kind = .jsxAttribute)
    (hn : n.kind ≠ .jsxExpression) : valueOf? file p.node = some n ↔ ValueOf p.node n := by
  constructor
  · intro h
    have hshape := isAttributeShape hp hkind
    match hparts : p.node.parts, hshape with
    | [first], _ => simp [valueOf?, SourceFile.nameAndValue, hparts] at h
    | [first, value], _ =>
      have hvalue :
          (if value.kind = .jsxExpression then value.parts.head? else some value) = some n := by
        simpa [valueOf?, SourceFile.nameAndValue, hparts] using h
      split_ifs at hvalue with hbraces
      · have hplace := place_of_mem_parts (n := value) hp (by simp [hparts])
        exact .braces hparts hbraces
          (parts_eq_singleton hplace hbraces (List.mem_of_mem_head? hvalue))
      · exact .bare (Option.some.inj hvalue ▸ hparts)
  · rintro (hparts | ⟨hparts, hbraces, hvalue⟩)
    · simp [valueOf?, SourceFile.nameAndValue, hparts, hn]
    · simp [valueOf?, SourceFile.nameAndValue, hparts, hbraces, hvalue]

theorem ofLiteral?_eq_some_iff : ofLiteral? file element n = some c ↔
    (file.stringValue? n <|> file.templateValue? n " ") = some c.value ∧ c.place = file.location n ∧
      c.element = element := by
  rw [ofLiteral?, Option.map_eq_some_iff]
  constructor
  · rintro ⟨value, hvalue, rfl⟩
    exact ⟨hvalue, rfl, rfl⟩
  · rintro ⟨hvalue, hplace, hname⟩
    obtain ⟨value, place, element⟩ := c
    exact ⟨value, hvalue, by simp_all⟩

/-- Only strings and templates have a text. -/
theorem kind_of_ofLiteral? (h : ofLiteral? file element n = some c) :
    n.kind = .string ∨ n.kind = .templateString := by
  by_contra hkind
  obtain ⟨hstring, htemplate⟩ := not_or.1 hkind
  simp [ofLiteral?, SourceFile.stringValue?, SourceFile.templateValue?, hstring, htemplate] at h

theorem isLiteral_of_mem_parts (h : n ∈ tag.parts) (hc : ofLiteral? file element n = some c) :
    n.isLiteral = true := by
  simpa [isLiteral, (mem_parts.1 h).2.1] using kind_of_ofLiteral? hc

theorem isLiteral_of_valueOf (h : ValueOf attr n) (hc : ofLiteral? file element n = some c) :
    n.isLiteral = true := by
  cases h with
  | bare hparts => exact isLiteral_of_mem_parts (show n ∈ attr.parts by simp [hparts]) hc
  | @braces _ braces _ _ _ hvalue =>
    exact isLiteral_of_mem_parts (show n ∈ braces.parts by simp [hvalue]) hc

theorem exists_ofLiteral? (h : n.isLiteral = true) (element : Option String) :
    ∃ c, ofLiteral? file element n = some c := by
  simp only [isLiteral, Bool.and_eq_true, Bool.or_eq_true, decide_eq_true_eq] at h
  rcases h.2 with hkind | hkind
  · exact ⟨_, by simp [ofLiteral?, SourceFile.stringValue?, hkind]; rfl⟩
  · exact ⟨_, by simp [ofLiteral?, SourceFile.stringValue?, SourceFile.templateValue?, hkind]; rfl⟩

def ofAttribute? (file : SourceFile) (tag attr : Node) : Option ClassString :=
  (valueOf? file attr).bind (ofLiteral? file (file.tagName? tag))

theorem ofTag_eq (tag : Node) : ofTag file tables tag =
    ((SourceFile.attributes tag).filter fun a =>
      a.kind = .jsxAttribute &&
        isClassAttribute file tables a).filterMap (ofAttribute? file tag) := by
  refine List.filterMap_congr fun attr _ => ?_
  rw [ofAttribute?, valueOf?, Option.bind_assoc]
  refine Option.bind_congr fun value _ => ?_
  split_ifs <;> rfl

theorem ofAttribute?_eq_some_iff (hp : p ∈ places [] file.root)
    (hattr : ClassAttribute file tables p.node attr) :
    ofAttribute? file p.node attr = some c ↔
      ∃ literal, ValueOf attr literal ∧ ofLiteral? file (file.tagName? p.node) literal =
        some c := by
  rw [ofAttribute?, Option.bind_eq_some_iff]
  refine exists_congr fun literal => and_congr_left fun hliteral => ?_
  refine valueOf?_eq_some_iff (place_of_mem_parts hp hattr.mem) hattr.kind ?_
  rcases kind_of_ofLiteral? hliteral with hkind | hkind <;> simp [hkind]

/-- What a tag gives are the literals that are values of its class attributes. -/
theorem mem_ofTag_iff (hp : p ∈ places [] file.root) :
    c ∈ ofTag file tables p.node ↔ ∃ attr literal, ClassAttribute file tables p.node attr ∧
      ValueOf attr literal ∧
      ofLiteral? file (file.tagName? p.node) literal = some c := by
  rw [ofTag_eq, List.mem_filterMap]
  refine exists_congr fun attr => ?_
  rw [← classAttribute_iff hp, exists_and_left]
  exact and_congr_right fun hattr => ofAttribute?_eq_some_iff hp hattr

theorem mem_ofCall_iff (hkind : p.node.kind = .callExpression) :
    c ∈ ofCall file settings tables p ↔
      ∃ arguments literal, HelperCall file settings p.node arguments ∧
      literal ∈ arguments.parts ∧ ofLiteral? file (owner? file tables p) literal = some c := by
  unfold ofCall
  split
  · next callee arguments hcallee harguments =>
    simp only [Bool.and_eq_true, decide_eq_true_eq, List.contains_iff_mem]
    split_ifs with hhelper
    · rw [List.mem_filterMap]
      constructor
      · rintro ⟨literal, hmem, hliteral⟩
        exact ⟨arguments, literal, ⟨hkind, ⟨callee, hcallee, hhelper⟩, harguments⟩, hmem, hliteral⟩
      · rintro ⟨other, literal, ⟨-, -, hother⟩, hmem, hliteral⟩
        obtain rfl : arguments = other := Option.some.inj (harguments.symm.trans hother)
        exact ⟨literal, hmem, hliteral⟩
    · refine iff_of_false List.not_mem_nil ?_
      rintro ⟨-, -, ⟨-, ⟨other, hother, hhelper'⟩, -⟩, -⟩
      obtain rfl : callee = other := Option.some.inj (hcallee.symm.trans hother)
      exact hhelper hhelper'
  · next hmissing =>
    refine iff_of_false List.not_mem_nil ?_
    rintro ⟨arguments, -, ⟨-, ⟨callee, hcallee, -⟩, harguments⟩, -⟩
    exact hmissing callee arguments hcallee harguments

theorem named_of_child {m : Node} (hp : p ∈ places [] file.root) (hkind : p.node.kind ≠ .program)
    (hm : m ∈ p.node.children) : p.node.named = true := by
  by_contra hnamed
  have hleaf :=
    (marked_iff.1 (SourceFile.inside_of_ne_program hp hkind).1).1 (by simpa using hnamed)
  simp [hleaf] at hm

theorem Wraps.trans {outer : Node} (h : Wraps tag outer)
    (hkind : tag.kind = .parenthesizedExpression) (hnext : tag.parts.head? = some n) :
    Wraps n outer := by
  induction h with
  | none => exact .parens hkind hnext .none
  | parens hkind' hnext' _ ih => exact .parens hkind' hnext' ih

/-- What parentheses are around stands below them, with nothing but parentheses between. -/
theorem exists_place_of_wraps (hl : l ∈ places [] file.root) (h : Wraps n l.node) :
    ∃ parens, (∀ m ∈ parens, m.kind = .parenthesizedExpression) ∧
      ⟨n, parens ++ l.above⟩ ∈ places [] file.root := by
  obtain ⟨outer, above⟩ := l
  change Wraps n outer at h
  induction h generalizing above with
  | none => exact ⟨[], List.forall_mem_nil _, hl⟩
  | @parens outer next hkind hnext _ ih =>
    obtain ⟨parens, hparens, hn⟩ :=
      ih (outer :: above) (place_of_mem_parts hl (List.mem_of_mem_head? hnext))
    exact ⟨parens ++ [outer], by simpa [or_imp, forall_and, hkind] using hparens, by simpa using hn⟩

/-- An expression in parentheses is the first of their parts. -/
theorem head?_of_parens (hp : p ∈ places [] file.root) {outer : Node} {above : List Node}
    (habove : p.above = outer :: above) (hkind : outer.kind = .parenthesizedExpression)
    (hmem : p.node ∈ outer.parts) (hother : p.node.kind ≠ .other) :
    outer.parts.head? = some p.node := by
  have hplace := (mem_children_of_above hp habove).2
  have hshape := (Bool.and_eq_true_iff.1 (file.hasShape hplace)).2
  simp only [hkind, List.all_eq_true, decide_eq_true_eq] at hshape
  match hparts : outer.parts with
  | [] => simp [hparts] at hmem
  | first :: later =>
    rw [hparts, List.mem_cons] at hmem
    rcases hmem with heq | hmem
    · rw [heq, List.head?_cons]
    · exact absurd (hshape _ (by simpa [hparts] using hmem)) hother

/-- An expression with nothing but parentheses between it and braces is all that the braces hold. -/
theorem wraps_of_above {parens above : List Node} {braces : Node} (hp : p ∈ places [] file.root)
    (hkind : p.node.kind = .callExpression ∨ p.node.kind = .parenthesizedExpression)
    (hnamed : p.node.named = true) (habove : p.above = parens ++ braces :: above)
    (hparens : ∀ m ∈ parens, m.kind = .parenthesizedExpression)
    (hbraces : braces.kind = .jsxExpression) :
    ∃ value, braces.parts = [value] ∧ Wraps p.node value := by
  have hexpression : p.node.kind ≠ .comment ∧ p.node.kind ≠ .other := by
    rcases hkind with hkind | hkind <;> simp [hkind]
  induction parens generalizing p with
  | nil =>
    obtain ⟨hmem, hplace⟩ := mem_children_of_above hp habove
    exact ⟨p.node, parts_eq_singleton hplace hbraces (mem_parts.2 ⟨hmem, hnamed, hexpression.1⟩),
      .none⟩
  | cons outer parens ih =>
    obtain ⟨houter, hparens⟩ := List.forall_mem_cons.1 hparens
    obtain ⟨hmem, hplace⟩ := mem_children_of_above hp habove
    have hpart : p.node ∈ outer.parts := mem_parts.2 ⟨hmem, hnamed, hexpression.1⟩
    obtain ⟨value, hvalue, hwraps⟩ := ih hplace (.inr houter)
      (named_of_child hplace (by simp [houter]) hmem) rfl hparens (by simp [houter])
    exact ⟨value, hvalue,
      hwraps.trans houter (head?_of_parens hp habove houter hpart hexpression.2)⟩

/-- Braces below an attribute of a tag hold its value. -/
theorem valueOf_of_above {above : List Node} (hp : p ∈ places [] file.root)
    (habove : p.above = attr :: tag :: above) (hbraces : p.node.kind = .jsxExpression)
    (hattr : attr.kind = .jsxAttribute) (hclass : isClassAttribute file tables attr = true)
    (hvalue : p.node.parts = [value]) : tag ∈ file.root.preorder ∧ tag.kind.isTag = true ∧
      ClassAttribute file tables tag attr ∧ ValueOf attr value := by
  obtain ⟨hmem, hattrPlace⟩ := mem_children_of_above hp habove
  obtain ⟨hattrMem, htagPlace⟩ := mem_children_of_above hattrPlace rfl
  have hchild : value ∈ p.node.children := (mem_parts.1 (hvalue ▸ List.mem_singleton_self value)).1
  have hpart : p.node ∈ attr.parts :=
    mem_parts.2 ⟨hmem, named_of_child hp (by simp [hbraces]) hchild, by simp [hbraces]⟩
  have hattrPart : attr ∈ tag.parts :=
    mem_parts.2 ⟨hattrMem, named_of_child hattrPlace (by simp [hattr]) hmem, by simp [hattr]⟩
  obtain ⟨first, hparts⟩ := exists_parts_eq_pair hattrPlace hattr hbraces hpart
  exact ⟨mem_preorder.2 ⟨_, htagPlace, rfl⟩, (isTag_of_mem_children htagPlace hattrMem hattr).1,
    ⟨hattrPart, hattr, isClassAttribute_iff.1 hclass⟩, .braces hparts hbraces hvalue⟩

/-- A value that stands as it is is neither a call nor in parentheses. -/
theorem not_wraps_of_bare {first : Node} (hp : p ∈ places [] file.root)
    (hkind : p.node.kind = .jsxAttribute) (hparts : p.node.parts = [first, value])
    (hn : n.kind = .callExpression) : ¬ Wraps n value := by
  have hshape := isAttributeShape hp hkind
  rw [hparts] at hshape
  have hvalue := (Bool.and_eq_true_iff.1 hshape).2
  rintro (_ | ⟨hparens, -, -⟩)
  · simp [hn, Kind.isAttributeValue] at hvalue
  · simp [hparens, Kind.isAttributeValue] at hvalue

/-- The element that is found for a call has it for the whole value of a class attribute. -/
theorem exists_isWholeValue (hp : p ∈ places [] file.root) (hkind : p.node.kind = .callExpression)
    (hnamed : p.node.named = true) (h : owner? file tables p = some name) :
    ∃ tag ∈ file.root.preorder, tag.kind.isTag = true ∧ IsWholeValue file tables tag p.node ∧
      file.tagName? tag = some name := by
  unfold owner? at h
  split at h
  · next braces attr tag above henclosing =>
    split_ifs at h with hconditions
    simp only [Bool.and_eq_true, decide_eq_true_eq] at hconditions
    obtain ⟨⟨hbraces, hattr⟩, hclass⟩ := hconditions
    obtain ⟨parens, habove, hparens⟩ :
        ∃ parens, p.above = parens ++ braces :: attr :: tag :: above ∧
        ∀ m ∈ parens, m.kind = .parenthesizedExpression := by
      refine ⟨p.above.takeWhile (·.kind = .parenthesizedExpression), ?_, fun m hm => ?_⟩
      · rw [← henclosing, Place.enclosing, List.takeWhile_append_dropWhile]
      · simpa using List.mem_takeWhile_imp hm
    obtain ⟨value, hvalue, hwraps⟩ := wraps_of_above hp (.inl hkind) hnamed habove hparens hbraces
    have hbracesPlace : ⟨braces, attr :: tag :: above⟩ ∈ places [] file.root :=
      (Place.Passes.mem_places (p := p) (q := ⟨braces, attr :: tag :: above⟩)
        ⟨p.node :: parens, by simp [Place.path, habove]⟩ hp).1
    obtain ⟨htag, htagKind, hclassAttr, hvalueOf⟩ :=
      valueOf_of_above hbracesPlace rfl hbraces hattr hclass hvalue
    exact ⟨tag, htag, htagKind, ⟨attr, value, hclassAttr, hvalueOf, hwraps⟩, h⟩
  · contradiction

/-- A call that is the whole value of a class attribute belongs to the tag of the attribute. -/
theorem owner?_eq_tagName? (hp : p ∈ places [] file.root) (hkind : p.node.kind = .callExpression)
    (htag : tag ∈ file.root.preorder) (hwhole : IsWholeValue file tables tag p.node) :
    owner? file tables p = file.tagName? tag := by
  obtain ⟨attr, value, hattr, hvalue, hwraps⟩ := hwhole
  obtain ⟨t, ht, rfl⟩ := mem_preorder.1 htag
  have hattrPlace := place_of_mem_parts ht hattr.mem
  cases hvalue with
  | bare hparts => exact absurd hwraps (not_wraps_of_bare hattrPlace hattr.kind hparts hkind)
  | @braces first braces value hparts hbraces hvalue =>
    have hbracesPlace := place_of_mem_parts (n := braces) hattrPlace (by simp [hparts])
    have hvaluePlace := place_of_mem_parts (n := value) hbracesPlace (by simp [hvalue])
    obtain ⟨parens, hparens, hplace⟩ := exists_place_of_wraps hvaluePlace hwraps
    -- The call stands at one place only, so what is above it is what the value puts there.
    have habove : p.above = parens ++ braces :: attr :: t.node :: t.above :=
      congrArg Place.above (SourceFile.eq_of_node_eq hp hplace (by simp [hkind]) rfl)
    have henclosing : p.enclosing = braces :: attr :: t.node :: t.above := by
      rw [Place.enclosing, habove, List.dropWhile_append_of_pos (by simpa using hparens),
        List.dropWhile_cons_of_neg (by simp [hbraces])]
    rw [owner?, henclosing]
    simp only [hbraces, hattr.kind, isClassAttribute_iff.2 hattr.name, decide_true,
      Bool.and_self, if_true]

/-- A call belongs to an element just if it is the whole value of a class attribute. -/
theorem isSome_owner?_iff (hp : p ∈ places [] file.root) (hkind : p.node.kind = .callExpression)
    (hnamed : p.node.named = true) : (owner? file tables p).isSome = true ↔
      ∃ tag ∈ file.root.preorder, tag.kind.isTag = true ∧ IsWholeValue file tables tag p.node := by
  rw [Option.isSome_iff_exists]
  constructor
  · rintro ⟨name, hname⟩
    obtain ⟨tag, htag, htagKind, hwhole, -⟩ := exists_isWholeValue hp hkind hnamed hname
    exact ⟨tag, htag, htagKind, hwhole⟩
  · rintro ⟨tag, htag, -, hwhole⟩
    rw [owner?_eq_tagName? hp hkind htag hwhole]
    obtain ⟨t, ht, rfl⟩ := mem_preorder.1 htag
    obtain ⟨attr, value, hattr, -⟩ := hwhole
    exact exists_tagName? ht hattr

def ofPlace (file : SourceFile) (settings : Settings) (tables : Tables) (p : Place) :
    List ClassString :=
  if p.node.kind.isTag then ofTag file tables p.node
  else if p.node.kind = .callExpression then ofCall file settings tables p
  else []

theorem ofFile_eq :
    ofFile file settings tables = (places [] file.root).flatMap (ofPlace file settings tables) :=
  rfl

theorem mem_ofPlace_iff : c ∈ ofPlace file settings tables p ↔
    p.node.kind.isTag = true ∧ c ∈ ofTag file tables p.node ∨
      p.node.kind = .callExpression ∧ c ∈ ofCall file settings tables p := by
  unfold ofPlace
  split_ifs with htag hcall
  · have hcall : p.node.kind ≠ .callExpression := fun hcall => by simp [hcall, Kind.isTag] at htag
    simp [htag, hcall]
  · simp [hcall, Kind.isTag]
  · simp [htag, hcall]

theorem named_of_helperCall {arguments : Node} (hp : p ∈ places [] file.root)
    (h : HelperCall file settings p.node arguments) : p.node.named = true :=
  named_of_child hp (by simp [h.kind]) (List.mem_of_find?_eq_some h.arguments)

theorem ClassLiteral.mem_ofFile (h : ClassLiteral file settings tables literal element)
    (hliteral : ofLiteral? file element literal = some c) : c ∈ ofFile file settings tables := by
  rw [ofFile_eq, List.mem_flatMap]
  simp only [mem_ofPlace_iff]
  cases h.position with
  | @value tag attr _ htag hkind hattr hvalue =>
    obtain ⟨p, hp, rfl⟩ := mem_preorder.1 htag
    exact ⟨p, hp, .inl ⟨hkind, (mem_ofTag_iff hp).2 ⟨attr, literal, hattr, hvalue, hliteral⟩⟩⟩
  | @argument call arguments _ _ hcall hhelper hmem hnamed hname =>
    obtain ⟨p, hp, rfl⟩ := mem_preorder.1 hcall
    have hcallNamed := named_of_helperCall hp hhelper
    have howner : element = owner? file tables p := by
      by_cases hwhole :
          ∃ tag ∈ file.root.preorder, tag.kind.isTag = true ∧ IsWholeValue file tables tag p.node
      · obtain ⟨tag, htag, htagKind, hwhole⟩ := hwhole
        rw [hname tag htag htagKind hwhole, owner?_eq_tagName? hp hhelper.kind htag hwhole]
      · have hnone := mt hnamed.1 hwhole
        have howner := mt (isSome_owner?_iff hp hhelper.kind hcallNamed).1 hwhole
        rw [Option.not_isSome_iff_eq_none.1 hnone, Option.not_isSome_iff_eq_none.1 howner]
    exact ⟨p, hp, .inr ⟨hhelper.kind,
      (mem_ofCall_iff hhelper.kind).2 ⟨arguments, literal, hhelper, hmem, howner ▸ hliteral⟩⟩⟩

theorem exists_classLiteral (h : c ∈ ofFile file settings tables) : ∃ literal,
    ClassLiteral file settings tables literal c.element ∧
      ofLiteral? file c.element literal = some c := by
  rw [ofFile_eq, List.mem_flatMap] at h
  obtain ⟨p, hp, h⟩ := h
  rcases mem_ofPlace_iff.1 h with ⟨htag, hc⟩ | ⟨hkind, hc⟩
  · obtain ⟨attr, literal, hattr, hvalue, hliteral⟩ := (mem_ofTag_iff hp).1 hc
    have helement := (ofLiteral?_eq_some_iff.1 hliteral).2.2
    refine ⟨literal, ⟨isLiteral_of_valueOf hvalue hliteral, ?_⟩, helement ▸ hliteral⟩
    exact helement ▸ .value (mem_preorder.2 ⟨p, hp, rfl⟩) htag hattr hvalue
  · obtain ⟨arguments, literal, hhelper, hmem, hliteral⟩ := (mem_ofCall_iff hkind).1 hc
    have helement := (ofLiteral?_eq_some_iff.1 hliteral).2.2
    refine ⟨literal, ⟨isLiteral_of_mem_parts hmem hliteral, ?_⟩, helement ▸ hliteral⟩
    have hcall := named_of_helperCall hp hhelper
    rw [helement]
    exact .argument (mem_preorder.2 ⟨p, hp, rfl⟩) hhelper hmem (isSome_owner?_iff hp hkind hcall)
      fun tag htag _ hwhole => owner?_eq_tagName? hp hkind htag hwhole

/-- The literal at `l` is taken at the tag or call `p`, as the value of the attribute `holder`, in
braces or not, or out of the arguments `holder`. -/
inductive HeldBy (p : Place) (holder : Node) (l : Place) : Prop
  | direct (hkind : p.node.kind ≠ .jsxAttribute) (h : l.above = holder :: p.path) :
      HeldBy p holder l
  | braces {braces : Node} (hkind : holder.kind = .jsxAttribute)
      (h : l.above = braces :: holder :: p.path) : HeldBy p holder l

/-- The nodes above a literal tell where it is taken. -/
theorem HeldBy.unique {holder other : Node} (h : HeldBy p holder l) (k : HeldBy q other l) :
    p = q ∧ holder = other := by
  cases h with
  | direct hkind h =>
    cases k with
    | direct hkind' k =>
      obtain ⟨hholder, hpath⟩ := List.cons.inj (h.symm.trans k)
      exact ⟨Place.path_injective hpath, hholder⟩
    | braces hkind' k =>
      obtain ⟨-, hpath⟩ := List.cons.inj (h.symm.trans k)
      exact absurd ((List.cons.inj hpath).1 ▸ hkind') hkind
  | braces hkind h =>
    cases k with
    | direct hkind' k =>
      obtain ⟨-, hpath⟩ := List.cons.inj (k.symm.trans h)
      exact absurd ((List.cons.inj hpath).1 ▸ hkind) hkind'
    | braces hkind' k =>
      obtain ⟨-, hrest⟩ := List.cons.inj (h.symm.trans k)
      obtain ⟨hholder, hpath⟩ := List.cons.inj hrest
      exact ⟨Place.path_injective hpath, hholder⟩

/-- A literal of the file that is taken at `p`. -/
structure Takes (file : SourceFile) (p : Place) (holder literal : Node) : Prop where
  isLiteral : literal.isLiteral = true
  place : ∃ l ∈ places [] file.root, l.node = literal ∧ HeldBy p holder l

theorem takes_of_valueOf (hp : p ∈ places [] file.root) (htag : p.node.kind.isTag = true)
    (hattr : ClassAttribute file tables p.node attr) (hvalue : ValueOf attr literal)
    (hliteral : literal.isLiteral = true) : Takes file p attr literal := by
  have hattrPlace := place_of_mem_parts hp hattr.mem
  have hkind : p.node.kind ≠ .jsxAttribute := fun hkind => by simp [hkind, Kind.isTag] at htag
  refine ⟨hliteral, ?_⟩
  cases hvalue with
  | bare hparts =>
    exact ⟨_, place_of_mem_parts hattrPlace (by simp [hparts]), rfl, .direct hkind rfl⟩
  | @braces _ braces _ hparts _ hvalue =>
    have hbracesPlace := place_of_mem_parts (n := braces) hattrPlace (by simp [hparts])
    exact ⟨_, place_of_mem_parts hbracesPlace (by simp [hvalue]), rfl, .braces hattr.kind rfl⟩

theorem takes_of_argument {arguments : Node} (hp : p ∈ places [] file.root)
    (hhelper : HelperCall file settings p.node arguments) (hmem : literal ∈ arguments.parts)
    (hliteral : literal.isLiteral = true) : Takes file p arguments literal := by
  have harguments : ⟨arguments, p.path⟩ ∈ places [] file.root :=
    child_mem_places (List.mem_of_find?_eq_some hhelper.arguments) [] file.root hp
  exact ⟨hliteral, _, place_of_mem_parts harguments hmem, rfl, .direct (by simp [hhelper.kind]) rfl⟩

/-- Of two literals that are taken each has its own place in the text. -/
theorem Takes.eq_of_location_eq {holder other m : Node} (h : Takes file p holder n)
    (k : Takes file q other m) (heq : file.location n = file.location m) :
    p = q ∧ holder = other ∧ n = m := by
  obtain ⟨hn, l, hl, rfl, hheld⟩ := h
  obtain ⟨hm, l', hl', rfl, hheld'⟩ := k
  obtain rfl := SourceFile.eq_of_literal_location_eq hl hl' hn hm heq
  exact ⟨(hheld.unique hheld').1, (hheld.unique hheld').2, rfl⟩

theorem exists_takes (hp : p ∈ places [] file.root) (h : c ∈ ofPlace file settings tables p) :
    ∃ holder literal, Takes file p holder literal ∧ c.place = file.location literal := by
  rcases mem_ofPlace_iff.1 h with ⟨htag, hc⟩ | ⟨hkind, hc⟩
  · obtain ⟨attr, literal, hattr, hvalue, hliteral⟩ := (mem_ofTag_iff hp).1 hc
    exact ⟨attr, literal,
      takes_of_valueOf hp htag hattr hvalue (isLiteral_of_valueOf hvalue hliteral),
      (ofLiteral?_eq_some_iff.1 hliteral).2.1⟩
  · obtain ⟨arguments, literal, hhelper, hmem, hliteral⟩ := (mem_ofCall_iff hkind).1 hc
    exact ⟨arguments, literal,
      takes_of_argument hp hhelper hmem (isLiteral_of_mem_parts hmem hliteral),
      (ofLiteral?_eq_some_iff.1 hliteral).2.1⟩

/-- No two parts of a node are the same. -/
theorem nodup_parts (hp : p ∈ places [] file.root) : p.node.parts.Nodup := by
  obtain ⟨left, right, hordered⟩ := file.exists_orderedAll hp
  have hinside := inside_of_orderedAll hordered
  have hchildren : p.node.children.Nodup :=
    (pairwise_of_orderedAll hordered).imp_of_mem fun hm _ hle heq =>
    absurd ((hinside _ hm).start_lt.trans_le hle) (heq ▸ lt_irrefl _)
  exact hchildren.sublist List.filter_sublist

/-- Different attributes of a tag give lists at different places. -/
theorem pairwise_ofTag (hp : p ∈ places [] file.root) (htag : p.node.kind.isTag = true) :
    (ofTag file tables p.node).Pairwise fun c d => c.place ≠ d.place := by
  have hattributes : (SourceFile.attributes p.node).Nodup := (nodup_parts hp).filter _
  have htakes {attr c} (hmem : attr ∈ (SourceFile.attributes p.node).filter fun a =>
      a.kind = .jsxAttribute &&
        isClassAttribute file tables a) (hc : ofAttribute? file p.node attr = some c) :
      ∃ literal, Takes file p attr literal ∧ c.place = file.location literal := by
    have hattr := (classAttribute_iff hp).2 hmem
    obtain ⟨literal, hvalue, hliteral⟩ := (ofAttribute?_eq_some_iff hp hattr).1 hc
    exact ⟨literal, takes_of_valueOf hp htag hattr hvalue (isLiteral_of_valueOf hvalue hliteral),
      (ofLiteral?_eq_some_iff.1 hliteral).2.1⟩
  rw [ofTag_eq, List.pairwise_filterMap]
  refine (hattributes.filter _).imp_of_mem fun ha hb hne c hc d hd heq => hne ?_
  obtain ⟨n, hn, hplace⟩ := htakes ha hc
  obtain ⟨m, hm, hplace'⟩ := htakes hb hd
  exact (hn.eq_of_location_eq hm (hplace.symm.trans (heq.trans hplace'))).2.1

/-- Different arguments of a helper give lists at different places. -/
theorem pairwise_ofCall (hp : p ∈ places [] file.root) (hkind : p.node.kind = .callExpression) :
    (ofCall file settings tables p).Pairwise fun c d => c.place ≠ d.place := by
  unfold ofCall
  split
  · next callee arguments hcallee harguments =>
    split_ifs with hhelper
    · simp only [Bool.and_eq_true, decide_eq_true_eq, List.contains_iff_mem] at hhelper
      have hcall : HelperCall file settings p.node arguments :=
        ⟨hkind, ⟨callee, hcallee, hhelper⟩, harguments⟩
      have harguments : ⟨arguments, p.path⟩ ∈ places [] file.root :=
        child_mem_places (List.mem_of_find?_eq_some harguments) [] file.root hp
      rw [List.pairwise_filterMap]
      refine (nodup_parts harguments).imp_of_mem fun hn hm hne c hc d hd heq => hne ?_
      have hc' := (ofLiteral?_eq_some_iff.1 hc).2.1
      have hd' := (ofLiteral?_eq_some_iff.1 hd).2.1
      exact ((takes_of_argument hp hcall hn (isLiteral_of_mem_parts hn hc)).eq_of_location_eq
        (takes_of_argument hp hcall hm (isLiteral_of_mem_parts hm hd))
          (hc'.symm.trans (heq.trans hd'))).2.2
    · exact .nil
  · exact .nil

theorem nodup_places (file : SourceFile) (settings : Settings) (tables : Tables) :
    ((ofFile file settings tables).map (·.place)).Nodup := by
  rw [List.Nodup, List.pairwise_map, ofFile_eq, List.pairwise_flatMap]
  constructor
  · intro p hp
    unfold ofPlace
    split_ifs with htag hcall
    · exact pairwise_ofTag hp htag
    · exact pairwise_ofCall hp hcall
    · exact .nil
  · refine (SourceFile.pairwise_node_ne file).imp_of_mem fun {p q} hp hq hne c hc d hd heq => ?_
    obtain ⟨holder, n, hn, hplace⟩ := exists_takes hp hc
    obtain ⟨other, m, hm, hplace'⟩ := exists_takes hq hd
    obtain ⟨rfl, -⟩ := hn.eq_of_location_eq hm (hplace.symm.trans (heq.trans hplace'))
    refine hne (fun hprogram => ?_) rfl
    rcases mem_ofPlace_iff.1 hc with ⟨htag, -⟩ | ⟨hcall, -⟩
    · simp [hprogram, Kind.isTag] at htag
    · simp [hprogram] at hcall

theorem ClassLiteral.exists_takes (h : ClassLiteral file settings tables literal element) :
    ∃ p holder, Takes file p holder literal := by
  cases h.position with
  | value htag hkind hattr hvalue =>
    obtain ⟨p, hp, rfl⟩ := mem_preorder.1 htag
    exact ⟨p, _, takes_of_valueOf hp hkind hattr hvalue h.isLiteral⟩
  | argument hcall hhelper hmem =>
    obtain ⟨p, hp, rfl⟩ := mem_preorder.1 hcall
    exact ⟨p, _, takes_of_argument hp hhelper hmem h.isLiteral⟩

/-- Class lists stand at different places, and they are the texts of the strings and templates that
are values of class attributes or arguments of class helpers, each with the element that has the
attribute or, for a helper, the call for the whole value of one. No literal in these positions is
left out, and each starts at its own place: it is taken once, and for one element. -/
theorem ofFile_takes_once (file : SourceFile) (settings : Settings) (tables : Tables) :
    let found := ofFile file settings tables
    (found.map (·.place)).Nodup ∧
      (∀ c ∈ found, ∃ literal, ClassLiteral file settings tables literal c.element ∧
        c.place = file.location literal ∧
          (file.stringValue? literal <|> file.templateValue? literal " ") = some c.value) ∧
      (∀ literal element, ClassLiteral file settings tables literal element →
        ∃ c ∈ found, c.element = element ∧ c.place = file.location literal ∧
          (file.stringValue? literal <|> file.templateValue? literal " ") = some c.value) ∧
      ∀ n m element other, ClassLiteral file settings tables n element →
        ClassLiteral file settings tables m other →
        file.location n = file.location m → n = m ∧ element = other := by
  have hnodup := nodup_places file settings tables
  have htaken : ∀ literal element, ClassLiteral file settings tables literal element →
      ∃ c ∈ ofFile file settings tables, ofLiteral? file element literal = some c :=
    fun literal element h => by
    obtain ⟨c, hc⟩ : ∃ c, ofLiteral? file element literal = some c :=
      exists_ofLiteral? h.isLiteral element
    exact ⟨c, h.mem_ofFile hc, hc⟩
  refine ⟨hnodup, fun c hc => ?_, fun literal element h => ?_,
    fun n m element other hn hm heq => ⟨?_, ?_⟩⟩
  · obtain ⟨literal, hliteral, htext⟩ := exists_classLiteral hc
    obtain ⟨htext, hplace, -⟩ := ofLiteral?_eq_some_iff.1 htext
    exact ⟨literal, hliteral, hplace, htext⟩
  · obtain ⟨c, hc, hliteral⟩ := htaken literal element h
    obtain ⟨htext, hplace, helement⟩ := ofLiteral?_eq_some_iff.1 hliteral
    exact ⟨c, hc, helement, hplace, htext⟩
  · obtain ⟨p, holder, hn⟩ := hn.exists_takes
    obtain ⟨q, other, hm⟩ := hm.exists_takes
    exact (hn.eq_of_location_eq hm heq).2.2
  · obtain ⟨c, hc, hcn⟩ := htaken n element hn
    obtain ⟨d, hd, hdm⟩ := htaken m other hm
    obtain ⟨-, hcplace, hcelement⟩ := ofLiteral?_eq_some_iff.1 hcn
    obtain ⟨-, hdplace, hdelement⟩ := ofLiteral?_eq_some_iff.1 hdm
    obtain rfl : c = d :=
      List.inj_on_of_nodup_map hnodup hc hd (hcplace.trans (heq.trans hdplace.symm))
    exact hcelement.symm.trans hdelement

/-- A helper in a helper is no value of an attribute, and markup among the arguments has classes of
its own. -/
example : (SourceFile.parse ⟨"a.tsx"⟩
    "<div className=\x7b(cn('a', cn('b'), <p className='c' />))\x7d />;").toOption.any
      (fun file : SourceFile =>
      (ofFile file .default .default).map (fun c => (c.value, c.element)) =
        [("a", some "div"), ("b", none), ("c", some "p")]) = true := by
  decide +kernel

end QualityGate.UtilityClass.ClassString
