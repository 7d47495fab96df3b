import QualityGate.Proofs.PropDrilling.Levels
import QualityGate.Proofs.Violation

/-!
Which tags are reported for props that are handed on too far. Tags start at different offsets, so
each has its own place in the report; its level there is the highest that some component around it
hands its props on through, counted on the way from the body of the component down to the tag.
-/
namespace QualityGate.PropDrilling

open Syntax Node

variable {file : SourceFile} {n tag : Node} {above : List Node} {p q : Place} {left right : ℕ}

theorem inside_of_tag (h : Inside left right n) (htag : tag? n = some tag) :
    Inside left right tag := by
  unfold tag? at htag
  split at htag
  · exact h.child (List.mem_of_find?_eq_some htag)
  · exact Option.some.inj htag ▸ h
  · contradiction

/-- A tag starts with a bracket, which is a token. -/
theorem exists_bracket (hmarked : n.marked = true) (hkind : n.kind.isTag = true) :
    ∃ bracket later, n.children = bracket :: later ∧ bracket.named = false := by
  have hstart := (marked_iff.1 hmarked).2.1
  have hany : n.children.head?.any (fun bracket => !bracket.named) = true := by
    cases hk : n.kind <;> simp_all [startsWith, Kind.isTag]
  obtain ⟨bracket, hhead, hnamed⟩ := (Option.any_eq_true _ _).1 hany
  obtain ⟨later, hcs⟩ := List.head?_eq_some_iff.1 hhead
  exact ⟨bracket, later, hcs, by simpa using hnamed⟩

/-- An element with children starts with its opening tag. -/
theorem exists_openTag (hmarked : n.marked = true) (hkind : n.kind = .jsxElement) :
    ∃ tag later, n.children = tag :: later ∧ tag.kind = .jsxOpeningElement ∧ tag? n = some tag := by
  have hstart := (marked_iff.1 hmarked).2.1
  rw [hkind] at hstart
  obtain ⟨tag, hhead, htag⟩ := (Option.any_eq_true _ _).1 hstart
  obtain ⟨later, hcs⟩ := List.head?_eq_some_iff.1 hhead
  simp only [Bool.and_eq_true, decide_eq_true_eq] at htag
  refine ⟨tag, later, hcs, htag.2, ?_⟩
  simp [tag?, hkind, child?, hcs, htag.1]

/-- All tags below a tag are behind its bracket. -/
theorem start_lt_of_isTag (hmarked : n.marked = true) (hinside : Inside left right n)
    (hkind : n.kind.isTag = true) (hp : p ∈ placesAll above n.children)
    (htag : tag? p.node = some tag) :
    n.start < tag.start := by
  obtain ⟨bracket, later, hcs, hbracket⟩ := exists_bracket hmarked hkind
  have hordered := ordered_eq n ▸ hinside.ordered
  rw [hcs, orderedAll_cons] at hordered
  have hleaf : bracket.marked = true :=
    (marked_iff.1 hmarked).2.2 bracket (hcs ▸ List.mem_cons_self)
  rw [hcs, placesAll, places_token hleaf hbracket, List.singleton_append] at hp
  rcases List.mem_cons.1 hp with rfl | hp
  · rw [tag?_token hleaf hbracket] at htag
    contradiction
  · calc n.start ≤ bracket.start := hordered.1.left_le
      _ < bracket.stop := hordered.1.start_lt
      _ ≤ tag.start := (inside_of_tag (inside_of_mem_placesAll hordered.2 hp) htag).left_le

/-- The tag of an element starts before all tags below the element. -/
theorem start_lt_of_below {other : Node} (hmarked : n.marked = true) (hinside : Inside left right n)
    (hn : tag? n = some tag) (hp : p ∈ placesAll above n.children)
    (hother : tag? p.node = some other) :
    tag.start < other.start := by
  by_cases hkind : n.kind = .jsxElement
  · obtain ⟨first, later, hcs, hfirst, htag⟩ := exists_openTag hmarked hkind
    obtain rfl : tag = first := Option.some.inj (hn.symm.trans htag)
    have hordered := ordered_eq n ▸ hinside.ordered
    rw [hcs, orderedAll_cons] at hordered
    rw [hcs, placesAll, places_eq] at hp
    rcases List.mem_cons.1 hp with rfl | hp
    · simp [tag?, hfirst] at hother
    · rcases List.mem_append.1 hp with hp | hp
      · have hchild := (marked_iff.1 hmarked).2.2 tag (hcs ▸ List.mem_cons_self)
        exact start_lt_of_isTag hchild hordered.1 (by rw [hfirst]; rfl) hp hother
      · calc tag.start < tag.stop := hordered.1.start_lt
          _ ≤ other.start := (inside_of_tag (inside_of_mem_placesAll hordered.2 hp) hother).left_le
  · have hself : n.kind.isTag = true ∧ n = tag := by
      unfold tag? at hn
      split at hn <;> simp_all [Kind.isTag]
    exact hself.2 ▸ start_lt_of_isTag hmarked hinside hself.1 hp hother

/-- The tag of the one place, if any, starts before that of the other. -/
def Before (p q : Place) : Prop :=
  ∀ tag other, tag? p.node = some tag → tag? q.node = some other → tag.start < other.start

/-- The root of a file has no tag, so a place with one is in order and covers some of the text. -/
theorem marked_of_tag (hp : p ∈ places [] file.root) (htag : tag? p.node = some tag) :
    p.node.marked = true ∧ Inside 0 file.text.size p.node := by
  refine (file.eq_root_or hp).resolve_left fun hroot => ?_
  simp [hroot, tag?, file.isProgram] at htag

theorem inside_of_mem_tag (hp : p ∈ places [] file.root) (htag : tag? p.node = some tag) :
    Inside 0 file.text.size tag := inside_of_tag (marked_of_tag hp htag).2 htag

theorem before_of_apart (hp : p ∈ places [] file.root) (hq : q ∈ places [] file.root)
    (happart : p.node.stop ≤ q.node.start) : Before p q := by
  intro tag other htag hother
  have hcovers := inside_of_tag (marked_of_tag hp htag).2.own htag
  calc tag.start < tag.stop := hcovers.start_lt
    _ ≤ p.node.stop := hcovers.le_right
    _ ≤ q.node.start := happart
    _ ≤ other.start := (inside_of_tag (marked_of_tag hq hother).2.own hother).left_le

/-- Parents come before children and siblings one after the other, in the text as in the list. -/
theorem pairwise_before (file : SourceFile) : (places [] file.root).Pairwise Before := by
  refine (file.pairwise_places_iff fun p hp q hq => before_of_apart hp hq).2 ?_
  intro p hp q hq tag other htag hother
  obtain ⟨hmarked, hinside⟩ := marked_of_tag hp htag
  exact start_lt_of_below hmarked hinside htag hq hother

theorem Before.location_ne (h : Before p q) (hq : q ∈ places [] file.root) {other : Node}
    (htag : tag? p.node = some tag) (hother : tag? q.node = some other) :
    file.location tag ≠ file.location other := by
  have hsize := inside_of_mem_tag hq hother
  have hother' := hsize.start_lt.le.trans hsize.le_right
  have hlt := h tag other htag hother
  exact file.location_ne (hlt.le.trans hother') hother' hlt.ne

theorem isElement_of_tag (htag : tag? n = some tag) : n.kind.isElement = true := by
  unfold tag? at htag
  split at htag <;> simp_all [Kind.isElement]

theorem exists_tag (hp : p ∈ places [] file.root) (hkind : p.node.kind.isElement = true) :
    ∃ tag, tag? p.node = some tag := by
  rcases file.eq_root_or hp with hroot | ⟨hmarked, -⟩
  · simp [hroot, Kind.isElement, file.isProgram] at hkind
  · by_cases helement : p.node.kind = .jsxElement
    · obtain ⟨tag, -, -, -, htag⟩ := exists_openTag hmarked helement
      exact ⟨tag, htag⟩
    · refine ⟨p.node, ?_⟩
      cases hk : p.node.kind <;> simp_all [tag?, Kind.isElement]

/-- Every tag has its own place in the text. -/
theorem eq_of_location_eq (hp : p ∈ places [] file.root) (hq : q ∈ places [] file.root)
    {other : Node} (htag : tag? p.node = some tag) (hother : tag? q.node = some other)
    (h : file.location tag = file.location other) : p = q := by
  by_contra hne
  have : Std.Symm fun p q => Before p q ∨ Before q p := ⟨fun _ _ => Or.symm⟩
  have hapart : (places [] file.root).Pairwise fun p q => Before p q ∨ Before q p :=
    (pairwise_before file).imp Or.inl
  rcases hapart.forall hp hq hne with hbefore | hbefore
  · exact hbefore.location_ne hq htag hother h
  · exact hbefore.location_ne hp hother htag h.symm

/-- The parameters of a function, as far as the tree says what they bind: the one of an arrow
function without parentheses, or the patterns in its list. -/
def patterns (function : Node) : List Node :=
  match function.child? .parameter, function.child? .parameters with
  | some parameter, _ => [parameter]
  | none, some parameters => parameters.parts.filterMap (·.child? .pattern)
  | none, none => []

/-- A named function declaration or an arrow function, with a parameter that has a usual name of
props. -/
structure Component (file : SourceFile) (c : Node) : Prop where
  kind : c.kind = .arrowFunction ∨ c.kind = .functionDeclaration ∧ c.has .name = true
  pattern : ∃ q ∈ patterns c, file.textOf q = "props" ∨ file.textOf q = "params"

theorem takesProps_iff : takesProps file n = true ↔
    ∃ q ∈ patterns n, file.textOf q = "props" ∨ file.textOf q = "params" := by
  unfold takesProps patterns
  cases n.child? .parameter with
  | some parameter => simp [propsNames]
  | none =>
    cases n.child? .parameters with
    | none => simp
    | some parameters =>
      simp only [propsNames, List.any_eq_true, List.mem_filterMap, beq_iff_eq,
        Option.map_eq_some_iff, List.contains_iff_mem, List.mem_cons, List.not_mem_nil, or_false]
      constructor
      · rintro ⟨x, hx, q, hq, hname⟩
        exact ⟨q, ⟨x, hx, hq⟩, hname⟩
      · rintro ⟨q, ⟨x, hx, hq⟩, hname⟩
        exact ⟨x, hx, q, hq, hname⟩

theorem isComponent_iff : isComponent file n = true ↔ Component file n := by
  rw [isComponent, Bool.and_eq_true, takesProps_iff]
  simp only [Bool.or_eq_true, Bool.and_eq_true, decide_eq_true_eq]
  exact ⟨fun h => ⟨h.1, h.2⟩, fun h => ⟨h.kind, h.pattern⟩⟩

/-- The names of the parameters of a function: the parameter of an arrow function without
parentheses, or the pattern of each parameter in the list, and all of the parameter where it has
none. -/
def parameterNames (function : Node) : List Node :=
  match function.child? .parameter, function.child? .parameters with
  | some parameter, _ => [parameter]
  | none, some list => list.parts.map fun p => (p.child? .pattern).getD p
  | none, none => []

/-- A named function declaration or an arrow function, with a parameter named exactly as props
are. -/
structure TakesProps (file : SourceFile) (c : Node) : Prop where
  kind : c.kind = .arrowFunction ∨ c.kind = .functionDeclaration ∧ c.has .name = true
  parameter : ∃ name ∈ parameterNames c, file.textOf name = "props" ∨ file.textOf name = "params"

/-- Where types are written, every parameter of a list has a pattern. -/
theorem has_pattern_of_mem_parts (htyped : file.language.dialect.typed = true) {c : Place}
    {list : Node} (hc : c ∈ places [] file.root) (hlist : c.node.child? .parameters = some list) :
    ∀ p ∈ list.parts, p.has .pattern = true := by
  have hplace := child_mem_places (List.mem_of_find?_eq_some hlist) [] file.root hc
  have hshape : list.hasShape file.language.dialect.typed = true := file.hasShape hplace
  obtain ⟨hshape, hown⟩ := Bool.and_eq_true_iff.1 hshape
  have hrole := List.find?_some (p := fun c : Node => c.role == some .parameters) hlist
  rw [beq_iff_eq] at hrole
  have hkind : list.kind = .formalParameters := by
    simpa [hrole] using (Bool.and_eq_true_iff.1 hshape).1
  intro p hp
  simp only [hkind, htyped, Bool.not_true, Bool.false_or, List.all_eq_true,
    Bool.and_eq_true] at hown
  exact (hown p hp).2

theorem parameterNames_eq_patterns (htyped : file.language.dialect.typed = true) {c : Place}
    (hc : c ∈ places [] file.root) : parameterNames c.node = patterns c.node := by
  unfold parameterNames patterns
  cases c.node.child? .parameter with
  | some parameter => rfl
  | none =>
    cases hlist : c.node.child? .parameters with
    | none => rfl
    | some list =>
      symm
      refine List.filterMap_eq_map_iff_forall_eq_some.2 fun p hp => ?_
      obtain ⟨pattern, hpattern⟩ :=
        Option.isSome_iff_exists.1 (has_pattern_of_mem_parts htyped hc hlist p hp)
      rw [hpattern, Option.getD_some]

theorem component_iff_takesProps (htyped : file.language.dialect.typed = true) {c : Place}
    (hc : c ∈ places [] file.root) : Component file c.node ↔ TakesProps file c.node := by
  have hnames := parameterNames_eq_patterns htyped hc
  exact ⟨fun h => ⟨h.kind, hnames ▸ h.pattern⟩, fun h => ⟨h.kind, hnames ▸ h.parameter⟩⟩

/-- Some component hands its props on through `level` attributes, on the elements from its body down
to the place. -/
def Reaches (component : Node → Prop) (file : SourceFile) (p : Place) (level : ℕ) : Prop :=
  ∃ (c : Place) (path : List Node) (body : Node), p.path = path ++ c.path ∧ component c.node ∧
    c.node.child? .body = some body ∧ path.getLast? = some body ∧ handedOn file path = level

theorem reaches_takesProps_iff (htyped : file.language.dialect.typed = true)
    (hp : p ∈ places [] file.root) {level : ℕ} :
    Reaches (Component file) file p level ↔ Reaches (TakesProps file) file p level := by
  refine exists_congr fun c => exists₂_congr fun path body => and_congr_right fun hpath => ?_
  have hc : p.Passes c := ⟨path, hpath.symm⟩
  exact and_congr_left fun _ => component_iff_takesProps htyped (hc.mem_places hp).1

theorem mem_bodies {body : Node} : body ∈ bodies file ↔
    ∃ c ∈ places [] file.root, Component file c.node ∧ c.node.child? .body = some body := by
  simp [bodies, preorder_eq, isComponent_iff, and_assoc]

/-- What is below the body of a component is a place of the file, with the component above it. -/
theorem lift_mem_places {c : Place} {body : Node} (hc : c ∈ places [] file.root)
    (hbody : c.node.child? .body = some body) (hq : q ∈ places [] body) :
    ⟨q.node, q.above ++ c.path⟩ ∈ places [] file.root := by
  have hplace := child_mem_places (List.mem_of_find?_eq_some hbody) [] file.root hc
  exact places_subset hplace (mem_places_iff.2 ⟨q, hq, rfl⟩)

/-- The walks reach just what some component hands its props on to. -/
theorem mem_tags {e : Location × ℕ} : e ∈ tags file ↔ ∃ p ∈ places [] file.root, ∃ tag,
    tag? p.node = some tag ∧ e.1 = file.location tag ∧ Reaches (Component file) file p e.2 := by
  constructor
  · intro h
    obtain ⟨body, hbody, he⟩ := List.mem_flatMap.1 h
    obtain ⟨c, hc, hcomponent, hchild⟩ := mem_bodies.1 hbody
    obtain ⟨q, hq, tag, htag, rfl⟩ := mem_tagsAt.1 he
    exact ⟨_, lift_mem_places hc hchild hq, tag, htag, rfl,
      c, q.path, body, rfl, hcomponent, hchild, getLast?_path hq, rfl⟩
  · rintro ⟨p, hp, tag, htag, hplace, c, path, body, hpath, hcomponent, hchild, hlast, hlevel⟩
    -- The way to the place leads through the component and its body, so the place is one below the
    -- body.
    obtain ⟨before, rfl⟩ := List.getLast?_eq_some_iff.1 hlast
    have hbody : p.Passes ⟨body, c.path⟩ := ⟨before, by rw [hpath]; simp [Place.path]⟩
    have hc : p.Passes c := ⟨_, hpath.symm⟩
    obtain ⟨q, hq, rfl⟩ := mem_places_iff.1 (hbody.mem_places hp).2
    have hq' : q.path = before ++ [body] := List.append_cancel_right hpath
    refine List.mem_flatMap.2 ⟨body, mem_bodies.2 ⟨c, (hc.mem_places hp).1, hcomponent, hchild⟩, ?_⟩
    exact mem_tagsAt.2 ⟨q, hq, tag, htag, Prod.ext hplace (hq' ▸ hlevel.symm)⟩

theorem mem_tags_iff {level : ℕ} (hp : p ∈ places [] file.root) (htag : tag? p.node = some tag) :
    (file.location tag, level) ∈ tags file ↔ Reaches (Component file) file p level := by
  refine mem_tags.trans ⟨?_, fun h => ⟨p, hp, tag, htag, rfl, h⟩⟩
  rintro ⟨q, hq, other, hother, hplace, h⟩
  obtain rfl := eq_of_location_eq hp hq htag hother hplace
  exact h

theorem language_of_parse {path : Path} {source : String}
    (h : SourceFile.parse path source = .ok file) :
    Language.ofPath? path = some file.language := by
  unfold SourceFile.parse at h
  split at h
  · contradiction
  · rename_i language hlanguage
    simp only at h
    split at h
    · contradiction
    · obtain rfl := Except.ok.inj h
      exact hlanguage

/-- Files whose types are checked, and no others are looked through, are written with types. -/
theorem typed_of_parse {path : Path} {source : String} (h : SourceFile.parse path source = .ok file)
    (hpath : isTypedFile path = true) : file.language.dialect.typed = true := by
  have hlanguage := language_of_parse h
  have hextension := (Bool.and_eq_true_iff.1 hpath).1
  split at hextension
  case h_5 => contradiction
  all_goals
    rename_i hsome
    rw [Language.ofPath?, hsome] at hlanguage
    obtain hlanguage := Option.some.inj hlanguage
    rw [← hlanguage]
    rfl

/-- In a file with types the breaches are, in the order of their places, the tags that some
component hands its props on to through more attributes than allowed, with the highest number of any
component. Every element has a tag, and no two tags have the same place. -/
theorem check_highest_levels (settings : Settings) (file : SourceFile)
    (htyped : file.language.dialect.typed = true) : ∃ es : List (Location × ℕ),
    check settings file = es.map (drilled settings.thresholds.maxPropDrilling) ∧
    es.Pairwise (fun d e => d.1.lt e.1 = true) ∧
    (∀ e ∈ es, ∃ p ∈ places [] file.root, ∃ tag, tag? p.node = some tag ∧ e.1 = file.location tag) ∧
    ∀ p ∈ places [] file.root, p.node.kind.isElement = true → ∃ tag, tag? p.node = some tag ∧
      (∀ q ∈ places [] file.root, ∀ other, tag? q.node = some other →
        file.location other = file.location tag → q = p) ∧
      ∀ level, (file.location tag, level) ∈ es ↔
        IsGreatest {l | Reaches (TakesProps file) file p l} level ∧
          settings.thresholds.maxPropDrilling < level := by
  refine ⟨_, check_eq settings, List.pairwise_map.1 (ordered_worst _ _),
    fun e he => ?_, fun p hp hkind => ?_⟩
  · obtain ⟨p, hp, tag, htag, hplace, -⟩ := mem_tags.1 (mem_worst he).1
    exact ⟨p, hp, tag, htag, hplace⟩
  · obtain ⟨tag, htag⟩ := exists_tag hp hkind
    refine ⟨tag, htag, fun q hq other hother h => eq_of_location_eq hq hp hother htag h,
      fun level => ?_⟩
    rw [mem_worst_iff]
    simp only [mem_tags_iff hp htag, reaches_takesProps_iff htyped hp]

def page : String :=
  "function Page(props) \x7breturn <A a=\x7bprops\x7d b=\x7bprops\x7d c=\x7bprops\x7d d=\x7bprops\x7d />;\x7d"

example : (SourceFile.parse ⟨"Page.tsx"⟩ page).toOption.any (fun file =>
    check .default file = [drilled 3 (⟨1, 30⟩, 4)]) = true := by
  decide +kernel

theorem highest_level_of_page : ∃ file, SourceFile.parse ⟨"Page.tsx"⟩ page = .ok file ∧
    file.language.dialect.typed = true ∧ ∃ p ∈ places [] file.root, ∃ tag, tag? p.node = some tag ∧
      ∃ level, check .default file = [drilled 3 (file.location tag, level)] ∧
        IsGreatest {l | Reaches (TakesProps file) file p l} level ∧ 3 < level := by
  have hrun : (SourceFile.parse ⟨"Page.tsx"⟩ page).toOption.any (fun file =>
      (check .default file).length = 1) = true := by
    decide +kernel
  obtain ⟨file, hfile, h⟩ := exists_ok_of_any hrun
  have hone := of_decide_eq_true h
  have htyped := typed_of_parse hfile (by decide +kernel)
  obtain ⟨es, hcheck, -, hplaces, hes⟩ := check_highest_levels .default file htyped
  rw [hcheck, List.length_map] at hone
  obtain ⟨⟨place, level⟩, rfl⟩ := List.length_eq_one_iff.1 hone
  obtain ⟨p, hp, tag, htag, hplace⟩ := hplaces _ List.mem_cons_self
  obtain rfl : place = file.location tag := hplace
  obtain ⟨other, hother, -, hlevel⟩ := hes p hp (isElement_of_tag htag)
  obtain rfl : tag = other := Option.some.inj (htag.symm.trans hother)
  obtain ⟨hgreatest, hmax⟩ := (hlevel level).1 List.mem_cons_self
  exact ⟨file, hfile, htyped, p, hp, tag, htag, level, hcheck, hgreatest, hmax⟩

end QualityGate.PropDrilling
