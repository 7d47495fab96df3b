import QualityGate.Resolver
import Mathlib.Data.List.Infix
import Mathlib.Data.String.Basic

/-!
Which alias a name goes through. The aliases are tried in the order of their lengths, so the first
that fits is the longest of all that fit. A name that goes on behind an alias without a slash does
not fit it, and of patterns with one stem the first one counts.
-/
namespace QualityGate

/-- The names that an alias stands for, with the paths that they mean. -/
inductive Alias.LeadsTo (a : Alias) : String → Path → Prop
  | itself : a.LeadsTo a.name a.base
  | below (rest : String) : a.LeadsTo (a.name ++ "/" ++ rest) (a.base.join rest).normalize

/-- The specifier is the name of the alias, or goes on behind it with a slash. -/
def Alias.Covers (a : Alias) (specifier : String) : Prop := ∃ p, a.LeadsTo specifier p

namespace Resolver

/-- What is left of a text when `suffix` is taken from its end as often as it stands there. -/
def Trimmed (suffix cs rest : List Char) : Prop :=
  (∃ n, cs = rest ++ (List.replicate n suffix).flatten) ∧ ¬ suffix <:+ rest

/-- A pattern without its ending in stars. -/
def IsStem (pattern name : String) : Prop :=
  ∃ cs, Trimmed ['/', '*'] pattern.toList cs ∧ Trimmed ['*'] cs name.toList

/-- An entry of a table of patterns declares an alias if its pattern has a stem and there is a
target. -/
inductive Usable (base : Path) : String × List String → Alias → Prop
  | intro {pattern target name folder : String} {more : List String} (hname : IsStem pattern name)
    (hne : name ≠ "") (hfolder : IsStem target folder) :
    Usable base (pattern, target :: more) ⟨name, (base.join folder).normalize⟩

/-- The declared aliases in the order of their patterns. -/
def declared (root : Path) : Option CompilerOptions → List Alias
  | some o => o.paths.filterMap fun e => alias? (o.pathsBase.getD root) e.1 e.2
  | none => []

/-- The aliases to choose from: the declared ones, or else `@` for `src`. -/
def choices (root : Path) (options : Option CompilerOptions) : List Alias :=
  if declared root options = [] then [⟨"@", root.join "src"⟩] else declared root options

/-- The alias is the first one with its name, and no alias with a longer name covers the
specifier. -/
structure Decides (l : List Alias) (specifier : String) (a : Alias) : Prop where
  first : l.find? (·.name == a.name) = some a
  covers : a.Covers specifier
  longest : ∀ b ∈ l, b.Covers specifier → b.name.length ≤ a.name.length

variable {a b : Alias} {specifier pattern : String} {p : Path} {root : Path}
  {options : Option CompilerOptions} {l : List Alias}

theorem dropEnd_spec {suffix : List Char} (hne : suffix ≠ []) (fuel : Nat) (back : List Char)
    (h : back.length ≤ fuel) :
    (∃ n, back = (List.replicate n suffix).flatten ++ dropEnd suffix fuel back) ∧
      ¬ suffix <+: dropEnd suffix fuel back := by
  induction fuel generalizing back with
  | zero =>
    have hback : back = [] := List.eq_nil_of_length_eq_zero (by omega)
    subst hback
    exact ⟨⟨0, rfl⟩, by simpa [dropEnd] using hne⟩
  | succ fuel ih =>
    rw [dropEnd]
    split_ifs with hsuffix
    · obtain ⟨rest, rfl⟩ := List.isPrefixOf_iff_prefix.1 hsuffix
      have hpos := List.length_pos_iff.2 hne
      rw [List.length_append] at h
      rw [List.drop_left]
      obtain ⟨⟨n, hn⟩, hrest⟩ := ih rest (by omega)
      refine ⟨⟨n + 1, ?_⟩, hrest⟩
      rw [List.replicate_succ, List.flatten_cons, List.append_assoc, ← hn]
    · exact ⟨⟨0, rfl⟩, fun hp => hsuffix (List.isPrefixOf_iff_prefix.2 hp)⟩

theorem trimmed_dropEnd {suffix : List Char} (hne : suffix ≠ []) (cs : List Char) :
    Trimmed suffix cs (dropEnd suffix.reverse cs.reverse.length cs.reverse).reverse := by
  obtain ⟨⟨n, hn⟩, hrest⟩ :=
    @dropEnd_spec suffix.reverse (by simpa using hne) cs.reverse.length cs.reverse le_rfl
  refine ⟨⟨n, ?_⟩, ?_⟩
  · have hcs := congrArg List.reverse hn
    simpa [List.reverse_flatten] using hcs
  · rw [← List.reverse_prefix]
    simpa using hrest

theorem Trimmed.unique {suffix cs rest other : List Char} (h : Trimmed suffix cs rest)
    (k : Trimmed suffix cs other) : rest = other := by
  obtain ⟨⟨n, hn⟩, hrest⟩ := h
  obtain ⟨⟨m, hm⟩, hother⟩ := k
  rw [hn] at hm
  -- The one with fewer endings taken off ends in the suffix, unless they are the same.
  have hends (l : Nat) (s : List Char) :
      suffix <:+ s ++ (List.replicate (l + 1) suffix).flatten := by
    rw [List.replicate_succ', List.flatten_append, List.flatten_singleton, ← List.append_assoc]
    exact List.suffix_append _ _
  have hsplit (l k : Nat) : (List.replicate (l + k) suffix).flatten =
      (List.replicate l suffix).flatten ++ (List.replicate k suffix).flatten := by
    rw [List.replicate_add, List.flatten_append]
  rcases Nat.lt_trichotomy n m with hlt | rfl | hlt
  · obtain ⟨l, rfl⟩ := Nat.exists_eq_add_of_lt hlt
    rw [Nat.add_assoc, Nat.add_comm n, hsplit, ← List.append_assoc] at hm
    exact absurd (List.append_cancel_right hm ▸ hends l other) hrest
  · exact List.append_cancel_right hm
  · obtain ⟨l, rfl⟩ := Nat.exists_eq_add_of_lt hlt
    rw [Nat.add_assoc, Nat.add_comm m, hsplit, ← List.append_assoc] at hm
    exact absurd (List.append_cancel_right hm ▸ hends l rest) hother

theorem isStem_iff {name : String} : IsStem pattern name ↔ name = stem pattern := by
  have hstem : IsStem pattern (stem pattern) := by
    refine ⟨_, trimmed_dropEnd (List.cons_ne_nil '/' ['*']) pattern.toList, ?_⟩
    have htrimmed := trimmed_dropEnd (List.cons_ne_nil '*' [])
      (dropEnd ['*', '/'] pattern.toList.reverse.length pattern.toList.reverse).reverse
    simpa [stem] using htrimmed
  constructor
  · rintro ⟨cs, hcs, hname⟩
    obtain ⟨ds, hds, hstem⟩ := hstem
    obtain rfl := hcs.unique hds
    exact String.toList_injective (hname.unique hstem)
  · rintro rfl
    exact hstem

theorem alias?_eq_some_iff {base : Path} {e : String × List String} :
    alias? base e.1 e.2 = some a ↔ Usable base e a := by
  obtain ⟨pattern, targets⟩ := e
  constructor
  · intro h
    cases targets with
    | nil => cases h
    | cons target more =>
      simp only [alias?, Option.ite_none_left_eq_some, Option.some.injEq] at h
      obtain ⟨hne, rfl⟩ := h
      exact .intro (isStem_iff.2 rfl) (by simpa using hne) (isStem_iff.2 rfl)
  · rintro ⟨hname, hne, hfolder⟩
    rw [isStem_iff] at hname hfolder
    subst hname hfolder
    simp [alias?, hne]

theorem mem_declared_iff : a ∈ declared root options ↔
    ∃ o ∈ options, ∃ e ∈ o.paths, Usable (o.pathsBase.getD root) e a := by
  cases options with
  | none => simp [declared]
  | some o => simp only [declared, List.mem_filterMap, alias?_eq_some_iff, Option.mem_some_iff,
    exists_eq_left']

theorem before_trans (a b c : Alias) (hab : before a b = true) (hbc : before b c = true) :
    before a c = true := by
  simp only [before, Bool.or_eq_true, Bool.and_eq_true, decide_eq_true_eq] at *
  rcases hab with hab | ⟨hab, hle⟩ <;> rcases hbc with hbc | ⟨hbc, hle'⟩
  · left; omega
  · left; omega
  · left; omega
  · exact .inr ⟨by omega, le_trans hle hle'⟩

theorem before_total (a b : Alias) : (before a b || before b a) = true := by
  simp only [before, Bool.or_eq_true, Bool.and_eq_true, decide_eq_true_eq]
  rcases Nat.lt_trichotomy a.name.utf8ByteSize b.name.utf8ByteSize with hlt | heq | hlt
  · exact .inr (.inl hlt)
  · exact (le_total a.name b.name).imp (fun h => .inr ⟨heq.symm, h⟩) fun h => .inr ⟨heq, h⟩
  · exact .inl (.inl hlt)

theorem aliases_ofOptions :
    (ofOptions root options).aliases = (choices root options).mergeSort before := by
  have hdeclared : declared root options = [] ↔ (declared root options).isEmpty = true :=
    List.isEmpty_iff.symm
  simp only [choices, hdeclared]
  cases options <;> rfl

/-- Aliases of one name keep their order. -/
theorem filter_mergeSort (l : List Alias) (name : String) :
    (l.mergeSort before).filter (·.name == name) = l.filter (·.name == name) := by
  have hsorted : (l.filter (·.name == name)).Pairwise fun a b => before a b = true := by
    apply List.pairwise_of_forall_mem_list
    intro a ha b hb
    have hname : a.name = b.name := by
      rw [beq_iff_eq.1 (List.mem_filter.1 ha).2, beq_iff_eq.1 (List.mem_filter.1 hb).2]
    simp [before, hname]
  have hsub := (List.sublist_mergeSort before_trans before_total hsorted List.filter_sublist).filter
    (·.name == name)
  simp only [List.filter_filter, Bool.and_self] at hsub
  exact (hsub.eq_of_length ((List.mergeSort_perm l before).filter _).length_eq.symm).symm

/-- What goes on behind an alias, as a text. -/
theorem toList_below (name rest : String) :
    (name ++ "/" ++ rest).toList = name.toList ++ '/' :: rest.toList := by
  simp

theorem below_ne (name rest : String) : name ++ "/" ++ rest ≠ name := by
  intro he
  have hlength := congrArg List.length (congrArg String.toList he)
  rw [toList_below, List.length_append, List.length_cons] at hlength
  omega

theorem through?_eq_some_iff : through? specifier a = some p ↔ a.LeadsTo specifier p := by
  constructor
  · intro h
    unfold through? at h
    split_ifs at h with hname hslash
    · rw [hname, ← Option.some.inj h]
      exact .itself
    · obtain ⟨rest, hrest⟩ := List.isPrefixOf_iff_prefix.1 hslash
      have hspecifier : specifier = a.name ++ "/" ++ String.ofList rest := by
        apply String.toList_injective
        rw [toList_below, String.toList_ofList, ← hrest, List.append_assoc, List.singleton_append]
      have hdrop : specifier.toList.drop (a.name.toList.length + 1) = rest := by
        rw [← hrest]
        exact List.drop_left' (by simp)
      rw [hdrop] at h
      rw [hspecifier, ← Option.some.inj h]
      exact .below _
  · rintro (_ | rest)
    · simp [through?]
    · have hslash : (a.name.toList ++ ['/']).isPrefixOf (a.name ++ "/" ++ rest).toList = true := by
        rw [List.isPrefixOf_iff_prefix, toList_below]
        exact ⟨rest.toList, by simp⟩
      have hdrop :
          (a.name ++ "/" ++ rest).toList.drop (a.name.toList.length + 1) = rest.toList := by
        rw [toList_below, ← List.singleton_append, ← List.append_assoc]
        exact List.drop_left' (by simp)
      rw [through?, if_neg (below_ne a.name rest), if_pos hslash, hdrop, String.ofList_toList]

/-- Whether an alias covers a specifier is a matter of its name. -/
theorem covers_iff : a.Covers specifier ↔
    specifier = a.name ∨ ∃ rest, specifier = a.name ++ "/" ++ rest := by
  constructor
  · rintro ⟨p, _ | rest⟩
    · exact .inl rfl
    · exact .inr ⟨rest, rfl⟩
  · rintro (rfl | ⟨rest, rfl⟩)
    · exact ⟨_, .itself⟩
    · exact ⟨_, .below rest⟩

theorem prefix_of_covers (h : a.Covers specifier) : a.name.toList <+: specifier.toList := by
  rcases covers_iff.1 h with rfl | ⟨rest, rfl⟩
  · exact List.prefix_refl _
  · rw [toList_below]
    exact List.prefix_append _ _

/-- Of the aliases that cover a specifier, those tried first have the longer names. -/
theorem length_le_of_before (ha : a.Covers specifier) (hb : b.Covers specifier)
    (h : before a b = true) :
    b.name.length ≤ a.name.length := by
  by_contra hlt
  rw [← String.length_toList, ← String.length_toList] at hlt
  obtain ⟨rest, hrest⟩ :=
    List.prefix_of_prefix_length_le (prefix_of_covers ha) (prefix_of_covers hb) (by omega)
  have hname : b.name = a.name ++ String.ofList rest := by
    apply String.toList_injective
    simp [← hrest]
  have hne : String.ofList rest ≠ "" := by
    intro he
    apply hlt
    rw [hname, he, String.append_empty]
  have hsize : b.name.utf8ByteSize ≤ a.name.utf8ByteSize := by
    simp only [before, Bool.or_eq_true, Bool.and_eq_true, decide_eq_true_eq] at h
    omega
  rw [hname, String.utf8ByteSize_append] at hsize
  apply hne
  rw [← String.utf8ByteSize_eq_zero_iff]
  omega

theorem Decides.mem (h : Decides l specifier a) : a ∈ l := List.mem_of_find?_eq_some h.first

/-- At most one alias decides. -/
theorem Decides.unique (h : Decides l specifier a) (k : Decides l specifier b) : a = b := by
  have hlength : a.name.toList.length = b.name.toList.length := by
    have hab := h.longest b k.mem k.covers
    have hba := k.longest a h.mem h.covers
    rw [String.length_toList, String.length_toList]
    omega
  have hname : a.name = b.name := by
    apply String.toList_injective
    have hstart :=
      List.prefix_of_prefix_length_le (prefix_of_covers h.covers) (prefix_of_covers k.covers)
      hlength.le
    exact hstart.eq_of_length hlength
  have hfirst := h.first
  rw [hname, k.first] at hfirst
  exact (Option.some.inj hfirst).symm

/-- The first alias to fit is the one that decides. -/
theorem exists_decides (h : (l.mergeSort before).findSome? (through? specifier) = some p) :
    ∃ a, Decides l specifier a ∧ a.LeadsTo specifier p := by
  obtain ⟨front, a, back, hsorted, ha, hfront⟩ := List.findSome?_eq_some_iff.1 h
  have hleads := through?_eq_some_iff.1 ha
  have hcovers : a.Covers specifier := ⟨p, hleads⟩
  have hmisses : ∀ b ∈ front, ¬ b.Covers specifier := by
    intro b hb ⟨q, hq⟩
    rw [← through?_eq_some_iff, hfront b hb] at hq
    cases hq
  refine ⟨a, ⟨?first, hcovers, ?longest⟩, hleads⟩
  case first =>
    rw [← List.head?_filter, ← filter_mergeSort, List.head?_filter, hsorted, List.find?_append]
    have hnone : front.find? (·.name == a.name) = none := by
      rw [List.find?_eq_none]
      intro b hb hname
      apply hmisses b hb
      rwa [covers_iff, beq_iff_eq.1 hname, ← covers_iff]
    simp [hnone]
  case longest =>
    intro b hb hbcovers
    have hpairwise := List.pairwise_mergeSort before_trans before_total l
    have hmem : b ∈ l.mergeSort before := List.mem_mergeSort.2 hb
    rw [hsorted] at hpairwise hmem
    rcases List.mem_append.1 hmem with hmem | hmem
    · exact absurd hbcovers (hmisses b hmem)
    · rcases List.mem_cons.1 hmem with rfl | hmem
      · exact le_rfl
      · have hbefore := List.rel_of_pairwise_cons (List.pairwise_append.1 hpairwise).2.1 hmem
        exact length_le_of_before hcovers hbcovers hbefore

theorem findSome?_eq_none_iff :
    (l.mergeSort before).findSome? (through? specifier) = none ↔ ∀ a ∈ l, ¬ a.Covers specifier := by
  rw [List.findSome?_eq_none_iff]
  constructor
  · rintro h a ha ⟨p, hp⟩
    rw [← through?_eq_some_iff, h a (List.mem_mergeSort.2 ha)] at hp
    cases hp
  · intro h a ha
    by_contra hne
    obtain ⟨p, hp⟩ := Option.ne_none_iff_exists'.1 hne
    exact h a (List.mem_mergeSort.1 ha) ⟨p, through?_eq_some_iff.1 hp⟩

theorem findSome?_eq_some_iff : (l.mergeSort before).findSome? (through? specifier) = some p ↔
    ∃ a, Decides l specifier a ∧ a.LeadsTo specifier p := by
  refine ⟨exists_decides, ?_⟩
  rintro ⟨a, hdecides, hleads⟩
  cases hfound : (l.mergeSort before).findSome? (through? specifier) with
  | none => exact absurd hdecides.covers (findSome?_eq_none_iff.1 hfound a hdecides.mem)
  | some q =>
    obtain ⟨b, hb, hq⟩ := exists_decides hfound
    obtain rfl := hb.unique hdecides
    rw [← through?_eq_some_iff] at hq hleads
    rw [← hq, hleads]

end Resolver

namespace AliasTable

/-- The entries stand in the order of their patterns, each pattern once. -/
def InOrder (table : AliasTable) : Prop := table.Pairwise fun e f => e.1 < f.1

variable {table : AliasTable} {key : String} {targets : List String}

theorem fst_of_mem_insert {e : String × List String} (h : e ∈ table.insert key targets) :
    e.1 = key ∨ ∃ f ∈ table, f.1 = e.1 := by
  induction table with
  | nil =>
    rw [List.mem_singleton.1 h]
    exact .inl rfl
  | cons f table ih =>
    unfold insert at h
    split_ifs at h with heq hlt
    · rcases List.mem_cons.1 h with rfl | h
      · exact .inr ⟨f, List.mem_cons_self, rfl⟩
      · exact .inr ⟨e, List.mem_cons_of_mem f h, rfl⟩
    · rcases List.mem_cons.1 h with rfl | h
      · exact .inl rfl
      · exact .inr ⟨e, h, rfl⟩
    · rcases List.mem_cons.1 h with rfl | h
      · exact .inr ⟨_, List.mem_cons_self, rfl⟩
      · exact (ih h).imp_right fun ⟨g, hg, he⟩ => ⟨g, List.mem_cons_of_mem f hg, he⟩

theorem InOrder.insert (h : table.InOrder) : (table.insert key targets).InOrder := by
  induction table with
  | nil => exact List.pairwise_singleton _ _
  | cons f table ih =>
    obtain ⟨hf, htable⟩ := List.pairwise_cons.1 h
    unfold AliasTable.insert
    split_ifs with heq hlt
    · exact List.pairwise_cons.2 ⟨hf, htable⟩
    · refine List.pairwise_cons.2 ⟨?_, h⟩
      intro e he
      rcases List.mem_cons.1 he with rfl | he
      · exact hlt
      · exact lt_trans hlt (hf e he)
    · refine List.pairwise_cons.2 ⟨?_, ih htable⟩
      intro e he
      rcases fst_of_mem_insert he with hkey | ⟨g, hg, hkey⟩
      · rw [hkey]
        exact lt_of_le_of_ne (not_lt.1 hlt) (Ne.symm heq)
      · rw [← hkey]
        exact hf g hg

theorem inOrder_readPaths {json : Json} (h : CompilerOptions.Declared.readPaths json = some table) :
    table.InOrder := by
  cases json with
  | object entries =>
    rw [CompilerOptions.Declared.readPaths] at h
    have hstart : InOrder [] := List.Pairwise.nil
    generalize ([] : AliasTable) = read at h hstart
    induction entries generalizing read with
    | nil =>
      obtain rfl := Option.some.inj h
      exact hstart
    | cons e entries ih =>
      rw [List.foldlM_cons, Option.bind_eq_bind, Option.bind_eq_some_iff] at h
      obtain ⟨next, hnext, h⟩ := h
      simp only [Option.bind_eq_bind, Option.bind_eq_some_iff, Option.pure_def,
        Option.some.injEq] at hnext
      obtain ⟨key, -, targets, -, rfl⟩ := hnext
      exact ih _ h hstart.insert
  | _ => cases h

end AliasTable

namespace Resolver

variable {source : Path}

/-- A name that is not relative goes through the longest alias that it is or goes on behind with a
slash, the first one of its name, and leads nowhere if there is none. The aliases are the declared
ones, which the usable patterns of the table give in their order; without a usable pattern `@`
stands for `src`. -/
theorem candidate?_takesLongest (root : Path) (options : Option CompilerOptions) (source : Path)
    (h : specifier.toList.head? ≠ some '.') :
    (∀ p, (ofOptions root options).candidate? specifier source = some p ↔
      ∃ a, Decides (choices root options) specifier a ∧ a.LeadsTo specifier p) ∧
    ((ofOptions root options).candidate? specifier source = none ↔
      ∀ a ∈ choices root options, ¬ a.Covers specifier) ∧
    (∀ a, a ∈ choices root options ↔
      a ∈ declared root options ∨ declared root options = [] ∧ a = ⟨"@", root.join "src"⟩) ∧
    (∀ a, a ∈ declared root options ↔
      ∃ o ∈ options, ∃ e ∈ o.paths, Usable (o.pathsBase.getD root) e a) ∧
    ∀ json table, CompilerOptions.Declared.readPaths json = some table → table.InOrder := by
  have hcandidate : (ofOptions root options).candidate? specifier source =
      ((choices root options).mergeSort before).findSome? (through? specifier) := by
    rw [candidate?, if_neg (by simpa using h), aliases_ofOptions]
  refine ⟨?found, ?lost, ?choices, fun a => mem_declared_iff,
    fun json table => AliasTable.inOrder_readPaths⟩
  case found =>
    intro p
    rw [hcandidate, findSome?_eq_some_iff]
  case lost => rw [hcandidate, findSome?_eq_none_iff]
  case choices =>
    intro a
    unfold choices
    split_ifs with hnone <;> simp [hnone]

def overlapping : CompilerOptions :=
  { CompilerOptions.none with
    paths := [("@/*", ["src/*"]), ("@ui", ["lib/../ui"]), ("@ui/*", ["lib/*"])]
    pathsBase := some ⟨"/proj"⟩ }

theorem candidate?_of_overlapping : "@ui/Card".toList.head? ≠ some '.' ∧
    (ofOptions ⟨"/"⟩ (some overlapping)).candidate? "@ui/Card" ⟨"/proj/a.ts"⟩ =
      some ⟨"/proj/ui/Card"⟩ := by
  have hrelative : "@ui/Card".toList.head? ≠ some '.' := by decide
  refine ⟨hrelative,
    ((candidate?_takesLongest ⟨"/"⟩ (some overlapping) ⟨"/proj/a.ts"⟩ hrelative).1 _).2 ?_⟩
  have hlongest : ∀ b ∈ choices ⟨"/"⟩ (some overlapping), b.name.length ≤ "@ui".length := by
    decide +kernel
  exact ⟨⟨"@ui", ⟨"/proj/ui"⟩⟩,
    ⟨by decide +kernel, ⟨_, .below "Card"⟩, fun b hb _ => hlongest b hb⟩, .below "Card"⟩

end Resolver
end QualityGate
