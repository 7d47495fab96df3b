import QualityGate.Proofs.Path.Walk
import Mathlib.Algebra.Group.Nat.Even

/-!
Normal forms of paths. Read from left to right, a path is a number of steps up that found nothing to
leave and the names behind them. The normal form of a relative path keeps all of these steps, that
of an absolute path keeps none. `normalize` writes such a step down as if it were a name, so the
next one takes it back: of the steps up it keeps one if their number is odd.
-/
namespace QualityGate

namespace Component

def IsStep : Component → Prop
  | .up => True
  | .name n => Path.isName n = true
  | _ => False

variable {c : Component}

theorem IsStep.slash_not_mem (h : c.IsStep) : '/' ∉ c.text.toList := by
  cases c with
  | up => simp [text]
  | name n => exact (Path.isName_iff.1 h).2.2
  | root => cases h
  | here => cases h

theorem IsStep.isEmptyPiece_text (h : c.IsStep) : Path.isEmptyPiece c.text.toList = false := by
  cases c with
  | up => rfl
  | name n => exact (Path.isName_iff.1 h).1
  | root => cases h
  | here => cases h

theorem IsStep.componentOf_text (h : c.IsStep) : Path.componentOf c.text.toList = c := by
  cases c with
  | up => rfl
  | name n =>
    have hn : n.toList ≠ ['.', '.'] := by
      intro he
      apply (Path.isName_iff.1 h).2.1
      apply String.toList_injective
      simpa using he
    simp [Path.componentOf, text, hn]
  | root => cases h
  | here => cases h

end Component

namespace Path

/-- What is left of a path that was followed. -/
structure Trail where
  /-- The steps up that found nothing to leave. -/
  climbs : Nat
  names : List String
  deriving DecidableEq, Repr

namespace Trail

def start : Trail := ⟨0, []⟩

/-- A step up leaves the nearest name. -/
def follow (t : Trail) : Component → Trail
  | .root | .here => t
  | .up =>
    if t.names.isEmpty then { t with climbs := t.climbs + 1 }
    else { t with names := t.names.dropLast }
  | .name n => { t with names := t.names ++ [n] }

/-- Components with `ups` steps up between `lead` and the names. -/
def spelled (t : Trail) (lead : List Component) (ups : Nat) : List Component :=
  lead ++ List.replicate ups .up ++ t.names.map .name

end Trail

def trail (p : Path) : Trail := p.components.foldl Trail.follow .start

def lead (p : Path) : List Component := if p.isAbsolute then [.root] else []

/-- The components of the normal form: steps up that find nothing to leave stay in a relative path
and disappear at the top of the disk. -/
def lexical (p : Path) : List Component :=
  p.trail.spelled p.lead (if p.isAbsolute then 0 else p.trail.climbs)

variable {p : Path} {t : Trail} {cs : List Component} {n : String}

theorem named_steps (h : ∀ c ∈ cs, c.IsStep) : named (cs.map fun c => c.text.toList) = cs := by
  induction cs with
  | nil => rfl
  | cons c cs ih =>
    obtain ⟨hc, hcs⟩ := List.forall_mem_cons.1 h
    rw [List.map_cons, ← List.singleton_append, named_append, named_singleton hc.isEmptyPiece_text,
      hc.componentOf_text, ih hcs, List.singleton_append]

theorem split_steps (hne : cs ≠ []) (h : ∀ c ∈ cs, c.IsStep) :
    split ("/".intercalate (cs.map Component.text)).toList = cs.map fun c => c.text.toList := by
  have hslash : ∀ s ∈ cs.map fun c => c.text.toList, '/' ∉ s := by
    intro s hs
    obtain ⟨c, hc, rfl⟩ := List.mem_map.1 hs
    exact (h c hc).slash_not_mem
  rw [split_eq_splitOn, String.toList_intercalate, List.map_map]
  exact List.splitOn_intercalate _ hslash (by simpa using hne)

/-- Steps from the top of the disk are read back from their text. -/
theorem components_ofComponents_root (h : ∀ c ∈ cs, c.IsStep) :
    (ofComponents (.root :: cs)).components = .root :: cs := by
  have htext : (ofComponents (.root :: cs)).text.toList =
      '/' :: ("/".intercalate (cs.map Component.text)).toList := by
    simp [ofComponents]
  rw [components_of_absolute htext]
  by_cases hne : cs = []
  · subst hne
    rfl
  · rw [split_steps hne h, named_steps h]

theorem ofComponents_steps (h : ∀ c ∈ cs, c.IsStep) :
    ofComponents cs = ⟨"/".intercalate (cs.map Component.text)⟩ := by
  unfold ofComponents
  split
  · exact absurd (h .root List.mem_cons_self) id
  · rfl

/-- A path that begins with a step of its own. -/
theorem components_of_relative (hp : p.isAbsolute = false) (hdot : p.pieces.head? ≠ some ['.']) :
    p.components = named p.pieces := by
  rw [components, if_neg (by simp [hp])]
  split
  · next rest hpieces => simp [hpieces] at hdot
  · rfl

/-- Steps from elsewhere are read back from their text. -/
theorem components_ofComponents (h : ∀ c ∈ cs, c.IsStep) : (ofComponents cs).components = cs := by
  rw [ofComponents_steps h]
  by_cases hne : cs = []
  · subst hne
    rfl
  have hsplit := split_steps hne h
  generalize "/".intercalate (cs.map Component.text) = text at hsplit ⊢
  have hpiece : ∀ s ∈ (split text.toList).head?, isEmptyPiece s = false := by
    intro s hs
    obtain ⟨c, hc, rfl⟩ := List.mem_map.1 (hsplit ▸ List.mem_of_mem_head? hs)
    exact (h c hc).isEmptyPiece_text
  have hslash : ∀ rest, text.toList ≠ '/' :: rest := by
    intro rest he
    simp [he, split, isEmptyPiece] at hpiece
  have hpieces : (⟨text⟩ : Path).pieces = split text.toList := by
    unfold pieces
    split
    · next rest he => exact absurd he (hslash rest)
    · rfl
  have habsolute : (⟨text⟩ : Path).isAbsolute = false := by
    by_contra hp
    obtain ⟨rest, he⟩ := isAbsolute_iff.1 (Bool.not_eq_false _ ▸ hp)
    exact hslash rest he
  rw [components_of_relative habsolute, hpieces, hsplit, named_steps h]
  intro hdot
  simpa [isEmptyPiece] using hpiece ['.'] (hpieces ▸ hdot)

theorem isStep_of_mem_named {text : List Char} {c : Component} (h : c ∈ named (split text)) :
    c.IsStep := by
  cases c with
  | root =>
    obtain ⟨s, -, hs⟩ := List.mem_map.1 h
    exact absurd hs (componentOf_ne_root s)
  | here =>
    obtain ⟨s, -, hs⟩ := List.mem_map.1 h
    unfold componentOf at hs
    split_ifs at hs
  | up => trivial
  | name n => exact isName_of_name_mem h

/-- Behind its lead, a path consists of steps, with at most a point in front of them. -/
theorem exists_components (p : Path) :
    ∃ cs, p.components = p.lead ++ cs ∧ ∀ c ∈ cs, c = .here ∨ c.IsStep := by
  obtain ⟨text, htext⟩ : ∃ text, p.pieces = split text := by
    unfold pieces
    split <;> exact ⟨_, rfl⟩
  by_cases hp : p.isAbsolute = true
  · refine ⟨named p.pieces, ?_, ?_⟩
    · rw [components_of_isAbsolute hp, lead, if_pos hp, List.singleton_append]
    · intro c hc
      exact .inr (isStep_of_mem_named (htext ▸ hc))
  · refine ⟨p.components, by simp [lead, hp], ?_⟩
    intro c hc
    rw [components, if_neg hp, htext] at hc
    split at hc
    · next rest hpieces =>
      apply (List.mem_cons.1 hc).imp_right
      intro hc
      have hmem : c ∈ named (split text) := by
        rw [hpieces, ← List.singleton_append, named_append]
        exact List.mem_append_right _ hc
      exact isStep_of_mem_named hmem
    · exact .inr (isStep_of_mem_named hc)

/-- One step keeps the shape of what is written down: of the steps up that found nothing to leave,
the last one is there if their number is odd. -/
theorem step_spelled {lead : List Component} (hlead : lead = [] ∨ lead = [.root]) (t : Trail)
    {c : Component} (hc : c ≠ .root) : normalize.step (t.spelled lead (t.climbs % 2)) c =
      (t.follow c).spelled lead ((t.follow c).climbs % 2) := by
  cases c with
  | root => exact absurd rfl hc
  | here => rfl
  | name n => simp [normalize.step, Trail.follow, Trail.spelled]
  | up =>
    rcases List.eq_nil_or_concat' t.names with hnil | ⟨front, n, hnames⟩
    · have hfollow : t.follow .up = ⟨t.climbs + 1, []⟩ := by simp [Trail.follow, hnil]
      rw [hfollow]
      rcases Nat.mod_two_eq_zero_or_one t.climbs with heven | hodd
      · have hnext : (t.climbs + 1) % 2 = 1 := by omega
        rcases hlead with rfl | rfl <;> simp [normalize.step, Trail.spelled, hnil, heven, hnext]
      · have hnext : (t.climbs + 1) % 2 = 0 := by omega
        rcases hlead with rfl | rfl <;> simp [normalize.step, Trail.spelled, hnil, hodd, hnext]
    · have hfollow : t.follow .up = ⟨t.climbs, front⟩ := by simp [Trail.follow, hnames]
      have hlast : t.spelled lead (t.climbs % 2) =
          lead ++ List.replicate (t.climbs % 2) .up ++ front.map .name ++ [.name n] := by
        simp [Trail.spelled, hnames]
      have hname : lead ++ List.replicate (t.climbs % 2) .up ++ front.map .name ++ [.name n] ≠
          [.root] := by
        intro he
        simpa using congrArg List.getLast? he
      rw [hfollow, hlast, normalize.step, if_neg (by simpa using hname), List.dropLast_concat]
      rfl

theorem foldl_step_spelled {lead : List Component} (hlead : lead = [] ∨ lead = [.root]) (t : Trail)
    (h : ∀ c ∈ cs, c ≠ .root) : cs.foldl normalize.step (t.spelled lead (t.climbs % 2)) =
      (cs.foldl Trail.follow t).spelled lead ((cs.foldl Trail.follow t).climbs % 2) := by
  induction cs generalizing t with
  | nil => rfl
  | cons c cs ih =>
    obtain ⟨hc, hcs⟩ := List.forall_mem_cons.1 h
    rw [List.foldl_cons, step_spelled hlead t hc, ih (t.follow c) hcs, List.foldl_cons]

theorem isName_foldl_follow (h : ∀ n ∈ t.names, isName n = true)
    (hcs : ∀ c ∈ cs, c = .here ∨ c.IsStep) :
    ∀ n ∈ (cs.foldl Trail.follow t).names, isName n = true := by
  induction cs generalizing t with
  | nil => exact h
  | cons c cs ih =>
    obtain ⟨hc, hcs⟩ := List.forall_mem_cons.1 hcs
    refine ih ?_ hcs
    cases c with
    | root => simp [Component.IsStep] at hc
    | here => exact h
    | up =>
      unfold Trail.follow
      dsimp only
      split_ifs
      · exact h
      · intro n hn
        exact h n (List.dropLast_subset _ hn)
    | name n =>
      have hn : isName n = true := hc.resolve_left (by simp)
      intro m hm
      rcases List.mem_append.1 hm with hm | hm
      · exact h m hm
      · rw [List.mem_singleton.1 hm]
        exact hn

theorem lead_cases (p : Path) : p.lead = [] ∨ p.lead = [.root] := by
  unfold lead
  split_ifs
  · exact .inr rfl
  · exact .inl rfl

/-- The text of a trail is read back. -/
theorem components_spelled (h : ∀ n ∈ t.names, isName n = true) (p : Path) (ups : Nat) :
    (ofComponents (t.spelled p.lead ups)).components = t.spelled p.lead ups := by
  have hsteps : ∀ c ∈ List.replicate ups Component.up ++ t.names.map Component.name, c.IsStep := by
    intro c hc
    rcases List.mem_append.1 hc with hc | hc
    · rw [List.eq_of_mem_replicate hc]
      trivial
    · obtain ⟨n, hn, rfl⟩ := List.mem_map.1 hc
      exact h n hn
  rw [Trail.spelled, List.append_assoc]
  rcases lead_cases p with hlead | hlead
  · rw [hlead]
    exact components_ofComponents hsteps
  · rw [hlead]
    exact components_ofComponents_root hsteps

/-- The parts of a path: its lead, which begins the output as it is, and what its trail is made
of. -/
theorem exists_trail (p : Path) : ∃ cs : List Component, (∀ c ∈ cs, c = .here ∨ c.IsStep) ∧
    p.trail = cs.foldl Trail.follow .start ∧
    p.components.foldl normalize.step [] =
      cs.foldl normalize.step (Trail.start.spelled p.lead 0) := by
  obtain ⟨cs, hcomponents, hcs⟩ := exists_components p
  refine ⟨cs, hcs, ?_, ?_⟩
  · rw [trail, hcomponents]
    rcases lead_cases p with hlead | hlead <;> simp [hlead, Trail.follow]
  · rw [hcomponents]
    rcases lead_cases p with hlead | hlead <;>
      simp [hlead, normalize.step, Trail.spelled, Trail.start]

theorem isName_trail (p : Path) : ∀ n ∈ p.trail.names, isName n = true := by
  obtain ⟨cs, hcs, htrail, -⟩ := exists_trail p
  rw [htrail]
  exact isName_foldl_follow (by simp [Trail.start]) hcs

/-- A path that is followed keeps one of its steps up that found nothing to leave, or none of
them. -/
theorem components_normalize (p : Path) :
    p.normalize.components = p.trail.spelled p.lead (p.trail.climbs % 2) := by
  obtain ⟨cs, hcs, htrail, hfold⟩ := exists_trail p
  have hroot : ∀ c ∈ cs, c ≠ .root := by
    intro c hc he
    simpa [he, Component.IsStep] using hcs c hc
  have hout := foldl_step_spelled (lead_cases p) .start hroot
  rw [← htrail] at hout
  rw [normalize, hfold, show 0 = Trail.start.climbs % 2 from rfl, hout]
  exact components_spelled (isName_trail p) p _

theorem components_lexical (p : Path) : (ofComponents p.lexical).components = p.lexical :=
  components_spelled (isName_trail p) p _

theorem spelled_inj {lead : List Component} {k l : Nat} :
    t.spelled lead k = t.spelled lead l ↔ k = l := by
  simp [Trail.spelled]

/-- `normalize` leads along the names of the normal form, with at most one step up in front of them.
It gives the normal form of a relative path that climbs at most once above its start, and of an
absolute path that climbs an even number of times above the top of the disk. -/
theorem normalize_lexical_iff (p : Path) :
    p.normalize.components = p.trail.spelled p.lead (p.trail.climbs % 2) ∧
      (ofComponents p.lexical).components = p.lexical ∧
      (p.normalize.components = p.lexical ↔
        if p.isAbsolute then Even p.trail.climbs else p.trail.climbs ≤ 1) := by
  refine ⟨components_normalize p, components_lexical p, ?_⟩
  rw [components_normalize, lexical, spelled_inj]
  split_ifs
  · rw [Nat.even_iff]
  · omega

/-- Two steps up from the start, and the second takes the first one back. -/
theorem normalize_twoUp : (⟨"../../a"⟩ : Path).lexical = [.up, .up, .name "a"] ∧
    (⟨"../../a"⟩ : Path).normalize = ⟨"a"⟩ := by
  decide +kernel

end Path
end QualityGate
