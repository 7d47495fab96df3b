import QualityGate.Proofs.Path.Order
import Mathlib.Data.List.Chain
import Mathlib.Data.List.Count
import Mathlib.Logic.Relation

/-!
Import graphs as relations between files: one file imports another, and walks follow imports. The
searches of a graph visit files of a finite list, and what they have not seen of it bounds how far
they can still go.
-/
namespace QualityGate.Graph

open Relation

variable (g : Graph)

/-- The files that a file imports. -/
def importsOf (a : FileId) : List FileId :=
  ids (((g.rows.find? fun row => row.1.components == a).map (·.2)).getD [])

/-- The first file imports the second one. -/
def Edge (a b : FileId) : Prop := b ∈ g.importsOf a

instance (a b : FileId) : Decidable (g.Edge a b) := inferInstanceAs (Decidable (b ∈ _))

def nodes : List FileId := ids g.files ++ ids (g.rows.flatMap (·.2))

variable {g}

theorem edge_components {p : Path} {b : FileId} :
    g.Edge p.components b ↔ ∃ t ∈ g.imports p, t.components = b := mem_ids

theorem edge_of_mem_imports {p t : Path} (h : t ∈ g.imports p) : g.Edge p.components t.components :=
  mem_ids_of_mem h

/-- What a file imports stands in the row of the file. -/
theorem importsOf_eq_nil_or_row (a : FileId) :
    g.importsOf a = [] ∨ ∃ row ∈ g.rows, row.1.components = a ∧ g.importsOf a = ids row.2 := by
  unfold importsOf
  cases h : g.rows.find? fun row => row.1.components == a with
  | none => exact .inl rfl
  | some row =>
    exact .inr ⟨row, List.mem_of_find?_eq_some h, by simpa using List.find?_some h, rfl⟩

theorem Edge.source_mem {a b : FileId} (h : g.Edge a b) : a ∈ ids g.files := by
  rcases importsOf_eq_nil_or_row (g := g) a with hn | ⟨row, hrow, rfl, -⟩
  · simp [Edge, hn] at h
  · exact mem_ids_of_mem (List.mem_map_of_mem hrow)

theorem Edge.target_mem {a b : FileId} (h : g.Edge a b) :
    b ∈ ids (g.rows.flatMap (·.2)) := by
  rcases importsOf_eq_nil_or_row (g := g) a with hn | ⟨row, hrow, -, he⟩
  · simp [Edge, hn] at h
  · rw [Edge, he] at h
    obtain ⟨t, ht, rfl⟩ := mem_ids.1 h
    exact mem_ids_of_mem (List.mem_flatMap.2 ⟨row, hrow, ht⟩)

theorem Edge.source_mem_nodes {a b : FileId} (h : g.Edge a b) : a ∈ g.nodes :=
  List.mem_append_left _ h.source_mem

theorem Edge.target_mem_nodes {a b : FileId} (h : g.Edge a b) : b ∈ g.nodes :=
  List.mem_append_right _ h.target_mem

theorem isSome_file? {p : Path} : (g.file? p).isSome ↔ p.components ∈ ids g.files := by
  simp [file?, Path.same_iff, mem_ids]

theorem components_of_file? {p q : Path} (h : g.file? p = some q) : q.components = p.components :=
  Path.same_iff.1 (by simpa using List.find?_some h)

variable (g) in
/-- How many entries of the graph name files outside `seen`. -/
def unseen (seen : List FileId) : Nat := g.nodes.countP (· ∉ seen)

theorem nodes_length : g.nodes.length + 1 = g.bound := by
  simp [nodes, bound, fileCount, edgeCount, files]

theorem unseen_lt_bound (seen : List FileId) : g.unseen seen < g.bound := by
  rw [← nodes_length]
  exact Nat.lt_succ_of_le List.countP_le_length

theorem unseen_anti {seen more : List FileId} (h : seen ⊆ more) : g.unseen more ≤ g.unseen seen :=
  List.countP_mono_left fun a _ ha => by
    simp only [decide_eq_true_eq] at ha ⊢
    exact fun hs => ha (h hs)

/-- A search that sees one more file has less to see. -/
theorem unseen_cons_lt {a : FileId} {seen : List FileId} (ha : a ∈ g.nodes) (hs : a ∉ seen) :
    g.unseen (a :: seen) < g.unseen seen := by
  obtain ⟨before, after, he⟩ := List.append_of_mem ha
  have hle (l : List FileId) : l.countP (· ∉ a :: seen) ≤ l.countP (· ∉ seen) :=
    List.countP_mono_left fun b _ hb => by
      simp only [decide_eq_true_eq, List.mem_cons, not_or] at hb ⊢
      exact hb.2
  have hb := hle before
  have haf := hle after
  simp only [unseen, he, List.countP_append, List.countP_cons]
  simp [hs] at hb haf ⊢
  omega

theorem exists_isChain_of_transGen {α : Type*} {E : α → α → Prop} {a b : α} (h : TransGen E a b) :
    ∃ inner, (a :: inner ++ [b]).IsChain E := by
  induction h with
  | single hab => exact ⟨[], by simpa using hab⟩
  | @tail b c _ hbc ih =>
    obtain ⟨inner, hchain⟩ := ih
    refine ⟨inner ++ [b], ?_⟩
    rw [← List.cons_append, List.isChain_append, List.getLast?_concat]
    exact ⟨hchain, .singleton c, by simpa using hbc⟩

/-- From the first of a list of steps every member is reached, and from every member the last one.
-/
theorem reaches_of_isChain {α : Type*} {E : α → α → Prop} {a b : α} {l : List α}
    (h : (a :: l).IsChain E) (hb : b ∈ a :: l) : ReflTransGen E a b := by
  induction l generalizing a with
  | nil =>
    rw [List.mem_singleton] at hb
    exact hb ▸ .refl
  | cons c l ih =>
    rcases List.mem_cons.1 hb with rfl | hb
    · exact .refl
    · rw [List.isChain_cons_cons] at h
      exact .head h.1 (ih h.2 hb)

theorem reaches_last_of_isChain {α : Type*} {E : α → α → Prop} {a b : α} {l : List α}
    (h : (l ++ [b]).IsChain E) (ha : a ∈ l ++ [b]) : ReflTransGen E a b := by
  induction l with
  | nil =>
    rw [List.nil_append, List.mem_singleton] at ha
    exact ha ▸ .refl
  | cons c l ih =>
    rcases List.mem_cons.1 ha with rfl | ha
    · exact reaches_of_isChain h (by simp)
    · exact ih (List.isChain_of_isChain_cons h) ha

/-- A walk of at least one step. -/
theorem transGen_of_isChain {α : Type*} {E : α → α → Prop} {a b : α} {l : List α}
    (h : (a :: l ++ [b]).IsChain E) : TransGen E a b := by
  cases l with
  | nil => exact .single (by simpa using h)
  | cons c l =>
    rw [List.cons_append, List.cons_append, List.isChain_cons_cons] at h
    exact .head' h.1 (reaches_of_isChain h.2 (by simp))

/-- Every member of a list of steps that ends where it began reaches itself. -/
theorem transGen_self_of_isChain {α : Type*} {E : α → α → Prop} {a u : α} {l : List α}
    (h : (a :: l ++ [a]).IsChain E) (hu : u ∈ a :: l ++ [a]) : TransGen E u u :=
  (TransGen.trans_right (reaches_last_of_isChain h hu) (transGen_of_isChain h)).trans_left
    (reaches_of_isChain h hu)

end QualityGate.Graph
