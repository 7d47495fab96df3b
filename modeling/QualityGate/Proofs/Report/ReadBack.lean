import QualityGate.Proofs.Json.Reading
import QualityGate.Proofs.Report.Renderings

/-!
Violations read back. The document of a report is a document by the grammar, and who reads its list
of violations finds the violations of the report, each with all its texts and numbers, and with no
key for what it does not have.
-/
namespace QualityGate

/-- The digits that are written for a number denote it. -/
theorem Text.number?_toString (n : ℕ) : number? (toString n).toList = some n := by
  have hdigits : (Nat.toDigits 10 n).all Char.isDigit = true := List.all_eq_true.2 fun c hc =>
    Nat.isDigit_of_mem_toDigits (by decide) (by decide) hc
  have hempty : (Nat.toDigits 10 n).isEmpty = false := by simp [Nat.toDigits_ne_nil]
  rw [Nat.toString_eq_ofList_toDigits, String.toList_ofList, number?, hempty, hdigits]
  exact congrArg some (Nat.ofDigitChars_toDigits (by decide) (by decide))

namespace Json

theorem nat?_nat {n : ℕ} (h : n < 2 ^ 64) : nat? (.nat n) = some n := by
  rw [nat, nat?, Text.number?_toString]
  simpa [Option.filter] using h

theorem get?_cons (e : Option String × Json) (es : Entries) (key : String) :
    get? key (.object (e :: es)) = if e.1 = some key then some e.2 else get? key (.object es) := by
  by_cases h : e.1 = some key <;> simp [get?, h]

/-- With distinct keys, a field that may be left out holds the value of its key. -/
theorem field?_eq {entries : Entries} (h : (entries.map (·.1)).Nodup) (key : String) :
    field? entries key = some ((get? key (.object entries)).bind present?) := by
  induction entries with
  | nil => rfl
  | cons e es ih =>
    obtain ⟨hfresh, hes⟩ := List.nodup_cons.1 h
    rw [get?_cons]
    split_ifs with hkey
    · have hnone : es.filter (fun e => e.1 == some key) = [] := by
        refine List.filter_eq_nil_iff.2 fun other ho heq => hfresh (List.mem_map.2 ⟨other, ho, ?_⟩)
        exact (beq_iff_eq.1 heq).trans hkey.symm
      simp [field?, hkey, hnone]
    · rw [← ih hes]
      simp [field?, hkey]

end Json

theorem Severity.ofName?_name (s : Severity) : ofName? s.name = some s := by
  cases s <;> rfl

namespace Violation

variable (v : Violation)

structure Bounded : Prop where
  line : ∀ n ∈ v.line, n < 2 ^ 64
  column : ∀ n ∈ v.column, n < 2 ^ 64

/-- The record tells each part of the violation under its key, and leaves out the keys of what the
violation does not have. -/
structure Records (record : Json) : Prop where
  rule : record.get? "rule" = some (.text v.rule)
  severity : record.get? "severity" = some (.text v.severity.name)
  message : record.get? "message" = some (.text v.message)
  line : record.get? "line" = v.line.map .nat
  column : record.get? "column" = v.column.map .nat
  file : record.get? "file" = v.file.map .text

theorem records_toJson : v.Records v.toJson := by
  obtain ⟨rule, severity, message, line, column, file⟩ := v
  cases line <;> cases column <;> cases file <;> exact ⟨rfl, rfl, rfl, rfl, rfl, rfl⟩

theorem exists_entries_toJson : ∃ entries, v.toJson = .object entries ∧
    Json.haveKeys entries = true ∧ (entries.map (·.1)).Nodup := by
  refine ⟨_, rfl, ?_, ?_⟩
  · simp [Json.haveKeys]
  · obtain ⟨rule, severity, message, line, column, file⟩ := v
    cases line <;> cases column <;> cases file <;> simp

theorem reading_bind_present? {α : Type} {read : Json → Option α} {write : α → Json} {o : Option α}
    (hpresent : ∀ a, (write a).isNull = false) (h : ∀ a ∈ o, read (write a) = some a) :
    Json.reading read ((o.map write).bind Json.present?) = some o := by
  cases o with
  | none => rfl
  | some a => simp [Json.present?, hpresent, Json.reading, h a rfl]

theorem ofValues?_parts (h : v.Bounded) :
    ofValues? (some (.text v.rule)) (some (.text v.severity.name)) (some (.text v.message))
      ((v.line.map .nat).bind Json.present?) ((v.column.map .nat).bind Json.present?)
      ((v.file.map .text).bind Json.present?) = some v := by
  have hline : Json.reading Json.nat? ((v.line.map .nat).bind Json.present?) = some v.line :=
    reading_bind_present? (fun _ => rfl) fun n hn => Json.nat?_nat (h.line n hn)
  have hcolumn : Json.reading Json.nat? ((v.column.map .nat).bind Json.present?) = some v.column :=
    reading_bind_present? (fun _ => rfl) fun n hn => Json.nat?_nat (h.column n hn)
  have hfile : Json.reading Json.text? ((v.file.map .text).bind Json.present?) = some v.file :=
    reading_bind_present? (fun _ => rfl) fun _ _ => rfl
  have hseverity : Severity.ofJson? (.text v.severity.name) = some v.severity :=
    v.severity.ofName?_name
  simp only [ofValues?, Option.bind_some, hseverity, hline, hcolumn, hfile]
  rfl

/-- A violation is read back as it was written. -/
theorem ofJson?_toJson (h : v.Bounded) : ofJson? v.toJson = some v := by
  have hrecord := v.records_toJson
  obtain ⟨entries, hentries, hkeys, hnodup⟩ := v.exists_entries_toJson
  rw [hentries] at hrecord ⊢
  simp only [ofJson?, hkeys, guard_true, Json.field?_eq hnodup, hrecord.rule, hrecord.severity,
    hrecord.message, hrecord.line, hrecord.column, hrecord.file]
  exact v.ofValues?_parts h

theorem ofJsonList?_map {vs : List Violation} (h : ∀ v ∈ vs, v.Bounded) :
    ofJsonList? (.array (vs.map toJson)) = some vs := by
  induction vs with
  | nil => rfl
  | cons v vs ih =>
    obtain ⟨hv, hvs⟩ := List.forall_mem_cons.1 h
    have hrest : (vs.map toJson).mapM ofJson? = some vs := ih hvs
    rw [ofJsonList?, List.map_cons, List.mapM_cons, ofJson?_toJson v hv, hrest]
    rfl

end Violation

namespace Report

theorem get?_violations (r : Report) (timestamp : String) : ∃ entries,
    r.toJson timestamp = .object entries ∧
      Json.field? entries "violations" = some (some (.array (r.violations.map Violation.toJson))) :=
  ⟨_, rfl, rfl⟩

/-- The text of a report is a document, and only one: who looks up its list of violations there
reads the violations of the report back, in their order, each from a record that leaves out what it
does not have. -/
theorem renderJson_reads_back (r : Report) (timestamp : String)
    (h : ∀ v ∈ r.violations, v.Bounded) :
    (∃ t, Json.Document .strict t (r.renderJson timestamp).toList) ∧
      ∀ t, Json.Document .strict t (r.renderJson timestamp).toList →
        ∃ entries records, t.value = .object entries ∧
          Json.field? entries "violations" = some (some (.array records)) ∧
          Violation.ofJsonList? (.array records) = some r.violations ∧
          List.Forall₂ Violation.Records r.violations records := by
  have hread : Json.read? (r.renderJson timestamp).toList = some (r.toJson timestamp) :=
    Json.read?_render (r.reads_toJson timestamp)
  refine ⟨?_, fun t ht => ?_⟩
  · obtain ⟨t, ht, -⟩ := Json.read?_eq_some_iff.1 hread
    exact ⟨t, ht⟩
  · have hvalue : t.value = r.toJson timestamp := Option.some.inj (ht.read.symm.trans hread)
    obtain ⟨entries, hentries, hfield⟩ := r.get?_violations timestamp
    refine ⟨entries, _, hvalue.trans hentries, hfield, Violation.ofJsonList?_map h, ?_⟩
    exact List.forall₂_map_right_iff.2 (List.forall₂_same.2 fun v _ => v.records_toJson)

def unusual : Report where
  projectDir := "C:\\\x22"
  metrics := ⟨1, 1, 0, 4, 0, .zero, .zero, ⟨1, 0, 0, 0⟩⟩
  violations :=
    [⟨"R\x22", .warning, "\\n\n\x01\x7f\u2028é😀", some (2 ^ 64 - 1), none, some "\x22a\\\tb.tsx"⟩,
     ⟨"", .error, "", none, none, none⟩]

/-- No character of it is lost. -/
theorem unusual_reads_back : ∃ t entries records,
    Json.Document .strict t (unusual.renderJson "").toList ∧ t.value = .object entries ∧
      Json.field? entries "violations" = some (some (.array records)) ∧
      Violation.ofJsonList? (.array records) = some unusual.violations := by
  have hbounded : ∀ v ∈ unusual.violations, v.Bounded :=
    List.forall_mem_cons.2 ⟨⟨by simp, by simp⟩, List.forall_mem_singleton.2 ⟨by simp, by simp⟩⟩
  obtain ⟨⟨t, ht⟩, hall⟩ := renderJson_reads_back unusual "" hbounded
  obtain ⟨entries, records, hvalue, hfield, hlist, -⟩ := hall t ht
  exact ⟨t, entries, records, ht, hvalue, hfield, hlist⟩

end Report

end QualityGate
