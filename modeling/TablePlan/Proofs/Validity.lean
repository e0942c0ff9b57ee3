import TablePlan.Proofs.Fields
import TablePlan.Proofs.Ingestion
/-! Which documents are loaded: those whose tables are all valid and differ in their names. One that
is not is refused for its first table that is invalid or has the name of an earlier one. -/
namespace TablePlan

variable {d : TableDecl} {query : Clause} {rows : List Row} {declared : Option Schema}
  {s : SchemaDecl} {schema selection : Schema}

namespace TableDecl

structure Valid (d : TableDecl) : Prop where
  formed : ∀ s, d.schema = some s → s.WellFormed
  single : d.rows = none ∨ d.query = none
  rowed : ∀ rows, d.rows = some rows →
    ∃ s, d.schema = some s ∧ ∀ row ∈ rows, row.length = s.keys.length
  selected : ∀ query, d.query = some query → ∃ derived, Schema.ofQuery query = .ok derived ∧
    ∀ s, d.schema = some s → s.pairs.Perm derived.pairs

/-- Nothing is wrong but that the query selects other fields than are declared. -/
def Mismatched (d : TableDecl) : Prop :=
  d.rows = none ∧ ∃ query s derived, d.query = some query ∧ d.schema = some s ∧ s.WellFormed ∧
    Schema.ofQuery query = .ok derived ∧ ¬ s.pairs.Perm derived.pairs

theorem Mismatched.invalid (only : d.Mismatched) : ¬ d.Valid := by
  rintro ⟨-, -, -, selected⟩
  obtain ⟨_, query, s, derived, asked, given, _, extracted, differs⟩ := only
  obtain ⟨again, same, agree⟩ := selected query asked
  cases extracted.symm.trans same
  exact differs (agree s given)

inductive Verdict (d : TableDecl) : Except Fault Table → Prop where
  | valid {t : Table} (valid : d.Valid) : Verdict d (.ok t)
  | mismatched {declared derived : Schema} (only : d.Mismatched) :
      Verdict d (.error (.schemaMismatch d.name declared derived))
  | format {cause : FormatFault} (invalid : ¬ d.Valid) (other : ¬ d.Mismatched) :
      Verdict d (.error (.format cause))

theorem Verdict.failed {fault : Fault} (format : fault.isFormat = true) (invalid : ¬ d.Valid)
    (other : ¬ d.Mismatched) : Verdict d (.error fault) := by
  unfold Fault.isFormat at format
  split at format
  · exact .format invalid other
  · cases format

inductive Read (d : TableDecl) : Option Schema → Prop where
  | undeclared (absent : d.schema = none) : Read d none
  | declared {s : SchemaDecl} {schema : Schema} (given : d.schema = some s)
      (declares : s.Declares schema) : Read d (some schema)

theorem Read.formed (read : Read d declared) : ∀ s, d.schema = some s → s.WellFormed := by
  intro s given
  cases read with
  | undeclared absent => cases absent.symm.trans given
  | declared again declares =>
    cases again.symm.trans given
    exact SchemaDecl.wellFormedExact.2 ⟨_, SchemaDecl.declaresExact.2 declares⟩

theorem declaredSchemaReads (ran : d.declaredSchema = .ok declared) : Read d declared := by
  unfold declaredSchema at ran
  split at ran
  · rename_i absent
    cases ran
    exact .undeclared absent
  · rename_i s given
    obtain ⟨schema, read, last⟩ := bindOk.1 ran
    cases last
    exact .declared given (SchemaDecl.declaresExact.1 read)

theorem declaredSchemaFails {fault : Fault} (ran : d.declaredSchema = .error fault) :
    Verdict d (.error fault) := by
  unfold declaredSchema at ran
  split at ran
  · cases ran
  · rename_i s given
    rcases bindError.1 ran with refused | ⟨_, _, last⟩
    · have ill : ¬ s.WellFormed := fun formed => by
        obtain ⟨schema, read⟩ := SchemaDecl.wellFormedExact.1 formed
        cases refused.symm.trans read
      refine .failed (SchemaDecl.declarationFails _ _ _ refused) ?_ ?_
      · exact fun valid => ill (valid.formed s given)
      · rintro ⟨_, _, other, _, _, again, formed, _⟩
        cases given.symm.trans again
        exact ill formed
    · cases last

theorem undeclaredRows (given : d.rows = some rows) (absent : d.schema = none) :
    ¬ d.Valid := fun valid => by
  obtain ⟨s, declared, _⟩ := valid.rowed rows given
  cases absent.symm.trans declared

theorem rowsUnmatched (given : d.rows = some rows) : ¬ d.Mismatched := by
  rintro ⟨rowless, _⟩
  cases given.symm.trans rowless

theorem rowsVerdict (given : d.rows = some rows) (unasked : d.query = none)
    (declared : d.schema = some s) (declares : s.Declares schema) :
    Verdict d (do return d.bare.fill (← Instance.ofRows schema rows)) := by
  have size : schema.size = s.keys.length := by
    rw [← declares.1, Schema.size, Schema.names, Keyed.names, List.length_map]
  have formed := (Read.declared declared declares).formed
  unfold Instance.ofRows
  split
  · rename_i fits
    refine .valid ⟨formed, .inr unasked, fun again same => ?_, fun query asked => ?_⟩
    · cases given.symm.trans same
      exact ⟨s, declared, size ▸ Instance.noMisfit.1 fits⟩
    · cases unasked.symm.trans asked
  · rename_i misfit
    refine .format (fun valid => ?_) (rowsUnmatched given)
    obtain ⟨again, same, fits⟩ := valid.rowed rows given
    cases declared.symm.trans same
    rw [← size] at fits
    cases (Instance.noMisfit.2 fits).symm.trans misfit

theorem querySchemaChosen (extracted : Schema.ofQuery query = .ok selection) :
    d.querySchema (some schema) query = if schema.agrees selection = true then .ok schema
      else .error (.schemaMismatch d.name schema selection) := by
  unfold querySchema
  rw [extracted]
  rfl

theorem queryRefused {fault : Fault} (asked : d.query = some query)
    (extracted : Schema.ofQuery query = .error fault) : Verdict d (do
      return (d.bare.withSchema (← d.querySchema declared query)).withQuery query) := by
  have failed : d.querySchema declared query = .error fault := bindError.2 (.inl extracted)
  rw [failed]
  refine .failed (Schema.ofQueryFails query fault extracted) (fun valid => ?_) ?_
  · obtain ⟨derived, same, _⟩ := valid.selected query asked
    cases extracted.symm.trans same
  · rintro ⟨_, again, _, derived, same, _, _, chosen, _⟩
    cases asked.symm.trans same
    cases extracted.symm.trans chosen

theorem queryVerdict (rowless : d.rows = none) (asked : d.query = some query)
    (read : Read d declared) : Verdict d (do
      return (d.bare.withSchema (← d.querySchema declared query)).withQuery query) := by
  have unrowed : ∀ rows, d.rows = some rows →
      ∃ s, d.schema = some s ∧ ∀ row ∈ rows, row.length = s.keys.length := by
    rw [rowless]
    exact nofun
  cases extracted : Schema.ofQuery query with
  | error fault => exact queryRefused asked extracted
  | ok derived =>
    cases read with
    | undeclared absent =>
      have chosen : d.querySchema none query = .ok derived := bindOk.2 ⟨derived, extracted, rfl⟩
      rw [chosen]
      refine .valid ⟨by simp [absent], .inl rowless, unrowed, fun again same => ?_⟩
      cases asked.symm.trans same
      exact ⟨derived, extracted, by simp [absent]⟩
    | @declared s schema given declares =>
      have formed := (Read.declared given declares).formed
      have agrees : schema.agrees derived = true ↔ s.pairs.Perm derived.pairs := by
        rw [Schema.agreesExact, declares.pairs, Schema.pairsPerm]
      rw [querySchemaChosen extracted]
      split
      · rename_i agreed
        refine .valid ⟨formed, .inl rowless, unrowed, fun again same => ?_⟩
        cases asked.symm.trans same
        refine ⟨derived, extracted, fun other same => ?_⟩
        cases given.symm.trans same
        exact agrees.1 agreed
      · rename_i apart
        exact .mismatched ⟨rowless, query, s, derived, asked, given, formed s given, extracted,
          fun same => apart (agrees.2 same)⟩

theorem bareVerdict (rowless : d.rows = none) (unasked : d.query = none) (read : Read d declared)
    (t : Table) : Verdict d (.ok t) := by
  refine .valid ⟨read.formed, .inl rowless, ?_, ?_⟩
  · rw [rowless]
    exact nofun
  · rw [unasked]
    exact nofun

theorem checkVerdict (d : TableDecl) : Verdict d d.check := by
  unfold check
  cases ran : d.declaredSchema with
  | error fault => exact declaredSchemaFails ran
  | ok declared =>
    have read := declaredSchemaReads ran
    cases given : d.rows with
    | some rows =>
      cases asked : d.query with
      | some query =>
        refine .format (fun valid => ?_) (rowsUnmatched given)
        rcases valid.single with rowless | unasked
        · cases given.symm.trans rowless
        · cases asked.symm.trans unasked
      | none =>
        cases read with
        | undeclared absent => exact .format (undeclaredRows given absent) (rowsUnmatched given)
        | declared known declares => exact rowsVerdict given asked known declares
    | none =>
      cases asked : d.query with
      | some query => exact queryVerdict given asked read
      | none => exact bareVerdict given asked read _

variable {moduleName : String} {fault : Fault}

theorem ingestValid {t : Table} (ran : d.ingest moduleName = .ok t) :
    d.Valid ∧ t.name = d.name := by
  obtain ⟨bare, checks, rfl⟩ := ingested ran
  have verdict := checks ▸ d.checkVerdict
  refine ⟨by cases verdict; assumption, ?_⟩
  obtain ⟨declared, _, checked⟩ := checked checks
  cases checked <;> rfl

theorem ingestRefused (failed : d.ingest moduleName = .error fault) : ¬ d.Valid ∧
    ((∃ declared derived, fault = .schemaMismatch d.name declared derived) ↔ d.Mismatched) ∧
    (¬ d.Mismatched → fault.isFormat = true) := by
  have verdict := d.checkVerdict
  unfold ingest at failed
  split at failed
  · cases failed
  · rename_i cause checks
    cases failed
    rw [checks] at verdict
    cases verdict with
    | @mismatched declared derived only =>
      exact ⟨only.invalid, ⟨fun _ => only, fun _ => ⟨declared, derived, rfl⟩⟩, absurd only⟩
    | format invalid other =>
      exact ⟨invalid, ⟨nofun, fun only => absurd only other⟩, fun _ => rfl⟩

end TableDecl

namespace Catalog

variable {c next : Catalog} {entry : String × TableDecl} {entries : List (String × TableDecl)}
  {fault : Fault}

def accept (c : Catalog) (entry : String × TableDecl) : Except Fault Catalog := do
  c.insert (← entry.2.ingest entry.1)

def entryNames (entries : List (String × TableDecl)) : List String :=
  entries.map fun entry => entry.2.name

theorem ingestFold (c : Catalog) (moduleName : String) (decls : List TableDecl) :
    c.ingest moduleName decls = (decls.map fun d => (moduleName, d)).foldlM accept c := by
  induction decls generalizing c with
  | nil => rfl
  | cons d rest ih =>
    unfold ingest
    rw [List.map_cons, List.foldlM_cons, accept, bind_assoc]
    exact congrArg _ (funext fun t => congrArg _ (funext ih))

theorem ingestModulesFold (c : Catalog) (modules : List ModuleDecl) :
    c.ingestModules modules = (declarations modules).foldlM accept c := by
  induction modules generalizing c with
  | nil => rfl
  | cons m rest ih =>
    unfold ingestModules
    rw [declarations, List.flatMap_cons, List.foldlM_append, ingestFold]
    exact congrArg _ (funext ih)

theorem insertRefused {t : Table} (failed : c.insert t = .error fault) :
    t.name ∈ c.names ∧ fault = .format (.repeatedTable t.name) := by
  unfold insert at failed
  split at failed
  · cases failed
  · rename_i known
    cases failed
    exact ⟨not_not.1 known, rfl⟩

theorem accepted (ran : c.accept entry = .ok next) :
    entry.2.Valid ∧ next.names = c.names ++ [entry.2.name] := by
  obtain ⟨t, taken, placed⟩ := bindOk.1 ran
  obtain ⟨valid, named⟩ := TableDecl.ingestValid taken
  exact ⟨valid, by simp [← tableNames, inserted placed, named]⟩

/-- Why a table is not let in: it is not valid, which is looked at first, or its name is taken. -/
def Barred (taken : List String) (entry : String × TableDecl) (fault : Fault) : Prop :=
  ¬ entry.2.Valid ∧ entry.2.ingest entry.1 = .error fault ∨
    entry.2.Valid ∧ entry.2.name ∈ taken ∧ fault = .format (.repeatedTable entry.2.name)

theorem acceptBarred (failed : c.accept entry = .error fault) : Barred c.names entry fault := by
  rcases bindError.1 failed with refused | ⟨t, taken, refused⟩
  · exact .inl ⟨(TableDecl.ingestRefused refused).1, refused⟩
  · obtain ⟨valid, named⟩ := TableDecl.ingestValid taken
    obtain ⟨known, why⟩ := insertRefused refused
    rw [named] at known why
    exact .inr ⟨valid, known, why⟩

theorem acceptedAll (ran : entries.foldlM accept c = .ok next) :
    (∀ entry ∈ entries, entry.2.Valid) ∧ next.names = c.names ++ entryNames entries := by
  induction entries generalizing c with
  | nil =>
    cases ran
    exact ⟨nofun, (List.append_nil _).symm⟩
  | cons entry rest ih =>
    rw [List.foldlM_cons] at ran
    obtain ⟨between, first, later⟩ := bindOk.1 ran
    obtain ⟨valid, grown⟩ := accepted first
    obtain ⟨others, after⟩ := ih later
    refine ⟨List.forall_mem_cons.2 ⟨valid, others⟩, ?_⟩
    simp [after, grown, entryNames]

theorem acceptedUntil (failed : entries.foldlM accept c = .error fault) :
    ∃ before entry after, entries = before ++ entry :: after ∧
      (∀ entry ∈ before, entry.2.Valid) ∧ (c.names ++ entryNames before).Nodup ∧
      Barred (c.names ++ entryNames before) entry fault := by
  induction entries generalizing c with
  | nil => cases failed
  | cons entry rest ih =>
    rw [List.foldlM_cons] at failed
    rcases bindError.1 failed with refused | ⟨between, first, later⟩
    · refine ⟨[], entry, rest, rfl, nofun, ?_, ?_⟩
      · simpa [entryNames, names] using c.distinct
      · simpa [entryNames] using acceptBarred refused
    · obtain ⟨valid, grown⟩ := accepted first
      obtain ⟨before, barred, after, rfl, others, distinct, why⟩ := ih later
      have names :
          c.names ++ entryNames (entry :: before) = between.names ++ entryNames before := by
        simp [grown, entryNames]
      refine ⟨entry :: before, barred, after, rfl, List.forall_mem_cons.2 ⟨valid, others⟩, ?_, ?_⟩
      · rwa [names]
      · rwa [names]

end Catalog

namespace Document

variable {source : String} {given : DocumentDecl} {fault : Fault}

theorem ofTextFold (read : DocumentDecl.ofText source = .ok given) : ofText source = do
    return ⟨given.dialect, given.modules.map ModuleDecl.info,
      ← (Catalog.declarations given.modules).foldlM Catalog.accept .empty⟩ := by
  rw [← Catalog.ingestModulesFold, ofText, read]
  rfl

theorem ofTextValid {document : Document} (read : DocumentDecl.ofText source = .ok given)
    (loaded : ofText source = .ok document) :
    (∀ entry ∈ Catalog.declarations given.modules, entry.2.Valid) ∧
      (Catalog.entryNames (Catalog.declarations given.modules)).Nodup := by
  rw [ofTextFold read] at loaded
  obtain ⟨catalog, ran, _⟩ := bindOk.1 loaded
  obtain ⟨valid, names⟩ := Catalog.acceptedAll ran
  have distinct : catalog.names.Nodup := catalog.distinct
  rw [names] at distinct
  exact ⟨valid, distinct⟩

theorem ofTextUntil (read : DocumentDecl.ofText source = .ok given)
    (failed : ofText source = .error fault) : ∃ before entry after,
      Catalog.declarations given.modules = before ++ entry :: after ∧
      (∀ entry ∈ before, entry.2.Valid) ∧ (Catalog.entryNames before).Nodup ∧
      Catalog.Barred (Catalog.entryNames before) entry fault := by
  rw [ofTextFold read] at failed
  rcases bindError.1 failed with failed | ⟨_, _, last⟩
  · exact Catalog.acceptedUntil failed
  · cases last

theorem loadedExactly (read : DocumentDecl.ofText source = .ok given) :
    let entries := Catalog.declarations given.modules
    ((∃ document, ofText source = .ok document) ↔
      (∀ entry ∈ entries, entry.2.Valid) ∧ (Catalog.entryNames entries).Nodup) ∧
    ∀ fault, ofText source = .error fault → ∃ before moduleName d after,
      entries = before ++ (moduleName, d) :: after ∧
      (∀ entry ∈ before, entry.2.Valid) ∧ (Catalog.entryNames before).Nodup ∧
      (¬ d.Valid ∧ d.ingest moduleName = .error fault ∧
          ((∃ declared derived, fault = .schemaMismatch d.name declared derived) ↔
            d.Mismatched) ∧
          (¬ d.Mismatched → fault.isFormat = true) ∨
        d.Valid ∧ d.name ∈ Catalog.entryNames before ∧
          fault = .format (.repeatedTable d.name)) := by
  refine ⟨⟨fun ⟨_, loaded⟩ => ofTextValid read loaded, ?_⟩, fun fault failed => ?_⟩
  · rintro ⟨valid, distinct⟩
    cases loaded : ofText source with
    | ok document => exact ⟨document, rfl⟩
    | error fault =>
      obtain ⟨before, entry, after, cut, _, _, barred⟩ := ofTextUntil read loaded
      rw [cut] at valid distinct
      rcases barred with ⟨invalid, _⟩ | ⟨_, known, _⟩
      · exact absurd (valid entry (by simp)) invalid
      · simp only [Catalog.entryNames, List.map_append, List.map_cons] at distinct known
        exact absurd rfl ((List.nodup_append.1 distinct).2.2 _ known _ (.head _))
  · obtain ⟨before, ⟨moduleName, d⟩, after, cut, valid, distinct, barred⟩ := ofTextUntil read failed
    refine ⟨before, moduleName, d, after, cut, valid, distinct, barred.imp_left ?_⟩
    rintro ⟨invalid, failed⟩
    exact ⟨invalid, failed, (TableDecl.ingestRefused failed).2⟩

def clashText : String :=
  "[null,[[\"a\",null,null,[[\"t\"]]],[\"b\",null,null,[" ++
    "[\"t\",\"\",\"\",[[\"x\"],[\"DOUBLE\"]],null,\x7b\"SELECT\":\"x -- STRING\"\x7d]]]]]"

def clashDecl : DocumentDecl where
  modules := [
    ⟨"a", none, none, [{ name := "t" }]⟩,
    ⟨"b", none, none, [⟨"t", "", "", some ⟨["x"], ["DOUBLE"]⟩, none,
      some (.object [("SELECT", .literal "x -- STRING")])⟩]⟩]

theorem clashRefused :
    DocumentDecl.ofText clashText = .ok clashDecl ∧
      ofText clashText = .error (.schemaMismatch "t" ⟨[("x", .double)], by decide⟩
        ⟨[("x", .string)], by decide⟩) ∧
      ∃ before moduleName d after,
        Catalog.declarations clashDecl.modules = before ++ (moduleName, d) :: after ∧
        (∀ entry ∈ before, entry.2.Valid) ∧ d.Mismatched := by
  have read : DocumentDecl.ofText clashText = .ok clashDecl := by decide +kernel
  have failed : ofText clashText = .error (.schemaMismatch "t" ⟨[("x", .double)], by decide⟩
      ⟨[("x", .string)], by decide⟩) := by
    rw [ofText, read]
    decide +kernel
  obtain ⟨before, moduleName, d, after, cut, valid, _, why⟩ :=
    (loadedExactly read).2 _ failed
  refine ⟨read, failed, before, moduleName, d, after, cut, valid, ?_⟩
  rcases why with ⟨_, _, _, format⟩ | ⟨_, _, same⟩
  · by_contra other
    cases format other
  · cases same

end Document
end TablePlan
