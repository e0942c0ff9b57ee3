import TablePlan.Proofs.ReadBack
import TablePlan.Proofs.Trace
/-! Schemas and rows that are decoded from JSON text. Rows that are handed over with a schema are
measured against it. Rows that are decoded are not: the schema and the rows are read each by itself,
in whichever way the record of the two is spelled, and what is asked of a row is asked of its values
alone. -/
namespace TablePlan

namespace Json

variable {α : Type} {one : Nat → List Char → Except JsonFault (α × List Char)} {room : Nat}
  {values : List α} {s rest : List Char}

theorem sequenceReads {texts : List (List Char)}
    (each : List.Forall₂ (Reads (one room)) values texts) :
    Reads (aSequence one (room + 1)) values ('[' :: commaed texts ++ [']']) := by
  refine ⟨⟨'[', _, rfl, by decide, by decide⟩, fun rest => ?_⟩
  rw [enclosedBefore, aSequence, skipShown (by decide)]
  exact listRead each rest

theorem sequenceGood {good : α → Prop}
    (kept : ∀ s value rest, one room s = .ok (value, rest) → good value)
    (ran : aSequence one (room + 1) s = .ok (values, rest)) : ∀ value ∈ values, good value := by
  unfold aSequence at ran
  split at ran
  · exact listGood kept ran
  · cases ran

theorem fieldRead {one : List Char → Except JsonFault (α × List Char)} {value : α}
    {text : List Char} (reads : Reads one value text) (name : String) (rest : List Char) :
    field name none one (':' :: (text ++ rest)) = .ok (some value, rest) :=
  bindOk.2 ⟨_, colonRead _, bindOk.2 ⟨_, reads.whole rest, rfl⟩⟩

theorem fieldGiven {one : List Char → Except JsonFault (α × List Char)} {name : String}
    {held found : Option α} (ran : field name held one s = .ok (found, rest)) :
    ∃ value s, found = some value ∧ one s = .ok (value, rest) := by
  unfold field at ran
  split at ran
  · cases ran
  · obtain ⟨s, _, ran⟩ := bindOk.1 ran
    obtain ⟨⟨value, s⟩, here, last⟩ := bindOk.1 ran
    cases last
    exact ⟨value, _, rfl, here⟩

theorem dueGiven {name : String} {held : Option α} {value : α} (ran : due name held = .ok value) :
    held = some value := by
  cases held <;> cases ran
  rfl

section Places

variable {one : List Char → Except JsonFault (α × List Char)} {value : α} {text : List Char}

theorem placeFirst (reads : Reads one value text) (rest : List Char) :
    place true one (text ++ rest) = .ok (some value, rest) :=
  bindOk.2 ⟨_, nextFirst reads.opens, bindOk.2 ⟨_, reads.whole rest, rfl⟩⟩

theorem placeLater (reads : Reads one value text) (rest : List Char) :
    place false one (',' :: text ++ rest) = .ok (some value, rest) :=
  bindOk.2 ⟨_, nextLater reads.opens, bindOk.2 ⟨_, reads.whole rest, rfl⟩⟩

theorem placeGiven {first : Bool} (ran : place first one s = .ok (some value, rest)) :
    ∃ s, one s = .ok (value, rest) := by
  obtain ⟨next, _, ran⟩ := bindOk.1 ran
  cases next with
  | none => cases ran
  | some s =>
    obtain ⟨⟨value, s⟩, here, last⟩ := bindOk.1 ran
    cases last
    exact ⟨_, here⟩

theorem duePlaceGiven {index size : Nat} {title : String} {held : Option α}
    (ran : duePlace index title size held = .ok value) : held = some value := by
  cases held <;> cases ran
  rfl

end Places

end Json

namespace Instance

variable {schema : Schema} {rows : List Row} {content : Instance} {room : Nat}
  {schemaText rowsText text s rest : List Char}

/-- The ways in which the texts of a schema and of rows are put together: by name in either order,
or by place. -/
inductive Spelled (schemaText rowsText : List Char) : List Char → Prop where
  | schemaFirst : Spelled schemaText rowsText
      ('\x7b' :: Json.commaed [Json.writtenText "schema" ++ ':' :: schemaText,
        Json.writtenText "rows" ++ ':' :: rowsText] ++ ['\x7d'])
  | rowsFirst : Spelled schemaText rowsText
      ('\x7b' :: Json.commaed [Json.writtenText "rows" ++ ':' :: rowsText,
        Json.writtenText "schema" ++ ':' :: schemaText] ++ ['\x7d'])
  | byPlace : Spelled schemaText rowsText ('[' :: Json.commaed [schemaText, rowsText] ++ [']'])

theorem namedReads {texts : List (List Char)}
    (taken : Json.Takes (Draft.read room) {} texts ⟨some schema, some rows⟩) :
    Json.Reads (readJson (room + 1)) ⟨schema, rows⟩
      ('\x7b' :: Json.commaed texts ++ ['\x7d']) := by
  refine ⟨⟨'\x7b', _, rfl, by decide, by decide⟩, fun rest => ?_⟩
  rw [Json.enclosedBefore, readJson, Json.aRecord, Json.skipShown (by decide)]
  exact bindOk.2 ⟨_, Json.objectTakes taken rest, rfl⟩

theorem schemaTaken (reads : Json.Reads (Schema.readJson room) schema schemaText)
    (rows? : Option (List Row)) (rest : List Char) :
    Draft.read room "schema" ⟨none, rows?⟩ (':' :: (schemaText ++ rest)) =
      .ok (⟨some schema, rows?⟩, rest) :=
  bindOk.2 ⟨_, Json.fieldRead reads "schema" rest, rfl⟩

theorem rowsTaken (reads : Json.Reads (readRows room) rows rowsText)
    (schema? : Option Schema) (rest : List Char) :
    Draft.read room "rows" ⟨schema?, none⟩ (':' :: (rowsText ++ rest)) =
      .ok (⟨schema?, some rows⟩, rest) :=
  bindOk.2 ⟨_, Json.fieldRead reads "rows" rest, rfl⟩

theorem placedReads (schemaReads : Json.Reads (Schema.readJson room) schema schemaText)
    (rowsReads : Json.Reads (readRows room) rows rowsText) :
    Json.Reads (readJson (room + 1)) ⟨schema, rows⟩
      ('[' :: Json.commaed [schemaText, rowsText] ++ [']']) := by
  refine ⟨⟨'[', _, rfl, by decide, by decide⟩, fun rest => ?_⟩
  rw [Json.enclosedBefore, readJson, Json.aRecord, Json.skipShown (by decide), Json.commaedCons,
    List.append_assoc, List.flatMap_singleton]
  have placed : byPlace room (schemaText ++ (',' :: rowsText ++ ']' :: rest)) =
      .ok (⟨schema, rows⟩, ']' :: rest) :=
    bindOk.2 ⟨_, Json.placeFirst schemaReads _, bindOk.2 ⟨_, rfl,
      bindOk.2 ⟨_, Json.placeLater rowsReads _, rfl⟩⟩⟩
  exact bindOk.2 ⟨_, placed, rfl⟩

theorem spelledReads (schemaReads : Json.Reads (Schema.readJson room) schema schemaText)
    (rowsReads : Json.Reads (readRows room) rows rowsText)
    (spelled : Spelled schemaText rowsText text) :
    Json.Reads (readJson (room + 1)) ⟨schema, rows⟩ text := by
  cases spelled with
  | schemaFirst =>
    exact namedReads (.cons (schemaTaken schemaReads none)
      (.cons (rowsTaken rowsReads (some schema)) .nil))
  | rowsFirst =>
    exact namedReads (.cons (rowsTaken rowsReads none)
      (.cons (schemaTaken schemaReads (some rows)) .nil))
  | byPlace => exact placedReads schemaReads rowsReads

def Draft.Given (room : Nat) (d : Draft) : Prop :=
  ∀ rows, d.rows = some rows → ∃ s rest, readRows room s = .ok (rows, rest)

theorem draftGiven (key : String) (d found : Draft) (given : d.Given room)
    (ran : Draft.read room key d s = .ok (found, rest)) : found.Given room := by
  unfold Draft.read at ran
  split at ran
  · obtain ⟨_, _, last⟩ := bindOk.1 ran
    cases last
    exact given
  · obtain ⟨⟨_, s⟩, held, last⟩ := bindOk.1 ran
    cases last
    obtain ⟨rows, s, rfl, here⟩ := Json.fieldGiven held
    rintro _ ⟨⟩
    exact ⟨_, _, here⟩
  · obtain ⟨_, _, last⟩ := bindOk.1 ran
    cases last
    exact given

theorem namedGiven (ran : byName room s = .ok (content, rest)) :
    ∃ s rest, readRows room s = .ok (content.rows, rest) := by
  obtain ⟨⟨d, s⟩, object, ran⟩ := bindOk.1 ran
  obtain ⟨schema, _, ran⟩ := bindOk.1 ran
  obtain ⟨rows, due, last⟩ := bindOk.1 ran
  cases last
  have none : Draft.Given room {} := nofun
  have given := Json.objectKeeps (fun key d _ found _ => draftGiven key d found) none object
  exact given _ (Json.dueGiven due)

theorem placedGiven (ran : byPlace room s = .ok (content, rest)) :
    ∃ s rest, readRows room s = .ok (content.rows, rest) := by
  obtain ⟨⟨schema?, s⟩, _, ran⟩ := bindOk.1 ran
  obtain ⟨schema, _, ran⟩ := bindOk.1 ran
  obtain ⟨⟨rows?, s⟩, placed, ran⟩ := bindOk.1 ran
  obtain ⟨rows, due, last⟩ := bindOk.1 ran
  cases last
  cases Json.duePlaceGiven due
  obtain ⟨s, here⟩ := Json.placeGiven placed
  exact ⟨_, _, here⟩

theorem rowsGiven (ran : readJson (room + 1) s = .ok (content, rest)) :
    ∃ s rest, readRows room s = .ok (content.rows, rest) := by
  unfold readJson Json.aRecord at ran
  split at ran
  · exact namedGiven ran
  · obtain ⟨⟨found, s⟩, placed, ran⟩ := bindOk.1 ran
    obtain ⟨_, _, last⟩ := bindOk.1 ran
    cases last
    exact placedGiven placed
  · cases ran

theorem rowsFit (ran : readRows (room + 2) s = .ok (rows, rest)) :
    ∀ row ∈ rows, ∀ value ∈ row, value.Fits room :=
  Json.sequenceGood (fun _ _ _ ran => Json.sequenceGood (fun _ _ _ => Json.valueFits) ran) ran

end Instance

theorem decodedUnmeasured (schema : Schema) (rows : List Row) :
    (∀ content, Instance.ofRows schema rows = .ok content ↔
        content = ⟨schema, rows⟩ ∧ ∀ row ∈ rows, row.length = schema.size) ∧
      (∀ source,
        Json.readWhole (Instance.readJson Json.nestingRoom) source = .ok ⟨schema, rows⟩ →
          ∀ row ∈ rows, ∀ value ∈ row, value.Fits 124) ∧
      ∀ schemaText rowsText text, Json.Reads (Schema.readJson 126) schema schemaText →
        Json.Reads (readRows 126) rows rowsText → Instance.Spelled schemaText rowsText text →
          Json.readWhole (Instance.readJson Json.nestingRoom) (String.ofList text) =
            .ok ⟨schema, rows⟩ := by
  refine ⟨fun _ => ofRowsExact, fun source read => ?_,
    fun _ _ _ schemaReads rowsReads spelled => ?_⟩
  · obtain ⟨_, here⟩ := Json.wholeParts read
    obtain ⟨_, _, given⟩ := Instance.rowsGiven here
    exact Instance.rowsFit given
  · exact Json.wholeRead (Instance.spelledReads schemaReads rowsReads spelled)

theorem bareRowDecoded :
    ∃ content : Instance, Json.readWhole (Instance.readJson Json.nestingRoom)
        "\x7b\"schema\":\x7b\"a\":\"STRING\"\x7d,\"rows\":[[]]\x7d" = .ok content ∧
      Instance.ofRows content.schema content.rows = .error (.format (.rowWidth 0 0 1)) := by
  refine ⟨⟨⟨[("a", .string)], by decide⟩, [[]]⟩, ?_, rfl⟩
  decide +kernel

def uneven : Instance where
  schema := ⟨[("a", .string), ("b", .double)], by decide⟩
  rows := [[], [.string "x"]]

theorem unevenDecoded :
    Json.readWhole (Instance.readJson Json.nestingRoom)
        "\x7b\"rows\":[[],[\"x\"]],\"schema\":\x7b\"a\":\"STRING\",\"b\":\"DOUBLE\"\x7d\x7d" =
          .ok uneven ∧
      (∀ row ∈ uneven.rows, ∀ value ∈ row, value.Fits 124) ∧
      ∀ content, Instance.ofRows uneven.schema uneven.rows ≠ .ok content := by
  obtain ⟨measured, fit, spelled⟩ := decodedUnmeasured uneven.schema uneven.rows
  have row : Json.Reads (Json.aSequence (Json.readValue .keep) 125) [.string "x"] _ :=
    Json.sequenceReads (.cons (Json.stringReads "x") .nil)
  have rows : Json.Reads (readRows 126) uneven.rows _ :=
    Json.sequenceReads (.cons (Json.sequenceReads .nil) (.cons row .nil))
  have decoded := spelled _ _ _ (Schema.schemaReads 125 uneven.schema) rows .rowsFirst
  refine ⟨decoded, fit _ decoded, fun content built => ?_⟩
  have widths := ((measured content).1 built).2
  exact absurd (widths [] (.head _)) (by decide)

end TablePlan
