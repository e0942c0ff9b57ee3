import TablePlan.Proofs.Fields
import TablePlan.Proofs.Readable
/-! Clauses and schemas are read back from the JSON text that they are written as: every character
of a string from its escape, every list and object from its members with commas between them, and
keys in the order in which they stand. -/
namespace TablePlan

namespace Json

section Strings

variable {c : Char} {rest : List Char}

/-- What is read at a spot is a character and then what is left of the string. -/
def Yields (spot : Spot) (text : List Char) (c : Char) (rest : List Char) : Prop :=
  textFrom .keep spot text = do
    let (chars, rest) ← textFrom .keep .plain rest
    return (c :: chars, rest)

theorem hexDigit : ∀ d < 16,
    hexValue (Nat.digitChar d) = some d ∧ (Nat.digitChar d).utf8Size = 1 := by
  decide

theorem hexAhead {d : Char} {due value digit : Nat} (reads : hexValue d = some digit)
    (more : 1 < due) : textFrom .keep (.hex due value none) (d :: rest) =
      textFrom .keep (.hex (due - 1) (16 * value + digit) none) rest := by
  simp only [textFrom, reads, if_pos more]

theorem hexLast {d : Char} {value digit : Nat} (reads : hexValue d = some digit)
    (unit : codeUnit none (16 * value + digit) = some (.inl c)) :
    Yields (.hex 1 value none) (d :: rest) c rest := by
  rw [Yields, textFrom]
  simp only [reads, unit, Nat.lt_irrefl, if_false, reduceCtorEq]

theorem controlYields (low : c.toNat < 0x20) :
    Yields .slash ('u' :: controlDigits c ++ rest) c rest := by
  obtain ⟨highValue, highSize⟩ := hexDigit (c.toNat / 16) (by omega)
  obtain ⟨lowValue, lowSize⟩ := hexDigit (c.toNat % 16) (by omega)
  have zero : hexValue '0' = some 0 := by decide
  have four : hasFourBytes (controlDigits c ++ rest) = true := by
    simp [hasFourBytes, controlDigits, highSize, lowSize, show '0'.utf8Size = 1 from rfl]
  have unit : codeUnit none (16 * (c.toNat / 16) + c.toNat % 16) = some (.inl c) := by
    rw [Nat.div_add_mod]
    simp [codeUnit, show ¬ 0xdc00 ≤ c.toNat by omega, show ¬ 0xd800 ≤ c.toNat by omega]
  rw [Yields, List.cons_append, textFrom, if_pos rfl, if_pos four, controlDigits]
  simp only [List.cons_append, List.nil_append]
  rw [hexAhead zero (by decide), hexAhead zero (by decide), hexAhead highValue (by decide)]
  exact hexLast lowValue (by simpa using unit)

theorem escapedCases (c : Char) :
    (∃ d, escaped c = ['\\', d] ∧ d ≠ 'u' ∧ unescaped d = some c) ∨
      (escaped c = '\\' :: 'u' :: controlDigits c ∧ c.toNat < 0x20) ∨
      (escaped c = [c] ∧ c ≠ '"' ∧ c ≠ '\\' ∧ ¬ c.toNat < 0x20) := by
  unfold escaped
  iterate 7
    split
    · subst_vars
      exact .inl ⟨_, rfl, by decide, by decide⟩
  split
  · rename_i low
    exact .inr (.inl ⟨rfl, low⟩)
  · rename_i quote slash _ _ _ _ _ shown
    exact .inr (.inr ⟨rfl, quote, slash, shown⟩)

theorem escapedYields (c : Char) (rest : List Char) :
    Yields .plain (escaped c ++ rest) c rest := by
  rw [Yields]
  rcases escapedCases c with ⟨d, same, other, reads⟩ | ⟨same, low⟩ | ⟨same, quote, slash, shown⟩
  · rw [same, List.cons_append, textFrom, if_neg (by decide), if_pos rfl, List.singleton_append,
      textFrom, if_neg other]
    simp only [reads]
  · rw [same, List.cons_append, textFrom, if_neg (by decide), if_pos rfl]
    exact controlYields low
  · rw [same, List.singleton_append, textFrom, if_neg quote, if_neg slash, if_neg shown]

theorem textRead (chars rest : List Char) :
    textFrom .keep .plain (chars.flatMap escaped ++ '"' :: rest) = .ok (chars, rest) := by
  induction chars with
  | nil => rfl
  | cons c chars ih =>
    have one : Yields .plain (escaped c ++ (chars.flatMap escaped ++ '"' :: rest)) c _ :=
      escapedYields c _
    rw [List.flatMap_cons, List.append_assoc, one, ih]
    rfl

theorem stringRead (s : String) (rest : List Char) :
    readString .keep (s.toList.flatMap escaped ++ '"' :: rest) = .ok (s, rest) := by
  rw [readString, textRead]
  exact congrArg (fun s => Except.ok (s, rest)) String.ofList_toList

theorem enclosedBefore (left right : Char) (body rest : List Char) :
    (left :: body ++ [right]) ++ rest = left :: (body ++ right :: rest) := by
  simp

end Strings

theorem skipShown {c : Char} {rest : List Char} (shown : isSpace c = false) :
    skipSpace (c :: rest) = c :: rest := by
  rw [skipSpace, List.dropWhile_cons, shown]
  rfl

def Opens (text : List Char) : Prop :=
  ∃ c tail, text = c :: tail ∧ isSpace c = false ∧ c ≠ ']'

section Items

variable {α : Type} {one : List Char → Except JsonFault (α × List Char)} {values : List α}
  {value : α} {text rest : List Char} {texts : List (List Char)} {bound : Nat}

structure Reads (one : List Char → Except JsonFault (α × List Char)) (value : α)
    (text : List Char) : Prop where
  opens : Opens text
  whole : ∀ rest, one (text ++ rest) = .ok (value, rest)

theorem nextFirst (opens : Opens text) :
    nextItem true (text ++ rest) = .ok (some (text ++ rest)) := by
  obtain ⟨c, tail, rfl, shown, inside⟩ := opens
  rw [List.cons_append, nextItem, skipShown shown]
  simp

theorem nextLater (opens : Opens text) :
    nextItem false (',' :: text ++ rest) = .ok (some (text ++ rest)) := by
  obtain ⟨c, tail, rfl, shown, inside⟩ := opens
  rw [List.cons_append, List.cons_append, nextItem, skipShown (by decide)]
  simp [skipShown shown, inside]

theorem commaedCons : commaed (text :: texts) = text ++ texts.flatMap (',' :: ·) := by
  induction texts generalizing text with
  | nil => simp [commaed]
  | cons second texts ih => rw [commaed, ih, List.flatMap_cons, List.cons_append]; simp

theorem itemsLater (each : List.Forall₂ (Reads one) values texts) (room : texts.length < bound) :
    items one bound false (texts.flatMap (',' :: ·) ++ ']' :: rest) =
      .ok (values, ']' :: rest) := by
  induction each generalizing bound with
  | nil =>
    cases bound with
    | zero => simp at room
    | succ bound => rfl
  | @cons value text values texts head _ ih =>
    cases bound with
    | zero => simp at room
    | succ bound =>
      have later := ih (by simpa using room)
      rw [List.flatMap_cons, List.append_assoc, items]
      exact bindOk.2 ⟨_, nextLater head.opens, bindOk.2 ⟨_, head.whole _, bindOk.2 ⟨_, later, rfl⟩⟩⟩

theorem itemsRead (each : List.Forall₂ (Reads one) values texts) (room : texts.length < bound) :
    items one bound true (commaed texts ++ ']' :: rest) = .ok (values, ']' :: rest) := by
  cases bound with
  | zero => simp at room
  | succ bound =>
    cases each with
    | nil => rfl
    | cons head tail =>
      have later := @itemsLater _ _ _ rest _ bound tail (by simpa using room)
      rw [commaedCons, List.append_assoc, items]
      exact bindOk.2 ⟨_, nextFirst head.opens, bindOk.2 ⟨_, head.whole _, bindOk.2 ⟨_, later, rfl⟩⟩⟩

theorem commaedLength (texts : List (List Char)) : texts.length ≤ (commaed texts).length + 1 := by
  induction texts with
  | nil => exact Nat.zero_le _
  | cons text texts ih =>
    cases texts with
    | nil => simp
    | cons second texts =>
      rw [commaed]
      · simp only [List.length_append, List.length_cons] at ih ⊢
        omega
      · exact List.cons_ne_nil _ _

theorem commaedRoom (texts : List (List Char)) (close : Char) (rest : List Char) :
    texts.length < (commaed texts ++ close :: rest).length + 1 := by
  have commas := commaedLength texts
  rw [List.length_append, List.length_cons]
  omega

theorem listRead (each : List.Forall₂ (Reads one) values texts) (rest : List Char) :
    listOf one (commaed texts ++ ']' :: rest) = .ok (values, rest) :=
  bindOk.2 ⟨_, itemsRead each (commaedRoom texts ']' rest), rfl⟩

end Items

section Members

variable {σ α : Type} {step : String → σ → List Char → Except JsonFault (σ × List Char)}
  {state last : σ} {one : List Char → Except JsonFault (α × List Char)}
  {held found : List (String × α)} {rest : List Char} {texts : List (List Char)} {bound : Nat}

/-- Members are taken one after another, each by what is done for its key. -/
inductive Takes (step : String → σ → List Char → Except JsonFault (σ × List Char)) :
    σ → List (List Char) → σ → Prop where
  | nil {state : σ} : Takes step state [] state
  | cons {key : String} {state next last : σ} {text : List Char} {texts : List (List Char)}
      (taken : ∀ rest, step key state (':' :: (text ++ rest)) = .ok (next, rest))
      (others : Takes step next texts last) :
      Takes step state ((writtenText key ++ ':' :: text) :: texts) last

theorem colonRead (rest : List Char) : colon (':' :: rest) = .ok rest := rfl

theorem keyRead (key : String) (text : List Char) :
    ∃ tail, writtenText key ++ ':' :: text = '"' :: tail ∧
      ∀ rest, readString .keep (tail ++ rest) = .ok (key, ':' :: (text ++ rest)) := by
  refine ⟨_, by rw [writtenText, List.cons_append, List.cons_append], fun rest => ?_⟩
  simpa using stringRead key (':' :: (text ++ rest))

theorem takesLater (taken : Takes step state texts last) (room : texts.length < bound) :
    members .keep step bound false state (texts.flatMap (',' :: ·) ++ '\x7d' :: rest) =
      .ok (last, '\x7d' :: rest) := by
  induction taken generalizing bound with
  | nil =>
    cases bound with
    | zero => simp at room
    | succ bound => rfl
  | @cons key state next last text texts taken _ ih =>
    cases bound with
    | zero => simp at room
    | succ bound =>
      obtain ⟨tail, same, keyed⟩ := keyRead key text
      have later := @ih bound (by simpa using room)
      rw [List.flatMap_cons, List.append_assoc, same, members]
      exact bindOk.2 ⟨some (tail ++ _), rfl, bindOk.2 ⟨_, keyed _, bindOk.2 ⟨_, taken _, later⟩⟩⟩

theorem takesAll (taken : Takes step state texts last) (room : texts.length < bound) :
    members .keep step bound true state (commaed texts ++ '\x7d' :: rest) =
      .ok (last, '\x7d' :: rest) := by
  cases bound with
  | zero => simp at room
  | succ bound =>
    cases taken with
    | nil => rfl
    | @cons key state next last text texts taken others =>
      obtain ⟨tail, same, keyed⟩ := keyRead key text
      have later := @takesLater _ _ _ _ rest _ bound others (by simpa using room)
      rw [commaedCons, List.append_assoc, same, members]
      exact bindOk.2 ⟨some (tail ++ _), rfl, bindOk.2 ⟨_, keyed _, bindOk.2 ⟨_, taken _, later⟩⟩⟩

theorem objectTakes (taken : Takes step state texts last) (rest : List Char) :
    objectOf .keep step state (commaed texts ++ '\x7d' :: rest) = .ok (last, rest) :=
  bindOk.2 ⟨_, takesAll taken (commaedRoom texts '\x7d' rest), rfl⟩

def MemberReads (one : List Char → Except JsonFault (α × List Char)) (entry : String × α)
    (text : List Char) : Prop :=
  ∃ valueText, text = writtenText entry.1 ++ ':' :: valueText ∧ Reads one entry.2 valueText

theorem membersTake (each : List.Forall₂ (MemberReads one) found texts)
    (distinct : (Keyed.names (held ++ found)).Nodup) :
    Takes (member one) held texts (held ++ found) := by
  induction each generalizing held with
  | nil =>
    rw [List.append_nil]
    exact .nil
  | @cons entry text found texts head _ ih =>
    obtain ⟨valueText, rfl, reads⟩ := head
    have later := @ih (held ++ [entry]) (by simpa using distinct)
    rw [List.append_assoc, List.singleton_append] at later
    refine .cons (fun rest => ?_) later
    refine bindOk.2 ⟨_, colonRead _, bindOk.2 ⟨_, reads.whole rest, ?_⟩⟩
    exact congrArg (fun held => Except.ok (held, rest))
      (Keyed.putFresh (Keyed.freshBefore distinct))

theorem objectRead (each : List.Forall₂ (MemberReads one) found texts)
    (distinct : (Keyed.names found).Nodup) (rest : List Char) :
    objectOf .keep (member one) [] (commaed texts ++ '\x7d' :: rest) = .ok (found, rest) :=
  objectTakes (@membersTake _ _ [] _ _ each distinct) rest

end Members

section Values

variable {room : Nat} {values : List Json} {entries : List (String × Json)}

theorem stringWritten (text : String) : (Json.string text).written = writtenText text := rfl

theorem arrayWritten (values : List Json) :
    (Json.array values).written = '[' :: commaed (writtenItems values) ++ [']'] := rfl

theorem objectWritten (entries : List (String × Json)) :
    (Json.object entries).written = '\x7b' :: commaed (writtenMembers entries) ++ ['\x7d'] := rfl

theorem itemsWritten (values : List Json) : writtenItems values = values.map written := by
  induction values with
  | nil => rfl
  | cons value rest ih => exact congrArg (value.written :: ·) ih

theorem membersWritten (entries : List (String × Json)) :
    writtenMembers entries = entries.map fun entry =>
      writtenText entry.1 ++ ':' :: entry.2.written := by
  induction entries with
  | nil => rfl
  | cons entry rest ih => exact congrArg (_ :: ·) ih

theorem stringReads (text : String) :
    Reads (readValue .keep room) (.string text) (Json.string text).written := by
  refine ⟨⟨'"', _, rfl, by decide, by decide⟩, fun rest => ?_⟩
  rw [stringWritten, writtenText, enclosedBefore, readValue, skipShown (by decide)]
  exact bindOk.2 ⟨_, stringRead text rest, rfl⟩

theorem arrayReads (each : ∀ value ∈ values, Reads (readValue .keep room) value value.written) :
    Reads (readValue .keep (room + 1)) (.array values) (Json.array values).written := by
  refine ⟨⟨'[', _, rfl, by decide, by decide⟩, fun rest => ?_⟩
  have related : List.Forall₂ (Reads (readValue .keep room)) values (writtenItems values) := by
    rw [itemsWritten, List.forall₂_map_right_iff, List.forall₂_same]
    exact each
  rw [arrayWritten, enclosedBefore, readValue, skipShown (by decide)]
  exact bindOk.2 ⟨_, listRead related rest, rfl⟩

theorem objectReads (distinct : (Keyed.names entries).Nodup)
    (each : ∀ entry ∈ entries, Reads (readValue .keep room) entry.2 entry.2.written) :
    Reads (readValue .keep (room + 1)) (.object entries) (Json.object entries).written := by
  refine ⟨⟨'\x7b', _, rfl, by decide, by decide⟩, fun rest => ?_⟩
  have related : List.Forall₂ (MemberReads (readValue .keep room)) entries
      (writtenMembers entries) := by
    rw [membersWritten, List.forall₂_map_right_iff, List.forall₂_same]
    exact fun entry member => ⟨_, rfl, each entry member⟩
  rw [objectWritten, enclosedBefore, readValue, skipShown (by decide)]
  exact bindOk.2 ⟨_, objectRead related distinct rest, rfl⟩

theorem wholeRead {α : Type} {one : List Char → Except JsonFault (α × List Char)} {value : α}
    {text : List Char} (reads : Reads one value text) :
    readWhole one (String.ofList text) = .ok value := by
  have read := reads.whole []
  rw [List.append_nil] at read
  rw [readWhole, String.toList_ofList]
  exact bindOk.2 ⟨_, read, rfl⟩

end Values

end Json

namespace Clause

variable {clause : Clause} {room : Nat}

theorem itemsJson (items : List Clause) : itemsToJson items = items.map toJson := by
  induction items with
  | nil => rfl
  | cons item rest ih => rw [itemsToJson, ih, List.map_cons]

theorem entriesJson (entries : List (String × Clause)) :
    entriesToJson entries = entries.map fun entry => (entry.1, entry.2.toJson) := by
  induction entries with
  | nil => rfl
  | cons entry rest ih => rw [entriesToJson, ih, List.map_cons]

theorem clauseRead (fits : clause.Fits room) :
    Json.Reads (Json.readValue .keep room) clause.toJson clause.toJson.written := by
  induction fits with
  | literal => exact Json.stringReads _
  | @list room items _ ih =>
    rw [toJson, itemsJson]
    exact Json.arrayReads (List.forall_mem_map.2 ih)
  | @object room entries distinct _ ih =>
    rw [toJson, entriesJson]
    refine Json.objectReads ?_ (List.forall_mem_map.2 ih)
    simpa [Keyed.names, Function.comp_def] using distinct

mutual

theorem clauseOfJson : (clause : Clause) → ofJson? clause.toJson = some clause
  | .literal _ => rfl
  | .list items => by rw [toJson, ofJson?, itemsOfJson items, Option.map_some]
  | .object entries => by rw [toJson, ofJson?, entriesOfJson entries, Option.map_some]

theorem itemsOfJson : (items : List Clause) → ofItems? (itemsToJson items) = some items
  | [] => rfl
  | item :: rest => by
    rw [itemsToJson, ofItems?, clauseOfJson item, itemsOfJson rest]
    rfl

theorem entriesOfJson : (entries : List (String × Clause)) →
    ofMembers? (entriesToJson entries) = some entries
  | [] => rfl
  | (key, predicate) :: rest => by
    rw [entriesToJson, ofMembers?, clauseOfJson predicate, entriesOfJson rest]
    rfl

end

theorem readJsonWritten (fits : clause.Fits room) :
    Json.Reads (readJson room) clause clause.toJson.written := by
  have read := clauseRead fits
  refine ⟨read.opens, fun rest => bindOk.2 ⟨_, read.whole rest, ?_⟩⟩
  simp only [clauseOfJson]
  rfl

theorem ofTextWritten (fits : clause.Fits Json.nestingRoom) :
    ofText clause.toText = .ok clause := by
  have read : Json.ofText? clause.toText = .ok clause.toJson := Json.wholeRead (clauseRead fits)
  simp only [ofText, read, ofJson, clauseOfJson]

end Clause

namespace Schema

theorem keywordReads (room : Nat) (type : FieldType) :
    Json.Reads (FieldType.readJson room) type type.toJson.written := by
  refine ⟨⟨'"', _, rfl, by decide, by decide⟩, fun rest => ?_⟩
  rw [FieldType.toJson, Json.stringWritten, Json.writtenText, Json.enclosedBefore,
    FieldType.readJson, Json.skipShown (by decide)]
  refine bindOk.2 ⟨_, Json.stringRead type.keyword rest, bindOk.2 ⟨type, ?_, rfl⟩⟩
  rw [FieldType.ofVariant, FieldType.keywordRead]

theorem putAllFields (s : Schema) (added : List (String × FieldType)) :
    (s.putAll added).fields = Keyed.putAll s.fields added := by
  induction added generalizing s with
  | nil => rfl
  | cons entry rest ih => exact ih (s.put entry.1 entry.2)

theorem ofFieldsKept (s : Schema) : ofFields s.fields = s := by
  refine sameFieldsEq ?_
  rw [ofFields, putAllFields]
  exact Keyed.putAllFresh s.distinct

theorem schemaReads (room : Nat) (s : Schema) :
    Json.Reads (readJson (room + 1)) s s.toJson.written := by
  refine ⟨⟨'\x7b', _, rfl, by decide, by decide⟩, fun rest => ?_⟩
  have related : List.Forall₂ (Json.MemberReads (FieldType.readJson room)) s.fields
      (s.fields.map fun field => Json.writtenText field.1 ++ ':' :: field.2.toJson.written) := by
    rw [List.forall₂_map_right_iff, List.forall₂_same]
    exact fun field _ => ⟨_, rfl, keywordReads room field.2⟩
  rw [toJson, Json.objectWritten, Json.membersWritten, List.map_map, Json.enclosedBefore, readJson,
    Json.aMap, Json.skipShown (by decide)]
  have read := Json.objectRead related s.distinct rest
  exact bindOk.2 ⟨_, read, congrArg (fun s => Except.ok (s, rest)) (ofFieldsKept s)⟩

end Schema

theorem writtenReadsBack :
    (∀ clause : Clause, (Clause.ofText clause.toText = .ok clause ↔ clause.Fits 127) ∧
        (Json.readWhole (Clause.readJson Json.nestingRoom) clause.toText = .ok clause ↔
          clause.Fits 127)) ∧
      ∀ s : Schema, Json.readWhole (Schema.readJson Json.nestingRoom) s.toJson.toText = .ok s := by
  refine ⟨fun clause => ⟨⟨Clause.ofTextFits, Clause.ofTextWritten⟩, fun read => ?_,
    fun fits => ?_⟩, fun s => Json.wholeRead (Schema.schemaReads 126 s)⟩
  · obtain ⟨_, here⟩ := Json.wholeParts read
    exact Clause.readJsonFits here
  · exact Json.wholeRead (Clause.readJsonWritten fits)

def escapes : Clause :=
  .object [("A\"B\\", .list [.literal "\x00\x08\t\n\x0c\r\x1f \x7f/é", .list [], .object []]),
    ("", .literal "")]

theorem escapesReadBack :
    let text :=
      "\x7b\"A\\\"B\\\\\":[\"\\u0000\\b\\t\\n\\f\\r\\u001f \x7f/é\",[],\x7b\x7d],\"\":\"\"\x7d"
    escapes.Fits 127 ∧ escapes.toText = text ∧ Clause.ofText text = .ok escapes ∧
      Json.readWhole (Clause.readJson Json.nestingRoom) text = .ok escapes := by
  intro text
  have fits : escapes.Fits 127 := by
    have items : ∀ item ∈ [Clause.literal "\x00\x08\t\n\x0c\r\x1f \x7f/é", .list [], .object []],
        Clause.Fits 125 item := by
      simp only [List.forall_mem_cons]
      exact ⟨.literal, .list nofun, .object (by decide) nofun, nofun⟩
    exact .object (by decide)
      (List.forall_mem_cons.2 ⟨.list items, List.forall_mem_singleton.2 .literal⟩)
  have written : escapes.toText = text := by decide +kernel
  obtain ⟨parsed, decoded⟩ := writtenReadsBack.1 escapes
  rw [written] at parsed decoded
  exact ⟨fits, written, parsed.2 fits, decoded.2 fits⟩

end TablePlan
