import SourceOutline.Scan.Basic

/-!
The written form of a scan can be read back: readers for each part of the model find what the writers put into it, at
every depth of nested fields, with nothing told apart from something empty.
-/
namespace SourceOutline

namespace Payload

variable {α β : Type}

/-- The text that a value is. -/
def text? : Payload → Option String
  | .text s => some s
  | _ => none

/-- The truth value that a value is. -/
def bool? : Payload → Option Bool
  | .bool b => some b
  | _ => none

/-- The whole number that a value is. -/
def int? : Payload → Option Int
  | .int n => some n
  | _ => none

/-- Reads a value that may be nothing. -/
def nullable (read : Payload → Option α) : Payload → Option (Option α)
  | .null => some none
  | value => (read value).map some

/-- Reads the items of a list. -/
def items (read : Payload → Option α) : Payload → Option (List α)
  | .list values => values.mapM read
  | _ => none

/-- The value of a key. -/
def get? (key : String) : Payload → Option Payload
  | .object entries => entries.lookup key
  | _ => none

/-- Reads the value of a key. -/
def required (key : String) (read : Payload → Option α) (p : Payload) : Option α :=
  (p.get? key).bind read

/-- Reads the value of a key that may be missing. -/
def optional (key : String) (read : Payload → Option α) (p : Payload) : Option (Option α) :=
  match p.get? key with
  | none => some none
  | some value => (read value).map some

@[simp] theorem get?_nil (key : String) : get? key (.object []) = none := by
  rw [get?, List.lookup_nil]

@[simp] theorem get?_cons (key other : String) (value : Payload) (rest : List (String × Payload)) :
    get? key (.object ((other, value) :: rest)) = if key = other then some value else get? key (.object rest) := by
  rw [get?, get?, List.lookup_cons]
  by_cases h : key = other
  · have hsame : (key == other) = true := by simpa using h
    rw [hsame, if_pos h]
  · have hother : (key == other) = false := by simpa using h
    rw [hother, if_neg h]

@[simp] theorem nullable_ofText? (s : Option String) : nullable text? (ofText? s) = some s := by
  cases s <;> rfl

theorem mapM_read {read : β → Option α} {write : α → β} (h : ∀ a, read (write a) = some a) (values : List α) :
    (values.map write).mapM read = some values := by
  induction values with
  | nil => rfl
  | cons a rest ih => simp [List.mapM_cons, h, ih]

theorem items_read {read : Payload → Option α} {write : α → Payload} (h : ∀ a, read (write a) = some a)
    (values : List α) : items read (.list (values.map write)) = some values :=
  mapM_read h values

end Payload

namespace Model

open Payload (text? bool? int? nullable items required)

/-- The form with a given tag. -/
def Form.ofTag? : String → Option Form
  | "const" => some .const
  | "var" => some .var
  | "map" => some .map
  | "slice" => some .slice
  | "struct" => some .struct
  | _ => none

/-- Reads an origin. -/
def Origin.read (p : Payload) : Option Origin := do
  let package ← p.required "package_name" text?
  let entity ← p.required "entity" text?
  let path ← p.required "package_path" (nullable text?)
  return { package, entity, path }

/-- Reads a form. -/
def Form.read (p : Payload) : Option Form :=
  p.text?.bind Form.ofTag?

/-- Reads a field whose sub-fields are known. -/
def Field.readFlat (subFields : Option (List Field)) (p : Payload) : Option Field := do
  let name ← p.required "name" text?
  let kind ← p.required "kind" text?
  let tag ← p.required "tag" text?
  let doc ← p.required "doc" (nullable text?)
  let isPointer ← p.required "is_pointer" bool?
  let origin ← p.required "import_details" (nullable Origin.read)
  let form ← p.required "internal_type" Form.read
  return { name, kind, tag, doc, isPointer, origin, subFields, form }

mutual

/-- Reads a field. -/
def Field.read : Payload → Option Field
  | .object entries => (Field.readSubAmong entries).bind (Field.readFlat · (.object entries))
  | _ => none

/-- Reads the sub-fields among the entries of a field. -/
def Field.readSubAmong : List (String × Payload) → Option (Option (List Field))
  | [] => none
  | (key, value) :: rest => if key = "sub_fields" then Field.readSub value else Field.readSubAmong rest

/-- Reads sub-fields, which may be nothing. -/
def Field.readSub : Payload → Option (Option (List Field))
  | .null => some none
  | .list values => (Field.readAll values).map some
  | _ => none

/-- Reads fields. -/
def Field.readAll : List Payload → Option (List Field)
  | [] => some []
  | value :: rest => do return (← Field.read value) :: (← Field.readAll rest)

end

/-- Reads a struct. -/
def Struct.read (p : Payload) : Option Struct := do
  let name ← p.required "name" text?
  let doc ← p.required "doc" (nullable text?)
  let fields ← p.required "fields" (items Field.read)
  let line ← p.required "line" int?
  return { name, doc, fields, line }

/-- Reads an entry of a map literal. -/
def Value.readPair (entry : String × Payload) : Option (String × String) :=
  entry.2.text?.map (entry.1, ·)

/-- Reads an initial value. -/
def Value.read : Payload → Option Value
  | .null => some .absent
  | .text s => some (.literal s)
  | .list values => (values.mapM text?).map .items
  | .object pairs => (pairs.mapM Value.readPair).map .entries
  | _ => none

/-- Reads an entry. -/
def Entry.read (p : Payload) : Option Entry := do
  let name ← p.required "name" text?
  let kind ← p.required "kind" text?
  let value ← p.required "value" Value.read
  let doc ← p.required "doc" (nullable text?)
  let form ← p.required "internal_type" Form.read
  let isPointer ← p.required "is_pointer" bool?
  let origin ← p.required "import_details" (nullable Origin.read)
  return { name, kind, value, doc, form, isPointer, origin }

@[simp] theorem Form.read_tag (f : Form) : Form.read (.text f.tag) = some f := by
  cases f <;> rfl

theorem Origin.read_payload (o : Origin) : Origin.read o.payload = some o := by
  simp [Origin.read, Origin.payload, Payload.required, text?]

@[simp] theorem Origin.nullable_read_payload? (o : Option Origin) : nullable Origin.read (Origin.payload? o) = some o := by
  cases o with
  | none => rfl
  | some o =>
    have hread := o.read_payload
    rw [Origin.payload] at hread
    rw [Origin.payload?, Origin.payload, nullable, hread]
    · rfl
    · simp

-- the induction is on the nesting of fields; sub-fields that are nothing and no sub-fields are told apart in `readSub`
mutual

theorem Field.read_payload : (f : Field) → Field.read f.payload = some f
  | ⟨name, kind, tag, doc, isPointer, origin, subFields, form⟩ => by
    have hsub := Field.readSub_payloadOfSub subFields
    simp [Field.payload, Field.read, Field.readSubAmong, hsub, Field.readFlat, Payload.required, text?, bool?]

theorem Field.readSub_payloadOfSub :
    (subFields : Option (List Field)) → Field.readSub (Field.payloadOfSub subFields) = some subFields
  | none => rfl
  | some fields => by
    rw [Field.payloadOfSub, Field.readSub, Field.readAll_payloads fields]
    rfl

theorem Field.readAll_payloads : (fields : List Field) → Field.readAll (Field.payloads fields) = some fields
  | [] => rfl
  | f :: rest => by
    rw [Field.payloads, Field.readAll, Field.read_payload f, Field.readAll_payloads rest]
    rfl

end

theorem Field.payloads_eq_map (fields : List Field) : Field.payloads fields = fields.map Field.payload := by
  induction fields with
  | nil => rfl
  | cons f rest ih => rw [Field.payloads, ih, List.map_cons]

theorem Struct.read_payload (s : Struct) : Struct.read s.payload = some s := by
  have hfields := Payload.items_read Field.read_payload s.fields
  simp [Struct.payload, Struct.read, Payload.required, text?, int?, Field.payloads_eq_map, hfields]

/-- The four kinds of initial values are written as four kinds of payloads. -/
theorem Value.read_payload (v : Value) : Value.read v.payload = some v := by
  cases v with
  | absent => rfl
  | literal text => rfl
  | items values =>
    rw [Value.payload, Value.read, Payload.mapM_read]
    · rfl
    · exact fun value => rfl
  | entries pairs =>
    rw [Value.payload, Value.read, Payload.mapM_read]
    · rfl
    · exact fun pair => rfl

theorem Entry.read_payload (e : Entry) : Entry.read e.payload = some e := by
  have hvalue := e.value.read_payload
  simp [Entry.payload, Entry.read, Payload.required, text?, bool?, hvalue]

end Model

/-- What an omission says: the label of its subject, a name, the reason in words and a line. -/
structure OmissionRecord where
  subject : String
  name : String
  reason : String
  line : Int
deriving DecidableEq, Repr

/-- What is written of an omission. -/
def Omission.record (o : Omission) : OmissionRecord :=
  { subject := o.subject.label, name := o.name, reason := o.reason.text, line := o.line }

namespace OmissionRecord

open Payload (text? int?)

/-- The written form of a record. -/
def payload (r : OmissionRecord) : Payload :=
  .object [("unit", .text r.subject), ("name", .text r.name), ("reason", .text r.reason), ("line", .int r.line)]

/-- Reads a record. -/
def read (p : Payload) : Option OmissionRecord := do
  let subject ← p.required "unit" text?
  let name ← p.required "name" text?
  let reason ← p.required "reason" text?
  let line ← p.required "line" int?
  return { subject, name, reason, line }

theorem read_payload (r : OmissionRecord) : read r.payload = some r := by
  simp [payload, read, Payload.required, text?, int?]

end OmissionRecord

theorem Omission.payload_eq (o : Omission) : o.payload = o.record.payload := rfl

namespace Scan

open Payload (text? nullable items)

/-- What the written form of a scan holds. Omissions are there if they were recorded. -/
structure Contents where
  path : String
  package : Option String
  outline : Model.Outline
  omissions : Option (List OmissionRecord)

/-- What is written of a scan. -/
def FileScan.contents (s : FileScan) : Contents :=
  { path := s.path, package := s.package, outline := s.outline
    omissions := s.omissions.map (·.map Omission.record) }

namespace Contents

/-- The written form of contents. -/
def payload (c : Contents) : Payload :=
  .object ([("file_path", .text c.path), ("package", .ofText? c.package)] ++ c.outline.parts ++
    match c.omissions with
    | none => []
    | some records => [("omissions", .list (records.map (·.payload)))])

/-- Reads the contents of a scan. -/
def read (p : Payload) : Option Contents := do
  let path ← p.required "file_path" text?
  let package ← p.required "package" (nullable text?)
  let structs ← p.required "structs" (items Model.Struct.read)
  let entries ← p.required "types" (items Model.Entry.read)
  let omissions ← p.optional "omissions" (items OmissionRecord.read)
  return { path, package, outline := { structs, entries }, omissions }

theorem read_payload (c : Contents) : read c.payload = some c := by
  obtain ⟨path, package, ⟨structs, entries⟩, omissions⟩ := c
  have hstructs := Payload.items_read Model.Struct.read_payload structs
  have hentries := Payload.items_read Model.Entry.read_payload entries
  cases omissions with
  | none =>
    simp [payload, read, Model.Outline.parts, Payload.required, Payload.optional, text?, hstructs, hentries]
  | some records =>
    have hrecords := Payload.items_read OmissionRecord.read_payload records
    simp [payload, read, Model.Outline.parts, Payload.required, Payload.optional, text?, hstructs, hentries,
      hrecords]

end Contents

theorem FileScan.payload_eq (s : FileScan) : s.payload = s.contents.payload := by
  rw [payload, contents, Contents.payload]
  cases s.omissions with
  | none => rfl
  | some omissions => simp [Omission.payload_eq]

namespace FileScan

variable (s t : FileScan)

theorem read_payload : Contents.read s.payload = some s.contents := by
  rw [s.payload_eq, s.contents.read_payload]

theorem payload_eq_iff : s.payload = t.payload ↔ s.contents = t.contents := by
  constructor
  · intro h
    have hboth : some s.contents = some t.contents := by rw [← s.read_payload, h, t.read_payload]
    exact Option.some.inj hboth
  · intro h
    rw [s.payload_eq, t.payload_eq, h]

theorem contents_eq_iff :
    s.contents = t.contents ↔
      s.path = t.path ∧ s.package = t.package ∧ s.outline.structs = t.outline.structs ∧
      s.outline.entries = t.outline.entries ∧
      s.omissions.map (·.map Omission.record) = t.omissions.map (·.map Omission.record) := by
  obtain ⟨path, package, ⟨structs, entries⟩, errorCount, omissions⟩ := s
  obtain ⟨path', package', ⟨structs', entries'⟩, errorCount', omissions'⟩ := t
  simp only [contents, Contents.mk.injEq, Model.Outline.mk.injEq, and_assoc]

end FileScan

/-- The written form of a scan loses nothing. Its path and package, its structs with their nested fields, its entries
with their values, and what was recorded of omissions are read back from it, so two scans are written alike exactly
when they agree in all of these. -/
theorem payload_loses_nothing :
    (∀ s : FileScan, Contents.read s.payload = some s.contents) ∧
    ∀ s t : FileScan, s.payload = t.payload ↔
      s.path = t.path ∧ s.package = t.package ∧ s.outline.structs = t.outline.structs ∧
      s.outline.entries = t.outline.entries ∧
      s.omissions.map (·.map Omission.record) = t.omissions.map (·.map Omission.record) := by
  refine ⟨FileScan.read_payload, fun s t => ?_⟩
  rw [s.payload_eq_iff, s.contents_eq_iff]

end Scan

end SourceOutline
