import SourceOutline.Extract.Omission
import SourceOutline.Model.Basic
import SourceOutline.Payload.Basic

/-! The written form of the model. -/
namespace SourceOutline

namespace Model

def Origin.payload (o : Origin) : Payload :=
  .object [("package_name", .text o.package), ("entity", .text o.entity),
    ("package_path", .ofText? o.path)]

def Origin.payload? : Option Origin → Payload
  | none => .null
  | some o => o.payload

mutual

def Field.payload : Field → Payload
  | ⟨name, kind, tag, doc, isPointer, origin, subFields, form⟩ =>
    .object [("name", .text name), ("kind", .text kind), ("tag", .text tag), ("doc", .ofText? doc),
      ("is_pointer", .bool isPointer), ("import_details", Origin.payload? origin),
      ("sub_fields", Field.payloadOfSub subFields), ("internal_type", .text form.tag)]

/-- The written form of sub-fields: a list, which may be empty, or nothing. -/
def Field.payloadOfSub : Option (List Field) → Payload
  | none => .null
  | some fields => .list (Field.payloads fields)

def Field.payloads : List Field → List Payload
  | [] => []
  | f :: rest => f.payload :: Field.payloads rest

end

def Struct.payload (s : Struct) : Payload :=
  .object [("name", .text s.name), ("doc", .ofText? s.doc), ("fields", .list (Field.payloads s.fields)),
    ("line", .int s.line), ("internal_type", .text Form.struct.tag)]

def Value.payload : Value → Payload
  | .absent => .null
  | .literal text => .text text
  | .items values => .list (values.map .text)
  | .entries pairs => .object (pairs.map fun (key, value) => (key, .text value))

def Entry.payload (e : Entry) : Payload :=
  .object [("name", .text e.name), ("kind", .text e.kind), ("value", e.value.payload),
    ("doc", .ofText? e.doc), ("internal_type", .text e.form.tag), ("is_pointer", .bool e.isPointer),
    ("import_details", Origin.payload? e.origin)]

def Outline.parts (o : Outline) : List (String × Payload) :=
  [("structs", .list (o.structs.map (·.payload))), ("types", .list (o.entries.map (·.payload)))]

end Model

def Omission.payload (o : Omission) : Payload :=
  .object [("unit", .text o.subject.label), ("name", .text o.name), ("reason", .text o.reason.text),
    ("line", .int o.line)]

end SourceOutline
