import Sluice.Json.Document
import Sluice.Schema

/-!
Schemas as structured documents. What a field does not say is left out.
-/

namespace Sluice

def DataType.decode (doc : Json) : Except ShapeFault DataType :=
  (Document.variant (DataType.all.map DataType.name) doc).map fun name =>
    (DataType.ofName? name).getD .string

namespace Field

def encode (f : Field) : Json :=
  let word (name : String) (n : Option UInt32) : List (String × Json) :=
    n.toList.map fun n => (name, .ofNat n.toNat)
  .obj ([("name", .str f.name), ("data_type", .str f.type.name)] ++
    (f.format.toList.map fun text => ("format", .str text)) ++
    word "length" f.length ++ word "precision" f.precision)

def record : Record Json Field :=
  (((((Record.start "ValueMeta" 5 fun name type format length precision =>
    (⟨name, type, format, length, precision⟩ : Field)).required
    "name" Document.string).required
    "data_type" DataType.decode).optional
    "format" (Document.maybe Document.string) none).optional
    "length" (Document.maybe Document.word) none).optional
    "precision" (Document.maybe Document.word) none

end Field

namespace Schema

def encode (s : Schema) : Json :=
  .obj [("fields", .arr (s.fields.map Field.encode))]

def record : Record Json Schema :=
  (Record.start "RowSchema" 1 fun fields => (⟨fields⟩ : Schema)).required
    "fields" (Document.listOf (Field.record.decode false))

def decode (doc : Json) : Except ShapeFault Schema :=
  record.decode false doc

end Schema

end Sluice
