import Muster.Json.Member
import Muster.Json.Printer
import Muster.Table.Deployment

namespace Muster

open Muster.Json

namespace Version

def fieldNames : List String := ["version", "etag"]

def toJson (version : Version) : Value :=
  .record [("version", .int version.counter.toInt), ("etag", .string version.token)]

def ofJson? (value : Value) : Option Version := do
  let fields ← value.fields? fieldNames
  some {
    counter := ← required fields "version" Value.int64?
    token := ← required fields "etag" Value.text? }

end Version

def Etag.toJson (etag : Etag) : Value := .string etag.token

def Etag.ofJson? (value : Value) : Option Etag := value.text?.map Etag.mk

namespace Row

def fieldNames : List String := ["entry", "etag"]

def toJson (row : Row) : Value := .record [("entry", row.entry.toJson), ("etag", row.etag.toJson)]

def ofJson? (value : Value) : Option Row := do
  let fields ← value.fields? fieldNames
  some {
    entry := ← required fields "entry" Entry.ofJson?
    etag := ← required fields "etag" Etag.ofJson? }

end Row

namespace Rows

def toJson (rows : Rows) : Value := .record (rows.toList.map fun (key, row) => (key, row.toJson))

def rowOfField? : Option String × Value → Option (String × Row)
  | (some key, value) => (Row.ofJson? value).map fun row => (key, row)
  | (none, _) => none

def ofJson? : Value → Option Rows
  | .object fields => (fields.mapM rowOfField?).map ofList
  | _ => none

end Rows

namespace Deployment

def fieldNames : List String := ["deployment_id", "version", "rows", "incarnation", "etag_sequence"]

def toJson (table : Deployment) : Value :=
  .record [
    ("deployment_id", .string table.id),
    ("version", Value.optional Version.toJson table.version),
    ("rows", table.rows.toJson),
    ("incarnation", .int table.incarnation.toNat),
    ("etag_sequence", .int table.sequence.toNat)]

-- A document without an incarnation has incarnation 0.
def ofJson? (value : Value) : Option Deployment := do
  let fields ← value.fields? fieldNames
  some {
    id := ← required fields "deployment_id" Value.text?
    version := ← defaulted fields "version" none (Value.orNull? Version.ofJson?)
    rows := ← required fields "rows" Rows.ofJson?
    incarnation := ← defaulted fields "incarnation" 0 Value.uint64?
    sequence := ← required fields "etag_sequence" Value.uint64? }

def document (table : Deployment) : String := table.toJson.pretty

def ofDocument? (document : String) : Option Deployment := (Value.ofText? document).bind ofJson?

-- Only what is kept of a document has to be text.
def ofBytes? (bytes : ByteArray) : Option Deployment := (Value.ofBytes? bytes).bind ofJson?

end Deployment
end Muster
