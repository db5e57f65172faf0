import Muster.Json.Value

namespace Muster.Json
namespace Value

-- The values of the fields that a record of the given shape has. An object may leave fields out and
-- hold others that nobody asks for, but names none of its own twice. A list has them all in order.
def fields? (names : List String) : Value → Option (List (String × Value))
  | .object fields => do
    let named ← fields.mapM fun (name, value) => name.map fun name => (name, value)
    let known := named.filter fun (name, _) => names.contains name
    if (known.map fun (name, _) => name).Nodup then some known else none
  | .list items => if items.length = names.length then some (names.zip items) else none
  | _ => none

def text? : Value → Option String
  | .text value => value
  | _ => none

def bool? : Value → Option Bool
  | .bool value => some value
  | _ => none

def int? (least most : Int) : Value → Option Int
  | .number (some value) => if least ≤ value ∧ value ≤ most then some value else none
  | _ => none

def uint16? (value : Value) : Option UInt16 := (value.int? 0 0xffff).map fun n => .ofNat n.toNat

def uint32? (value : Value) : Option UInt32 := (value.int? 0 0xffffffff).map fun n => .ofNat n.toNat

def uint64? (value : Value) : Option UInt64 := (value.int? 0 0xffffffffffffffff).map fun n => .ofNat n.toNat

def int32? (value : Value) : Option Int32 :=
  (value.int? Int32.minValue.toInt Int32.maxValue.toInt).map Int32.ofInt

def int64? (value : Value) : Option Int64 :=
  (value.int? Int64.minValue.toInt Int64.maxValue.toInt).map Int64.ofInt

def list? (read : Value → Option α) : Value → Option (List α)
  | .list items => items.mapM read
  | _ => none

def orNull? (read : Value → Option α) : Value → Option (Option α)
  | .null => some none
  | value => (read value).map some

end Value

def required (fields : List (String × Value)) (name : String) (read : Value → Option α) : Option α :=
  (fields.lookup name).bind read

-- A field that stands for `default` when it is left out.
def defaulted (fields : List (String × Value)) (name : String) (default : α) (read : Value → Option α) :
    Option α :=
  match fields.lookup name with
  | some value => read value
  | none => some default

end Muster.Json
