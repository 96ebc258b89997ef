import ObjectModel.Float64.Text
import ObjectModel.Store
import ObjectModel.Text.Quoted

/-!
# Values as text

Every value has a representation in the notation of its kind, and a display form, which is the same
except that a text displays as it is.
-/

namespace ObjectModel
namespace Store

/-- Texts with commas between them. -/
def commaSeparated (texts : List String) : String :=
  ", ".intercalate texts

/-- A text in braces. -/
def inBraces (text : String) : String :=
  "\x7b" ++ text ++ "\x7d"

/-- The representation of a value that nests to less than the given depth. -/
def reprWithin (store : Store) : Nat → Value → String
  | 0, _ => "..."
  | depth + 1, value =>
    match value with
    | .none => "None"
    | .bool true => "True"
    | .bool false => "False"
    | .int n => toString n
    | .float x => x.text
    | .complex re im => Float64.complexText re im
    | .str text => Text.quoted text
    | .bytes bytes => Text.quotedBytes bytes
    | .bytearray ref => "bytearray(" ++ Text.quotedBytes (store.buffer ref) ++ ")"
    | .tuple ref =>
      match store.tuple ref with
      | [only] => "(" ++ reprWithin store depth only ++ ",)"
      | items => "(" ++ commaSeparated (items.map (reprWithin store depth)) ++ ")"
    | .list ref => "[" ++ commaSeparated ((store.list ref).map (reprWithin store depth)) ++ "]"
    | .set ref =>
      if (store.table ref).isEmpty then "set()"
      else inBraces (commaSeparated ((store.elements ref).map (reprWithin store depth)))
    | .frozenset ref =>
      if (store.table ref).isEmpty then "frozenset()"
      else
        let elements := (store.elements ref).map (reprWithin store depth)
        "frozenset(" ++ inBraces (commaSeparated elements) ++ ")"
    | .dict ref =>
      inBraces (commaSeparated ((store.table ref).entries.map fun entry =>
        reprWithin store depth entry.key ++ ": " ++ reprWithin store depth entry.value))
    | .slice slice => slice.text
    | .listIterator _ | .setIterator _ | .dictKeyIterator _ | .seqIterator _ | .map _ =>
      "<" ++ value.kind.name ++ " object at 0x99999999>"
    | .builtin name => "<built-in function " ++ name ++ ">"
    | .hostObject ref =>
      inBraces (commaSeparated ((store.record ref).map fun field =>
        Text.quoted field.1 ++ ": " ++ reprWithin store depth field.2))

/-- The representation of a value. -/
def repr (store : Store) (value : Value) : String :=
  store.reprWithin store.depth value

/-- The display form of a value. -/
def display (store : Store) : Value → String
  | .str text => text
  | value => store.repr value

end Store
end ObjectModel
