import ObjectModel.Float64.Basic
import ObjectModel.Kind
import ObjectModel.Slice

/-!
# Values

A value is a scalar, or a reference to something that has an identity of its own. Two values that
hold the same reference are the same object: what happens to one happens to the other. The contents
behind references are in a `Store`.
-/

namespace ObjectModel

/-- The place of an object among those of its sort. -/
structure Ref where
  /-- The number of objects of that sort that came before it. -/
  index : Nat
  deriving DecidableEq, Repr, Inhabited

/-- A value of the object model. -/
inductive Value where
  /-- The absent value. -/
  | none
  /-- A truth value, which counts as the integer 0 or 1. -/
  | bool (b : Bool)
  /-- An integer of any size. -/
  | int (n : Int)
  /-- A floating-point number. -/
  | float (x : Float64)
  /-- A complex number. -/
  | complex (re im : Float64)
  /-- A text. -/
  | str (text : String)
  /-- An immutable string of bytes. -/
  | bytes (bytes : List UInt8)
  /-- A mutable string of bytes. -/
  | bytearray (buffer : Ref)
  /-- An immutable sequence. -/
  | tuple (items : Ref)
  /-- A mutable sequence. -/
  | list (items : Ref)
  /-- A mutable set. -/
  | set (table : Ref)
  /-- An immutable set. -/
  | frozenset (table : Ref)
  /-- A mutable map. -/
  | dict (table : Ref)
  /-- The bounds of a subscript. -/
  | slice (slice : Slice)
  /-- A cursor over a list. -/
  | listIterator (cursor : Ref)
  /-- A cursor over the elements of a set. -/
  | setIterator (cursor : Ref)
  /-- A cursor over the keys of a map. -/
  | dictKeyIterator (cursor : Ref)
  /-- A cursor over a sequence that cannot change. -/
  | seqIterator (cursor : Ref)
  /-- A source whose elements pass through a function one by one. -/
  | map (mapping : Ref)
  /-- A function, known by its name. -/
  | builtin (name : String)
  /-- A record of the host: named fields without a kind of their own. -/
  | hostObject (fields : Ref)
  deriving DecidableEq, Repr

namespace Value

instance : Inhabited Value where
  default := none

/-- The kind of a value. -/
def kind : Value → Kind
  | none => .none
  | bool _ => .bool
  | int _ => .int
  | float _ => .float
  | complex .. => .complex
  | str _ => .str
  | bytes _ => .bytes
  | bytearray _ => .bytearray
  | tuple _ => .tuple
  | list _ => .list
  | set _ => .set
  | frozenset _ => .frozenset
  | dict _ => .dict
  | slice _ => .slice
  | listIterator _ => .listIterator
  | setIterator _ => .setIterator
  | dictKeyIterator _ => .dictKeyIterator
  | seqIterator _ => .seqIterator
  | map _ => .map
  | builtin _ => .builtin
  | hostObject _ => .hostObject

/-- Whether the kind of the value is one of the given ones. -/
def isOneOf (value : Value) (kinds : KindSet) : Bool :=
  decide (value.kind ∈ kinds)

/-- Whether a call of the value can succeed. -/
def isCallable : Value → Bool
  | builtin _ => true
  | _ => false

/-- The integer that a value is; a truth value is 0 or 1. -/
def integer? : Value → Option Int
  | int n => some n
  | bool b => some b.toInt
  | _ => Option.none

/-- The integer that a value is, if it fits a word. -/
def word? (value : Value) : Option Int :=
  value.integer?.filter Word.fits

/-- The text that a value is. -/
def text? : Value → Option String
  | str text => some text
  | _ => Option.none

/-- The table of a set of either kind. -/
def setTable? : Value → Option Ref
  | set table | frozenset table => some table
  | _ => Option.none

/-- A text of one character. -/
def char (c : Char) : Value :=
  str (String.singleton c)

/-- A byte as an integer. -/
def byte (b : UInt8) : Value :=
  int b.toNat

/-- Whether the value has an identity that an observer can compare: containers that can change,
sets, and iterators have. -/
def hasIdentity : Value → Bool
  | list _ | set _ | frozenset _ | dict _ | bytearray _ | listIterator _ | setIterator _
  | dictKeyIterator _ | seqIterator _ | map _ => true
  | _ => false

/-- Whether two values with an identity are the same object. -/
def same? (left right : Value) : Option Bool :=
  if left.hasIdentity && right.hasIdentity then some (left == right) else Option.none

end Value
end ObjectModel
