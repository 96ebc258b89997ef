/-!
# Kinds of value

The classification of values is closed: every value has exactly one kind, and a set of kinds is a
bit mask, so a test such as "is this operand one of these kinds" looks at the tag alone.
-/

namespace ObjectModel

/-- The tag of a value. -/
inductive Kind where
  | none
  | bool
  | int
  | float
  | complex
  | str
  | bytes
  | bytearray
  | tuple
  | list
  | set
  | frozenset
  | dict
  | slice
  | listIterator
  | setIterator
  | dictKeyIterator
  | seqIterator
  | map
  | builtin
  | hostObject
  deriving DecidableEq, Repr

namespace Kind

/-- Every kind, once. -/
def all : List Kind :=
  [none, bool, int, float, complex, str, bytes, bytearray, tuple, list, set, frozenset, dict, slice,
    listIterator, setIterator, dictKeyIterator, seqIterator, map, builtin, hostObject]

theorem mem_all (kind : Kind) : kind ∈ all := by
  cases kind <;> decide

/-- The name under which messages speak of the kind. -/
def name : Kind → String
  | none => "NoneType"
  | bool => "bool"
  | int => "int"
  | float => "float"
  | complex => "complex"
  | str => "str"
  | bytes => "bytes"
  | bytearray => "bytearray"
  | tuple => "tuple"
  | list => "list"
  | set => "set"
  | frozenset => "frozenset"
  | dict => "dict"
  | slice => "slice"
  | listIterator => "list_iterator"
  | setIterator => "set_iterator"
  | dictKeyIterator => "dict_keyiterator"
  | seqIterator => "iterator"
  | map => "map"
  | builtin => "builtin_function_or_method"
  | hostObject => "host_object"

/-- The kind with the given name. -/
def ofName? (name : String) : Option Kind :=
  all.find? (·.name == name)

/-- The place of the kind in a mask. -/
def bit : Kind → Nat
  | none => 0
  | bool => 1
  | int => 2
  | float => 3
  | complex => 4
  | str => 5
  | bytes => 6
  | bytearray => 7
  | tuple => 8
  | list => 9
  | set => 10
  | frozenset => 11
  | dict => 12
  | slice => 13
  | listIterator => 14
  | setIterator => 15
  | dictKeyIterator => 16
  | map => 17
  | builtin => 18
  | hostObject => 19
  | seqIterator => 20

theorem bit_injective {kind other : Kind} (same : kind.bit = other.bit) : kind = other := by
  cases kind <;> cases other <;> first | rfl | simp [bit] at same

end Kind

/-- A set of kinds. -/
structure KindSet where
  /-- The mask: the bit of a kind is set exactly for the members. -/
  bits : Nat
  deriving DecidableEq, Repr

namespace KindSet

instance : EmptyCollection KindSet where
  emptyCollection := ⟨0⟩

instance : Membership Kind KindSet where
  mem kinds kind := kinds.bits.testBit kind.bit = true

instance (kind : Kind) (kinds : KindSet) : Decidable (kind ∈ kinds) :=
  inferInstanceAs (Decidable (kinds.bits.testBit kind.bit = true))

instance : Union KindSet where
  union left right := ⟨left.bits ||| right.bits⟩

/-- The set with one member. -/
def singleton (kind : Kind) : KindSet :=
  ⟨1 <<< kind.bit⟩

/-- The set of the listed kinds. -/
def ofList (kinds : List Kind) : KindSet :=
  kinds.foldl (fun acc kind => acc ∪ singleton kind) ∅

@[simp]
theorem not_mem_empty (kind : Kind) : kind ∉ (∅ : KindSet) := by
  simp [Membership.mem, EmptyCollection.emptyCollection]

@[simp]
theorem mem_union {kind : Kind} {left right : KindSet} :
    kind ∈ left ∪ right ↔ kind ∈ left ∨ kind ∈ right := by
  simp [Membership.mem, Union.union, Nat.testBit_or]

@[simp]
theorem mem_singleton {kind other : Kind} : kind ∈ singleton other ↔ kind = other := by
  simp only [Membership.mem, singleton, Nat.one_shiftLeft, Nat.testBit_two_pow, decide_eq_true_eq]
  exact ⟨fun same => (Kind.bit_injective same).symm, fun same => same ▸ rfl⟩

/-- The operands of set algebra. -/
def anySet : KindSet :=
  ofList [.set, .frozenset]

/-- The sequences of bytes. -/
def byteSequences : KindSet :=
  ofList [.bytes, .bytearray]

/-- The sources that extend a list in place. -/
def listExtendable : KindSet :=
  ofList [.list, .str, .tuple]

theorem mem_listExtendable_iff {kind : Kind} :
    kind ∈ listExtendable ↔ kind ∈ [Kind.list, .str, .tuple] := by
  simp [listExtendable, ofList, or_assoc]

/-- The sources whose elements a set takes over. -/
def setUpdatable : KindSet :=
  anySet ∪ listExtendable

theorem mem_setUpdatable_iff {kind : Kind} :
    kind ∈ setUpdatable ↔ kind ∈ [Kind.set, .frozenset, .list, .str, .tuple] := by
  simp [setUpdatable, anySet, ofList, mem_listExtendable_iff, or_assoc]

/-- The sequences, which repeat when they are multiplied. -/
def sequences : KindSet :=
  byteSequences ∪ listExtendable

theorem mem_sequences_iff {kind : Kind} :
    kind ∈ sequences ↔ kind ∈ [Kind.bytes, .bytearray, .list, .str, .tuple] := by
  simp [sequences, byteSequences, ofList, mem_listExtendable_iff, or_assoc]

/-- The kinds that answer `next`. -/
def iterators : KindSet :=
  ofList [.listIterator, .setIterator, .dictKeyIterator, .seqIterator, .map]

/-- The numbers; a truth value counts as an integer. -/
def numbers : KindSet :=
  ofList [.bool, .int, .float, .complex]

/-- The sets that have a label: one for each kind in the order of the mask, then the groups. -/
def labelled : List (String × KindSet) :=
  [("NONE", singleton .none), ("BOOL", singleton .bool), ("INT", singleton .int),
    ("FLOAT", singleton .float), ("COMPLEX", singleton .complex), ("STR", singleton .str),
    ("BYTES", singleton .bytes), ("BYTEARRAY", singleton .bytearray),
    ("TUPLE", singleton .tuple), ("LIST", singleton .list), ("SET", singleton .set),
    ("FROZENSET", singleton .frozenset), ("DICT", singleton .dict), ("SLICE", singleton .slice),
    ("LIST_ITERATOR", singleton .listIterator), ("SET_ITERATOR", singleton .setIterator),
    ("DICT_KEY_ITERATOR", singleton .dictKeyIterator), ("MAP", singleton .map),
    ("BUILTIN", singleton .builtin), ("HOST_OBJECT", singleton .hostObject),
    ("SEQ_ITERATOR", singleton .seqIterator), ("ANY_SET", anySet),
    ("BYTE_SEQUENCES", byteSequences), ("LIST_EXTENDABLE", listExtendable),
    ("SET_UPDATABLE", setUpdatable), ("SEQUENCES", sequences), ("ITERATORS", iterators),
    ("NUMBERS", numbers)]

/-- The set with the given label. -/
def ofLabel? (label : String) : Option KindSet :=
  labelled.lookup label

end KindSet
end ObjectModel
