import ObjectModel.Kind
import ObjectModel.Operator
import ObjectModel.Config

/-!
# Faults

Why an operation fails. A fault is a cause; its category says how an engine around the object model
has to report it, and its message is the exact text of that report.
-/

namespace ObjectModel

namespace Fault

/-- How a fault is to be reported. -/
inductive Category where
  /-- Wrong kind of operand, wrong number of arguments, unsupported operator. -/
  | typeError
  /-- Right kind, but an invalid value. -/
  | valueError
  /-- A subscript outside the addressable range. -/
  | indexError
  /-- A missing key. -/
  | keyError
  /-- A result too large for memory. -/
  | memoryError
  /-- An unknown method. -/
  | attributeError
  /-- A documented form that is deliberately absent. -/
  | notImplementedError
  /-- The end of a sequence, which only loops over it may consume. -/
  | stopIteration
  /-- The end of the prompt's input. -/
  | eofError
  /-- A malformed call frame: a defect of the engine and not of its user. -/
  | callingConvention
  /-- None: what does not end is never reported. -/
  | unreported
  deriving DecidableEq, Repr

/-- The name of a category in reports. -/
def Category.name : Category → String
  | typeError => "TypeError"
  | valueError => "ValueError"
  | indexError => "IndexError"
  | keyError => "KeyError"
  | memoryError => "MemoryError"
  | attributeError => "AttributeError"
  | notImplementedError => "NotImplementedError"
  | stopIteration => "StopIteration"
  | eofError => "EOFError"
  | callingConvention => "CallingConventionError"
  | unreported => "Unreported"

end Fault

/-- What happened instead of a result. -/
inductive Fault where
  /-- A binary operator has no meaning for these operands. -/
  | unsupportedOperands (op : BinaryOperator) (inplace : Bool) (left right : Kind)
  /-- A unary operator has no meaning for this operand. -/
  | unsupportedOperand (op : UnaryOperator) (operand : Kind)
  /-- The operands have no order. -/
  | unorderable (op : Comparison) (left right : Kind)
  /-- A sequence is repeated by something other than an integer. -/
  | repeatedByNonInt (count : Kind)
  /-- A sequence is joined to a value of another kind. -/
  | joinedToOther (sequence other : Kind)
  /-- Repetition makes a sequence that does not fit into memory. -/
  | sequenceTooLarge
  /-- Floor division involves a complex number. -/
  | floorOfComplex
  /-- Modulo involves a complex number. -/
  | modOfComplex
  /-- The value has no elements to step through. -/
  | notIterable (kind : Kind)
  /-- The value has no members to test for. -/
  | notSearchable (kind : Kind)
  /-- Something other than text is sought in a text. -/
  | soughtInText (item : Kind)
  /-- The value has no next element. -/
  | notIterator (kind : Kind)
  /-- The value cannot be called. -/
  | notCallable (kind : Kind)
  /-- The value cannot be a key. -/
  | unhashable (kind : Kind)
  /-- The kind has no such method. -/
  | noAttribute (kind : Kind) (name : String)
  /-- A function of one argument got another number of them. -/
  | takesOne (name : String) (given : Nat)
  /-- A function without arguments got some. -/
  | takesNone (name : String) (given : Nat)
  /-- A function of at most one argument got more. -/
  | takesAtMostOne (name : String) (given : Nat)
  /-- More arguments came than the bound. -/
  | expectedAtMost (label : String) (bound given : Nat)
  /-- Fewer arguments came than the bound. -/
  | expectedAtLeast (label : String) (bound given : Nat)
  /-- Another number of arguments came than the one needed. -/
  | expectedExactly (label : String) (count given : Nat)
  /-- A sum got no argument at all. -/
  | sumOfNothing
  /-- A sum got more than a source and a start. -/
  | sumOfTooMany (given : Nat)
  /-- A sum failed while it folded, and reports no more than that. -/
  | sumFailed
  /-- The value has no length. -/
  | noLength (kind : Kind)
  /-- The function takes no keyword arguments. -/
  | noKeywords (name : String)
  /-- A call came without a frame of positional arguments. -/
  | missingFrame
  /-- The form of the call is documented and deliberately absent. -/
  | notImplemented (text : String)
  /-- An integer subscript lies outside the sequence. -/
  | indexOutOfRange (sequence : String)
  /-- An integer does not fit the size of an index. -/
  | indexTooLarge
  /-- A subscript is neither an integer nor a slice. -/
  | badIndex (sequence : String) (edition : Edition) (index : Kind)
  /-- An element is taken from an empty list. -/
  | popFromEmpty
  /-- The value to remove does not occur in the list. -/
  | notInList
  /-- A slice has step zero. -/
  | zeroStep
  /-- The key does not occur; `key` is its representation. -/
  | missingKey (key : String)
  /-- The kind has no subscripts. -/
  | notSubscriptable (kind : Kind)
  /-- The kind has no integer subscripts. -/
  | noIndexing (kind : Kind)
  /-- A byte is not given by an integer. -/
  | byteNotInt (kind : Kind)
  /-- Something other than bytes is sought in bytes. -/
  | bytesRequired (kind : Kind)
  /-- The integer is no byte. -/
  | byteOutOfRange
  /-- The sequence has ended. -/
  | endOfSequence
  /-- The prompt has no further line. -/
  | endOfInput
  /-- A function of the host reports a fault of its own. -/
  | raised (category : Fault.Category) (text : String)
  /-- The computation does not end. No effect recovers from that. -/
  | endless
  deriving DecidableEq, Repr

namespace Fault

/-- The category of a fault. -/
def category : Fault → Category
  | sequenceTooLarge => .memoryError
  | noAttribute .. => .attributeError
  | missingFrame => .callingConvention
  | notImplemented _ => .notImplementedError
  | indexOutOfRange _ | indexTooLarge | popFromEmpty => .indexError
  | notInList | zeroStep | byteOutOfRange => .valueError
  | missingKey _ => .keyError
  | endOfSequence => .stopIteration
  | endOfInput => .eofError
  | raised category _ => category
  | endless => .unreported
  | unsupportedOperands .. | unsupportedOperand .. | unorderable .. | repeatedByNonInt _
  | joinedToOther .. | floorOfComplex | modOfComplex | notIterable _ | notSearchable _
  | soughtInText _ | notIterator _ | notCallable _ | unhashable _ | takesOne .. | takesNone ..
  | takesAtMostOne .. | expectedAtMost .. | expectedAtLeast .. | expectedExactly .. | sumOfNothing
  | sumOfTooMany _ | sumFailed | noLength _ | noKeywords _ | badIndex .. | notSubscriptable _
  | noIndexing _ | byteNotInt _ | bytesRequired _ => .typeError

/-- What a message calls the subscripts that a sequence accepts. -/
def acceptedIndices : Edition → String
  | .v34 => "integers"
  | .v35 => "integers or slices"

/-- The exact text of a fault; it may be empty. -/
def message : Fault → String
  | unsupportedOperands op inplace left right =>
    s!"unsupported operand type(s) for {op.messageSymbol inplace}: '{left.name}' and '{right.name}'"
  | unsupportedOperand op operand =>
    s!"bad operand type for unary {op.symbol}: '{operand.name}'"
  | unorderable op left right =>
    s!"unorderable types: {left.name}() {op.symbol} {right.name}()"
  | repeatedByNonInt count => s!"can't multiply sequence by non-int of type '{count.name}'"
  | joinedToOther sequence other =>
    s!"can only concatenate {sequence.name} (not \"{other.name}\") to {sequence.name}"
  | sequenceTooLarge => ""
  | floorOfComplex => "can't take floor of complex number."
  | modOfComplex => "can't mod complex numbers."
  | notIterable kind => s!"'{kind.name}' object is not iterable"
  | notSearchable kind => s!"argument of type '{kind.name}' is not iterable"
  | soughtInText item => s!"'in <string>' requires string as left operand, not {item.name}"
  | notIterator kind => s!"'{kind.name}' object is not an iterator"
  | notCallable kind => s!"'{kind.name}' object is not callable"
  | unhashable kind => s!"unhashable type: '{kind.name}'"
  | noAttribute kind name => s!"'{kind.name}' object has no attribute '{name}'"
  | takesOne name given => s!"{name}() takes exactly one argument ({given} given)"
  | takesNone name given => s!"{name}() takes no arguments ({given} given)"
  | takesAtMostOne name given => s!"{name}() takes at most 1 argument ({given} given)"
  | expectedAtMost label bound given => s!"{label} expected at most {bound} arguments, got {given}"
  | expectedAtLeast label bound given =>
    s!"{label} expected at least {bound} arguments, got {given}"
  | expectedExactly label count given => s!"{label} expected {count} arguments, got {given}"
  | sumOfNothing => "sum() expected at least 1 argument, got 0"
  | sumOfTooMany given => s!"sum() expected at most 2 argument, got {given}"
  | sumFailed => "bad operand type for sum(): 'NoneType'"
  | noLength kind => s!"object of type '{kind.name}' has no len()"
  | noKeywords name => s!"{name}() doesn't accept keyword arguments"
  | missingFrame => "calling convention not used."
  | notImplemented text => text
  | indexOutOfRange sequence => s!"{sequence} index out of range"
  | indexTooLarge => "cannot fit 'int' into an index-sized integer"
  | badIndex sequence edition index =>
    s!"{sequence} indices must be {acceptedIndices edition}, not {index.name}"
  | popFromEmpty => "pop from empty list"
  | notInList => "list.remove(x): x not in list"
  | zeroStep => "slice step cannot be zero"
  | missingKey key => key
  | notSubscriptable kind => s!"'{kind.name}' object is not subscriptable"
  | noIndexing kind => s!"'{kind.name}' object does not support indexing"
  | byteNotInt kind => s!"an integer is required (got type {kind.name})"
  | bytesRequired kind => s!"a bytes-like object is required, not '{kind.name}'"
  | byteOutOfRange => "byte must be in range(0, 256)"
  | endOfSequence => ""
  | endOfInput => "EOF when reading a line"
  | raised _ text => text
  | endless => "the computation does not end"

/-- Whether the fault is the signal that a sequence has ended. -/
def isEndOfSequence (fault : Fault) : Bool :=
  fault.category == .stopIteration

/-- What a sum fails with when its fold has a fault. There is nothing to report where it does not
end. -/
def reportedBy (fault : Fault) : SumReport → Fault
  | .precise => fault
  | .uniform => if fault = .endless then .endless else .sumFailed

instance : ToString Fault where
  toString fault :=
    if fault.message.isEmpty then fault.category.name
    else s!"{fault.category.name}: {fault.message}"

end Fault
end ObjectModel
