import ObjectModel.Arithmetic
import ObjectModel.Iteration

/-!
# Built-in functions

The functions that the object model brings along. A call hands them a frame of arguments; each one
asks for the positional frame first, refuses keywords unless it ignores them, and then looks at the
number of arguments.
-/

namespace ObjectModel

open Effect

/-- The arguments of a call. -/
structure Frame where
  /-- The positional arguments; the engine always passes some, if only an empty list. -/
  positional : Option (List Value)
  /-- The keyword arguments. -/
  keywords : List (String × Value) := []

namespace Frame

/-- A frame of positional arguments. -/
def ofList (arguments : List Value) : Frame where
  positional := some arguments

/-- A frame without any arguments, not even an empty list. -/
def missing : Frame where
  positional := none

/-- The positional arguments. -/
def arguments (frame : Frame) : Except Fault (List Value) :=
  match frame.positional with
  | some arguments => .ok arguments
  | none => .error .missingFrame

/-- The positional arguments of a function that takes no keywords. -/
def onlyPositional (frame : Frame) (name : String) : Except Fault (List Value) := do
  let arguments ← frame.arguments
  if frame.keywords.isEmpty then return arguments else throw (.noKeywords name)

end Frame

namespace Effect

/-- A list: empty, or of the elements of one source. -/
def listOf (next : Value → Effect Value) (arguments : List Value) : Effect Value := do
  let store ← getStore
  match arguments with
  | [] => newList []
  | [.list ref] => newList (store.list ref)
  | [.tuple ref] => newList (store.tuple ref)
  | [source] => newList (← collectItems next source)
  | _ => throw (.takesAtMostOne "list" arguments.length)

/-- A set: empty, or of the elements of one source. -/
def setOf (sort : SetKind) (next : Value → Effect Value) (arguments : List Value) :
    Effect Value := do
  match arguments with
  | [] => newSet sort []
  | [source] =>
    match (← getStore).setSource? source with
    | some elements => newSet sort elements
    | none => newSet sort (← collectItems next source)
  | _ => throw (.expectedAtMost sort.kind.name 1 arguments.length)

/-- A map: the fields of a host object under their names. -/
def dictOfHost (fields : List (String × Value)) : Effect Value := do
  let table ← read (·.tableOfPairs (fields.map fun field => (.str field.1, field.2)))
  return .dict (← newTable table)

/-- Shows a prompt and reads the next line. -/
def readLine (prompt : String) : Effect Value := do
  let world ← get
  let (outcome, console) := world.console.readLine prompt
  set { world with console }
  return .str (← ofExcept outcome)

/-- The sum of a start and the elements of a source, from left to right. -/
def sumOf (next : Value → Effect Value) (source start : Value) : Effect Value :=
  foldItems next source (fun total item => total.binary .add item) start

end Effect

/-- The functions of the object model. -/
inductive Builtin where
  | bytearray
  | frozenset
  | input
  | iter
  | len
  | list
  | map
  | repr
  | set
  | str
  | sum
  deriving DecidableEq, Repr

namespace Builtin

/-- Every function, in the order of the names. -/
def all : List Builtin :=
  [bytearray, frozenset, input, iter, len, list, map, repr, set, str, sum]

/-- The name of a function. -/
def name : Builtin → String
  | bytearray => "bytearray"
  | frozenset => "frozenset"
  | input => "input"
  | iter => "iter"
  | len => "len"
  | list => "list"
  | map => "map"
  | repr => "repr"
  | set => "set"
  | str => "str"
  | sum => "sum"

/-- The function with the given name. -/
def ofName? (name : String) : Option Builtin :=
  all.find? (·.name == name)

/-- The function as a value. -/
def toValue (function : Builtin) : Value :=
  .builtin function.name

/-- A byte array with the bytes of another value. Other ways to make one are not implemented. -/
def runBytearray (frame : Frame) : Effect Value := do
  match ← ofExcept (frame.onlyPositional "bytearray") with
  | [source] =>
    match (← getStore).bytes? source with
    | some bytes => newBytearray bytes
    | none => throw (.notImplemented "Not implemented")
  | _ => throw (.notImplemented "Not implemented")

/-- A line of input, after a prompt if one is given. -/
def runInput (frame : Frame) : Effect Value := do
  match ← ofExcept frame.arguments with
  | [] => readLine ""
  | [prompt] => readLine ((← getStore).display prompt)
  | arguments => throw (.expectedAtMost "input" 1 arguments.length)

/-- An iterator over a value; that of a host object yields the names of its fields. -/
def runIter (frame : Frame) : Effect Value := do
  match ← ofExcept (frame.onlyPositional "iter") with
  | [] => throw (.expectedAtLeast "iter()" 1 0)
  | [.hostObject ref] =>
    let wrapped ← dictOfHost ((← getStore).record ref)
    wrapped.iter
  | [source] => source.iter
  | [_, _] =>
    throw (.notImplemented "Builtin function 'iter' with callable/sentinel not implemented")
  | arguments => throw (.expectedAtMost "iter()" 2 arguments.length)

/-- The number of elements that a value holds. -/
def runLen (frame : Frame) : Effect Value := do
  match ← ofExcept frame.arguments with
  | [value] =>
    match (← getStore).length? value with
    | some length => return .int length
    | none => throw (.noLength value.kind)
  | arguments => throw (.takesOne "len" arguments.length)

/-- A mapping of a function over a source. Further arguments have no effect, and neither the
function nor the source is looked at yet. -/
def runMap (frame : Frame) : Effect Value := do
  match ← ofExcept (frame.onlyPositional "map") with
  | function :: source :: _ => newMap function source
  | arguments => throw (.expectedAtLeast "map" 2 arguments.length)

/-- The representation of a value. -/
def runRepr (frame : Frame) : Effect Value := do
  match ← ofExcept (frame.onlyPositional "repr") with
  | [value] => return .str ((← getStore).repr value)
  | arguments => throw (.takesOne "repr" arguments.length)

/-- The display form of a value, or an empty text. -/
def runStr (frame : Frame) : Effect Value := do
  match ← ofExcept (frame.onlyPositional "str") with
  | [] => return .str ""
  | [value] => return .str ((← getStore).display value)
  | arguments => throw (.takesAtMostOne "str" arguments.length)

/-- A sum. What fails while it folds is reported as the configuration says. -/
def runSum (config : Config) (next : Value → Effect Value) (frame : Frame) : Effect Value := do
  let (source, start) ←
    match ← ofExcept (frame.onlyPositional "sum") with
    | [] => throw .sumOfNothing
    | [source] => pure (source, .int 0)
    | [source, start] => pure (source, start)
    | arguments => throw (.sumOfTooMany arguments.length)
  tryCatch (sumOf next source start) fun fault => throw (fault.reportedBy config.sumReport)

/-- Calls a function. -/
def run (config : Config) (next : Value → Effect Value) (function : Builtin) (frame : Frame) :
    Effect Value := do
  match function with
  | bytearray => runBytearray frame
  | frozenset => setOf .frozen next (← ofExcept (frame.onlyPositional "frozenset"))
  | input => runInput frame
  | iter => runIter frame
  | len => runLen frame
  | list => listOf next (← ofExcept (frame.onlyPositional "list"))
  | map => runMap frame
  | repr => runRepr frame
  | set => setOf .mutable next (← ofExcept (frame.onlyPositional "set"))
  | str => runStr frame
  | sum => runSum config next frame

end Builtin
end ObjectModel
