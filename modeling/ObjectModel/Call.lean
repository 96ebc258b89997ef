import ObjectModel.Builtin

/-!
# Calls and steps

The step of a mapping steps through its source and then calls a function, and functions step through
iterators, which may be the same mapping again. So steps nest, and how deep is not known beforehand.
A step that may nest to a given depth at most is an attempt at the step, and the step is what the
first attempt does that is deep enough.
-/

namespace ObjectModel

open Effect

/-- Calls a value. The functions of the object model come before those of the host. -/
def callBy (context : Context) (next : Value → Effect Value) (function : Value) (frame : Frame) :
    Effect Value := do
  match function with
  | .builtin name =>
    match Builtin.ofName? name, context.function? name with
    | some builtin, _ => builtin.run context.config next frame
    | none, some host => host next (← ofExcept frame.arguments)
    | none, none => throw (.notCallable function.kind)
  | _ => throw (.notCallable function.kind)

/-- The next element of an iterator, by the steps of iterators that it rests on. A mapping asks for
its iterator first, then whether its function can be called, and then for an element. -/
def stepBy (context : Context) (next : Value → Effect Value) (iterator : Value) : Effect Value := do
  match iterator with
  | .listIterator ref => nextInList ref
  | .setIterator ref | .dictKeyIterator ref => nextInTable ref
  | .seqIterator ref => nextInSequence ref
  | .map ref =>
    let source ← sourceIterator ref
    let function := ((← getStore).mappings.get ref).function
    if function.isCallable then
      let item ← next source
      callBy context next function (.ofList [item])
    else throw (.notCallable function.kind)
  | _ => throw (.notIterator iterator.kind)

/-- The next element of an iterator, where steps nest to less than the given depth. -/
def nextWithin (context : Context) : Nat → Value → Effect Value
  | 0, _ => throw .endless
  | depth + 1, iterator => stepBy context (nextWithin context depth) iterator

namespace Value

/-- The next element of an iterator. -/
def next (context : Context) (iterator : Value) : Effect Value :=
  unbounded fun depth => nextWithin context depth iterator

/-- The next element of an iterator, or `none` at its end. -/
def nextItem (context : Context) (iterator : Value) : Effect (Option Value) :=
  nextItemBy (next context) iterator

/-- Calls a value. -/
def call (context : Context) (function : Value) (frame : Frame) : Effect Value :=
  callBy context (next context) function frame

/-- The elements of a value. -/
def collect (context : Context) (source : Value) : Effect (List Value) :=
  collectItems (next context) source

/-- Does something with each element of a value, until it fails. -/
def forEach (context : Context) (source : Value) (body : Value → Effect Unit) : Effect Unit :=
  foldItems (next context) source (fun _ item => body item) ()

/-- A list made as by a call of the function for lists. -/
def listFrom (context : Context) (arguments : List Value) : Effect Value :=
  listOf (next context) arguments

/-- A set made as by a call of the function for sets. -/
def setFrom (context : Context) (sort : SetKind) (arguments : List Value) : Effect Value :=
  setOf sort (next context) arguments

end Value
end ObjectModel
