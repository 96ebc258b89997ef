import ObjectModel.Call

/-!
# Methods

The methods of lists, sets, maps and byte arrays, found by kind and name.
-/

namespace ObjectModel

open Effect

/-- Takes the last item out of a list. -/
def Effect.popList (ref : Ref) : Effect Value := do
  let items := (← getStore).list ref
  match items.getLast? with
  | some item =>
    setList ref items.dropLast
    return item
  | none => throw .popFromEmpty

/-- Takes the first item that equals a value strictly out of a list. -/
def Effect.removeFromList (ref : Ref) (value : Value) : Effect Unit := do
  let store ← getStore
  let items := store.list ref
  match items.findIdx? (store.strictEquals · value) with
  | some place => setList ref (items.eraseIdx place)
  | none => throw .notInList

/-- The only argument of a method. -/
def onlyArgument (name : String) (arguments : List Value) : Except Fault Value :=
  match arguments with
  | [argument] => .ok argument
  | _ => .error (.takesOne name arguments.length)

/-- Refuses arguments. -/
def noArguments (name : String) (arguments : List Value) : Except Fault Unit :=
  if arguments.isEmpty then .ok () else .error (.takesNone name arguments.length)

namespace Effect

/-- A method of a list. -/
def callListMethod (context : Context) (ref : Ref) (name : String) (arguments : List Value) :
    Effect Value := do
  match name with
  | "append" =>
    extendList ref [← ofExcept (onlyArgument name arguments)]
    return .none
  | "extend" =>
    let items ←
      match ← ofExcept (onlyArgument name arguments) with
      | .list other => pure ((← getStore).list other)
      -- all elements come before the first one is added, so a list can extend itself
      | source => source.collect context
    extendList ref items
    return .none
  | "copy" =>
    ofExcept (noArguments name arguments)
    newList ((← getStore).list ref)
  | "pop" =>
    ofExcept (noArguments name arguments)
    popList ref
  | "remove" =>
    removeFromList ref (← ofExcept (onlyArgument name arguments))
    return .none
  | _ => throw (.noAttribute .list name)

/-- A method of a set. A frozenset has those that leave it as it is. -/
def callSetMethod (sort : SetKind) (ref : Ref) (name : String) (arguments : List Value) :
    Effect Value := do
  match sort, name with
  | .mutable, "add" =>
    addElement ref (← ofExcept (onlyArgument name arguments))
    return .none
  | .mutable, "remove" =>
    removeElement ref (← ofExcept (onlyArgument name arguments))
    return .none
  | .mutable, "update" =>
    updateSet ref (← ofExcept (onlyArgument name arguments))
    return .none
  | _, "copy" =>
    ofExcept (noArguments name arguments)
    return sort.toValue (← newTable ((← getStore).table ref))
  | _, _ => throw (.noAttribute sort.kind name)

/-- A method of a map. -/
def callDictMethod (ref : Ref) (name : String) (arguments : List Value) : Effect Value := do
  match name with
  | "keys" =>
    ofExcept (noArguments name arguments)
    newList ((← getStore).elements ref)
  | _ => throw (.noAttribute .dict name)

/-- A method of a byte array. -/
def callBytearrayMethod (ref : Ref) (name : String) (arguments : List Value) : Effect Value := do
  match name with
  | "append" =>
    let byte ← ofExcept do Sequence.byte? (← onlyArgument name arguments)
    setBuffer ref ((← getStore).buffer ref ++ [byte])
    return .none
  | _ => throw (.noAttribute .bytearray name)

end Effect

namespace Value

/-- Calls the method of a value that has the given name. -/
def callMethod (context : Context) (receiver : Value) (name : String) (arguments : List Value) :
    Effect Value :=
  match receiver with
  | .list ref => callListMethod context ref name arguments
  | .set ref => callSetMethod .mutable ref name arguments
  | .frozenset ref => callSetMethod .frozen ref name arguments
  | .dict ref => callDictMethod ref name arguments
  | .bytearray ref => callBytearrayMethod ref name arguments
  | _ => throw (.noAttribute receiver.kind name)

end Value
end ObjectModel
