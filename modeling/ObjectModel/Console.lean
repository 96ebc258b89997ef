import ObjectModel.Fault

/-!
# The console

A console with a fixed script: it shows prompts, of which it keeps a record, and answers each with
the next line of the script.
-/

namespace ObjectModel

/-- A console that answers from a script. -/
structure Console where
  /-- The lines that have not been read. -/
  script : List String := []
  /-- The prompts that have been shown, the last one first. -/
  shown : List String := []
  deriving DecidableEq, Repr

namespace Console

/-- A line without the line feed at its end, or without the carriage return and the line feed. -/
def stripLineEnd (line : String) : String :=
  match line.toList.reverse with
  | '\n' :: '\r' :: rest => String.ofList rest.reverse
  | '\n' :: rest => String.ofList rest.reverse
  | _ => line

/-- Shows a prompt and reads the next line. The prompt is recorded even if there is none. -/
def readLine (console : Console) (prompt : String) : Except Fault String × Console :=
  let shown := prompt :: console.shown
  match console.script with
  | [] => (.error .endOfInput, { console with shown })
  | line :: script => (.ok (stripLineEnd line), { script, shown })

/-- The prompts in the order in which they were shown. -/
def prompts (console : Console) : List String :=
  console.shown.reverse

end Console
end ObjectModel
