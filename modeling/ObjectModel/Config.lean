import ObjectModel.Text.Blank

/-!
# Configuration

Two settings choose between variants of messages. Neither has an effect on whether an operation
succeeds or on what it returns.
-/

namespace ObjectModel

/-- The edition of the object model whose wording messages follow. -/
inductive Edition where
  /-- Messages about subscripts speak of integers only. -/
  | v34
  /-- Messages about subscripts speak of integers and slices. -/
  | v35
  deriving DecidableEq, Repr

namespace Edition

instance : Inhabited Edition where
  default := v35

/-- Reads an edition, with or without the point and with blanks around it. -/
def parse? (text : String) : Option Edition :=
  match Text.trim text with
  | "3.4" | "34" => some v34
  | "3.5" | "35" => some v35
  | _ => none

end Edition

/-- How a sum reports a failure that occurs while it folds. -/
inductive SumReport where
  /-- One fixed message for every failure. -/
  | uniform
  /-- The failure itself. -/
  | precise
  deriving DecidableEq, Repr

namespace SumReport

instance : Inhabited SumReport where
  default := uniform

/-- A letter A to Z in lower case, and any other character as it is. -/
def lower (c : Char) : Char :=
  if 'A' ≤ c ∧ c ≤ 'Z' then Char.ofNat (c.toNat + 32) else c

/-- Reads the name of a policy in any mixture of ASCII cases, with blanks around it. -/
def parse? (text : String) : Option SumReport :=
  match String.ofList ((Text.trim text).toList.map lower) with
  | "compat" => some uniform
  | "precise" => some precise
  | _ => none

end SumReport

/-- The settings of the object model. -/
structure Config where
  /-- The wording of messages about subscripts. -/
  edition : Edition := default
  /-- The report of a failing sum. -/
  sumReport : SumReport := default
  deriving DecidableEq, Repr

namespace Config

/-- The variable that selects the edition. -/
def editionVariable : String := "TARN_COMPAT"

/-- The variable that selects the report of a failing sum. -/
def sumReportVariable : String := "TARN_SUM_ERRORS"

/-- The configuration that a set of variables describes. A variable that is unset or that cannot be
read leaves the default in place. -/
def ofLookup (lookup : String → Option String) : Config where
  edition := ((lookup editionVariable).bind Edition.parse?).getD default
  sumReport := ((lookup sumReportVariable).bind SumReport.parse?).getD default

end Config
end ObjectModel
