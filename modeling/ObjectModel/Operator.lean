/-!
# Operators

The binary, comparison and unary operators of the value protocol, with their symbols and the
spelling that messages give them.
-/

namespace ObjectModel

/-- Arithmetic and bitwise operators with two operands. -/
inductive BinaryOperator where
  | add
  | sub
  | mul
  | trueDiv
  | floorDiv
  | mod
  | pow
  | shiftLeft
  | shiftRight
  | and
  | xor
  | or
  deriving DecidableEq, Repr

namespace BinaryOperator

/-- Every binary operator, once. -/
def all : List BinaryOperator :=
  [add, sub, mul, trueDiv, floorDiv, mod, pow, shiftLeft, shiftRight, and, xor, or]

/-- The operator as it is written. -/
def symbol : BinaryOperator → String
  | add => "+"
  | sub => "-"
  | mul => "*"
  | trueDiv => "/"
  | floorDiv => "//"
  | mod => "%"
  | pow => "**"
  | shiftLeft => "<<"
  | shiftRight => ">>"
  | and => "&"
  | xor => "^"
  | or => "|"

/-- The operator with the given symbol. -/
def ofSymbol? (symbol : String) : Option BinaryOperator :=
  all.find? (·.symbol == symbol)

/-- The spelling in a message about operand types: an in-place operator carries its `=`, but power
is spelled the same way in both forms. -/
def messageSymbol (op : BinaryOperator) (inplace : Bool) : String :=
  match op, inplace with
  | pow, _ => "** or pow()"
  | op, true => op.symbol ++ "="
  | op, false => op.symbol

end BinaryOperator

/-- Comparison operators. -/
inductive Comparison where
  | lt
  | le
  | eq
  | ne
  | gt
  | ge
  deriving DecidableEq, Repr

namespace Comparison

/-- Every comparison operator, once. -/
def all : List Comparison :=
  [lt, le, eq, ne, gt, ge]

/-- The operator as it is written. -/
def symbol : Comparison → String
  | lt => "<"
  | le => "<="
  | eq => "=="
  | ne => "!="
  | gt => ">"
  | ge => ">="

/-- The operator with the given symbol. -/
def ofSymbol? (symbol : String) : Option Comparison :=
  all.find? (·.symbol == symbol)

/-- Whether the operator asks for an order and not only for equality. -/
def needsOrder : Comparison → Bool
  | eq | ne => false
  | lt | le | gt | ge => true

/-- Whether two things in the given order satisfy the operator. -/
def accepts : Comparison → Ordering → Bool
  | lt, order => order == .lt
  | le, order => order != .gt
  | eq, order => order == .eq
  | ne, order => order != .eq
  | gt, order => order == .gt
  | ge, order => order != .lt

/-- The operator that holds of swapped operands. -/
def swap : Comparison → Comparison
  | lt => gt
  | le => ge
  | eq => eq
  | ne => ne
  | gt => lt
  | ge => le

theorem accepts_swap (op : Comparison) (order : Ordering) :
    op.swap.accepts order.swap = op.accepts order := by
  cases op <;> cases order <;> rfl

end Comparison

/-- Operators with one operand. -/
inductive UnaryOperator where
  | pos
  | neg
  | not
  | invert
  deriving DecidableEq, Repr

namespace UnaryOperator

/-- Every unary operator, once. -/
def all : List UnaryOperator :=
  [pos, neg, not, invert]

/-- The operator as it is written. -/
def symbol : UnaryOperator → String
  | pos => "+"
  | neg => "-"
  | not => "not"
  | invert => "~"

/-- The operator with the given symbol. -/
def ofSymbol? (symbol : String) : Option UnaryOperator :=
  all.find? (·.symbol == symbol)

end UnaryOperator
end ObjectModel
