import SwitchCover.Bitwise
import SwitchCover.Text.Quoted

namespace SwitchCover

inductive ConstValue where
  | int (n : Int)
  | bool (b : Bool)
  | str (s : String)
deriving DecidableEq

namespace ConstValue

def asInt : ConstValue → Option Int
  | int n => some n
  | _ => none

def display : ConstValue → String
  | int n => toString n
  | bool b => if b then "true" else "false"
  | str s => Text.quote s

end ConstValue

inductive ArithOp where
  | add | sub | mul | div | rem | bitOr | bitAnd | bitXor | shiftLeft | shiftRight
deriving DecidableEq

inductive CompOp where
  | eq | notEq | lt | ltEq | gt | gtEq
deriving DecidableEq

inductive LogicalOp where
  | and | or
deriving DecidableEq

inductive BinaryOp where
  | arith (op : ArithOp)
  | comp (op : CompOp)
  | logical (op : LogicalOp)
deriving DecidableEq

inductive UnaryOp where
  | plus | minus | not | bitNot
deriving DecidableEq

namespace ArithOp

/-- Exact value of an operation on integers. Division truncates toward zero and the remainder has
the sign of the dividend; division by zero and shifts have no value. -/
def fold : ArithOp → Int → Int → Option Int
  | add, m, n => some (m + n)
  | sub, m, n => some (m - n)
  | mul, m, n => some (m * n)
  | div, m, n => if n = 0 then none else some (m.tdiv n)
  | rem, m, n => if n = 0 then none else some (m.tmod n)
  | bitOr, m, n => some (Bitwise.or m n)
  | bitAnd, m, n => some (Bitwise.and m n)
  | bitXor, m, n => some (Bitwise.xor m n)
  | shiftLeft, _, _ => none
  | shiftRight, _, _ => none

end ArithOp

namespace BinaryOp

def symbol : BinaryOp → String
  | arith .add => "+"
  | arith .sub => "-"
  | arith .mul => "*"
  | arith .div => "/"
  | arith .rem => "%"
  | arith .bitOr => "|"
  | arith .bitAnd => "&"
  | arith .bitXor => "^"
  | arith .shiftLeft => "<<"
  | arith .shiftRight => ">>"
  | comp .eq => "=="
  | comp .notEq => "!="
  | comp .lt => "<"
  | comp .ltEq => "<="
  | comp .gt => ">"
  | comp .gtEq => ">="
  | logical .and => "&&"
  | logical .or => "||"

def ofSymbol? : String → Option BinaryOp
  | "+" => some (arith .add)
  | "-" => some (arith .sub)
  | "*" => some (arith .mul)
  | "/" => some (arith .div)
  | "%" => some (arith .rem)
  | "|" => some (arith .bitOr)
  | "&" => some (arith .bitAnd)
  | "^" => some (arith .bitXor)
  | "<<" => some (arith .shiftLeft)
  | ">>" => some (arith .shiftRight)
  | "==" => some (comp .eq)
  | "!=" => some (comp .notEq)
  | "<" => some (comp .lt)
  | "<=" => some (comp .ltEq)
  | ">" => some (comp .gt)
  | ">=" => some (comp .gtEq)
  | "&&" => some (logical .and)
  | "||" => some (logical .or)
  | _ => none

/-- Value of an arithmetic operation on two integer constants; other operations and operands have
no value. -/
def foldValues : BinaryOp → ConstValue → ConstValue → Option ConstValue
  | arith op, .int m, .int n => (op.fold m n).map .int
  | _, _, _ => none

end BinaryOp

namespace UnaryOp

def symbol : UnaryOp → String
  | plus => "+"
  | minus => "-"
  | not => "!"
  | bitNot => "^"

def ofSymbol? : String → Option UnaryOp
  | "+" => some plus
  | "-" => some minus
  | "!" => some not
  | "^" => some bitNot
  | _ => none

def foldValue : UnaryOp → ConstValue → Option ConstValue
  | plus, v => some v
  | minus, .int n => some (.int (-n))
  | not, .bool b => some (.bool !b)
  | _, _ => none

end UnaryOp

end SwitchCover
