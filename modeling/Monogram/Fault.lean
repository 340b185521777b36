import Monogram.Tree.Expr
import Monogram.Value.Basic

/-! # Faults

An operation that makes no sense ends the run.  A program cannot handle a fault.
-/

namespace Monogram

/-- What the outside world may refuse. -/
inductive IoProblem where
  | notFound
  | isDirectory
  | notDirectory
  | invalidUtf8
  | nulInName
  | other (text : String)
deriving DecidableEq, Repr

/-- The problem in the words of the system. -/
def IoProblem.message : IoProblem → String
  | .notFound => "No such file or directory (os error 2)"
  | .isDirectory => "Is a directory (os error 21)"
  | .notDirectory => "Not a directory (os error 20)"
  | .invalidUtf8 => "stream did not contain valid UTF-8"
  | .nulInName => "file name contained an unexpected NUL byte"
  | .other text => text

/-- Faults. -/
inductive Fault where
  | binaryOperands (op : BinaryOp) (left right : ValueSort)
  | negated (operand : ValueSort)
  | divisionByZero
  | unknownClass (name : String)
  | unknownClassId (id : ClassId)
  | methodNotFound (method : String)
  | privateMethod (method : String)
  | staticMethodNotFound (className method : String)
  | privateField (field : String)
  | invalidReceiver (method : String) (receiver : ValueSort)
  | notAnObject (field : String) (found : ValueSort)
  | notAClass (field : String) (found : ValueSort)
  | indexOutOfRange (index : Int) (length : Nat)
  | keyNotFound (key : String)
  | unhashableKey (key : ValueSort)
  | notIndexable (container index : ValueSort)
  /-- A list was indexed with an infinite or undefined number. -/
  | nonFiniteIndex
  | unknownSystemOperation (name : String)
  | missingArgument (operation : String)
  | endOfInput
  | fileRead (path : String) (problem : IoProblem)
  | io (problem : IoProblem)
  | operandUnderflow
deriving DecidableEq, Repr

/-- The sign of an arithmetic operator. -/
def Arithmetic.sign : Arithmetic → String
  | .add => "+" | .sub => "-" | .mul => "*" | .div => "/" | .rem => "%"

/-- The sign of a comparison. -/
def Comparison.sign : Comparison → String
  | .eq => "==" | .ne => "!=" | .lt => "<" | .gt => ">" | .le => "<=" | .ge => ">="

/-- The sign of an operator. -/
def BinaryOp.sign : BinaryOp → String
  | .arithmetic op => op.sign
  | .comparison op => op.sign

/-- A fault in words. -/
def Fault.message : Fault → String
  | .binaryOperands op left right =>
    let sign := op.sign
    let first := left.name
    let second := right.name
    s!"unsupported operand types for {sign}: {first} and {second}"
  | .negated operand =>
    let name := operand.name
    s!"bad operand type for unary -: {name}"
  | .divisionByZero => "division by zero"
  | .unknownClass name => s!"unknown class: {name}"
  | .unknownClassId id => s!"unknown class id: {id}"
  | .methodNotFound method => s!"method {method} not found"
  | .privateMethod method => s!"private method {method} is not accessible"
  | .staticMethodNotFound className method => s!"static method {method} not found in {className}"
  | .privateField field => s!"private field {field} is not accessible"
  | .invalidReceiver method receiver =>
    let name := receiver.name
    s!"cannot call method {method} on {name}"
  | .notAnObject field found =>
    let name := found.name
    s!"field {field} accessed on non-object {name}"
  | .notAClass field found =>
    let name := found.name
    s!"static field {field} accessed on non-class {name}"
  | .indexOutOfRange index length => s!"index {index} out of range for list of length {length}"
  | .keyNotFound key => s!"key not found: {key}"
  | .unhashableKey key =>
    let name := key.name
    s!"unhashable map key type: {name}"
  | .notIndexable container index =>
    let outer := container.name
    let inner := index.name
    s!"cannot index {outer} with {inner}"
  | .nonFiniteIndex => "cannot index list with non-finite number"
  | .unknownSystemOperation name => s!"unknown system operation: {name}"
  | .missingArgument operation => s!"system operation {operation} is missing its argument"
  | .endOfInput => "end of input"
  | .fileRead path problem =>
    let reason := problem.message
    s!"cannot read {path}: {reason}"
  | .io problem =>
    let reason := problem.message
    s!"i/o error: {reason}"
  | .operandUnderflow => "operand stack underflow"

end Monogram
