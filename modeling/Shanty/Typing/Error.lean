/-
# Type errors

What can be wrong with the types in a program, and how it is said. The same cause
has the same wording wherever it comes up.
-/

import Shanty.Diagnostic

namespace Shanty

/-- A violation of the typing rules. -/
inductive TypeError
  | reportFunction
  | reportVoid
  | reportRecordName
  | reportRecord
  | receiveRecord
  | receiveRecordName
  | receiveFunction
  | receiveOther
  | calleeNotFunction
  | argumentCount
  | argumentType
  | returnMissing
  | returnExtra
  | returnType
  | arithmeticOperand
  | relationalOperand
  | logicalOperand
  | ifCondition
  | whileCondition
  | equalityOperand
  | equalityOperation
  | equalityRecords
  | equalityRecordNames
  | assignOperand
  | assignOperation
  | assignRecord
  | assignRecordName
  | selectFromNonRecord
  | noSuchField
  deriving DecidableEq

namespace TypeError

/-- The wording of a type error. -/
def text : TypeError → String
  | .reportFunction => "Attempt to output a function"
  | .reportVoid => "Attempt to write void"
  | .reportRecordName => "Attempt to report record name"
  | .reportRecord => "Attempt to output a record variable"
  | .receiveRecord => "Attempt to read a record variable"
  | .receiveRecordName => "Attempt to read a record name"
  | .receiveFunction => "Attempt to assign input to function"
  | .receiveOther => "Attempt to read to illegal type"
  | .calleeNotFunction => "Attempt to call a non-function"
  | .argumentCount => "Function call with wrong number of args"
  | .argumentType => "Type of actual does not match type of formal"
  | .returnMissing => "Missing return value"
  | .returnExtra => "Return with a value in void function"
  | .returnType => "Bad return value"
  | .arithmeticOperand => "Arithmetic operator applied to invalid operand"
  | .relationalOperand => "Relational operator applied to non-numeric operand"
  | .logicalOperand => "Logical operator applied to non-bool operand"
  | .ifCondition => "Non-bool expression used as an if condition"
  | .whileCondition => "Non-bool expression used as a while condition"
  | .equalityOperand => "Invalid equality operand"
  | .equalityOperation => "Invalid equality operation"
  | .equalityRecords => "Equality operator applied to record variables"
  | .equalityRecordNames => "Equality operator applied to record names"
  | .assignOperand => "Invalid assignment operand"
  | .assignOperation => "Invalid assignment operation"
  | .assignRecord => "Record variable assignment"
  | .assignRecordName => "Record name assignment"
  | .selectFromNonRecord => "Attempt to index a non-record"
  | .noSuchField => "Bad index"

/-- The diagnostic for a type error in a stretch of text. -/
def about (error : TypeError) (span : Span) : Message := .error span error.text

end TypeError

end Shanty
