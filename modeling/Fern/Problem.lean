/-!
What can be wrong with a program.

* `Problem`: the causes, with the names and numbers that belong to each.
* `Problem.phase`: the pass that finds a cause.
* `Problem.message`: the wording, one line.
* `Problem.hint`: a line of help, for the causes that have one.
-/

namespace Fern

/-- The passes over a program, in the order in which they run. -/
inductive Phase where
  | lexing
  | parsing
  | typing
  | generation
deriving Repr, DecidableEq

/-- The cause of a diagnostic. -/
inductive Problem where
  -- found while reading characters
  | newlineInString
  | unterminatedString
  | emptyCharacterLiteral
  | newlineInCharacterLiteral
  | unterminatedCharacterLiteral
  | unterminatedComment
  | unterminatedBlockComment
  | unexpectedCharacter
  -- found while reading tokens
  | unexpectedTopLevelToken (token : String)
  | unexpectedToken (expected found : String)
  | expectedExpression (found : String)
  | unknownType (type : String)
  | invalidAssignmentTarget
  | expectedStatementEnd (found : String)
  | emptyBlock
  -- found while assigning types
  | duplicateFunction (function : String)
  | reassignTypeMismatch
  | comparisonTypeMismatch
  | arithmeticTypeMismatch
  | unknownBinaryOperator (operator : String)
  | expectedNumericOperand
  | expectedBoolOperand
  | unknownUnaryOperator (operator : String)
  | nonBoolCondition
  | ifBranchMismatch
  | annotationMismatch
  | duplicateVariable (name : String)
  | returnTypeMismatch
  | returnOutsideFunction
  | loopControlOutsideLoop
  | unknownFunction (function : String)
  | argumentCountMismatch (expected received : Nat)
  | argumentTypeMismatch
  | unknownVariable (name : String)
  | notIndexable
  | nonIntegerIndex
  | unreachableCode
  -- found while generating code
  | functionNameInUse (function : String)
  | functionArgumentCountMismatch (expected received : Nat)
  | functionAlreadyDefined (function : String)
  | verificationFailed (function : String)
  | invalidBinaryOp
  | invalidUnaryOp
  | invalidSingleOp
  | functionNotFound (function : String)
  | variableNotFound (name : String)
  | invalidNumber (token : String)
  | invalidType
  | storeTypeMismatch
  | backend (message : String)
deriving Repr, DecidableEq

namespace Problem

/-- The pass that finds a cause. -/
def phase : Problem → Phase
  | newlineInString | unterminatedString | emptyCharacterLiteral | newlineInCharacterLiteral
  | unterminatedCharacterLiteral | unterminatedComment | unterminatedBlockComment
  | unexpectedCharacter => .lexing
  | unexpectedTopLevelToken _ | unexpectedToken _ _ | expectedExpression _ | unknownType _
  | invalidAssignmentTarget | expectedStatementEnd _ | emptyBlock => .parsing
  | duplicateFunction _ | reassignTypeMismatch | comparisonTypeMismatch | arithmeticTypeMismatch
  | unknownBinaryOperator _ | expectedNumericOperand | expectedBoolOperand | unknownUnaryOperator _
  | nonBoolCondition | ifBranchMismatch | annotationMismatch | duplicateVariable _
  | returnTypeMismatch | returnOutsideFunction | loopControlOutsideLoop | unknownFunction _
  | argumentCountMismatch _ _ | argumentTypeMismatch | unknownVariable _ | notIndexable
  | nonIntegerIndex | unreachableCode => .typing
  | functionNameInUse _ | functionArgumentCountMismatch _ _ | functionAlreadyDefined _
  | verificationFailed _ | invalidBinaryOp | invalidUnaryOp | invalidSingleOp | functionNotFound _
  | variableNotFound _ | invalidNumber _ | invalidType | storeTypeMismatch
  | backend _ => .generation

/-- The wording of a cause. -/
def message : Problem → String
  | newlineInString => "newline in string"
  | unterminatedString => "unterminated string"
  | emptyCharacterLiteral => "empty character literal"
  | newlineInCharacterLiteral => "newline in character literal"
  | unterminatedCharacterLiteral => "unterminated character literal"
  | unterminatedComment => "unterminated comment"
  | unterminatedBlockComment => "unterminated comment"
  | unexpectedCharacter => "unexpected character"
  | unexpectedTopLevelToken _ => "unexpected token in top scope"
  | unexpectedToken expected _ => "unexpected token, expected " ++ expected
  | expectedExpression _ => "unexpected token, expected expression"
  | unknownType type => "unknown type `" ++ type ++ "`"
  | invalidAssignmentTarget => "left hand side of assignment must be a variable"
  | expectedStatementEnd _ => "expected ';' or '\x7d'"
  | emptyBlock => "block must contain at least one expression"
  | duplicateFunction _ => "duplicate function name"
  | reassignTypeMismatch => "cannot reassign variable with different type"
  | comparisonTypeMismatch => "incorrect comparison type"
  | arithmeticTypeMismatch => "incorrect arithmetic type"
  | unknownBinaryOperator _ => "unknown binary operator"
  | expectedNumericOperand => "incorrect operand type, expected int or float"
  | expectedBoolOperand => "incorrect operand type, expected bool"
  | unknownUnaryOperator _ => "unknown unary operator"
  | nonBoolCondition => "if condition must be a boolean"
  | ifBranchMismatch => "if/else blocks must have the same type"
  | annotationMismatch => "incorrect type annotation"
  | duplicateVariable _ => "duplicate variable name"
  | returnTypeMismatch => "incorrect return type"
  | returnOutsideFunction => "return statement outside of function"
  | loopControlOutsideLoop => "break/continue statement outside of loop"
  | unknownFunction _ => "unknown function name"
  | argumentCountMismatch _ _ => "incorrect number of arguments"
  | argumentTypeMismatch => "incorrect argument type"
  | unknownVariable _ => "unknown variable name"
  | notIndexable => "operand is not indexable"
  | nonIntegerIndex => "index must be an integer"
  | unreachableCode => "unreachable code after return"
  | functionNameInUse _ => "function name already in use"
  | functionArgumentCountMismatch _ _ => "function argument count mismatch"
  | functionAlreadyDefined _ => "function already defined"
  | verificationFailed _ => "llvm function verification failed"
  | invalidBinaryOp => "invalid binary op"
  | invalidUnaryOp => "invalid unary op"
  | invalidSingleOp => "invalid single op"
  | functionNotFound _ => "function not found"
  | variableNotFound _ => "variable not found"
  | invalidNumber _ => "invalid number type"
  | invalidType => "invalid type"
  | storeTypeMismatch => "cannot reassign variable with different type"
  | backend message => "backend error: " ++ message

/-- A line of help beyond the message, where a cause has one. -/
def hint : Problem → Option String
  | unterminatedComment => some "line comments must end with a newline"
  | unterminatedBlockComment => some "block comments must be closed with `*/`"
  | unexpectedTopLevelToken token =>
    some ("found `" ++ token ++ "`, only `func` and `extern` may appear here")
  | unexpectedToken _ found | expectedExpression found => some ("found `" ++ found ++ "`")
  | expectedStatementEnd found => some ("found `" ++ found ++ "`, did you miss a semicolon?")
  | unknownType type => some ("`" ++ type ++ "` is not one of int, float, char, str or bool")
  | duplicateFunction function => some ("function `" ++ function ++ "` already declared")
  | duplicateVariable name => some ("variable `" ++ name ++ "` already declared in this scope")
  | unknownFunction function | functionNotFound function =>
    some ("function `" ++ function ++ "` not declared")
  | unknownVariable name | variableNotFound name => some ("variable `" ++ name ++ "` not declared")
  | argumentCountMismatch expected received | functionArgumentCountMismatch expected received =>
    some ("expected " ++ toString expected ++ " arguments, received " ++ toString received)
  | invalidNumber token =>
    some ("invalid number: `" ++ token ++ "`, is it above the integer limit?")
  | _ => none

end Problem

end Fern
