import Oberon.Token.Scan

/-!
# Oberon.Message

Everything the analysis may have to say about a source, grouped by what it is about. A message is
its cause; `text` is the wording.
-/

namespace Oberon

inductive SyntaxNote where
  | expected (what found : String)
  | unexpectedToken (found : String)
  | unexpectedInParameters (found : String)
  | illegalIdentifier (name : String)
  | identifierExpected
  | commaMissing
  | emptySection (keyword : String)
  | variadicNotLast
  | variadicDisabled
  | missingParameterList
  | anonymousFormalType
  | externalDisabled
  | stringExpected
  | semicolonMissing
  | prematureEnd
  | equalsForBecomes
  | unknownStatement
  | emptyCase
  | redundantPipe
  | expressionExpected
deriving DecidableEq

def SyntaxNote.text : SyntaxNote → String
  | expected what found => what ++ " expected, found " ++ found ++ "."
  | unexpectedToken found => "unexpected token: " ++ found ++ "."
  | unexpectedInParameters found => found ++ " unexpected."
  | illegalIdentifier name => "illegal identifier: " ++ name ++ "."
  | identifierExpected => "identifier expected."
  | commaMissing => "comma missing."
  | emptySection keyword => "empty " ++ keyword ++ " declaration."
  | variadicNotLast => "variadic arguments must be last formal parameter."
  | variadicDisabled => "variadic arguments support disabled [--enable-varargs]."
  | missingParameterList =>
    "function procedures without parameters must specify an empty parameter list."
  | anonymousFormalType => "formal type cannot be an anonymous record or pointer type."
  | externalDisabled => "external procedure support disabled [--enable-extern]."
  | stringExpected => "string literal expected."
  | semicolonMissing => "semicolon missing."
  | prematureEnd => "premature end of file."
  | equalsForBecomes => "unexpected operator = found, use operator := instead."
  | unknownStatement => "unknown or empty statement."
  | emptyCase => "empty case statement."
  | redundantPipe => "redundant pipe."
  | expressionExpected => "expression expected."

inductive DeclarationNote where
  | moduleNameMismatch (expected found : String)
  | duplicateImport (module : String)
  | selfImport (module : String)
  | importFailed (module : String)
  | pointerBaseNotRecord
  | forwardReference (name : String)
  | undefinedForward
  | duplicateDefinition (name : String)
  | predefinedIdentifier (name : String)
  | exportNotTopLevel
  | exportedFieldOfHidden
  | undefinedConstant
  | valueNotConstant
  | undefinedVariableType
  | undefinedFieldType
  | undefinedParameterType
  | constantExpected
  | dimensionNotPositive
  | integerExpected
  | constantIntegerExpected
  | undefinedMemberType
  | nestedArray
  | baseNotRecord
  | undefinedType (name : String)
  | notAType (name : String)
  | fieldRedefined (name : String)
  | duplicateField (name : String)
  | structuredResult
  | missingReturn
  | procedureNameMismatch (expected found : String)
  | defaultConvention
  | unsupportedConvention (name : String)
  | defaultExternalName (name : String)
  | exportedExternal
  | externalNotTopLevel
deriving DecidableEq

def DeclarationNote.text : DeclarationNote → String
  | moduleNameMismatch expected found =>
    "module name mismatch: expected " ++ expected ++ ", found " ++ found ++ "."
  | duplicateImport module => "duplicate import of module " ++ module ++ "."
  | selfImport module => "module " ++ module ++ " must not import itself."
  | importFailed module => "module " ++ module ++ " could not be imported."
  | pointerBaseNotRecord => "pointer base type must be a record type."
  | forwardReference name => "Found possible forward type reference: " ++ name ++ "."
  | undefinedForward => "undefined forward reference."
  | duplicateDefinition name => "duplicate definition: " ++ name ++ "."
  | predefinedIdentifier name => "predefined identifier: " ++ name ++ "."
  | exportNotTopLevel => "only top-level declarations can be exported."
  | exportedFieldOfHidden => "cannot export fields of non-exported record type."
  | undefinedConstant => "undefined constant."
  | valueNotConstant => "value must be constant."
  | undefinedVariableType => "undefined variable type."
  | undefinedFieldType => "undefined record field type."
  | undefinedParameterType => "undefined parameter type."
  | constantExpected => "constant expression expected."
  | dimensionNotPositive => "array dimension must be a positive value."
  | integerExpected => "integer expression expected."
  | constantIntegerExpected => "constant integer expression expected."
  | undefinedMemberType => "undefined array member type."
  | nestedArray => "nested array found, use multi-dimensional array instead."
  | baseNotRecord => "base type must be a record type."
  | undefinedType name => "undefined type: " ++ name ++ "."
  | notAType name => name ++ " is not a type."
  | fieldRedefined name => "redefinition of record field: " ++ name ++ "."
  | duplicateField name => "duplicate record field: " ++ name ++ "."
  | structuredResult => "result type of a procedure can neither be a record nor an array."
  | missingReturn => "not all control flow paths of the procedure return a result."
  | procedureNameMismatch expected found =>
    "procedure name mismatch: expected " ++ expected ++ ", found " ++ found ++ "."
  | defaultConvention => "no calling convention specified, using default calling convention."
  | unsupportedConvention name => "unsupported calling convention: " ++ name ++ "."
  | defaultExternalName name =>
    "no external procedure name specified, defaulting to: " ++ name ++ "."
  | exportedExternal => "cannot export external procedures."
  | externalNotTopLevel => "only top-level procedures can be external."

/-- Why a value of one type cannot stand where another type is expected. -/
inductive Mismatch where
  | mayLoseData (actual expected : String)
  | arrayDimensions (expected actual : Nat)
  | arrayLengths (actual expected : Nat)
  | stringToMatrix
  | types (expected actual : String)
  | variadicProcedure
  | procedureResults
  | parameterCounts
  | parameters
deriving DecidableEq

def Mismatch.text : Mismatch → String
  | mayLoseData actual expected =>
    "type mismatch: converting from " ++ actual ++ " to " ++ expected ++ " may lose data."
  | arrayDimensions expected actual =>
    "type mismatch: incompatible array dimensions, expected " ++ toString expected ++ ", found " ++
      toString actual ++ "."
  | arrayLengths actual expected =>
    "type mismatch: incompatible array lengths found " ++ toString actual ++ " > " ++
      toString expected ++ "."
  | stringToMatrix => "type mismatch: cannot assign string to multi-dimensional array."
  | types expected actual => "type mismatch: expected " ++ expected ++ ", found " ++ actual ++ "."
  | variadicProcedure => "procedure types with variadic arguments cannot be used here."
  | procedureResults => "type mismatch: procedure types have different return types."
  | parameterCounts => "type mismatch: procedure types have different number of parameters."
  | parameters => "type mismatch: procedure types have different parameters."

inductive ConstantNote where
  | overflow
  | divisionByZero
  | negativeDivisor
  | outOfBounds (value lower upper : Int)
  | emptyRange
deriving DecidableEq

def ConstantNote.text : ConstantNote → String
  | overflow => "integer overflow in constant expression."
  | divisionByZero => "division by zero."
  | negativeDivisor => "divisor cannot be negative."
  | outOfBounds value lower upper =>
    "value " ++ toString value ++ " out of bounds [" ++ toString lower ++ ".." ++ toString upper ++
      "]."
  | emptyRange => "upper bound must be greater than lower bound."

inductive ExpressionNote where
  | undefinedIdentifier (name : String)
  | unexpectedSelector
  | predefinedReference
  | valueExpected
  | ignoredSelector
  | constantExpected
  | undefinedOperand
  | operandExpected (op what : String)
  | undefinedLeft
  | undefinedRight
  | integerExpected
  | setExpected
  | concatenation
  | arithmetic
  | integerDivision
  | booleanExpected (op : String)
  | alwaysTrue
  | alwaysFalse
  | longStringLiteral
  | characterArrays
  | incomparable
  | typeTestOperands
  | typeExpected
  | testedVariable
  | recordOrPointerExpected
  | checkAlwaysTrue
  | notAnExtension (type base : String)
  | undefinedLower
  | undefinedUpper
  | rangeBound
  | rangeMismatch
  | notAscending
  | operandTypes (lhs rhs : String)
  | truncated
  | uncastable (kind type : String)
deriving DecidableEq

def ExpressionNote.text : ExpressionNote → String
  | undefinedIdentifier name => "undefined identifier: " ++ name ++ "."
  | unexpectedSelector => "unexpected selector."
  | predefinedReference => "predefined procedures cannot be referenced."
  | valueExpected => "variable, parameter, type, or function call expected."
  | ignoredSelector => "ignoring unexpected selector(s)."
  | constantExpected => "constant expected."
  | undefinedOperand => "undefined expression in unary expression."
  | operandExpected op what => "operator " ++ op ++ " requires " ++ what ++ " argument."
  | undefinedLeft => "undefined left-hand side in binary expression."
  | undefinedRight => "undefined right-hand side in binary expression."
  | integerExpected => "integer expression expected."
  | setExpected => "set expression expected."
  | concatenation => "string concatenation requires constant arguments."
  | arithmetic => "arithmetic operation requires numeric or set arguments."
  | integerDivision => "integer division requires integer arguments."
  | booleanExpected op => "operator " ++ op ++ " requires boolean arguments."
  | alwaysTrue => "condition is always true."
  | alwaysFalse => "condition is always false."
  | longStringLiteral => "string literal is longer than length of character array."
  | characterArrays =>
    "comparison operator requires one-dimensional character array arguments."
  | incomparable => "comparison operation requires numeric arguments."
  | typeTestOperands => "type test operator requires qualified expressions as arguments."
  | typeExpected => "type identifier expected."
  | testedVariable => "variable parameter of record type or expression of pointer type expected."
  | recordOrPointerExpected =>
    "type mismatch: record type or pointer to record type expected."
  | checkAlwaysTrue => "type check is always true."
  | notAnExtension type base =>
    "type mismatch: " ++ type ++ " is not an extension of " ++ base ++ "."
  | undefinedLower => "undefined lower bound in range expression."
  | undefinedUpper => "undefined upper bound in range expression."
  | rangeBound => "range expression requires integer or character values."
  | rangeMismatch => "type of lower and upper bound in range expression do not match."
  | notAscending => "element must be larger than previous element."
  | operandTypes lhs rhs =>
    "incompatible or illegal operand types (" ++ lhs ++ ", " ++ rhs ++ ")."
  | truncated => "string literal will be truncated to length of character array."
  | uncastable kind type => "unable to cast " ++ kind ++ " literal to type " ++ type ++ "."

/-- What an expression is instead of a location that can be written. -/
inductive Unwritable where
  | constantValue
  | expression
  | structuredParameter
  | constant
  | importedVariable
deriving DecidableEq

def Unwritable.text : Unwritable → String
  | constantValue => "a constant value"
  | expression => "an expression"
  | structuredParameter => "a non-variable structured parameter"
  | constant => "a constant"
  | importedVariable => "an external variable"

inductive SelectorNote where
  | illegalGuard
  | splitIndex
  | notAProcedure (type : String)
  | fewerArguments
  | moreArguments
  | charToStringParameter
  | byReference (what : Unwritable)
  | numericByReference (actual formal : String)
  | notAnArray (type : String)
  | tooManyIndices (indices dimensions : Nat)
  | negativeIndex (value : Int)
  | notAPointer (type : String)
  | notARecord (type : String)
  | undefinedField (type name : String)
  | guardedVariable
deriving DecidableEq

def SelectorNote.text : SelectorNote → String
  | illegalGuard => "unexpected selector: illegal type guard."
  | splitIndex => "use multi-dimensional index to access multi-dimensional array."
  | notAProcedure type => "type " ++ type ++ " is not a procedure type."
  | fewerArguments => "fewer actual than formal parameters."
  | moreArguments => "more actual than formal parameters."
  | charToStringParameter =>
    "type mismatch: cannot pass a non-constant character value to a string parameter."
  | byReference what => "illegal actual parameter: cannot pass " ++ what.text ++ " by reference."
  | numericByReference actual formal =>
    "type mismatch: cannot pass " ++ actual ++ " to " ++ formal ++ " by reference."
  | notAnArray type => type ++ " is not an array."
  | tooManyIndices indices dimensions =>
    "more indices than array dimensions: " ++ toString indices ++ " > " ++ toString dimensions ++
      "."
  | negativeIndex value =>
    "negative value " ++ toString value ++ " is not a valid array index."
  | notAPointer type => type ++ " is not a pointer."
  | notARecord type => type ++ " is not a record."
  | undefinedField type name =>
    "undefined record field for type " ++ type ++ ": " ++ name ++ "."
  | guardedVariable =>
    "type mismatch: a type guard can only be applied to a variable parameter of record type or a pointer."

inductive StatementNote where
  | unreachable
  | cannotAssign (what : Unwritable)
  | undefinedValue
  | charToStringVariable
  | undefinedCondition (statement : String)
  | booleanExpected
  | loopWithoutExit
  | notACounter (name : String)
  | variableExpected
  | integerTypeExpected (found : String)
  | undefinedLow
  | undefinedHigh
  | constantStepExpected
  | zeroStep
  | exitOutsideLoop
  | moduleResult
  | procedureResult
  | missingResult
  | missingArguments
  | discardedValue
  | callExpected
deriving DecidableEq

def StatementNote.text : StatementNote → String
  | unreachable => "unreachable code."
  | cannotAssign what => "cannot assign to " ++ what.text ++ "."
  | undefinedValue => "undefined right-hand side in assignment."
  | charToStringVariable =>
    "type mismatch: cannot assign a non-constant character value to a string variable."
  | undefinedCondition statement => "undefined condition in " ++ statement ++ "."
  | booleanExpected => "Boolean expression expected."
  | loopWithoutExit => "LOOP statement without EXIT found."
  | notACounter name => name ++ " cannot be used as a loop counter."
  | variableExpected => "variable expected."
  | integerTypeExpected found => "type mismatch: integer type expected, found " ++ found ++ "."
  | undefinedLow => "undefined low value in for-loop."
  | undefinedHigh => "undefined high value in for-loop."
  | constantStepExpected => "constant expression expected."
  | zeroStep => "step value cannot be zero."
  | exitOutsideLoop => "EXIT statement outside of loop."
  | moduleResult => "module cannot return a value."
  | procedureResult => "procedure cannot return a value."
  | missingResult => "function must return value."
  | missingArguments => "function procedure call must be followed by parameter list."
  | discardedValue => "discarded expression value."
  | callExpected => "procedure call expected."

inductive CaseNote where
  | notAVarParameter
  | notAVariable
  | mixedLabels
  | constantExpected
  | duplicateLabels
  | severalTypes
  | labelTypeMismatch (label subject : String)
  | labelExpected
  | labelDomain
  | labelNotAType
  | unreachableArm
  | subjectType
deriving DecidableEq

def CaseNote.text : CaseNote → String
  | notAVarParameter => "record must be a variable parameter."
  | notAVariable => "non-integer case expression must be a variable or variable parameter."
  | mixedLabels => "type mismatch: case labels must all have the same type."
  | constantExpected => "constant expression expected."
  | duplicateLabels => "duplicate case labels in case statement."
  | severalTypes => "non-integer case must have a single type as label."
  | labelTypeMismatch label subject =>
    "type mismatch: case label type " ++ label ++ " is incompatible with case expression type " ++
      subject ++ "."
  | labelExpected => "constant expression, record type, or pointer type expected."
  | labelDomain => "type mismatch: case label type is different from case expression type."
  | labelNotAType => "type mismatch: case label type must be pointer or record."
  | unreachableArm => "unreachable case label in case statement."
  | subjectType =>
    "type mismatch: case expression type must be integer, character, pointer, or record."

inductive Message where
  | lexical (fault : LexicalFault)
  | sentence (note : SyntaxNote)
  | declaration (note : DeclarationNote)
  | mismatch (mismatch : Mismatch)
  | constant (note : ConstantNote)
  | expression (note : ExpressionNote)
  | selector (note : SelectorNote)
  | statement (note : StatementNote)
  | cases (note : CaseNote)
deriving DecidableEq

namespace Message

def text : Message → String
  | lexical fault => fault.text
  | sentence note => note.text
  | declaration note => note.text
  | mismatch m => m.text
  | constant note => note.text
  | expression note => note.text
  | selector note => note.text
  | statement note => note.text
  | cases note => note.text

end Message
end Oberon
