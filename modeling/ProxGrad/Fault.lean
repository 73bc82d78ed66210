/-!
# Faults

Every way in which an operation of this library fails, each a cause with the data its message
needs. The wording is in `Fault.message?`; a fault without a message is told by its cause alone.
-/

set_option autoImplicit false

namespace ProxGrad

/-- Why a value has no array form. -/
inductive ConversionDefect where
  /-- Nested sequences whose shapes agree only down to this common part. -/
  | ragged (common : List Nat)
  /-- Sequences nested deeper than an array has sides. -/
  | tooDeep (most : Nat)
  /-- A sequence where a single entry is needed. -/
  | sequence
  /-- An array whose shape, the first one, does not repeat to the second. -/
  | broadcast (source target : List Nat)
  /-- The name, in quotes, of no element type. -/
  | unknownType (shown : String)
  /-- A value that names no element type. -/
  | noType (shown : String)
  /-- A value of this type where a real is needed. -/
  | notReal (typeName : String)
  /-- A value of this type where a complex number is needed. -/
  | notComplex (typeName : String)
  /-- A value of this type where an integer is needed. -/
  | notInteger (typeName : String)
  /-- Text, shown in quotes, that is no real number. -/
  | realText (shown : String)
  /-- Text that is no complex number. -/
  | complexText
  /-- Text, shown in quotes, with an underscore that does not stand between digits. -/
  | complexDigits (shown : String)
  /-- Text, shown in quotes, that is no integer. -/
  | integerText (shown : String)
  /-- A NaN where an integer is needed. -/
  | nanToInteger
  /-- A decimal NaN where an integer is needed. -/
  | decimalToInteger
  /-- A decimal NaN that signals, where a real is needed. -/
  | signalingNaN
deriving DecidableEq, Repr

/-- Why a value is not accepted as a finite floating array. -/
inductive ArrayDefect where
  | conversion (defect : ConversionDefect)
  /-- Entries of the named type, which is not a floating one. -/
  | notFloating (dtype : String)
  | notFinite
deriving DecidableEq, Repr

/-- A condition under which decimal arithmetic gives no result. -/
inductive DecimalDefect where
  /-- An operation without a value, or one on a NaN that signals. -/
  | invalid
  | overflow
  | divisionByZero
deriving DecidableEq, Repr

/-- Which option is outside its range, with the value as it is shown. -/
inductive OptionsDefect where
  | lipschitz (shown : String)
  | resetCounter (shown : String)
  | iterations (shown : String)
  /-- The history has a shape, or is of a type, other than the iteration count asks for. -/
  | history (iterations shown : String)
deriving DecidableEq, Repr

/-- The parameters without which the solver does not start. -/
inductive SolverParameter where
  | iterations
  | lipschitz
deriving DecidableEq, Repr

/-- Why a term supplied by the caller failed. -/
inductive TermFailure where
  | gradient
  | prox
  | value
  | implementation (name : String)
deriving DecidableEq, Repr

/-- Why a configuration document gives no value. -/
inductive DocumentDefect where
  | missing
  | directory
  /-- Bytes that are no text. -/
  | encoding
  /-- A character that documents do not contain. -/
  | character
  | token
  /-- A text that ends inside a token. -/
  | unfinished
  | grammar
  | composition
  | construction
  /-- Text of a boolean tag that names no truth value. -/
  | unknownTruth
  /-- Text of a numeric or time tag with the wrong form. -/
  | malformed
  /-- Empty text where a digit is needed. -/
  | emptyNumeral
  /-- A scalar that stands for itself. -/
  | endless
  /-- Collections nested deeper than a reader follows. -/
  | nesting
  /-- A number outside the representable range. -/
  | range
deriving DecidableEq, Repr

/-- One field of a configuration that is not accepted. -/
inductive FieldDefect where
  | notNumber
  | notPositive
  | notInteger
  | negative
  | notBoolean
  | unknown
  /-- A key that is no text because it holds half of a pair. -/
  | brokenKey
deriving DecidableEq, Repr

/-- A cause of failure. -/
inductive Fault where
  | conversion (defect : ConversionDefect)
  | invalidArray (name : String) (defect : ArrayDefect)
  /-- Operands of types that the operation does not take. -/
  | operandTypes
  /-- Array entries of a type for which the operation has no rule. -/
  | entryTypes
  /-- Shapes that do not fit together. -/
  | shapes
  /-- An array of more bytes than a size can count. -/
  | arraySize
  /-- An array of more bytes than there is memory for. -/
  | memory
  | overflow
  | divisionByZero
  | decimal (defect : DecimalDefect)
  /-- An integer of more digits than are written. -/
  | digitLimit
  /-- A field that the object does not have. -/
  | noField
  /-- A name that stands for nothing. -/
  | unknownName
  | index
  /-- Assignment to a field of an immutable value. -/
  | frozen
  /-- An operator without an adjoint. -/
  | noAdjoint
  | invalidOptions (defect : OptionsDefect)
  | unresolved (parameter : SolverParameter)
  /-- No operator is registered for the function and the options. -/
  | notImplemented
  | term (failure : TermFailure)
  | cannotCombine (first second : String)
  /-- Two values, known by the names of their types, that have no sum. -/
  | cannotAdd (first second : String)
  | notCallable (shown : String)
  | invalidOperator (name : String)
  /-- Data with another number of entries than the operator has rows. -/
  | dataSize (entries rows : Nat)
  /-- An input shape, as it is shown, whose product is not the number of columns. -/
  | inputShape (shown : String) (columns : Nat)
  | document (defect : DocumentDefect)
  /-- The root of a configuration document is not a mapping. -/
  | notMapping
  /-- A configuration with these fields not accepted. A defect without a field is one of the mapping
  itself. -/
  | configuration (defects : List (Option String × FieldDefect))
  /-- A configuration read from a document, with these fields not accepted. -/
  | configurationDocument (defects : List (Option String × FieldDefect))
  /-- Assignment to a field that a configuration does not have. -/
  | unknownField
deriving DecidableEq, Repr

/-- A shape in writing, one side being followed by a comma. -/
def writtenShape : List String → String
  | [n] => "(" ++ n ++ ",)"
  | shape => "(" ++ ", ".intercalate shape ++ ")"

/-- A shape in the compact form in which two shapes are compared. -/
def compactShape : List Nat → String
  | [n] => "(" ++ toString n ++ ",)"
  | shape => "(" ++ ",".intercalate (shape.map toString) ++ ")"

def ConversionDefect.message : ConversionDefect → String
  | .ragged common =>
    "setting an array element with a sequence. The requested array has an inhomogeneous shape "
      ++ "after " ++ toString common.length ++ " dimensions. The detected shape was "
      ++ writtenShape (common.map toString) ++ " + inhomogeneous part."
  | .tooDeep most =>
    "setting an array element with a sequence. The requested array would exceed the maximum "
      ++ "number of dimension of " ++ toString most ++ "."
  | .sequence => "setting an array element with a sequence."
  | .broadcast source target =>
    "could not broadcast input array from shape " ++ compactShape source ++ " into shape "
      ++ compactShape target
  | .unknownType shown => "data type " ++ shown ++ " not understood"
  | .noType shown => "Cannot interpret '" ++ shown ++ "' as a data type"
  | .notReal t => "float() argument must be a string or a real number, not '" ++ t ++ "'"
  | .notComplex t => "must be real number, not " ++ t
  | .notInteger t =>
    "int() argument must be a string, a bytes-like object or a real number, not '" ++ t ++ "'"
  | .realText shown => "could not convert string to float: " ++ shown
  | .complexText => "complex() arg is a malformed string"
  | .complexDigits shown => "could not convert string to complex: " ++ shown
  | .integerText shown => "invalid literal for int() with base 10: " ++ shown
  | .nanToInteger => "cannot convert float NaN to integer"
  | .decimalToInteger => "cannot convert NaN to integer"
  | .signalingNaN => "cannot convert signaling NaN to float"

def ArrayDefect.message (name : String) : ArrayDefect → String
  | .conversion defect => "Cannot convert " ++ name ++ " to array: " ++ defect.message
  | .notFloating dtype => name ++ " must have a real or complex floating dtype, got " ++ dtype
  | .notFinite => name ++ " contains non-finite values (inf/nan)"

def OptionsDefect.message : OptionsDefect → String
  | .lipschitz shown => "Lipschitz constant must be a finite positive real, got " ++ shown
  | .resetCounter shown => "reset_counter must be a positive integer, got " ++ shown
  | .iterations shown => "niter must be a non-negative integer, got " ++ shown
  | .history count shown =>
    "fun_history must be None or an array of shape (niter,) = (" ++ count ++ ",), got "
      ++ shown

def SolverParameter.message : SolverParameter → String
  | .iterations => "FISTA requires the number of iterations (niter) to be set"
  | .lipschitz => "FISTA requires a Lipschitz constant; bind one with set_lipschitz_constant"

def TermFailure.message : TermFailure → String
  | .gradient => "gradient evaluation failed"
  | .prox => "prox evaluation failed"
  | .value => "value failed"
  | .implementation name => "implementation " ++ name ++ " failed"

/-- The kind of a field defect in reports. -/
def FieldDefect.kind : FieldDefect → String
  | .notNumber => "float_type"
  | .notPositive => "greater_than"
  | .notInteger => "int_type"
  | .negative => "greater_than_equal"
  | .notBoolean => "bool_type"
  | .unknown => "extra_forbidden"
  | .brokenKey => "string_unicode"

def FieldDefect.message : FieldDefect → String
  | .notNumber => "Input should be a valid number"
  | .notPositive => "Input should be greater than 0"
  | .notInteger => "Input should be a valid integer"
  | .negative => "Input should be greater than or equal to 0"
  | .notBoolean => "Input should be a valid boolean"
  | .unknown => "Extra inputs are not permitted"
  | .brokenKey => "Input should be a valid string, unable to parse raw data as a unicode string"

/-- The operators, in the order in which messages list them. -/
def operatorList : String := "['argmin', 'proj', 'proj_set', 'prox']"

/-- The message of a fault that has one. -/
def Fault.message? : Fault → Option String
  | .invalidArray name defect => some (defect.message name)
  | .invalidOptions defect => some defect.message
  | .unresolved parameter => some parameter.message
  | .notImplemented => some "This method has not been implemented for this function!"
  | .term failure => some failure.message
  | .cannotCombine a b =>
    some ("Cannot combine " ++ a ++ " and " ++ b
      ++ ": expected one differentiable and one proximable function")
  | .cannotAdd a b =>
    some ("unsupported operand type(s) for +: '" ++ a ++ "' and '" ++ b ++ "'")
  | .notCallable shown => some ("Operator implementation must be callable, got " ++ shown)
  | .invalidOperator name =>
    some ("Invalid operator '" ++ name ++ "'. Must be one of: " ++ operatorList)
  | .dataSize entries rows =>
    some ("y has " ++ toString entries ++ " entries but A has " ++ toString rows ++ " rows")
  | .inputShape shown columns =>
    some ("input_shape " ++ shown ++ " does not match A with " ++ toString columns ++ " columns")
  | .notMapping => some "FISTA configuration in <path> must be a mapping"
  | .configurationDocument _ => some "Config validation failed"
  | _ => none

end ProxGrad
