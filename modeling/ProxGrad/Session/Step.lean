import ProxGrad.Session.Operators

/-!
# Steps and answers of a session

The requests that a session takes, with their operands, and the answers it gives.
-/

set_option autoImplicit false

namespace ProxGrad.Session

/-- An operand: the name of a variable, or a value. -/
inductive Operand where
  | named (name : String)
  | value (v : Value)

/-- The parameters of new options of the accelerated method; one that is left out has its initial
value. -/
structure FistaArguments where
  lipschitz : Option Operand
  accelerated : Option Operand
  resetCounter : Option Operand
  iterations : Option Operand
  verbose : Option Operand
  history : Option Operand

/-- A linear operator to be made. -/
inductive OperatorSource where
  | matrix (a : Operand)
  /-- A matrix that is copied into compressed form. -/
  | compressed (a : Operand)
  | subsample (height width : Nat)
  | withoutAdjoint (a : Operand)

/-- A differentiable term to be made. -/
inductive SmoothSource where
  | leastSquares (operator : OperatorSource) (observed : Operand) (inputShape : Option Operand)
  | counting (inner : Operand) (failAt : Option Operand)
  /-- A term of a class, with arguments by name. -/
  | ofClass (cls : ClassId) (arguments : List (String × Operand))

/-- The evaluations that can be asked of a term. -/
inductive Evaluated where
  | call
  | value
  | termValue
  | gradient
  | residual
  | valueAndGradient
  | gradientInto
deriving DecidableEq, Repr

/-- What is registered: an implementation, or any other value. -/
inductive Registered where
  | supplied (i : Supplied)
  | value (v : Value)

/-- The analyses of gradients. -/
structure GradientQuery where
  term : Operand
  point : Operand
  step : Option Operand
  direction : Option Operand
  draws : List (List Binary)

/-- One request. -/
inductive Step where
  | array (v : Operand)
  | inspect (of : Operand)
  | same (a b : Operand)
  | equal (a b : Operand)
  | write (of : Operand) (index : Int) (v : Operand)
  | setField (of : Operand) (field : String) (v : Operand)
  | exactOptions (shared : Bool)
  | fista (arguments : FistaArguments)
  | direct (cls : String) (arguments : FistaArguments)
  | setLipschitz (of lipschitz : Operand)
  | getLipschitz (of : Operand)
  | history (of : Operand)
  | defineClass (name : String) (bases : List String)
  | new (cls : String) (arguments : List (String × Operand)) (options : Option Operand)
  /-- With `decorated` the implementation is applied to the decorator, which is otherwise returned
  when the implementation is absent. With `viaOperator` the function for one operator is used. -/
  | register (operator function options : String) (implementation : Registered)
      (override decorated viaOperator : Bool)
  | unregister (operator function options : String)
  | resolve (operator : String) (function options : Operand)
  | isImplemented (operator : String) (function options : Operand)
  | smooth (source : SmoothSource)
  | proximal (cls : ClassId) (arguments : List (String × Operand)) (options : Option Operand)
  | eval (kind : Evaluated) (of x : Operand) (out : Operand)
  | combine (first second options : Operand)
  | add (first second : Operand)
  | withOptions (of options : Operand)
  | fields (of : Operand)
  | argmin (function start options out : Operand) (viaMethod : Bool)
  | argminInPlace (function x options : Operand)
  | fistaInPlace (function x options : Operand)
  | proximalMap (operator : Operator) (function point : Operand) (step : Option Operand)
      (options out : Operand) (viaMethod : Bool)
  | lipschitz (of : Operand) (start : List Binary) (count tolerance : Option Operand)
  | gradientError (query : GradientQuery)
  | checkGradient (query : GradientQuery) (tolerance : Option Operand)

/-- A request and the variable in which its result is kept. -/
structure Request where
  bind : Option String
  step : Step

/-- What is told of options. -/
structure Description where
  typeName : String
  fista : Option FistaOptions
  /-- The element type and shape of the history, where there is one. -/
  history : Option (DType × List Nat)

/-- The answer to one request. -/
inductive Answer where
  | nothing
  | flag (b : Bool)
  | text (s : String)
  | names (names : List String)
  | value (v : Value)
  | typed (v : Value)
  | echo (v : Value)
  /-- A relative error, written as zero where it is negligible. -/
  | error (v : Value)
  | described (d : Description)
  | leastSquares (rows columns : Nat) (dtype : DType) (shape : List Nat) (inputShape : List Value)
  /-- What an evaluation returned, and its destination. -/
  | evaluated (returned : Option Value) (out : Value)
  /-- The variables that stand for the result, and its value. -/
  | result (names : List String) (v : Value)
  | composite (diff prox : String) (options : Description)

/-- The outcome of one request, with what was observed of it. -/
structure Outcome where
  answer : Except Fault Answer
  warnings : List String
  reports : List (Nat × Value)
  calls : List (Call Value)

end ProxGrad.Session
