/-!
# Operator registry

Implementations of the generic operators, each registered for a class of functions and a class of
options. An operator is resolved by searching the ancestors of the function's class, and for each of
them the ancestors of the options' class, for the first registered pair.
-/

set_option autoImplicit false

namespace ProxGrad

/-- The generic operators. -/
inductive Operator where
  | argmin
  | prox
  | proj
  | projSet
deriving DecidableEq, Repr

namespace Operator

def all : List Operator := [.argmin, .prox, .proj, .projSet]

def name : Operator → String
  | .argmin => "argmin"
  | .prox => "prox"
  | .proj => "proj"
  | .projSet => "proj_set"

def ofName? (text : String) : Option Operator :=
  all.find? fun operator => operator.name == text

end Operator

/-- A registration: the operator, the class of functions and the class of options. -/
structure Registry.Key (C : Type) where
  operator : Operator
  function : C
  options : C
deriving DecidableEq, Repr

/-- The live registrations, each key at most once. -/
structure Registry (C I : Type) where
  entries : List (Registry.Key C × I) := []

namespace Registry

variable {C I : Type} [DecidableEq C]

/-- The implementation that is registered under a key. -/
def find? (r : Registry C I) (key : Key C) : Option I :=
  (r.entries.find? fun entry => entry.1 = key).map (·.2)

/-- Removes a registration; a missing one is ignored. -/
def unregister (r : Registry C I) (key : Key C) : Registry C I :=
  ⟨r.entries.filter fun entry => entry.1 ≠ key⟩

/-- Registers an implementation, in place of an earlier one under the same key. -/
def register (r : Registry C I) (key : Key C) (implementation : I) : Registry C I :=
  ⟨(key, implementation) :: (r.unregister key).entries⟩

/-- The implementation that a registration replaces without leave: another one is live under its
key, and overriding was not asked for. -/
def replaced? [DecidableEq I] (r : Registry C I) (key : Key C) (implementation : I)
    (override : Bool) : Option I :=
  (r.find? key).filter fun existing => existing ≠ implementation && !override

/-- The implementation of the first registered pair of a function's and an options' ancestors, the
function's ancestors going first. -/
def resolve? (r : Registry C I) (operator : Operator) (function options : List C) : Option I :=
  function.findSome? fun f => options.findSome? fun o => r.find? ⟨operator, f, o⟩

end Registry

end ProxGrad
