import ProxGrad.Configuration.Basic
import ProxGrad.Document.Root

/-!
# Configurations from documents

A configuration document is a file that holds one mapping of field names to values, or nothing.
-/

set_option autoImplicit false

namespace ProxGrad

namespace Document.Root

/-- Whether a document says nothing: its root is absent, false, zero or without members. -/
def isVoid : Root → Bool
  | .mapping entries => entries.isEmpty
  | .collection size => size == 0
  | .single v =>
    match v.truth? with
    | .ok truth => !truth
    | .error _ => false

end Document.Root

/-- What a path leads to. -/
inductive Source where
  | missing
  | directory
  | file (bytes : ByteArray)

namespace Configuration

/-- The entries of a mapping by their names. A key that is another value than text is refused. -/
def named : List (Document.Key × Value) → Except Fault (List Entry)
  | [] => .ok []
  | (.text name, v) :: entries => (named entries).map ((some name, v) :: ·)
  | (.broken _, v) :: entries => (named entries).map ((none, v) :: ·)
  | (.other, _) :: _ => .error .operandTypes

/-- The configuration that the root of a document is. A document that says nothing gives the initial
one. -/
def ofRoot (root : Document.Root) : Except Fault Configuration :=
  if root.isVoid then ofEntries []
  else
    match root with
    | .mapping entries =>
      match named entries with
      | .error f => .error f
      | .ok data =>
        match ofEntries data with
        | .error (.configuration ds) => .error (.configurationDocument ds)
        | result => result
    | _ => .error .notMapping

def load : Source → Except Fault Configuration
  | .missing => .error (.document .missing)
  | .directory => .error (.document .directory)
  | .file bytes => do
    let root ← Document.Root.read (Document.decode bytes)
    ofRoot root

end Configuration

end ProxGrad
