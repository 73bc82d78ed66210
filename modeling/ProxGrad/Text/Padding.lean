/-!
# Padding

Characters repeated, and text filled up with blanks to a width.
-/

set_option autoImplicit false

namespace ProxGrad

def repeated (c : Char) (count : Nat) : String :=
  String.ofList (List.replicate count c)

def blanks (count : Nat) : String :=
  repeated ' ' count

def padStart (width : Nat) (s : String) : String :=
  blanks (width - s.length) ++ s

def padEnd (width : Nat) (s : String) : String :=
  s ++ blanks (width - s.length)

def greatest (least : Nat) (ns : List Nat) : Nat :=
  ns.foldl max least

end ProxGrad
