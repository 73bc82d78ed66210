/-!
# Linearization of class ancestors

The order in which the ancestors of a class are searched: the class itself, then a merge of its
parents' orders and the list of parents that keeps every order it is given. The merge takes, again
and again, the first head that stands in no tail; where none is left to take, the parents'
orders contradict each other.
-/

set_option autoImplicit false

namespace ProxGrad.Linearization

variable {α : Type} [DecidableEq α]

/-- The first head of a list that occurs in no list's tail. -/
def candidate? (lists : List (List α)) : Option α :=
  (lists.filterMap List.head?).find? fun a => lists.all fun list => !list.tail.contains a

/-- The lists without an element at their heads, empty ones dropped. -/
def strip (a : α) (lists : List (List α)) : List (List α) :=
  (lists.map fun list => if list.head? = some a then list.tail else list).filter
    fun list => !list.isEmpty

def weight (lists : List (List α)) : Nat :=
  lists.flatten.length

/-- Merges nonempty lists in at most `fuel` steps. -/
def mergeWithin : Nat → List (List α) → Option (List α)
  | _, [] => some []
  | 0, _ => none
  | fuel + 1, lists =>
    match candidate? lists with
    | none => none
    | some a => (mergeWithin fuel (strip a lists)).map (a :: ·)

/-- The merge that keeps the order of every list, if there is one. Each step takes an element off
some list, so the total length bounds the steps. -/
def merge? (lists : List (List α)) : Option (List α) :=
  mergeWithin (weight lists) (lists.filter fun list => !list.isEmpty)

/-- The order of a class with these parents, each parent's order being given. -/
def ofParents? (a : α) (parents : List α) (order : α → List α) : Option (List α) :=
  (merge? (parents.map order ++ [parents])).map (a :: ·)

end ProxGrad.Linearization
