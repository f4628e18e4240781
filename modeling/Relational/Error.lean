import Relational.Term.Print

/-!
Misuse of the library, and what stops a search. Failing to unify is no error: it only leaves
no answers.
-/

namespace Relational

/-- Misuse: asking for a binding that is not there, names that do not match the number of
variables, and readings of a term that it does not allow. -/
inductive Error where
  | unboundVariable (x : Var)
  | arityMismatch (expected found : Nat)
  | improperList (t : Term)
  | notANatural (t : Term)

def Error.message : Error → String
  | unboundVariable x => "variable " ++ x.print ++ " is not bound"
  | arityMismatch expected found =>
    "arity mismatch: expected " ++ toString expected ++ " variables, found " ++ toString found
  | improperList t => "not a proper list: " ++ t.print
  | notANatural t => "not a natural number: " ++ t.print

/-- What stops a search before its end: misuse, a resolution or unification that would go on
for ever, or a budget that is used up. -/
inductive Halt where
  | misuse (e : Error)
  | endless
  | overBudget

namespace Term

/-- The value of a closed natural number, or the reason why there is none. -/
def toNat (t : Term) : Except Error Nat :=
  match t.asNat? with
  | some n => .ok n
  | none => .error (.notANatural t)

/-- The items of a proper list, or the reason why there are none. -/
def toList (t : Term) : Except Error (List Term) :=
  match t.toList? with
  | some ts => .ok ts
  | none => .error (.improperList t)

end Term

end Relational
