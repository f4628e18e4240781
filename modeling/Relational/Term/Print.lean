import Relational.Term.Basic

/-!
The printed form of terms. A chain of pairs is a list in parentheses, with a dot before an
end other than the empty list; successors are counted, and added to what they stand on.
-/

namespace Relational.Term

/-- Where a term is printed: on its own, as the rest of a list, or under `n + 1` successors. -/
inductive Place where
  | alone
  | rest
  | under (n : Nat)

namespace Place

def before : Place → String
  | rest => " . "
  | _ => ""

def after : Place → String
  | under n => "+" ++ toString (n + 1)
  | _ => ""

end Place

/-- Adds the text of a term at its place to the text before it. -/
def printOnto : String → Place → Term → String
  | text, .rest, nil => text
  | text, .rest, pair a d => printOnto (printOnto (text ++ " ") .alone a) .rest d
  | text, place, pair a d =>
    printOnto (printOnto (text ++ "(") .alone a) .rest d ++ ")" ++ place.after
  | text, .under n, zero => text ++ toString (n + 1)
  | text, .under n, succ p => printOnto text (.under (n + 1)) p
  | text, place, succ p => printOnto (text ++ place.before) (.under 0) p
  | text, place, zero => text ++ place.before ++ "0"
  | text, place, nil => text ++ place.before ++ "()" ++ place.after
  | text, place, var x => text ++ place.before ++ x.print ++ place.after
  | text, place, atom a => text ++ place.before ++ a.print ++ place.after
  | text, place, wildcard _ => text ++ place.before ++ "_" ++ place.after
  | text, place, placeholder n => text ++ place.before ++ "_" ++ toString n ++ place.after

def print (t : Term) : String := printOnto "" .alone t

/-- The printed form of a pair without the parentheses around it. -/
def printBare? : Term → Option String
  | pair a d => some (printOnto (printOnto "" .alone a) .rest d)
  | _ => none

end Relational.Term
