import Relational.Error

/-!
What a search tells of itself while it runs, in the order in which it happens, and the form in
which a log shows it.
-/

namespace Relational

/-- A step of a search worth telling, or what stopped the search. -/
inductive Event where
  | fresh (first arity : Nat)
  | freshNamed (first : Nat) (names : List String)
  | called (relation : String) (next bindings : Nat)
  | solved (solutions : Nat) (duplicates : Int32) (limit : Option Nat)
  /-- The counter of a state started again. No log shows it, but a build that checks its
  arithmetic stops here. -/
  | overflowed
  | halted (why : Halt)

namespace Event

def halt? : List Event → Option Halt
  | [] => none
  | halted why :: _ => some why
  | _ :: es => halt? es

inductive Level where
  | trace
  | debug
  deriving DecidableEq

inductive Part where
  | combinators
  | relations
  | queries
  deriving DecidableEq

inductive Value where
  | number (n : Nat)
  | text (s : String)
  deriving DecidableEq

structure Entry where
  level : Level
  part : Part
  message : String
  fields : List (String × Value)
  deriving DecidableEq

def limitText : Option Nat → String
  | none => "None"
  | some n => "Some(" ++ toString n ++ ")"

/-- The value of a count. A count that has run over is negative, and shown by its text. -/
def Value.count (n : Int32) : Value :=
  if 0 ≤ n.toInt then number n.toInt.toNat else text (toString n.toInt)

/-- The entry for an event. What stops a search leaves no entry, nor does a counter that starts
again. -/
def entry? : Event → Option Entry
  | fresh first arity =>
    some ⟨.trace, .combinators, "fresh variables",
      [("first", .number first), ("arity", .number arity)]⟩
  | freshNamed first names =>
    some ⟨.trace, .combinators, "fresh variables",
      [("first", .number first),
       ("names", .text (Text.bracketed (names.map Text.quotedString)))]⟩
  | called relation next bindings =>
    some ⟨.trace, .relations, "apply",
      [("relation", .text relation), ("next_id", .number next),
       ("bindings", .number bindings)]⟩
  | solved solutions duplicates limit =>
    some ⟨.debug, .queries, "query solved",
      [("solutions", .number solutions), ("duplicates", .count duplicates),
       ("limit", .text (limitText limit))]⟩
  | overflowed | halted _ => none

end Event

end Relational
