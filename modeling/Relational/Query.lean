import Relational.Program

/-!
Queries: what a goal says of some variables. Every state is read as the values of these
variables, and values that were there before count as duplicates.
-/

namespace Relational

/-- Values of the query variables in one answer. -/
structure Solution where
  bindings : List (Var × Term)

namespace Solution

variable (a : Solution)

def values : List Term := a.bindings.map Prod.snd

def get? (name : String) : Option Term :=
  (a.bindings.find? fun b => b.1.name == some name).map Prod.snd

def value? (id : Nat) : Option Term :=
  (a.bindings.find? fun b => b.1.id == id).map Prod.snd

/-- Same variables with equal values, in the same order. -/
def same (b : Solution) : Bool :=
  a.bindings.length == b.bindings.length &&
    (a.bindings.zip b.bindings).all fun (x, y) => x.1 == y.1 && x.2 == y.2

instance : BEq Solution := ⟨same⟩

def print : String :=
  ", ".intercalate (a.bindings.map fun (x, t) => x.print ++ " = " ++ t.print)

/-- The text that shows how a solution is made up. -/
def dump : String :=
  "Solution \x7b bindings: " ++
    Text.bracketed (a.bindings.map fun (x, t) => "(" ++ x.print ++ ", " ++ t.print ++ ")") ++
    " \x7d"

end Solution

/-- The solutions of a query, each once, in the order in which they were found. -/
structure Answer where
  solutions : List Solution

namespace Answer

variable (a : Answer)

def success : Bool := !a.solutions.isEmpty

def distinctPlaceholders (ts : List Term) : Bool :=
  ts.zipIdx.all fun (t, i) => t.kind == .placeholder && (ts.take i).all fun u => !(u == t)

/-- Does the goal hold whatever the query variables are? There is one solution then, and each
variable has a placeholder of its own; variables linked to each other are not free. -/
def isTautology : Bool :=
  match a.solutions with
  | [b] => distinctPlaceholders b.values
  | _ => false

def same (b : Answer) : Bool := a.solutions == b.solutions

instance : BEq Answer := ⟨same⟩

/-- The text that shows how an answer is made up. -/
def dump : String :=
  "Answer \x7b success: " ++ (if a.success then "true" else "false") ++ ", solutions: " ++
    Text.bracketed (a.solutions.map Solution.dump) ++ " \x7d"

end Answer

/-- A goal, the variables that are asked for, and how many states at most are looked at. -/
structure Query where
  program : Program
  vars : List Var
  goal : Formula
  limit : Option Nat
  single : Bool

namespace Query

/-- A query over new variables with these names. They take the first numbers. -/
def ask (program : Program) (names : List String) (goal : Formula) : Query :=
  ⟨program, ((State.boundless 0).freshVars names.length (some names)).1, goal, none, false⟩

variable (q : Query) (budget : Nat)

def env : Env := .ofVars q.vars

/-- The search: the goal applied to a state that leaves their numbers to the variables. No run of it
makes as many variables as a machine word has numbers, so its counter has no end; up to there the
search is the same with one, by `Formula.boundless_alike`. -/
def search : Burst Pending State := q.goal.goal q.env (.boundless q.vars.length)

/-- The states, as far as the limit goes, and the events on the way. -/
def harvest : Except Halt (Harvest State) := q.search.collect q.program.unfold q.limit budget

/-- The stream of states: lazy, unless a limit calls for collecting them. -/
def states : Except Halt (Stream Pending State) :=
  match q.limit with
  | none => q.search.stream?
  | some _ => (q.harvest budget).map Harvest.stream

/-- What is read from a state: the first variable if only one is asked for, or else the list of
all variables. -/
def target : Term :=
  match q.single, q.vars with
  | true, x :: _ => .var x
  | _, xs => .ofList (xs.map .var)

/-- The target in a state, as part of an answer. -/
def read (s : State) : Except Halt Term :=
  match s.subst.reify? q.target with
  | some t => .ok t
  | none => .error .endless

def reified : Except Halt (List Term) := do
  let h ← q.harvest budget
  h.items.toList.mapM q.read

def reifiedFirst (n : Nat) : Except Halt (List Term) := do
  let h ← (Burst.quiet (← q.states budget)).take q.program.unfold n budget
  h.items.toList.mapM q.read

/-- The printed form of the stream of targets. Nothing is forced. -/
def printReified : Except Halt String := do
  let s ← q.states budget
  let ts ← s.front.mapM q.read
  return Stream.frame (ts.map Term.print) s.back.isSome

def traceReified (steps : Nat) : Except Halt (List (Mark Term)) := do
  let s ← q.states budget
  let ms ← s.traceFrom q.program.unfold steps 0
  ms.mapM (Mark.render q.read)

def solution (s : State) : Except Halt Solution :=
  match s.subst.reifyAll? q.vars with
  | some ts => .ok ⟨q.vars.zip ts⟩
  | none => .error .endless

/-- Solutions kept so far, each where it came first, and a count of those that came again. -/
structure Tally where
  kept : Array Solution
  duplicates : Int32

/-- Keeps a solution that is new, and counts any other. -/
def Tally.add (t : Tally) (a : Solution) : Tally :=
  if t.kept.contains a then { t with duplicates := t.duplicates + 1 }
  else { t with kept := t.kept.push a }

def tally (found : List Solution) : Tally := found.foldl Tally.add ⟨#[], 0⟩

/-- Finds the solutions of a query. The events end with a summary. -/
def solve : Except Halt (Answer × List Event) := do
  let h ← q.harvest budget
  let found ← h.items.toList.mapM q.solution
  let t := tally found
  let summary := Event.solved t.kept.size t.duplicates q.limit
  return (⟨t.kept.toList⟩, h.events.toList ++ [summary])

end Query

end Relational
