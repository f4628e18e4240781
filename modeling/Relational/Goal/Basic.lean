import Relational.State
import Relational.Stream.Observe

/-!
Goals: maps from a search state to the stream of states in which the goal holds. Goals are
joined by conjunction, which goes on with each state, and by disjunction, which interleaves.
-/

namespace Relational

/-- A goal. Applying it to a state is one burst of a search. -/
abbrev Goal (σ : Type) := State → Burst σ State

namespace Goal

variable {σ : Type}

def succeed : Goal σ := fun s => .quiet (.singleton s)

def fail : Goal σ := fun _ => .quiet .empty

def stop (why : Halt) : Goal σ := fun _ => .stop why

/-- A burst for which a state gives away `k` numbers. It tells if the counter starts again. -/
def counted (s : State) (k : Nat) (b : Burst σ State) : Burst σ State :=
  if s.HasRoom k then b else b.after .overflowed

section

variable {s : State} {k : Nat} (b : Burst σ State)

theorem counted_of_room (h : s.HasRoom k) : counted s k b = b := if_pos h

@[simp] theorem counted_zero : counted s 0 b = b := counted_of_room b State.hasRoom_zero

@[simp] theorem stream_counted : (counted s k b).stream = b.stream := by
  unfold counted
  split <;> rfl

/-- A counter that starts again stops no search. -/
@[simp] theorem halt?_counted : Event.halt? (counted s k b).events = Event.halt? b.events := by
  unfold counted
  split <;> rfl

end

/-- Holds where two terms unify. Each wildcard is a variable of its own. -/
def eq (u v : Term) : Goal σ := fun s =>
  let (u', t) := s.fillWildcards u
  let (v', t) := t.fillWildcards v
  counted s (u.wildcards + v.wildcards) <|
    match t.subst.unify? u' v' with
    | none => .stop .endless
    | some none => .quiet .empty
    | some (some subst) => .quiet (.singleton (t.withSubst subst))

def disj2 (g h : Goal σ) : Goal σ := fun s => (g s).merge (h s)

def conj2 (g h : Goal σ) : Goal σ := fun s => (g s).bind h

def delay (g : Goal σ) : Goal σ := fun s => .quiet (.suspended (.later fun _ => g s))

def conj : List (Goal σ) → Goal σ
  | [] => succeed
  | [g] => g
  | g :: gs => conj2 g (conj gs)

def disj : List (Goal σ) → Goal σ
  | [] => fail
  | [g] => g
  | g :: gs => disj2 g (disj gs)

def conde (clauses : List (List (Goal σ))) : Goal σ := disj (clauses.map conj)

def fresh (n : Nat) (f : List Var → Goal σ) : Goal σ := fun s =>
  let (xs, t) := s.freshVars n none
  (counted s n (f xs t)).after (.fresh s.next n)

def freshNamed (names : List String) (f : List Var → Goal σ) : Goal σ := fun s =>
  let (xs, t) := s.freshVars names.length (some names)
  (counted s names.length (f xs t)).after (.freshNamed s.next names)

/-- Introduces `n` variables, which may have names. There must be as many names as variables. -/
def freshDyn (n : Nat) (names : Option (List String)) (f : List Var → Goal σ) :
    Except Error (Goal σ) :=
  let goal : Goal σ := fun s =>
    let (xs, t) := s.freshVars n names
    (counted s n (f xs t)).after (.fresh s.next n)
  match names with
  | none => .ok goal
  | some names => if names.length = n then .ok goal else .error (.arityMismatch n names.length)

/-- Holds where the goal of every item does. The items are those known when it is applied. -/
def everyg (f : Term → Goal σ) (list : Term) : Goal σ := fun s =>
  match s.subst.items? list with
  | none => .stop .endless
  | some ts => conj (ts.map f) s

def someg (f : Term → Goal σ) (list : Term) : Goal σ := fun s =>
  match s.subst.items? list with
  | none => .stop .endless
  | some ts => disj (ts.map f) s

/-- A goal that could only be built if nothing was misused on the way. -/
def built (misuse : Option Error) (g : Goal σ) : Goal σ :=
  match misuse with
  | none => g
  | some e => stop (.misuse e)

end Goal

end Relational
