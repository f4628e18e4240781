import Std.Data.TreeMap
import Relational.Term.Equality
import Relational.Error

/-!
Substitutions: what the variables are bound to. A binding may name further bound variables, so
a value is read by following them. Nothing keeps a variable from being bound to a term that
contains it; following such a binding to the bottom has no end, and gives `none`.
-/

namespace Relational

/-- Bindings in the order of their variables. Each keeps the variable it was made for. -/
structure Subst where
  entries : Std.TreeMap Nat (Var × Term)

namespace Subst

def empty : Subst := ⟨∅⟩

instance : EmptyCollection Subst := ⟨empty⟩

variable (s : Subst)

def size : Nat := s.entries.size

def isEmpty : Bool := s.entries.isEmpty

def has (x : Var) : Bool := s.entries.contains x.id

/-- What a variable is bound to, without following it further. -/
def find? (x : Var) : Option Term := (s.entries[x.id]?).map Prod.snd

/-- What a variable is bound to; it is misuse to ask if it is not. -/
def get (x : Var) : Except Error Term :=
  match s.find? x with
  | some t => .ok t
  | none => .error (.unboundVariable x)

/-- Binds a variable, in place of an older binding. -/
def extend (x : Var) (t : Term) : Subst := ⟨s.entries.insert x.id (x, t)⟩

def toList : List (Var × Term) := s.entries.toList.map Prod.snd

def same (t : Subst) : Bool :=
  s.size == t.size &&
    (s.toList.zip t.toList).all fun (b, c) => b.1 == c.1 && b.2 == c.2

instance : BEq Subst := ⟨same⟩

def print : String :=
  "\x7b" ++ ", ".intercalate (s.toList.map fun (x, t) => x.print ++ ": " ++ t.print) ++ "\x7d"

@[simp] theorem find?_empty (x : Var) : empty.find? x = none := by
  simp [empty, find?]

/-- The newest binding of a variable counts; all others stay. -/
theorem find?_extend (x y : Var) (t : Term) :
    (s.extend x t).find? y = if x.id = y.id then some t else s.find? y := by
  by_cases h : x.id = y.id <;> simp [extend, find?, Std.TreeMap.getElem?_insert, h]

theorem has_eq_isSome (x : Var) : s.has x = (s.find? x).isSome := by
  simp [has, find?]

theorem size_extend (x : Var) (t : Term) :
    (s.extend x t).size = if s.has x then s.size else s.size + 1 := by
  simp [extend, size, has, Std.TreeMap.size_insert]

/-- Follows the variable at the root of a term through at most `k` bindings. -/
def walkWithin : Nat → Term → Option Term
  | k, .var x =>
    match s.find? x, k with
    | none, _ => some (.var x)
    | some _, 0 => none
    | some t, k + 1 => walkWithin k t
  | _, t => some t

/-- Follows the variable at the root of a term as far as it is bound. A chain of variables
that ends passes each of them once. -/
def walk? (t : Term) : Option Term := s.walkWithin s.size t

/-- Replaces the variables of a term by what they stand for, through at most `k` bindings on
the way to any part. -/
def resolveWithin : Nat → Term → Option Term
  | 0, t => t.replaceVars fun x => if s.has x then none else some (.var x)
  | k + 1, t => t.replaceVars fun x =>
    match s.find? x with
    | none => some (.var x)
    | some u => resolveWithin k u

/-- Replaces the variables of a term by what they stand for. A path that ends passes each
binding once. -/
def resolve? (t : Term) : Option Term := s.resolveWithin s.size t

/-- The items of the known part of a list, through at most `k` bindings. -/
def itemsWithin : Nat → Term → Option (List Term)
  | k, t =>
    match t.ending, k with
    | .var x, k =>
      match s.find? x, k with
      | none, _ => some t.items
      | some _, 0 => none
      | some u, k + 1 => (itemsWithin k u).map (t.items ++ ·)
    | _, _ => some t.items

def items? (t : Term) : Option (List Term) := s.itemsWithin s.size t

end Subst

end Relational
