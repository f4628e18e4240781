import Relational.Term.Atom

/-!
Terms: what relations are about. A term is a variable, the empty list, a pair, an atom, a
unary natural number, a wildcard, or a placeholder for a variable left open in an answer. A
wildcard carries the place where it was written, which tells it from the others.
-/

namespace Relational

/-- A variable. Its number is its identity; the name only helps the reader. -/
structure Var where
  id : Nat
  name : Option String
  deriving DecidableEq

namespace Var

instance : BEq Var := ⟨fun x y => x.id == y.id⟩

@[simp] theorem beq_eq (x y : Var) : (x == y) = (x.id == y.id) := rfl

instance : Ord Var := ⟨fun x y => compare x.id y.id⟩

def print (x : Var) : String := x.name.getD ("#" ++ toString x.id)

/-- Variables in the order of their numbers; equal ones keep their order. -/
def sort (xs : List Var) : List Var := xs.mergeSort fun x y => x.id ≤ y.id

def distinct (xs : List Var) : Nat := xs.eraseDups.length

end Var

inductive Term where
  | var (x : Var)
  | nil
  | pair (head tail : Term)
  | atom (a : Atom)
  | zero
  | succ (pred : Term)
  | wildcard (place : Nat)
  | placeholder (n : Nat)
  deriving Inhabited, DecidableEq

/-- What a term is at its root. -/
inductive Kind where
  | variable | pair | empty | atomic | natural | wildcard | placeholder
  deriving DecidableEq

namespace Term

def kind : Term → Kind
  | var _ => .variable
  | nil => .empty
  | pair _ _ => .pair
  | atom _ => .atomic
  | zero | succ _ => .natural
  | wildcard _ => .wildcard
  | placeholder _ => .placeholder

def asVar? : Term → Option Var
  | var x => some x
  | _ => none

def asAtom? : Term → Option Atom
  | atom a => some a
  | _ => none

def isVar (t : Term) : Bool := t.asVar?.isSome

def isWildcard : Term → Bool
  | wildcard _ => true
  | _ => false

def hasWildcard : Term → Bool
  | wildcard _ => true
  | pair a d => a.hasWildcard || d.hasWildcard
  | succ p => p.hasWildcard
  | _ => false

def wildcards : Term → Nat
  | wildcard _ => 1
  | pair a d => a.wildcards + d.wildcards
  | succ p => p.wildcards
  | _ => 0

def wildcardsIn : List Term → Nat
  | [] => 0
  | t :: ts => t.wildcards + wildcardsIn ts

/-! ### Numbers -/

def plus (t : Term) : Nat → Term
  | 0 => t
  | n + 1 => succ (t.plus n)

def nat (n : Nat) : Term := zero.plus n

/-- What stands under the successors at the root, and how many there are. -/
def unplus : Term → Term × Nat
  | succ p => (p.unplus.1, p.unplus.2 + 1)
  | t => (t, 0)

def asNat? (t : Term) : Option Nat :=
  match t.unplus with
  | (zero, n) => some n
  | _ => none

/-! ### Lists -/

def listThen (ts : List Term) (tail : Term) : Term := ts.foldr pair tail

def ofList (ts : List Term) : Term := listThen ts nil

def items : Term → List Term
  | pair a d => a :: d.items
  | _ => []

def ending : Term → Term
  | pair _ d => d.ending
  | t => t

def toList? (t : Term) : Option (List Term) :=
  match t.ending with
  | nil => some t.items
  | _ => none

/-- The variables of a term as they occur, each head before its tail. -/
def vars : Term → List Var
  | var x => [x]
  | pair a d => a.vars ++ d.vars
  | succ p => p.vars
  | _ => []

/-- The term with every variable replaced. Fails where a replacement does. -/
def replaceVars (f : Var → Option Term) : Term → Option Term
  | var x => f x
  | pair a d =>
    match a.replaceVars f with
    | none => none
    | some a => (d.replaceVars f).map (pair a)
  | succ p => (p.replaceVars f).map succ
  | t => some t

theorem wildcards_eq_zero {t : Term} (h : t.hasWildcard = false) : t.wildcards = 0 := by
  induction t with
  | pair a d iha ihd =>
    rw [hasWildcard, Bool.or_eq_false_iff] at h
    rw [wildcards, iha h.1, ihd h.2]
  | succ p ih => exact ih h
  | wildcard p => simp [hasWildcard] at h
  | _ => rfl

@[simp] theorem plus_zero (t : Term) : t.plus 0 = t := rfl

@[simp] theorem items_listThen (ts : List Term) (t : Term) :
    (listThen ts t).items = ts ++ t.items := by
  induction ts with
  | nil => rfl
  | cons a ts ih => simpa [listThen, items] using ih

end Term

end Relational
