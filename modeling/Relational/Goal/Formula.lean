import Relational.Error

/-!
Goals as they are written: terms with names in them, and formulas over such terms. The body of
a binder is a formula, built anew each time the binder is applied.
-/

namespace Relational

/-- A term with names in it. Parts without names may be given as terms. -/
inductive Expr where
  | term (t : Term)
  | name (x : String)
  | pair (head tail : Expr)
  | succ (pred : Expr)

namespace Expr

instance : Coe String Expr := ⟨name⟩

/-- A pair, given as a term if both parts are. -/
def cons : Expr → Expr → Expr
  | term a, term d => term (.pair a d)
  | a, d => pair a d

/-- A successor, given as a term if the predecessor is. -/
def next : Expr → Expr
  | term p => term (.succ p)
  | p => succ p

def plus (e : Expr) : Nat → Expr
  | 0 => e
  | n + 1 => (e.plus n).next

def listThen (es : List Expr) (tail : Expr) : Expr := es.foldr cons tail

def closedIn (scope : List String) : Expr → Bool
  | name x => scope.contains x
  | pair a d => a.closedIn scope && d.closedIn scope
  | succ p => p.closedIn scope
  | _ => true

end Expr

/-- The relations of the library. -/
inductive Standard where
  | conso | firsto | resto | emptyo | appendo | membero | sameLengtho | reverseo | reverseAcco
  | inco | poso | gt1o | numbero | addo | mulo | gteo | lteo
  deriving DecidableEq

/-- Relations are those of the library and those of the program at hand. -/
inductive RelationName where
  | standard (r : Standard)
  | user (name : String)
  deriving DecidableEq

/-- A goal as it is written. -/
inductive Formula where
  | eq (u v : Expr)
  | succeed
  | fail
  | nevero
  | alwayso
  | delay (g : Formula)
  | conj2 (g h : Formula)
  | disj2 (g h : Formula)
  /-- Introduces a variable for each name; if `named`, the variables show their names. -/
  | fresh (named : Bool) (names : List String) (body : Formula)
  /-- Introduces `arity` variables, shown by the names in `shown`; the first have names in the
  body. -/
  | freshDyn (arity : Nat) (shown : Option (List String)) (names : List String) (body : Formula)
  | everyg (item : String) (list : Expr) (body : Formula)
  | someg (item : String) (list : Expr) (body : Formula)
  | call (r : RelationName) (args : List Expr)

namespace Formula

def conj : List Formula → Formula
  | [] => succeed
  | [g] => g
  | g :: gs => conj2 g (conj gs)

def disj : List Formula → Formula
  | [] => fail
  | [g] => g
  | g :: gs => disj2 g (disj gs)

def conde (clauses : List (List Formula)) : Formula := disj (clauses.map conj)

def freshNamed (names : List String) (body : List Formula) : Formula :=
  fresh true names (conj body)

/-- A call of a relation of the library. -/
def ask (r : Standard) (args : List Expr) : Formula := call (.standard r) args

/-- Does each name stand for something, with these names in scope around the formula? -/
def closedIn (scope : List String) : Formula → Bool
  | eq u v => u.closedIn scope && v.closedIn scope
  | delay g => g.closedIn scope
  | conj2 g h | disj2 g h => g.closedIn scope && h.closedIn scope
  | fresh _ names body => body.closedIn (names ++ scope)
  | freshDyn arity _ names body => names.length ≤ arity && body.closedIn (names ++ scope)
  | everyg x list body | someg x list body => list.closedIn scope && body.closedIn (x :: scope)
  | call _ args => args.all (Expr.closedIn scope)
  | succeed | fail | nevero | alwayso => true

/-- The first misuse met when the formula is built. Bodies are not built yet. -/
def misuse? : Formula → Option Error
  | delay g => g.misuse?
  | conj2 g h | disj2 g h => g.misuse? <|> h.misuse?
  | freshDyn arity (some shown) _ _ =>
    if shown.length = arity then none else some (.arityMismatch arity shown.length)
  | _ => none

/-- The printed form, which tells nothing of a goal. -/
def print (_ : Formula) : String := "<goal>"

end Formula

/-- A relation: what it is called in a log, its parameters, and when it holds. -/
structure Relation where
  label : String
  params : List String
  body : Formula

end Relational
