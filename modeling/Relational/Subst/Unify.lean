import Relational.Subst.Basic

/-!
Unification: the bindings that make two terms equal. Both terms are read through the bindings
found so far, heads before tails. There is no occurs check, so bindings may become cyclic, and
on cyclic bindings unification may have no end.
-/

namespace Relational

def Term.size : Term → Nat
  | .pair a d => a.size + d.size + 1
  | .succ p => p.size + 1
  | _ => 1

namespace Subst

/-- Unifies two terms, at most `n` steps deep: `some none` if they clash, `none` if the depth
does not suffice. Terms that are equal once their variables are followed need no more work. A
wildcard matches anything and binds nothing. -/
def unifyWithin : Nat → Subst → Term → Term → Option (Option Subst)
  | 0, _, _, _ => none
  | n + 1, s, u, v =>
    match s.walk? u, s.walk? v with
    | some u, some v =>
      if u == v then some (some s)
      else
        match u, v with
        | .wildcard _, _ => some (some s)
        | _, .wildcard _ => some (some s)
        | .var x, t => some (some (s.extend x t))
        | t, .var y => some (some (s.extend y t))
        | .pair a d, .pair b e =>
          match unifyWithin n s a b with
          | some (some s) => unifyWithin n s d e
          | r => r
        | .succ p, .succ q => unifyWithin n s p q
        | _, _ => some none
    | _, _ => none

def weight (s : Subst) : Nat := s.toList.foldl (fun n b => n + b.2.size) 0

/-- A depth that suffices if any does. A deeper path would come twice to the same two parts
under the same bindings: there are not more parts than constructors, and not more bindings to
make than parts. -/
def depthBound (s : Subst) (u v : Term) : Nat :=
  Nat.pow (s.weight + u.size + v.size + 1) 3 + 1

/-- A depth that nearly always suffices, so that nothing needs to be measured. -/
def quickDepth : Nat := 1048576

/-- Unifies two terms: `some none` if they clash, `none` if there is no end to it. -/
def unify? (s : Subst) (u v : Term) : Option (Option Subst) :=
  match unifyWithin quickDepth s u v with
  | some r => some r
  | none => unifyWithin (s.depthBound u v) s u v

end Subst

end Relational
