import Relational.Subst.Basic

/-!
Answers as terms. The variables left open get placeholders, numbered as they are first met, so
two answers that differ only in their variables read the same.
-/

namespace Relational.Subst

/-- Binds the open variables of a term to placeholders, through at most `k` bindings on the
way to any of them. -/
def placeWithin : Nat → Subst → Term → Option Subst
  | 0, s, t => t.vars.foldlM (fun s x =>
      if s.has x then none else some (s.extend x (.placeholder s.size))) s
  | k + 1, s, t => t.vars.foldlM (fun s x =>
      match s.find? x with
      | none => some (s.extend x (.placeholder s.size))
      | some u => placeWithin k s u) s

/-- Binds the open variables of a term to placeholders. The number of bindings is the index of
the next placeholder. -/
def place? (s : Subst) (t : Term) : Option Subst := placeWithin (s.size + 1) s t

variable (s : Subst)

/-- A term as part of an answer. -/
def reify? (t : Term) : Option Term :=
  match s.resolve? t with
  | none => none
  | some u =>
    match empty.place? u with
    | none => none
    | some names => names.resolve? u

/-- Several variables as parts of one answer: they share the numbering. -/
def reifyAll? (xs : List Var) : Option (List Term) :=
  (s.reify? (.ofList (xs.map .var))).map Term.items

end Relational.Subst
