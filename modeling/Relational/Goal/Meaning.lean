import Relational.Goal.Basic
import Relational.Goal.Formula

/-!
What formulas mean: the goal that a formula is, where its names stand for terms. A call is a
suspension, so that relations may refer to themselves and to each other.
-/

namespace Relational

/-- What the names stand for. -/
structure Env where
  value : String → Term

namespace Env

def empty : Env := ⟨fun _ => .nil⟩

def bind (env : Env) (x : String) (t : Term) : Env :=
  ⟨fun y => if y = x then t else env.value y⟩

def bindAll (env : Env) (xs : List String) (ts : List Term) : Env :=
  (xs.zip ts).foldl (fun env b => env.bind b.1 b.2) env

def ofVars (xs : List Var) : Env :=
  xs.foldl (fun env x => match x.name with
    | some name => env.bind name (.var x)
    | none => env) empty

end Env

def Expr.eval (env : Env) : Expr → Term
  | term t => t
  | name x => env.value x
  | pair a d => .pair (a.eval env) (d.eval env)
  | succ p => .succ (p.eval env)

/-- What is left to do in a suspended search. -/
inductive Pending where
  | never
  | always (s : State)
  | call (r : RelationName) (args : List Term) (s : State)

namespace Goal

/-- Never holds, but never gives up. -/
def nevero : Goal Pending := fun _ => .quiet (.suspended (.seed .never))

/-- Holds again and again. -/
def alwayso : Goal Pending := fun s => .quiet (.suspended (.seed (.always s)))

/-- The call of a relation. Wildcards are filled at once; the body waits until it is forced. -/
def call (r : RelationName) (args : List Term) : Goal Pending := fun s =>
  let (ts, t) := s.fillAll args
  counted s (Term.wildcardsIn args) (.quiet (.suspended (.seed (.call r ts t))))

end Goal

namespace Formula

def apply (env : Env) : Formula → Goal Pending
  | eq u v => .eq (u.eval env) (v.eval env)
  | succeed => .succeed
  | fail => .fail
  | nevero => .nevero
  | alwayso => .alwayso
  | delay g => .delay (g.apply env)
  | conj2 g h => .conj2 (g.apply env) (h.apply env)
  | disj2 g h => .disj2 (g.apply env) (h.apply env)
  | fresh named names body =>
    let inside (xs : List Var) : Goal Pending :=
      Goal.built body.misuse? (body.apply (env.bindAll names (xs.map .var)))
    if named then .freshNamed names inside else .fresh names.length inside
  | freshDyn arity shown names body =>
    let inside (xs : List Var) : Goal Pending :=
      Goal.built body.misuse? (body.apply (env.bindAll names (xs.map .var)))
    match Goal.freshDyn arity shown inside with
    | .ok g => g
    | .error e => .stop (.misuse e)
  | everyg x list body =>
    .everyg (fun t => Goal.built body.misuse? (body.apply (env.bind x t))) (list.eval env)
  | someg x list body =>
    .someg (fun t => Goal.built body.misuse? (body.apply (env.bind x t))) (list.eval env)
  | call r args => .call r (args.map (Expr.eval env))

def build (g : Formula) : Except Halt Formula :=
  match g.misuse? with
  | none => .ok g
  | some e => .error (.misuse e)

/-- The goal that a formula is, once it could be built. -/
def goal (env : Env) (g : Formula) : Goal Pending := Goal.built g.misuse? (g.apply env)

end Formula

/-- The body of a relation, for arguments and a state. -/
def Relation.enter (r : Relation) (args : List Term) : Goal Pending := fun s =>
  (r.body.goal (Env.empty.bindAll r.params args) s).after (.called r.label s.next s.subst.size)

end Relational
