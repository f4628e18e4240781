import Relational.Goal.Meaning
import Relational.Library.Lists
import Relational.Library.Numbers

/-!
Programs: relations of one's own beside those of the library. A suspended search goes on by
what its program says of the relation called.
-/

namespace Relational

def Standard.definition : Standard → Relation
  | conso => Library.conso
  | firsto => Library.firsto
  | resto => Library.resto
  | emptyo => Library.emptyo
  | appendo => Library.appendo
  | membero => Library.membero
  | sameLengtho => Library.sameLengtho
  | reverseo => Library.reverseo
  | reverseAcco => Library.reverseAcco
  | inco => Library.inco
  | poso => Library.poso
  | gt1o => Library.gt1o
  | numbero => Library.numbero
  | addo => Library.addo
  | mulo => Library.mulo
  | gteo => Library.gteo
  | lteo => Library.lteo

/-- The relations of the library that others may call. -/
def Standard.callable : List Standard :=
  [conso, firsto, resto, emptyo, appendo, membero, sameLengtho, reverseo, inco, poso, gt1o,
   numbero, addo, mulo, gteo, lteo]

/-- The goal of the library with a name, for as many arguments as it takes. -/
def Library.goal? (name : String) (args : List Expr) : Option Formula :=
  match name, args with
  | "zeroo", [n] => some (zeroo n)
  | "oneo", [n] => some (oneo n)
  | _, _ =>
    (Standard.callable.find? fun r => r.definition.label == name).bind fun r =>
      if r.definition.params.length = args.length then some (.ask r args) else none

/-- The relations that a program defines, by name. -/
structure Program where
  relations : List (String × Relation)

namespace Program

def empty : Program := ⟨[]⟩

/-- A relation of a program. A log knows it by the number of its parameters. -/
def relation (params : List String) (body : Formula) : Relation :=
  ⟨"user" ++ toString params.length, params, body⟩

/-- The goal with a name, for as many arguments as it takes, where a program defines relations
with these numbers of parameters. They come before those of the library. -/
def goal? (arities : List (String × Nat)) (name : String) (args : List Expr) : Option Formula :=
  match arities.lookup name with
  | some n => if n = args.length then some (.call (.user name) args) else none
  | none => Library.goal? name args

variable (p : Program)

def find? : RelationName → Option Relation
  | .standard r => some r.definition
  | .user name => p.relations.lookup name

/-- How a suspended search goes on. A relation that is not there does not hold. -/
def unfold : Pending → Burst Pending State
  | .never => Goal.nevero .empty
  | .always s => Goal.disj2 .succeed .alwayso s
  | .call r args s =>
    match p.find? r with
    | none => Goal.fail s
    | some r => r.enter args s

def run (g : Formula) (env : Env) (s : State) (n budget : Nat) : Except Halt (List State) :=
  ((g.goal env s).take p.unfold n budget).map fun h => h.items.toList

def runAll (g : Formula) (env : Env) (s : State) (budget : Nat) : Except Halt (List State) :=
  ((g.goal env s).takeAll p.unfold budget).map fun h => h.items.toList

end Program

end Relational
