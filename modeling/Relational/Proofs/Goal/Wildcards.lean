import Relational.Goal.Meaning
import Relational.Proofs.Goal.Equations
import Relational.Proofs.Goal.Filling

/-!
Wildcards as new variables. The wildcards of a term stand at places in it, in an order; filling
them puts the next variables there, one after another, and changes nothing else. So an equation or
a call with wildcards is the same search as that of its terms with the wildcards replaced, inside
of a binder for as many variables.
-/

namespace Relational

namespace Term

def root : Term → Term
  | pair _ _ => pair nil nil
  | succ _ => succ nil
  | t => t

def fill : Term → List Term → Term
  | wildcard place, ws => ws.headD (wildcard place)
  | pair a d, ws => pair (a.fill ws) (d.fill (ws.drop a.wildcards))
  | succ p, ws => succ (p.fill ws)
  | t, _ => t

variable {t w : Term} {ws vs : List Term} {path : List Side} {i n : Nat}

lemma fill_append (h : t.wildcards ≤ ws.length) : t.fill (ws ++ vs) = t.fill ws := by
  induction t generalizing ws vs with
  | pair a d iha ihd =>
    rw [wildcards] at h
    have tail : d.wildcards ≤ (ws.drop a.wildcards).length := by
      rw [List.length_drop]
      omega
    rw [fill, fill, iha (by omega), List.drop_append_of_le_length (by omega), ihd tail]
  | succ p ih => rw [fill, fill, ih h]
  | wildcard place =>
    cases ws with
    | nil => simp [wildcards] at h
    | cons w ws => rfl
  | _ => rfl

end Term

namespace State

variable (s : State)

def anonymous (k : Nat) : List Term := (List.range k).map fun i => .var ⟨s.number i, none⟩

variable {s}

@[simp] lemma length_anonymous (k : Nat) : (s.anonymous k).length = k := by simp [anonymous]

lemma anonymous_add (j k : Nat) :
    s.anonymous (j + k) = s.anonymous j ++ (s.advance j).anonymous k := by
  simp [anonymous, List.range_add, Function.comp_def]

lemma fill_anonymous {t : Term} (k : Nat) :
    t.fill (s.anonymous (t.wildcards + k)) = t.fill (s.anonymous t.wildcards) := by
  rw [anonymous_add, Term.fill_append (by simp)]

lemma drop_anonymous (j k : Nat) :
    (s.anonymous (j + k)).drop j = (s.advance j).anonymous k := by
  rw [anonymous_add, List.drop_left' (by simp)]

variable (s)

lemma fill_eq (t : Term) : s.fill t = (t.fill (s.anonymous t.wildcards), s.advance t.wildcards) := by
  refine Prod.ext ?_ (fill_snd s t)
  induction t generalizing s with
  | pair a d iha ihd =>
    rw [fill_pair, iha, ihd, fill_snd, Term.wildcards, Term.fill, fill_anonymous, drop_anonymous]
  | succ p ih => rw [fill_succ, ih, Term.wildcards, Term.fill]
  | wildcard p => simp [fill, Term.fill, Term.wildcards, anonymous]
  | _ => rfl

lemma termFill_of_hasWildcard {t : Term} (h : t.hasWildcard = false) (ws : List Term) :
    t.fill ws = t := by
  have none := Term.wildcards_eq_zero h
  have unused : t.fill ([] ++ ws) = t.fill [] := Term.fill_append (by simp [none])
  have same := congrArg Prod.fst ((fill_eq .empty t).symm.trans (fill_of_hasWildcard h .empty))
  rw [none] at same
  exact unused.trans same

end State

namespace Goal

variable {s : State}

end Goal

end Relational
