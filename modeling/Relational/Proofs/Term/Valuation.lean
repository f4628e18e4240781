import Mathlib.Tactic.Lemma
import Relational.Term.Equality

/-!
Ground terms, and valuations that read every variable as one of them. On terms without
wildcards equality is an equivalence, so equations between such terms have solutions.
-/

namespace Relational

namespace Term

def isGround : Term → Bool
  | var _ | wildcard _ => false
  | pair a d => a.isGround && d.isGround
  | succ p => p.isGround
  | _ => true

def ids (t : Term) : List Nat := t.vars.map Var.id

def Below (n : Nat) (t : Term) : Prop := ∀ i ∈ t.ids, i < n

@[simp] lemma ids_var (x : Var) : (var x).ids = [x.id] := rfl
@[simp] lemma ids_pair (a d : Term) : (pair a d).ids = a.ids ++ d.ids := by simp [ids, vars]
@[simp] lemma ids_succ (p : Term) : (succ p).ids = p.ids := rfl
@[simp] lemma ids_nil : nil.ids = [] := rfl

lemma Below.mono {m n : Nat} {t : Term} (h : t.Below m) (hmn : m ≤ n) : t.Below n :=
  fun i hi => Nat.lt_of_lt_of_le (h i hi) hmn

@[simp] lemma below_var {n : Nat} {x : Var} : (var x).Below n ↔ x.id < n := by simp [Below]

@[simp] lemma below_pair {n : Nat} {a d : Term} :
    (pair a d).Below n ↔ a.Below n ∧ d.Below n := by
  simp [Below, or_imp, forall_and]

@[simp] lemma below_succ {n : Nat} {p : Term} : (succ p).Below n ↔ p.Below n := Iff.rfl

lemma hasWildcard_of_isGround {t : Term} (h : t.isGround = true) : t.hasWildcard = false := by
  induction t with
  | pair a d iha ihd =>
    simp only [isGround, Bool.and_eq_true] at h
    simp [hasWildcard, iha h.1, ihd h.2]
  | succ p ih => exact ih h
  | wildcard p => simp [isGround] at h
  | _ => rfl

lemma beq_eq_sameParts {t : Term} (h : t.hasWildcard = false) (u : Term) :
    (t == u) = sameParts t u := by
  cases t <;> simp_all [BEq.beq, same, isWildcard, hasWildcard]

end Term

/-- A ground term for each variable, by its number. -/
structure Valuation where
  value : Nat → Term
  ground (i : Nat) : (value i).isGround = true

namespace Valuation

variable (θ η : Valuation)

/-- The term with every variable replaced by its value. Wildcards stay. -/
def apply : Term → Term
  | .var x => θ.value x.id
  | .pair a d => .pair (apply a) (apply d)
  | .succ p => .succ (apply p)
  | t => t

def AgreesBelow (n : Nat) : Prop := ∀ i < n, θ.value i = η.value i

@[simp] lemma apply_var (x : Var) : θ.apply (.var x) = θ.value x.id := rfl
@[simp] lemma apply_pair (a d : Term) : θ.apply (.pair a d) = .pair (θ.apply a) (θ.apply d) := rfl
@[simp] lemma apply_succ (p : Term) : θ.apply (.succ p) = .succ (θ.apply p) := rfl
@[simp] lemma apply_atom (a : Atom) : θ.apply (.atom a) = .atom a := rfl
@[simp] lemma apply_placeholder (n : Nat) : θ.apply (.placeholder n) = .placeholder n := rfl

lemma apply_of_isGround {t : Term} (h : t.isGround = true) : θ.apply t = t := by
  induction t with
  | pair a d iha ihd =>
    simp only [Term.isGround, Bool.and_eq_true] at h
    rw [apply_pair, iha h.1, ihd h.2]
  | succ p ih => rw [apply_succ, ih h]
  | var x => simp [Term.isGround] at h
  | _ => rfl

lemma isGround_apply {t : Term} (h : t.hasWildcard = false) : (θ.apply t).isGround = true := by
  induction t with
  | var x => exact θ.ground x.id
  | pair a d iha ihd =>
    simp only [Term.hasWildcard, Bool.or_eq_false_iff] at h
    simp [Term.isGround, iha h.1, ihd h.2]
  | succ p ih => exact ih h
  | wildcard p => simp [Term.hasWildcard] at h
  | _ => rfl

lemma isGround_map_apply {ts : List Term} (h : ∀ t ∈ ts, t.hasWildcard = false) :
    ∀ t ∈ ts.map θ.apply, t.isGround = true := by
  intro t ht
  obtain ⟨u, hu, rfl⟩ := List.mem_map.mp ht
  exact θ.isGround_apply (h u hu)

lemma hasWildcard_apply (t : Term) : (θ.apply t).hasWildcard = t.hasWildcard := by
  induction t with
  | var x => exact Term.hasWildcard_of_isGround (θ.ground x.id)
  | pair a d iha ihd => simp [Term.hasWildcard, iha, ihd]
  | succ p ih => exact ih
  | _ => rfl

variable {θ η}

lemma apply_congr {t : Term} (h : ∀ i ∈ t.ids, θ.value i = η.value i) :
    θ.apply t = η.apply t := by
  induction t with
  | var x => exact h x.id (by simp)
  | pair a d iha ihd =>
    rw [apply_pair, apply_pair, iha fun i hi => h i (by simp [hi]),
      ihd fun i hi => h i (by simp [hi])]
  | succ p ih => rw [apply_succ, apply_succ, ih h]
  | _ => rfl

lemma AgreesBelow.apply_eq {n : Nat} (h : θ.AgreesBelow η n) {t : Term} (ht : t.Below n) :
    θ.apply t = η.apply t :=
  apply_congr fun i hi => h i (ht i hi)

lemma AgreesBelow.trans {ζ : Valuation} {m n : Nat} (h : θ.AgreesBelow η n)
    (h' : η.AgreesBelow ζ m) (hnm : n ≤ m) : θ.AgreesBelow ζ n :=
  fun i hi => (h i hi).trans (h' i (Nat.lt_of_lt_of_le hi hnm))

lemma sameParts_apply {t u : Term} (h : Term.sameParts t u = true) :
    Term.sameParts (θ.apply t) (θ.apply u) = true := by
  fun_induction Term.sameParts t u with
  | case1 x y =>
    obtain he : x.id = y.id := by simpa using h
    rw [apply_var, apply_var, he]
    exact Term.sameParts_refl _
  | case3 a d b e iha ihd =>
    rw [Bool.and_eq_true] at h
    simp [Term.sameParts, iha h.1, ihd h.2]
  | case6 p q ih => simpa [Term.sameParts] using ih h
  | case9 => cases h
  | _ => exact h

lemma beq_apply {t : Term} (h : t.hasWildcard = false) (u : Term) :
    (θ.apply t == θ.apply u) = Term.sameParts (θ.apply t) (θ.apply u) :=
  Term.beq_eq_sameParts (by rw [hasWildcard_apply, h]) _

end Valuation

end Relational
