import Relational.Term.Basic

/-!
Equality of terms. Variables are compared by number, placeholders by index, atoms as atoms. A
wildcard on its own is equal to nothing, not even to itself; but a larger term is equal to
itself, whatever it holds.
-/

namespace Relational.Term

/-- Equality of parts of terms, where a wildcard is the same as itself. -/
def sameParts : Term → Term → Bool
  | var x, var y => x == y
  | nil, nil => true
  | pair a d, pair b e => sameParts a b && sameParts d e
  | atom a, atom b => a.same b
  | zero, zero => true
  | succ m, succ n => sameParts m n
  | wildcard p, wildcard q => p == q
  | placeholder m, placeholder n => m == n
  | _, _ => false

def same (t u : Term) : Bool := !t.isWildcard && sameParts t u

instance : BEq Term := ⟨same⟩

@[simp] theorem var_beq_var (x y : Var) : (var x == var y) = (x.id == y.id) := rfl

/-- Equality of two pairs, judged by their heads and tails as terms of their own. -/
def samePairs? : Term → Term → Option Bool
  | pair a d, pair b e => some (a == b && d == e)
  | _, _ => none

theorem sameParts_refl (t : Term) : sameParts t t = true := by
  induction t with
  | var x => simp [sameParts]
  | atom a => simp [sameParts, Atom.same_refl]
  | pair a d iha ihd => simp [sameParts, iha, ihd]
  | succ p ih => simpa [sameParts] using ih
  | _ => simp [sameParts]

theorem sameParts_comm (t u : Term) : sameParts t u = sameParts u t := by
  induction t generalizing u with
  | var x => cases u <;> simp [sameParts, Bool.beq_comm]
  | atom a => cases u <;> simp [sameParts, Atom.same_comm]
  | pair a d iha ihd => cases u <;> simp [sameParts, iha, ihd]
  | succ p ih => cases u <;> simp [sameParts, ih]
  | wildcard p => cases u <;> simp [sameParts, Bool.beq_comm]
  | placeholder n => cases u <;> simp [sameParts, Bool.beq_comm]
  | nil => cases u <;> simp [sameParts]
  | zero => cases u <;> simp [sameParts]

theorem sameParts_trans {t u v : Term} (h : sameParts t u = true) (h' : sameParts u v = true) :
    sameParts t v = true := by
  fun_induction sameParts t u generalizing v with
  | case3 a d b e iha ihd =>
    rw [Bool.and_eq_true] at h
    cases v <;> simp only [sameParts, Bool.and_eq_true, reduceCtorEq] at h' ⊢
    exact ⟨iha h.1 h'.1, ihd h.2 h'.2⟩
  | case4 a b => cases v <;> simp only [sameParts, reduceCtorEq] at h' ⊢; exact Atom.same_trans h h'
  | case6 p q ih => cases v <;> simp only [sameParts, reduceCtorEq] at h' ⊢; exact ih h h'
  | case9 => simp at h
  | _ => cases v <;> simp_all [sameParts]

theorem beq_comm (t u : Term) : (t == u) = (u == t) := by
  simp only [BEq.beq, same, sameParts_comm u t]
  rcases h : sameParts t u with _ | _
  · simp
  · have wild : t.isWildcard = u.isWildcard := by
      cases t <;> cases u <;> first | rfl | cases h
    rw [wild]

theorem beq_symm {t u : Term} (h : (t == u) = true) : (u == t) = true := (beq_comm u t).trans h

theorem beq_trans {t u v : Term} (h : (t == u) = true) (h' : (u == v) = true) :
    (t == v) = true := by
  simp only [BEq.beq, same, Bool.and_eq_true] at h h' ⊢
  exact ⟨h.1, sameParts_trans h.2 h'.2⟩

/-- Only a wildcard on its own is not equal to itself. -/
theorem beq_self (t : Term) : (t == t) = !t.isWildcard := by
  simp [BEq.beq, same, sameParts_refl]

end Relational.Term
