import Relational.Subst.Reify
import Relational.Subst.Unify

/-!
Search states: the bindings made so far and the number of the next variable. Numbers are machine
words, so that the counter starts again at 0 after the last of them; a counter that never starts
again stands for a run that comes nowhere near it.
-/

namespace Relational

/-- Bindings, and the counter that new variables take their numbers from. It starts again at 0
after `cycle` numbers, and never if `cycle` is 0. -/
@[ext]
structure State where
  subst : Subst
  next : Nat
  cycle : Nat
  inRange : cycle = 0 ∨ next < cycle

namespace State

/-- The first state that leaves the variables below `n` to the caller. -/
def reserving (n : Nat) : State where
  subst := ∅
  next := n % Nat.pow 2 Width.word.bits
  cycle := Nat.pow 2 Width.word.bits
  inRange := .inr (n.mod_lt (Nat.two_pow_pos _))

/-- The first state that leaves the variables below `n` to the caller, if the counter never
starts again. -/
def boundless (n : Nat) : State := ⟨∅, n, 0, .inl rfl⟩

def empty : State := reserving 0

instance : Inhabited State := ⟨empty⟩

variable (s : State)

def withSubst (subst : Subst) : State := { s with subst }

def same (t : State) : Bool := s.subst == t.subst && s.next == t.next

instance : BEq State := ⟨same⟩

def print : String := s.subst.print

/-- The number that comes `i` numbers after the next one. -/
def number (i : Nat) : Nat := (s.next + i) % s.cycle

/-- The state after the next `k` numbers were given away. -/
def advance (k : Nat) : State where
  subst := s.subst
  next := s.number k
  cycle := s.cycle
  inRange := s.inRange.imp_right fun h => Nat.mod_lt _ (Nat.zero_lt_of_lt h)

/-- Are there `k` more numbers before the counter starts again? -/
def HasRoom (k : Nat) : Prop := s.cycle = 0 ∨ s.next + k < s.cycle

instance (k : Nat) : Decidable (s.HasRoom k) := inferInstanceAs (Decidable (_ ∨ _))

/-- The next `n` variables. A name that is missing leaves its variable without one. -/
def freshVars (n : Nat) (names : Option (List String)) : List Var × State :=
  ((List.range n).map fun i => ⟨s.number i, names.bind (·[i]?)⟩, s.advance n)

/-- Puts the next variables in place of the wildcards, each head before its tail. -/
def fill : State → Term → Term × State
  | s, .wildcard _ => (.var ⟨s.next, none⟩, s.advance 1)
  | s, .pair a d =>
    let (a, s) := fill s a
    let (d, s) := fill s d
    (.pair a d, s)
  | s, .succ p =>
    let (p, s) := fill s p
    (.succ p, s)
  | s, t => (t, s)

/-- Puts a fresh variable in place of each wildcard. A term without any is left as it is. -/
def fillWildcards (t : Term) : Term × State := if t.hasWildcard then s.fill t else (t, s)

def fillAll : State → List Term → List Term × State
  | s, [] => ([], s)
  | s, t :: ts =>
    let (t, s) := s.fillWildcards t
    let (ts, s) := fillAll s ts
    (t :: ts, s)

section

variable {s} {i j k : Nat}

@[simp] theorem boundless_next (n : Nat) : (boundless n).next = n := rfl

@[simp] theorem number_boundless (n : Nat) : (boundless n).number i = n + i := Nat.mod_zero _

@[simp] theorem withSubst_subst (w : Subst) : (s.withSubst w).subst = w := rfl

@[simp] theorem withSubst_next (w : Subst) : (s.withSubst w).next = s.next := rfl

@[simp] theorem withSubst_cycle (w : Subst) : (s.withSubst w).cycle = s.cycle := rfl

@[simp] theorem withSubst_self : s.withSubst s.subst = s := rfl

@[simp] theorem withSubst_withSubst (v w : Subst) :
    (s.withSubst v).withSubst w = s.withSubst w := rfl

@[simp] theorem number_withSubst (w : Subst) : (s.withSubst w).number i = s.number i := rfl

@[simp] theorem hasRoom_withSubst (w : Subst) : (s.withSubst w).HasRoom k ↔ s.HasRoom k := Iff.rfl

@[simp] theorem advance_subst : (s.advance k).subst = s.subst := rfl

@[simp] theorem advance_next : (s.advance k).next = s.number k := rfl

@[simp] theorem advance_cycle : (s.advance k).cycle = s.cycle := rfl

@[simp] theorem advance_withSubst (w : Subst) :
    (s.withSubst w).advance k = (s.advance k).withSubst w := rfl

/-- Numbers are those counted from the next one, while there is room. -/
theorem number_of_room (h : s.HasRoom k) (hi : i ≤ k) : s.number i = s.next + i := by
  rcases h with h | h
  · rw [number, h, Nat.mod_zero]
  · exact Nat.mod_eq_of_lt (by omega)

theorem hasRoom_zero : s.HasRoom 0 := s.inRange

@[simp] theorem number_zero : s.number 0 = s.next := number_of_room hasRoom_zero (Nat.le_refl 0)

@[simp] theorem advance_boundless (n : Nat) : (boundless n).advance k = boundless (n + k) :=
  State.ext rfl (number_boundless n) rfl

@[simp] theorem advance_zero : s.advance 0 = s := State.ext rfl number_zero rfl

@[simp] theorem number_advance : (s.advance i).number j = s.number (i + j) := by
  simp only [number, advance_next, advance_cycle, Nat.mod_add_mod, Nat.add_assoc]

@[simp] theorem advance_advance : (s.advance i).advance j = s.advance (i + j) :=
  State.ext rfl number_advance rfl

theorem HasRoom.mono (h : s.HasRoom k) (hi : i ≤ k) : s.HasRoom i :=
  h.imp_right fun h => by omega

/-- There is room for all numbers if there is for the first of them, and for the others after
these. -/
theorem hasRoom_add : s.HasRoom (i + j) ↔ s.HasRoom i ∧ (s.advance i).HasRoom j := by
  constructor
  · intro h
    have first : s.HasRoom i := h.mono (by omega)
    refine ⟨first, h.imp id fun h => ?_⟩
    rw [advance_next, number_of_room first (Nat.le_refl i), advance_cycle]
    omega
  · rintro ⟨first, h⟩
    refine h.imp id fun h => ?_
    rw [advance_next, number_of_room first (Nat.le_refl i), advance_cycle] at h
    omega

end

end State

end Relational
