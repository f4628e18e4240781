import Relational.Text.Quoted
import Relational.Number.Shortest

/-!
The indivisible values of terms. Two atoms are the same if they have one type and equal values.
A `nan` has no equal value, so a number also carries the place where it was written, and an atom
is always the same as itself.
-/

namespace Relational

/-- Widths of whole numbers; `word` is the width of a machine word. -/
inductive Width where
  | w8 | w16 | w32 | w64 | w128 | word
  deriving DecidableEq

def Width.bits : Width → Nat
  | w8 => 8
  | w16 => 16
  | w32 => 32
  | w64 => 64
  | w128 => 128
  | word => 64

inductive IntKind where
  | signed (w : Width)
  | unsigned (w : Width)
  deriving DecidableEq

/-- Is the number a value of the type? -/
def IntKind.admits : IntKind → Int → Bool
  | signed w, n => -Int.pow 2 (w.bits - 1) ≤ n && n < Int.pow 2 (w.bits - 1)
  | unsigned w, n => 0 ≤ n && n < Int.pow 2 w.bits

inductive FloatKind where
  | single
  | double
  deriving DecidableEq

def FloatKind.format : FloatKind → BinaryFormat
  | single => .single
  | double => .double

/-- An indivisible value. A symbol is a name, a text is a string that was put together; they
are different types, as are a value and a box around it. -/
inductive Atom where
  | bool (b : Bool)
  | int (kind : IntKind) (n : Int)
  | float (kind : FloatKind) (x : Binary) (place : Nat)
  | char (c : Char)
  | symbol (s : String)
  | text (s : String)
  | boxed (a : Atom)
  deriving DecidableEq

namespace Atom

/-- The common whole numbers: signed, of 32 bits. -/
def int32 : IntKind := .signed .w32

/-- A number whose type is not given is a common one. -/
instance : Coe Int Atom := ⟨int int32⟩

def int? (kind : IntKind) (n : Int) : Option Atom :=
  if kind.admits n then some (int kind n) else none

/-- Equality of values of one type. Boxes are equal if what is in them is. -/
def agrees : Atom → Atom → Bool
  | float k x _, float l y _ => k == l && x.agrees y
  | boxed a, boxed b => a.agrees b
  | a, b => a == b

/-- Equality of atoms: the same atom, or equal values. -/
def same (a b : Atom) : Bool := a == b || a.agrees b

def print : Atom → String
  | bool b => if b then "true" else "false"
  | int _ n => toString n
  | float k x _ => x.text k.format
  | char c => Text.quotedChar c
  | symbol s => Text.quotedString s
  | text s => Text.quotedString s
  | boxed a => a.print

instance : ToString Atom := ⟨print⟩

theorem same_refl (a : Atom) : a.same a = true := by simp [same]

theorem agrees_comm (a b : Atom) : a.agrees b = b.agrees a := by
  induction a generalizing b with
  | boxed a ih => cases b <;> simp [agrees, Bool.beq_comm, ih]
  | _ => cases b <;> simp [agrees, Bool.beq_comm, Binary.agrees_comm]

theorem same_comm (a b : Atom) : a.same b = b.same a := by
  rw [same, same, agrees_comm, Bool.beq_comm]

theorem agrees_trans {a b c : Atom} (h : a.agrees b = true) (h' : b.agrees c = true) :
    a.agrees c = true := by
  induction b generalizing a c with
  | float l y q =>
    cases a <;> cases c <;> simp [agrees] at h h' ⊢
    exact ⟨h.1.trans h'.1, Binary.agrees_trans h.2 h'.2⟩
  | boxed b ih =>
    cases a <;> cases c <;> simp [agrees] at h h' ⊢
    exact ih h h'
  | _ =>
    -- of any other type, only equal atoms agree
    have hab := h
    cases a <;> simp only [agrees, beq_iff_eq, reduceCtorEq] at hab
    all_goals exact hab ▸ h'

theorem same_trans {a b c : Atom} (h : a.same b = true) (h' : b.same c = true) :
    a.same c = true := by
  simp only [same, Bool.or_eq_true, beq_iff_eq] at h h' ⊢
  rcases h with rfl | h
  · exact h'
  · rcases h' with rfl | h'
    · exact .inr h
    · exact .inr (agrees_trans h h')

end Atom

end Relational
