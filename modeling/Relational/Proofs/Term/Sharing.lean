import Relational.Proofs.Subst.Solvable

/-!
Terms as they lie in memory. Pairs, successors and atoms are objects there, each with an address, and
one object may be a part of many terms. To compare two terms, their objects are compared, and no
further look is taken at one that is met on both sides at once. Where no wildcard stands in a term,
this makes no difference for pairs and successors: what is compared is the terms, part by part. It
does for atoms, which makes even a `nan` equal to itself. So equality is an equivalence on all terms
without wildcards, and equal terms resolve to equal terms.
-/

namespace Relational

/-! ### Equal parts -/

/-- One atom, or two floating-point numbers of one type that agree, or boxes around such. In all
other types equal values are the same, and so are the atoms that hold them. -/
inductive Atom.Alike : Atom → Atom → Prop
  | one (a : Atom) : Alike a a
  | floats {kind : FloatKind} {x y : Binary} {p q : Nat} (h : x.agrees y = true) :
      Alike (.float kind x p) (.float kind y q)
  | boxed {a b : Atom} (h : Alike a b) : Alike (.boxed a) (.boxed b)

lemma Atom.same_boxed (a b : Atom) : (boxed a).same (boxed b) = a.same b := by
  rw [Bool.eq_iff_iff]
  simp [same, agrees]

lemma Atom.same_iff {a b : Atom} : a.same b = true ↔ a.Alike b := by
  constructor
  · intro h
    induction a generalizing b with
    | float k x p =>
      cases b with
      | float l y q =>
        simp only [same, agrees, Bool.or_eq_true, Bool.and_eq_true, beq_iff_eq] at h
        rcases h with h | ⟨rfl, h⟩
        · exact h ▸ .one _
        · exact .floats h
      | _ => simp [same, agrees] at h
    | boxed a ih =>
      cases b with
      | boxed b => exact .boxed (ih (same_boxed a b ▸ h))
      | _ => simp [same, agrees] at h
    | _ =>
      simp only [same, agrees, Bool.or_self, beq_iff_eq] at h
      exact h ▸ .one _
  · intro h
    induction h with
    | one a => exact same_refl a
    | floats h => simp [same, agrees, h]
    | boxed _ ih => rw [same_boxed, ih]

namespace Term

/-- Equal part by part: variables by number, placeholders by index, atoms as atoms. -/
inductive Alike : Term → Term → Prop
  | var {x y : Var} (h : x.id = y.id) : Alike (var x) (var y)
  | nil : Alike nil nil
  | pair {a d b e : Term} (head : Alike a b) (tail : Alike d e) : Alike (pair a d) (pair b e)
  | atom {a b : Atom} (h : a.Alike b) : Alike (atom a) (atom b)
  | zero : Alike zero zero
  | succ {p q : Term} (h : Alike p q) : Alike (succ p) (succ q)
  | placeholder (n : Nat) : Alike (placeholder n) (placeholder n)

variable {t u : Term}

lemma alike_of_sameParts (ht : t.hasWildcard = false) (h : sameParts t u = true) : t.Alike u := by
  fun_induction sameParts t u with
  | case1 x y => exact .var (by simpa using h)
  | case2 => exact .nil
  | case3 a d b e iha ihd =>
    rw [hasWildcard, Bool.or_eq_false_iff] at ht
    rw [Bool.and_eq_true] at h
    exact .pair (iha ht.1 h.1) (ihd ht.2 h.2)
  | case4 a b => exact .atom (Atom.same_iff.mp h)
  | case5 => exact .zero
  | case6 p q ih => exact .succ (ih ht h)
  | case7 p q => cases ht
  | case8 m n =>
    obtain rfl : m = n := by simpa using h
    exact .placeholder m
  | case9 => cases h

lemma Alike.sameParts (h : t.Alike u) : sameParts t u = true := by
  induction h with
  | var h => simp [Term.sameParts, h]
  | pair _ _ iha ihd => simp [Term.sameParts, iha, ihd]
  | atom h => exact Atom.same_iff.mpr h
  | succ _ ih => exact ih
  | _ => simp [Term.sameParts]

/-- Without wildcards, terms are equal if they are part by part. -/
lemma beq_iff_alike (ht : t.hasWildcard = false) : (t == u) = true ↔ t.Alike u := by
  rw [beq_eq_sameParts ht]
  exact ⟨alike_of_sameParts ht, Alike.sameParts⟩

end Term

/-! ### Objects in memory -/

/-- A term in memory. Pairs, successors and atoms have an address. -/
inductive Stored where
  | var (x : Var)
  | nil
  | pair (addr : Nat) (head tail : Stored)
  | atom (addr : Nat) (a : Atom)
  | zero
  | succ (addr : Nat) (pred : Stored)
  | wildcard (place : Nat)
  | placeholder (n : Nat)

def Atom.placed (place : Nat) : Atom → Atom
  | float kind x _ => float kind x place
  | boxed a => boxed (a.placed place)
  | a => a

namespace Stored

/-- The term that is stored. The place of an atom is its address. -/
def term : Stored → Term
  | var x => .var x
  | nil => .nil
  | pair _ a d => .pair a.term d.term
  | atom i a => .atom (a.placed i)
  | zero => .zero
  | succ _ p => .succ p.term
  | wildcard place => .wildcard place
  | placeholder n => .placeholder n

def addr? : Stored → Option Nat
  | pair i _ _ | atom i _ | succ i _ => some i
  | _ => none

/-- All objects of the term are what the memory has at their addresses. -/
def LiesIn (memory : Nat → Stored) : Stored → Prop
  | pair i a d => memory i = pair i a d ∧ a.LiesIn memory ∧ d.LiesIn memory
  | atom i a => memory i = atom i a
  | succ i p => memory i = succ i p ∧ p.LiesIn memory
  | _ => True

/-- Equality in memory. An object is equal to itself, whatever it holds; two objects are equal if
their parts are, or for atoms if their values are. -/
def same : Stored → Stored → Bool
  | pair i a d, pair j b e => i == j || (same a b && same d e)
  | succ i p, succ j q => i == j || same p q
  | var x, var y => x == y
  | nil, nil => true
  | zero, zero => true
  | atom i a, atom j b => i == j || a.agrees b
  | placeholder m, placeholder n => m == n
  | _, _ => false

variable {memory : Nat → Stored} {s t : Stored}

lemma LiesIn.eq_of_addr? (hs : s.LiesIn memory) (ht : t.LiesIn memory) {i : Nat}
    (hi : s.addr? = some i) (hj : t.addr? = some i) : s = t := by
  have there {r : Stored} (hr : r.LiesIn memory) (h : r.addr? = some i) : memory i = r := by
    cases r <;> simp_all [addr?, LiesIn]
  exact (there hs hi).symm.trans (there ht hj)

lemma same_placed {i j : Nat} (h : i ≠ j) (a b : Atom) :
    (a.placed i).same (b.placed j) = a.agrees b := by
  induction a generalizing b with
  | boxed a ih =>
    cases b with
    | boxed b => rw [Atom.placed, Atom.placed, Atom.same_boxed, ih, Atom.agrees]
    | _ => simp [Atom.placed, Atom.same, Atom.agrees]
  | _ => cases b <;> simp [Atom.placed, Atom.same, Atom.agrees, h]

/-- **Shortcuts make no difference** to equality, where no wildcard stands in a term. -/
theorem same_eq_beq (hs : s.LiesIn memory) (ht : t.LiesIn memory)
    (plain : s.term.hasWildcard = false) : s.same t = (s.term == t.term) := by
  rw [Term.beq_eq_sameParts plain]
  induction s generalizing t with
  | pair i a d iha ihd =>
    cases t with
    | pair j b e =>
      by_cases h : i = j
      · subst h
        cases hs.eq_of_addr? ht rfl rfl
        simp [same, Term.sameParts_refl]
      · simp only [term, Term.hasWildcard, Bool.or_eq_false_iff] at plain
        simp [same, h, term, Term.sameParts, iha hs.2.1 ht.2.1 plain.1, ihd hs.2.2 ht.2.2 plain.2]
    | _ => rfl
  | succ i p ih =>
    cases t with
    | succ j q =>
      by_cases h : i = j
      · subst h
        cases hs.eq_of_addr? ht rfl rfl
        simp [same, Term.sameParts_refl]
      · simp [same, h, term, Term.sameParts, ih hs.2 ht.2 plain]
    | _ => rfl
  | atom i a =>
    cases t with
    | atom j b =>
      -- here the shortcut counts: one `nan` agrees with nothing, but its place is its own
      by_cases h : i = j
      · subst h
        cases hs.eq_of_addr? ht rfl rfl
        simp [same, Term.sameParts_refl]
      · simp [same, h, term, Term.sameParts, same_placed h]
    | _ => rfl
  | wildcard place => cases plain
  | _ => cases t <;> rfl

end Stored

/-! ### Equal terms -/

lemma Subst.Acyclic.resolve?_beq {s : Subst} (ha : s.Acyclic) (hs : s.WildcardFree) {t u : Term}
    (ht : t.hasWildcard = false) (h : (t == u) = true) :
    ∃ t' u', s.resolve? t = some t' ∧ s.resolve? u = some u' ∧ (t' == u') = true := by
  obtain ⟨t', ht'⟩ := ha.resolve? t
  obtain ⟨u', hu'⟩ := ha.resolve? u
  rw [Term.beq_eq_sameParts ht] at h
  refine ⟨t', u', ht', hu', ?_⟩
  rw [Term.beq_eq_sameParts (hs.resolve? ht ht')]
  exact ha.sameParts_resolve? hs ht' hu' fun θ _ => Valuation.sameParts_apply h

/-- **Equality is an equivalence that all else can rely on.** On terms without wildcards it is
reflexive, symmetric and transitive; it says that two terms are equal part by part; it is what the
objects in memory are compared by, shortcuts included; and equal terms resolve to equal terms. -/
theorem Term.equality_laws :
    Equivalence (fun t u : {t : Term // t.hasWildcard = false} => (t.1 == u.1) = true) ∧
      (∀ t u : Term, t.hasWildcard = false → ((t == u) = true ↔ t.Alike u)) ∧
      (∀ (memory : Nat → Stored) (s t : Stored), s.LiesIn memory → t.LiesIn memory →
        s.term.hasWildcard = false → s.same t = (s.term == t.term)) ∧
      ∀ s : Subst, s.Acyclic → s.WildcardFree → ∀ t u : Term, t.hasWildcard = false →
        (t == u) = true → ∃ t' u', s.resolve? t = some t' ∧ s.resolve? u = some u' ∧
          (t' == u') = true := by
  refine ⟨⟨fun t => ?_, beq_symm, beq_trans⟩, fun t u ht => beq_iff_alike ht,
    fun memory s t hs ht plain => Stored.same_eq_beq hs ht plain,
    fun s ha hs t u ht h => ha.resolve?_beq hs ht h⟩
  rw [beq_eq_sameParts t.2, sameParts_refl]

/-- Two pairs of a list that both have, and a successor that each has for its own. The list holds a
`nan`, and the variable under the successors goes by two names. -/
theorem Term.equality_laws_nan :
    let nan := Stored.atom 0 (.float .double .nan 0)
    let list := Stored.pair 1 nan .nil
    let m := Stored.succ 2 (.var ⟨0, some "x"⟩)
    let n := Stored.succ 3 (.var ⟨0, none⟩)
    let memory : Nat → Stored
      | 0 => nan
      | 1 => list
      | 2 => m
      | 3 => n
      | 4 => .pair 4 list m
      | _ => .pair 5 list n
    let s := Stored.pair 4 list m
    let t := Stored.pair 5 list n
    let bindings := Subst.empty.extend ⟨0, none⟩ list.term
    s.LiesIn memory ∧ t.LiesIn memory ∧ bindings.Acyclic ∧ bindings.WildcardFree ∧
      (s.term == s.term) = true ∧ s.same t = true ∧ (s.term == t.term) = true ∧
      (t.term == s.term) = true ∧ s.term.Alike t.term ∧
      ∃ t' u', bindings.resolve? s.term = some t' ∧ bindings.resolve? t.term = some u' ∧
        (t' == u') = true := by
  intro nan list m n memory s t bindings
  obtain ⟨equiv, parts, objects, resolved⟩ := equality_laws
  have hs : s.LiesIn memory := ⟨rfl, ⟨rfl, rfl, trivial⟩, rfl, trivial⟩
  have ht : t.LiesIn memory := ⟨rfl, ⟨rfl, rfl, trivial⟩, rfl, trivial⟩
  have acyclic : bindings.Acyclic := by
    let θ : Valuation := ⟨fun _ => list.term, fun _ => rfl⟩
    have solves : θ.Solves bindings := by
      rw [Valuation.solves_extend rfl]
      exact ⟨fun x t h => by simp at h, rfl⟩
    exact solves.acyclic (Subst.placed_empty.acyclic.straight.extend (by rintro _ ⟨⟩))
  have plain : bindings.WildcardFree := Subst.WildcardFree.extend (fun x t h => by simp at h) rfl _
  have same : s.same t = true := rfl
  have equal : (s.term == t.term) = true := (objects memory s t hs ht rfl).symm.trans same
  exact ⟨hs, ht, acyclic, plain, equiv.refl ⟨s.term, rfl⟩, same, equal,
    equiv.symm (x := ⟨s.term, rfl⟩) (y := ⟨t.term, rfl⟩) equal, (parts _ _ rfl).mp equal,
    resolved bindings acyclic plain _ _ rfl equal⟩

end Relational
