import Relational.Query
import Relational.Proofs.Firsts
import Relational.Proofs.Goal.Placeholders
import Relational.Proofs.Subst.Placing
import Relational.Proofs.Subst.Solvable

/-!
What is read from a state. Solutions are compared value by value, and the tally keeps the first of
equal ones. The readings of two states are equal if and only if their query variables resolve to the
same up to a renaming of the variables left open.
-/

namespace Relational

open scoped List

/-! ### Equality -/

namespace Solution

variable {a b c : Solution}

lemma beq_iff : (a == b) = true ↔
    List.Forall₂ (fun x y => x.1.id = y.1.id ∧ (x.2 == y.2) = true) a.bindings b.bindings := by
  rw [List.forall₂_iff_zip]
  simp [BEq.beq, Solution.same]

lemma beq_symm (h : (a == b) = true) : (b == a) = true := by
  rw [beq_iff] at h ⊢
  exact (h.imp fun _ _ he => ⟨he.1.symm, Term.beq_symm he.2⟩).flip

lemma beq_trans (h : (a == b) = true) (h' : (b == c) = true) : (a == c) = true := by
  rw [beq_iff] at h h' ⊢
  generalize a.bindings = as at h
  generalize b.bindings = bs at h h'
  generalize c.bindings = cs at h'
  induction h generalizing cs with
  | nil => exact h'
  | cons hx _ ih =>
    cases h' with
    | cons hy h' => exact .cons ⟨hx.1.trans hy.1, Term.beq_trans hx.2 hy.2⟩ (ih _ h')

end Solution

namespace Query

/-- The others are counted, in 32 bits. -/
lemma tally_eq {found kept : List Solution}
    (h : Firsts (fun a b => (a == b) = true) [] found kept) :
    tally found = ⟨kept.toArray, .ofNat (found.length - kept.length)⟩ := by
  -- what was kept so far is equal to the same solutions as all that was seen
  have onto {seen as new : List Solution} (h : Firsts (fun a b => (a == b) = true) seen as new)
      (t : Tally) (ht : ∀ a, t.kept.contains a = true ↔ ∃ b ∈ seen, (b == a) = true) :
      as.foldl Tally.add t =
        ⟨t.kept ++ new.toArray, t.duplicates + .ofNat (as.length - new.length)⟩ := by
    induction h generalizing t with
    | nil => simp
    | @again seen as new a b hb hab later ih =>
      have fewer := later.sublist.length_le
      rw [List.foldl_cons, Tally.add, if_pos ((ht a).mpr ⟨b, hb, hab⟩), ih]
      · have count : (a :: as).length - new.length = 1 + (as.length - new.length) := by
          rw [List.length_cons]
          omega
        rw [count, Int32.ofNat_add, ← Int32.add_assoc]
        rfl
      · refine fun c => (ht c).trans ?_
        rw [List.exists_mem_cons_iff]
        exact ⟨.inr, fun hc => hc.elim (fun hac => ⟨b, hb, Solution.beq_trans hab hac⟩) id⟩
    | @new seen as new a ha _ ih =>
      have fresh : ¬t.kept.contains a = true := fun hc => by
        obtain ⟨b, hb, hab⟩ := (ht a).mp hc
        exact ha b hb hab
      rw [List.foldl_cons, Tally.add, if_neg fresh, ih]
      · simp
      · intro c
        rw [Array.contains_push, Bool.or_eq_true, ht c, List.exists_mem_cons_iff, or_comm]
        exact or_congr_left ⟨Solution.beq_symm, Solution.beq_symm⟩
  rw [tally, onto h ⟨#[], 0⟩ (by simp)]
  simp

end Query

/-! ### Reading a state -/

namespace Query

variable (q : Query) {s t : State}

def tuple (s : State) : List Term := (s.subst.reifyAll? q.vars).getD []

/-- The query variables resolve to the same in both states, up to a renaming of the variables left
open. -/
def SameAnswer (s t : State) : Prop :=
  ∃ u v, s.subst.resolve? (.ofList (q.vars.map .var)) = some u ∧
    t.subst.resolve? (.ofList (q.vars.map .var)) = some v ∧ u.Variant v

/-- How the query variables are read: they are resolved, and the open variables are numbered. -/
lemma exists_tuple (hs : s.subst.Acyclic) :
    ∃ u, s.subst.resolve? (.ofList (q.vars.map .var)) = some u ∧
      s.subst.reifyAll? q.vars = some (q.tuple s) ∧ u.numbered = .ofList (q.tuple s) ∧
      (q.tuple s).length = q.vars.length := by
  obtain ⟨u, hu⟩ := hs.resolve? (.ofList (q.vars.map .var))
  obtain ⟨us, rfl, items⟩ := Subst.resolve?_ofList hu
  have read := Subst.reifyAll?_eq hu
  have tuple : q.tuple s = us.map (Term.placeBy (Term.ofList us).order) := by
    rw [Query.tuple, read]
    rfl
  have length : q.vars.length = us.length := by simpa using items.length_eq
  refine ⟨.ofList us, hu, tuple ▸ read, ?_, by simp [tuple, length]⟩
  rw [tuple, Term.numbered, Term.placeBy_ofList]

lemma reifyAll?_eq (hs : s.subst.Acyclic) : s.subst.reifyAll? q.vars = some (q.tuple s) := by
  obtain ⟨-, -, read, -⟩ := q.exists_tuple hs
  exact read

lemma SameAnswer.refl (hs : s.subst.Acyclic) : q.SameAnswer s s := by
  obtain ⟨u, hu⟩ := hs.resolve? (.ofList (q.vars.map .var))
  exact ⟨u, u, hu, hu, id, Set.injOn_id _, u.sameParts_rename_id⟩

end Query

end Relational
