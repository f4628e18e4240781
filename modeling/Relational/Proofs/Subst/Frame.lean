import Relational.Proofs.Goal.Tidy
import Relational.Proofs.Subst.Depth

/-!
Bindings beside others. Unification reads the bindings of the variables that the two terms lead to,
and makes bindings for these. So if these all come before some number, the bindings of other
variables make no difference to it, and are left as they are.
-/

namespace Relational.Subst

/-- The bindings `t` are those of `s` for the variables below `n`, and those of `others` for the
rest. -/
structure Framed (n : Nat) (others s t : Subst) : Prop where
  below {x : Var} (hx : x.id < n) : t.find? x = s.find? x
  beyond {x : Var} (hx : n ≤ x.id) : t.find? x = others.find? x

variable {n : Nat} {others s t : Subst} {u v a : Term} {m : Meeting} {r : Option Subst}

lemma Framed.extend (h : Framed n others s t) {x : Var} (hx : x.id < n) (w : Term) :
    Framed n others (s.extend x w) (t.extend x w) where
  below hy := by rw [find?_extend, find?_extend, h.below hy]
  beyond hy := by rw [find?_extend, if_neg (by omega), h.beyond hy]

lemma Walks.framed (hw : Walks s u a) (h : Framed n others s t)
    (hs : ∀ x w, s.find? x = some w → w.Below n) (hu : u.Below n) : Walks t u a := by
  induction hw with
  | «open» hx => exact .open (by rwa [h.below (Term.below_var.mp hu)])
  | known ht => exact .known ht
  | step hx _ ih => exact .step (by rwa [h.below (Term.below_var.mp hu)]) (ih (hs _ _ hx))

lemma Faces.framed (hf : Faces s u v m) (h : Framed n others s t)
    (among : Among (Term.Below n) s u v) : Faces t u v m := by
  obtain ⟨a, b, ha, hb, hm⟩ := hf
  refine ⟨a, b, walk?_eq_some_iff.mpr ?_, walk?_eq_some_iff.mpr ?_, hm⟩
  · exact (walks_of_walk? ha).framed h among.subst among.left
  · exact (walks_of_walk? hb).framed h among.subst among.right

/-- A run makes the same bindings whatever the others are. -/
theorem Unifies.framed (hr : Unifies s u v r) (h : Framed n others s t)
    (among : Among (Term.Below n) s u v) :
    ∃ r', Unifies t u v r' ∧ Option.Rel (Framed n others) r r' := by
  induction hr generalizing t with
  | agree hf => exact ⟨_, .agree (hf.framed h among), .some h⟩
  | clash hf => exact ⟨_, .clash (hf.framed h among), .none⟩
  | bind hf =>
    obtain ⟨hx, -⟩ := among.bind hf
    exact ⟨_, .bind (hf.framed h among), .some (h.extend (Term.below_var.mp hx) _)⟩
  | heads hf _ ih =>
    obtain ⟨_, run, ⟨⟩⟩ := ih h (among.pairs inherited_below hf).1
    exact ⟨_, .heads (hf.framed h among) run, .none⟩
  | pairs hf head _ iha ihd =>
    obtain ⟨hh, hd⟩ := among.pairs inherited_below hf
    have grown := head.grows inherited_below hh _ rfl
    obtain ⟨_, first, ⟨h'⟩⟩ := iha h hh
    obtain ⟨r', rest, same⟩ := ihd h' ⟨grown.values hd.subst, hd.left, hd.right⟩
    exact ⟨r', .pairs (hf.framed h among) first rest, same⟩
  | succs hf _ ih =>
    obtain ⟨r', run, same⟩ := ih h (among.succs inherited_below hf)
    exact ⟨r', .succs (hf.framed h among) run, same⟩

end Relational.Subst
