import Mathlib.Tactic.Lemma
import Relational.Subst.Unify

/-!
Unification as a relation. A step follows both terms to their roots and compares these: the
roots agree, clash, make a binding, or leave parts to unify. What every run keeps is proved by
induction over the steps that it made.
-/

namespace Relational.Subst

lemma find?_congr {s : Subst} {x y : Var} (h : x.id = y.id) : s.find? x = s.find? y := by
  simp [find?, h]

def WildcardFree (s : Subst) : Prop := ∀ x t, s.find? x = some t → t.hasWildcard = false

lemma WildcardFree.extend {s : Subst} (h : s.WildcardFree) {t : Term}
    (ht : t.hasWildcard = false) (x : Var) : (s.extend x t).WildcardFree := by
  intro y u hu
  rw [find?_extend] at hu
  split at hu
  · cases hu; exact ht
  · exact h y u hu

/-! ### Following variables -/

/-- Following the variable at the root of `t` as far as it is bound leads to `u`. -/
inductive Walks (s : Subst) : Term → Term → Prop
  | open {x : Var} (h : s.find? x = none) : Walks s (.var x) (.var x)
  | known {t : Term} (h : t.isVar = false) : Walks s t t
  | step {x : Var} {t u : Term} (h : s.find? x = some t) (hu : Walks s t u) : Walks s (.var x) u

variable {s : Subst}

lemma walks_of_walkWithin {k : Nat} {t u : Term} (h : s.walkWithin k t = some u) :
    Walks s t u := by
  fun_induction walkWithin s k t with
  | case1 k x hx => cases h; exact .open hx
  | case2 x t hx => simp at h
  | case3 x k t hx ih => exact .step hx (ih h)
  | case4 k t ht =>
    cases h
    refine .known ?_
    cases u <;> simp_all [Term.isVar, Term.asVar?]

lemma walks_of_walk? {t u : Term} (h : s.walk? t = some u) : Walks s t u :=
  walks_of_walkWithin h

lemma Walks.find?_eq_none {t : Term} {x : Var} (h : Walks s t (.var x)) : s.find? x = none := by
  generalize hu : Term.var x = u at h
  induction h with
  | «open» h => cases hu; exact h
  | known h => subst hu; simp [Term.isVar, Term.asVar?] at h
  | step _ _ ih => exact ih hu

/-! ### Comparing roots -/

/-- What two roots leave to be done. -/
inductive Meeting where
  | agree
  | clash
  | bind (x : Var) (t : Term)
  | pairs (a d b e : Term)
  | succs (p q : Term)

/-- Compares two terms, and if they differ, looks at their roots. -/
def meet (u v : Term) : Meeting :=
  if u == v then .agree
  else
    match u, v with
    | .wildcard _, _ => .agree
    | _, .wildcard _ => .agree
    | .var x, t => .bind x t
    | t, .var y => .bind y t
    | .pair a d, .pair b e => .pairs a d b e
    | .succ p, .succ q => .succs p q
    | _, _ => .clash

lemma eq_of_meet_pairs {u v a d b e : Term} (h : meet u v = .pairs a d b e) :
    u = .pair a d ∧ v = .pair b e := by
  fun_cases meet u v <;> simp_all [meet]

lemma eq_of_meet_succs {u v p q : Term} (h : meet u v = .succs p q) :
    u = .succ p ∧ v = .succ q := by
  fun_cases meet u v <;> simp_all [meet]

lemma eq_of_meet_bind {u v t : Term} {x : Var} (h : meet u v = .bind x t) :
    (u = .var x ∧ v = t ∨ v = .var x ∧ u = t) ∧ ∀ y, t = .var y → x.id ≠ y.id := by
  fun_cases meet u v <;> simp_all [meet]
  rintro y rfl
  simp_all

/-! ### Runs -/

/-- The roots that two terms lead to leave `m` to be done. -/
def Faces (s : Subst) (u v : Term) (m : Meeting) : Prop :=
  ∃ a b, s.walk? u = some a ∧ s.walk? v = some b ∧ meet a b = m

/-- The variable that a step binds is open, and so is another variable that it is bound to. -/
lemma Faces.bind_open {u v t : Term} {x : Var} (h : Faces s u v (.bind x t)) :
    s.find? x = none ∧ ∀ y, t = .var y → x.id ≠ y.id ∧ s.find? y = none := by
  obtain ⟨a, b, ha, hb, hm⟩ := h
  have hwa := walks_of_walk? ha
  have hwb := walks_of_walk? hb
  obtain ⟨⟨rfl, rfl⟩ | ⟨rfl, rfl⟩, hne⟩ := eq_of_meet_bind hm
  · exact ⟨hwa.find?_eq_none, fun y hy => ⟨hne y hy, (hy ▸ hwb).find?_eq_none⟩⟩
  · exact ⟨hwb.find?_eq_none, fun y hy => ⟨hne y hy, (hy ▸ hwa).find?_eq_none⟩⟩

/-- Unifying `u` and `v` under `s` comes to an end: with more bindings, or with a clash. -/
inductive Unifies : Subst → Term → Term → Option Subst → Prop
  | agree {s : Subst} {u v : Term} (h : Faces s u v .agree) : Unifies s u v (some s)
  | clash {s : Subst} {u v : Term} (h : Faces s u v .clash) : Unifies s u v none
  | bind {s : Subst} {u v : Term} {x : Var} {t : Term} (h : Faces s u v (.bind x t)) :
      Unifies s u v (some (s.extend x t))
  | heads {s : Subst} {u v a d b e : Term} (h : Faces s u v (.pairs a d b e))
      (ha : Unifies s a b none) : Unifies s u v none
  | pairs {s s' : Subst} {u v a d b e : Term} {r : Option Subst}
      (h : Faces s u v (.pairs a d b e)) (ha : Unifies s a b (some s'))
      (hd : Unifies s' d e r) : Unifies s u v r
  | succs {s : Subst} {u v p q : Term} {r : Option Subst} (h : Faces s u v (.succs p q))
      (hp : Unifies s p q r) : Unifies s u v r

lemma unifyWithin_succ (n : Nat) (s : Subst) (u v : Term) :
    unifyWithin (n + 1) s u v =
      match s.walk? u, s.walk? v with
      | some a, some b =>
        match meet a b with
        | .agree => some (some s)
        | .clash => some none
        | .bind x t => some (some (s.extend x t))
        | .pairs a d b e =>
          match unifyWithin n s a b with
          | some (some s') => unifyWithin n s' d e
          | r => r
        | .succs p q => unifyWithin n s p q
      | _, _ => none := by
  rw [unifyWithin]
  rcases s.walk? u with _ | a
  · rfl
  rcases s.walk? v with _ | b
  · rfl
  dsimp only
  fun_cases meet a b with
  | case6 a d b e h => rcases unifyWithin n s a b with _ | _ | _ <;> exact if_neg h
  | _ => simp_all

lemma unifies_of_unifyWithin {n : Nat} {u v : Term} {r : Option Subst}
    (h : unifyWithin n s u v = some r) : Unifies s u v r := by
  induction n generalizing s u v r with
  | zero => simp [unifyWithin] at h
  | succ n ih =>
    rw [unifyWithin_succ] at h
    split at h
    · rename_i a b ha hb
      have faces : ∀ m, meet a b = m → Faces s u v m := fun m hm => ⟨a, b, ha, hb, hm⟩
      split at h
      · cases h; exact .agree (faces _ ‹_›)
      · cases h; exact .clash (faces _ ‹_›)
      · cases h; exact .bind (faces _ ‹_›)
      · -- the heads first, and the tails under the bindings that the heads made
        rename_i a d b e hm
        split at h
        · exact .pairs (faces _ hm) (ih ‹_›) (ih h)
        · rcases r with _ | t
          · exact .heads (faces _ hm) (ih h)
          · exact absurd h (by simp_all)
      · exact .succs (faces _ ‹_›) (ih h)
    · simp at h

lemma unifies_of_unify? {u v : Term} {r : Option Subst} (h : s.unify? u v = some r) :
    Unifies s u v r := by
  unfold unify? at h
  split at h
  · cases h; exact unifies_of_unifyWithin ‹_›
  · exact unifies_of_unifyWithin h

end Relational.Subst
