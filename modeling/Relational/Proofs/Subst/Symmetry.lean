import Relational.Proofs.Subst.Joined
import Relational.Proofs.Subst.Solvable
import Relational.Proofs.Subst.Uniqueness

/-!
Unification in both directions. Turning the two terms around turns the bindings around that are
made from variable to variable, so walks end in other variables. But the same variables are
joined, and what they stand for is the same; so both runs go on in lockstep, on cyclic bindings
and without an end, too.
-/

namespace Relational.Subst

variable {s t : Subst} {x y x' y' : Var} {u v w z : Term}

/-! ### Mirrored bindings -/

/-- As many bindings, which join the same variables and let them stand for the same terms. They
may bind joined variables to each other in another direction. -/
structure Mirror (s t : Subst) : Prop where
  size : s.size = t.size
  known {a : Term} (ha : a.isVar = false) (u : Term) : s.walk? u = some a ↔ t.walk? u = some a
  joined (u v : Term) : Joined s u v ↔ Joined t u v

lemma walk?_cases (s : Subst) (u : Term) :
    s.walk? u = none ∨ (∃ x, s.walk? u = some (.var x)) ∨
      ∃ a, a.isVar = false ∧ s.walk? u = some a := by
  rcases s.walk? u with _ | a
  · exact .inl rfl
  · cases a with
    | var x => exact .inr (.inl ⟨x, rfl⟩)
    | _ => exact .inr (.inr ⟨_, rfl, rfl⟩)

/-- What a term leads to under bindings and under their mirror image. -/
inductive Roots : Option Term → Option Term → Prop
  | endless : Roots none none
  | open (x y : Var) : Roots (some (.var x)) (some (.var y))
  | known {a : Term} (ha : a.isVar = false) : Roots (some a) (some a)

namespace Mirror

lemma refl (s : Subst) : Mirror s s := ⟨rfl, fun _ _ => Iff.rfl, fun _ _ => Iff.rfl⟩

lemma roots (h : Mirror s t) (u : Term) : Roots (s.walk? u) (t.walk? u) := by
  rcases s.walk?_cases u with hs | ⟨x, hs⟩ | ⟨a, ha, hs⟩
  · rcases t.walk?_cases u with ht | ⟨y, ht⟩ | ⟨b, hb, ht⟩
    · rw [hs, ht]
      exact .endless
    · obtain ⟨x, hx⟩ := joined_self.mp ((h.joined u u).mpr (joined_self.mpr ⟨y, ht⟩))
      rw [hs] at hx
      cases hx
    · rw [(h.known hb u).mpr ht] at hs
      cases hs
  · obtain ⟨y, ht⟩ := joined_self.mp ((h.joined u u).mp (joined_self.mpr ⟨x, hs⟩))
    rw [hs, ht]
    exact .open x y
  · rw [hs, (h.known ha u).mp hs]
    exact .known ha

lemma same_iff (h : Mirror s t) (hu : s.walk? u = some (.var x)) (hv : s.walk? v = some (.var y))
    (hu' : t.walk? u = some (.var x')) (hv' : t.walk? v = some (.var y')) :
    x.id = y.id ↔ y'.id = x'.id := by
  have ends {s : Subst} {x y : Var} (hu : s.walk? u = some (.var x))
      (hv : s.walk? v = some (.var y)) : Joined s u v ↔ x.id = y.id := by
    rw [joined_iff ⟨y, hv, rfl⟩]
    exact ⟨fun hx => Ends.eq ⟨x, hu, rfl⟩ hx, fun he => ⟨x, hu, he⟩⟩
  rw [← ends hu hv, h.joined, ends hu' hv', eq_comm]

lemma bind (h : Mirror s t) (hs : s.walk? z = some (.var x)) (ht : t.walk? z = some (.var y))
    (hw : w.isVar = false) : Mirror (s.extend x w) (t.extend y w) where
  size := by
    rw [size_extend_of_open (walks_of_walk? hs).find?_eq_none,
      size_extend_of_open (walks_of_walk? ht).find?_eq_none, h.size]
  known ha u := by
    rw [known_extend_known hs hw ha, known_extend_known ht hw ha, h.known ha, h.joined]
  joined u v := by
    rw [joined_extend_known hs hw, joined_extend_known ht hw, h.joined, h.joined]

lemma link (h : Mirror s t) (hu : s.walk? u = some (.var x)) (hv : s.walk? v = some (.var y))
    (hu' : t.walk? u = some (.var x')) (hv' : t.walk? v = some (.var y')) (hne : x.id ≠ y.id) :
    Mirror (s.extend x (.var y)) (t.extend y' (.var x')) := by
  have hne' : y'.id ≠ x'.id := mt (h.same_iff hu hv hu' hv').mpr hne
  refine ⟨?_, fun ha w => ?_, fun w z => ?_⟩
  · rw [size_extend_of_open (walks_of_walk? hu).find?_eq_none,
      size_extend_of_open (walks_of_walk? hv').find?_eq_none, h.size]
  · rw [known_extend_var hu hv hne ha, known_extend_var hv' hu' hne' ha, h.known ha]
  · rw [joined_extend_var hu hv hne, joined_extend_var hv' hu' hne', h.joined, h.joined, h.joined,
      h.joined, h.joined, or_comm (a := Joined t w v ∧ Joined t z u)]

end Mirror

/-! ### Runs in both directions -/

def Meeting.swap : Meeting → Meeting
  | .pairs a d b e => .pairs b e a d
  | .succs p q => .succs q p
  | m => m

/-- Roots that are turned around leave the same to be done, unless both are variables. -/
lemma meet_swap {a b : Term} (h : a.isVar = false ∨ b.isVar = false) :
    meet b a = (meet a b).swap := by
  unfold meet
  rw [Term.beq_comm b a]
  split
  · rfl
  cases a with
  | var x =>
    cases b with
    | var y => simp [Term.isVar, Term.asVar?] at h
    | _ => rfl
  | _ => cases b <;> rfl

lemma meet_known {b : Term} (hb : b.isVar = false) (x : Var) :
    meet (.var x) b = if b.isWildcard then .agree else .bind x b := by
  cases b with
  | var y => cases hb
  | _ => rfl

/-- **Both directions go on in lockstep**: within every depth they have an end or not, clash or
not, and their bindings mirror each other. -/
theorem Mirror.unifyWithin (h : Mirror s t) (u v : Term) (n : Nat) :
    Option.Rel (Option.Rel Mirror) (unifyWithin n s u v) (unifyWithin n t v u) := by
  induction n generalizing s t u v with
  | zero => exact .none
  | succ n ih =>
    rw [unifyWithin_succ, unifyWithin_succ]
    have rootsU := h.roots u
    have rootsV := h.roots v
    generalize hu : s.walk? u = a at rootsU
    generalize hu' : t.walk? u = a' at rootsU
    generalize hv : s.walk? v = b at rootsV
    generalize hv' : t.walk? v = b' at rootsV
    cases rootsU with
    | endless => cases rootsV <;> exact .none
    | «open» x x' =>
      cases rootsV with
      | endless => exact .none
      | «open» y y' =>
        have same := h.same_iff hu hv hu' hv'
        by_cases hxy : x.id = y.id
        · simpa [meet, hxy, same.mp hxy] using h
        · simpa [meet, hxy, mt same.mpr hxy] using h.link hu hv hu' hv' hxy
      | @known b hb =>
        dsimp only
        rw [meet_swap (a := .var x') (.inr hb), meet_known hb, meet_known hb]
        rcases b.isWildcard with _ | _
        · exact .some (.some (h.bind hu hu' hb))
        · exact .some (.some h)
    | @known a ha =>
      cases rootsV with
      | endless => exact .none
      | «open» y y' =>
        dsimp only
        rw [meet_swap (a := .var y) (.inr ha), meet_known ha, meet_known ha]
        rcases a.isWildcard with _ | _
        · exact .some (.some (h.bind hv hv' ha))
        · exact .some (.some h)
      | @known b hb =>
        dsimp only
        rw [meet_swap (a := a) (.inl ha)]
        rcases hm : meet a b with _ | _ | ⟨x, w⟩ | ⟨a, d, b, e⟩ | ⟨p, q⟩
        · exact .some (.some h)
        · exact .some .none
        · -- a binding is made for a variable only
          obtain ⟨⟨rfl, -⟩ | ⟨rfl, -⟩, -⟩ := eq_of_meet_bind hm
          · cases ha
          · cases hb
        · dsimp only [Meeting.swap]
          rcases rel_cases (ih h a b) with ⟨hr, hr'⟩ | ⟨r, r', hr, hr', heads⟩
          · simp [hr, hr']
          rcases rel_cases heads with ⟨rfl, rfl⟩ | ⟨s', t', rfl, rfl, h'⟩
          · simp [hr, hr']
          · simpa [hr, hr'] using ih h' d e
        · exact ih h p q

/-! ### Bindings made in both directions -/

/-- As many bindings, without cycles on both sides or on neither, and if there are none every term
without wildcards reads the same. -/
structure Interchangeable (s t : Subst) : Prop where
  size : s.size = t.size
  acyclic : s.Acyclic ↔ t.Acyclic
  reads (ha : s.Acyclic) (w : Term) (hw : w.hasWildcard = false) :
    ∃ a b, s.reify? w = some a ∧ t.reify? w = some b ∧ (a == b) = true

section

variable {r : Subst} (hs : s.WildcardFree) (hu : u.hasWildcard = false) (hv : v.hasWildcard = false)
include hs hu hv

lemma solves_iff_of_turned (h : Unifies s u v (some t)) (h' : Unifies s v u (some r))
    (θ : Valuation) : θ.Solves t ↔ θ.Solves r := by
  have one := h.solves_iff (θ := θ) ⟨hs, hu, hv⟩
  have other := h'.solves_iff (θ := θ) ⟨hs, hv, hu⟩
  simp only [Option.some.injEq, exists_eq_left'] at one other
  rw [← one, ← other, Term.sameParts_comm]

/-- Acyclic bindings have a solution, and turned around they have it as well. -/
lemma acyclic_of_turned (h : Unifies s u v (some t)) (h' : Unifies s v u (some r))
    (ht : t.Acyclic) : r.Acyclic := by
  have plain : Plain s u v := ⟨hs, hu, hv⟩
  have free : t.WildcardFree := h.wildcardFree plain t rfl
  have straight : s.Straight := h.adds.straight_before ht.straight
  have solved : ((Valuation.naming 0).through free).Solves r :=
    (solves_iff_of_turned hs hu hv h h' _).mp (Valuation.through_solves free ht)
  exact Valuation.Solves.acyclic solved (h'.straight straight r rfl)

end

/-- **Unification is symmetric**, step for step. In both directions it ends at the same depths,
if at all, and with a clash in both or in neither; and the bindings can be put in place of each
other. -/
theorem unify?_symmetric (hs : s.WildcardFree) (hu : u.hasWildcard = false)
    (hv : v.hasWildcard = false) :
    (∀ n, (unifyWithin n s u v).isSome = (unifyWithin n s v u).isSome) ∧
      Option.Rel (Option.Rel Interchangeable) (s.unify? u v) (s.unify? v u) := by
  have mirrored := (Mirror.refl s).unifyWithin u v
  refine ⟨fun n => ?_, ?_⟩
  · rcases rel_cases (mirrored n) with ⟨h, h'⟩ | ⟨_, _, h, h', -⟩ <;> simp [h, h']
  rcases rel_cases (rel_unify? mirrored) with ⟨h, h'⟩ | ⟨r, r', h, h', ended⟩ <;> rw [h, h']
  · exact .none
  rcases rel_cases ended with ⟨rfl, rfl⟩ | ⟨t, t', rfl, rfl, mirror⟩
  · exact .some .none
  have run := unifies_of_unify? h
  have run' := unifies_of_unify? h'
  have acyclic := acyclic_of_turned hs hu hv run run'
  refine .some (.some ⟨mirror.size, ⟨acyclic, acyclic_of_turned hs hv hu run' run⟩, ?_⟩)
  intro ha w hw
  exact reify?_of_solutions (run.wildcardFree ⟨hs, hu, hv⟩ t rfl)
    (run'.wildcardFree ⟨hs, hv, hu⟩ t' rfl) ha (acyclic ha)
    (solves_iff_of_turned hs hu hv run run') hw

/-- Two pairs that unify with a cycle, one of whose heads is bound before. One direction binds the
first variable to the second, the other the second to the first. -/
theorem unify?_symmetric_cycles :
    let s := Subst.empty.extend ⟨2, none⟩ (.var ⟨0, none⟩)
    let u := Term.pair (.var ⟨2, none⟩) (.var ⟨1, none⟩)
    let v := Term.pair (.var ⟨1, none⟩) (.pair (.var ⟨0, none⟩) .nil)
    ∃ t t', s.unify? u v = some (some t) ∧ s.unify? v u = some (some t') ∧
      t.find? ⟨0, none⟩ = some (.var ⟨1, none⟩) ∧ t'.find? ⟨1, none⟩ = some (.var ⟨0, none⟩) ∧
      Interchangeable t t' := by
  intro s u v
  have free : s.WildcardFree := WildcardFree.extend (fun x t h => by simp at h) rfl _
  have related := (unify?_symmetric (s := s) (u := u) (v := v) free rfl rfl).2
  let t := (s.extend ⟨0, none⟩ (.var ⟨1, none⟩)).extend ⟨1, none⟩ (.pair (.var ⟨0, none⟩) .nil)
  let t' := (s.extend ⟨1, none⟩ (.var ⟨0, none⟩)).extend ⟨0, none⟩ (.pair (.var ⟨0, none⟩) .nil)
  have h : s.unify? u v = some (some t) := rfl
  have h' : s.unify? v u = some (some t') := rfl
  rw [h, h'] at related
  obtain ⟨⟨interchangeable⟩⟩ := related
  exact ⟨t, t', h, h', rfl, rfl, interchangeable⟩

end Relational.Subst
