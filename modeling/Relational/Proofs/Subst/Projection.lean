import Relational.Proofs.Subst.Solvable

/-!
Resolving again. What was resolved once is not changed by resolving it again, and later bindings see
it as they see the term that it was resolved from. It makes no difference either to follow tails and
predecessors in one loop, and to put back on in the end what was passed on the way.
-/

namespace Relational.Subst

variable {s s' : Subst} {t u w r : Term}

/-! ### In one loop -/

/-- What a loop passes on its way down: the head of a pair, or a successor. -/
inductive Layer where
  | head (a : Term)
  | succ

def Layer.around : Layer → Term → Term
  | head a, t => .pair a t
  | succ, t => .succ t

def rebuild (ls : List Layer) (t : Term) : Term := ls.foldr Layer.around t

/-- A loop that has passed the layers `ls` goes on at the term `t`, and gives `r` in the end. It
follows tails and predecessors, across bindings as well. For each head there is a loop of its own. -/
inductive Unwinds (s : Subst) : List Layer → Term → Term → Prop
  | stop {ls : List Layer} {t u : Term} (h : Walks s t u) (hu : u.isBare = true) :
      Unwinds s ls t (rebuild ls u)
  | pair {ls : List Layer} {t a d a' r : Term} (h : Walks s t (.pair a d)) (ha : Unwinds s [] a a')
      (hd : Unwinds s (ls ++ [.head a']) d r) : Unwinds s ls t r
  | succ {ls : List Layer} {t p r : Term} (h : Walks s t (.succ p))
      (hp : Unwinds s (ls ++ [.succ]) p r) : Unwinds s ls t r

lemma rebuild_append (ls : List Layer) (l : Layer) (t : Term) :
    rebuild (ls ++ [l]) t = rebuild ls (l.around t) := by
  simp [rebuild]

lemma Resolves.unwinds (h : Resolves s t u) (ls : List Layer) :
    Unwinds s ls t (rebuild ls u) := by
  induction h generalizing ls with
  | bare hw hu => exact .stop hw hu
  | @pair t a d a' d' hw _ _ iha ihd =>
    have tail := ihd (ls ++ [.head a'])
    rw [rebuild_append] at tail
    exact .pair hw (iha []) tail
  | succ hw _ ih =>
    have pred := ih (ls ++ [.succ])
    rw [rebuild_append] at pred
    exact .succ hw pred

lemma Unwinds.exists_resolves {ls : List Layer} (h : Unwinds s ls t r) :
    ∃ u, Resolves s t u ∧ r = rebuild ls u := by
  induction h with
  | stop hw hu => exact ⟨_, .bare hw hu, rfl⟩
  | pair hw _ _ iha ihd =>
    obtain ⟨a', ha, rfl⟩ := iha
    obtain ⟨d', hd, rfl⟩ := ihd
    exact ⟨_, .pair hw ha hd, rebuild_append _ _ _⟩
  | succ hw _ ih =>
    obtain ⟨p', hp, rfl⟩ := ih
    exact ⟨_, .succ hw hp, rebuild_append _ _ _⟩

/-- A loop gives what resolving part by part gives. -/
lemma unwinds_nil_iff : Unwinds s [] t r ↔ Resolves s t r := by
  refine ⟨fun h => ?_, fun h => h.unwinds []⟩
  obtain ⟨u, hu, rfl⟩ := h.exists_resolves
  exact hu

/-! ### Resolving again -/

lemma Walks.resolves_iff (hw : Walks s t w)
    (kept : ∀ x w, s.find? x = some w → s'.find? x = some w) :
    Resolves s' w r ↔ Resolves s' t r := by
  induction hw with
  | «open» => rfl
  | known => rfl
  | step hx _ ih => rw [ih, resolves_bound_iff (kept _ _ hx)]

/-- Where bindings are kept, it makes no difference to have resolved under them before. -/
lemma Resolves.later_iff (h : Resolves s t u)
    (kept : ∀ x w, s.find? x = some w → s'.find? x = some w) :
    Resolves s' u r ↔ Resolves s' t r := by
  induction h generalizing r with
  | bare hw _ => exact hw.resolves_iff kept
  | pair hw _ _ iha ihd =>
    rw [← hw.resolves_iff kept, resolves_pair_iff, resolves_pair_iff]
    simp only [iha, ihd]
  | succ hw _ ih =>
    rw [← hw.resolves_iff kept, resolves_succ_iff, resolves_succ_iff]
    simp only [ih]

/-- **Resolving is a projection, and composes with later bindings.** A term resolves to a term
whose variables are all open, which is what resolving part by part gives, and what the loop gives.
Under acyclic bindings that keep all that there are, this term resolves to the same as the term
that it came from; and under the bindings themselves it stays as it is. -/
theorem resolve?_composes (hs : s.Acyclic) (t : Term) :
    ∃ u, s.resolve? t = some u ∧ (∀ x ∈ u.vars, s.find? x = none) ∧
      (∀ v, Resolves s t v ↔ v = u) ∧ (∀ v, Unwinds s [] t v ↔ v = u) ∧
      (∀ s' : Subst, s'.Acyclic → (∀ x w, s.find? x = some w → s'.find? x = some w) →
        ∃ r, s'.resolve? u = some r ∧ s'.resolve? t = some r) ∧
      s.resolve? u = some u := by
  obtain ⟨u, hu⟩ := hs.resolve? t
  have parts : ∀ v, Resolves s t v ↔ v = u := by
    intro v
    rw [← resolve?_eq_some_iff, hu, Option.some_inj, eq_comm]
  have here : Resolves s t u := (parts u).mpr rfl
  refine ⟨u, hu, find?_of_resolve? hu, parts, fun v => unwinds_nil_iff.trans (parts v),
    fun s' hs' kept => ?_, ?_⟩
  · obtain ⟨r, hr⟩ := hs'.resolve? t
    refine ⟨r, ?_, hr⟩
    rw [resolve?_eq_some_iff] at hr ⊢
    exact (here.later_iff kept).mpr hr
  · rw [resolve?_eq_some_iff]
    exact (here.later_iff fun _ _ => id).mpr here

/-- A list that goes on as a number, which goes on as a list; later the end of that list is bound,
and the first head is linked to the second. -/
theorem resolve?_composes_mixed :
    let s := ((Subst.empty.extend ⟨0, none⟩ (.pair (.var ⟨1, none⟩) (.var ⟨2, none⟩))).extend
      ⟨2, none⟩ (.succ (.var ⟨3, none⟩))).extend ⟨3, none⟩ (.pair (.var ⟨4, none⟩) (.var ⟨5, none⟩))
    let s' := (s.extend ⟨5, none⟩ .nil).extend ⟨1, none⟩ (.var ⟨4, none⟩)
    let u := Term.pair (.var ⟨1, none⟩) (.succ (.pair (.var ⟨4, none⟩) (.var ⟨5, none⟩)))
    let r := Term.pair (.var ⟨4, none⟩) (.succ (.pair (.var ⟨4, none⟩) .nil))
    s.Acyclic ∧ s'.Acyclic ∧ (∀ x w, s.find? x = some w → s'.find? x = some w) ∧
      s.resolve? (.var ⟨0, none⟩) = some u ∧ (∀ x ∈ u.vars, s.find? x = none) ∧
      Resolves s (.var ⟨0, none⟩) u ∧ Unwinds s [] (.var ⟨0, none⟩) u ∧
      s'.resolve? u = some r ∧ s'.resolve? (.var ⟨0, none⟩) = some r ∧ s.resolve? u = some u := by
  intro s s' u r
  have straight : s.Straight := by
    refine ((placed_empty.acyclic.straight.extend ?_).extend ?_).extend ?_ <;> rintro _ ⟨⟩
  have straight' : s'.Straight := by
    refine (straight.extend ?_).extend ?_ <;> rintro _ ⟨⟩
    exact ⟨by decide, rfl⟩
  let end_ := Term.pair .zero .nil
  let θ : Valuation := ⟨fun i => if i = 0 then .pair .zero (.succ end_) else
    if i = 2 then .succ end_ else if i = 3 then end_ else if i = 5 then .nil else .zero,
    by intro i; repeat' split
       all_goals rfl⟩
  have solves : θ.Solves s := by
    rw [Valuation.solves_extend rfl, Valuation.solves_extend rfl, Valuation.solves_extend rfl]
    exact ⟨⟨⟨fun x t h => by simp at h, rfl⟩, rfl⟩, rfl⟩
  have solves' : θ.Solves s' := by
    rw [Valuation.solves_extend rfl, Valuation.solves_extend rfl]
    exact ⟨⟨solves, rfl⟩, rfl⟩
  have adds : Adds s s' :=
    .bind (.bind .refl trivial trivial rfl (by rintro _ ⟨⟩)) trivial trivial rfl
      (by rintro _ ⟨⟩; exact ⟨by decide, rfl⟩)
  have acyclic := solves.acyclic straight
  have acyclic' := solves'.acyclic straight'
  have kept : ∀ x w, s.find? x = some w → s'.find? x = some w := fun _ _ => adds.kept
  obtain ⟨u', hu, opened, parts, loop, later, again⟩ :=
    resolve?_composes acyclic (.var ⟨0, none⟩)
  obtain ⟨r', hr, hr'⟩ := later s' acyclic' kept
  cases hu
  cases hr
  exact ⟨acyclic, acyclic', kept, rfl, opened, (parts _).mpr rfl, (loop _).mpr rfl, rfl, hr', again⟩

end Relational.Subst
