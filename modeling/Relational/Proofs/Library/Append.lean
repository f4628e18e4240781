import Relational.Proofs.Library.Append.Step

/-!
Appending lists. Either the first list is empty, or it and the outcome begin with one item and the
search goes on with what follows. It ends if the outcome is known, which is then split at each of
its pairs, or if the first list is and there is an outcome at all.
-/

namespace Relational

open State Subst Goal

namespace Goal.Splits

variable {ι : Type} {p : Program} {n : Nat} {s : State} {a b c g : Term} {is : List ι}

section

variable (hs : s.Proper n) (ha : Known n a) (hb : Known n b) (hc : Known n c)
include hs ha hb hc

/-- One step: the tails of `a` and `c` are new variables `r` and `q`, and what is told of how `b`
and `r` are joined to `q` is told of the whole, after the case of an empty list. -/
lemma appendo_told {D D' : Burst Pending State → List State → Prop}
    (acc : Burst.Account p.unfold D D') (is : List ι) (R : ι → Valuation → Term → Term → Prop)
    (joins : Joins n s a b c)
    (hR : ∀ i ∈ is, ∀ θ η : Valuation, θ.AgreesBelow η n → ∀ v w, R i θ v w → R i η v w)
    (rest : ∀ m r q t, Tails n s a c m r q t →
      Tells D m (Goal.call (.standard .appendo) [r, b, q]) t
        (is.map fun i θ => R i θ (θ.apply r) (θ.apply q))) :
    Tells D' n (Goal.call (.standard .appendo) [a, b, c]) s
      ((fun θ => θ.apply a = .nil ∧ Term.sameParts (θ.apply b) (θ.apply c) = true) ::
        is.map fun i θ => ∃ u v w, u.isGround = true ∧ v.isGround = true ∧ w.isGround = true ∧
          Pairs a c θ u v w ∧ R i θ v w) := by
  let f : Var := ⟨s.next, some "first"⟩
  let r : Var := ⟨s.next + 1, some "rest"⟩
  let q : Var := ⟨s.next + 2, some "rec"⟩
  have newF : Known (s.next + 3) (.var f) := known_var (by simp [f])
  have newQ : Known (s.next + 3) (.var q) := known_var (by simp [q])
  have ha' := hs.known ha 3
  have hc' := hs.known hc 3
  have first := conso_free (p := p) (x := f) (y := r) (hs.fresh 3) ha' (by simp [f])
    (by simp [r]) (leaves_fresh hs (Nat.le_refl _)) (leaves_fresh hs (Nat.le_succ _)) (by simp [f, r])
    (hs.notMem ha (Nat.le_refl _)) (hs.notMem ha (Nat.le_succ _))
  have body := Tells.conj2_one acc first fun t ht => by
    refine Tells.conj2_one acc
      (conso ht.proper newF newQ hc' (joins.decided_pair hs ha hb hc rfl rfl rfl ht))
      fun u hu => rest (s.next + 3) (.var r) (.var q) u ?_
    refine (ht.trans hu).opens (Q := fun θ vs => Pairs a c θ (vs 0) (vs 1) (vs 2)) hs 1 2 rfl rfl
      (fun θ η agree vs h => h.congr agree ha hc) (fun θ vs ground h => ⟨vs 0, ground 0, h⟩) ?_
    rintro θ v w hv hw ⟨u, hu, h⟩
    exact ⟨![u, v, w], by simp [Fin.forall_fin_succ, hu, hv, hw], h, rfl, rfl⟩
  have empty := conj2_both (emptyo (p := p) hs ha) fun t ht =>
    eq ht.proper hb hc (joins.decided hb hc ht)
  have split : Tells D' n (Goal.call (.standard .appendo) [a, b, c]) s
      ((fun θ => θ.apply a = .nil ∧ Term.sameParts (θ.apply b) (θ.apply c) = true) ::
        is.map fun i θ => ∃ vs : Fin 3 → Term, (∀ j, (vs j).isGround = true) ∧
          Pairs a c θ (vs 0) (vs 1) (vs 2) ∧ R i θ (vs 1) (vs 2)) := by
    refine Tells.call acc (by simp [ha.1, hb.1, hc.1]) (appendo_goal a b c) ?_
    refine Tells.disj2 acc empty (ends_empty ha.1 b c) (silent_pairs hb.1) ?_
    refine Tells.freshNamed acc rfl hs ?_ (body.congr_map fun _ _ _ _ => and_assoc.symm)
    exact fun i hi θ η agree vs h => ⟨h.1.congr agree ha hc, hR i hi θ η agree _ _ h.2⟩
  refine split.congr_cons (fun _ _ => .rfl) fun i _ θ _ => ⟨?_, ?_⟩
  · rintro ⟨vs, ground, here⟩
    exact ⟨vs 0, vs 1, vs 2, ground 0, ground 1, ground 2, here⟩
  · rintro ⟨u, v, w, hu, hv, hw, here⟩
    exact ⟨![u, v, w], by simp [Fin.forall_fin_succ, hu, hv, hw], here⟩

lemma appendo (is : List ι) (R : ι → Valuation → Term → Term → Prop) (joins : Joins n s a b c)
    (hR : ∀ i ∈ is, ∀ θ η : Valuation, θ.AgreesBelow η n → ∀ v w, R i θ v w → R i η v w)
    (rest : ∀ m r q t, Tails n s a c m r q t →
      Splits p m (Goal.call (.standard .appendo) [r, b, q]) t
        (is.map fun i θ => R i θ (θ.apply r) (θ.apply q))) :
    Splits p n (Goal.call (.standard .appendo) [a, b, c]) s
      ((fun θ => θ.apply a = .nil ∧ Term.sameParts (θ.apply b) (θ.apply c) = true) ::
        is.map fun i θ => ∃ u v w, u.isGround = true ∧ v.isGround = true ∧ w.isGround = true ∧
          Pairs a c θ u v w ∧ R i θ v w) :=
  appendo_told hs ha hb hc Burst.account_gives is R joins hR rest

lemma appendo_end (hg : g.isGround = true) (known : s.Fixes n c g) (hi : g.items = []) :
    Splits p n (Goal.call (.standard .appendo) [a, b, c]) s
      [fun θ => Term.sameParts (θ.apply a) .nil = true ∧ Term.sameParts (θ.apply b) g = true] := by
  have split := appendo (p := p) hs ha hb hc [] (fun (_ : Unit) _ _ _ => True)
    (.inl ⟨g, hg, known⟩) (by simp) fun _ _ _ _ h => absurd hi (h.items_ne_nil known)
  refine split.congr_one fun θ hθ => ?_
  rw [Term.sameParts_nil, known.sameParts_iff hθ]

/-- If the outcome is known, it is split at each of its pairs. -/
lemma appendo_split (hg : g.isGround = true) (known : s.Fixes n c g) :
    Splits p n (Goal.call (.standard .appendo) [a, b, c]) s
      ((List.range (g.items.length + 1)).map fun i θ =>
        Term.sameParts (θ.apply a) (.ofList (g.items.take i)) = true ∧
          Term.sameParts (θ.apply b) (g.afterPairs i) = true) := by
  induction g generalizing n s a b c with
  | pair x d _ ih =>
    obtain ⟨groundX, groundD⟩ := Bool.and_eq_true_iff.mp hg
    have split := appendo (p := p) hs ha hb hc (List.range (d.items.length + 1))
      (fun i θ v _ => Term.sameParts v (.ofList (d.items.take i)) = true ∧
        Term.sameParts (θ.apply b) (d.afterPairs i) = true) (.inl ⟨_, hg, known⟩)
      (fun _ _ θ η agree v w here => by rwa [agree.apply_eq hb.2] at here)
      fun _ _ _ _ h => ih h.proper h.left (h.known hb) h.right groundD (h.fixes_right known)
    have length : (Term.pair x d).items.length = d.items.length + 1 := rfl
    rw [length, List.range_succ_eq_map, List.map_cons, List.map_map]
    refine split.congr_cons (fun θ hθ => ?_) fun i _ θ hθ => ?_
    · rw [known.sameParts_iff hθ, ← Term.sameParts_nil]
      rfl
    · have front : Term.ofList ((Term.pair x d).items.take (i + 1)) =
          .pair x (.ofList (d.items.take i)) := rfl
      rw [Function.comp_apply, front]
      constructor
      · rintro ⟨u, v, w, -, -, -, ⟨first, whole⟩, front, back⟩
        rw [known.sameParts_iff hθ] at whole
        rw [Term.sameParts_comm] at first
        have head := (Bool.and_eq_true_iff.mp whole).1
        exact ⟨Term.sameParts_trans first (Bool.and_eq_true_iff.mpr ⟨head, front⟩), back⟩
      · rintro ⟨first, back⟩
        rw [Term.sameParts_comm] at first
        have ground : (Term.ofList (d.items.take i)).isGround = true :=
          Term.isGround_ofList.mpr fun t ht =>
            Term.isGround_items groundD t (List.mem_of_mem_take ht)
        have whole := (known.sameParts_iff hθ _).mpr (Term.sameParts_refl (.pair x d))
        exact ⟨x, _, d, groundX, ground, groundD, ⟨first, whole⟩, Term.sameParts_refl _, back⟩
  | _ => exact appendo_end hs ha hb hc hg known rfl

/-- If the first list is known and there is an outcome, that is its items before the second. -/
lemma appendo_join {xs : List Term} (hxs : ∀ x ∈ xs, x.isGround = true)
    (known : s.Fixes n a (.ofList xs))
    (far : ∃ θ, s.Allows n θ ∧ Term.sameParts (.listThen xs (θ.apply b)) (θ.apply c) = true) :
    Splits p n (Goal.call (.standard .appendo) [a, b, c]) s
      [fun θ => Term.sameParts (θ.apply c) (.listThen xs (θ.apply b)) = true] := by
  induction xs generalizing n s a b c with
  | nil =>
    have split := appendo (p := p) hs ha hb hc [] (fun (_ : Unit) _ _ _ => True)
      (.inr (.inl ⟨_, hxs, known, far⟩)) (by simp) fun _ _ _ _ h => (h.left_ne_nil known).elim
    refine split.congr_one fun θ hθ => ?_
    rw [and_iff_right (Term.sameParts_nil.mp (known θ hθ)), Term.sameParts_comm]
    rfl
  | cons x xs ih =>
    obtain ⟨groundX, groundXs⟩ := List.forall_mem_cons.mp hxs
    have groundList := Term.isGround_ofList.mpr groundXs
    have ground (θ : Valuation) : (Term.listThen xs (θ.apply b)).isGround = true :=
      Term.isGround_listThen.mpr ⟨groundXs, θ.isGround_apply hb.1⟩
    have first {θ : Valuation} (hθ : s.Allows n θ) :
        Term.sameParts (.pair x (.ofList xs)) (θ.apply a) = true :=
      (known.sameParts_iff hθ _).mpr (Term.sameParts_refl _)
    have split := appendo (p := p) hs ha hb hc [()] (fun _ θ _ w =>
      Term.sameParts w (.listThen xs (θ.apply b)) = true) (.inr (.inl ⟨_, hxs, known, far⟩))
      (fun _ _ θ η agree v w here => by rwa [agree.apply_eq hb.2] at here)
      fun m r q t h => by
        obtain ⟨θ, hθ, join⟩ := far
        obtain ⟨η, hη, agree, -, atQ⟩ := h.exists_allows θ hθ (.ofList xs) _ groundList (ground θ)
          ⟨x, groundX, first hθ, join⟩
        refine ih h.proper h.left (h.known hb) h.right groundXs (h.fixes_left known) ⟨η, hη, ?_⟩
        rw [atQ, agree.apply_eq hb.2]
        exact Term.sameParts_refl _
    refine (split.drop fun θ hθ here => ?_).congr_one fun θ hθ => ⟨?_, fun whole => ?_⟩
    · have nonempty := first hθ
      rw [here.1] at nonempty
      cases nonempty
    · rintro ⟨u, v, w, -, -, -, ⟨pair, whole⟩, rest⟩
      rw [known.sameParts_iff hθ] at pair
      rw [Term.sameParts_comm] at whole
      have head := (Bool.and_eq_true_iff.mp pair).1
      exact Term.sameParts_trans whole (Bool.and_eq_true_iff.mpr ⟨head, rest⟩)
    · rw [Term.sameParts_comm] at whole
      exact ⟨x, _, _, groundX, groundList, ground θ, ⟨first hθ, whole⟩, Term.sameParts_refl _⟩

end

end Goal.Splits

/-! ### Queries -/

namespace Query

open Goal.Splits

/-- What is given to a relation in a query: a ground term, or the name of a variable asked for. -/
inductive Operand where
  | known (t : Term) (ground : t.isGround = true)
  | asked (x : String)

namespace Operand

def expr : Operand → Expr
  | known t _ => .term t
  | asked x => x

def names : Operand → List String
  | known _ _ => []
  | asked x => [x]

def fits : Operand → Term → Bool
  | known t _, u => t == u
  | asked _, _ => true

def reads : Operand → Term → List Term
  | known _ _, _ => []
  | asked _, u => [u]

def term : Operand → Nat → Term
  | known t _, _ => t
  | asked x, i => .var ⟨i, some x⟩

variable {x y : Operand} {n i : Nat} {t u : Term} {θ : Valuation}

lemma known_term (h : i + x.names.length ≤ n) : Known n (x.term i) := by
  cases x with
  | known t ground => exact known_of_isGround ground
  | asked x => exact known_var h

lemma length_reads : (x.reads t).length = x.names.length := by cases x <;> rfl

lemma isGround_reads (ht : t.isGround = true) : ∀ u ∈ x.reads t, u.isGround = true := by
  cases x <;> simp [reads, ht]

lemma fits_of_sameParts (h : Term.sameParts (θ.apply (x.term i)) t = true) : x.fits t = true := by
  cases x with
  | known u ground =>
    rw [term, θ.apply_of_isGround ground] at h
    exact (Term.beq_eq_sameParts (Term.hasWildcard_of_isGround ground) t).trans h
  | asked x => rfl

lemma sameParts_of_fits {ground : t.isGround = true} (h : (known t ground).fits u = true) :
    Term.sameParts (θ.apply t) u = true := by
  rw [θ.apply_of_isGround ground]
  exact (Term.beq_eq_sameParts (Term.hasWildcard_of_isGround ground) u).symm.trans h

lemma reads_iff (ht : x.fits t = true) (hu : y.fits u = true) :
    Term.sameParts (θ.apply (x.term 0)) t = true ∧
        Term.sameParts (θ.apply (y.term x.names.length)) u = true ↔
      List.Forall₂ (fun j v => Term.sameParts (θ.value j) v = true)
        (List.range (x.names ++ y.names).length) (x.reads t ++ y.reads u) := by
  have two : List.range 2 = [0, 1] := rfl
  rcases x with ⟨v, hv⟩ | x <;> rcases y with ⟨w, hw⟩ | y
  · simp [names, reads, term, sameParts_of_fits ht, sameParts_of_fits hu]
  · simp [names, reads, term, sameParts_of_fits ht]
  · simp [names, reads, term, sameParts_of_fits hu]
  · simp [names, reads, term, two]

end Operand

variable (p : Program)

lemma appendo_finds_outcome {xs : List Term} {ys : Term} (q : String)
    (hxs : ∀ x ∈ xs, x.isGround = true) (hys : ys.isGround = true) :
    (askOne p q (.ask .appendo [.term (.ofList xs), .term ys, q])).Finds [.listThen xs ys] := by
  have whole : (Term.listThen xs ys).isGround = true := Term.isGround_listThen.mpr ⟨hxs, hys⟩
  have list := Term.isGround_ofList.mpr hxs
  have split := appendo_join (p := p) (proper_boundless 1) (known_of_isGround list)
    (known_of_isGround hys) (known_var (x := ⟨0, some q⟩) Nat.one_pos) hxs (fixes_self list)
    ⟨⟨fun _ => .listThen xs ys, fun _ => whole⟩, allows_boundless .., by
      rw [Valuation.apply_of_isGround _ hys]
      exact Term.sameParts_refl _⟩
  refine finds_one [()] (fun _ => .listThen xs ys)
    (by simp [Expr.eval, value_ofVars_one]) (fun _ _ => whole) (split.congr_one fun θ _ => ?_)
  rw [θ.apply_of_isGround hys]
  rfl

lemma eval_operands {x y : Operand} (distinct : (x.names ++ y.names).Nodup) (zs : Term) :
    [x.expr, y.expr, .term zs].map
      (Expr.eval (ask p (x.names ++ y.names) (.ask .appendo [x.expr, y.expr, .term zs])).env) =
        [x.term 0, y.term x.names.length, zs] := by
  rw [env_ask]
  rcases x with ⟨t, _⟩ | x <;> rcases y with ⟨u, _⟩ | y
  · rfl
  · exact congrArg (fun v => [t, v, zs]) (value_ofVars_one y)
  · exact congrArg (fun v => [v, u, zs]) (value_ofVars_one x)
  · have hxy : x ≠ y := by simpa [Operand.names] using distinct
    obtain ⟨first, second⟩ := value_ofVars_two hxy
    exact congrArg₂ (fun v w => [v, w, zs]) first second

lemma appendo_finds_parts {x y : Operand} (distinct : (x.names ++ y.names).Nodup) {zs : Term}
    (hzs : zs.isGround = true) :
    (ask p (x.names ++ y.names) (.ask .appendo [x.expr, y.expr, .term zs])).Finds
      (((List.range (zs.items.length + 1)).filter fun i =>
          x.fits (.ofList (zs.items.take i)) && y.fits (zs.afterPairs i)).map fun i =>
        .ofList (x.reads (.ofList (zs.items.take i)) ++ y.reads (zs.afterPairs i))) := by
  have front (i : Nat) : (Term.ofList (zs.items.take i)).isGround = true :=
    Term.isGround_ofList.mpr fun t ht => Term.isGround_items hzs t (List.mem_of_mem_take ht)
  have split := appendo_split (p := p) (proper_boundless (x.names ++ y.names).length)
    (x.known_term (i := 0) (by simp)) (y.known_term (i := x.names.length) (by simp))
    (known_of_isGround hzs) hzs (fixes_self hzs)
  have possible := split.filter
    (fun i => x.fits (.ofList (zs.items.take i)) && y.fits (zs.afterPairs i))
    fun i _ unfit θ _ ⟨first, second⟩ => by
      rw [Operand.fits_of_sameParts first, Operand.fits_of_sameParts second] at unfit
      cases unfit
  refine finds_call (eval_operands p distinct zs) (fun i _ => ?_) (fun i _ => ?_)
    (possible.congr_map fun i hi θ _ => ?_)
  · exact List.forall_mem_append.mpr ⟨Operand.isGround_reads (front i),
      Operand.isGround_reads (Term.isGround_afterPairs hzs i)⟩
  · simp [Operand.length_reads]
  · obtain ⟨first, second⟩ := Bool.and_eq_true_iff.mp (List.mem_filter.mp hi).2
    exact Operand.reads_iff first second

/-- **Appending joins two lists, and splits a list at each of its pairs.** Of a known list and a
known remainder there is one outcome. If the outcome is known, there is an answer for each number of
pairs such that the two operands may be the items and what remains; both may be asked for. There are
no other answers, and then the search ends. -/
theorem appendo_joins_and_splits (p : Program) (xs : List Term) (ys zs : Term) (q : String)
    (x y : Operand) (hxs : ∀ u ∈ xs, u.isGround = true) (hys : ys.isGround = true)
    (hzs : zs.isGround = true) (distinct : (x.names ++ y.names).Nodup) :
    (askOne p q (.ask .appendo [.term (.ofList xs), .term ys, q])).Finds [.listThen xs ys] ∧
      (ask p (x.names ++ y.names) (.ask .appendo [x.expr, y.expr, .term zs])).Finds
        (((List.range (zs.items.length + 1)).filter fun i =>
            x.fits (.ofList (zs.items.take i)) && y.fits (zs.afterPairs i)).map fun i =>
          .ofList (x.reads (.ofList (zs.items.take i)) ++ y.reads (zs.afterPairs i))) :=
  ⟨appendo_finds_outcome p q hxs hys, appendo_finds_parts p distinct hzs⟩

/-- The lists of one and of two make one of both, which can be split in three ways. -/
theorem appendo_joins_and_splits_two :
    let one : Term := .ofList [.nat 1]
    let two : Term := .ofList [.nat 2]
    let both : Term := .ofList [.nat 1, .nat 2]
    one.isGround = true ∧ two.isGround = true ∧ both.isGround = true ∧ ["x", "y"].Nodup ∧
      (askOne .empty "q" (.ask .appendo [.term one, .term two, "q"])).Finds [both] ∧
      (ask .empty ["x", "y"] (.ask .appendo ["x", "y", .term both])).Finds
        [.ofList [.nil, both], .ofList [one, two], .ofList [both, .nil]] ∧
      (ask .empty ["x"] (.ask .appendo ["x", .term two, .term both])).Finds [.ofList [one]] := by
  intro one two both
  have ground : ∀ u ∈ [Term.nat 1], u.isGround = true := by decide
  have distinct : ["x", "y"].Nodup := by decide
  obtain ⟨join, splits⟩ := appendo_joins_and_splits .empty [.nat 1] two both "q" (.asked "x")
    (.asked "y") ground rfl rfl distinct
  obtain ⟨-, split⟩ := appendo_joins_and_splits .empty [.nat 1] two both "q" (.asked "x")
    (.known two rfl) ground rfl rfl (by decide)
  exact ⟨rfl, rfl, rfl, distinct, join, splits, split⟩

end Query

end Relational
