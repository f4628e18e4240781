import Relational.Proofs.Library.Reverse.Lengths

/-!
Reversing lists. The lengths are compared first, which makes a list of unknown items of the side
that is not known. Then the items are moved one by one before an accumulator; this ends as the list
has a known length, and each equation is decided as the list and the accumulator are known, or the
outcome is.
-/

namespace Relational

open State Subst Goal

namespace Term

def reverseOnto : Term → Term → Term
  | pair a d, acc => d.reverseOnto (pair a acc)
  | _, acc => acc

variable {t u v w : Term}

lemma reverseOnto_ofList (ts : List Term) (acc : Term) :
    (ofList ts).reverseOnto acc = listThen ts.reverse acc := by
  induction ts generalizing acc with
  | nil => rfl
  | cons t ts ih =>
    rw [List.reverse_cons, listThen, List.foldr_append]
    exact ih (pair t acc)

lemma sameParts_reverseOnto (h : sameParts t u = true) (h' : sameParts v w = true) :
    sameParts (t.reverseOnto v) (u.reverseOnto w) = true := by
  induction t generalizing u v w with
  | pair a d _ ih =>
    obtain ⟨b, e, rfl, head, tail⟩ := pair_sameParts.mp h
    rw [reverseOnto, reverseOnto]
    exact ih tail (Bool.and_eq_true_iff.mpr ⟨head, h'⟩)
  | _ => cases u <;> first | exact h' | cases h

lemma reverseOnto_iff_of_pair {a d c : Term} (h : sameParts (pair a d) t = true) :
    sameParts (t.reverseOnto u) c = true ↔ sameParts (d.reverseOnto (pair a u)) c = true := by
  have same := sameParts_reverseOnto h (sameParts_refl u)
  refine ⟨sameParts_trans same, sameParts_trans ?_⟩
  rwa [sameParts_comm]

lemma reverseOnto_nil_iff {ts : List Term} {k : Nat} (ht : Lists k t) :
    sameParts (t.reverseOnto nil) (ofList ts) = true ↔ sameParts t (ofList ts.reverse) = true := by
  have twice (us : List Term) : ((ofList us).reverseOnto nil).reverseOnto nil = ofList us := by
    rw [reverseOnto_ofList, ← ofList, reverseOnto_ofList, List.reverse_reverse, ofList]
  have reversed : (ofList ts).reverseOnto nil = ofList ts.reverse := reverseOnto_ofList _ _
  constructor
  · intro h
    have back := sameParts_reverseOnto h (sameParts_refl nil)
    obtain ⟨us, rfl⟩ := exists_ofList ht
    rwa [twice, reversed] at back
  · intro h
    have back := sameParts_reverseOnto h (sameParts_refl nil)
    rwa [← reversed, twice] at back

end Term

namespace Goal.Splits

variable {ι : Type} {p : Program} {n k : Nat} {s : State} {a b c g : Term} {is : List ι}

/-! ### The accumulator -/

lemma reverseAcco_goal (a b c : Term) : Standard.reverseAcco.goal [a, b, c] =
    Goal.disj2 (Goal.conj2 (Goal.call (.standard .emptyo) [a]) (Goal.eq b c))
      (Goal.freshNamed ["head", "tail"] fun
        | [x, y] => Goal.conj2 (Goal.call (.standard .conso) [.var x, .var y, a])
            (Goal.call (.standard .reverseAcco) [.var y, .pair (.var x) b, c])
        | _ => Goal.fail) := rfl

def HeadTail (a : Term) (θ : Valuation) (v w : Term) : Prop :=
  Term.sameParts (.pair v w) (θ.apply a) = true

/-- One step: `a` is empty and `b` is the outcome, or the head of `a` is put before `b`. -/
lemma reverseAcco (hs : s.Proper n) (ha : Known n a) (hb : Known n b) (hc : Known n c)
    (is : List ι) (R : ι → Valuation → Term → Term → Prop)
    (base : ∀ t, Narrows n (fun θ => θ.apply a = .nil) s t → Decided t.subst b c)
    (hR : ∀ i ∈ is, ∀ θ η : Valuation, θ.AgreesBelow η n → ∀ v w, R i θ v w → R i η v w)
    (rest : ∀ m x y t, Opens n s (HeadTail a) m x y t →
      Splits p m (Goal.call (.standard .reverseAcco) [y, .pair x b, c]) t
        (is.map fun i θ => R i θ (θ.apply x) (θ.apply y))) :
    Splits p n (Goal.call (.standard .reverseAcco) [a, b, c]) s
      ((fun θ => θ.apply a = .nil ∧ Term.sameParts (θ.apply b) (θ.apply c) = true) ::
        is.map fun i θ => ∃ v w, v.isGround = true ∧ w.isGround = true ∧
          HeadTail a θ v w ∧ R i θ v w) := by
  let x : Var := ⟨s.next, some "head"⟩
  let y : Var := ⟨s.next + 1, some "tail"⟩
  have first := conso_free (p := p) (x := x) (y := y) (hs.fresh 2) (hs.known ha 2) (by simp [x])
    (by simp [y]) (leaves_fresh hs (Nat.le_refl _)) (leaves_fresh hs (Nat.le_succ _))
    (by simp [x, y]) (hs.notMem ha (Nat.le_refl _)) (hs.notMem ha (Nat.le_succ _))
  have congr {θ η : Valuation} (agree : θ.AgreesBelow η n) {v w : Term} (h : HeadTail a θ v w) :
      HeadTail a η v w := by rwa [HeadTail, agree.apply_eq ha.2] at h
  have body := conj2_one first fun t ht => by
    refine rest (s.next + 2) (.var x) (.var y) t ?_
    refine ht.opens (Q := fun θ vs => HeadTail a θ (vs 0) (vs 1)) hs 0 1 rfl rfl
      (fun θ η agree vs => congr agree) (fun _ _ _ => id) fun θ v w hv hw h => ?_
    exact ⟨![v, w], by simp [Fin.forall_fin_two, hv, hw], h, rfl, rfl⟩
  have empty := conj2_both (emptyo (p := p) hs ha) fun t ht => eq ht.proper hb hc (base t ht)
  have split : Splits p n (Goal.call (.standard .reverseAcco) [a, b, c]) s
      ((fun θ => θ.apply a = .nil ∧ Term.sameParts (θ.apply b) (θ.apply c) = true) ::
        is.map fun i θ => ∃ vs : Fin 2 → Term, (∀ j, (vs j).isGround = true) ∧
          HeadTail a θ (vs 0) (vs 1) ∧ R i θ (vs 0) (vs 1)) := by
    refine call (by simp [ha.1, hb.1, hc.1]) (reverseAcco_goal a b c) ?_
    refine disj2 empty (freshNamed rfl hs ?_ body)
    exact fun i hi θ η agree vs h => ⟨congr agree h.1, hR i hi θ η agree _ _ h.2⟩
  exact split.congr_cons (fun _ _ => .rfl) fun i _ θ _ =>
    exists_two (F := fun v w => HeadTail a θ v w ∧ R i θ v w)

/-- What is known for each equation to be decided: the list and the accumulator, or the outcome. -/
def Reverses (n : Nat) (s : State) (a b c : Term) : Prop :=
  (∃ g h, g.isGround = true ∧ h.isGround = true ∧ s.Fixes n a g ∧ s.Fixes n b h) ∨
    ∃ g, g.isGround = true ∧ s.Fixes n c g

lemma Reverses.decided {t : State} {P : Valuation → Prop} (h : Reverses n s a b c)
    (hb : Known n b) (hc : Known n c) (ht : Narrows n P s t) : Decided t.subst b c := by
  rcases h with ⟨-, g, -, ground, -, known⟩ | ⟨g, ground, known⟩
  · exact ((ht.fixes known).decided ground ht.proper hb hc).1
  · exact ((ht.fixes known).decided ground ht.proper hc hb).2

lemma Reverses.next {m : Nat} {x y : Term} {t : State} (h : Reverses n s a b c)
    (ht : Opens n s (HeadTail a) m x y t) : Reverses m t y (.pair x b) c := by
  rcases h with ⟨g, h, groundG, groundH, knownA, knownB⟩ | ⟨g, ground, known⟩
  · obtain ⟨θ, hθ, pair⟩ := ht.exists_values
    obtain ⟨u, d, rfl, -⟩ := Term.pair_sameParts.mp (Term.sameParts_trans pair (knownA θ hθ))
    obtain ⟨groundU, groundD⟩ := Bool.and_eq_true_iff.mp groundG
    have parts {η : Valuation} (hη : t.Allows m η) :
        Term.sameParts (η.apply x) u = true ∧ Term.sameParts (η.apply y) d = true := by
      obtain ⟨hη, pair⟩ := ht.allows η hη
      exact Bool.and_eq_true_iff.mp (Term.sameParts_trans pair (knownA η hη))
    refine .inl ⟨d, .pair u h, groundD, Bool.and_eq_true_iff.mpr ⟨groundU, groundH⟩,
      fun η hη => (parts hη).2, fun η hη => ?_⟩
    exact Bool.and_eq_true_iff.mpr ⟨(parts hη).1, ht.fixes knownB η hη⟩
  · exact .inr ⟨g, ground, ht.fixes known⟩

/-- The items of a list of known length are put before the accumulator one by one. -/
lemma reverseAcco_lists (hs : s.Proper n) (ha : Known n a) (hb : Known n b) (hc : Known n c)
    (list : ∀ θ, s.Allows n θ → Term.Lists k (θ.apply a)) (known : Reverses n s a b c) :
    Splits p n (Goal.call (.standard .reverseAcco) [a, b, c]) s
      [fun θ => Term.sameParts ((θ.apply a).reverseOnto (θ.apply b)) (θ.apply c) = true] := by
  induction k generalizing n s a b c with
  | zero =>
    have split := reverseAcco (p := p) hs ha hb hc [] (fun (_ : Unit) _ _ _ => True)
      (fun t ht => known.decided hb hc ht) (by simp) fun m x y t h => by
        obtain ⟨θ, hθ, pair⟩ := h.exists_values
        rw [HeadTail, Term.lists_zero.mp (list θ hθ)] at pair
        cases pair
    refine split.congr_one fun θ hθ => ?_
    have empty := Term.lists_zero.mp (list θ hθ)
    rw [and_iff_right empty, empty]
    rfl
  | succ k ih =>
    have split := reverseAcco (p := p) hs ha hb hc [()]
      (fun _ θ v w => Term.sameParts (w.reverseOnto (.pair v (θ.apply b))) (θ.apply c) = true)
      (fun t ht => known.decided hb hc ht)
      (fun _ _ θ η agree v w here => by rwa [agree.apply_eq hb.2, agree.apply_eq hc.2] at here)
      fun m x y t h => by
        have pair : Known m (.pair x b) :=
          ⟨by rw [Term.hasWildcard, h.left.1, hb.1]; rfl,
            Term.below_pair.mpr ⟨h.left.2, (h.known hb).2⟩⟩
        refine ih h.proper h.right pair (h.known hc) (fun θ hθ => ?_) (known.next h)
        obtain ⟨hθ, pair⟩ := h.allows θ hθ
        exact (list θ hθ).tail pair
    refine (split.drop fun θ hθ here => ?_).congr_one fun θ hθ => ?_
    · obtain ⟨v, w, -, -, pair, -⟩ := Term.lists_succ.mp (list θ hθ)
      rw [here.1] at pair
      cases pair
    · constructor
      · rintro ⟨v, w, -, -, pair, here⟩
        exact (Term.reverseOnto_iff_of_pair pair).mpr here
      · intro here
        obtain ⟨v, w, hv, hw, pair, -⟩ := Term.lists_succ.mp (list θ hθ)
        exact ⟨v, w, hv, hw, pair, (Term.reverseOnto_iff_of_pair pair).mp here⟩

/-! ### Both -/

lemma reverseo_goal (a b : Term) : Standard.reverseo.goal [a, b] =
    Goal.conj2 (Goal.call (.standard .sameLengtho) [a, b])
      (Goal.call (.standard .reverseAcco) [a, .nil, b]) := rfl

section

variable {xs : List Term} (hs : s.Proper n) (ha : Known n a) (hb : Known n b)
  (hxs : ∀ x ∈ xs, x.isGround = true)
include hs ha hb hxs

/-- Once a side is known, both are lists of its length, and one is reversed to the other. -/
lemma reverseo (known : s.Fixes n a (.ofList xs) ∨ s.Fixes n b (.ofList xs)) :
    Splits p n (Goal.call (.standard .reverseo) [a, b]) s
      [fun θ => (Term.Lists xs.length (θ.apply a) ∧ Term.Lists xs.length (θ.apply b)) ∧
        Term.sameParts ((θ.apply a).reverseOnto .nil) (θ.apply b) = true] := by
  have list := Term.lists_ofList hxs
  have ground := Term.isGround_ofList.mpr hxs
  have lengths := sameLengtho_lists (p := p) hs ha hb
    (known.imp (fun h θ hθ => list.of_sameParts (h θ hθ)) fun h θ hθ => list.of_sameParts (h θ hθ))
  refine call (by simp [ha.1, hb.1]) (reverseo_goal a b) (conj2_both lengths fun t ht => ?_)
  refine reverseAcco_lists ht.proper ha (known_of_isGround rfl) hb
    (fun θ hθ => ((ht.allows_iff θ).mp hθ).2.1) (known.imp (fun h => ?_) fun h => ?_)
  · exact ⟨_, .nil, ground, rfl, ht.fixes h, fixes_self rfl⟩
  · exact ⟨_, ground, ht.fixes h⟩

lemma reverseo_left (known : s.Fixes n a (.ofList xs)) :
    Splits p n (Goal.call (.standard .reverseo) [a, b]) s
      [fun θ => Term.sameParts (θ.apply b) (.ofList xs.reverse) = true] := by
  refine (reverseo hs ha hb hxs (.inl known)).congr_one fun θ hθ => ?_
  have back := Term.sameParts_reverseOnto (known θ hθ) (Term.sameParts_refl .nil)
  rw [Term.reverseOnto_ofList] at back
  constructor
  · rintro ⟨-, same⟩
    rw [Term.sameParts_comm] at same
    exact Term.sameParts_trans same back
  · intro same
    have ground : ∀ x ∈ xs.reverse, x.isGround = true := by simpa using hxs
    have list := Term.lists_ofList ground
    rw [List.length_reverse] at list
    refine ⟨⟨(Term.lists_ofList hxs).of_sameParts (known θ hθ), list.of_sameParts same⟩, ?_⟩
    rw [Term.sameParts_comm] at same
    exact Term.sameParts_trans back same

lemma reverseo_right (known : s.Fixes n b (.ofList xs)) :
    Splits p n (Goal.call (.standard .reverseo) [a, b]) s
      [fun θ => Term.sameParts (θ.apply a) (.ofList xs.reverse) = true] := by
  refine (reverseo hs ha hb hxs (.inr known)).congr_one fun θ hθ => ?_
  rw [known.sameParts_iff hθ]
  constructor
  · rintro ⟨⟨list, -⟩, same⟩
    exact (Term.reverseOnto_nil_iff list).mp same
  · intro same
    have ground : ∀ x ∈ xs.reverse, x.isGround = true := by simpa using hxs
    have list := Term.lists_ofList ground
    rw [List.length_reverse] at list
    have listA := list.of_sameParts same
    exact ⟨⟨listA, (Term.lists_ofList hxs).of_sameParts (known θ hθ)⟩,
      (Term.reverseOnto_nil_iff listA).mpr same⟩

end

end Goal.Splits

/-! ### Queries -/

namespace Query

open Goal.Splits

variable (p : Program) (q : String) {xs ys : List Term}

lemma reverseo_finds_right (hxs : ∀ x ∈ xs, x.isGround = true) :
    (askOne p q (.ask .reverseo [.term (.ofList xs), q])).Finds [.ofList xs.reverse] := by
  have list := Term.isGround_ofList.mpr hxs
  have back : (Term.ofList xs.reverse).isGround = true :=
    Term.isGround_ofList.mpr (by simpa using hxs)
  exact finds_one [()] (fun _ => .ofList xs.reverse) (by simp [Expr.eval, value_ofVars_one])
    (fun _ _ => back) (reverseo_left (p := p) (proper_boundless 1) (known_of_isGround list)
      (known_var (x := ⟨0, some q⟩) Nat.one_pos) hxs (fixes_self list))

lemma reverseo_finds_left (hxs : ∀ x ∈ xs, x.isGround = true) :
    (askOne p q (.ask .reverseo [q, .term (.ofList xs)])).Finds [.ofList xs.reverse] := by
  have list := Term.isGround_ofList.mpr hxs
  have back : (Term.ofList xs.reverse).isGround = true :=
    Term.isGround_ofList.mpr (by simpa using hxs)
  exact finds_one [()] (fun _ => .ofList xs.reverse) (by simp [Expr.eval, value_ofVars_one])
    (fun _ _ => back) (reverseo_right (p := p) (proper_boundless 1)
      (known_var (x := ⟨0, some q⟩) Nat.one_pos) (known_of_isGround list) hxs (fixes_self list))

lemma reverseo_holds (names : List String) (hxs : ∀ x ∈ xs, x.isGround = true)
    (hys : ∀ y ∈ ys, y.isGround = true) :
    (ask p names (.ask .reverseo [.term (.ofList xs), .term (.ofList ys)])).Counts
      (if Term.ofList ys == Term.ofList xs.reverse then 1 else 0) := by
  have left := Term.isGround_ofList.mpr hxs
  have right := Term.isGround_ofList.mpr hys
  have split := reverseo_left (p := p) (proper_boundless names.length) (known_of_isGround left)
    (known_of_isGround right) hxs (fixes_self left)
  refine counts_call [.ofList xs, .ofList ys] (split.congr_one fun θ _ => ?_)
  rw [θ.apply_of_isGround right, Term.beq_eq_sameParts (Term.hasWildcard_of_isGround right)]

lemma finds_lists {r : Standard} {args : List Expr} {ts : List Term} {k : Nat}
    (hr : args.map (Expr.eval (.ofVars [⟨0, some q⟩])) = ts)
    (h : Goal.Splits p 1 (Goal.call (.standard r) ts) (.boundless 1)
      [fun θ => Term.Lists k (θ.value 0)]) :
    (askOne p q (.ask r args)).Finds [.ofList (Term.placeholders k)] := by
  have split : Goal.Splits p 1 (Goal.call (.standard r) ts) (.boundless 1)
      ([()].map fun _ θ => (Term.unknowns k .nil).Shaped (θ.value 0)) := h
  have shape := finds_shapes (f := fun _ => Term.unknowns k .nil) hr
    (fun _ _ => Term.ids_unknowns k rfl) split
  rwa [Term.fill_unknowns_nil] at shape

lemma lists_apply (hxs : ∀ x ∈ xs, x.isGround = true) (θ : Valuation) :
    Term.Lists xs.length (θ.apply (.ofList xs)) := by
  rw [θ.apply_of_isGround (Term.isGround_ofList.mpr hxs)]
  exact Term.lists_ofList hxs

lemma sameLengtho_finds_right (hxs : ∀ x ∈ xs, x.isGround = true) :
    (askOne p q (.ask .sameLengtho [.term (.ofList xs), q])).Finds
      [.ofList (Term.placeholders xs.length)] := by
  have split := sameLengtho_lists (p := p) (proper_boundless 1)
    (known_of_isGround (Term.isGround_ofList.mpr hxs)) (known_var (x := ⟨0, some q⟩) Nat.one_pos)
    (.inl fun θ _ => lists_apply hxs θ)
  exact finds_lists p q (by simp [Expr.eval, value_ofVars_one])
    (split.congr_one fun θ _ => and_iff_right (lists_apply hxs θ))

lemma sameLengtho_finds_left (hxs : ∀ x ∈ xs, x.isGround = true) :
    (askOne p q (.ask .sameLengtho [q, .term (.ofList xs)])).Finds
      [.ofList (Term.placeholders xs.length)] := by
  have split := sameLengtho_lists (p := p) (proper_boundless 1)
    (known_var (x := ⟨0, some q⟩) Nat.one_pos)
    (known_of_isGround (Term.isGround_ofList.mpr hxs)) (.inr fun θ _ => lists_apply hxs θ)
  exact finds_lists p q (by simp [Expr.eval, value_ofVars_one])
    (split.congr_one fun θ _ => and_iff_left (lists_apply hxs θ))

/-- **Lists are reversed either way round.** If one side is a known list, there is one answer for the
other, with its items in reverse order; if both are, there is an answer exactly if one is the other
reversed. What has the length of a known list is, either way round, a list of so many unknown items.
There are no other answers, and then the search ends. -/
theorem reverseo_reverses (p : Program) (q : String) (names : List String) (xs ys : List Term)
    (hxs : ∀ x ∈ xs, x.isGround = true) (hys : ∀ y ∈ ys, y.isGround = true) :
    (askOne p q (.ask .reverseo [.term (.ofList xs), q])).Finds [.ofList xs.reverse] ∧
      (askOne p q (.ask .reverseo [q, .term (.ofList xs)])).Finds [.ofList xs.reverse] ∧
      (ask p names (.ask .reverseo [.term (.ofList xs), .term (.ofList ys)])).Counts
        (if Term.ofList ys == Term.ofList xs.reverse then 1 else 0) ∧
      (askOne p q (.ask .sameLengtho [.term (.ofList xs), q])).Finds
        [.ofList ((List.range xs.length).map .placeholder)] ∧
      (askOne p q (.ask .sameLengtho [q, .term (.ofList xs)])).Finds
        [.ofList ((List.range xs.length).map .placeholder)] :=
  ⟨reverseo_finds_right p q hxs, reverseo_finds_left p q hxs, reverseo_holds p names hxs hys,
    sameLengtho_finds_right p q hxs, sameLengtho_finds_left p q hxs⟩

/-- The list of one and two, reversed, and compared with itself. -/
theorem reverseo_reverses_two :
    let two : Term := .ofList [.nat 1, .nat 2]
    let reversed : Term := .ofList [.nat 2, .nat 1]
    (∀ t ∈ [Term.nat 1, .nat 2], t.isGround = true) ∧
      (askOne .empty "q" (.ask .reverseo [.term two, "q"])).Finds [reversed] ∧
      (askOne .empty "q" (.ask .reverseo ["q", .term two])).Finds [reversed] ∧
      (ask .empty [] (.ask .reverseo [.term two, .term two])).Counts 0 ∧
      (askOne .empty "q" (.ask .sameLengtho ["q", .term two])).Finds
        [.ofList [.placeholder 0, .placeholder 1]] := by
  intro two reversed
  have ground : ∀ t ∈ [Term.nat 1, .nat 2], t.isGround = true := by decide
  obtain ⟨right, left, both, -, length⟩ :=
    reverseo_reverses .empty "q" [] [.nat 1, .nat 2] [.nat 1, .nat 2] ground ground
  exact ⟨ground, right, left, both, length⟩

end Query

end Relational
