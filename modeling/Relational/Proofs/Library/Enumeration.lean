import Relational.Proofs.Library.Append
import Relational.Proofs.Library.Numbers
import Relational.Proofs.Query.Shapes

/-!
Relations that go on for ever when they are asked for what is not known: numbers, the first of two
lists, and lists with a known item. Their first clause has one answer, which is there before the
second clause shows anything; and that clause asks again, for a part of what was asked for. So the
answers come in the order of their sizes.
-/

namespace Relational

open State Subst Goal

lemma Term.exists_joined {k : Nat} {u v : Term} (hv : v.isGround = true) :
    (∃ w, w.isGround = true ∧ Joined k u v w) ↔ (unknowns k .nil).Shaped u := by
  rw [shaped_unknowns_nil]
  constructor
  · rintro ⟨w, -, xs, length, ground, list, -⟩
    exact ⟨xs, length, ground, list⟩
  · rintro ⟨xs, length, ground, list⟩
    exact ⟨listThen xs v, isGround_listThen.mpr ⟨ground, hv⟩, xs, length, ground, list,
      sameParts_refl _⟩

namespace Goal.Splits

variable {ι : Type} {p : Program} {m n : Nat} {s : State} {a b c g : Term} {is : List ι}
  {D D' : Burst Pending State → List State → Prop}

/-! ### Numbers -/

lemma numbero_goal (a : Term) : Standard.numbero.goal [a] =
    Goal.disj2 (Goal.eq (.nat 0) a) (Goal.freshNamed ["a"] fun
      | [x] => Goal.conj2 (Goal.call (.standard .inco) [.var x, a])
          (Goal.call (.standard .numbero) [.var x])
      | _ => Goal.fail) := rfl

/-- One step: `a` is zero, or it comes right after a number, which is a new variable. -/
lemma numbero_told (acc : Burst.Account p.unfold D D') (hs : s.Proper n) (ha : Known n a)
    (is : List ι) (R : ι → Term → Prop)
    (rest : ∀ name t, Narrows (s.next + 1) (fun θ =>
        Term.sameParts (.succ (θ.value s.next)) (θ.apply a) = true) (s.advance 1) t →
      Tells D (s.next + 1) (Goal.call (.standard .numbero) [.var ⟨s.next, name⟩]) t
        (is.map fun i θ => R i (θ.value s.next))) :
    Tells D' n (Goal.call (.standard .numbero) [a]) s
      ((fun θ => θ.apply a = .nat 0) :: is.map fun i θ =>
        ∃ v, v.isGround = true ∧ Term.sameParts (.succ v) (θ.apply a) = true ∧ R i v) := by
  have body := Tells.conj2_one acc (inco_fresh (p := p) hs ha (some "a"))
    fun t ht => rest (some "a") t ht
  have split : Tells D' n (Goal.call (.standard .numbero) [a]) s
      ((fun θ => θ.apply a = .nat 0) :: is.map fun i θ => ∃ vs : Fin 1 → Term,
        (∀ j, (vs j).isGround = true) ∧
          Term.sameParts (.succ (vs 0)) (θ.apply a) = true ∧ R i (vs 0)) := by
    refine Tells.call acc (by simp [ha.1]) (numbero_goal a) ?_
    refine Tells.disj2 acc (eq_nat hs ha 0) (ends_eq _ _)
      (.freshNamed fun _ => (silent_call_zero _ _).conj2_left) ?_
    refine Tells.freshNamed acc rfl hs ?_ body
    intro i _ θ η agree vs h
    rwa [agree.apply_eq ha.2] at h
  exact split.congr_cons (fun _ _ => .rfl) fun i _ θ _ =>
    exists_one (F := fun v => Term.sameParts (.succ v) (θ.apply a) = true ∧ R i v)

/-- The search begins with all numbers in their order. -/
lemma numbero_begins (hs : s.Proper n) (ha : Known n a) (m : Nat) :
    Begins p m n (Goal.call (.standard .numbero) [a]) s
      ((List.range m).map fun i θ => θ.apply a = .nat i) := by
  induction m generalizing n s a with
  | zero => exact begins_zero _ _
  | succ m ih =>
    rw [List.range_succ_eq_map, List.map_cons, List.map_map]
    refine (numbero_told (Burst.account_begins m) hs ha (List.range m) (fun i v => v = .nat i)
      fun _ t ht => ih ht.proper (known_var (Nat.lt_succ_self s.next))).congr_cons
        (fun _ _ => .rfl) ?_
    intro i _ θ _
    constructor
    · rintro ⟨v, -, same, rfl⟩
      exact Term.succ_nat_sameParts.mp same
    · intro here
      exact ⟨.nat i, Term.isGround_nat i, Term.succ_nat_sameParts.mpr here, rfl⟩

lemma numbero_last (hs : s.Proper n) (ha : Known n a) (hg : ∀ d, g ≠ .succ d)
    (known : s.Fixes n a g) : Splits p n (Goal.call (.standard .numbero) [a]) s
      [fun _ => ∃ m, g = .nat m] := by
  have split : Splits p n (Goal.call (.standard .numbero) [a]) s [fun θ => θ.apply a = .nat 0] :=
    numbero_told Burst.account_gives hs ha [] (fun (_ : Unit) _ => True) fun _ t ht => by
      obtain ⟨θ, hθ, next⟩ := ht.exists_allows
      have whole := Term.sameParts_trans next (known θ (hs.allows_of_fresh hθ))
      obtain ⟨d, succ, -⟩ := Term.succ_sameParts.mp whole
      exact absurd succ (hg d)
  refine split.congr_one fun θ hθ => ?_
  rw [← Term.nat_sameParts, known.sameParts_iff hθ, Term.nat_sameParts]
  refine ⟨fun zero => ⟨0, zero⟩, ?_⟩
  rintro ⟨_ | m, number⟩
  · exact number
  · exact absurd number (hg _)

lemma numbero_known (hs : s.Proper n) (ha : Known n a) (hg : g.isGround = true)
    (known : s.Fixes n a g) : Splits p n (Goal.call (.standard .numbero) [a]) s
      [fun _ => ∃ m, g = .nat m] := by
  induction g generalizing n s a with
  | succ d ih =>
    have split : Splits p n (Goal.call (.standard .numbero) [a]) s
        ((fun θ => θ.apply a = .nat 0) :: [()].map fun _ θ => ∃ v, v.isGround = true ∧
          Term.sameParts (.succ v) (θ.apply a) = true ∧ ∃ m, d = .nat m) :=
      numbero_told Burst.account_gives hs ha [()] (fun _ _ => ∃ m, d = .nat m) fun _ t ht => by
        refine ih ht.proper (known_var (Nat.lt_succ_self s.next)) hg fun θ hθ => ?_
        obtain ⟨old, next⟩ := (ht.allows_iff θ).mp hθ
        have whole : Term.sameParts (.succ (θ.value s.next)) (.succ d) = true :=
          Term.sameParts_trans next (known θ (hs.allows_of_fresh old))
        exact whole
    refine (split.drop fun θ hθ zero => ?_).congr_one fun θ hθ => ⟨?_, ?_⟩
    · have same := known θ hθ
      rw [zero] at same
      cases same
    · rintro ⟨-, -, -, m, rfl⟩
      exact ⟨m + 1, rfl⟩
    · rintro ⟨_ | m, number⟩
      · cases number
      · refine ⟨d, hg, ?_, m, Term.succ.inj number⟩
        rw [known.sameParts_iff hθ]
        exact Term.sameParts_refl _
  | _ => exact numbero_last hs ha (fun _ => Term.noConfusion) known

/-! ### Lists of all lengths -/

lemma Tails.joined {m : Nat} {r q : Term} {t : State} (h : Tails n s a c m r q t) (hb : Known n b)
    (far : ∀ k, ∃ θ, s.Allows n θ ∧ Term.Joined k (θ.apply a) (θ.apply b) (θ.apply c)) (k : Nat) :
    ∃ θ, t.Allows m θ ∧ Term.Joined k (θ.apply r) (θ.apply b) (θ.apply q) := by
  obtain ⟨θ, hθ, joined⟩ := far (k + 1)
  obtain ⟨x, d, e, hx, hd, he, pairs, rest⟩ :=
    (Term.joined_succ (θ.isGround_apply hb.1)).mp joined
  obtain ⟨η, hη, agree, atR, atQ⟩ := h.exists_allows θ hθ d e hd he ⟨x, hx, pairs⟩
  refine ⟨η, hη, ?_⟩
  rwa [atR, atQ, ← agree.apply_eq hb.2]

/-- If there is an outcome for each length of the first list, the search begins with those lengths
in their order. -/
lemma appendo_begins (hs : s.Proper n) (ha : Known n a) (hb : Known n b) (hc : Known n c)
    (far : ∀ k, ∃ θ, s.Allows n θ ∧ Term.Joined k (θ.apply a) (θ.apply b) (θ.apply c)) (m : Nat) :
    Begins p m n (Goal.call (.standard .appendo) [a, b, c]) s
      ((List.range m).map fun i θ => Term.Joined i (θ.apply a) (θ.apply b) (θ.apply c)) := by
  induction m generalizing n s a c with
  | zero => exact begins_zero _ _
  | succ m ih =>
    rw [List.range_succ_eq_map, List.map_cons, List.map_map]
    refine (appendo_told hs ha hb hc (Burst.account_begins m) (List.range m)
      (fun i θ v w => Term.Joined i v (θ.apply b) w) (.inr (.inr far)) (fun i _ θ η agree v w h => ?_)
      fun m' r q t h => ih h.proper h.left (h.known hb) h.right (h.joined hb far)).congr_cons
      (fun θ _ => Term.joined_zero.symm)
      fun i _ θ _ => (Term.joined_succ (θ.isGround_apply hb.1)).symm
    rwa [agree.apply_eq hb.2] at h

/-! ### Lists with a known item -/

lemma membero_goal (a b : Term) : Standard.membero.goal [a, b] =
    Goal.disj2 (Goal.call (.standard .firsto) [a, b]) (Goal.freshNamed ["rest"] fun
      | [r] => Goal.conj2 (Goal.call (.standard .resto) [.var r, b])
          (Goal.call (.standard .membero) [a, .var r])
      | _ => Goal.fail) := rfl

lemma firsto_goal (a b : Term) : Standard.firsto.goal [a, b] =
    Goal.freshNamed ["rest"] fun
      | [r] => Goal.call (.standard .conso) [a, .var r, b]
      | _ => Goal.fail := rfl

lemma resto_goal (a b : Term) : Standard.resto.goal [a, b] =
    Goal.freshNamed ["first"] fun
      | [f] => Goal.call (.standard .conso) [.var f, a, b]
      | _ => Goal.fail := rfl

lemma firsto (hs : s.Proper n) (ha : Known n a) (hb : Known n b) (hg : g.isGround = true)
    (known : s.Fixes n a g) : Splits p n (Goal.call (.standard .firsto) [a, b]) s
      [fun θ => ∃ d, d.isGround = true ∧
        Term.sameParts (.pair (θ.apply a) d) (θ.apply b) = true] := by
  let r : Var := ⟨s.next, some "rest"⟩
  have new : Known (s.next + 1) (.var r) := known_var (by simp [r])
  have ha' := hs.known ha 1
  have hb' := hs.known hb 1
  have pair : Known (s.next + 1) (.pair a (.var r)) :=
    ⟨by rw [Term.hasWildcard, ha.1]; rfl, Term.below_pair.mpr ⟨ha'.2, new.2⟩⟩
  have item : Ranges (s.next + 1) (s.advance 1) g a (.pair (.var r) b) :=
    Fixes.ranges (fun θ hθ => known θ (hs.allows_of_fresh hθ)) hg
  have tail : Ranges (s.next + 1) (s.advance 1) (.wildcard 0) (.var r) (.pair a b) := by
    refine (leaves_fresh hs (Nat.le_refl _)).ranges (x := r) ?_ 0
    rw [Term.ids_pair, List.mem_append, not_or]
    exact ⟨hs.notMem ha (Nat.le_refl _), hs.notMem hb (Nat.le_refl _)⟩
  have body := conso (p := p) (hs.fresh 1) ha' new hb'
    ((item.pair tail).decided (hs.fresh 1) pair hb')
  have split : Splits p n (Standard.firsto.goal [a, b]) s [fun θ => ∃ vs : Fin 1 → Term,
      (∀ j, (vs j).isGround = true) ∧
        Term.sameParts (.pair (θ.apply a) (vs 0)) (θ.apply b) = true] := by
    rw [firsto_goal]
    refine freshNamed_one rfl hs (fun θ η agree vs h => ?_) body
    rwa [agree.apply_eq ha.2, agree.apply_eq hb.2] at h
  exact (call (by simp [ha.1, hb.1]) rfl split).congr_one fun θ _ =>
    exists_one (F := fun d => Term.sameParts (.pair (θ.apply a) d) (θ.apply b) = true)

lemma resto (hs : s.Proper n) (hb : Known n b) (name : Option String) :
    Splits p (s.next + 1) (Goal.call (.standard .resto) [.var ⟨s.next, name⟩, b])
      (s.advance 1) [fun θ => ∃ u, u.isGround = true ∧
        Term.sameParts (.pair u (θ.value s.next)) (θ.apply b) = true] := by
  let f : Var := ⟨s.next + 1, some "first"⟩
  let r : Var := ⟨s.next, name⟩
  have hb' := hs.known hb 1
  have next : (s.advance 1).next = s.next + 1 := hs.number 1
  have body := conso_free (p := p) (x := f) (y := r) (hs.fresh 2)
    (hs.known hb 2) (by simp [f]) (by simp only [r]; omega) (leaves_fresh hs (k := 2) (Nat.le_succ _))
    (leaves_fresh hs (k := 2) (Nat.le_refl _)) (by simp [f, r]) (hs.notMem hb (Nat.le_succ _))
    (hs.notMem hb (Nat.le_refl _))
  have split : Splits p (s.next + 1) (Standard.resto.goal [.var r, b]) (s.advance 1)
      [fun θ => ∃ vs : Fin 1 → Term, (∀ j, (vs j).isGround = true) ∧
        Term.sameParts (.pair (vs 0) (θ.value s.next)) (θ.apply b) = true] := by
    rw [resto_goal]
    refine freshNamed_one rfl (hs.fresh 1) (fun θ η agree vs h => ?_) ?_
    · rwa [agree s.next (Nat.lt_succ_self _), agree.apply_eq hb'.2] at h
    · rw [next, advance_advance]
      exact body
  exact (call (by simp [hb.1, Term.hasWildcard]) rfl split).congr_one fun θ _ =>
    exists_one (F := fun u => Term.sameParts (.pair u (θ.value s.next)) (θ.apply b) = true)

/-- Both clauses make two calls one after the other before they show a state. -/
lemma membero_silent (ha : a.hasWildcard = false) (hb : b.hasWildcard = false) :
    Silent p 2 (Goal.call (.standard .membero) [a, b]) := by
  refine .call (by simp [ha, hb]) (membero_goal a b) (.disj2 ?_ (.freshNamed fun s => ?_))
  · exact .call (by simp [ha, hb]) (firsto_goal a b) (.freshNamed fun _ => silent_call_zero _ _)
  · refine .conj2_left (.call (by simp [hb, Term.hasWildcard]) (resto_goal _ b) ?_)
    exact .freshNamed fun _ => silent_call_zero _ _

lemma silent_rest (ha : a.hasWildcard = false) : Silent p 2 (Goal.freshNamed ["rest"] fun
    | [r] => Goal.conj2 (Goal.call (.standard .resto) [.var r, b])
        (Goal.call (.standard .membero) [a, .var r])
    | _ => Goal.fail) := .freshNamed fun _ => .conj2_right (membero_silent ha rfl)

lemma ends_firsto (ha : a.hasWildcard = false) (hb : b.hasWildcard = false) :
    Ends p 2 (Goal.call (.standard .firsto) [a, b]) :=
  .call (by simp [ha, hb]) (firsto_goal a b) <| .freshNamed fun _ =>
    .call (by simp [ha, hb, Term.hasWildcard]) rfl (ends_eq _ _)

/-- One step: `b` is a pair of `a` and something, or of something and a term with the item `a`,
which is a new variable. -/
lemma membero_told (acc : Burst.Account p.unfold D D') (hs : s.Proper n) (ha : Known n a)
    (hb : Known n b) (hg : g.isGround = true) (known : s.Fixes n a g) (is : List ι)
    (R : ι → Term → Prop)
    (rest : ∀ name t, Narrows (s.next + 1) (fun θ => ∃ u, u.isGround = true ∧
        Term.sameParts (.pair u (θ.value s.next)) (θ.apply b) = true) (s.advance 1) t →
      Tells D (s.next + 1) (Goal.call (.standard .membero) [a, .var ⟨s.next, name⟩]) t
        (is.map fun i θ => R i (θ.value s.next))) :
    Tells D' n (Goal.call (.standard .membero) [a, b]) s
      ((fun θ => ∃ d, d.isGround = true ∧
          Term.sameParts (.pair (θ.apply a) d) (θ.apply b) = true) ::
        is.map fun i θ => ∃ d, d.isGround = true ∧
          (∃ u, u.isGround = true ∧ Term.sameParts (.pair u d) (θ.apply b) = true) ∧ R i d) := by
  have body := Tells.conj2_one acc (resto (p := p) hs hb (some "rest")) fun t ht => rest (some "rest") t ht
  have split : Tells D' n (Goal.call (.standard .membero) [a, b]) s
      ((fun θ => ∃ d, d.isGround = true ∧
          Term.sameParts (.pair (θ.apply a) d) (θ.apply b) = true) ::
        is.map fun i θ => ∃ vs : Fin 1 → Term, (∀ j, (vs j).isGround = true) ∧
          (∃ u, u.isGround = true ∧ Term.sameParts (.pair u (vs 0)) (θ.apply b) = true) ∧
            R i (vs 0)) := by
    refine Tells.call acc (by simp [ha.1, hb.1]) (membero_goal a b) ?_
    refine Tells.disj2 acc (firsto hs ha hb hg known) (ends_firsto ha.1 hb.1) (silent_rest ha.1) ?_
    refine Tells.freshNamed acc rfl hs ?_ body
    intro i _ θ η agree vs h
    rwa [agree.apply_eq hb.2] at h
  exact split.congr_cons (fun _ _ => .rfl) fun i _ θ _ => exists_one (F := fun d =>
    (∃ u, u.isGround = true ∧ Term.sameParts (.pair u d) (θ.apply b) = true) ∧ R i d)

/-- The search begins with the places that a known item can have, in their order. -/
lemma membero_begins (hs : s.Proper n) (ha : Known n a) (hb : Known n b) (hg : g.isGround = true)
    (known : s.Fixes n a g) (m : Nat) : Begins p m n (Goal.call (.standard .membero) [a, b]) s
      ((List.range m).map fun i θ =>
        (Term.unknowns i (.pair g (.wildcard 0))).Shaped (θ.apply b)) := by
  induction m generalizing n s b with
  | zero => exact begins_zero _ _
  | succ m ih =>
    rw [List.range_succ_eq_map, List.map_cons, List.map_map]
    refine (membero_told (Burst.account_begins m) hs ha hb hg known (List.range m)
      (fun i => (Term.unknowns i (.pair g (.wildcard 0))).Shaped) fun name t ht => ?_).congr_cons
      (fun θ hθ => ?_) fun i _ θ _ => ⟨?_, ?_⟩
    · refine ih ht.proper (hs.known ha 1) (known_var (Nat.lt_succ_self s.next)) fun θ hθ => ?_
      exact known θ (hs.allows_of_fresh ((ht.allows_iff θ).mp hθ).1)
    · refine Iff.trans ?_ (Term.shaped_pair_wildcard hg).symm
      refine exists_congr fun d => and_congr_right fun _ => ⟨Term.sameParts_trans ?_, ?_⟩
      · rw [Term.sameParts_comm]
        exact Bool.and_eq_true_iff.mpr ⟨known θ hθ, Term.sameParts_refl d⟩
      · exact Term.sameParts_trans (Bool.and_eq_true_iff.mpr ⟨known θ hθ, Term.sameParts_refl d⟩)
    · rintro ⟨d, hd, ⟨u, hu, pair⟩, later⟩
      exact Term.shaped_unknowns_succ.mpr ⟨u, d, hu, hd, pair, later⟩
    · intro shaped
      obtain ⟨u, d, hu, hd, pair, later⟩ := Term.shaped_unknowns_succ.mp shaped
      exact ⟨d, hd, ⟨u, hu, pair⟩, later⟩

end Goal.Splits

/-! ### Queries -/

namespace Query

open Goal.Splits

variable (p : Program)

lemma numbero_enumerates (q : String) : (askOne p q (.ask .numbero [q])).Enumerates .nat := by
  have enumerates := enumerates_shapes (p := p) (x := q) (φ := .ask .numbero [q]) (f := .nat)
    (fun i => Term.ids_of_isGround (Term.isGround_nat i)) fun m => by
      have begins := numbero_begins (p := p) (proper_boundless 1)
        (known_var (x := ⟨0, some q⟩) Nat.one_pos) m
      have goal : (Formula.ask .numbero [q]).goal (.ofVars [⟨0, some q⟩]) =
          Goal.call (.standard .numbero) [.var ⟨0, some q⟩] :=
        congrArg (fun t => Goal.call (.standard .numbero) [t]) (value_ofVars_one q)
      rw [goal]
      refine begins.congr_map fun i _ θ _ => ?_
      rw [Term.shaped_of_isGround (Term.isGround_nat i), Term.sameParts_nat]
      rfl
  simpa [termFill_of_hasWildcard] using enumerates

lemma numbero_holds (names : List String) {t : Term} (ht : t.isGround = true) :
    (ask p names (.ask .numbero [.term t])).Counts (if t.asNat?.isSome then 1 else 0) := by
  have split := numbero_known (p := p) (proper_boundless names.length) (known_of_isGround ht) ht
    (fixes_self ht)
  refine counts_call (p := p) [t] (split.congr_one fun θ _ => ?_)
  rw [Option.isSome_iff_exists]
  exact exists_congr fun m => Term.asNat?_eq_some.symm

lemma membero_enumerates (q : String) {v : Term} (hv : v.isGround = true) :
    (askOne p q (.ask .membero [.term v, q])).Enumerates fun n =>
      .listThen ((List.range n).map .placeholder ++ [v]) (.placeholder n) := by
  have noWildcard := Term.hasWildcard_of_isGround hv
  have noIds (i : Nat) : (Term.unknowns i (.pair v (.wildcard 0))).ids = [] :=
    Term.ids_unknowns i (by rw [Term.ids_pair, Term.ids_of_isGround hv]; rfl)
  have enumerates := enumerates_shapes (p := p) (x := q) (φ := .ask .membero [.term v, q])
    noIds fun m => by
      have begins := membero_begins (p := p) (proper_boundless 1) (known_of_isGround hv)
        (known_var (x := ⟨0, some q⟩) Nat.one_pos) hv (fixes_self hv) m
      have goal : (Formula.ask .membero [.term v, q]).goal (.ofVars [⟨0, some q⟩]) =
          Goal.call (.standard .membero) [v, .var ⟨0, some q⟩] :=
        congrArg (fun t => Goal.call (.standard .membero) [v, t]) (value_ofVars_one q)
      rw [goal]
      exact begins
  have filled (i : Nat) : (Term.unknowns i (.pair v (.wildcard 0))).fill
      (Term.placeholders (Term.unknowns i (.pair v (.wildcard 0))).wildcards) =
        .listThen ((List.range i).map .placeholder ++ [v]) (.placeholder i) := by
    have count : (Term.unknowns i (.pair v (.wildcard 0))).wildcards = i + 1 := by
      simp [Term.wildcards_eq_zero noWildcard, Term.wildcards]
    rw [count, Term.placeholders, List.range_succ, List.map_append, Term.fill_unknowns (by simp),
      Term.fill, termFill_of_hasWildcard noWildcard, Term.wildcards_eq_zero noWildcard]
    simp [Term.listThen, Term.fill]
  simpa only [filled] using enumerates

lemma exists_joined {x y : String} {l : Term} (hl : l.isGround = true) (k : Nat) :
    ∃ θ : Valuation, (State.boundless 2).Allows 2 θ ∧
      Term.Joined k (θ.apply (.var ⟨0, some x⟩)) (θ.apply l) (θ.apply (.var ⟨1, some y⟩)) := by
  obtain ⟨u, hu⟩ := Term.exists_fills (Term.ids_unknowns k (t := .nil) rfl)
  obtain ⟨w, hw, joined⟩ := (Term.exists_joined hl).mpr ⟨u, hu, Term.sameParts_refl u⟩
  have ground (j : Nat) : (if j = 0 then u else w).isGround = true := by
    split
    · exact hu.isGround
    · exact hw
  refine ⟨⟨fun j => if j = 0 then u else w, ground⟩, allows_boundless .., ?_⟩
  rwa [Valuation.apply_of_isGround _ hl]

lemma appendo_enumerates {q rest : String} (apart : q ≠ rest) {l : Term} (hl : l.isGround = true) :
    (askOne p q (.freshNamed [rest] [.ask .appendo [q, .term l, rest]])).Enumerates fun n =>
      .ofList (Term.placeholders n) := by
  let env : Env := .ofVars [⟨0, some q⟩]
  let inside (xs : List Var) : Goal Pending :=
    (Formula.ask .appendo [q, .term l, rest]).goal (env.bindAll [rest] (xs.map .var))
  have goal : inside [⟨1, some rest⟩] =
      Goal.call (.standard .appendo) [.var ⟨0, some q⟩, l, .var ⟨1, some rest⟩] := by
    have args : ([q, .term l, rest] : List Expr).map
        (Expr.eval (env.bindAll [rest] [.var ⟨1, some rest⟩])) =
          [.var ⟨0, some q⟩, l, .var ⟨1, some rest⟩] := by
      simp [env, Expr.eval, Env.bindAll, Env.bind, Env.ofVars, apart]
    exact congrArg (Goal.call (.standard .appendo)) args
  have body (m : Nat) : Goal.Begins p m 2 (inside [⟨1, some rest⟩]) (.boundless 2)
      ((List.range m).map fun i θ => Term.Joined i (θ.value 0) (θ.apply l) (θ.value 1)) := by
    rw [goal]
    exact appendo_begins (p := p) (proper_boundless 2) (known_var (x := ⟨0, some q⟩) Nat.two_pos)
      (known_of_isGround hl) (known_var (x := ⟨1, some rest⟩) Nat.one_lt_two) (exists_joined hl) m
  have enumerates := enumerates_shapes (p := p) (x := q)
    (φ := .freshNamed [rest] [.ask .appendo [q, .term l, rest]])
    (f := fun i => .unknowns i .nil) (fun i => Term.ids_unknowns i rfl) fun m => by
      have opened : Goal.Begins p m 1 (Goal.freshNamed [rest] inside) (.boundless 1)
          ((List.range m).map fun i θ => ∃ vs : Fin 1 → Term, (∀ j, (vs j).isGround = true) ∧
            Term.Joined i (θ.value 0) (θ.apply l) (vs 0)) := by
        refine Tells.freshNamed (Burst.account_begins m) rfl (proper_boundless 1) ?_ ?_
        · intro i _ θ η agree vs h
          rwa [agree 0 Nat.one_pos, θ.apply_of_isGround hl, ← η.apply_of_isGround hl] at h
        · rw [advance_boundless]
          exact body m
      refine opened.congr_map fun i _ θ _ => ?_
      rw [θ.apply_of_isGround hl]
      exact exists_one.trans (Term.exists_joined hl)
  simpa only [Term.fill_unknowns_nil] using enumerates

/-- **What is not known is enumerated by its size.** Asked for numbers, the search gives all of them
in their order. Asked for the first of two lists, of which the second is known, it gives the lists of
unknown items, each a length longer; and asked for the lists with a known item, it gives each place
that it can have, with unknown items before it and an open tail. Each answer is there after finitely
many forced suspensions. Of a known term it is decided whether it is a number, and then the search
ends. -/
theorem open_relations_enumerate (p : Program) (q rest : String) (names : List String)
    (l v t : Term) (apart : q ≠ rest) (hl : l.isGround = true) (hv : v.isGround = true)
    (ht : t.isGround = true) :
    (askOne p q (.ask .numbero [q])).Enumerates .nat ∧
      (askOne p q (.freshNamed [rest] [.ask .appendo [q, .term l, rest]])).Enumerates
        (fun n => .ofList ((List.range n).map .placeholder)) ∧
      (askOne p q (.ask .membero [.term v, q])).Enumerates
        (fun n => .listThen ((List.range n).map .placeholder ++ [v]) (.placeholder n)) ∧
      (ask p names (.ask .numbero [.term t])).Counts (if t.asNat?.isSome then 1 else 0) :=
  ⟨numbero_enumerates p q, appendo_enumerates p apart hl, membero_enumerates p q hv,
    numbero_holds p names ht⟩

/-- Lists before the list of two, and lists with the item one; the successor of that list is not a
number. -/
theorem open_relations_enumerate_one :
    let two : Term := .ofList [.nat 2]
    "q" ≠ "rest" ∧ two.isGround = true ∧ (Term.nat 1).isGround = true ∧
      (Term.succ two).isGround = true ∧
      (askOne .empty "q" (.freshNamed ["rest"] [.ask .appendo ["q", .term two, "rest"]])).Enumerates
        (fun n => .ofList ((List.range n).map .placeholder)) ∧
      (askOne .empty "q" (.ask .membero [.term (.nat 1), "q"])).Enumerates
        (fun n => .listThen ((List.range n).map .placeholder ++ [.nat 1]) (.placeholder n)) ∧
      (ask .empty [] (.ask .numbero [.term (.succ two)])).Counts 0 := by
  intro two
  have apart : "q" ≠ "rest" := by decide
  obtain ⟨-, lists, places, number⟩ :=
    open_relations_enumerate .empty "q" "rest" [] two (.nat 1) (.succ two) apart rfl rfl rfl
  exact ⟨apart, rfl, rfl, rfl, lists, places, number⟩

end Query

end Relational
