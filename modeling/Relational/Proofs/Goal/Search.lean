import Relational.Proofs.Goal.Holds
import Relational.Proofs.Goal.Tidy
import Relational.Proofs.Subst.Solutions

/-!
The search against what formulas say. A state that is given has only solutions under which the
formula holds; and where the formula holds under a solution, the search gives, sooner or later, a
state with that solution.
-/

namespace Relational

open State Formula

variable {p : Program} {θ η : Valuation} {env : Env} {φ : Formula} {s t : State}

/-! ### Soundness -/

/-- The state `t` has no wildcards if `s` has none, and solutions only from `s`, and only such
that the formula holds. -/
structure Formula.Sound (p : Program) (env : Env) (φ : Formula) (s t : State) : Prop where
  wildcardFree : t.subst.WildcardFree
  solves {θ : Valuation} (h : θ.Solves t.subst) : θ.Solves s.subst
  holds {θ : Valuation} (h : θ.Solves t.subst) : φ.Holds p θ env

lemma Formula.Reaches.sound (h : φ.Reaches p env s t) (hs : s.subst.WildcardFree)
    (hφ : φ.plain = true) (hp : p.plain = true) : Sound p env φ s t := by
  induction h with
  | @eq env u v u' v' s s₁ s₂ w hu hv hw =>
    have same : s₂.subst = s.subst := (fillWildcards_subst hv).trans (fillWildcards_subst hu)
    have plain : Subst.Plain s₂.subst u' v' :=
      ⟨same ▸ hs, hasWildcard_fillWildcards hu, hasWildcard_fillWildcards hv⟩
    have run := Subst.unifies_of_unify? hw
    have before {θ : Valuation} (hθ : θ.Solves w) := (run.solves_iff plain).mpr ⟨w, rfl, hθ⟩
    refine ⟨run.wildcardFree plain w rfl, fun hθ => same ▸ (before hθ).1, fun {θ} hθ => ?_⟩
    refine .eq (fills_fillWildcards hu θ) (fills_fillWildcards hv θ) ?_
    rw [Valuation.beq_apply plain.left]
    exact (before hθ).2
  | succeed => exact ⟨hs, id, fun _ => .succeed⟩
  | alwayso => exact ⟨hs, id, fun _ => .alwayso⟩
  | delay _ ih =>
    have h := ih hs hφ
    exact ⟨h.wildcardFree, h.solves, fun hθ => .delay (h.holds hθ)⟩
  | conj2 _ _ ihg ihh =>
    rw [plain, Bool.and_eq_true] at hφ
    have hg := ihg hs hφ.1
    have hh := ihh hg.wildcardFree hφ.2
    exact ⟨hh.wildcardFree, fun hθ => hg.solves (hh.solves hθ),
      fun hθ => .conj2 (hg.holds (hh.solves hθ)) (hh.holds hθ)⟩
  | left _ ih =>
    rw [plain, Bool.and_eq_true] at hφ
    have h := ih hs hφ.1
    exact ⟨h.wildcardFree, h.solves, fun hθ => .left (h.holds hθ)⟩
  | right _ ih =>
    rw [plain, Bool.and_eq_true] at hφ
    have h := ih hs hφ.2
    exact ⟨h.wildcardFree, h.solves, fun hθ => .right (h.holds hθ)⟩
  | @fresh env named names body xs s s' t hx _ _ ih =>
    have same := freshVars_subst hx
    have h := ih (same ▸ hs) hφ
    refine ⟨h.wildcardFree, fun hθ => same ▸ h.solves hθ, fun {θ} hθ => ?_⟩
    refine .fresh (isGround_values xs) ?_ ((h.holds hθ).values ?_)
    · simp [length_freshVars hx]
    · simp [Term.hasWildcard]
  | @freshDyn env arity shown names body xs s s' t _ hx _ _ ih =>
    rw [plain, Bool.and_eq_true] at hφ
    have same := freshVars_subst hx
    have h := ih (same ▸ hs) hφ.2
    refine ⟨h.wildcardFree, fun hθ => same ▸ h.solves hθ, fun {θ} hθ => ?_⟩
    refine .freshDyn (isGround_values xs) ?_ ((h.holds hθ).values ?_)
    · simp [length_freshVars hx]
    · simp [Term.hasWildcard]
  | everyg => simp [plain] at hφ
  | someg => simp [plain] at hφ
  | @call env r rel args ts s s' t hr ha _ _ ih =>
    have same := fillAll_subst ha
    have h := ih (same ▸ hs) (p.plain_find? hp hr)
    refine ⟨h.wildcardFree, fun hθ => same ▸ h.solves hθ, fun {θ} hθ => ?_⟩
    refine .call hr ?_ ((h.holds hθ).values (hasWildcard_fillAll ha))
    rw [← Function.comp_def, ← List.map_map]
    exact fills_fillAll ha θ

/-! ### Completeness -/

lemma Valuation.Solves.change {s : Subst} {n : Nat} (h : θ.Solves s) (hs : s.Below n)
    (hη : θ.AgreesBelow η n) : η.Solves s := by
  intro x t hx
  obtain ⟨hid, ht⟩ := hs x t hx
  rw [← hη.apply_eq ht, ← hη.apply_eq (Term.below_var.mpr hid)]
  exact h x t hx

/-- A search on the way to a derivation. Its valuation `η` solves the state and gives its terms
the values that those of the derivation have under `θ`; both have the variables written in the
program and the formula in common, which come below `k`. -/
structure Formula.Tracks (p : Program) (θ : Valuation) (env : Env) (k : Nat) (η : Valuation)
    (env' : Env) (φ : Formula) (s : State) : Prop where
  tidy : s.Tidy
  below : env'.Below s.next
  written : φ.Below k
  program : p.Below k
  start : k ≤ s.next
  agrees : θ.AgreesBelow η k
  scope : Env.Agree θ env η env'
  solves : η.Solves s.subst

namespace Formula

variable {env' : Env} {k : Nat} {ζ : Valuation}

/-- The search goes on from an extended state, under a valuation that differs on new variables
only. -/
lemma Tracks.later (h : Tracks p θ env k η env' φ s) (ht : Extends s t)
    (hζ : η.AgreesBelow ζ s.next) (hs : ζ.Solves t.subst) : Tracks p θ env k ζ env' φ t where
  tidy := ht.tidy
  below := h.below.mono ht.next
  written := h.written
  program := h.program
  start := Nat.le_trans h.start ht.next
  agrees := h.agrees.trans hζ h.start
  scope := h.scope.change hζ h.below
  solves := hs

lemma Tracks.advance {n : Nat} (h : Tracks p θ env k η env' φ s) (room : s.HasRoom n)
    (hζ : η.AgreesBelow ζ s.next) : Tracks p θ env k ζ env' φ (s.advance n) :=
  h.later (h.tidy.advance room) hζ (h.solves.change h.tidy.below hζ)

/-- The search goes on inside a binder, whose names stand for new variables there and for ground
terms in the derivation. -/
lemma Tracks.bound {shown : Option (List String)} {ts : List Term} {xs : List Var}
    (h : Tracks p θ env k η env' φ s) (names : List String) {ψ : Formula} (hψ : ψ.Below k)
    (hts : ∀ t ∈ ts, t.isGround = true) (hx : s.freshVars ts.length shown = (xs, t))
    (room : s.HasRoom ts.length) :
    ∃ ζ, η.AgreesBelow ζ s.next ∧ Tracks p θ (env.bindAll names ts) k ζ
      (env'.bindAll names (xs.map .var)) ψ t := by
  obtain ⟨ζ, hζ, rfl⟩ := exists_freshVars (θ := η) hx room hts rfl
  have below := below_freshVars hx room
  obtain rfl := freshVars_state hx
  have later := h.advance room hζ
  exact ⟨ζ, hζ, { later with
    written := hψ
    below := later.below.bindAll _ below
    scope := later.scope.bindAll _ (map_apply_of_isGround hts) }⟩

lemma Tracks.apply_eval (h : Tracks p θ env k η env' φ s) {e : Expr} (he : e.Below k) :
    θ.apply (e.eval env) = η.apply (e.eval env') :=
  Expr.apply_eval he h.agrees h.scope

/-- No unification of the search goes on for ever. -/
def Calm (p : Program) (env : Env) (φ : Formula) (s : State) : Prop :=
  ¬(φ.apply env s).Shows p.unfold (.inl (.halted .endless))

/-- The search reaches a state with `n` new variables that has the values of those in use. -/
structure Met (p : Program) (η : Valuation) (env : Env) (φ : Formula) (s : State) (n : Nat)
    (t : State) (ζ : Valuation) : Prop where
  reaches : φ.Reaches p env s t
  grown : Extends s t
  takes : s.Takes n t
  solves : ζ.Solves t.subst
  agrees : η.AgreesBelow ζ s.next

lemma Met.inside {ψ : Formula} {env₁ : Env} {η₁ : Valuation} {m n : Nat}
    (h : Met p η₁ env₁ ψ (s.advance m) n t ζ) (hs : s.Tidy) (room : s.HasRoom m)
    (hη : η.AgreesBelow η₁ s.next) (hr : φ.Reaches p env s t) : Met p η env φ s (m + n) t ζ where
  reaches := hr
  grown := (hs.advance room).trans h.grown
  takes := (takes_advance s m).trans h.takes
  solves := h.solves
  agrees := hη.trans h.agrees (next_le_number room)

/-- An equation that holds is met, if its unification ends. -/
lemma Tracks.eq {u v : Expr} {a b : Term} (h : Tracks p θ env k η env' (.eq u v) s)
    (hu : (θ.apply (u.eval env)).Fills a) (hv : (θ.apply (v.eval env)).Fills b)
    (hab : (a == b) = true) (hc : Calm p env' (.eq u v) s)
    (room : s.HasRoom ((u.eval env').wildcards + (v.eval env').wildcards)) :
    ∃ t ζ, Met p η env' (.eq u v) s ((u.eval env').wildcards + (v.eval env').wildcards) t ζ := by
  rw [h.apply_eval h.written.1] at hu
  rw [h.apply_eval h.written.2] at hv
  have bu := Expr.below_eval (h.written.1.mono h.start) h.below
  have bv := Expr.below_eval (h.written.2.mono h.start) h.below
  rcases hu' : s.fillWildcards (u.eval env') with ⟨u', s₁⟩
  rcases hv' : s₁.fillWildcards (v.eval env') with ⟨v', s₂⟩
  obtain ⟨grown, ku, kv⟩ := Subst.known_fillWildcards h.tidy hu' hv' room bu bv
  have bu' := below_fillWildcards hu' (hasRoom_add.mp room).1 bu
  -- the new variables get the values that the wildcards have in the derivation
  obtain ⟨first, others⟩ := hasRoom_add.mp room
  obtain ⟨η₁, h₁, rfl⟩ := exists_fillWildcards hu' first bu hu
  rw [h₁.apply_eq bv] at hv
  have t₁ := fillWildcards_state hu'
  subst t₁
  obtain ⟨η₂, h₂, rfl⟩ := exists_fillWildcards hv' others (bv.mono (next_le_number first)) hv
  have t₂ := fillWildcards_state hv'
  subst t₂
  have tracks := (h.advance first h₁).advance others h₂
  rw [h₂.apply_eq bu', Valuation.beq_apply ku.1] at hab
  have plain : Subst.Plain s.subst u' v' := ⟨h.tidy.wildcardFree, ku.1, kv.1⟩
  rcases hr : s.subst.unify? u' v' with _ | r
  · -- the search would stop here
    refine absurd ?_ hc
    simp only [apply, Goal.eq, hu', hv', advance_subst, hr]
    exact Goal.shows_counted (Burst.shows_stop.mpr rfl)
  · have run := Subst.unifies_of_unify? hr
    obtain ⟨w, rfl, hw⟩ := (run.solves_iff plain).mp ⟨tracks.solves, hab⟩
    refine ⟨_, η₂, .eq hu' hv' hr, grown.trans (Subst.extends_unify? grown.tidy ku kv hr), ?_, hw,
      h₁.trans h₂ (next_le_number first)⟩
    exact ((takes_advance s _).trans (takes_advance _ _)).bound w

lemma goal_of_plain (hφ : φ.plain = true) : φ.goal env = φ.apply env := by
  rw [goal, misuse?_of_plain hφ]
  rfl

end Formula

/-! ### The search as a whole -/

/-- **Soundness**: whatever state the search gives, each of its solutions is one of the first
state, and the formula holds under it. -/
theorem Formula.search_sound (hφ : φ.plain = true) (hp : p.plain = true)
    (hs : s.subst.WildcardFree) {n : Nat} (h : .inr t ∈ (φ.goal env s).log p.unfold n)
    (hθ : θ.Solves t.subst) : θ.Solves s.subst ∧ φ.Holds p θ env := by
  rw [goal_of_plain hφ] at h
  have sound := (reaches_of_mem_log h).sound hs hφ hp
  exact ⟨sound.solves hθ, sound.holds hθ⟩

def Program.nats : Program := ⟨[("nat", Program.relation ["n"]
  (.disj2 (.eq (.term .zero) "n")
    (.fresh true ["m"] (.conj2 (.eq (.succ "m") "n") (.call (.user "nat") ["m"])))))]⟩

/-- The second number that the relation gives: the formula holds under the valuation of the first
variable by one and of all others by zero. -/
theorem Formula.search_sound_nats : ∃ n t, ∃ θ : Valuation,
    .inr t ∈ ((call (.user "nat") [.term (.var ⟨0, none⟩)]).goal .empty (.reserving 1)).log
        Program.nats.unfold n ∧
      θ.Solves t.subst ∧ θ.value 0 = .succ .zero ∧
      (call (.user "nat") [.term (.var ⟨0, none⟩)]).Holds .nats θ .empty := by
  let one : Valuation := ⟨fun i => if i = 0 then .succ .zero else .zero, by intro i; split <;> rfl⟩
  obtain ⟨t, ht, hone⟩ : ∃ t, (call (.user "nat") [.term (.var ⟨0, none⟩)]).Reaches .nats .empty
      (.reserving 1) t ∧ one.Solves t.subst := by
    refine ⟨_, .call rfl rfl rfl (.right (.fresh rfl rfl (.conj2 (.eq rfl rfl rfl)
      (.call rfl rfl rfl (.left (.eq rfl rfl rfl)))))), ?_⟩
    show one.Solves ((Subst.empty.extend ⟨0, none⟩ (.succ (.var ⟨1, some "m"⟩))).extend
      ⟨1, some "m"⟩ .zero)
    rw [Valuation.solves_extend (by simp [Subst.find?_extend]), Valuation.solves_extend (by simp)]
    exact ⟨⟨fun x t h => by simp at h, rfl⟩, rfl⟩
  obtain ⟨n, hn⟩ := ht.shows
  refine ⟨n, t, one, hn, hone, rfl, ?_⟩
  exact (search_sound rfl rfl (tidy_of_empty (s := .reserving 1) rfl).wildcardFree hn hone).2

end Relational
