import Relational.Proofs.Subst.Depth

/-!
Resolving as a relation. The root of a term is followed as far as it is bound, and then the parts
below it are resolved: the head and the tail of a pair, or the predecessor of a successor. Resolving
gives what this gives, on all bindings, and nothing only if there is no end to it. What resolved
terms have in common is proved by induction over the parts.
-/

namespace Relational

namespace Term

def isBare : Term → Bool
  | pair _ _ | succ _ => false
  | _ => true

lemma replaceVars_pair_eq_some {f : Var → Option Term} {a d r : Term} :
    (pair a d).replaceVars f = some r ↔
      ∃ a' d', a.replaceVars f = some a' ∧ d.replaceVars f = some d' ∧ pair a' d' = r := by
  rw [replaceVars]
  rcases a.replaceVars f with _ | a' <;> simp

lemma replaceVars_imp {f g : Var → Option Term} {t r : Term} (h : t.replaceVars f = some r)
    (hfg : ∀ x u, f x = some u → g x = some u) : t.replaceVars g = some r := by
  induction t generalizing r with
  | var x => exact hfg x r h
  | pair a d iha ihd =>
    obtain ⟨a', d', ha, hd, rfl⟩ := replaceVars_pair_eq_some.mp h
    exact replaceVars_pair_eq_some.mpr ⟨a', d', iha ha, ihd hd, rfl⟩
  | succ p ih =>
    obtain ⟨p', hp, rfl⟩ := Option.map_eq_some_iff.mp h
    simp [replaceVars, ih hp]
  | _ => exact h

end Term

namespace Subst

variable {s : Subst} {t u v w r : Term}

/-- What a term resolves to, part by part. -/
inductive Resolves (s : Subst) : Term → Term → Prop
  | bare {t u : Term} (h : Walks s t u) (hu : u.isBare = true) : Resolves s t u
  | pair {t a d a' d' : Term} (h : Walks s t (.pair a d)) (ha : Resolves s a a')
      (hd : Resolves s d d') : Resolves s t (.pair a' d')
  | succ {t p p' : Term} (h : Walks s t (.succ p)) (hp : Resolves s p p') :
      Resolves s t (.succ p')

/-! ### Roots and parts -/

lemma Walks.eq_of_known (h : Walks s t u) (ht : t.isVar = false) : u = t := by
  cases h with
  | known => rfl
  | _ => cases ht

lemma walks_bound_iff {x : Var} (hx : s.find? x = some w) :
    Walks s (.var x) u ↔ Walks s w u := by
  refine ⟨fun h => ?_, .step hx⟩
  cases h with
  | «open» free => rw [hx] at free; cases free
  | known h => cases h
  | step hx' h =>
    rw [hx] at hx'
    cases hx'
    exact h

lemma Resolves.of_walks (hw : ∀ a, Walks s t a → Walks s w a) (h : Resolves s t u) :
    Resolves s w u := by
  cases h with
  | bare h hu => exact .bare (hw _ h) hu
  | pair h ha hd => exact .pair (hw _ h) ha hd
  | succ h hp => exact .succ (hw _ h) hp

lemma resolves_bound_iff {x : Var} (hx : s.find? x = some w) :
    Resolves s (.var x) u ↔ Resolves s w u :=
  ⟨Resolves.of_walks fun _ => (walks_bound_iff hx).mp,
    Resolves.of_walks fun _ => (walks_bound_iff hx).mpr⟩

lemma resolves_pair_iff {a d : Term} : Resolves s (.pair a d) r ↔
    ∃ a' d', Resolves s a a' ∧ Resolves s d d' ∧ r = .pair a' d' := by
  constructor
  · intro h
    cases h with
    | bare h hu => cases h.eq_of_known rfl; cases hu
    | pair h ha hd => cases h.eq_of_known rfl; exact ⟨_, _, ha, hd, rfl⟩
    | succ h hp => cases h.eq_of_known rfl
  · rintro ⟨a', d', ha, hd, rfl⟩
    exact .pair (.known rfl) ha hd

lemma resolves_succ_iff {p : Term} :
    Resolves s (.succ p) r ↔ ∃ p', Resolves s p p' ∧ r = .succ p' := by
  constructor
  · intro h
    cases h with
    | bare h hu => cases h.eq_of_known rfl; cases hu
    | pair h ha hd => cases h.eq_of_known rfl
    | succ h hp => cases h.eq_of_known rfl; exact ⟨_, hp, rfl⟩
  · rintro ⟨p', hp, rfl⟩
    exact .succ (.known rfl) hp

lemma resolves_var_iff {y : Var} : Resolves s t (.var y) ↔ Walks s t (.var y) := by
  refine ⟨fun h => ?_, fun h => .bare h rfl⟩
  cases h with
  | bare h _ => exact h

/-! ### Resolving to the end -/

lemma resolves_of_replaceVars {f : Var → Option Term}
    (hf : ∀ x w, f x = some w → Resolves s (.var x) w) (h : t.replaceVars f = some r) :
    Resolves s t r := by
  induction t generalizing r with
  | var x => exact hf x r h
  | pair a d iha ihd =>
    obtain ⟨a', d', ha, hd, rfl⟩ := Term.replaceVars_pair_eq_some.mp h
    exact .pair (.known rfl) (iha ha) (ihd hd)
  | succ p ih =>
    obtain ⟨p', hp, rfl⟩ := Option.map_eq_some_iff.mp h
    exact .succ (.known rfl) (ih hp)
  | _ => cases h; exact .bare (.known rfl) rfl

lemma resolves_of_resolveWithin {k : Nat} (h : s.resolveWithin k t = some r) : Resolves s t r := by
  induction k generalizing t r with
  | zero =>
    refine resolves_of_replaceVars (fun x w hx => ?_) h
    rw [has_eq_isSome] at hx
    rcases hf : s.find? x with _ | v <;> simp only [hf] at hx <;> cases hx
    exact .bare (.open hf) rfl
  | succ k ih =>
    refine resolves_of_replaceVars (fun x w hx => ?_) h
    rcases hf : s.find? x with _ | v <;> simp only [hf] at hx
    · cases hx
      exact .bare (.open hf) rfl
    · exact (resolves_bound_iff hf).mpr (ih hx)

lemma resolveWithin_pair (k : Nat) (a d : Term) : s.resolveWithin k (.pair a d) =
    (s.resolveWithin k a).bind fun a' => (s.resolveWithin k d).map (.pair a') := by
  cases k <;> simp only [resolveWithin, Term.replaceVars] <;> split <;> simp_all

lemma resolveWithin_successor (k : Nat) (p : Term) :
    s.resolveWithin k (.succ p) = (s.resolveWithin k p).map .succ := by
  cases k <;> rfl

lemma resolveWithin_bound {x : Var} (hx : s.find? x = some w) (k : Nat) :
    s.resolveWithin (k + 1) (.var x) = s.resolveWithin k w := by
  simp [resolveWithin, Term.replaceVars, hx]

lemma resolveWithin_open {x : Var} (hx : s.find? x = none) (k : Nat) :
    s.resolveWithin k (.var x) = some (.var x) := by
  cases k <;> simp [resolveWithin, Term.replaceVars, has_eq_isSome, hx]

lemma resolveWithin_succ {k : Nat} (h : s.resolveWithin k t = some r) :
    s.resolveWithin (k + 1) t = some r := by
  induction k generalizing t r with
  | zero =>
    refine Term.replaceVars_imp h fun x u hx => ?_
    rw [has_eq_isSome] at hx
    rcases hf : s.find? x with _ | w
    · simpa [hf] using hx
    · simp [hf] at hx
  | succ k ih =>
    refine Term.replaceVars_imp h fun x u hx => ?_
    rcases hf : s.find? x with _ | w
    · simpa [hf] using hx
    · rw [hf] at hx
      exact ih hx

lemma resolveWithin_mono {m n : Nat} (h : s.resolveWithin m t = some r) (hmn : m ≤ n) :
    s.resolveWithin n t = some r := by
  induction hmn with
  | refl => exact h
  | step _ ih => exact resolveWithin_succ ih

lemma Walks.exists_resolveWithin (hw : Walks s t w) {k : Nat}
    (h : s.resolveWithin k w = some r) : ∃ k, s.resolveWithin k t = some r := by
  induction hw with
  | «open» => exact ⟨k, h⟩
  | known => exact ⟨k, h⟩
  | step hx _ ih =>
    obtain ⟨k, hk⟩ := ih h
    exact ⟨k + 1, by rw [resolveWithin_bound hx, hk]⟩

lemma Resolves.exists_resolveWithin (h : Resolves s t u) :
    ∃ k, s.resolveWithin k t = some u := by
  induction h with
  | @bare t u hw hu =>
    refine hw.exists_resolveWithin (k := 0) ?_
    cases u with
    | var x => exact resolveWithin_open hw.find?_eq_none 0
    | pair => cases hu
    | succ => cases hu
    | _ => rfl
  | pair hw _ _ iha ihd =>
    obtain ⟨m, hm⟩ := iha
    obtain ⟨n, hn⟩ := ihd
    -- what suffices for one part may be too little for the other
    refine hw.exists_resolveWithin (k := max m n) ?_
    rw [resolveWithin_pair, resolveWithin_mono hm (Nat.le_max_left m n),
      resolveWithin_mono hn (Nat.le_max_right m n)]
    rfl
  | succ hw _ ih =>
    obtain ⟨k, hk⟩ := ih
    refine hw.exists_resolveWithin (k := k) ?_
    rw [resolveWithin_successor, hk]
    rfl

/-- A depth suffices for a term if it does for each of its variables. -/
lemma resolveWithin_isSome_iff {k : Nat} : (s.resolveWithin k t).isSome = true ↔
    ∀ i ∈ t.ids, (s.resolveWithin k (.var ⟨i, none⟩)).isSome = true := by
  induction t with
  | var x =>
    have same : s.find? ⟨x.id, none⟩ = s.find? x := find?_congr rfl
    rcases hx : s.find? x with _ | w
    · simp [resolveWithin_open hx, resolveWithin_open (same.trans hx)]
    · cases k with
      | zero => simp [resolveWithin, Term.replaceVars, has_eq_isSome, hx, same]
      | succ k => simp [resolveWithin_bound hx, resolveWithin_bound (same.trans hx)]
  | pair a d iha ihd =>
    simp only [Term.ids_pair, List.mem_append, or_imp, forall_and, ← iha, ← ihd,
      resolveWithin_pair]
    rcases s.resolveWithin k a with _ | a' <;> simp
  | succ p ih => simp [resolveWithin_successor, ih]
  | _ => cases k <;> simp [resolveWithin, Term.replaceVars, Term.ids, Term.vars]

lemma descent_resolve (s : Subst) :
    Descent (fun n i => (s.resolveWithin n (.var ⟨i, none⟩)).isSome = true) s.Leads where
  mono := by
    intro m n i h hmn
    obtain ⟨r, hr⟩ := Option.isSome_iff_exists.mp h
    rw [resolveWithin_mono hr hmn]
    rfl
  below := by
    intro n i h hn
    rcases hx : s.find? ⟨i, none⟩ with _ | w
    · rw [resolveWithin_open hx] at hn
      exact absurd rfl hn
    · rw [resolveWithin_bound hx, resolveWithin_isSome_iff] at h hn
      simp only [not_forall] at hn
      obtain ⟨j, hj, hjn⟩ := hn
      exact ⟨j, ⟨_, w, rfl, hx, hj⟩, h j hj, hjn⟩

/-- A variable that is resolved at some depth is so within as many bindings as there are. -/
lemma resolveWithin_card {n i : Nat} (h : (s.resolveWithin n (.var ⟨i, none⟩)).isSome = true) :
    (s.resolveWithin s.bound.card (.var ⟨i, none⟩)).isSome = true := by
  refine (descent_resolve s).done_card s.bound id (fun j _ hj => ?_)
    (fun j k _ _ _ _ hjk n hn => ?_) h
  · rcases hx : s.find? ⟨j, none⟩ with _ | w
    · rw [resolveWithin_open hx] at hj
      exact absurd rfl hj
    · exact mem_bound hx
  · obtain rfl : j = k := hjk
    exact hn

/-- **Terms are resolved to the end**, also under cyclic bindings. -/
theorem resolve?_eq_some_iff : s.resolve? t = some u ↔ Resolves s t u := by
  refine ⟨resolves_of_resolveWithin, fun h => ?_⟩
  obtain ⟨m, hm⟩ := h.exists_resolveWithin
  have found : (s.resolveWithin m t).isSome = true := by rw [hm]; rfl
  -- no chain of bindings is longer than there are bindings
  have ends : (s.resolveWithin s.bound.card t).isSome = true := by
    rw [resolveWithin_isSome_iff] at found ⊢
    exact fun i hi => resolveWithin_card (found i hi)
  exact resolveWithin_mono (eq_some_of_isSome resolveWithin_mono hm ends) (card_bound_le s)

lemma Resolves.unique (h : Resolves s t u) (h' : Resolves s t v) : u = v := by
  rw [← resolve?_eq_some_iff] at h h'
  simpa [h] using h'

/-! ### What resolved terms have in common -/

lemma Resolves.opened (h : Resolves s t r) : ∀ x ∈ r.vars, s.find? x = none := by
  induction h with
  | @bare t u hw hu =>
    cases u with
    | var y => simpa [Term.vars] using hw.find?_eq_none
    | pair => cases hu
    | succ => cases hu
    | _ => simp [Term.vars]
  | pair _ _ _ iha ihd => simpa [Term.vars, or_imp, forall_and] using ⟨iha, ihd⟩
  | succ _ _ ih => exact ih

lemma Partwise.resolves {C : Term → Prop} (hC : Partwise C)
    (hs : ∀ x t, s.find? x = some t → C t) (h : Resolves s t r) (ht : C t) : C r := by
  induction h with
  | bare hw _ => exact hw.among hs ht
  | pair hw _ _ iha ihd =>
    obtain ⟨ha, hd⟩ := hC.pair (hw.among hs ht)
    exact hC.of_pair (iha ha) (ihd hd)
  | succ hw _ ih => exact hC.of_succ (ih (hC.succ (hw.among hs ht)))

lemma Partwise.resolve? {C : Term → Prop} (hC : Partwise C)
    (hs : ∀ x t, s.find? x = some t → C t) (ht : C t) (h : s.resolve? t = some r) : C r :=
  hC.resolves hs (resolve?_eq_some_iff.mp h) ht

lemma WildcardFree.resolve? (hs : s.WildcardFree) (ht : t.hasWildcard = false)
    (h : s.resolve? t = some r) : r.hasWildcard = false :=
  partwise_hasWildcard.resolve? hs ht h

end Subst

end Relational
