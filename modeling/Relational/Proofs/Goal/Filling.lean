import Mathlib.Data.List.Forall2
import Relational.Proofs.Term.Valuation
import Relational.State

/-!
New variables. Each wildcard becomes a variable of its own with a number that nothing else has,
so what it stands for can be chosen freely: the values of a term with wildcards are the values
of the term with new variables, under valuations that differ on the new numbers only.
-/

namespace Relational

/-- The second term is the first with a ground term in place of each wildcard. -/
inductive Term.Fills : Term → Term → Prop
  | wildcard {place : Nat} {t : Term} (h : t.isGround = true) : Fills (.wildcard place) t
  | pair {a d b e : Term} (ha : Fills a b) (hd : Fills d e) : Fills (.pair a d) (.pair b e)
  | succ {p q : Term} (h : Fills p q) : Fills (.succ p) (.succ q)
  | nil : Fills .nil .nil
  | zero : Fills .zero .zero
  | atom {a : Atom} : Fills (.atom a) (.atom a)
  | placeholder {n : Nat} : Fills (.placeholder n) (.placeholder n)

lemma Term.fills_self {t : Term} (h : t.isGround = true) : t.Fills t := by
  induction t with
  | pair a d iha ihd =>
    rw [isGround, Bool.and_eq_true] at h
    exact .pair (iha h.1) (ihd h.2)
  | succ p ih => exact .succ (ih h)
  | nil => exact .nil
  | zero => exact .zero
  | atom a => exact .atom
  | placeholder n => exact .placeholder
  | var x => simp [isGround] at h
  | wildcard p => simp [isGround] at h

lemma Term.Fills.isGround {t a : Term} (h : t.Fills a) : a.isGround = true := by
  induction h with
  | wildcard h => exact h
  | pair _ _ iha ihd => rw [Term.isGround, iha, ihd]; rfl
  | succ _ ih => exact ih
  | _ => rfl

lemma Term.Fills.eq_of_isGround {t a : Term} (h : t.Fills a) (ht : t.isGround = true) :
    a = t := by
  induction h with
  | wildcard => simp [Term.isGround] at ht
  | pair _ _ iha ihd =>
    rw [Term.isGround, Bool.and_eq_true] at ht
    rw [iha ht.1, ihd ht.2]
  | succ _ ih => rw [ih ht]
  | _ => rfl

namespace Valuation

variable (θ : Valuation)

def change (n : Nat) (ts : List Term) (h : ∀ t ∈ ts, t.isGround = true) : Valuation where
  value i := if n ≤ i then ts[i - n]?.getD (θ.value i) else θ.value i
  ground i := by
    split
    · rcases ht : ts[i - n]? with _ | t
      · exact θ.ground i
      · exact h t (List.mem_of_getElem? ht)
    · exact θ.ground i

variable {θ} {n : Nat} {ts : List Term} {h : ∀ t ∈ ts, t.isGround = true}

lemma agreesBelow_change : θ.AgreesBelow (θ.change n ts h) n := by
  intro i hi
  simp [change, Nat.not_le.mpr hi]

lemma value_change {i : Nat} (hi : i < ts.length) : (θ.change n ts h).value (n + i) = ts[i] := by
  simp [change, hi]

lemma AgreesBelow.refl : θ.AgreesBelow θ n := fun _ _ => rfl

end Valuation

lemma Term.wildcardsIn_congr {ts us : List Term}
    (h : List.Forall₂ (fun t u => t.wildcards = u.wildcards) ts us) :
    wildcardsIn ts = wildcardsIn us := by
  induction h with
  | nil => rfl
  | cons h _ ih => rw [wildcardsIn, wildcardsIn, h, ih]

namespace State

variable {s r t s' : State} {θ : Valuation} {j n k : Nat}

/-- The state `t` is `s` after `n` numbers were given away, whatever was bound since. -/
def Takes (s : State) (n : Nat) (t : State) : Prop := t = (s.advance n).withSubst t.subst

namespace Takes

lemma refl : s.Takes 0 s := by simp [Takes]

lemma number (h : s.Takes n t) (i : Nat) : t.number i = s.number (n + i) := by
  rw [h, number_withSubst, number_advance]

lemma hasRoom (h : s.Takes n t) : t.HasRoom k ↔ (s.advance n).HasRoom k := by
  rw [h, hasRoom_withSubst]

lemma bound (h : s.Takes n t) (w : Subst) : s.Takes n (t.withSubst w) := by
  rw [Takes, h]
  rfl

lemma trans (h : s.Takes j r) (h' : r.Takes k t) : s.Takes (j + k) t := by
  refine Eq.trans h' ?_
  rw [h, advance_withSubst, advance_advance, withSubst_withSubst]

end Takes

lemma takes_advance (s : State) (n : Nat) : s.Takes n (s.advance n) := rfl

lemma next_le_number (h : s.HasRoom k) : s.next ≤ s.number k := by
  rw [number_of_room h (Nat.le_refl k)]
  exact Nat.le_add_right _ _

lemma fill_pair (s : State) (a d : Term) : s.fill (.pair a d) =
    (.pair (s.fill a).1 ((s.fill a).2.fill d).1, ((s.fill a).2.fill d).2) :=
  rfl

lemma fill_succ (s : State) (p : Term) : s.fill (.succ p) = (.succ (s.fill p).1, (s.fill p).2) :=
  rfl

lemma fill_snd (s : State) (t : Term) : (s.fill t).2 = s.advance t.wildcards := by
  induction t generalizing s with
  | pair a d iha ihd => rw [fill_pair, ihd, iha, advance_advance, Term.wildcards]
  | succ p ih => exact ih s
  | wildcard p => rfl
  | _ => exact advance_zero.symm

lemma fill_of_hasWildcard {t : Term} (h : t.hasWildcard = false) (s : State) :
    s.fill t = (t, s) := by
  induction t generalizing s with
  | pair a d iha ihd =>
    rw [Term.hasWildcard, Bool.or_eq_false_iff] at h
    rw [fill_pair, iha h.1, ihd h.2]
  | succ p ih => rw [fill_succ, ih h]
  | wildcard p => simp [Term.hasWildcard] at h
  | _ => rfl

lemma hasWildcard_fill (s : State) (t : Term) : (s.fill t).1.hasWildcard = false := by
  induction t generalizing s with
  | pair a d iha ihd => rw [fill_pair, Term.hasWildcard, iha, ihd]; rfl
  | succ p ih => exact ih s
  | _ => rfl

lemma below_fill {t : Term} (room : s.HasRoom t.wildcards) (h : t.Below s.next) :
    (s.fill t).1.Below (s.number t.wildcards) := by
  induction t generalizing s with
  | pair a d iha ihd =>
    obtain ⟨ra, rd⟩ := hasRoom_add.mp room
    rw [Term.below_pair] at h
    rw [fill_pair, Term.below_pair, fill_snd, Term.wildcards, ← number_advance]
    exact ⟨(iha ra h.1).mono (next_le_number rd), ihd rd (h.2.mono (next_le_number ra))⟩
  | succ p ih => exact ih room h
  | wildcard p =>
    rw [number_of_room room (Nat.le_refl _)]
    exact Term.below_var.mpr s.next.lt_succ_self
  | _ => exact (number_zero (s := s)).symm ▸ h

lemma fills_fill (θ : Valuation) (s : State) (t : Term) :
    (θ.apply t).Fills (θ.apply (s.fill t).1) := by
  induction t generalizing s with
  | var x => exact Term.fills_self (θ.ground x.id)
  | pair a d iha ihd => exact .pair (iha s) (ihd _)
  | succ p ih => exact .succ (ih s)
  | nil => exact .nil
  | zero => exact .zero
  | atom a => exact .atom
  | placeholder n => exact .placeholder
  | wildcard p => exact .wildcard (θ.ground s.next)

/-- However the wildcards are filled, the new variables have values that fill them so. -/
lemma exists_fill {t a : Term} (room : s.HasRoom t.wildcards) (ht : t.Below s.next)
    (h : (θ.apply t).Fills a) :
    ∃ η : Valuation, θ.AgreesBelow η s.next ∧ η.apply (s.fill t).1 = a := by
  induction t generalizing θ s a with
  | var x => exact ⟨θ, .refl, (h.eq_of_isGround (θ.ground x.id)).symm⟩
  | wildcard p =>
    refine ⟨θ.change s.next [a] (by simpa using h.isGround), Valuation.agreesBelow_change, ?_⟩
    exact Valuation.value_change (i := 0) (by simp)
  | pair a d iha ihd =>
    obtain ⟨ra, rd⟩ := hasRoom_add.mp room
    rw [Term.below_pair] at ht
    cases h with
    | pair ha hd =>
      obtain ⟨η, hη, rfl⟩ := iha ra ht.1 ha
      rw [hη.apply_eq ht.2] at hd
      -- the variables of the tail are newer than those of the head
      have hn := next_le_number ra
      obtain ⟨ζ, hζ, rfl⟩ := ihd rd (ht.2.mono hn) hd
      refine ⟨ζ, hη.trans hζ hn, ?_⟩
      rw [fill_pair, fill_snd, Valuation.apply_pair, hζ.apply_eq (below_fill ra ht.1)]
  | succ p ih =>
    cases h with
    | succ h =>
      obtain ⟨η, hη, rfl⟩ := ih room ht h
      exact ⟨η, hη, rfl⟩
  | nil => cases h; exact ⟨θ, .refl, rfl⟩
  | zero => cases h; exact ⟨θ, .refl, rfl⟩
  | atom b => cases h; exact ⟨θ, .refl, rfl⟩
  | placeholder m => cases h; exact ⟨θ, .refl, rfl⟩

lemma fillWildcards_eq (s : State) (t : Term) : s.fillWildcards t = s.fill t := by
  unfold fillWildcards
  split
  · rfl
  · rename_i h
    rw [fill_of_hasWildcard (by simpa using h)]

section

variable {t u : Term} (h : s.fillWildcards t = (u, s'))
include h

lemma fillWildcards_term : u = (s.fill t).1 := by
  rw [← fillWildcards_eq, h]

lemma fillWildcards_state : s' = s.advance t.wildcards := by
  rw [← fill_snd, ← fillWildcards_eq, h]

lemma fillWildcards_subst : s'.subst = s.subst := fillWildcards_state h ▸ rfl

lemma hasWildcard_fillWildcards : u.hasWildcard = false := by
  rw [fillWildcards_term h]
  exact hasWildcard_fill s t

lemma below_fillWildcards (room : s.HasRoom t.wildcards) (ht : t.Below s.next) :
    u.Below s'.next := by
  rw [fillWildcards_term h, fillWildcards_state h]
  exact below_fill room ht

lemma fills_fillWildcards (θ : Valuation) : (θ.apply t).Fills (θ.apply u) := by
  rw [fillWildcards_term h]
  exact fills_fill θ s t

lemma exists_fillWildcards {a : Term} (room : s.HasRoom t.wildcards) (ht : t.Below s.next)
    (ha : (θ.apply t).Fills a) : ∃ η : Valuation, θ.AgreesBelow η s.next ∧ η.apply u = a := by
  rw [fillWildcards_term h]
  exact exists_fill room ht ha

end

/-! ### Wildcards of several terms -/

lemma fillAll_cons {t : Term} {ts us : List Term} (h : s.fillAll (t :: ts) = (us, s')) :
    ∃ u us' r, s.fillWildcards t = (u, r) ∧ r.fillAll ts = (us', s') ∧ us = u :: us' := by
  cases h
  exact ⟨_, _, _, rfl, rfl, rfl⟩

lemma fillAll_state {ts us : List Term} (h : s.fillAll ts = (us, s')) :
    s' = s.advance (Term.wildcardsIn ts) := by
  induction ts generalizing s us with
  | nil => cases h; exact advance_zero.symm
  | cons t ts ih =>
    obtain ⟨u, us', r, hu, hus, -⟩ := fillAll_cons h
    rw [ih hus, fillWildcards_state hu, advance_advance, Term.wildcardsIn]

lemma fillAll_subst {ts us : List Term} (h : s.fillAll ts = (us, s')) : s'.subst = s.subst :=
  fillAll_state h ▸ rfl

lemma hasWildcard_fillAll {ts us : List Term} (h : s.fillAll ts = (us, s')) :
    ∀ u ∈ us, u.hasWildcard = false := by
  induction ts generalizing s us with
  | nil => cases h; simp
  | cons t ts ih =>
    obtain ⟨u, us', r, hu, hus, rfl⟩ := fillAll_cons h
    exact List.forall_mem_cons.mpr ⟨hasWildcard_fillWildcards hu, ih hus⟩

lemma fills_fillAll {ts us : List Term} (h : s.fillAll ts = (us, s')) (θ : Valuation) :
    List.Forall₂ Term.Fills (ts.map θ.apply) (us.map θ.apply) := by
  induction ts generalizing s us with
  | nil => cases h; exact .nil
  | cons t ts ih =>
    obtain ⟨u, us', r, hu, hus, rfl⟩ := fillAll_cons h
    exact .cons (fills_fillWildcards hu θ) (ih hus)

variable {names : Option (List String)} {xs : List Var}

lemma freshVars_state (h : s.freshVars n names = (xs, s')) : s' = s.advance n := by
  cases h
  rfl

lemma freshVars_subst (h : s.freshVars n names = (xs, s')) : s'.subst = s.subst :=
  freshVars_state h ▸ rfl

lemma below_freshVars (h : s.freshVars n names = (xs, s')) (room : s.HasRoom n) :
    ∀ t ∈ xs.map Term.var, t.Below s'.next := by
  cases h
  simp only [List.map_map, List.forall_mem_map, List.mem_range]
  intro i hi
  have here : s.number i < s.number n := by
    rw [number_of_room room (Nat.le_refl n), number_of_room room (Nat.le_of_lt hi)]
    exact Nat.add_lt_add_left hi _
  exact Term.below_var.mpr here

lemma length_freshVars (h : s.freshVars n names = (xs, s')) : xs.length = n := by
  cases h
  simp

lemma exists_freshVars {ts : List Term} (h : s.freshVars n names = (xs, s'))
    (room : s.HasRoom n) (hts : ∀ t ∈ ts, t.isGround = true) (hn : ts.length = n) :
    ∃ η : Valuation, θ.AgreesBelow η s.next ∧ (xs.map Term.var).map η.apply = ts := by
  refine ⟨θ.change s.next ts hts, Valuation.agreesBelow_change, ?_⟩
  cases h
  refine List.ext_getElem (by simp [hn]) fun i hi hi' => ?_
  have here := number_of_room room (i := i) (by omega)
  simpa [here] using Valuation.value_change hi'

end State

end Relational
