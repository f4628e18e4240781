import Relational.Proofs.Goal.Begins
import Relational.Proofs.Goal.Wildcards
import Relational.Proofs.Query.Finds

/-!
Answers with open parts. A shape is a term without variables, in which wildcards stand for anything.
If the target of a query can have all values of a shape, and no others, it is read as that shape,
with a placeholder for each wildcard, numbered as they stand.
-/

namespace Relational

open State Subst

namespace Term

/-- The term is of this shape, up to the names of its parts. -/
def Shaped (g t : Term) : Prop := ∃ w, g.Fills w ∧ sameParts t w = true

variable {g h t u : Term} {ts : List Term}

lemma Shaped.of_sameParts (ht : g.Shaped t) (same : sameParts u t = true) : g.Shaped u := by
  obtain ⟨w, hw, ht⟩ := ht
  exact ⟨w, hw, sameParts_trans same ht⟩

lemma shaped_of_isGround (hg : g.isGround = true) : g.Shaped t ↔ sameParts t g = true := by
  refine ⟨?_, fun same => ⟨g, fills_self hg, same⟩⟩
  rintro ⟨w, hw, same⟩
  rwa [hw.eq_of_isGround hg] at same

lemma Shaped.isGround (ht : g.Shaped t) : t.isGround = true := by
  obtain ⟨w, hw, same⟩ := ht
  exact isGround_of_sameParts same hw.isGround

lemma shaped_wildcard {place : Nat} : (wildcard place).Shaped t ↔ t.isGround = true :=
  ⟨Shaped.isGround, fun ht => ⟨t, .wildcard ht, sameParts_refl t⟩⟩

lemma shaped_pair : (pair g h).Shaped t ↔ ∃ a d, t = pair a d ∧ g.Shaped a ∧ h.Shaped d := by
  constructor
  · rintro ⟨w, hw, same⟩
    obtain ⟨b, e, rfl, hb, he⟩ := Subst.Ranges.exists_of_pair hw
    rw [sameParts_comm] at same
    obtain ⟨a, d, rfl, head, tail⟩ := pair_sameParts.mp same
    rw [sameParts_comm] at head tail
    exact ⟨a, d, rfl, ⟨b, hb, head⟩, e, he, tail⟩
  · rintro ⟨a, d, rfl, ⟨b, hb, ha⟩, e, he, hd⟩
    exact ⟨pair b e, .pair hb he, Bool.and_eq_true_iff.mpr ⟨ha, hd⟩⟩

lemma shaped_pair_wildcard {place : Nat} (hg : g.isGround = true) :
    (pair g (wildcard place)).Shaped t ↔ ∃ d, d.isGround = true ∧ sameParts (pair g d) t = true := by
  rw [shaped_pair]
  constructor
  · rintro ⟨a, d, rfl, ha, hd⟩
    have same := (shaped_of_isGround hg).mp ha
    rw [sameParts_comm] at same
    exact ⟨d, hd.isGround, Bool.and_eq_true_iff.mpr ⟨same, sameParts_refl d⟩⟩
  · rintro ⟨d, hd, same⟩
    obtain ⟨a, e, rfl, head, tail⟩ := pair_sameParts.mp same
    rw [sameParts_comm] at head tail
    exact ⟨a, e, rfl, (shaped_of_isGround hg).mpr head,
      (shaped_wildcard.mpr hd).of_sameParts tail⟩

def unknowns (k : Nat) (t : Term) : Term := listThen (List.replicate k (wildcard 0)) t

lemma shaped_unknowns_succ {k : Nat} : (unknowns (k + 1) g).Shaped t ↔
    ∃ a d, a.isGround = true ∧ d.isGround = true ∧ sameParts (pair a d) t = true ∧
      (unknowns k g).Shaped d := by
  have step : unknowns (k + 1) g = pair (wildcard 0) (unknowns k g) := rfl
  rw [step, shaped_pair]
  constructor
  · rintro ⟨a, d, rfl, ha, hd⟩
    exact ⟨a, d, shaped_wildcard.mp ha, hd.isGround, sameParts_refl _, hd⟩
  · rintro ⟨a, d, ha, -, same, hd⟩
    obtain ⟨b, e, rfl, head, tail⟩ := pair_sameParts.mp same
    rw [sameParts_comm] at head tail
    exact ⟨b, e, rfl, (shaped_wildcard.mpr ha).of_sameParts head, hd.of_sameParts tail⟩

lemma shaped_unknowns_nil {k : Nat} : (unknowns k .nil).Shaped t ↔
    ∃ ts : List Term, ts.length = k ∧ (∀ u ∈ ts, u.isGround = true) ∧
      sameParts (ofList ts) t = true := by
  induction k generalizing t with
  | zero =>
    refine (shaped_of_isGround (g := .nil) rfl).trans (sameParts_nil.trans ⟨?_, ?_⟩)
    · rintro rfl
      exact ⟨[], rfl, by simp, rfl⟩
    · rintro ⟨ts, length, -, same⟩
      obtain rfl := List.length_eq_zero_iff.mp length
      exact nil_sameParts.mp same
  | succ k ih =>
    rw [shaped_unknowns_succ]
    constructor
    · rintro ⟨a, d, ha, -, same, hd⟩
      obtain ⟨ts, length, ground, list⟩ := ih.mp hd
      have whole : sameParts (ofList (a :: ts)) (pair a d) = true :=
        Bool.and_eq_true_iff.mpr ⟨sameParts_refl a, list⟩
      exact ⟨a :: ts, congrArg (· + 1) length, List.forall_mem_cons.mpr ⟨ha, ground⟩,
        sameParts_trans whole same⟩
    · rintro ⟨ts, length, ground, list⟩
      obtain ⟨a, ts, rfl⟩ := List.exists_cons_of_length_eq_add_one length
      obtain ⟨ha, ground⟩ := List.forall_mem_cons.mp ground
      exact ⟨a, ofList ts, ha, isGround_ofList.mpr ground, list,
        ih.mpr ⟨ts, Nat.succ.inj length, ground, sameParts_refl _⟩⟩

/-! ### Numbered wildcards -/

def placeholders (k : Nat) : List Term := (List.range k).map placeholder

lemma Fills.ids_eq_nil (h : g.Fills t) : g.ids = [] := by
  induction h with
  | pair _ _ iha ihd => rw [ids_pair, iha, ihd]; rfl
  | succ _ ih => exact ih
  | wildcard => rfl
  | _ => rfl

lemma apply_of_ids_eq_nil (h : g.ids = []) (θ : Valuation) : θ.apply g = g := by
  induction g with
  | var x => cases h
  | pair a d iha ihd =>
    rw [ids_pair, List.append_eq_nil_iff] at h
    rw [Valuation.apply_pair, iha h.1, ihd h.2]
  | succ p ih => rw [Valuation.apply_succ, ih h]
  | _ => rfl

lemma exists_fills (h : g.ids = []) : ∃ w, g.Fills w := by
  have fills := fills_fill (.naming 0) (.boundless 0) g
  rw [apply_of_ids_eq_nil h] at fills
  exact ⟨_, fills⟩

lemma below_of_ids_eq_nil (h : g.ids = []) (n : Nat) : g.Below n := by simp [Below, h]

lemma ids_fill (h : g.ids = []) {s : State} (hs : s.cycle = 0) :
    (s.fill g).1.ids = List.range' s.next g.wildcards := by
  induction g generalizing s with
  | var x => cases h
  | pair a d iha ihd =>
    rw [ids_pair, List.append_eq_nil_iff] at h
    have later : (s.advance a.wildcards).next = s.next + a.wildcards :=
      number_of_room (.inl hs) (Nat.le_refl _)
    rw [fill_pair, ids_pair, iha h.1 hs, fill_snd, ihd h.2 (s := s.advance a.wildcards) hs, later, wildcards,
      List.range'_append_1]
  | succ p ih => exact ih h hs
  | _ => rfl

lemma placeBy_fill (h : g.ids = []) (is : List Nat) (ws : List Term) :
    (g.fill ws).placeBy is = g.fill (ws.map (placeBy is)) := by
  induction g generalizing ws with
  | var x => cases h
  | pair a d iha ihd =>
    rw [ids_pair, List.append_eq_nil_iff] at h
    rw [fill, fill, placeBy_pair, iha h.1, ihd h.2, List.map_drop]
  | succ p ih => rw [fill, fill, placeBy, ih h]
  | wildcard place => cases ws <;> rfl
  | _ => rfl

lemma numbered_fill (h : g.ids = []) :
    ((boundless 0).fill g).1.numbered = g.fill (placeholders g.wildcards) := by
  have nodup := List.nodup_range (n := g.wildcards)
  have order : ((boundless 0).fill g).1.order = List.range g.wildcards := by
    rw [Term.order, ids_fill h rfl, boundless_next, ← List.range_eq_range',
      eraseDups_of_nodup nodup]
  have places : ((boundless 0).anonymous g.wildcards).map (placeBy (List.range g.wildcards)) =
      placeholders g.wildcards := calc
    _ = ((List.range g.wildcards).map (List.range g.wildcards).idxOf).map placeholder := by
      simp [anonymous, placeBy]
    _ = placeholders g.wildcards := by
      rw [map_idxOf_of_nodup nodup, List.length_range]
      rfl
  rw [numbered, order, fill_eq, placeBy_fill h, places]

@[simp] lemma wildcards_unknowns (k : Nat) (t : Term) :
    (unknowns k t).wildcards = k + t.wildcards := by
  induction k with
  | zero => simp [unknowns, listThen]
  | succ k ih =>
    have step : unknowns (k + 1) t = pair (wildcard 0) (unknowns k t) := rfl
    rw [step, wildcards, ih, wildcards]
    omega

@[simp] lemma length_placeholders (k : Nat) : (placeholders k).length = k := by
  simp [placeholders]

lemma ids_unknowns (k : Nat) (h : t.ids = []) : (unknowns k t).ids = [] := by
  induction k with
  | zero => exact h
  | succ k ih => exact (ids_pair _ _).trans ih

lemma fill_unknowns {k : Nat} (h : ts.length = k) (t : Term) (us : List Term) :
    (unknowns k t).fill (ts ++ us) = listThen ts (t.fill us) := by
  subst h
  induction ts with
  | nil => rfl
  | cons u ts ih => exact congrArg (pair u) ih

lemma fill_unknowns_nil (k : Nat) :
    (unknowns k .nil).fill (placeholders (unknowns k .nil).wildcards) =
      ofList (placeholders k) := by
  have count : (unknowns k .nil).wildcards = k := wildcards_unknowns k .nil
  rw [count, ← List.append_nil (placeholders k), fill_unknowns (length_placeholders k)]
  simp [ofList, fill]

end Term

namespace Query

variable {q : Query} {n : Nat} {s : State} {g : Term}

/-- For any number of answers, so many are collected, in the order of the numbers of these terms and
equal to them, within some budget of forced suspensions. -/
def Enumerates (q : Query) (f : Nat → Term) : Prop :=
  ∀ n, ∃ budget found, q.reifiedFirst budget n = .ok found ∧
    List.Forall₂ (fun t u => (t == u) = true) found ((List.range n).map f)

/-- A target that has all values of a shape, and no others, reads as that shape. -/
lemma exists_read_shape (hs : s.Proper n) (hq : Known n q.target)
    (shaped : ∀ θ, s.Allows n θ → g.Shaped (θ.apply q.target))
    (all : ∀ w, g.Fills w → ∃ θ, s.Allows n θ ∧ Term.sameParts (θ.apply q.target) w = true) :
    ∃ t, q.read s = .ok t ∧ (t == g.fill (Term.placeholders g.wildcards)) = true := by
  have wildcardFree := hs.tidy.wildcardFree
  obtain ⟨u, hu⟩ := hs.acyclic.resolve? q.target
  have plain := wildcardFree.resolve? hq.1 hu
  have noIds : g.ids = [] := by
    obtain ⟨θ, hθ⟩ := hs.exists_allows
    obtain ⟨w, hw, -⟩ := shaped θ hθ
    exact hw.ids_eq_nil
  have same (θ : Valuation) : θ.apply g = g := Term.apply_of_ids_eq_nil noIds θ
  -- an instance of what the target resolves to is a value of it in some solution
  have variant : u.Variant ((boundless 0).fill g).1 := by
    refine Term.variant_of_instances (fun θ => ?_) fun θ => ?_
    · obtain ⟨w, hw, value⟩ := shaped _
        (allows_of_solves (Valuation.through_solves (θ := θ) wildcardFree hs.acyclic))
      rw [Valuation.through_apply wildcardFree hu] at value
      obtain ⟨η, -, rfl⟩ := exists_fill (θ := θ) (s := boundless 0) (.inl rfl)
        (Term.below_of_ids_eq_nil noIds 0) (by rwa [same])
      exact ⟨η, value⟩
    · have fills := fills_fill θ (boundless 0) g
      rw [same] at fills
      obtain ⟨η, ⟨ζ, agree, solves⟩, value⟩ := all _ fills
      rw [agree.apply_eq hq.2, Term.sameParts_comm] at value
      exact ⟨ζ, Term.sameParts_trans value (solves.sameParts_resolve? hu)⟩
  refine ⟨u.numbered, by rw [read, reify?_eq, hu]; rfl, ?_⟩
  have closed : u.numbered.hasWildcard = false := by rw [Term.hasWildcard_numbered, plain]
  rw [← Term.numbered_fill noIds, Term.beq_eq_sameParts closed]
  exact variant.sameParts_numbered

lemma exists_read_one {p : Program} {x : String} {φ : Formula} {t : State}
    (ht : Narrows 1 (fun θ => g.Shaped (θ.value 0)) (.boundless 1) t) :
    ∃ u, (askOne p x φ).read t = .ok u ∧
      (u == g.fill (Term.placeholders g.wildcards)) = true := by
  have target : (askOne p x φ).target = .var ⟨0, some x⟩ := rfl
  refine exists_read_shape (n := 1) ht.proper ?_ (fun θ hθ => ?_) fun w hw => ?_
  · rw [target]
    exact known_var Nat.one_pos
  · exact ((ht.allows_iff θ).mp hθ).2
  · let θ : Valuation := ⟨fun _ => w, fun _ => hw.isGround⟩
    exact ⟨θ, (ht.allows_iff θ).mpr ⟨allows_boundless .., w, hw, Term.sameParts_refl w⟩,
      Term.sameParts_refl w⟩

lemma finds_shapes {ι : Type} {p : Program} {x : String} {r : Standard} {args : List Expr}
    {ts : List Term} {is : List ι} {f : ι → Term}
    (hr : args.map (Expr.eval (.ofVars [⟨0, some x⟩])) = ts) (noIds : ∀ i ∈ is, (f i).ids = [])
    (h : Goal.Splits p 1 (Goal.call (.standard r) ts) (.boundless 1)
      (is.map fun i θ => (f i).Shaped (θ.value 0))) :
    (askOne p x (.ask r args)).Finds
      (is.map fun i => (f i).fill (Term.placeholders (f i).wildcards)) := by
  subst hr
  obtain ⟨us, gives, branches⟩ := h
  have all := branches.forall₂ fun i hi => by
    obtain ⟨w, hw⟩ := Term.exists_fills (noIds i hi)
    exact ⟨⟨fun _ => w, fun _ => hw.isGround⟩, allows_boundless .., w, hw, Term.sameParts_refl w⟩
  refine exists_reified rfl gives (List.forall₂_map_right_iff.mpr (all.imp ?_).flip)
  exact fun i t ht => exists_read_one ht

/-- A goal that begins with a case for each of some shapes of the one query variable. -/
lemma enumerates_shapes {p : Program} {x : String} {φ : Formula} {f : Nat → Term}
    (noIds : ∀ i, (f i).ids = [])
    (h : ∀ m, Goal.Begins p m 1 (φ.goal (.ofVars [⟨0, some x⟩])) (.boundless 1)
      ((List.range m).map fun i θ => (f i).Shaped (θ.value 0))) :
    (askOne p x φ).Enumerates fun i => (f i).fill (Term.placeholders (f i).wildcards) := by
  intro n
  obtain ⟨ts, ⟨shown, -⟩, branches⟩ := h n
  have all := branches.forall₂ fun i _ => by
    obtain ⟨w, hw⟩ := Term.exists_fills (noIds i)
    exact ⟨⟨fun _ => w, fun _ => hw.isGround⟩, allows_boundless .., w, hw, Term.sameParts_refl w⟩
  have calm (m : Nat) : (askOne p x φ).search.Calm p.unfold m := by
    obtain ⟨_, ⟨-, calm⟩, -⟩ := h m
    exact calm
  have length : ts.length = n := by rw [← all.length_eq, List.length_range]
  obtain ⟨budget, r, taken, rfl⟩ := Burst.exists_take (b := .quiet (askOne p x φ).search.stream)
    shown fun m => (calm m).quiet
  obtain ⟨found, read, values⟩ := exists_mapM (all.flip.imp fun t i ht =>
    exists_read_one (p := p) (x := x) (φ := φ) ht)
  refine ⟨budget, found, ?_, List.forall₂_map_right_iff.mpr values⟩
  rw [length] at taken
  have states : (askOne p x φ).states budget = .ok (askOne p x φ).search.stream :=
    (calm 1).stream?_eq
  simp only [reifiedFirst, states]
  exact (congrArg (fun h : Except Halt (Harvest State) =>
    h >>= fun h => h.items.toList.mapM (askOne p x φ).read) taken).trans read

end Query

end Relational
