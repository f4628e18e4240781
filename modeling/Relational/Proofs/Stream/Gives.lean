import Mathlib.Data.List.Perm.Basic
import Relational.Proofs.Stream.Approximation

/-!
Searches that come to an end, with all that they give. In which order it is given is left out; so
interleaving appends, and going on with each element puts together what is given for each.
-/

namespace Relational.Burst

open scoped List

variable {σ α : Type} {unfold : σ → Burst σ α} {b c : Burst σ α} {k : α → Burst σ α}
  {as bs : List α}

/-- The search comes to an end, nothing stops it before, and these are its elements, each as often
as it is given. -/
def Gives (unfold : σ → Burst σ α) (b : Burst σ α) (as : List α) : Prop :=
  ∃ l, b.Collects unfold l ∧ l ~ as

namespace Gives

lemma empty : (quiet .empty : Burst σ α).Gives unfold [] := ⟨[], ⟨0, _, rfl, rfl⟩, .refl _⟩

lemma singleton (a : α) : (quiet (.singleton a) : Burst σ α).Gives unfold [a] :=
  ⟨[a], ⟨0, _, rfl, rfl⟩, .refl _⟩

lemma perm (h : b.Gives unfold as) (hab : as ~ bs) : b.Gives unfold bs := by
  obtain ⟨l, hl, order⟩ := h
  exact ⟨l, hl, order.trans hab⟩

lemma suspended {c : Suspension σ α} (h : (c.force unfold).Gives unfold as) :
    (quiet (.suspended c)).Gives unfold as := by
  obtain ⟨l, hl, order⟩ := h
  obtain ⟨⟨n, ends, rfl⟩, calm⟩ := collects_iff.mp hl
  refine ⟨_, collects_iff.mpr ⟨⟨n + 1, ?_, rfl⟩, fun why stopped => ?_⟩, order⟩
  · exact (Stream.endsWithin_suspended_succ unfold).mpr ends
  · exact calm why (shows_suspended.mp stopped)

lemma after (h : b.Gives unfold as) {e : Event} (he : ∀ why, e ≠ .halted why) :
    (b.after e).Gives unfold as := by
  obtain ⟨l, hl, order⟩ := h
  obtain ⟨ends, calm⟩ := collects_iff.mp hl
  refine ⟨l, collects_iff.mpr ⟨ends, fun why stopped => ?_⟩, order⟩
  rcases shows_after.mp stopped with here | later
  · exact he why (Sum.inl.inj here).symm
  · exact calm why later

lemma merge (hb : b.Gives unfold as) (hc : c.Gives unfold bs) :
    (b.merge c).Gives unfold (as ++ bs) := by
  obtain ⟨l, hl, orderL⟩ := hb
  obtain ⟨m, hm, orderM⟩ := hc
  obtain ⟨r, hr⟩ := finishes_merge.mpr ⟨⟨l, hl⟩, m, hm⟩
  refine ⟨r, hr, .trans ?_ (orderL.append orderM)⟩
  obtain ⟨i, hi⟩ := hl.eq_elements
  obtain ⟨j, hj⟩ := hm.eq_elements
  obtain ⟨k, hk⟩ := hr.eq_elements
  -- forced so often that all three have ended
  obtain ⟨n, hin, hjn, hkn⟩ : ∃ n, i ≤ n ∧ j ≤ n ∧ k ≤ n :=
    ⟨i + j + k, by omega, by omega, by omega⟩
  have both : (b.merge c).stream.Approximated unfold fun n =>
      b.stream.elements unfold n ++ c.stream.elements unfold n :=
    b.stream.approximated_self.merge c.stream.approximated_self
  have less := both.bounded n
  rw [hk n hkn, hi n hin, hj n hjn] at less
  obtain ⟨N, more⟩ := both.reached n
  have later : (b.merge c).stream.elements unfold N <+: r := by
    rw [← hk (max n N) (by omega)]
    exact Stream.elements_initial unfold (Nat.le_max_right n N) _
  rw [hi n hin, hj n hjn] at more
  exact less.antisymm (more.trans later.sublist.subperm)

lemma exists_collects {ls : List (List α)}
    (h : List.Forall₂ (fun a l => (k a).Gives unfold l) as ls) :
    ∃ ms, List.Forall₂ (fun a m => (k a).Collects unfold m) as ms ∧
      List.Forall₂ (fun m l => m ~ l) ms ls := by
  induction h with
  | nil => exact ⟨[], .nil, .nil⟩
  | cons ha _ ih =>
    obtain ⟨m, hm, order⟩ := ha
    obtain ⟨ms, hms, orders⟩ := ih
    exact ⟨m :: ms, .cons hm hms, .cons order orders⟩

lemma bind {ls : List (List α)} (hb : b.Gives unfold as)
    (hk : List.Forall₂ (fun a l => (k a).Gives unfold l) as ls) :
    (b.bind k).Gives unfold ls.flatten := by
  obtain ⟨l, hl, order⟩ := hb
  obtain ⟨ls', each, orders⟩ := List.perm_comp_forall₂ order hk
  obtain ⟨ms, collected, same⟩ := exists_collects each
  have finishes : ∀ a, b.Shows unfold (.inr a) → (k a).Finishes unfold := by
    intro a ha
    obtain ⟨i, hi, rfl⟩ := List.getElem_of_mem (hl.mem_iff.mp ha)
    exact ⟨_, collected.get hi (collected.length_eq ▸ hi)⟩
  obtain ⟨r, hr⟩ := finishes_bind.mpr ⟨⟨l, hl⟩, finishes⟩
  refine ⟨r, hr, ?_⟩
  calc r ~ ms.flatten := hl.perm_bind collected hr
    _ ~ ls'.flatten := .flatten_congr same
    _ ~ ls.flatten := orders.flatten

end Gives

end Relational.Burst
