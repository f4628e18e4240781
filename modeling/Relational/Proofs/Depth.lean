import Mathlib.Data.Finset.Card
import Mathlib.Data.Nat.Find
import Mathlib.Logic.Relation
import Mathlib.Tactic.Lemma

/-!
How deep a recursion has to be followed. A call that ends at some depth and not before makes a
call that ends just one level higher, so the calls from it down to its end have all depths up to
its own. Calls of different depths differ; if finitely many keys tell them apart, no call that
ends is deeper than there are keys.
-/

open Relation (ReflTransGen)

namespace Relational

lemma eq_some_of_isSome {α : Type} {f : Nat → Option α}
    (mono : ∀ {m n : Nat} {a : α}, f m = some a → m ≤ n → f n = some a) {m n : Nat} {a : α}
    (hm : f m = some a) (hn : (f n).isSome = true) : f n = some a := by
  obtain ⟨b, hb⟩ := Option.isSome_iff_exists.mp hn
  have deep := mono hb (Nat.le_max_right m n)
  rw [mono hm (Nat.le_max_left m n)] at deep
  rw [hb, deep]

variable {C K : Type} {Done : Nat → C → Prop} {Calls : C → C → Prop}

/-- A recursion with calls in `C`, of which `Done n c` says that the call ends within depth `n`. -/
structure Descent (Done : Nat → C → Prop) (Calls : C → C → Prop) : Prop where
  mono {m n : Nat} {c : C} (h : Done m c) (hmn : m ≤ n) : Done n c
  below {n : Nat} {c : C} (h : Done (n + 2) c) (hn : ¬Done (n + 1) c) :
    ∃ d, Calls c d ∧ Done (n + 1) d ∧ ¬Done n d

namespace Descent

/-- Below a call that ends at depth `n + 1` there are calls for all depths. -/
lemma exists_chain (h : Descent Done Calls) {n : Nat} {c : C} (hc : Done (n + 1) c)
    (hn : ¬Done n c) :
    ∃ f : Nat → C, f n = c ∧ (∀ i ≤ n, Done (i + 1) (f i) ∧ ¬Done i (f i)) ∧
      ∀ j ≤ n, ∀ i ≤ j, ReflTransGen Calls (f j) (f i) := by
  induction n generalizing c with
  | zero =>
    refine ⟨fun _ => c, rfl, fun i hi => ?_, fun _ _ _ _ => .refl⟩
    obtain rfl : i = 0 := by omega
    exact ⟨hc, hn⟩
  | succ n ih =>
    obtain ⟨d, hcd, hd, hdn⟩ := h.below hc hn
    obtain ⟨f, rfl, hf, path⟩ := ih hd hdn
    obtain ⟨g, top, low⟩ : ∃ g : Nat → C, g (n + 1) = c ∧ ∀ i ≤ n, g i = f i :=
      ⟨fun i => if i ≤ n then f i else c, if_neg (by omega), fun i hi => if_pos hi⟩
    refine ⟨g, top, fun i hi => ?_, fun j hj i hij => ?_⟩
    · rcases Nat.lt_or_ge n i with hi' | hi'
      · obtain rfl : i = n + 1 := by omega
        rw [top]
        exact ⟨hc, hn⟩
      · rw [low i hi']
        exact hf i hi'
    · rcases Nat.lt_or_ge n j with hj' | hj'
      · obtain rfl : j = n + 1 := by omega
        rw [top]
        rcases Nat.lt_or_ge n i with hi' | hi'
        · obtain rfl : i = n + 1 := by omega
          rw [top]
        · rw [low i hi']
          exact .head hcd (path n (Nat.le_refl n) i hi')
      · rw [low j hj', low i (by omega)]
        exact path j hj' i hij

/-- **A call that ends does so within as many levels as there are keys**, where calls below a
call with its key are no deeper than it is. -/
theorem done_card (h : Descent Done Calls) {c : C} (S : Finset K) (key : C → K)
    (hkey : ∀ d, ReflTransGen Calls c d → ¬Done 0 d → key d ∈ S)
    (same : ∀ d e, ReflTransGen Calls c d → ReflTransGen Calls d e → ¬Done 0 d → ¬Done 0 e →
      key d = key e → ∀ n, Done n e → Done n d)
    {m : Nat} (hm : Done m c) : Done S.card c := by
  classical
  by_contra hcard
  have ends : ∃ n, Done n c := ⟨m, hm⟩
  have late : S.card < Nat.find ends := by
    by_contra hle
    exact hcard (h.mono (Nat.find_spec ends) (by omega))
  obtain ⟨n, least⟩ : ∃ n, Nat.find ends = n + 1 := ⟨Nat.find ends - 1, by omega⟩
  have hc : Done (n + 1) c := least ▸ Nat.find_spec ends
  have hn : ¬Done n c := Nat.find_min ends (by omega)
  obtain ⟨f, rfl, hf, path⟩ := h.exists_chain hc hn
  have start : ∀ i ≤ n, ¬Done 0 (f i) := fun i hi h0 => (hf i hi).2 (h.mono h0 (Nat.zero_le i))
  have apart : ∀ j ≤ n, ∀ i < j, key (f j) ≠ key (f i) := by
    intro j hj i hij heq
    have higher := h.mono (hf i (by omega)).1 (show i + 1 ≤ j by omega)
    exact (hf j hj).2 (same _ _ (path n (Nat.le_refl n) j hj) (path j hj i (by omega))
      (start j hj) (start i (by omega)) heq j higher)
  have count : (Finset.range (n + 1)).card ≤ S.card := by
    refine Finset.card_le_card_of_injOn (fun i => key (f i)) (fun i hi => ?_)
      fun i hi j hj heq => ?_
    · have hi : i ≤ n := by simpa [Nat.lt_succ_iff] using hi
      exact hkey _ (path n (Nat.le_refl n) i hi) (start i hi)
    · have hi : i ≤ n := by simpa [Nat.lt_succ_iff] using hi
      have hj : j ≤ n := by simpa [Nat.lt_succ_iff] using hj
      rcases Nat.lt_trichotomy i j with hij | rfl | hij
      · exact absurd heq.symm (apart j hj i hij)
      · rfl
      · exact absurd heq (apart i hi j hij)
  rw [Finset.card_range] at count
  omega

end Descent

end Relational
