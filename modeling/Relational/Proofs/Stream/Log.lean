import Mathlib.Data.List.Perm.Subperm
import Mathlib.Tactic.Lemma
import Relational.Stream.Observe

/-!
What a search shows when it is forced again and again: the events of each burst, and then the
elements that it left at hand. Interleaving two searches loses nothing of what they show and
delays it by no more than half; going on with each element loses nothing either.
-/

namespace Relational

open scoped List

variable {σ α : Type} (unfold : σ → Burst σ α)

lemma Event.halt?_eq_none {es : List Event} : halt? es = none ↔ ∀ why, halted why ∉ es := by
  fun_induction halt? es with
  | case1 => simp
  | case2 why es =>
    constructor
    · intro h
      cases h
    · intro h
      exact absurd List.mem_cons_self (h why)
  | case3 e es he ih =>
    rw [ih]
    constructor
    · intro h why hw
      rcases List.mem_cons.mp hw with rfl | hw
      · exact he why rfl
      · exact h why hw
    · exact fun h why hw => h why (List.mem_cons_of_mem e hw)

/-- What the first `n` bursts of a search tell and give, in this order. -/
def Burst.log : Nat → Burst σ α → List (Event ⊕ α)
  | 0, _ => []
  | n + 1, b => b.events.map .inl ++ b.stream.front.map .inr ++
    match b.stream.back with
    | none => []
    | some c => log n (c.force unfold)

/-- What `n` bursts show once the elements at hand are taken. -/
def Stream.rest (n : Nat) (s : Stream σ α) : List (Event ⊕ α) :=
  match s.back with
  | none => []
  | some c => (c.force unfold).log unfold n

lemma Stream.rest_ended {s : Stream σ α} (h : s.back = none) (n : Nat) :
    s.rest unfold n = [] := by
  simp [rest, h]

lemma Stream.rest_forced {s : Stream σ α} {c : Suspension σ α} (h : s.back = some c) (n : Nat) :
    s.rest unfold n = (c.force unfold).log unfold n := by
  simp [rest, h]

namespace Burst

@[simp] lemma log_zero (b : Burst σ α) : b.log unfold 0 = [] := rfl

lemma log_succ (n : Nat) (b : Burst σ α) : b.log unfold (n + 1) =
    b.events.map .inl ++ b.stream.front.map .inr ++ b.stream.rest unfold n := rfl

lemma log_quiet_succ (n : Nat) (s : Stream σ α) :
    (quiet s).log unfold (n + 1) = s.front.map .inr ++ s.rest unfold n := rfl

lemma log_initial {m n : Nat} (h : m ≤ n) (b : Burst σ α) :
    b.log unfold m <+: b.log unfold n := by
  induction m generalizing n b with
  | zero => exact List.nil_prefix
  | succ m ih =>
    obtain ⟨n, rfl⟩ : ∃ k, n = k + 1 := ⟨n - 1, by omega⟩
    rw [log_succ, log_succ, List.prefix_append_right_inj]
    unfold Stream.rest
    split
    · exact List.prefix_refl _
    · exact ih (by omega) _

lemma log_subperm {m n : Nat} (h : m ≤ n) (b : Burst σ α) :
    b.log unfold m <+~ b.log unfold n :=
  (log_initial unfold h b).sublist.subperm

lemma log_subperm_quiet (n : Nat) (b : Burst σ α) :
    b.log unfold n <+~ b.events.map .inl ++ (quiet b.stream).log unfold n := by
  cases n with
  | zero => simp
  | succ n => simp [log_succ, quiet, List.Subperm.refl]

end Burst

/-! ### Interleaving -/

namespace Stream

variable (s t : Stream σ α)

/-- An interleaving has the second stream at hand only once the first has ended. -/
lemma front_merge : (s.merge t).front =
    s.front ++ match s.back with | none => t.front | some _ => [] := by
  fun_induction merge s t with
  | case1 => rfl
  | case2 a d t ih => exact congrArg (a :: ·) ih
  | case3 => rfl

lemma back_merge : (s.merge t).back =
    match s.back with
    | none => t.back
    | some c => some (.interleave t c) := by
  fun_induction merge s t with
  | case1 => rfl
  | case2 a d t ih => exact ih
  | case3 => rfl

end Stream

namespace Burst

variable {unfold}

lemma force_interleave (s : Stream σ α) (c : Suspension σ α) :
    (Suspension.interleave s c).force unfold = (quiet s).merge (c.force unfold) := rfl

lemma log_merge_ended {b : Burst σ α} (h : b.stream.back = none) (c : Burst σ α) (n : Nat) :
    (b.merge c).log unfold (n + 1) = b.events.map .inl ++ c.events.map .inl ++
      (b.stream.front.map .inr ++ c.stream.front.map .inr) ++ c.stream.rest unfold n := by
  simp [log_succ, merge, Stream.front_merge, Stream.rest, Stream.back_merge, h]

/-- An interleaving whose first search goes on: the searches change places. -/
lemma log_merge_forced {b : Burst σ α} {d : Suspension σ α} (h : b.stream.back = some d)
    (c : Burst σ α) (n : Nat) :
    (b.merge c).log unfold (n + 1) = b.events.map .inl ++ c.events.map .inl ++
      b.stream.front.map .inr ++ ((quiet c.stream).merge (d.force unfold)).log unfold n := by
  simp [log_succ, merge, Stream.front_merge, Stream.rest, Stream.back_merge, h, force_interleave]

/-- An interleaving shows nothing that the two searches do not show as soon. -/
theorem log_merge_subperm (n : Nat) (b c : Burst σ α) :
    (b.merge c).log unfold n <+~ b.log unfold n ++ c.log unfold n := by
  classical
  induction n generalizing b c with
  | zero => simp
  | succ n ih =>
    rw [log_succ unfold n b, log_succ unfold n c, List.subperm_iff_count]
    intro x
    rcases h : b.stream.back with _ | d
    · rw [log_merge_ended h, Stream.rest_ended unfold h]
      simp only [List.count_append]
      omega
    · rw [log_merge_forced h]
      have both := List.subperm_iff_count.mp (ih (quiet c.stream) (d.force unfold)) x
      have less := List.subperm_iff_count.mp (log_subperm unfold n.le_succ (quiet c.stream)) x
      rw [log_quiet_succ] at less
      rw [Stream.rest_forced unfold h]
      simp only [List.count_append] at both less ⊢
      omega

/-- An interleaving shows what each of two searches shows, the first after less than twice as
many bursts and the second after twice as many. -/
theorem subperm_log_merge {i j n : Nat} (hi : 2 * i ≤ n + 1) (hj : 2 * j ≤ n)
    (b c : Burst σ α) : b.log unfold i ++ c.log unfold j <+~ (b.merge c).log unfold n := by
  classical
  induction n generalizing i j b c with
  | zero =>
    obtain rfl : i = 0 := by omega
    obtain rfl : j = 0 := by omega
    simp
  | succ n ih =>
    have hb := log_subperm unfold (show i ≤ i - 1 + 1 by omega) b
    rw [log_succ] at hb
    rw [List.subperm_iff_count] at hb ⊢
    intro x
    have hbx := hb x
    rcases h : b.stream.back with _ | d
    · have hc := List.subperm_iff_count.mp (log_subperm unfold (show j ≤ n + 1 by omega) c) x
      rw [log_succ] at hc
      rw [Stream.rest_ended unfold h] at hbx
      rw [log_merge_ended h]
      simp only [List.count_append, List.count_nil] at hbx hc ⊢
      omega
    · -- the second search comes first now, with one burst less to wait for the first
      have swapped := List.subperm_iff_count.mp (ih (i := j) (j := i - 1) (by omega)
        (by omega) (quiet c.stream) (d.force unfold)) x
      have hc := List.subperm_iff_count.mp (log_subperm_quiet unfold j c) x
      rw [Stream.rest_forced unfold h] at hbx
      rw [log_merge_forced h]
      simp only [List.count_append] at swapped hbx hc ⊢
      omega

end Burst

end Relational
