import Relational.Goal.Basic
import Relational.Proofs.Stream.Approximation

/-!
Laws of goals. Conjunction and disjunction have units, which change nothing of how a search
unrolls. Both are associative, disjunction is commutative, and conjunction distributes over
disjunction from either side; these laws hold up to the order of the states, since the two sides
come upon a state at different times.
-/

namespace Relational

open scoped List

variable {σ α : Type} {unfold : σ → Burst σ α}

/-! ### Units -/

lemma Stream.traceFrom_merge_empty (steps k : Nat) (s : Stream σ α) :
    (s.merge empty).traceFrom unfold steps k = s.traceFrom unfold steps k := by
  induction steps generalizing k s with
  | zero => cases s <;> rfl
  | succ steps ih =>
    cases s with
    | empty => rfl
    | node a d => simp only [node_merge, traceFrom, ih]
    | suspended c => rfl

namespace Goal

variable {unfold : σ → Burst σ State}

lemma events_bind_succeed (s : Stream σ State) : (s.bind succeed).events = [] := by
  fun_induction Stream.bind succeed s with
  | case1 => rfl
  | case2 a d first others ih => exact ih
  | case3 c => rfl

lemma traceFrom_bind_succeed (steps k : Nat) (s : Stream σ State) :
    (s.bind succeed).stream.traceFrom unfold steps k = s.traceFrom unfold steps k := by
  induction steps generalizing k s with
  | zero => cases s <;> rfl
  | succ steps ih =>
    cases s with
    | empty => rfl
    | node a d =>
      have here : ((Stream.node a d).bind succeed).stream =
          .node a (d.bind (succeed (σ := σ))).stream := rfl
      simp only [here, Stream.traceFrom, ih]
    | suspended c =>
      have forced : (Suspension.andThen c succeed).force unfold =
          (c.force unfold).bind succeed := rfl
      have here : ((Stream.suspended c).bind succeed).stream =
          .suspended (.andThen c (succeed (σ := σ))) := rfl
      simp only [here, Stream.traceFrom, forced, Burst.bind, events_bind_succeed,
        List.append_nil, Burst.events_mk, Burst.stream_mk, ih]

/-! ### Laws up to order -/

/-- Two goals that give every state equally often, and whose searches come to an end on the same
states. -/
structure Alike (unfold : σ → Burst σ State) (g h : Goal σ) : Prop where
  occurs (s t : State) (m : Nat) :
    (∃ n, List.replicate m t <+ (g s).stream.elements unfold n) ↔
      ∃ n, List.replicate m t <+ (h s).stream.elements unfold n
  ends (s : State) : (g s).Finishes unfold ↔ (h s).Finishes unfold

variable {a b c g h : Goal σ} {s : State}

section

variable {X Y : Nat → List State} {Z : State → Nat → List State}
  (hg : (g s).stream.Approximated unfold X)
include hg

lemma approximated_conj2 (hh : ∀ r, (h r).stream.Approximated unfold (Z r)) :
    (conj2 g h s).stream.Approximated unfold fun n => (X n).flatMap fun r => Z r n :=
  hg.bind hh

lemma approximated_disj2 (hh : (h s).stream.Approximated unfold Y) :
    (disj2 g h s).stream.Approximated unfold fun n => X n ++ Y n :=
  hg.merge hh

end

lemma approximated (unfold : σ → Burst σ State) (g : Goal σ) (s : State) :
    (g s).stream.Approximated unfold ((g s).stream.elements unfold ·) :=
  (g s).stream.approximated_self

lemma finishes_conj2 : (conj2 g h s).Finishes unfold ↔
    (g s).Finishes unfold ∧ ∀ r, (g s).Shows unfold (.inr r) → (h r).Finishes unfold :=
  Burst.finishes_bind

lemma finishes_disj2 : (disj2 g h s).Finishes unfold ↔
    (g s).Finishes unfold ∧ (h s).Finishes unfold :=
  Burst.finishes_merge

lemma shows_conj2_iff {t : State} : (conj2 g h s).Shows unfold (.inr t) ↔
    ∃ r, (g s).Shows unfold (.inr r) ∧ (h r).Shows unfold (.inr t) := by
  simp [conj2]

lemma shows_disj2_iff {t : State} : (disj2 g h s).Shows unfold (.inr t) ↔
    (g s).Shows unfold (.inr t) ∨ (h s).Shows unfold (.inr t) :=
  Burst.shows_merge

variable (unfold a b c) in
lemma alike_conj2_assoc : Alike unfold (conj2 (conj2 a b) c) (conj2 a (conj2 b c)) where
  occurs s t m := by
    have left := approximated_conj2 (approximated_conj2 (approximated unfold a s)
      fun r => approximated unfold b r) fun r => approximated unfold c r
    have right := approximated_conj2 (approximated unfold a s)
      fun r => approximated_conj2 (approximated unfold b r) fun r => approximated unfold c r
    exact left.replicate_congr right (fun n => by rw [List.flatMap_assoc]) m t
  ends s := by
    simp only [finishes_conj2, shows_conj2_iff]
    constructor
    · rintro ⟨⟨ha, hb⟩, hc⟩
      exact ⟨ha, fun r hr => ⟨hb r hr, fun t ht => hc t ⟨r, hr, ht⟩⟩⟩
    · rintro ⟨ha, hbc⟩
      exact ⟨⟨ha, fun r hr => (hbc r hr).1⟩, fun t ⟨r, hr, ht⟩ => (hbc r hr).2 t ht⟩

variable (unfold a b c) in
lemma alike_disj2_assoc : Alike unfold (disj2 (disj2 a b) c) (disj2 a (disj2 b c)) where
  occurs s t m := by
    have left := approximated_disj2 (approximated_disj2 (approximated unfold a s)
      (approximated unfold b s)) (approximated unfold c s)
    have right := approximated_disj2 (approximated unfold a s)
      (approximated_disj2 (approximated unfold b s) (approximated unfold c s))
    exact left.replicate_congr right (fun n => by rw [List.append_assoc]) m t
  ends s := by simp only [finishes_disj2, and_assoc]

variable (unfold a b) in
lemma alike_disj2_comm : Alike unfold (disj2 a b) (disj2 b a) where
  occurs s t m := by
    have left := approximated_disj2 (approximated unfold a s) (approximated unfold b s)
    have right := approximated_disj2 (approximated unfold b s) (approximated unfold a s)
    exact left.replicate_congr right (fun n => List.perm_append_comm) m t
  ends s := by rw [finishes_disj2, finishes_disj2, and_comm]

variable (unfold a b c) in
lemma alike_disj2_conj2 :
    Alike unfold (conj2 (disj2 a b) c) (disj2 (conj2 a c) (conj2 b c)) where
  occurs s t m := by
    have left := approximated_conj2 (approximated_disj2 (approximated unfold a s)
      (approximated unfold b s)) fun r => approximated unfold c r
    have right := approximated_disj2
      (approximated_conj2 (approximated unfold a s) fun r => approximated unfold c r)
      (approximated_conj2 (approximated unfold b s) fun r => approximated unfold c r)
    exact left.replicate_congr right (fun n => by rw [List.flatMap_append]) m t
  ends s := by
    simp only [finishes_conj2, finishes_disj2, shows_disj2_iff, or_imp, forall_and]
    exact and_and_and_comm

variable (unfold a b c) in
lemma alike_conj2_disj2 :
    Alike unfold (conj2 a (disj2 b c)) (disj2 (conj2 a b) (conj2 a c)) where
  occurs s t m := by
    have left := approximated_conj2 (approximated unfold a s)
      fun r => approximated_disj2 (approximated unfold b r) (approximated unfold c r)
    have right := approximated_disj2
      (approximated_conj2 (approximated unfold a s) fun r => approximated unfold b r)
      (approximated_conj2 (approximated unfold a s) fun r => approximated unfold c r)
    exact left.replicate_congr right (fun n => (List.flatMap_append_perm _ _ _).symm) m t
  ends s := by
    simp only [finishes_conj2, finishes_disj2, imp_and, forall_and]
    exact and_and_left

variable (unfold a) in
lemma alike_delay : Alike unfold (delay a) a where
  occurs s t m := by
    have left : (delay a s).stream.Approximated unfold ((a s).stream.elements unfold ·) :=
      Stream.Approximated.suspended (approximated unfold a s)
    exact left.replicate_congr (approximated unfold a s) (fun n => .refl _) m t
  ends s := Burst.finishes_suspended

lemma trace_disj2_fail (steps : Nat) :
    (disj2 a fail s).trace unfold steps = (a s).trace unfold steps := by
  have told : (disj2 a fail s).events = (a s).events := List.append_nil _
  have left : (disj2 a fail s).stream = (a s).stream.merge .empty := rfl
  rw [Burst.trace, Burst.trace, told, left, Stream.traceFrom_merge_empty]

lemma trace_conj2_succeed (steps : Nat) :
    (conj2 a succeed s).trace unfold steps = (a s).trace unfold steps := by
  have told : (conj2 a succeed s).events = (a s).events := by
    simp [conj2, Burst.bind, events_bind_succeed]
  have left : (conj2 a succeed s).stream = ((a s).stream.bind succeed).stream := rfl
  rw [Burst.trace, Burst.trace, told, left, traceFrom_bind_succeed]

lemma succeed_conj2 : conj2 succeed a s = disj2 a fail s := by
  refine Burst.ext ?_ rfl
  simp [conj2, disj2, succeed, fail, Burst.bind, Burst.merge, Burst.quiet, Stream.singleton,
    Stream.bind]

lemma fail_disj2 : disj2 fail a s = a s := Burst.ext rfl rfl

/-- **The algebra of goals**: `succeed` and `fail` are units of conjunction and disjunction, with
which a search unrolls step by step as without. Up to the order of the states, both operations
are associative, disjunction is commutative, conjunction distributes over it from both sides, and
a delay makes no difference. -/
theorem algebra (unfold : σ → Burst σ State) (a b c : Goal σ) :
    (∀ s steps, (conj2 succeed a s).trace unfold steps = (a s).trace unfold steps ∧
      (conj2 a succeed s).trace unfold steps = (a s).trace unfold steps ∧
      (disj2 fail a s).trace unfold steps = (a s).trace unfold steps ∧
      (disj2 a fail s).trace unfold steps = (a s).trace unfold steps) ∧
    Alike unfold (conj2 (conj2 a b) c) (conj2 a (conj2 b c)) ∧
    Alike unfold (disj2 (disj2 a b) c) (disj2 a (disj2 b c)) ∧
    Alike unfold (disj2 a b) (disj2 b a) ∧
    Alike unfold (conj2 (disj2 a b) c) (disj2 (conj2 a c) (conj2 b c)) ∧
    Alike unfold (conj2 a (disj2 b c)) (disj2 (conj2 a b) (conj2 a c)) ∧
    Alike unfold (delay a) a := by
  refine ⟨fun s steps => ⟨?_, trace_conj2_succeed steps, ?_, trace_disj2_fail steps⟩,
    alike_conj2_assoc unfold a b c, alike_disj2_assoc unfold a b c, alike_disj2_comm unfold a b,
    alike_disj2_conj2 unfold a b c, alike_conj2_disj2 unfold a b c, alike_delay unfold a⟩
  · rw [succeed_conj2]
    exact trace_disj2_fail steps
  · rw [fail_disj2]

end Goal

end Relational
