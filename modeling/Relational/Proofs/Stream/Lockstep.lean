import Mathlib.Data.List.Forall2
import Relational.Proofs.Stream.Log

/-!
Two searches that go on in lockstep: forced again and again, they stop for the same reason, leave
as many elements at hand, each related to its counterpart, and end together. Interleaving and
going on with each element keep it so, and the traces of two such searches are alike. Nothing is
said of what comes after the counter of the second search has started again.
-/

namespace Relational

variable {σ τ α β : Type} {R : α → β → Prop} {f : σ → Burst σ α} {g : τ → Burst τ β}

lemma Event.halt?_append (es es' : List Event) :
    halt? (es ++ es') = (halt? es).or (halt? es') := by
  fun_induction halt? es with
  | case1 => rfl
  | case2 why es => rfl
  | case3 e es he ih =>
    rw [List.cons_append, halt?, ih]
    exact he

namespace Burst

/-- The first `n` bursts of two searches correspond, with related elements at hand, unless the
counter of the second search starts again before. -/
def Lockstep (R : α → β → Prop) (f : σ → Burst σ α) (g : τ → Burst τ β) :
    Nat → Burst σ α → Burst τ β → Prop
  | 0, _, _ => True
  | n + 1, b, c => .overflowed ∈ c.events ∨ Event.halt? b.events = Event.halt? c.events ∧
      List.Forall₂ R b.stream.front c.stream.front ∧
      Option.Rel (fun d e => Lockstep R f g n (d.force f) (e.force g)) b.stream.back c.stream.back

variable {n : Nat} {b b' : Burst σ α} {c c' : Burst τ β} {s s' : Stream σ α} {t t' : Stream τ β}

lemma Lockstep.pred (h : Lockstep R f g (n + 1) b c) : Lockstep R f g n b c := by
  induction n generalizing b c with
  | zero => trivial
  | succ n ih =>
    refine h.imp_right fun ⟨halt, front, back⟩ => ⟨halt, front, ?_⟩
    cases hb : b.stream.back <;> cases hc : c.stream.back <;> rw [hb, hc] at back <;> cases back
    · exact .none
    · exact .some (ih ‹_›)

lemma lockstep_of_overflowed (h : .overflowed ∈ c.events) : Lockstep R f g n b c := by
  cases n with
  | zero => trivial
  | succ n => exact .inl h

lemma Lockstep.quiet (h : Lockstep R f g n b c) (calm : .overflowed ∉ c.events) :
    Lockstep R f g n (.quiet b.stream) (.quiet c.stream) := by
  cases n with
  | zero => trivial
  | succ n => exact .inr ⟨rfl, (h.resolve_left calm).2⟩

lemma lockstep_empty : Lockstep R f g n (.quiet .empty) (.quiet .empty) := by
  cases n with
  | zero => trivial
  | succ n => exact .inr ⟨rfl, .nil, .none⟩

lemma lockstep_singleton {a : α} {a' : β} (h : R a a') :
    Lockstep R f g n (.quiet (.singleton a)) (.quiet (.singleton a')) := by
  cases n with
  | zero => trivial
  | succ n => exact .inr ⟨rfl, .cons h .nil, .none⟩

lemma lockstep_stop (why : Halt) : Lockstep R f g n (.stop why) (.stop why) := by
  cases n with
  | zero => trivial
  | succ n => exact .inr ⟨rfl, .nil, .none⟩

lemma lockstep_suspended {d : Suspension σ α} {e : Suspension τ β}
    (h : ∀ m < n, Lockstep R f g m (d.force f) (e.force g)) :
    Lockstep R f g n (.quiet (.suspended d)) (.quiet (.suspended e)) := by
  cases n with
  | zero => trivial
  | succ n => exact .inr ⟨rfl, .nil, .some (h n n.lt_succ_self)⟩

lemma Lockstep.after (h : Lockstep R f g n b c) {x y : Event} (hx : Event.halt? [x] = none)
    (hy : Event.halt? [y] = none) : Lockstep R f g n (b.after x) (c.after y) := by
  cases n with
  | zero => trivial
  | succ n =>
    refine h.imp (List.mem_cons_of_mem y) fun ⟨halt, same⟩ => ⟨?_, same⟩
    have told := congrArg₂ Option.or (hx.trans hy.symm) halt
    rwa [← Event.halt?_append, ← Event.halt?_append] at told

theorem Lockstep.merge (h : Lockstep R f g n b c) (h' : Lockstep R f g n b' c') :
    Lockstep R f g n (b.merge b') (c.merge c') := by
  induction n generalizing b b' c c' with
  | zero => trivial
  | succ n ih =>
    rcases h with ran | ⟨halt, front, back⟩
    · exact .inl (List.mem_append_left _ ran)
    by_cases calm : .overflowed ∈ c'.events
    · exact .inl (List.mem_append_right _ calm)
    obtain ⟨halt', front', back'⟩ := h'.resolve_left calm
    refine .inr ⟨?_, ?_, ?_⟩
    · simp only [Burst.merge, events_mk, Event.halt?_append, halt, halt']
    all_goals
      simp only [Burst.merge, stream_mk, Stream.front_merge, Stream.back_merge]
      cases hb : b.stream.back <;> cases hc : c.stream.back <;> rw [hb, hc] at back <;> cases back
    · exact List.rel_append front front'
    · exact List.rel_append front .nil
    · exact back'
    · -- the other search comes first now
      exact .some (ih (h'.pred.quiet calm) ‹_›)

lemma Lockstep.streams (h : Lockstep R f g (n + 1) (.quiet s) (.quiet t)) :
    (s = .empty ∧ t = .empty) ∨
    (∃ a r a' r', s = .node a r ∧ t = .node a' r' ∧ R a a' ∧
      Lockstep R f g (n + 1) (.quiet r) (.quiet r')) ∨
    ∃ d e, s = .suspended d ∧ t = .suspended e ∧ Lockstep R f g n (d.force f) (e.force g) := by
  obtain ⟨-, front, back⟩ := h.resolve_left List.not_mem_nil
  cases s with
  | empty =>
    cases t with
    | empty => exact .inl ⟨rfl, rfl⟩
    | node a' r' => cases front
    | suspended e => cases back
  | node a r =>
    cases t with
    | empty => cases front
    | node a' r' =>
      cases front with
      | cons ha front =>
        exact .inr (.inl ⟨a, r, a', r', rfl, rfl, ha, .inr ⟨rfl, front, back⟩⟩)
    | suspended e => cases front
  | suspended d =>
    cases t with
    | empty => cases back
    | node a' r' => cases front
    | suspended e =>
      cases back with
      | some hde => exact .inr (.inr ⟨d, e, rfl, rfl, hde⟩)

/-- Searches in lockstep that go on in lockstep with related elements do so as a whole. -/
theorem Lockstep.bind {k : α → Burst σ α} {l : β → Burst τ β} (h : Lockstep R f g n b c)
    (hk : ∀ a a', R a a' → Lockstep R f g n (k a) (l a')) :
    Lockstep R f g n (b.bind k) (c.bind l) := by
  induction n generalizing b c with
  | zero => trivial
  | succ n ih =>
    have later (b : Burst σ α) (c : Burst τ β) (h : Lockstep R f g n b c) :
        Lockstep R f g n (b.bind k) (c.bind l) :=
      ih h fun a a' ha => (hk a a' ha).pred
    -- the elements at hand one by one, and then what is suspended behind them
    have stream (s : Stream σ α) (t : Stream τ β)
        (hst : Lockstep R f g (n + 1) (.quiet s) (.quiet t)) :
        Lockstep R f g (n + 1) (s.bind k) (t.bind l) := by
      fun_induction Stream.bind k s generalizing t with
      | case1 =>
        obtain ⟨-, rfl⟩ | ⟨_, _, _, _, hs, -⟩ | ⟨_, _, hs, -⟩ := hst.streams
        · exact lockstep_empty
        · cases hs
        · cases hs
      | case2 a r first others ihr =>
        obtain ⟨hs, -⟩ | ⟨_, _, a', r', hs, rfl, ha, hr⟩ | ⟨_, _, hs, -⟩ := hst.streams
        · cases hs
        · cases hs
          exact (hk a a' ha).merge (ihr r' hr)
        · cases hs
      | case3 d =>
        obtain ⟨hs, -⟩ | ⟨_, _, _, _, hs, -⟩ | ⟨_, e, hs, rfl, hde⟩ := hst.streams
        · cases hs
        · cases hs
        · cases hs
          exact .inr ⟨rfl, .nil, .some (later _ _ hde)⟩
    by_cases calm : .overflowed ∈ c.events
    · exact .inl (List.mem_append_left _ calm)
    rcases stream b.stream c.stream (h.quiet calm) with ran | ⟨halt, rest⟩
    · exact .inl (List.mem_append_right _ ran)
    refine .inr ⟨?_, rest⟩
    simp only [Burst.bind, events_mk, Event.halt?_append, (h.resolve_left calm).1, halt]

end Burst

/-! ### Traces -/

inductive Mark.Alike (R : α → β → Prop) : Mark α → Mark β → Prop
  | forced {n : Nat} : Alike R (.forced n) (.forced n)
  | element {a : α} {a' : β} (h : R a a') : Alike R (.element a) (.element a')
  | ended : Alike R .ended .ended
  | cut : Alike R .cut .cut

inductive Outcome {ε γ δ : Type} (Q : γ → δ → Prop) : Except ε γ → Except ε δ → Prop
  | ok {x : γ} {y : δ} (h : Q x y) : Outcome Q (.ok x) (.ok y)
  | error (e : ε) : Outcome Q (.error e) (.error e)

lemma Mark.Alike.imp {Q : α → β → Prop} (hRQ : ∀ a a', R a a' → Q a a') {m : Mark α} {m' : Mark β}
    (h : m.Alike R m') : m.Alike Q m' := by
  cases h with
  | forced => exact .forced
  | element h => exact .element (hRQ _ _ h)
  | ended => exact .ended
  | cut => exact .cut

variable {s : Stream σ α} {t : Stream τ β}

lemma Mark.alike_pending (k : Nat) :
    List.Forall₂ (Alike R) (pending k : List (Mark α)) (pending k) := by
  unfold pending
  split
  · exact .nil
  · exact .cons .forced .nil

lemma Burst.mem_log_of_mem_events {b : Burst σ α} {e : Event} {n : Nat} (h : e ∈ b.events) :
    .inl e ∈ b.log f (n + 1) := by
  simp [log_succ, h]

lemma Burst.mem_log_of_quiet {b : Burst σ α} {o : Event ⊕ α} {n : Nat}
    (h : o ∈ (quiet b.stream).log f (n + 1)) : o ∈ b.log f (n + 1) := by
  rw [log_quiet_succ] at h
  rw [log_succ, List.append_assoc]
  exact List.mem_append_right _ h

section

variable {a : α} {a' : β} {r : Stream σ α} {r' : Stream τ β} {d : Suspension σ α}
  {e : Suspension τ β}

lemma Burst.lockstep_tail
    (h : ∀ n, Burst.Lockstep R f g n (.quiet (.node a r)) (.quiet (.node a' r'))) (n : Nat) :
    Burst.Lockstep R f g n (.quiet r) (.quiet r') := by
  cases n with
  | zero => trivial
  | succ n =>
    obtain ⟨-, front, back⟩ := (h (n + 1)).resolve_left List.not_mem_nil
    exact .inr ⟨rfl, (List.forall₂_cons.mp front).2, back⟩

lemma Burst.lockstep_forced
    (h : ∀ n, Burst.Lockstep R f g n (.quiet (.suspended d)) (.quiet (.suspended e))) (n : Nat) :
    Burst.Lockstep R f g n (d.force f) (e.force g) := by
  obtain ⟨-, -, back⟩ := (h (n + 1)).resolve_left List.not_mem_nil
  cases back with
  | some hde => exact hde

end

theorem Stream.traceFrom_alike (h : ∀ n, Burst.Lockstep R f g n (.quiet s) (.quiet t))
    {steps : Nat} (calm : .inl .overflowed ∉ (Burst.quiet t).log g (steps + 1)) (k : Nat) :
    Outcome (List.Forall₂ (Mark.Alike R)) (s.traceFrom f steps k) (t.traceFrom g steps k) := by
  have pending := Mark.alike_pending (R := R) k
  induction steps generalizing s t k with
  | zero =>
    obtain ⟨rfl, rfl⟩ | ⟨_, _, _, _, rfl, rfl, -⟩ | ⟨_, _, rfl, rfl, -⟩ := (h 1).streams
    · exact .ok (List.rel_append pending (.cons .ended .nil))
    · exact .ok (List.rel_append pending (.cons .cut .nil))
    · exact .ok (List.rel_append pending (.cons .cut .nil))
  | succ steps ih =>
    obtain ⟨rfl, rfl⟩ | ⟨a, r, a', r', rfl, rfl, ha, -⟩ | ⟨d, e, rfl, rfl, -⟩ := (h 1).streams
    · exact .ok (List.rel_append pending (.cons .ended .nil))
    · have later : .inl .overflowed ∉ (Burst.quiet r').log g (steps + 1) := fun ran =>
        calm (List.mem_cons_of_mem _ (Burst.log_subperm g (steps + 1).le_succ _ |>.subset ran))
      have rest := ih (Burst.lockstep_tail h) later 0 .nil
      simp only [traceFrom]
      generalize r.traceFrom f steps 0 = ms at rest
      generalize r'.traceFrom g steps 0 = ms' at rest
      cases rest with
      | ok hms => exact .ok (List.rel_append pending (.cons (.element ha) hms))
      | error why => exact .error why
    · have forced := Burst.lockstep_forced h
      have later : .inl .overflowed ∉ (e.force g).log g (steps + 1) := calm
      have now : .overflowed ∉ (e.force g).events := fun ran =>
        later (Burst.mem_log_of_mem_events ran)
      simp only [traceFrom, ((forced 1).resolve_left now).1]
      split
      · exact .error _
      · exact ih (fun n => (forced n).quiet now) (fun ran => later (Burst.mem_log_of_quiet ran))
          (k + 1) (Mark.alike_pending _)

/-- Searches in lockstep have the same trace, with related elements, as far as the counter of the
second does not start again. -/
theorem Burst.trace_alike {b : Burst σ α} {c : Burst τ β} (h : ∀ n, Burst.Lockstep R f g n b c)
    {steps : Nat} (calm : .inl .overflowed ∉ c.log g (steps + 1)) :
    Outcome (List.Forall₂ (Mark.Alike R)) (b.trace f steps) (c.trace g steps) := by
  have now : .overflowed ∉ c.events := fun ran => calm (mem_log_of_mem_events ran)
  simp only [trace, ((h 1).resolve_left now).1]
  split
  · exact .error _
  · exact Stream.traceFrom_alike (fun n => (h n).quiet now)
      (fun ran => calm (mem_log_of_quiet ran)) 0

end Relational
