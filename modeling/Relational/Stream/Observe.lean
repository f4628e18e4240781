import Relational.Stream.Basic

/-!
What can be seen of a stream: what is at hand without forcing anything, its elements one after
another, and a trace of its forced suspensions and elements. A budget bounds how many
suspensions a collection may force.
-/

namespace Relational

variable {σ α : Type}

namespace Stream

def front : Stream σ α → List α
  | node a d => a :: d.front
  | _ => []

def back : Stream σ α → Option (Suspension σ α)
  | empty => none
  | node _ d => d.back
  | suspended c => some c

def isEmpty : Stream σ α → Bool
  | empty => true
  | _ => false

def length? (s : Stream σ α) : Option Nat :=
  if s.back.isSome then none else some s.front.length

/-- Equality of streams with nothing suspended; any other stream is equal to none. -/
def same (eq : α → α → Bool) : Stream σ α → Stream σ α → Bool
  | empty, empty => true
  | node a d, node b e => eq a b && d.same eq e
  | _, _ => false

/-- The printed form of elements at hand, with dots if something is suspended behind them. -/
def frame (elements : List String) (suspended : Bool) : String :=
  "(" ++ " ".intercalate (elements ++ if suspended then ["..."] else []) ++ ")"

def print (text : α → String) (s : Stream σ α) : String :=
  frame (s.front.map text) s.back.isSome

end Stream

/-- Elements collected from a stream, and the events on the way. -/
structure Harvest (α : Type) where
  items : Array α
  events : Array Event

namespace Harvest

/-- Is a collection of this size all that was wanted? -/
def enough (wanted : Option Nat) (size : Nat) : Bool :=
  match wanted with
  | some n => n ≤ size
  | none => false

/-- The first elements of a list that are still wanted. -/
def missing (wanted : Option Nat) (size : Nat) (as : List α) : List α :=
  match wanted with
  | some n => as.take (n - size)
  | none => as

/-- Goes on collecting until there are as many elements as wanted or the stream ends. Nothing
is forced once there are enough. -/
def gather (unfold : σ → Burst σ α) (wanted : Option Nat) :
    Nat → Harvest α → Stream σ α → Except Halt (Harvest α)
  | budget, h, s =>
    let items := h.items ++ missing wanted h.items.size s.front
    if enough wanted items.size then .ok ⟨items, h.events⟩
    else
      match s.back, budget with
      | none, _ => .ok ⟨items, h.events⟩
      | some _, 0 => .error .overBudget
      | some c, budget + 1 =>
        let b := c.force unfold
        match Event.halt? b.events with
        | some why => .error why
        | none => gather unfold wanted budget ⟨items, h.events ++ b.events⟩ b.stream

def stream (h : Harvest α) : Stream σ α := .ofList h.items.toList

end Harvest

variable (unfold : σ → Burst σ α)

/-- Forces suspensions until the stream is empty or gives an element. -/
def Stream.realize : Nat → Stream σ α → Except Halt (Stream σ α)
  | budget, suspended c =>
    match budget with
    | 0 => .error .overBudget
    | budget + 1 =>
      let b := c.force unfold
      match Event.halt? b.events with
      | some why => .error why
      | none => realize budget b.stream
  | _, s => .ok s

/-- An entry of a trace: some suspensions forced one after another, an element, the end, or the
place where the trace was cut off. -/
inductive Mark (α : Type) where
  | forced (n : Nat)
  | element (a : α)
  | ended
  | cut

def Mark.render {β ε : Type} (f : α → Except ε β) : Mark α → Except ε (Mark β)
  | forced n => .ok (forced n)
  | element a => (f a).map element
  | ended => .ok ended
  | cut => .ok cut

def Mark.pending (n : Nat) : List (Mark α) := if n = 0 then [] else [.forced n]

/-- Unrolls a stream by at most so many steps; a step forces a suspension or takes an element.
The second number counts the suspensions forced since the last element. -/
def Stream.traceFrom : Nat → Nat → Stream σ α → Except Halt (List (Mark α))
  | _, k, .empty => .ok (Mark.pending k ++ [.ended])
  | 0, k, _ => .ok (Mark.pending k ++ [.cut])
  | n + 1, k, .node a d =>
    (traceFrom n 0 d).map fun ms => Mark.pending k ++ .element a :: ms
  | n + 1, k, .suspended c =>
    let b := c.force unfold
    match Event.halt? b.events with
    | some why => .error why
    | none => traceFrom n (k + 1) b.stream

namespace Burst

def collect (wanted : Option Nat) (budget : Nat) (b : Burst σ α) : Except Halt (Harvest α) :=
  match Event.halt? b.events with
  | some why => .error why
  | none => Harvest.gather unfold wanted budget ⟨#[], b.events.toArray⟩ b.stream

def take (n budget : Nat) (b : Burst σ α) : Except Halt (Harvest α) :=
  b.collect unfold (some n) budget

def takeAll (budget : Nat) (b : Burst σ α) : Except Halt (Harvest α) :=
  b.collect unfold none budget

/-- What a burst left, unless it stopped. -/
def stream? (b : Burst σ α) : Except Halt (Stream σ α) :=
  match Event.halt? b.events with
  | some why => .error why
  | none => .ok b.stream

def trace (steps : Nat) (b : Burst σ α) : Except Halt (List (Mark α)) :=
  match Event.halt? b.events with
  | some why => .error why
  | none => b.stream.traceFrom unfold steps 0

end Burst

end Relational
