import Relational.Event

/-!
Lazy streams. A stream has ended, or gives an element, or is suspended. What is suspended is
itself data: a seed that unfolds to the next piece, a piece that waits to be computed, or a
stream operation waiting for its operand. So a stream that never ends is a finite value, and
forcing it once is a recursion that ends.

A piece that is computed at one go is a burst: what it told of itself, and the stream it left.
-/

namespace Relational

variable {σ α : Type}

mutual

/-- A stream of `α` that unfolds from seeds in `σ`. -/
inductive Stream (σ α : Type) where
  | empty
  | node (a : α) (rest : Stream σ α)
  | suspended (c : Suspension σ α)

/-- The rest of a stream, for whoever forces it. -/
inductive Suspension (σ α : Type) where
  /-- What the seed unfolds to. -/
  | seed (x : σ)
  /-- A piece not computed yet. -/
  | later (f : Unit → Burst σ α)
  /-- A stream interleaved with what the suspension leaves. -/
  | interleave (s : Stream σ α) (c : Suspension σ α)
  /-- What the suspension leaves, each element replaced by a stream. -/
  | andThen (c : Suspension σ α) (k : α → Burst σ α)

/-- The events of one piece of a search, and the stream it left. -/
inductive Burst (σ α : Type) where
  | mk (events : List Event) (stream : Stream σ α)

end

namespace Burst

def events : Burst σ α → List Event
  | mk es _ => es

def stream : Burst σ α → Stream σ α
  | mk _ s => s

@[simp] theorem events_mk (es : List Event) (s : Stream σ α) : (mk es s).events = es := rfl

@[simp] theorem stream_mk (es : List Event) (s : Stream σ α) : (mk es s).stream = s := rfl

@[ext] theorem ext {b c : Burst σ α} (he : b.events = c.events) (hs : b.stream = c.stream) :
    b = c := by
  cases b; cases c; simp_all

def quiet (s : Stream σ α) : Burst σ α := mk [] s

def stop (why : Halt) : Burst σ α := mk [.halted why] .empty

def after (e : Event) (b : Burst σ α) : Burst σ α := mk (e :: b.events) b.stream

end Burst

namespace Stream

def singleton (a : α) : Stream σ α := node a empty

def ofList (as : List α) : Stream σ α := as.foldr node empty

/-- Interleaves two streams: elements at hand come first, and at a suspension the two streams
change places, so that neither waits for the other for ever. -/
def merge : Stream σ α → Stream σ α → Stream σ α
  | empty, t => t
  | node a d, t => node a (d.merge t)
  | suspended c, t => suspended (.interleave t c)

@[simp] theorem empty_merge (t : Stream σ α) : empty.merge t = t := rfl

@[simp] theorem node_merge (a : α) (d t : Stream σ α) :
    (node a d).merge t = node a (d.merge t) := rfl

@[simp] theorem suspended_merge (c : Suspension σ α) (t : Stream σ α) :
    (suspended c).merge t = suspended (.interleave t c) := rfl

/-- Replaces each element by a stream and interleaves these. -/
def bind (k : α → Burst σ α) : Stream σ α → Burst σ α
  | empty => .quiet empty
  | node a d =>
    let first := k a
    let others := d.bind k
    .mk (first.events ++ others.events) (first.stream.merge others.stream)
  | suspended c => .quiet (suspended (.andThen c k))

end Stream

namespace Burst

/-- Two bursts, one computed after the other, with their streams interleaved. -/
def merge (b c : Burst σ α) : Burst σ α := mk (b.events ++ c.events) (b.stream.merge c.stream)

/-- A burst that goes on with each element of its stream. -/
def bind (k : α → Burst σ α) (b : Burst σ α) : Burst σ α :=
  let rest := b.stream.bind k
  mk (b.events ++ rest.events) rest.stream

end Burst

/-- What a suspension leaves when it is forced once. -/
def Suspension.force (unfold : σ → Burst σ α) : Suspension σ α → Burst σ α
  | seed x => unfold x
  | later f => f ()
  | interleave s c =>
    let b := c.force unfold
    .mk b.events (s.merge b.stream)
  | andThen c k => (c.force unfold).bind k

/-- Forcing an interleaving puts the stream first that had to wait. -/
@[simp] theorem Suspension.stream_force_interleave (unfold : σ → Burst σ α) (s : Stream σ α)
    (c : Suspension σ α) :
    ((interleave s c).force unfold).stream = s.merge (c.force unfold).stream := by
  rw [force, Burst.stream_mk]

end Relational
