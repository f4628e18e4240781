import Relational.Stream.Observe

/-!
A small language of integer streams, for looking at streams apart from any search. Streams are
built at once, except below a suspension.
-/

namespace Relational.Integers

/-- Whole numbers made from the element at hand. -/
inductive Number where
  | literal (n : Int)
  | element
  | add (a b : Number)
  | sub (a b : Number)
  | mul (a b : Number)
  | mod (a : Number) (n : Int)

/-- The value of a number, for an element. Remainders are never negative. -/
def Number.eval (x : Int) : Number → Int
  | literal n => n
  | element => x
  | add a b => a.eval x + b.eval x
  | sub a b => a.eval x - b.eval x
  | mul a b => a.eval x * b.eval x
  | mod a n => a.eval x % n

/-- Streams that go on for ever: numbers counted up, one number again and again, and nothing. -/
inductive Endless where
  | countFrom (n : Int)
  | always (n : Int)
  | never

def Endless.unfold : Endless → Burst Endless Int
  | countFrom n => .quiet (.node n (.suspended (.seed (countFrom (n + 1)))))
  | always n => .quiet (.node n (.suspended (.seed (always n))))
  | never => .quiet (.suspended (.seed never))

/-- Ways to build a stream of integers. -/
inductive Recipe where
  | empty
  | single (e : Number)
  | ofList (es : List Number)
  | cons (e : Number) (s : Recipe)
  | suspend (s : Recipe)
  | delay (k : Nat) (s : Recipe)
  | merge (s t : Recipe)
  | bind (s t : Recipe)
  | map (s : Recipe) (e : Number)
  | take (s : Recipe) (n : Nat)
  | takeAll (s : Recipe)
  | realize (s : Recipe)
  | cond (e : Number) (s t : Recipe)
  | count (e : Number)
  | again (e : Number)
  | never

def delayed (b : Unit → Burst Endless Int) : Nat → Burst Endless Int
  | 0 => b ()
  | k + 1 => .quiet (.suspended (.later fun _ => delayed b k))

/-- A collection that goes on as a stream, or stops what needed it. -/
def continued (b : Burst Endless Int) (r : Except Halt (Stream Endless Int)) :
    Burst Endless Int :=
  match r with
  | .ok s => .mk b.events s
  | .error why => .stop why

/-- Builds a stream, for an element. No collection forces more than the budget. -/
def Recipe.build (budget : Nat) (x : Int) : Recipe → Burst Endless Int
  | empty => .quiet .empty
  | single e => .quiet (.singleton (e.eval x))
  | ofList es => .quiet (.ofList (es.map (Number.eval x)))
  | cons e s =>
    let b := s.build budget x
    .mk b.events (.node (e.eval x) b.stream)
  | suspend s => .quiet (.suspended (.later fun _ => s.build budget x))
  | delay k s => delayed (fun _ => s.build budget x) k
  | merge s t => (s.build budget x).merge (t.build budget x)
  | bind s t => (s.build budget x).bind fun y => t.build budget y
  | map s e => (s.build budget x).bind fun y => .quiet (.singleton (e.eval y))
  | take s n =>
    let b := s.build budget x
    continued b ((b.take Endless.unfold n budget).map Harvest.stream)
  | takeAll s =>
    let b := s.build budget x
    continued b ((b.takeAll Endless.unfold budget).map Harvest.stream)
  | realize s =>
    let b := s.build budget x
    continued b (b.stream.realize Endless.unfold budget)
  | cond e s t => if e.eval x ≠ 0 then s.build budget x else t.build budget x
  | count e => Endless.unfold (.countFrom (e.eval x))
  | again e => .quiet (.suspended (.seed (.always (e.eval x))))
  | never => .quiet (.suspended (.seed .never))

end Relational.Integers
