/-
  Erl.Routine.Generator

  A generator of uniform random numbers.

  How numbers are drawn is up to the host.  Whatever state a generator has, its numbers are settled
  by the seed that it started from and by how many were drawn since, so that is all that is kept of
  it.  Equal seeds give equal sequences.
-/

namespace Erl

/-- The random numbers of a host: for a seed and the number of draws before. -/
structure RandomStream where
  number : Nat → Nat → Float

/-- The stream of a host that has no random numbers: zero every time. -/
def RandomStream.zero : RandomStream :=
  ⟨fun _ _ => 0.0⟩

/-- A generator of numbers of a stream: the seed that it started from, and how many numbers were
    drawn since. -/
structure Generator where
  stream : RandomStream
  seed : Nat
  drawn : Nat

namespace Generator

/-- The generator that starts again from a seed. -/
def reseeded (g : Generator) (seed : Nat) : Generator :=
  { g with seed, drawn := 0 }

/-- The next number, and the generator after it. -/
def next (g : Generator) : Float × Generator :=
  (g.stream.number g.seed g.drawn, { g with drawn := g.drawn + 1 })

end Generator

end Erl
