/-!
# Random numbers

* `Generator` : four words of state, `Generator.ofSeed` spreads a seed over them;
* `Draw` : a computation that draws from a generator;
* `next64`, `next32` : the next word and its upper half;
* `below` : a number below a bound. A drawn word is multiplied by the bound; the upper half of the
  product is the number, and a word whose lower half lies above the zone is drawn again;
* `index` : a position in a list of given length; a list of one element needs no draw.
-/

namespace RopeStore.Random

structure Generator where
  s0 : UInt64
  s1 : UInt64
  s2 : UInt64
  s3 : UInt64
  deriving DecidableEq, Repr

abbrev Draw := StateM Generator

def rotateLeft (x : UInt64) (count : UInt64) : UInt64 := (x <<< count) ||| (x >>> (64 - count))

/-! ## Seeding -/

/-- The next state of the generator that spreads a seed. -/
def advanceSeed (x : UInt64) : UInt64 := x * 6364136223846793005 + 11634580027462260723

/-- The half word that a state of that generator gives. -/
def seedOutput (x : UInt64) : UInt32 :=
  let w := (((x >>> 18) ^^^ x) >>> 27).toUInt32
  let count := (x >>> 59).toUInt32
  (w >>> count) ||| (w <<< ((32 - count) % 32))

/-- The next word of a spread seed, from two half words, and the state after it. -/
def seedWord (x : UInt64) : UInt64 × UInt64 :=
  let x := advanceSeed x
  let y := advanceSeed x
  ((seedOutput x).toUInt64 ||| ((seedOutput y).toUInt64 <<< 32), y)

def Generator.ofSeed (seed : UInt64) : Generator :=
  let (s0, x) := seedWord seed
  let (s1, x) := seedWord x
  let (s2, x) := seedWord x
  let (s3, _) := seedWord x
  ⟨s0, s1, s2, s3⟩

/-! ## Drawing -/

def Generator.output (g : Generator) : UInt64 := rotateLeft (g.s0 + g.s3) 23 + g.s0

def Generator.step (g : Generator) : Generator :=
  let s2 := g.s2 ^^^ g.s0
  let s3 := g.s3 ^^^ g.s1
  ⟨g.s0 ^^^ s3, g.s1 ^^^ s2, s2 ^^^ (g.s1 <<< 17), rotateLeft s3 45⟩

def next64 : Draw UInt64 := modifyGet fun g => (g.output, g.step)

def next32 : Draw UInt32 := do return ((← next64) >>> 32).toUInt32

inductive WordSize
  | half | full
  deriving DecidableEq, Repr

def WordSize.bound : WordSize → Nat
  | .half => UInt32.size
  | .full => UInt64.size

def nextWord : WordSize → Draw Nat
  | .half => do return (← next32).toNat
  | .full => do return (← next64).toNat

/-- The zone that is found by a shift: the largest multiple of `n` by a power of two, less one. -/
def shiftZone (size : WordSize) (n : Nat) : Nat :=
  if n = 0 then 0 else n * (size.bound >>> (Nat.log2 n + 1)) - 1

/-- The zone that is found by a division: the largest multiple of `n`, less one. -/
def divisionZone (size : WordSize) (n : Nat) : Nat := size.bound - 1 - (size.bound - n) % n

/-- A number below `n`, with at most `redraws` words drawn again. -/
def belowWithin (size : WordSize) (zone n : Nat) : Nat → Draw Nat
  | 0 => do return (← nextWord size) * n / size.bound
  | redraws + 1 => do
    let product := (← nextWord size) * n
    if product % size.bound ≤ zone then return product / size.bound
    belowWithin size zone n redraws

/-- More words than are ever drawn again in a row. -/
def redrawLimit : Nat := 4096

def below (size : WordSize) (zone n : Nat) : Draw Nat := belowWithin size zone n redrawLimit

def index (n : Nat) : Draw (Option Nat) :=
  if n = 0 then return none
  else if n = 1 then return some 0
  else return some (← below .full (shiftZone .full n) n)

end RopeStore.Random
