import PallasVesta.Field.Basic

namespace PallasVesta

namespace ChaCha

abbrev State := Vector UInt32 16

def rotateLeft (word count : UInt32) : UInt32 :=
  word <<< count ||| word >>> (32 - count)

def quarterRound (state : State) (a b c d : Fin 16) : State :=
  let wordA := state[a] + state[b]
  let wordD := rotateLeft (state[d] ^^^ wordA) 16
  let wordC := state[c] + wordD
  let wordB := rotateLeft (state[b] ^^^ wordC) 12
  let wordA := wordA + wordB
  let wordD := rotateLeft (wordD ^^^ wordA) 8
  let wordC := wordC + wordD
  let wordB := rotateLeft (wordB ^^^ wordC) 7
  (((state.set a wordA).set b wordB).set c wordC).set d wordD

/-- One round down the columns and one along the diagonals. -/
def doubleRound (state : State) : State :=
  let state := quarterRound state 0 4 8 12
  let state := quarterRound state 1 5 9 13
  let state := quarterRound state 2 6 10 14
  let state := quarterRound state 3 7 11 15
  let state := quarterRound state 0 5 10 15
  let state := quarterRound state 1 6 11 12
  let state := quarterRound state 2 7 8 13
  quarterRound state 3 4 9 14

/-- The text "expand 32-byte k" in four words. -/
def constants : List UInt32 := [0x61707865, 0x3320646e, 0x79622d32, 0x6b206574]

def initial (key : List UInt32) (counter : UInt64) : State :=
  let words := constants ++ key ++ [counter.toUInt32, (counter >>> 32).toUInt32, 0, 0]
  Vector.ofFn fun index => words.getD index 0

def doubleRounds (state : State) : Nat → State
  | 0 => state
  | n + 1 => doubleRounds (doubleRound state) n

def block (key : List UInt32) (counter : UInt64) : State :=
  let state := initial key counter
  (doubleRounds state 6).zipWith (· + ·) state

/-- The keystream. It repeats once the block counter has wrapped. -/
def keystream (key : List UInt32) (position : Nat) : UInt8 :=
  let word := (block key (position / 64).toUInt64).get ⟨position % 64 / 4, by omega⟩
  (word >>> (8 * (position % 4)).toUInt32).toUInt8

end ChaCha

namespace SeedKey

def multiplier : UInt64 := 6364136223846793005

def increment : UInt64 := 11634580027462260723

def step (state : UInt64) : UInt64 := state * multiplier + increment

/-- Folds a state to 32 bits and rotates them right by its top five bits. -/
def output (state : UInt64) : UInt32 :=
  let folded := ((state >>> 18 ^^^ state) >>> 27).toUInt32
  let rotation := (state >>> 59).toUInt32
  folded >>> rotation ||| folded <<< ((32 - rotation) % 32)

def outputs (state : UInt64) : Nat → List UInt32
  | 0 => []
  | n + 1 => output (step state) :: outputs (step state) n

end SeedKey

def seedKey (seed : UInt64) : List UInt32 := SeedKey.outputs seed 8

abbrev ByteStream := Nat → UInt8

namespace ByteStream

def ofList (bytes : List UInt8) : ByteStream := fun position => bytes.getD position 0

/-- The 32 bytes from `position` on as an integer below `2 ^ 255`. -/
def candidate (stream : ByteStream) (position : Nat) : UInt256 :=
  .ofBytes <| Vector.ofFn fun (index : Fin 32) =>
    let byte := stream (position + index)
    if index = 31 then byte &&& 0x7f else byte

end ByteStream

namespace FieldElement

variable {M : FieldParams}

/-- The first acceptable block from `position` on and the position after it, if one of the next
`limit` blocks is acceptable. -/
def draw (stream : ByteStream) (position : Nat) : Nat → Option (FieldElement M × Nat)
  | 0 => none
  | limit + 1 =>
    match ofInteger (stream.candidate position) with
    | .ok a => some (a, position + 32)
    | .error _ => draw stream (position + 32) limit

def drawMany (stream : ByteStream) (limit position : Nat) :
    Nat → Option (List (FieldElement M) × Nat)
  | 0 => some ([], position)
  | count + 1 => do
    let (a, position) ← draw stream position limit
    let (rest, position) ← drawMany stream limit position count
    return (a :: rest, position)

/-- The number of 32-byte blocks after which a keystream repeats, `2 ^ 65`. A search as long as that
misses no block of one. -/
def keystreamBlocks : Nat := 0x20000000000000000

def ofStream (stream : ByteStream) : FieldElement M :=
  match draw stream 0 keystreamBlocks with
  | some (a, _) => a
  | none => 0

def ofSeed (seed : UInt64) : FieldElement M := ofStream (ChaCha.keystream (seedKey seed))

end FieldElement

end PallasVesta
