/-!
A reproducible source of random words: the ChaCha stream of twelve rounds under a key that is spread
from a seed. Words are numbered, so a reader of the source is nothing but a position in it.
-/

namespace Roadworks.ChaCha

/-- Sixteen words, the state of the cipher. -/
abbrev State := Array UInt32

/-- The word with its bits turned to the left. -/
def rotl (x : UInt32) (k : UInt32) : UInt32 := (x <<< k) ||| (x >>> (32 - k))

/-- The quarter round on four words of the state. -/
def quarter (s : State) (a b c d : Nat) : State :=
  let va := s.getD a 0
  let vb := s.getD b 0
  let vc := s.getD c 0
  let vd := s.getD d 0
  let va := va + vb
  let vd := rotl (vd ^^^ va) 16
  let vc := vc + vd
  let vb := rotl (vb ^^^ vc) 12
  let va := va + vb
  let vd := rotl (vd ^^^ va) 8
  let vc := vc + vd
  let vb := rotl (vb ^^^ vc) 7
  (((s.setIfInBounds a va).setIfInBounds b vb).setIfInBounds c vc).setIfInBounds d vd

/-- The quarter rounds of the columns and of the diagonals. -/
def doubleRound (s : State) : State :=
  let s := quarter s 0 4 8 12
  let s := quarter s 1 5 9 13
  let s := quarter s 2 6 10 14
  let s := quarter s 3 7 11 15
  let s := quarter s 0 5 10 15
  let s := quarter s 1 6 11 12
  let s := quarter s 2 7 8 13
  quarter s 3 4 9 14

/-- The constants that a state begins with. -/
def constants : List UInt32 := [0x61707865, 0x3320646e, 0x79622d32, 0x6b206574]

/-- The block of the stream with the given number: twelve rounds, added to where they began. -/
def block (key : List UInt32) (n : Nat) : List UInt32 :=
  let counter : List UInt32 := [n.toUInt32, (n >>> 32).toUInt32, 0, 0]
  let first := constants ++ key ++ counter
  let last := (List.range 6).foldl (fun s _ => doubleRound s) first.toArray
  List.zipWith (· + ·) first last.toList

/-- The number of the stream at a position: two words, the low one first. -/
def draw (key : List UInt32) (i : Nat) : UInt64 :=
  let words := block key (i / 8)
  let low := words.getD (2 * (i % 8)) 0
  let high := words.getD (2 * (i % 8) + 1) 0
  low.toUInt64 ||| (high.toUInt64 <<< 32)

/-- One step of the congruential generator that spreads a seed. -/
def spread (state : UInt64) : UInt64 := state * 6364136223846793005 + 11634580027462260723

/-- The word that a state of the generator gives out: its high bits, turned by the highest. -/
def output (state : UInt64) : UInt32 :=
  let x := (((state >>> 18) ^^^ state) >>> 27).toUInt32
  let turn := (state >>> 59).toUInt32
  (x >>> turn) ||| (x <<< ((32 - turn) % 32))

/-- The words of a key from a state on. -/
def keyWords (state : UInt64) : Nat → List UInt32
  | 0 => []
  | n + 1 => output (spread state) :: keyWords (spread state) n

/-- The stream of a seed. -/
def ofSeed (seed : UInt64) : Nat → UInt64 :=
  let key := keyWords seed 8
  fun i => draw key i

end Roadworks.ChaCha
