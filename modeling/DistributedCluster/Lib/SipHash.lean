import Mathlib.Data.List.Defs
/-!
# SipHash-1-3

The keyed hash with one round for each word and three at the end, over a list
of bytes. A hasher that reports only its final value is this function of all
the bytes written to it.
-/

namespace SipHash

structure State where
  v0 : UInt64
  v1 : UInt64
  v2 : UInt64
  v3 : UInt64

def rotl (x n : UInt64) : UInt64 := (x <<< n) ||| (x >>> (64 - n))

def sipRound (s : State) : State :=
  let v0 := s.v0 + s.v1
  let v1 := rotl s.v1 13 ^^^ v0
  let v0 := rotl v0 32
  let v2 := s.v2 + s.v3
  let v3 := rotl s.v3 16 ^^^ v2
  let v0 := v0 + v3
  let v3 := rotl v3 21 ^^^ v0
  let v2 := v2 + v1
  let v1 := rotl v1 17 ^^^ v2
  ⟨v0, v1, rotl v2 32, v3⟩

def compress (s : State) (m : UInt64) : State :=
  let s := sipRound { s with v3 := s.v3 ^^^ m }
  { s with v0 := s.v0 ^^^ m }

/-- A little-endian word. -/
def word : List UInt8 → UInt64
  | [] => 0
  | b :: bs => b.toUInt64 ||| (word bs <<< 8)

/-- Eight bytes at a time; the last word carries the total length in its top byte. -/
def absorb (len : UInt64) : List UInt8 → State → State
  | b₀ :: b₁ :: b₂ :: b₃ :: b₄ :: b₅ :: b₆ :: b₇ :: bs, s =>
    absorb len bs (compress s (word [b₀, b₁, b₂, b₃, b₄, b₅, b₆, b₇]))
  | tail, s => compress s (word tail ||| (len <<< 56))

def init (k₀ k₁ : UInt64) : State :=
  ⟨k₀ ^^^ 0x736f6d6570736575, k₁ ^^^ 0x646f72616e646f6d,
    k₀ ^^^ 0x6c7967656e657261, k₁ ^^^ 0x7465646279746573⟩

def sip13 (k₀ k₁ : UInt64) (bytes : List UInt8) : UInt64 :=
  let s := absorb (UInt64.ofNat bytes.length) bytes (init k₀ k₁)
  let s := sipRound (sipRound (sipRound { s with v2 := s.v2 ^^^ 0xff }))
  s.v0 ^^^ s.v1 ^^^ s.v2 ^^^ s.v3

end SipHash
