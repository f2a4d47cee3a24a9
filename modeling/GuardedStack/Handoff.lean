import GuardedStack.Fault
import GuardedStack.Memory
import GuardedStack.Region

/-! The record that a new thread starts from. It lies at the very top of the thread's own stack, in the bytes
that the stack will use first: six words, namely the entry point, its argument, the region and the runtime
that made it. -/
namespace GuardedStack

/-- A runtime as a record names it. -/
structure RuntimeId where
  word : UInt64
  deriving DecidableEq, Repr

/-- The code address of a thread's function. -/
structure EntryPoint where
  word : UInt64
  deriving DecidableEq, Repr

structure Handoff where
  start : EntryPoint
  arg : UInt64
  region : Region
  runtime : RuntimeId
  deriving DecidableEq, Repr

namespace Handoff

/-- Bytes of a record. -/
def size : UInt64 := 48

def alignment : UInt64 := 8

def words (h : Handoff) : List UInt64 :=
  [h.start.word,h.arg,h.region.base,h.region.usable,h.region.guard,h.runtime.word]

def encode (h : Handoff) : List UInt8 := h.words.flatMap encodeWord

/-- The record of a run of bytes, of which the first 48 count. -/
def decode (bytes : List UInt8) : Handoff :=
  let word (i : Nat) := decodeWord (bytes.drop (8 * i))
  ⟨⟨word 0⟩,word 1,⟨word 2,word 3,word 4⟩,⟨word 5⟩⟩

/-- What a record's place is filled with once it has been read. -/
def blank : List UInt8 := List.replicate size.toNat 0

@[simp] theorem length_encode (h : Handoff) : h.encode.length = size.toNat := by
  simp [encode,words,size]

/-- Reading a record gives what was written. -/
theorem decode_encode (h : Handoff) : decode h.encode = h := by
  have word (i : Nat) (inside : i < 6) : decodeWord (h.encode.drop (8 * i)) = h.words.get ⟨i,inside⟩ :=
    decodeWord_drop_flatMap inside
  simp only [decode]
  rw [word 0 (by decide),word 1 (by decide),word 2 (by decide),word 3 (by decide),word 4 (by decide),
    word 5 (by decide)]
  rfl

end Handoff
end GuardedStack
