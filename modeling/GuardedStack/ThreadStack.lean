import GuardedStack.Handoff

/-! What each thread keeps about its own guarded stack: the pointer that compiled code moves on every frame,
and the region behind it together with the runtime that owns the region. The library writes region and owner
in one store, both of them or neither, so that they are one option here. It writes the pointer right before
that store or right after it, and no code of the thread runs in between; no other thread can see either.
So one write of the whole stands for the two. -/
namespace GuardedStack

/-- A region and the runtime that gives it back. -/
structure Holding where
  region : Region
  owner : RuntimeId
  deriving DecidableEq, Repr

structure ThreadStack where
  pointer : UInt64
  holding : Option Holding
  deriving DecidableEq, Repr

namespace ThreadStack

def empty : ThreadStack := ⟨0,none⟩

/-- Makes a region the thread's stack, with the pointer at its top. A misaligned top is refused and leaves
everything as it was. -/
def install (s : ThreadStack) (h : Holding) : Except Fault Unit × ThreadStack :=
  if h.region.top &&& (stackAlign - 1) ≠ 0 then (.error (.misalignedStackPointer h.region.top),s)
  else (.ok (),⟨h.region.top,some h⟩)

/-- Detaches the stack and tells what was held. -/
def take (s : ThreadStack) : Option Holding × ThreadStack := (s.holding,empty)

def region (s : ThreadStack) : Option Region := s.holding.map Holding.region

def owner (s : ThreadStack) : Option RuntimeId := s.holding.map Holding.owner

/-- The lowest usable address, zero without a stack. -/
def base (s : ThreadStack) : UInt64 := (s.region.map Region.base).getD 0

def top (s : ThreadStack) : UInt64 := (s.region.map Region.top).getD 0

def guard (s : ThreadStack) : UInt64 := (s.region.map Region.guard).getD 0

end ThreadStack
end GuardedStack
