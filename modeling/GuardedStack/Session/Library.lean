import GuardedStack.Kernel
import GuardedStack.Settings

/-! The C library behind a scripted host: which of its calls are made to fail, the keys that it has made, and the
stacks with which it starts no thread. -/
namespace GuardedStack.Session

/-- Calls of a C library that fail, with their codes; zero is success. -/
structure LibraryFailures where
  limit : Bool
  attrInit : Int32
  attrStackSize : Int32
  attrGuardSize : Int32
  deriving DecidableEq, Repr

def LibraryFailures.none : LibraryFailures := ⟨false,0,0,0⟩

/-- A C library as far as a host needs it. -/
structure Library where
  failures : LibraryFailures
  /-- The spawn primitive has been looked up. -/
  installed : Bool
  /-- Keys in use; they are numbered in the order of making. -/
  keys : Nat
  /-- The foreign key is among them. -/
  foreignKey : Bool
  deriving DecidableEq, Repr

namespace Library

def fresh : Library := ⟨.none,false,0,false⟩

/-- The fault of making one key more than there can be. -/
def noKeyLeft : Fault := .keyCreateFailed 11

/-- The smallest stack that an attribute object can ask for. -/
def minStackSize : UInt64 := 16384

/-- The guard of a default attribute object. -/
def defaultGuard : UInt64 := 4096

/-- The stack limit that stands for no limit. -/
def unlimited : UInt64 := 0xffffffffffffffff

/-- A stack size counts down to a multiple of this. -/
def stackGrain : Nat := 64

/-- The code with which no thread is started on a stack of its own. The stack and its guard, which counts up
to whole pages, have to fit into a word (22), and there has to be memory for them (11). -/
def refusal (a : StackAttributes) : Option Int32 :=
  let stack := a.size.toNat / stackGrain * stackGrain
  let len := stack + Kernel.pages a.guard * Kernel.pageBytes
  if UInt64.size ≤ len then some 22
  else if Room.place? [] (Kernel.pages (UInt64.ofNat len)) = none ∨
      Kernel.exceeds .readWrite (Kernel.pages (UInt64.ofNat stack)) then some 11
  else none

end Library
end GuardedStack.Session
