/-! Delivery of a line to a descriptor. One call of the system's write may take some of the bytes, be
interrupted, or fail. `deliver` goes on after a short or an interrupted write and gives up after any
other failure, so that what was taken is always an initial part of the line. -/
namespace GuardedStack.Diagnostics

/-- How one write ends. -/
inductive WriteOutcome where
  /-- The first `count` of the offered bytes were taken. -/
  | accepted (count : Nat)
  | interrupted
  | failed
  deriving DecidableEq, Repr

/-- One write: what was offered and how it ended. -/
structure WriteCall where
  offered : List UInt8
  outcome : WriteOutcome
  deriving DecidableEq, Repr

/-- The bytes that the write took. -/
def WriteCall.taken (call : WriteCall) : List UInt8 :=
  match call.outcome with
  | .accepted count => call.offered.take count
  | .interrupted => []
  | .failed => []

/-- The writes made for `bytes` where the system answers with `outcomes` in turn. -/
def deliver : List UInt8 → List WriteOutcome → List WriteCall
  | [], _ => []
  | _ :: _, [] => []
  | b :: bs, o :: rest =>
    ⟨b :: bs,o⟩ :: match o with
      | .accepted count => deliver ((b :: bs).drop count) rest
      | .interrupted => deliver (b :: bs) rest
      | .failed => []

/-- Everything that was taken, in order. -/
def received (calls : List WriteCall) : List UInt8 := calls.flatMap WriteCall.taken

/-- A descriptor with the outcomes that it has in store for each line, counted from zero; after them
it takes the rest of the line at once. -/
structure Descriptor where
  outcomes : Nat → List WriteOutcome
  lines : Nat
  received : List UInt8

namespace Descriptor

def working : Descriptor := ⟨fun _ => [],0,[]⟩

/-- Every write fails. -/
def broken : Descriptor := ⟨fun _ => [.failed],0,[]⟩

/-- The very first write is interrupted once. -/
def interruptedOnce : Descriptor := ⟨fun line => if line = 0 then [.interrupted] else [],0,[]⟩

def emit (d : Descriptor) (line : String) : Descriptor :=
  let bytes := line.toUTF8.toList
  let calls := deliver bytes (d.outcomes d.lines ++ [.accepted bytes.length])
  ⟨d.outcomes,d.lines + 1,d.received ++ Diagnostics.received calls⟩

end Descriptor
end GuardedStack.Diagnostics
