import GuardedStack.Settings

/-! Everything that can go wrong while a stack is made, handed over or given back. A fault is a cause
with the values that show it; `Fault.message` is its one wording. -/
namespace GuardedStack

inductive Fault where
  | zeroStackSize
  | misalignedStackSize (size : UInt64)
  | misalignedGuardSize (guard pageSize : UInt64)
  /-- The sum of stack and guard does not fit in a word. -/
  | sizeOverflow (size guard : UInt64)
  /-- The stack is too small for the record that its thread starts from. -/
  | handoffOverflow (size needed : UInt64)
  | misalignedStackPointer (pointer : UInt64)
  | mapFailed (len : UInt64) (errno : Int32)
  | protectFailed (addr len : UInt64) (errno : Int32)
  | unmapFailed (addr len : UInt64) (errno : Int32)
  | attributeQueryFailed (code : Int32)
  | keyCreateFailed (code : Int32)
  | keySetFailed (code : Int32)
  | interceptionFailed
  | alreadyInitialized
  | notReady
  deriving DecidableEq, Repr

namespace Fault

private def decimal (code : Int32) : String := toString code.toInt

def message : Fault → String
  | zeroStackSize => "stack size is zero"
  | misalignedStackSize size => s!"stack size {hex size} is not {stackAlign.toNat}-byte aligned"
  | misalignedGuardSize guard pageSize =>
    s!"guard size {hex guard} is not a multiple of the page size {hex pageSize}"
  | sizeOverflow size guard => s!"stack size {hex size} plus guard {hex guard} overflows"
  | handoffOverflow size needed =>
    s!"stack of {size.toNat} bytes cannot hold a {needed.toNat} byte handoff record"
  | misalignedStackPointer pointer => s!"unsafe stack pointer {hex pointer} is misaligned"
  | mapFailed len errno => s!"mapping {hex len} bytes failed (errno {decimal errno})"
  | protectFailed addr len errno =>
    s!"protecting guard {hex addr}+{hex len} failed (errno {decimal errno})"
  | unmapFailed addr len errno => s!"unmapping {hex addr}+{hex len} failed (errno {decimal errno})"
  | attributeQueryFailed code => s!"reading thread attributes failed (code {decimal code})"
  | keyCreateFailed code => s!"creating the cleanup key failed (code {decimal code})"
  | keySetFailed code => s!"arming the cleanup key failed (code {decimal code})"
  | interceptionFailed => "real pthread_create could not be resolved"
  | alreadyInitialized => "runtime initialized twice"
  | notReady => "thread creation intercepted before initialization"

end Fault
end GuardedStack
