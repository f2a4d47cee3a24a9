import GuardedStack.Cleanup

/-! Starting threads on guarded stacks. The creating thread makes the region that the attributes ask for and
writes a record into its top; the library's own first frame on the new thread reads the record, installs
the region, arms the cleanup key and enters the thread's function. The record is the only thing that
crosses from one thread to the other, and it is read once. -/
namespace GuardedStack

/-- Refuses a geometry that the library cannot honour. The page size counts only for a valid size. -/
def StackAttributes.validate (a : StackAttributes) (pageSize : UInt64) : Checked (Except Fault Unit) :=
  if a.size = 0 then .ok (.error .zeroStackSize)
  else if a.size &&& (stackAlign - 1) ≠ 0 then .ok (.error (.misalignedStackSize a.size))
  else do
    let mask ← Checked.subtract pageSize 1
    if a.guard &&& mask ≠ 0 then return .error (.misalignedGuardSize a.guard pageSize)
    else return .ok ()

namespace Handoff

/-- The record's place in a region, flush against the top. -/
def slot (r : Region) : Attempt UInt64 := do
  if r.usable < size then throw (.handoffOverflow r.usable size)
  else
    let addr ← Attempt.checked (Checked.subtract r.top size)
    if addr % alignment = 0 then return addr
    else Program.abort (.check "addr % align_of::<ThreadHandoff>() == 0"
      [.text s!"handoff record at {hex addr} is misaligned"])

/-- Writes a record into its own region and tells where it is. -/
def place (h : Handoff) : Attempt UInt64 := do
  let addr ← slot h.region
  Program.request (.state (.store addr h.encode))
  return addr

/-- Reads a record and blanks its bytes: from then on they are unused stack. -/
def take (addr : UInt64) : Program Handoff := do
  let bytes ← Program.request (.state (.load addr size.toNat))
  Program.request (.state (.store addr blank))
  return decode bytes

end Handoff

namespace Spawn

/-- Makes the region of a new thread and its record; gives the record's address. -/
def prepare (rt : RuntimeId) (attr : Option AttributeRef) (start : EntryPoint) (arg : UInt64) :
    Attempt UInt64 := do
  let attributes ← Host.attributes rt attr
  let pageSize ← Mapper.pageSize rt
  match ← Attempt.checked (attributes.validate pageSize) with
  | .error cause => throw cause
  | .ok () =>
    let region ← Region.allocate rt attributes.size attributes.guard
    match ← (Handoff.place ⟨start,arg,region,rt⟩).outcome with
    | .ok record =>
      Program.trace (pure s!"spawning with unsafe stack {hex region.base}..{hex region.top}")
      return record
    | .error cause =>
      region.discard rt "dropping unused unsafe stack"
      throw cause

/-- The replacement of the primitive that starts threads. The handle, the attributes and the resulting code
pass through unchanged; where no thread was started the new region is given back. -/
def intercept (rt : RuntimeId) (handle : UInt64) (attr : Option AttributeRef) (start : EntryPoint)
    (arg : UInt64) : Program Int32 := do
  if (← Runtime.phase rt) = .ready then
    let record ← (prepare rt attr start arg).orAbort Diagnostics.Duty.preparing.text
    let code ← Host.spawn rt ⟨handle,attr,.fromRecord,record⟩
    if code = 0 then return code
    else
      let handoff ← Handoff.take record
      (Region.release rt handoff.region).orAbort Diagnostics.Duty.releasingUnused.text
      return code
  else Program.abort (.check "self.is_ready()" [.text Fault.notReady.message])

/-- The first frame of a new thread. The record is read before the region is installed, because it lies in
the bytes that the stack uses first. -/
def firstFrame (record : UInt64) : Program UInt64 := do
  if record = 0 then Program.abort .noRecord
  else
    let handoff ← Handoff.take record
    (Thread.install ⟨handoff.region,handoff.runtime⟩).orAbort Diagnostics.Duty.installing.text
    let key ← Runtime.cleanupKey handoff.runtime
    (Host.setCleanupValue handoff.runtime key armed).orAbort Diagnostics.Duty.arming.text
    Program.request (.enter handoff.start handoff.arg)

end Spawn

/-- What a new thread does, from its first instruction to its result. -/
def StartRoutine.run : StartRoutine → UInt64 → Program UInt64
  | .fromRecord, record => Spawn.firstFrame record
  | .function entry, arg => Program.request (.enter entry arg)

end GuardedStack
