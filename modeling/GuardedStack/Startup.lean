import GuardedStack.Allocation

/-! Initialization of a runtime: the main thread gets its stack, thread creation is intercepted and the cleanup
key is made. At most one attempt succeeds. A failed attempt leaves nothing behind, so another may follow. -/
namespace GuardedStack.Startup

/-- Installs the main region, intercepts thread creation and makes the key. -/
def attach (rt : RuntimeId) (region : Region) : Attempt Unit := do
  Thread.install ⟨region,rt⟩
  Host.installInterception rt
  let key ← Host.createCleanupKey rt
  Program.request (.state (.keepKey rt key))

/-- Detaches `region` from the calling thread if it is installed there. -/
def detach (region : Region) : Program Unit := do
  if (← Thread.stack).region = some region then
    discard (Thread.take)
  else pure ()

/-- Makes and attaches the main region. After a fault it is detached and unmapped. -/
def bringUp (rt : RuntimeId) : Attempt Region := do
  let size := (← Host.stackLimit rt).getD defaultStackSize
  let guard ← Mapper.pageSize rt
  let region ← Region.allocate rt size guard
  match ← (attach rt region).outcome with
  | .ok () => return region
  | .error cause =>
    detach region
    region.discard rt "dropping main unsafe stack after failed init"
    throw cause

/-- One attempt to initialize, made by the main thread. It gives the main thread's region. -/
def attempt (rt : RuntimeId) : Attempt Region := do
  if ← Program.request (.state (.exchangePhase rt .uninitialized .initializing)) then
    let setting ← Program.request (.state .environment)
    Program.request (.state (.setVerbosity (Verbosity.ofEnvironment setting)))
    match ← (bringUp rt).outcome with
    | .error cause =>
      Program.request (.state (.setPhase rt .uninitialized))
      throw cause
    | .ok region =>
      Program.request (.state (.setPhase rt .ready))
      Program.notice (pure
        s!"main thread unsafe stack {hex region.base}..{hex region.top} ({region.usable.toNat / 1024} KiB, guard {region.guard.toNat} bytes)")
      return region
  else throw .alreadyInitialized

/-- Initialization that ends the process on a fault. -/
def run (rt : RuntimeId) : Program Region := (attempt rt).orAbort Diagnostics.Duty.starting.text

end GuardedStack.Startup
