import GuardedStack.Program

/-! The single requests as programs, by whom they go to. -/
namespace GuardedStack

namespace Mapper

def pageSize (rt : RuntimeId) : Program UInt64 := Program.request (.mapper rt .pageSize)

/-- Maps fresh memory and gives its lowest address. -/
def map (rt : RuntimeId) (len : UInt64) (rights : Rights) : Attempt UInt64 :=
  .ofProgram (Program.request (.mapper rt (.map len rights)))

def protect (rt : RuntimeId) (addr len : UInt64) (rights : Rights) : Attempt Unit :=
  .ofProgram (Program.request (.mapper rt (.protect addr len rights)))

def unmap (rt : RuntimeId) (addr len : UInt64) : Attempt Unit :=
  .ofProgram (Program.request (.mapper rt (.unmap addr len)))

end Mapper

namespace Host

def stackLimit (rt : RuntimeId) : Program (Option UInt64) := Program.request (.host rt .stackLimit)

/-- The geometry of an attribute object, or of the defaults where there is none. -/
def attributes (rt : RuntimeId) : Option AttributeRef → Attempt StackAttributes
  | none => .ofProgram (Program.request (.host rt .defaultAttributes))
  | some attr => .ofProgram (Program.request (.host rt (.requestedAttributes attr)))

def installInterception (rt : RuntimeId) : Attempt Unit :=
  .ofProgram (Program.request (.host rt .installInterception))

def createCleanupKey (rt : RuntimeId) : Attempt CleanupKey :=
  .ofProgram (Program.request (.host rt .createCleanupKey))

/-- Sets the calling thread's value for the key. -/
def setCleanupValue (rt : RuntimeId) (key : CleanupKey) (value : UInt64) : Attempt Unit :=
  .ofProgram (Program.request (.host rt (.setCleanupValue key value)))

/-- Starts a thread; a code other than zero tells that none was started. -/
def spawn (rt : RuntimeId) (call : SpawnCall) : Program Int32 := Program.request (.host rt (.spawn call))

end Host

namespace Thread

/-- The calling thread's stack. -/
def stack : Program ThreadStack := Program.request (.state .stack)

def setStack (s : ThreadStack) : Program Unit := Program.request (.state (.setStack s))

/-- Makes a region the calling thread's stack. -/
def install (h : Holding) : Attempt Unit := do
  match (← stack).install h with
  | (.ok (),s) => setStack s
  | (.error cause,_) => throw cause

/-- Detaches the calling thread's stack. -/
def take : Program (Option Holding) := do
  let (held,s) := (← stack).take
  setStack s
  return held

end Thread

namespace Runtime

def phase (rt : RuntimeId) : Program Phase := Program.request (.state (.phase rt))

/-- The key of a runtime. Asking for it before it was made ends the process. -/
def cleanupKey (rt : RuntimeId) : Program CleanupKey := do
  match ← Program.request (.state (.key rt)) with
  | some key => pure key
  | none => Program.abort .noKey

end Runtime
end GuardedStack
