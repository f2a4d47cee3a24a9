import GuardedStack.Kernel
import GuardedStack.Spawn
import GuardedStack.Startup
import GuardedStack.ThreadExit

/-! A process in which one runtime works over a page memory, the kernel's or another one, and a stand-in for the
C library's threads. Both write what they do into one journal, so that mapping calls can be compared with
destructor rounds. The journal holds only calls that succeeded. A started thread runs to its end, exit rounds
included, before its creator goes on. -/
namespace GuardedStack

/-- What a recording mapper passes its calls on to. The page size stays. -/
class PageMemory (κ : Type) where
  pageSize : κ → UInt64
  map : κ → UInt64 → Rights → Except Int32 UInt64 × κ
  /-- Zero, or the error number. -/
  protect : κ → UInt64 → UInt64 → Rights → Int32 × κ
  unmap : κ → UInt64 → UInt64 → Int32 × κ
  pageSize_map (k : κ) (len : UInt64) (rights : Rights) : pageSize (map k len rights).2 = pageSize k
  pageSize_protect (k : κ) (addr len : UInt64) (rights : Rights) : pageSize (protect k addr len rights).2 = pageSize k
  pageSize_unmap (k : κ) (addr len : UInt64) : pageSize (unmap k addr len).2 = pageSize k

instance : PageMemory Kernel where
  pageSize := Kernel.pageSize
  map := Kernel.map
  protect := Kernel.protect
  unmap := Kernel.unmap
  pageSize_map k len rights := by
    unfold Kernel.map
    split
    · rfl
    · split
      · rfl
      · split <;> rfl
  pageSize_protect k addr len rights := by
    unfold Kernel.protect
    split <;> rfl
  pageSize_unmap k addr len := by
    unfold Kernel.unmap
    split <;> rfl

namespace Rehearsal

/-- Something that happened. -/
inductive Observation where
  | map (addr len : UInt64)
  | protect (addr len : UInt64) (rights : Rights)
  | unmap (addr len : UInt64)
  | keySet (value : UInt64)
  /-- The cleanup key's destructor was called with its value. -/
  | pass (value : UInt64)
  /-- The foreign destructor was called, while a region was still installed or not. -/
  | foreign (regionInstalled : Bool)
  deriving DecidableEq, Repr

/-- The stand-in for the threads of a C library. -/
structure StandIn where
  limit : Option UInt64
  defaults : StackAttributes
  requested : StackAttributes
  /-- A code other than zero is the answer to every spawn, and nothing runs. -/
  spawnCode : Int32
  /-- How often the foreign destructor sets its value again. -/
  foreignRearms : Option UInt64
  /-- So many makings of the cleanup key fail before one succeeds. -/
  keyFailures : UInt64
  destructorKnown : Bool
  nextHandle : Nat
  values : ThreadId → KeyValues

def StandIn.fresh : StandIn where
  limit := some 0x800000
  defaults := ⟨0x40000,0x2000⟩
  requested := ⟨0x100000,0x1000⟩
  spawnCode := 0
  foreignRearms := none
  keyFailures := 0
  destructorKnown := false
  nextHandle := 1
  values := fun _ => .none

/-- Makes the cleanup key, or uses up one of the failures. -/
def StandIn.createKey (h : StandIn) : Except Fault CleanupKey × StandIn :=
  if h.keyFailures = 0 then (.ok ⟨7⟩,{ h with destructorKnown := true })
  else (.error (.keyCreateFailed 11),{ h with keyFailures := h.keyFailures - 1 })

/-- Sets the values of the two keys on a thread. -/
def StandIn.setValues (h : StandIn) (t : ThreadId) (v : KeyValues) : StandIn :=
  { h with values := replace h.values t v }

/-- A function as it was entered, with the stack that it found. -/
structure Entered where
  arg : UInt64
  stack : ThreadStack

structure State (κ : Type := Kernel) where
  image : Image
  /-- The memory below the mapper. -/
  kernel : κ
  host : StandIn
  journal : List Observation
  nextThread : ThreadId
  /-- What the thread functions return. -/
  functions : EntryPoint → UInt64 → UInt64
  /-- The function entered last. -/
  entered : Option Entered
  /-- The handle written last. -/
  handle : Nat
  /-- The records that were prepared, as far as none has read them. -/
  records : Array (Option UInt64)

/-- Thread functions return their argument. -/
def State.fresh (image : Image) : State where
  image := image
  kernel := .fresh
  host := .fresh
  journal := []
  nextThread := 1
  functions := fun _ arg => arg
  entered := none
  handle := 0
  records := #[]

/-- The only runtime. -/
def runtime : RuntimeId := ⟨0⟩

section
variable {κ : Type}

abbrev Act (κ : Type) := Acting (State κ)

abbrev Answers (κ : Type := Kernel) := ThreadId → (q : Request) → Act κ q.Reply

def note (o : Observation) : Act κ Unit := modify fun s => { s with journal := s.journal ++ [o] }

def onKernel (f : κ → β × κ) : Act κ β :=
  modifyGet fun s =>
    let (b,k) := f s.kernel
    (b,{ s with kernel := k })

def onHost (f : StandIn → β × StandIn) : Act κ β :=
  modifyGet fun s =>
    let (b,h) := f s.host
    (b,{ s with host := h })

def answerState (t : ThreadId) (call : StateCall) : Act κ call.Reply :=
  modifyGet fun s =>
    let (reply,image) := s.image.answer t call
    (reply,{ s with image := image })

def answerMapper [PageMemory κ] : (call : MapperCall) → Act κ call.Reply
  | .pageSize => return PageMemory.pageSize (← get).kernel
  | .map len rights => do
    match ← onKernel (PageMemory.map · len rights) with
    | .ok addr =>
      note (.map addr len)
      return .ok addr
    | .error errno => return .error (.mapFailed len errno)
  | .protect addr len rights => do
    let errno ← onKernel (PageMemory.protect · addr len rights)
    if errno = 0 then
      note (.protect addr len rights)
      return .ok ()
    else return .error (.protectFailed addr len errno)
  | .unmap addr len => do
    let errno ← onKernel (PageMemory.unmap · addr len)
    if errno = 0 then
      note (.unmap addr len)
      return .ok ()
    else return .error (.unmapFailed addr len errno)

/-- Runs the exit rounds of a thread. -/
def exitThread (nested : Answers κ) (t : ThreadId) : Act κ Unit := do
  match (← get).host.foreignRearms with
  | none => pure ()
  | some rearms =>
    let value ← Acting.checked (foreignValue rearms)
    onHost fun h => ((),h.setValues t { h.values t with foreign := value })
  let known := (← get).host.destructorKnown
  let hooks : ExitHooks (State κ) := {
    takeValues := fun s => (s.host.values t,{ s with host := s.host.setValues t .none })
    callOwn := fun value => do
      note (.pass value)
      if known then (Cleanup.destructor value).run (nested t)
    callForeign := fun value => do
      note (.foreign ((← get).image.threads t).holding.isSome)
      onHost fun h => ((),h.setValues t { h.values t with foreign := value - 1 }) }
  hooks.run destructorRounds.toNat

/-- Runs a thread to its end while its creator waits. An overflow ends the thread, of which its creator only
learns that it was lost. -/
def waitingFor (thread : Act κ Unit) : Act κ Unit :=
  tryCatch thread fun
    | .overflow _ => throw .threadLost
    | reason => throw reason

def answerSpawn (nested : Answers κ) (call : SpawnCall) : Act κ Int32 := do
  let h := (← get).host
  if h.spawnCode ≠ 0 then return h.spawnCode
  else
    let t := (← get).nextThread
    modify fun s => { s with nextThread := t + 1, handle := h.nextHandle }
    onHost fun h => ((),{ h with nextHandle := h.nextHandle + 1 })
    waitingFor do
      let _ ← (call.start.run call.arg).run (nested t)
      exitThread nested t
    return 0

def answerHost (nested : Answers κ) (t : ThreadId) : (call : HostCall) → Act κ call.Reply
  | .stackLimit => return (← get).host.limit
  | .defaultAttributes => return .ok (← get).host.defaults
  | .requestedAttributes _ => return .ok (← get).host.requested
  | .installInterception => return .ok ()
  | .createCleanupKey => onHost StandIn.createKey
  | .setCleanupValue _ value => do
    onHost fun h => ((),h.setValues t { h.values t with own := value })
    note (.keySet value)
    return .ok ()
  | .spawn call => answerSpawn nested call

def answerEnter (t : ThreadId) (entry : EntryPoint) (arg : UInt64) : Act κ UInt64 :=
  modifyGet fun s => (s.functions entry arg,{ s with entered := some ⟨arg,s.image.threads t⟩ })

def answerWith [PageMemory κ] (nested : Answers κ) (t : ThreadId) : (q : Request) → Act κ q.Reply
  | .mapper _ call => answerMapper call
  | .host _ call => answerHost nested t call
  | .state call => answerState t call
  | .enter entry arg => answerEnter t entry arg

/-- Answers with activity nested to the given depth. Below it every request ends the process. -/
def answer [PageMemory κ] : (depth : Nat) → Answers κ
  | 0 => fun _ _ => throw (.aborted (.other [.text "nested too deeply"]))
  | depth + 1 => answerWith (answer depth)

/-- No program of a rehearsal nests more deeply: a program starts a thread, and the thread runs its destructor. -/
def depth : Nat := 4

/-- Runs a program on a thread. -/
def perform [PageMemory κ] (t : ThreadId) (p : Program α) : Act κ α := p.run (answer depth t)

/-- The exit rounds of a thread that goes on afterwards. -/
def exitRounds [PageMemory κ] (t : ThreadId) : Act κ Unit := exitThread (answer depth) t

/-- What a spawn came to: its code, the handle that was written, and the function that was entered. -/
structure SpawnReport where
  code : Int32
  handle : Nat
  entered : Option Entered

/-- Runs a program that starts at most one thread. -/
def spawning [PageMemory κ] (t : ThreadId) (p : Program Int32) : Act κ SpawnReport := do
  modify fun s => { s with handle := 0, entered := none }
  let code ← perform t p
  let s ← get
  return ⟨code,s.handle,s.entered⟩

/-- Prepares a thread and keeps its record. -/
def prepare [PageMemory κ] (t : ThreadId) (attr : Option AttributeRef) (entry : EntryPoint) (arg : UInt64) :
    Act κ (Except Fault UInt64) := do
  let result ← perform t (Spawn.prepare runtime attr entry arg).run
  if let .ok addr := result then modify fun s => { s with records := s.records.push (some addr) }
  return result

/-- The address of a record that was not read yet. -/
def State.record? (s : State κ) (n : Nat) : Option UInt64 := s.records[n]?.join

/-- Runs the first frame of a record on a thread that already runs. -/
def startRecord [PageMemory κ] (t : ThreadId) (n : Nat) (addr : UInt64) : Act κ (UInt64 × Option Entered) := do
  modify fun s => { s with entered := none, records := s.records.setIfInBounds n none }
  let result ← perform t (Spawn.firstFrame addr)
  return (result,(← get).entered)

end
end Rehearsal
end GuardedStack
