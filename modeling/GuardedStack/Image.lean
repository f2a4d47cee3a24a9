import GuardedStack.Diagnostics.Delivery
import GuardedStack.Program

/-! The state that the library's own requests read and write: each thread's stack, the runtimes, memory and
diagnostics. `Image.answer` is the only meaning that state requests have; what lies behind the seams is
added by whoever runs a program. -/
namespace GuardedStack

abbrev ThreadId := Nat

/-- What a runtime keeps. Both parts are written by initialization and only read afterwards. -/
structure RuntimeState where
  phase : Phase
  key : Option CleanupKey
  deriving DecidableEq, Repr

namespace RuntimeState

def fresh : RuntimeState := ⟨.uninitialized,none⟩

/-- The first key stays. -/
def keepKey (r : RuntimeState) (key : CleanupKey) : RuntimeState := { r with key := r.key <|> some key }

end RuntimeState

structure Image where
  threads : ThreadId → ThreadStack
  runtimes : RuntimeId → RuntimeState
  memory : Memory
  verbosity : Verbosity
  environment : Option ByteArray
  stderr : Diagnostics.Descriptor

namespace Image

/-- A process that has run nothing yet. -/
def fresh (environment : Option ByteArray) (stderr : Diagnostics.Descriptor) : Image :=
  ⟨fun _ => .empty,fun _ => .fresh,.zero,.quiet,environment,stderr⟩

def setRuntime (p : Image) (rt : RuntimeId) (r : RuntimeState) : Image :=
  { p with runtimes := replace p.runtimes rt r }

/-- The reply to a state request of the thread `t`, and the process after it. -/
def answer (p : Image) (t : ThreadId) : (call : StateCall) → call.Reply × Image
  | .stack => (p.threads t,p)
  | .setStack s => ((),{ p with threads := replace p.threads t s })
  | .phase rt => ((p.runtimes rt).phase,p)
  | .exchangePhase rt expected desired =>
    if (p.runtimes rt).phase = expected then
      (true,p.setRuntime rt { p.runtimes rt with phase := desired })
    else (false,p)
  | .setPhase rt phase => ((),p.setRuntime rt { p.runtimes rt with phase := phase })
  | .key rt => ((p.runtimes rt).key,p)
  | .keepKey rt key => ((),p.setRuntime rt ((p.runtimes rt).keepKey key))
  | .load addr count => (p.memory.load addr count,p)
  | .store addr bytes => ((),{ p with memory := p.memory.store addr bytes })
  | .verbosity => (p.verbosity,p)
  | .setVerbosity level => ((),{ p with verbosity := level })
  | .environment => (p.environment,p)
  | .emit line => ((),{ p with stderr := p.stderr.emit line })

end Image

/-- Acting on a state `σ`, with the stop that may end everything. What was done before a stop stays done. -/
abbrev Acting (σ : Type) := ExceptT Stop (StateM σ)

/-- A checked computation, which either has a value or stops. -/
def Acting.checked {σ : Type} : Checked α → Acting σ α
  | .ok a => pure a
  | .error operation => throw (.overflow operation)

/-- Runs a program against answers that read and write `σ`. -/
def Program.run {σ : Type} (answer : (q : Request) → Acting σ q.Reply) : Program α → Acting σ α
  | .done a => pure a
  | .stop reason => throw reason
  | .ask q next => do
    let reply ← answer q
    (next reply).run answer

end GuardedStack
