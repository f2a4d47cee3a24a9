import GuardedStack.Diagnostics.Fatal
import GuardedStack.Rights
import GuardedStack.ThreadStack

/-! Everything that the library asks of its surroundings, one request at a time. Requests to the page mapper
and to the threading host of a runtime cross a seam: any implementation may answer them. How one does it, over the
attribute objects and keys of a C library for instance, and how calls from C reach the library, is left open.
State requests concern what the library itself keeps: the calling thread's stack, the runtimes, memory and
diagnostics. Entering a thread's function runs code that the library knows nothing about. -/
namespace GuardedStack

/-- A handle of the key whose destructor runs at thread exit. -/
structure CleanupKey where
  number : UInt32
  deriving DecidableEq, Repr

/-- The stack geometry that a new thread asks for. -/
structure StackAttributes where
  size : UInt64
  guard : UInt64
  deriving DecidableEq, Repr

/-- The address of an attribute object. -/
structure AttributeRef where
  word : UInt64
  deriving DecidableEq, Repr

/-- How far a runtime is with its initialization. -/
inductive Phase where
  | uninitialized
  | initializing
  | ready
  deriving DecidableEq, Repr

/-- What a new thread runs first. -/
inductive StartRoutine where
  /-- The library's own first frame, which takes a record as its argument. -/
  | fromRecord
  | function (entry : EntryPoint)
  deriving DecidableEq, Repr

/-- Page-granular memory. -/
inductive MapperCall where
  | pageSize
  | map (len : UInt64) (rights : Rights)
  | protect (addr len : UInt64) (rights : Rights)
  | unmap (addr len : UInt64)
  deriving DecidableEq, Repr

@[reducible] def MapperCall.Reply : MapperCall → Type
  | .pageSize => UInt64
  | .map _ _ => Except Fault UInt64
  | .protect _ _ _ => Except Fault Unit
  | .unmap _ _ => Except Fault Unit

/-- The arguments of the primitive that starts a thread. -/
structure SpawnCall where
  /-- Where the new thread's handle is written. -/
  handle : UInt64
  attr : Option AttributeRef
  start : StartRoutine
  arg : UInt64
  deriving DecidableEq, Repr

/-- The C library's share in a thread's life. -/
inductive HostCall where
  /-- No limit is `none`. -/
  | stackLimit
  | defaultAttributes
  | requestedAttributes (attr : AttributeRef)
  | installInterception
  /-- The key's destructor is the library's own. -/
  | createCleanupKey
  | setCleanupValue (key : CleanupKey) (value : UInt64)
  | spawn (call : SpawnCall)
  deriving DecidableEq, Repr

@[reducible] def HostCall.Reply : HostCall → Type
  | .stackLimit => Option UInt64
  | .defaultAttributes => Except Fault StackAttributes
  | .requestedAttributes _ => Except Fault StackAttributes
  | .installInterception => Except Fault Unit
  | .createCleanupKey => Except Fault CleanupKey
  | .setCleanupValue _ _ => Except Fault Unit
  | .spawn _ => Int32

/-- Reading and writing the library's own state. -/
inductive StateCall where
  /-- The calling thread's stack. -/
  | stack
  | setStack (stack : ThreadStack)
  | phase (rt : RuntimeId)
  /-- Moves the phase on if it is the expected one, and tells whether it was. -/
  | exchangePhase (rt : RuntimeId) (expected desired : Phase)
  | setPhase (rt : RuntimeId) (phase : Phase)
  | key (rt : RuntimeId)
  /-- Keeps the first key and ignores later ones. -/
  | keepKey (rt : RuntimeId) (key : CleanupKey)
  | load (addr : UInt64) (count : Nat)
  | store (addr : UInt64) (bytes : List UInt8)
  | verbosity
  | setVerbosity (level : Verbosity)
  /-- The value of the library's environment variable. -/
  | environment
  | emit (line : String)
  deriving DecidableEq

@[reducible] def StateCall.Reply : StateCall → Type
  | .stack => ThreadStack
  | .setStack _ => Unit
  | .phase _ => Phase
  | .exchangePhase _ _ _ => Bool
  | .setPhase _ _ => Unit
  | .key _ => Option CleanupKey
  | .keepKey _ _ => Unit
  | .load _ _ => List UInt8
  | .store _ _ => Unit
  | .verbosity => Verbosity
  | .setVerbosity _ => Unit
  | .environment => Option ByteArray
  | .emit _ => Unit

inductive Request where
  | mapper (rt : RuntimeId) (call : MapperCall)
  | host (rt : RuntimeId) (call : HostCall)
  | state (call : StateCall)
  /-- Runs a thread's function. -/
  | enter (entry : EntryPoint) (arg : UInt64)

@[reducible] def Request.Reply : Request → Type
  | .mapper _ call => call.Reply
  | .host _ call => call.Reply
  | .state call => call.Reply
  | .enter _ _ => UInt64

end GuardedStack
