import GuardedStack.Image
import GuardedStack.Proofs.Layout
import GuardedStack.Spawn
import GuardedStack.Startup

/-! Many threads over many runtimes. Each thread runs operations of the library, one request at a time, and
between any two requests another thread may go on. The seams answer as they like, within what a mapper
promises of a new mapping. Code outside the library runs while a thread has no operation, and while an
operation waits for a seam or for the thread's function; there it may begin further operations. -/
namespace GuardedStack

inductive Operation where
  | start (rt : RuntimeId)
  | spawn (rt : RuntimeId) (handle : UInt64) (attr : Option AttributeRef) (entry : EntryPoint) (arg : UInt64)
  /-- All that a new thread does. -/
  | body (routine : StartRoutine) (arg : UInt64)
  /-- One call of the cleanup key's destructor. -/
  | destroy (value : UInt64)

namespace Operation

@[reducible] def Result : Operation → Type
  | start _ => Except Fault Region
  | spawn _ _ _ _ _ => Int32
  | body _ _ => UInt64
  | destroy _ => Unit

def program : (op : Operation) → Program op.Result
  | start rt => (Startup.attempt rt).run
  | spawn rt handle attr entry arg => Spawn.intercept rt handle attr entry arg
  | body routine arg => routine.run arg
  | destroy value => Cleanup.destructor value

/-- The runtime that outside code calls. -/
def runtime? : Operation → Option RuntimeId
  | start rt => some rt
  | spawn rt _ _ _ _ => some rt
  | body _ _ | destroy _ => none

end Operation

/-- An operation in progress. Operations are numbered in the order of their beginning. -/
structure Frame where
  number : Nat
  operation : Operation
  rest : Program operation.Result

def Request.Foreign : Request → Prop
  | .state _ => False
  | .mapper _ _ | .host _ _ | .enter _ _ => True

namespace Frame

/-- The operation waits for code outside the library. -/
def Waits (f : Frame) : Prop :=
  match f.rest with
  | .ask q _ => q.Foreign
  | .done _ | .stop _ => False

/-- The operation waits for its thread's function. -/
def Entered (f : Frame) : Prop :=
  match f.rest with
  | .ask (.enter _ _) _ => True
  | _ => False

def Asks (f : Frame) (q : Request) : Prop := ∃ next, f.rest = .ask q next

end Frame

/-- A key with a value on each thread: a runtime's cleanup key, or another one. -/
inductive Key where
  | cleanup (rt : RuntimeId) (key : CleanupKey)
  | foreign (number : Nat)
  deriving DecidableEq, Repr

inductive Life where
  /-- Not started yet: to be started on a record. -/
  | unborn
  | alive
  /-- In its exit, with the rounds begun and the keys that the current round has yet to look at. -/
  | exiting (rounds : Nat) (todo : List Key)
  deriving DecidableEq, Repr

structure World where
  image : Image
  /-- The live mappings of all mappers, the newest first. -/
  live : List Mapping
  /-- Each thread's operations, the innermost first. -/
  frames : ThreadId → List Frame
  /-- How many operations have begun. -/
  count : Nat
  /-- Threads that hosts have agreed to start and have not started. -/
  accepted : List SpawnCall
  lives : ThreadId → Life
  values : ThreadId → Key → UInt64

inductive Event where
  | called (n : Nat) (t : ThreadId) (op : Operation)
  | began (n : Nat) (t : ThreadId) (call : SpawnCall) (record : Handoff)
  | answered (n : Nat) (t : ThreadId) (q : Request) (reply : q.Reply)
  | returned (n : Nat) (t : ThreadId) (op : Operation) (result : op.Result)
  /-- Compiled code moved the stack pointer. -/
  | moved (t : ThreadId) (pointer : UInt64)
  /-- Other code set a key of its own. -/
  | keyed (t : ThreadId) (number : Nat) (value : UInt64)
  | exited (t : ThreadId) (stack : ThreadStack)
  | round (t : ThreadId)
  | skipped (t : ThreadId)
  /-- A cleanup key's destructor is called with the value that the key had. -/
  | fired (n : Nat) (t : ThreadId) (rt : RuntimeId) (key : CleanupKey) (value : UInt64) (stack : ThreadStack)
  /-- Another key's destructor is called, and sees this stack. -/
  | foreign (t : ThreadId) (number : Nat) (stack : ThreadStack)

namespace World

/-- Before anything has run. -/
structure Initial (w : World) : Prop where
  threads : ∀ t, w.image.threads t = .empty
  runtimes : ∀ rt, w.image.runtimes rt = .fresh
  live : w.live = []
  frames : ∀ t, w.frames t = []
  count : w.count = 0
  accepted : w.accepted = []
  lives : ∀ t, w.lives t = .unborn ∨ w.lives t = .alive
  values : ∀ t k, w.values t k = 0

def setFrames (w : World) (t : ThreadId) (fs : List Frame) : World := { w with frames := replace w.frames t fs }

def setLife (w : World) (t : ThreadId) (life : Life) : World := { w with lives := replace w.lives t life }

def setValue (w : World) (t : ThreadId) (k : Key) (value : UInt64) : World :=
  { w with values := replace w.values t (replace (w.values t) k value) }

def setStack (w : World) (t : ThreadId) (s : ThreadStack) : World :=
  { w with image := { w.image with threads := replace w.image.threads t s } }

/-- A thread that is started or exits is not one that is yet to be started. -/
theorem unborn_setLife {w : World} {t t' : ThreadId} {life : Life} (born : life ≠ .unborn)
    (unborn : (w.setLife t life).lives t' = .unborn) : w.lives t' = .unborn ∧ t' ≠ t := by
  by_cases same : t' = t
  · subst same
    exact absurd ((replace_same _ _ _).symm.trans unborn) born
  · exact ⟨(replace_other _ _ same).symm.trans unborn,same⟩

/-- Begins an operation. -/
def push (w : World) (t : ThreadId) (op : Operation) : World :=
  { w.setFrames t (⟨w.count,op,op.program⟩ :: w.frames t) with count := w.count + 1 }

/-- Code outside the library runs on the thread. -/
def Outside (w : World) (t : ThreadId) : Prop :=
  match w.frames t with
  | [] => True
  | f :: _ => f.Waits

/-- Somewhere the library has stopped for good, which ends everything. -/
def Ended (w : World) : Prop := ∃ t, ∃ f ∈ w.frames t, ∃ reason, f.rest = .stop reason

/-- The replies that a request of the thread `t` may get, and the world with them. A mapper maps fresh memory: a new
mapping lies apart from all that are live. -/
def Answers (w : World) (t : ThreadId) : (q : Request) → q.Reply → World → Prop
  | .state call, reply, w' =>
    reply = (w.image.answer t call).1 ∧ w' = { w with image := (w.image.answer t call).2 }
  | .mapper _ .pageSize, size, w' => size ≠ 0 ∧ w' = w
  | .mapper rt (.map len _), .ok addr, w' =>
    (⟨rt,addr,len⟩ : Mapping).Proper ∧ (∀ m ∈ w.live, (⟨rt,addr,len⟩ : Mapping).Apart m) ∧
      w' = { w with live := ⟨rt,addr,len⟩ :: w.live }
  | .mapper _ (.map _ _), .error _, w' => w' = w
  | .mapper _ (.protect _ _ _), _, w' => w' = w
  | .mapper rt (.unmap addr len), .ok (), w' => w' = { w with live := w.live.filter (· ≠ ⟨rt,addr,len⟩) }
  | .mapper _ (.unmap _ _), .error _, w' => w' = w
  | .host rt (.setCleanupValue key value), .ok (), w' => w' = w.setValue t (.cleanup rt key) value
  | .host _ (.setCleanupValue _ _), .error _, w' => w' = w
  | .host _ (.spawn call), code, w' =>
    w' = if code = 0 then { w with accepted := call :: w.accepted } else w
  | .host _ .stackLimit, _, w' => w' = w
  | .host _ .defaultAttributes, _, w' => w' = w
  | .host _ (.requestedAttributes _), _, w' => w' = w
  | .host _ .installInterception, _, w' => w' = w
  | .host _ .createCleanupKey, _, w' => w' = w
  | .enter _ _, _, w' => w' = w

inductive Step (w : World) : Event → World → Prop
  | call {t op} : w.lives t ≠ .unborn → w.Outside t → op.runtime?.isSome →
      Step w (.called w.count t op) (w.push t op)
  /-- A host starts a thread that it has accepted; the record is what its memory says by then. -/
  | begin {t call} : w.lives t = .unborn → call ∈ w.accepted →
      Step w (.began w.count t call (.decode (w.image.memory.load call.arg Handoff.size.toNat)))
        { (w.push t (.body call.start call.arg)).setLife t .alive with accepted := w.accepted.erase call }
  | answer {t n op q next rest reply w'} : w.frames t = ⟨n,op,.ask q next⟩ :: rest →
      w.Answers t q reply w' →
      Step w (.answered n t q reply) (w'.setFrames t (⟨n,op,next reply⟩ :: rest))
  | ret {t n op a rest} : w.frames t = ⟨n,op,.done a⟩ :: rest →
      Step w (.returned n t op a) (w.setFrames t rest)
  /-- A thread with a stack uses any part of it. -/
  | move {t h pointer} : w.Outside t → w.lives t = .alive → (w.image.threads t).holding = some h →
      h.region.base ≤ pointer → pointer ≤ h.region.top →
      Step w (.moved t pointer) (w.setStack t ⟨pointer,some h⟩)
  | key {t number value} : w.Outside t → w.lives t ≠ .unborn →
      Step w (.keyed t number value) (w.setValue t (.foreign number) value)
  /-- A thread exits from its function or after it. -/
  | exit {t} : w.lives t = .alive → (∀ f ∈ w.frames t, f.Entered) →
      Step w (.exited t (w.image.threads t)) ((w.setFrames t []).setLife t (.exiting 0 []))
  /-- A round looks once at each key that has a value, in some order. -/
  | round {t rounds order} : w.lives t = .exiting rounds [] → w.frames t = [] → order.Nodup →
      (∀ k, w.values t k ≠ 0 → k ∈ order) →
      Step w (.round t) (w.setLife t (.exiting (rounds + 1) order))
  | skip {t rounds k todo} : w.lives t = .exiting rounds (k :: todo) → w.frames t = [] →
      w.values t k = 0 → Step w (.skipped t) (w.setLife t (.exiting rounds todo))
  | fire {t rounds rt key todo} : w.lives t = .exiting rounds (.cleanup rt key :: todo) → w.frames t = [] →
      w.values t (.cleanup rt key) ≠ 0 →
      Step w (.fired w.count t rt key (w.values t (.cleanup rt key)) (w.image.threads t))
        (((w.setValue t (.cleanup rt key) 0).push t (.destroy (w.values t (.cleanup rt key)))).setLife t
          (.exiting rounds todo))
  | foreign {t rounds number todo} : w.lives t = .exiting rounds (.foreign number :: todo) →
      w.frames t = [] → w.values t (.foreign number) ≠ 0 →
      Step w (.foreign t number (w.image.threads t))
        ((w.setValue t (.foreign number) 0).setLife t (.exiting rounds todo))

/-- What has happened, the newest first. -/
abbrev Trace := List Event

inductive Run : Trace → World → Prop
  | nil {w} : w.Initial → Run [] w
  | step {trace w e w'} : Run trace w → ¬w.Ended → Step w e w' → Run (e :: trace) w'

/-- The operation `n` is in progress on the thread. -/
def Running (w : World) (t : ThreadId) (n : Nat) : Prop := ∃ f ∈ w.frames t, f.number = n

end World

namespace Event

def Maps (m : Mapping) : Event → Prop
  | answered _ _ (.mapper rt (.map len _)) (.ok addr) => m = ⟨rt,addr,len⟩
  | _ => False

/-- An unmap call for exactly the mapping, whatever came of it. -/
def Unmaps (m : Mapping) : Event → Prop
  | answered _ _ (.mapper rt (.unmap addr len)) _ => m = ⟨rt,addr,len⟩
  | _ => False

end Event

/-- The mapping was made, and since then no unmap call for it has been answered. -/
def Untouched (m : Mapping) : World.Trace → Prop
  | [] => False
  | e :: earlier => e.Maps m ∨ ¬e.Unmaps m ∧ Untouched m earlier

end GuardedStack
