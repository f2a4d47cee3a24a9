import GuardedStack.Session.Entry
import GuardedStack.Session.Host
import GuardedStack.Session.Mapper
import GuardedStack.Spawn
import GuardedStack.Startup
import GuardedStack.ThreadExit

/-! A process whose mappers and hosts follow scripts. Programs run on its threads one at a time; a thread that
is started inside a program runs to its end, or until it waits for commands, before the program goes
on. The doubles write down every call in one list of events. -/
namespace GuardedStack.Session

/-- A thread that waits for commands. Told a result, it goes on with it and then exits. -/
structure Resident where
  thread : ThreadId
  /-- The runtime whose host started the thread. -/
  host : RuntimeId
  resume : UInt64 → Program UInt64

/-- A thread function as it was entered, with the stack that it found. -/
structure Entered where
  entry : EntryPoint
  arg : UInt64
  stack : ThreadStack

/-- A thread that was started: its handle, and its result unless it stays or was lost. -/
structure Started where
  thread : ThreadId
  handle : Nat
  result : Option UInt64

/-- A handoff record that someone still may read. -/
structure RecordSlot where
  addr : UInt64
  /-- The runtime in whose memory it lies. -/
  runtime : RuntimeId
  taken : Bool

structure State where
  image : Image
  /-- The runtimes are numbered from zero. -/
  runtimes : Nat
  mappers : RuntimeId → ScriptedMapper
  hosts : RuntimeId → ScriptedHost
  /-- Each thread's value of the foreign key, which all hosts share. -/
  foreign : ThreadId → UInt64
  nextThread : ThreadId
  residents : List Resident
  /-- What was written down, newest first. -/
  newest : List Event
  /-- The function entered last. -/
  entered : Option Entered
  /-- The thread started last. -/
  started : Option Started
  regions : Array Region
  records : Array RecordSlot

namespace State

/-- A fresh session of `runtimes` runtimes. -/
def fresh (runtimes : Nat) (image : Image) : State where
  image := image
  runtimes := runtimes
  mappers := .fresh
  hosts := fun _ => .fresh
  foreign := fun _ => 0
  nextThread := 1
  residents := []
  newest := []
  entered := none
  started := none
  regions := #[]
  records := #[]

def setMapper (s : State) (rt : RuntimeId) (m : ScriptedMapper) : State :=
  { s with mappers := replace s.mappers rt m }

def setHost (s : State) (rt : RuntimeId) (h : ScriptedHost) : State :=
  { s with hosts := replace s.hosts rt h }

def setForeign (s : State) (t : ThreadId) (value : UInt64) : State :=
  { s with foreign := replace s.foreign t value }

def record (s : State) (events : List Event) : State := { s with newest := events.reverse ++ s.newest }

/-- What was written down, in the order in which it happened. -/
def events (s : State) : List Event := s.newest.reverse

/-- Nothing is written down any more. -/
def forget (s : State) : State := { s with newest := [] }

def phase (s : State) (rt : RuntimeId) : Phase := (s.image.runtimes rt).phase

/-- Whether the function waits for commands on this thread. Only threads of hosts that stand alone do. -/
def waits (s : State) (rt : RuntimeId) (entry : EntryPoint) : Bool :=
  entry = Entry.stay.point ∧ (s.hosts rt).library = none

/-- Notes that a function is entered. -/
def enter (s : State) (t : ThreadId) (entry : EntryPoint) (arg : UInt64) : State :=
  { s with entered := some ⟨entry,arg,s.image.threads t⟩ }

/-- The function that a C library runs gives the foreign key its value, if there is such a key. -/
def setsForeign (s : State) : Bool := (s.hosts ⟨0⟩).library.any (·.foreignKey)

/-- What a function returns that does not wait for commands. -/
def result (s : State) (t : ThreadId) (entry : EntryPoint) (arg : UInt64) : UInt64 :=
  match Entry.ofPoint? entry with
  | some .double => arg + arg
  | some .null => 0
  | some .pointer => (s.image.threads t).pointer
  | some .echo | some .stay | none => arg

end State

abbrev Act := Acting State

/-- How the programs of nested activity are answered, on a given thread. -/
abbrev Answers := ThreadId → (q : Request) → Act q.Reply

/-- Changes the doubles of a runtime's host. -/
def onHost (rt : RuntimeId) (f : ScriptedHost → β × ScriptedHost) : Act β :=
  modifyGet fun s =>
    let (b,h) := f (s.hosts rt)
    (b,s.setHost rt h)

def note (event : Event) : Act Unit := modify (·.record [event])

/-- A state request. -/
def answerState (t : ThreadId) (call : StateCall) : Act call.Reply :=
  modifyGet fun s =>
    let (reply,image) := s.image.answer t call
    (reply,{ s with image := image })

def answerMapper (rt : RuntimeId) (call : MapperCall) : Act call.Reply :=
  modifyGet fun s =>
    let (reply,events,m) := (s.mappers rt).answer rt call
    (reply,(s.setMapper rt m).record events)

/-- Gives the foreign key its value on a thread, if there is a foreign destructor. -/
def armForeign (t : ThreadId) (rt : RuntimeId) : Act Unit := do
  match ((← get).hosts rt).foreign with
  | none => pure ()
  | some rearms =>
    let value ← Acting.checked (foreignValue rearms)
    modify (·.setForeign t value)

/-- An overflow where the C library is the caller ends the process. -/
def trapping (t : ThreadId) (called : Act Unit) : Act Unit :=
  tryCatch called fun
    | .overflow operation => do
      answerState t (.emit Diagnostics.trapLine)
      throw (.trapped operation)
    | reason => throw reason

def answerEnter (t : ThreadId) (entry : EntryPoint) (arg : UInt64) : Act UInt64 := do
  modify (·.enter t entry arg)
  if (← get).setsForeign then trapping t (armForeign t ⟨0⟩)
  return (← get).result t entry arg

/-- Runs the exit rounds of a thread. -/
def exitThread (nested : Answers) (t : ThreadId) (rt : RuntimeId) : Act Unit := do
  let alone := ((← get).hosts rt).library.isNone
  if alone then armForeign t rt
  let h := (← get).hosts rt
  let hooks : ExitHooks State := {
    takeValues := fun s =>
      (⟨(s.hosts rt).values t,s.foreign t⟩,(s.setHost rt ((s.hosts rt).setValue t 0)).setForeign t 0)
    callOwn := fun value => do
      if alone then note (.pass rt value)
      if h.destructorKnown then (Cleanup.destructor value).run (nested t)
    callForeign := fun value => do
      note (.foreign rt ((← get).image.threads t).holding.isSome)
      modify (·.setForeign t (value - 1)) }
  hooks.run (if alone then h.rounds else destructorRounds.toNat)

/-- Ends a thread that has its result. An overflow on the way loses both, and nobody is told. -/
def finish (nested : Answers) (t : ThreadId) (rt : RuntimeId) (result : UInt64) : Act (Option UInt64) :=
  tryCatch (do
    exitThread nested t rt
    return some result) fun
    | .overflow _ => return none
    | reason => throw reason

/-- Runs what a new thread does, up to its result or up to the function that waits for commands. -/
def runBody (answers : (q : Request) → Act q.Reply) (waits : EntryPoint → Bool)
    (enter : EntryPoint → UInt64 → Act Unit) : Program α → Act (α ⊕ (UInt64 → Program α))
  | .done a => return .inl a
  | .stop reason => throw reason
  | .ask (.enter entry arg) next => do
    if waits entry then
      enter entry arg
      return .inr next
    else
      let reply ← answers (.enter entry arg)
      runBody answers waits enter (next reply)
  | .ask (.mapper rt call) next => do
    let reply ← answers (.mapper rt call)
    runBody answers waits enter (next reply)
  | .ask (.host rt call) next => do
    let reply ← answers (.host rt call)
    runBody answers waits enter (next reply)
  | .ask (.state call) next => do
    let reply ← answers (.state call)
    runBody answers waits enter (next reply)

/-- Starts a thread and runs it as far as it goes without commands. -/
def startThread (nested : Answers) (rt : RuntimeId) (call : SpawnCall) : Act Unit := do
  let t := (← get).nextThread
  let handle ← onHost rt fun h => (h.nextHandle,{ h with nextHandle := h.nextHandle + 1 })
  let waits := (← get).waits rt
  modify fun s => { s with nextThread := t + 1, started := some ⟨t,handle,none⟩ }
  match ← runBody (nested t) waits (fun entry arg => modify (·.enter t entry arg)) (call.start.run call.arg) with
  | .inl result =>
    let result ← finish nested t rt result
    modify fun s => { s with started := some ⟨t,handle,result⟩ }
  | .inr resume => modify fun s => { s with residents := s.residents ++ [⟨t,rt,resume⟩] }

/-- Looks up the spawn primitive. The script may want the same runtime initialized once more on the way. -/
def answerInstall (nested : Answers) (t : ThreadId) (rt : RuntimeId) : Act (Except Fault Unit) := do
  let code ← onHost rt ScriptedHost.install
  note (.install rt code ((← get).phase rt))
  if ((← get).hosts rt).reenter then
    let result ← (Startup.attempt rt).run.run (nested t)
    note (.reenter rt result ((← get).phase rt))
  return if code = 0 then .ok () else .error .interceptionFailed

/-- Reports a cause and ends the process. -/
def abort (t : ThreadId) (cause : Diagnostics.Fatal) : Act Unit := do
  answerState t (.emit cause.line)
  throw (.aborted cause)

/-- A C library whose primitive was never looked up cannot start threads. -/
def requireInstalled (t : ThreadId) (rt : RuntimeId) : Act Unit := do
  match ((← get).hosts rt).library with
  | some library => if library.installed then pure () else abort t .notInstalled
  | none => pure ()

def answerSpawn (nested : Answers) (t : ThreadId) (rt : RuntimeId) (call : SpawnCall) : Act Int32 := do
  let code ← onHost rt ScriptedHost.spawnCode
  note (.spawn rt call.attr.isSome code)
  if code ≠ 0 then return code
  else
    requireInstalled t rt
    match ((← get).hosts rt).refusal call.attr with
    | some code => return code
    | none =>
      startThread nested rt call
      return 0

def answerHost (nested : Answers) (t : ThreadId) (rt : RuntimeId) : (call : HostCall) → Act call.Reply
  | .stackLimit => return ((← get).hosts rt).stackLimit
  | .defaultAttributes => return ((← get).hosts rt).defaultAttributes
  | .requestedAttributes _ => return ((← get).hosts rt).requestedAttributes
  | .installInterception => answerInstall nested t rt
  | .createCleanupKey => do
    match ← onHost rt ScriptedHost.createKey with
    | .ok key =>
      note (.keyCreate rt 0)
      return .ok key
    | .error code =>
      note (.keyCreate rt code)
      return .error (.keyCreateFailed code)
  | .setCleanupValue key value => do
    let (code,result) ← onHost rt (·.setKey t key value)
    let shown := if ((← get).hosts rt).library.isSome then none else some key
    note (.keySet rt shown value code)
    return if result = 0 then .ok () else .error (.keySetFailed result)
  | .spawn call => answerSpawn nested t rt call

/-- The answer to a request of the thread `t`, where `nested` answers what runs inside it. -/
def answerWith (nested : Answers) (t : ThreadId) : (q : Request) → Act q.Reply
  | .mapper rt call => answerMapper rt call
  | .host rt call => answerHost nested t rt call
  | .state call => answerState t call
  | .enter entry arg => answerEnter t entry arg

/-- Answers with activity nested to the given depth. Below it every request ends the process. -/
def answer : (depth : Nat) → Answers
  | 0 => fun _ _ => throw (.aborted (.other [.text "nested too deeply"]))
  | depth + 1 => answerWith (answer depth)

/-- No program of a session nests more deeply: a program starts a thread, and the thread runs its destructor. -/
def depth : Nat := 4

/-- Runs a program on a thread. -/
def perform (t : ThreadId) (p : Program α) : Act α := p.run (answer depth t)

end GuardedStack.Session
