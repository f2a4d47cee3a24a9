import GuardedStack.Session.Basic

/-! The steps of a session. Each runs one operation of the library on one thread and keeps what later steps may
name: the regions and the records that were made, in the order of making. -/
namespace GuardedStack.Session

/-- Why a step is not run. -/
inductive Refusal where
  | noSuchThread
  | noSuchRuntime
  | noSuchRegion
  | noSuchRecord
  /-- The record was read already, or another was written over it. -/
  | recordTaken
  | recordUnmapped
  /-- A record is placed only into a whole live mapping. -/
  | regionUnmapped
  | nullBase
  | nullMapping
  /-- A function that waits for commands cannot be started on a thread that already runs. -/
  | entryStays
  | mainStays
  | stackSizeRefused
  deriving DecidableEq, Repr

def Refusal.message : Refusal → String
  | .noSuchThread => "no such thread"
  | .noSuchRuntime => "no such runtime"
  | .noSuchRegion => "no such region"
  | .noSuchRecord => "no such record"
  | .recordTaken => "record already taken"
  | .recordUnmapped => "record memory is gone"
  | .regionUnmapped => "region is not mapped"
  | .nullBase => "null base"
  | .nullMapping => "null mapping"
  | .entryStays => "entry stays"
  | .mainStays => "the main thread stays"
  | .stackSizeRefused => "pthread refuses this stack size"

namespace State

/-- The main thread and the threads that wait for commands can run steps. -/
def thread? (s : State) (t : ThreadId) : Except Refusal ThreadId :=
  if t = 0 ∨ s.residents.any (·.thread = t) then .ok t else .error .noSuchThread

def resident? (s : State) (t : ThreadId) : Except Refusal Resident :=
  if t = 0 then .error .mainStays
  else match s.residents.find? (·.thread = t) with
    | some resident => .ok resident
    | none => .error .noSuchThread

def runtime? (s : State) (n : Nat) : Except Refusal RuntimeId :=
  if n < s.runtimes then .ok ⟨UInt64.ofNat n⟩ else .error .noSuchRuntime

def region? (s : State) (n : Nat) : Except Refusal Region :=
  match s.regions[n]? with
  | some region => .ok region
  | none => .error .noSuchRegion

/-- Some live mapping of the record's runtime holds the whole record. Another runtime may have memory at the same
addresses, but the record is not there. -/
def holds (s : State) (r : RecordSlot) : Bool :=
  (s.mappers r.runtime).live.any fun (start,len) =>
    start.toNat ≤ r.addr.toNat ∧ r.addr.toNat + Handoff.size.toNat ≤ start.toNat + len.toNat

/-- The address of a record that can still be read. -/
def record? (s : State) (n : Nat) : Except Refusal UInt64 :=
  match s.records[n]? with
  | none => .error .noSuchRecord
  | some slot =>
    if slot.taken then .error .recordTaken
    else if s.holds slot then .ok slot.addr
    else .error .recordUnmapped

/-- The region is exactly one live mapping of the runtime's mapper. -/
def mapped? (s : State) (rt : RuntimeId) (r : Region) : Checked (Except Refusal Unit) := do
  if (s.mappers rt).isLive r.start (← r.length) then return .ok () else return .error .regionUnmapped

/-- An attribute object, where the step wants one. -/
def attributes? (s : State) (rt : RuntimeId) (wanted : Bool) : Except Refusal (Option AttributeRef) :=
  if !wanted then .ok none
  else if (s.hosts rt).refusesRequest then .error .stackSizeRefused
  else .ok (some ⟨1⟩)

/-- What the record at `addr` says. -/
def peek (s : State) (addr : UInt64) : Handoff :=
  Handoff.decode (s.image.memory.load addr Handoff.size.toNat)

/-- Keeps a record; an older one at the same place is written over. -/
def keepRecord (s : State) (rt : RuntimeId) (addr : UInt64) : State :=
  let older := s.records.map fun r => if r.addr = addr then { r with taken := true } else r
  { s with records := older.push ⟨addr,rt,false⟩ }

def spendRecord (s : State) (addr : UInt64) : State :=
  { s with records := s.records.map fun r => if r.addr = addr then { r with taken := true } else r }

/-- The live mappings by runtime, oldest first. -/
def live (s : State) : List (Nat × UInt64 × UInt64) :=
  (List.range s.runtimes).flatMap fun n => (s.mappers ⟨UInt64.ofNat n⟩).live.map fun m => (n,m)

end State

/-- Keeps a region and gives its index. -/
def keepRegion (r : Region) : Act (Region × Nat) :=
  modifyGet fun s => ((r,s.regions.size),{ s with regions := s.regions.push r })

/-- Keeps the region of an attempt that succeeded. -/
def keepingRegion (t : ThreadId) (attempt : Attempt Region) : Act (Except Fault (Region × Nat)) := do
  match ← perform t attempt.run with
  | .ok region => return .ok (← keepRegion region)
  | .error cause => return .error cause

def startUp (t : ThreadId) (rt : RuntimeId) : Act (Except Fault (Region × Nat)) :=
  keepingRegion t (Startup.attempt rt)

def startUpOrAbort (t : ThreadId) (rt : RuntimeId) : Act (Region × Nat) := do
  keepRegion (← perform t (Startup.run rt))

def allocate (t : ThreadId) (rt : RuntimeId) (size guard : UInt64) : Act (Except Fault (Region × Nat)) :=
  keepingRegion t (Region.allocate rt size guard)

/-- Keeps the record of an attempt that succeeded. -/
def keepingRecord (t : ThreadId) (rt : RuntimeId) (attempt : Attempt UInt64) : Act (Except Fault UInt64) := do
  let result ← perform t attempt.run
  if let .ok addr := result then modify (·.keepRecord rt addr)
  return result

def prepare (t : ThreadId) (rt : RuntimeId) (attr : Option AttributeRef) (entry : Entry) (arg : UInt64) :
    Act (Except Fault UInt64) :=
  keepingRecord t rt (Spawn.prepare rt attr entry.point arg)

def place (t : ThreadId) (rt : RuntimeId) (r : Region) (entry : Entry) (arg : UInt64) :
    Act (Except Fault UInt64) :=
  keepingRecord t rt (Handoff.place ⟨entry.point,arg,r,rt⟩)

/-- A record that was read, with the index of its region; the flag tells that its bytes are blank now. -/
structure TakenRecord where
  handoff : Handoff
  region : Nat
  blank : Bool

def takeRecord (t : ThreadId) (addr : UInt64) : Act TakenRecord := do
  let handoff ← perform t (Handoff.take addr)
  modify (·.spendRecord addr)
  let (_,index) ← keepRegion handoff.region
  let bytes := (← get).image.memory.load addr Handoff.size.toNat
  return ⟨handoff,index,bytes = Handoff.blank⟩

/-- Runs the first frame of a record on a thread that already runs. -/
def startRecord (t : ThreadId) (addr : UInt64) : Act (UInt64 × Option Entered) := do
  modify fun s => { s.spendRecord addr with entered := none }
  let result ← perform t (Spawn.firstFrame addr)
  return (result,(← get).entered)

/-- What a spawn came to. -/
structure SpawnReport where
  code : Int32
  started : Option Started
  entered : Option Entered

/-- Runs a program that starts at most one thread. -/
def spawning (t : ThreadId) (p : Program Int32) : Act SpawnReport := do
  modify fun s => { s with started := none, entered := none }
  let code ← perform t p
  let s ← get
  return ⟨code,s.started,s.entered⟩

def spawn (t : ThreadId) (rt : RuntimeId) (attr : Option AttributeRef) (entry : Entry) (arg : UInt64) :
    Act SpawnReport :=
  spawning t (Spawn.intercept rt 0 attr entry.point arg)

/-- Starts a thread behind the library's back. -/
def rawSpawn (t : ThreadId) (rt : RuntimeId) (attr : Option AttributeRef) (entry : Entry) (arg : UInt64) :
    Act SpawnReport :=
  spawning t (Host.spawn rt ⟨0,attr,.function entry.point,arg⟩)

/-- The exit rounds of a thread that goes on afterwards. A C library has none for a thread that does not end. -/
def exitRounds (t : ThreadId) (rt : RuntimeId) : Act Unit := do
  if ((← get).hosts rt).library.isNone then exitThread (answer depth) t rt else pure ()

/-- A waiting thread returns `ret` from its function and exits. Its result is known unless it is lost. -/
def leave (r : Resident) (ret : UInt64) : Act (Option UInt64) := do
  modify fun s => { s with residents := s.residents.filter (·.thread ≠ r.thread) }
  let result ← perform r.thread (r.resume ret)
  finish (answer depth) r.thread r.host result

end GuardedStack.Session
