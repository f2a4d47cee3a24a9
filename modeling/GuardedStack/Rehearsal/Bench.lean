import GuardedStack.Rehearsal

/-! A bench for the kernel's memory on its own: mappings and regions are made, numbered, probed and given back
one at a time. A number whose mapping or region is gone names nothing any more. -/
namespace GuardedStack.Rehearsal

structure Bench where
  world : State
  /-- The start and the length of each mapping. -/
  mappings : Array (Option (UInt64 × UInt64))
  regions : Array (Option Region)

namespace Bench

def fresh (image : Image) : Bench := ⟨.fresh image,#[],#[]⟩

/-- Why a step is not run. -/
inductive Refusal where
  | noSuchMapping
  | outsideMapping
  | noSuchRegion
  | outsideRegion
  /-- A part of a region would be unmapped. -/
  | partialUnmap
  deriving DecidableEq, Repr

def Refusal.message : Refusal → String
  | .noSuchMapping => "no such mapping"
  | .outsideMapping => "outside the mapping"
  | .noSuchRegion => "no such region"
  | .outsideRegion => "outside the region"
  | .partialUnmap => "partial unmap"

def mapping? (b : Bench) (n : Nat) : Except Refusal (UInt64 × UInt64) :=
  match b.mappings[n]? with
  | some (some m) => .ok m
  | _ => .error .noSuchMapping

def region? (b : Bench) (n : Nat) : Except Refusal Region :=
  match b.regions[n]? with
  | some (some r) => .ok r
  | _ => .error .noSuchRegion

/-- The range lies in the mapping, up to the end of its last page. -/
def within? (m : UInt64 × UInt64) (off len : UInt64) : Except Refusal UInt64 :=
  if off.toNat + len.toNat ≤ Kernel.pages m.2 * Kernel.pageBytes then .ok (m.1 + off)
  else .error .outsideMapping

/-- The byte lies in the mapping. -/
def byte? (m : UInt64 × UInt64) (off : UInt64) : Except Refusal UInt64 :=
  if off < m.2 then .ok (m.1 + off) else .error .outsideMapping

/-- The range lies in the region's mapping. -/
def inside? (r : Region) (off len : UInt64) : Except Refusal UInt64 :=
  if off.toNat + len.toNat ≤ r.usable.toNat + r.guard.toNat then .ok (r.start + off)
  else .error .outsideRegion

/-- The range is the whole of the region's mapping. -/
def isWhole (r : Region) (off len : UInt64) : Bool := off = 0 ∧ len = r.usable + r.guard

/-- A region is unmapped only as a whole. A range that the kernel refuses anyway is left to it. -/
def unmappable? (r : Region) (off len : UInt64) : Except Refusal Unit :=
  if Kernel.aligned off ∧ len ≠ 0 ∧ !isWhole r off len then .error .partialUnmap else .ok ()

/-- No two live regions overlap. -/
def disjoint (b : Bench) : Checked Bool := do
  let live := b.regions.toList.filterMap id
  let pairs := live.zipIdx.flatMap fun (r,i) => (live.drop (i + 1)).map fun other => (r,other)
  pairs.allM fun (r,other) => return !(← r.overlaps other)

/-- The address within the mapping that it belongs to. -/
def locate (b : Bench) (addr : UInt64) : Option (Nat × UInt64) := b.world.kernel.locate addr

/-- The page size, as it would be if the system reported `reported`. -/
def pageSize (b : Bench) (reported : Option Int) : UInt64 :=
  match reported with
  | none => b.world.kernel.pageSize
  | some n => { b.world.kernel with reported := n }.pageSize

end Bench

abbrev BenchAct := Acting Bench

namespace Bench

/-- Runs a program on the bench's only thread. -/
def perform (p : Program α) : BenchAct α := do
  let b ← get
  let (result,world) := (Rehearsal.perform 0 p).run b.world
  set { b with world := world }
  match result with
  | .ok a => return a
  | .error stop => throw stop

/-- Tries to read the byte and to write it, and says which of the two could be done. -/
def probe (addr : UInt64) : BenchAct (Bool × Bool) :=
  modifyGet fun b =>
    let rights := b.world.kernel.rightsAt addr
    ((rights.readable,rights.write),{ b with world := { b.world with kernel := b.world.kernel.write addr } })

/-- A probe of an address that may lie outside the region's mapping. -/
def probeIn (r : Region) (addr : UInt64) : BenchAct (Option (Bool × Bool)) :=
  if r.start ≤ addr ∧ (addr - r.start).toNat < r.usable.toNat + r.guard.toNat then some <$> probe addr
  else return none

/-- Makes a mapping and gives its number. -/
def map (len : UInt64) (rights : Rights) : BenchAct (Except Fault (Nat × UInt64)) := do
  match ← perform (Mapper.map runtime len rights).run with
  | .ok addr =>
    let n := (← get).mappings.size
    modify fun b => { b with mappings := b.mappings.push (some (addr,len)) }
    return .ok (n,addr)
  | .error cause => return .error cause

def protect (addr len : UInt64) (rights : Rights) : BenchAct (Except Fault Unit) :=
  perform (Mapper.protect runtime addr len rights).run

/-- Unmaps a part of a mapping, which is gone after that. -/
def unmap (n : Nat) (addr len : UInt64) : BenchAct (Except Fault Unit) := do
  let result ← perform (Mapper.unmap runtime addr len).run
  if let .ok () := result then modify fun b => { b with mappings := b.mappings.setIfInBounds n none }
  return result

/-- Makes a region and gives its number. -/
def allocate (size guard : UInt64) : BenchAct (Except Fault (Nat × Region)) := do
  match ← perform (Region.allocate runtime size guard).run with
  | .ok r =>
    let n := (← get).regions.size
    modify fun b => { b with regions := b.regions.push (some r) }
    return .ok (n,r)
  | .error cause => return .error cause

/-- Ends a region if the attempt succeeds. -/
def ending (n : Nat) (attempt : Attempt Unit) : BenchAct (Except Fault Unit) := do
  let result ← perform attempt.run
  if let .ok () := result then modify fun b => { b with regions := b.regions.setIfInBounds n none }
  return result

def release (n : Nat) (r : Region) : BenchAct (Except Fault Unit) := ending n (Region.release runtime r)

def unmapRegion (n : Nat) (addr len : UInt64) : BenchAct (Except Fault Unit) :=
  ending n (Mapper.unmap runtime addr len)

end Bench

/-- The unmapped ranges of a journal. -/
def unmaps (journal : List Observation) : List (UInt64 × UInt64) :=
  journal.filterMap fun
    | .unmap addr len => some (addr,len)
    | _ => none

end GuardedStack.Rehearsal
