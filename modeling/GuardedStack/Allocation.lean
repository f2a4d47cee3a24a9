import GuardedStack.Calls

/-! Making regions and giving them back. Whatever goes wrong on the way, the fault reported is the first one,
and a mapping that was made but cannot be used is unmapped before the report. -/
namespace GuardedStack.Region

/-- Revokes all access to the guard of a new mapping; a mapping whose guard stays open is dropped. -/
def closeGuard (rt : RuntimeId) (start total guard : UInt64) : Attempt Unit := do
  match ← (Mapper.protect rt start guard .none).outcome with
  | .ok () => pure ()
  | .error cause =>
    match ← (Mapper.unmap rt start total).outcome with
    | .ok () => throw cause
    | .error leftover =>
      Program.trace (pure s!"dropping half-built unsafe stack: {leftover.message}")
      throw cause

/-- Maps `size` usable bytes above an inaccessible guard. -/
def allocate (rt : RuntimeId) (size guard : UInt64) : Attempt Region := do
  match Checked.add size guard with
  | .error _ => throw (.sizeOverflow size guard)
  | .ok total =>
    let start ← Mapper.map rt total .readWrite
    if guard ≠ 0 then closeGuard rt start total guard
    let base := start + guard
    Program.trace do
      let top ← Program.checked (Checked.add base size)
      return s!"mapped unsafe stack {hex base}..{hex top} (guard {hex guard})"
    return ⟨base,size,guard⟩

/-- Unmaps a region as a whole, guard included. -/
def release (rt : RuntimeId) (r : Region) : Attempt Unit := do
  let length ← Attempt.checked r.length
  Mapper.unmap rt r.start length
  Program.trace (pure s!"released unsafe stack {hex r.base}..{hex r.top}")

/-- Unmaps a region that was never used. A fault is only traced, with the reason for dropping the region. -/
def discard (rt : RuntimeId) (reason : String) (r : Region) : Program Unit := do
  match ← (release rt r).run with
  | .ok () => pure ()
  | .error leftover => Program.trace (pure s!"{reason}: {leftover.message}")

end GuardedStack.Region
