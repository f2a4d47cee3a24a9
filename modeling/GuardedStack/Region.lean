import GuardedStack.Word

/-! A guarded stack. Its mapping has an inaccessible guard at the bottom and the usable part above it; the
stack starts at the top of the usable part and grows down, so an overflow runs into the guard.

    start            base                top
      [    guard     ][      usable      ]

A region is only a description. `top` and `start` wrap; the other operations are checked. -/
namespace GuardedStack

structure Region where
  /-- The lowest usable address. -/
  base : UInt64
  usable : UInt64
  guard : UInt64
  deriving DecidableEq, Repr

namespace Region

/-- One past the highest usable address. -/
def top (r : Region) : UInt64 := r.base + r.usable

/-- The lowest address of the mapping. -/
def start (r : Region) : UInt64 := r.base - r.guard

/-- The length of the mapping, guard included. -/
def length (r : Region) : Checked UInt64 := Checked.add r.usable r.guard

/-- The address is in the usable part. The end is computed only for addresses from the base on. -/
def contains (r : Region) (addr : UInt64) : Checked Bool :=
  if r.base ≤ addr then do
    let stop ← Checked.add r.base r.usable
    return addr < stop
  else return false

def inGuard (r : Region) (addr : UInt64) : Bool := r.start ≤ addr ∧ addr < r.base

/-- One past the mapping. -/
def finish (r : Region) : Checked UInt64 := do Checked.add r.start (← r.length)

/-- The mappings share an address. The end of `a` is computed only if `a` starts below the end of `b`. -/
def overlaps (a b : Region) : Checked Bool := do
  if a.start < (← b.finish) then return b.start < (← a.finish) else return false

/-- The base is where the guard ends, also in a mapping that wraps. -/
theorem start_add_guard (r : Region) : r.start + r.guard = r.base := by
  simp [start]

end Region
end GuardedStack
