/-! Room for mappings in the address space of a process. The parts of the process leave two gaps. A mapping lies in
one of them, apart from every other mapping and as high as it fits. One that consists of huge pages begins at
the boundary of a huge page, where there is room to move it there. -/
namespace GuardedStack

/-- A run of pages by their places in the address space. -/
structure Extent where
  first : Nat
  count : Nat
  deriving DecidableEq, Repr

namespace Extent

/-- The place behind the last page. -/
def stop (e : Extent) : Nat := e.first + e.count

def within (a b : Extent) : Bool := b.first ≤ a.first ∧ a.stop ≤ b.stop

def meets (a b : Extent) : Bool := a.first < b.stop ∧ b.first < a.stop

end Extent

namespace Room

/-- The gap below the program and the gap above it. -/
def gaps : List Extent := [⟨0x10,0x555555544⟩,⟨0x555600000,0x298000100⟩]

/-- Pages of a huge page. -/
def hugePage : Nat := 512

/-- The extent lies in a gap and apart from everything that is taken. -/
def fits (taken : List Extent) (e : Extent) : Bool := gaps.any e.within && taken.all (!e.meets ·)

/-- Where an extent ends that cannot be moved up: at the end of a gap or at something taken. -/
def barriers (taken : List Extent) : List Nat := gaps.map Extent.stop ++ taken.map Extent.first

/-- The highest place for `count` pages. -/
def highest? (taken : List Extent) (count : Nat) : Option Nat :=
  let places := ((barriers taken).filter (count ≤ ·)).map (· - count)
  (places.filter fun place => fits taken ⟨place,count⟩).max?

/-- The place for a new mapping of `count` pages. -/
def place? (taken : List Extent) (count : Nat) : Option Nat :=
  let roomy := if count % hugePage = 0 then highest? taken (count + hugePage) else none
  match roomy with
  | some place => some ((place + hugePage) / hugePage * hugePage)
  | none => highest? taken count

end Room
end GuardedStack
