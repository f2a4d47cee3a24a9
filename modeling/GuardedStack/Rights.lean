/-! Access rights of mapped memory. The library itself needs those of a guard and of stack memory; masks and the operations
on sets of rights are for those who ask for others. -/
namespace GuardedStack

structure Rights where
  read : Bool
  write : Bool
  execute : Bool
  deriving DecidableEq, Repr

namespace Rights

/-- The rights of a guard. -/
def none : Rights := ⟨false,false,false⟩

def all : Rights := ⟨true,true,true⟩

/-- The rights of stack memory. -/
def readWrite : Rights := ⟨true,true,false⟩

/-- The known bits of a mask: reading 1, writing 2, execution 4. -/
def ofBits (bits : UInt32) : Rights := ⟨bits &&& 1 ≠ 0,bits &&& 2 ≠ 0,bits &&& 4 ≠ 0⟩

def bits (r : Rights) : UInt32 :=
  (if r.read then 1 else 0) ||| (if r.write then 2 else 0) ||| (if r.execute then 4 else 0)

/-- The rights of a mask that has no other bits. -/
def ofBits? (bits : UInt32) : Option Rights :=
  if (ofBits bits).bits = bits then some (ofBits bits) else .none

/-- Works on two sets of rights bit by bit. -/
def zipWith (f : Bool → Bool → Bool) (a b : Rights) : Rights :=
  ⟨f a.read b.read,f a.write b.write,f a.execute b.execute⟩

def union : Rights → Rights → Rights := zipWith (· || ·)
def intersection : Rights → Rights → Rights := zipWith (· && ·)
def difference : Rights → Rights → Rights := zipWith (· && !·)
def symmetricDifference : Rights → Rights → Rights := zipWith (· ^^ ·)
def complement (r : Rights) : Rights := difference all r

/-- Every right of `b` is one of `a`. -/
def covers (a b : Rights) : Bool := intersection a b = b

def meets (a b : Rights) : Bool := intersection a b ≠ none

/-- The letters `rwx`, with a dash for each right that is missing. -/
def text (r : Rights) : String :=
  String.ofList [if r.read then 'r' else '-',if r.write then 'w' else '-',if r.execute then 'x' else '-']

/-- Memory that may be written or executed may also be read. -/
def readable (r : Rights) : Bool := r.read || r.write || r.execute

end Rights
end GuardedStack
