import GuardedStack.Handoff

/-! The thread functions of a session. A record names them by their code addresses. -/
namespace GuardedStack.Session

inductive Entry where
  /-- Returns its argument. -/
  | echo
  /-- Returns twice its argument, wrapping. -/
  | double
  /-- Returns zero. -/
  | null
  /-- Returns the current stack pointer. -/
  | pointer
  /-- Waits for commands until it is told what to return. -/
  | stay
  deriving DecidableEq, Repr

namespace Entry

def all : List Entry := [echo,double,null,pointer,stay]

def name : Entry → String
  | echo => "echo"
  | double => "double"
  | null => "null"
  | pointer => "pointer"
  | stay => "stay"

def ofName? (name : String) : Option Entry := all.find? (·.name = name)

/-- The code address. -/
def point : Entry → EntryPoint
  | echo => ⟨0x401000⟩
  | double => ⟨0x401100⟩
  | null => ⟨0x401200⟩
  | pointer => ⟨0x401300⟩
  | stay => ⟨0x401400⟩

def ofPoint? (p : EntryPoint) : Option Entry := all.find? (·.point = p)

end Entry
end GuardedStack.Session
