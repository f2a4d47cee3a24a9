import GuardedStack.Word

/-! The fixed numbers of the library, and what its one environment variable may say. The name of the variable and the names
of the verbosities are for callers: a reading of the variable gets its value. -/
namespace GuardedStack

/-- Every stack pointer is a multiple of this many bytes. -/
def stackAlign : UInt64 := 16

/-- The main thread's stack size where the process has no stack limit. -/
def defaultStackSize : UInt64 := 0x2800000

/-- How many rounds of key destructors a thread exit is guaranteed. -/
def destructorRounds : UInt64 := 4

/-- The value the cleanup key holds from a thread's start to its first destructor round. -/
def armed : UInt64 := 1

/-- The environment variable that sets the verbosity. -/
def logVariable : String := "TWIN_STACKS_LOG"

/-- How much the library reports, from least to most. -/
inductive Verbosity where
  | quiet
  | notice
  | trace
  deriving DecidableEq, Repr

namespace Verbosity

def rank : Verbosity → Nat
  | .quiet => 0
  | .notice => 1
  | .trace => 2

def name : Verbosity → String
  | .quiet => "quiet"
  | .notice => "notice"
  | .trace => "trace"

def all : List Verbosity := [quiet,notice,trace]

def ofName? (name : String) : Option Verbosity := all.find? (·.name = name)

/-- Messages of `level` are written under the verbosity `v`. -/
def shows (v level : Verbosity) : Bool := level.rank ≤ v.rank

/-- The value has exactly the bytes of the text. -/
def spells (value : ByteArray) (text : String) : Bool := value.data == text.toUTF8.data

/-- The reading of the variable's value; an unknown value is quiet. -/
def ofSetting (value : ByteArray) : Verbosity :=
  if spells value "trace" || spells value "2" then .trace
  else if spells value "notice" || spells value "1" then .notice
  else .quiet

/-- The reading of the variable itself, which may be unset. -/
def ofEnvironment : Option ByteArray → Verbosity
  | none => .quiet
  | some value => ofSetting value

end Verbosity
end GuardedStack
