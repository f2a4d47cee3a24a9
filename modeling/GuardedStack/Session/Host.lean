import GuardedStack.Image
import GuardedStack.Session.Event
import GuardedStack.Session.Library

/-! A threading host that follows a script. It may stand alone or put its script in front of a C library,
which then has the last word on attributes, keys and spawning. -/
namespace GuardedStack.Session

structure ScriptedHost where
  limit : Option UInt64
  defaults : Except Int32 StackAttributes
  requested : Except Int32 StackAttributes
  spawnCodes : List Int32
  installErrors : List Int32
  keyCreateCodes : List Int32
  keySetCodes : List Int32
  /-- How often the foreign destructor sets its value again. -/
  foreign : Option UInt64
  /-- Destructor rounds of a thread exit. -/
  rounds : Nat
  key : CleanupKey
  /-- Installing tries to initialize the same runtime once more. -/
  reenter : Bool
  nextHandle : Nat
  /-- The cleanup key has been made, so its destructor is known. -/
  destructorKnown : Bool
  /-- Each thread's value of the cleanup key. -/
  values : ThreadId → UInt64
  library : Option Library

namespace ScriptedHost

def fresh : ScriptedHost where
  limit := some 0x800000
  defaults := .ok ⟨0x40000,0x2000⟩
  requested := .ok ⟨0x100000,0x1000⟩
  spawnCodes := []
  installErrors := []
  keyCreateCodes := []
  keySetCodes := []
  foreign := none
  rounds := 4
  key := ⟨7⟩
  reenter := false
  nextHandle := 1
  destructorKnown := false
  values := fun _ => 0
  library := none

def setValue (h : ScriptedHost) (t : ThreadId) (value : UInt64) : ScriptedHost :=
  { h with values := replace h.values t value }

def stackLimit (h : ScriptedHost) : Option UInt64 :=
  match h.library with
  | none => h.limit
  | some lib => if lib.failures.limit then none else h.limit.filter (· ≠ Library.unlimited)

/-- The first of several codes that is not zero is the fault of an attribute query. -/
def queried (codes : List Int32) (attributes : StackAttributes) : Except Fault StackAttributes :=
  match codes.find? (· ≠ 0) with
  | some code => .error (.attributeQueryFailed code)
  | none => .ok attributes

def defaultAttributes (h : ScriptedHost) : Except Fault StackAttributes :=
  match h.defaults, h.library with
  | .error code, _ => .error (.attributeQueryFailed code)
  | .ok a, none => .ok a
  | .ok a, some lib =>
    let f := lib.failures
    queried [f.attrInit,f.attrStackSize,f.attrGuardSize] { a with guard := Library.defaultGuard }

def requestedAttributes (h : ScriptedHost) : Except Fault StackAttributes :=
  match h.requested, h.library with
  | .error code, _ => .error (.attributeQueryFailed code)
  | .ok a, none => .ok a
  | .ok a, some lib => queried [lib.failures.attrStackSize,lib.failures.attrGuardSize] a

/-- The C library makes no attribute object with the requested size. -/
def refusesRequest (h : ScriptedHost) : Bool :=
  match h.requested, h.library with
  | .ok a, some _ => a.size < Library.minStackSize
  | _, _ => false

/-- The code with which the C library starts no thread, though the script lets it. -/
def refusal (h : ScriptedHost) (attr : Option AttributeRef) : Option Int32 :=
  match attr, h.requested, h.library with
  | some _, .ok a, some _ => Library.refusal a
  | _, _, _ => none

/-- Resolves the spawn primitive; gives the code of the script. -/
def install (h : ScriptedHost) : Int32 × ScriptedHost :=
  let (code,rest) := nextCode h.installErrors
  let h := { h with installErrors := rest }
  if code ≠ 0 then (code,h)
  else (0,{ h with library := h.library.map fun lib => { lib with installed := true } })

/-- Makes the cleanup key. Where a foreign destructor is wanted by then, a C library makes the foreign key right
behind it. -/
def createKey (h : ScriptedHost) : Except Int32 CleanupKey × ScriptedHost :=
  let (code,rest) := nextCode h.keyCreateCodes
  let h := { h with keyCreateCodes := rest }
  if code ≠ 0 then (.error code,h)
  else match h.library with
    | none => (.ok h.key,{ h with destructorKnown := true })
    | some lib =>
      let key := ⟨UInt32.ofNat lib.keys⟩
      let lib := { lib with keys := lib.keys + (if h.foreign.isSome then 2 else 1), foreignKey := h.foreign.isSome }
      (.ok key,{ h with key := key, destructorKnown := true, library := some lib })

/-- Sets a thread's value. The first code is the one of the script, the second the one that counts: a C
library refuses a key that was not made. -/
def setKey (h : ScriptedHost) (t : ThreadId) (key : CleanupKey) (value : UInt64) :
    (Int32 × Int32) × ScriptedHost :=
  let (code,rest) := nextCode h.keySetCodes
  let h := { h with keySetCodes := rest }
  let known := match h.library with
    | none => true
    | some lib => key.number.toNat < lib.keys
  if code ≠ 0 then ((code,code),h)
  else if known then ((0,0),h.setValue t value)
  else ((0,22),h)

/-- The code of the script for a new thread. -/
def spawnCode (h : ScriptedHost) : Int32 × ScriptedHost :=
  let (code,rest) := nextCode h.spawnCodes
  (code,{ h with spawnCodes := rest })

end ScriptedHost
end GuardedStack.Session
