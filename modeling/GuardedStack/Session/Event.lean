import GuardedStack.Request

/-! What scripted doubles write down, in the order in which it happens. -/
namespace GuardedStack.Session

/-- Codes are zero where a call succeeds. -/
inductive Event where
  | map (rt : RuntimeId) (len : UInt64) (rights : Rights) (result : Except Int32 UInt64)
  | protect (rt : RuntimeId) (addr len : UInt64) (rights : Rights) (errno : Int32)
  | unmap (rt : RuntimeId) (addr len : UInt64) (errno : Int32)
  /-- The phase is the one in which the runtime was found. -/
  | install (rt : RuntimeId) (error : Int32) (phase : Phase)
  /-- Initialization was tried from inside an installation; the phase is the one after it. -/
  | reenter (rt : RuntimeId) (result : Except Fault Region) (phase : Phase)
  | keyCreate (rt : RuntimeId) (code : Int32)
  | keySet (rt : RuntimeId) (key : Option CleanupKey) (value : UInt64) (code : Int32)
  | spawn (rt : RuntimeId) (withAttributes : Bool) (code : Int32)
  | pass (rt : RuntimeId) (value : UInt64)
  /-- A foreign destructor ran, while a region was still installed or not. -/
  | foreign (rt : RuntimeId) (regionInstalled : Bool)

/-- The next code of a queue; an empty queue holds no more failures. -/
def nextCode : List Int32 → Int32 × List Int32
  | [] => (0,[])
  | code :: rest => (code,rest)

end GuardedStack.Session
