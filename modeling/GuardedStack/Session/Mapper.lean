import GuardedStack.Session.Event

/-! A page mapper that follows a script. It hands out addresses upward from a start of its own and never twice,
keeps the list of live mappings, and fails when its queues say so. -/
namespace GuardedStack.Session

structure ScriptedMapper where
  /-- Only reported: addresses are always placed by pages of 4096 bytes. -/
  pageSize : UInt64
  /-- How far every address lies above the place kept for it. -/
  skew : UInt64
  mapErrors : List Int32
  protectErrors : List Int32
  unmapErrors : List Int32
  cursor : UInt64
  /-- The start and the length of each live mapping, oldest first. -/
  live : List (UInt64 × UInt64)

namespace ScriptedMapper

def fresh (rt : RuntimeId) : ScriptedMapper :=
  ⟨4096,0,[],[],[],0x100000000000 + rt.word * 0x10000000000,[]⟩

def isLive (m : ScriptedMapper) (addr len : UInt64) : Bool := m.live.contains (addr,len)

/-- The longest mapping that finds room. -/
def longest : UInt64 := 0x40000000

def roundDown (addr : UInt64) : UInt64 := addr / 4096 * 4096

def roundUp (addr : UInt64) : UInt64 := (addr + 4095) / 4096 * 4096

/-- Places a mapping at the cursor and leaves a page free behind it. -/
def place (m : ScriptedMapper) (len : UInt64) : UInt64 × ScriptedMapper :=
  let addr := m.cursor + m.skew
  let stop := max (roundUp (addr + len)) (roundDown addr + 4096)
  (addr,{ m with cursor := stop + 4096, live := m.live ++ [(addr,len)] })

def map (m : ScriptedMapper) (len : UInt64) : Except Int32 UInt64 × ScriptedMapper :=
  let (code,rest) := nextCode m.mapErrors
  let m := { m with mapErrors := rest }
  if code ≠ 0 then (.error code,m)
  else if longest < len then (.error 12,m)
  else
    let (addr,m) := m.place len
    (.ok addr,m)

def protect (m : ScriptedMapper) : Int32 × ScriptedMapper :=
  let (code,rest) := nextCode m.protectErrors
  (code,{ m with protectErrors := rest })

/-- Only a whole live mapping can be unmapped. -/
def unmap (m : ScriptedMapper) (addr len : UInt64) : Int32 × ScriptedMapper :=
  let (code,rest) := nextCode m.unmapErrors
  let m := { m with unmapErrors := rest }
  if code ≠ 0 then (code,m)
  else if m.isLive addr len then (0,{ m with live := m.live.erase (addr,len) })
  else (22,m)

/-- The reply to a call, what is written down, and the mapper after it. -/
def answer (m : ScriptedMapper) (rt : RuntimeId) :
    (call : MapperCall) → call.Reply × List Event × ScriptedMapper
  | .pageSize => (m.pageSize,[],m)
  | .map len rights =>
    let (result,m) := m.map len
    let reply := match result with
      | .ok addr => .ok addr
      | .error errno => .error (.mapFailed len errno)
    (reply,[.map rt len rights result],m)
  | .protect addr len rights =>
    let (code,m) := m.protect
    let reply := if code = 0 then .ok () else .error (.protectFailed addr len code)
    (reply,[.protect rt addr len rights code],m)
  | .unmap addr len =>
    let (code,m) := m.unmap addr len
    let reply := if code = 0 then .ok () else .error (.unmapFailed addr len code)
    (reply,[.unmap rt addr len code],m)

end ScriptedMapper
end GuardedStack.Session
