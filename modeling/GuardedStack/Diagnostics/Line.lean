/-! Lines of bounded length. A message is the sequence of writes of one formatted value. `render` collects
the writes in a buffer of `capacity` bytes: a write that does not fit leaves the longest run of whole
characters that fits, and the line then ends with a marker instead of its tail. -/
namespace GuardedStack.Diagnostics

/-- Bytes of the longest line. -/
def capacity : Nat := 256

/-- The end of a line that did not fit. -/
def marker : String := "...\n"

/-- One write of a formatted value, or the failure that it reports on its own. -/
inductive Piece where
  /-- A failing write ends the message with a failure. -/
  | text (s : String)
  /-- A failing write is ignored and the message goes on. -/
  | regardless (s : String)
  | failure
  deriving DecidableEq, Repr

abbrev Message := List Piece

/-- The UTF-8 length. -/
def byteLength : List Char → Nat
  | [] => 0
  | c :: rest => c.utf8Size + byteLength rest

/-- The longest initial run of whole characters with at most `room` bytes. -/
def clip (room : Nat) : List Char → List Char
  | [] => []
  | c :: rest => if c.utf8Size ≤ room then c :: clip (room - c.utf8Size) rest else []

structure LineBuffer where
  chars : List Char
  truncated : Bool
  deriving DecidableEq, Repr

namespace LineBuffer

def empty : LineBuffer := ⟨[],false⟩

/-- Appends what fits; the flag of the result tells that everything did. -/
def write (b : LineBuffer) (s : List Char) : LineBuffer × Bool :=
  let room := capacity - byteLength b.chars
  if byteLength s ≤ room then (⟨b.chars ++ s,b.truncated⟩,true)
  else (⟨b.chars ++ clip room s,true⟩,false)

/-- Writes a message up to its first failure; the flag tells that there was none. -/
def writeAll (b : LineBuffer) : Message → LineBuffer × Bool
  | [] => (b,true)
  | .text s :: rest =>
    match b.write s.toList with
    | (b,true) => b.writeAll rest
    | (b,false) => (b,false)
  | .regardless s :: rest => (b.write s.toList).1.writeAll rest
  | .failure :: _ => (b,false)

end LineBuffer

/-- The line of a message. -/
def render (m : Message) : String :=
  let (b,ok) := LineBuffer.empty.writeAll m
  if ok && !b.truncated then String.ofList b.chars
  else String.ofList (clip (capacity - marker.utf8ByteSize) b.chars) ++ marker

/-- The library's own messages carry its tag and end the line. -/
def tagged (m : Message) : Message := .text "[twin_stacks] " :: m ++ [.text "\n"]

end GuardedStack.Diagnostics
