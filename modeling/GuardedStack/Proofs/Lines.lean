import GuardedStack.Diagnostics.Line
import GuardedStack.Word

/-! The arithmetic of the line buffer, with every sum and difference checked. None of it ever fails, so that a line is
made of every message. -/
namespace GuardedStack.Diagnostics

/-- The offset is at an end or between two characters. -/
def boundary : List Char → Nat → Bool
  | _, 0 => true
  | [], _ + 1 => false
  | c :: rest, n + 1 => c.utf8Size ≤ n + 1 && boundary rest (n + 1 - c.utf8Size)

/-- Goes down to a boundary one byte at a time. A step below zero does not fit. -/
def cutBack (s : List Char) : Nat → Checked Nat
  | 0 => if boundary s 0 then .ok 0 else .error .subtract
  | n + 1 => if boundary s (n + 1) then .ok (n + 1) else cutBack s n

namespace LineBuffer

/-- The room is the capacity less what is there; what does not fit is cut at a boundary. -/
def writeChecked (b : LineBuffer) (s : List Char) : Checked (LineBuffer × Bool) := do
  let room ← Checked.subtract (.ofNat capacity) (.ofNat (byteLength b.chars))
  if byteLength s ≤ room.toNat then return (⟨b.chars ++ s,b.truncated⟩,true)
  else return (⟨b.chars ++ clip (← cutBack s room.toNat) s,true⟩,false)

def writeAllChecked (b : LineBuffer) : Message → Checked (LineBuffer × Bool)
  | [] => return (b,true)
  | .text s :: rest => do
    match ← b.writeChecked s.toList with
    | (b,true) => b.writeAllChecked rest
    | (b,false) => return (b,false)
  | .regardless s :: rest => do (← b.writeChecked s.toList).1.writeAllChecked rest
  | .failure :: _ => return (b,false)

end LineBuffer

/-- The line of a message, made with checked arithmetic. -/
def renderChecked (m : Message) : Checked String := do
  let (b,ok) ← LineBuffer.empty.writeAllChecked m
  if ok && !b.truncated then return .ofList b.chars
  else
    let kept ← Checked.subtract (.ofNat capacity) (.ofNat marker.utf8ByteSize)
    return .ofList (clip kept.toNat b.chars) ++ marker

theorem byteLength_append (s s' : List Char) : byteLength (s ++ s') = byteLength s + byteLength s' := by
  induction s with
  | nil => simp [byteLength]
  | cons c rest ih =>
    simp only [List.cons_append,byteLength,ih]
    omega

theorem byteLength_clip_le (room : Nat) (s : List Char) : byteLength (clip room s) ≤ room := by
  induction s generalizing room with
  | nil => simp [clip,byteLength]
  | cons c rest ih =>
    unfold clip
    split
    · have tail := ih (room - c.utf8Size)
      simp only [byteLength]
      omega
    · simp [byteLength]

/-- A boundary is where whole characters fill all the room. -/
theorem boundary_iff (s : List Char) (n : Nat) : boundary s n = true ↔ byteLength (clip n s) = n := by
  induction s generalizing n with
  | nil => cases n <;> simp [boundary,clip,byteLength]
  | cons c rest ih =>
    cases n with
    | zero => simp [boundary,clip,byteLength,Nat.ne_of_gt c.utf8Size_pos]
    | succ n =>
      by_cases fits : c.utf8Size ≤ n + 1
      · have tail := ih (n + 1 - c.utf8Size)
        simp only [boundary,clip,fits,decide_true,Bool.true_and,if_true,byteLength,tail]
        omega
      · simp [boundary,clip,fits,byteLength]

/-- Room that holds no more whole characters makes no difference. -/
theorem clip_between {low high : Nat} {s : List Char} (above : byteLength (clip high s) ≤ low) (below : low ≤ high) :
    clip low s = clip high s := by
  induction s generalizing low high with
  | nil => rfl
  | cons c rest ih =>
    by_cases fits : c.utf8Size ≤ high
    · simp only [clip,if_pos fits,byteLength] at above ⊢
      have same : clip (low - c.utf8Size) rest = clip (high - c.utf8Size) rest := ih (by omega) (by omega)
      rw [if_pos (by omega),same]
    · simp only [clip,if_neg fits]
      rw [if_neg (by omega)]

/-- The cut is where the longest run of whole characters ends. -/
theorem cutBack_eq (s : List Char) (room : Nat) : cutBack s room = .ok (byteLength (clip room s)) := by
  induction room with
  | zero =>
    have bound := byteLength_clip_le 0 s
    rw [cutBack,if_pos ((boundary_iff s 0).mpr (by omega)),Nat.le_zero.mp bound]
  | succ n ih =>
    have bound := byteLength_clip_le (n + 1) s
    rw [cutBack]
    split
    next here => rw [(boundary_iff s (n + 1)).mp here]
    next inside =>
      rw [boundary_iff] at inside
      have same : clip n s = clip (n + 1) s := clip_between (by omega) (by omega)
      rw [ih,same]

theorem word_toNat {n : Nat} (fits : n ≤ capacity) : (UInt64.ofNat n).toNat = n :=
  UInt64.toNat_ofNat_of_lt' (by simp only [capacity] at fits; simp only [UInt64.size]; omega)

theorem subtract_capacity {n : Nat} (fits : n ≤ capacity) :
    Checked.subtract (.ofNat capacity) (.ofNat n) = .ok (.ofNat capacity - .ofNat n) ∧
      (UInt64.ofNat capacity - .ofNat n).toNat = capacity - n := by
  have below : UInt64.ofNat n ≤ .ofNat capacity := by
    rw [UInt64.le_iff_toNat_le,word_toNat fits,word_toNat (Nat.le_refl _)]
    exact fits
  refine ⟨Checked.subtract_eq_ok_iff.mpr ⟨below,rfl⟩,?_⟩
  rw [UInt64.toNat_sub_of_le _ _ below,word_toNat fits,word_toNat (Nat.le_refl _)]

namespace LineBuffer

variable {b : LineBuffer}

/-- A buffer never holds more than its capacity. -/
theorem write_fits (fits : byteLength b.chars ≤ capacity) (s : List Char) :
    byteLength (b.write s).1.chars ≤ capacity := by
  unfold write
  dsimp only
  split
  · rw [byteLength_append]
    omega
  · have cut := byteLength_clip_le (capacity - byteLength b.chars) s
    rw [byteLength_append]
    omega

theorem write_checked (fits : byteLength b.chars ≤ capacity) (s : List Char) : b.writeChecked s = .ok (b.write s) := by
  obtain ⟨room,exact_⟩ := subtract_capacity fits
  unfold writeChecked write
  rw [room]
  simp only [bind,Except.bind,exact_,cutBack_eq]
  rw [clip_between (Nat.le_refl _) (byteLength_clip_le _ _)]
  split <;> rfl

theorem writeAll_checked (fits : byteLength b.chars ≤ capacity) (m : Message) :
    b.writeAllChecked m = .ok (b.writeAll m) := by
  induction m generalizing b with
  | nil => rfl
  | cons piece rest ih =>
    cases piece with
    | failure => rfl
    | text s =>
      have later := ih (write_fits fits s.toList)
      simp only [writeAllChecked,writeAll,write_checked fits,bind,Except.bind]
      generalize b.write s.toList = written at later ⊢
      obtain ⟨b,ok⟩ := written
      cases ok with
      | true => exact later
      | false => rfl
    | regardless s =>
      have later := ih (write_fits fits s.toList)
      simpa only [writeAllChecked,writeAll,write_checked fits,bind,Except.bind] using later

end LineBuffer

/-- Nothing overflows while a line is made. -/
theorem render_checked (m : Message) : renderChecked m = .ok (render m) := by
  have made := LineBuffer.writeAll_checked (b := .empty) (Nat.zero_le _) m
  obtain ⟨kept,exact_⟩ := subtract_capacity (n := marker.utf8ByteSize) (by decide)
  unfold renderChecked render
  rw [made,kept]
  simp only [bind,Except.bind,exact_]
  split <;> rfl

end GuardedStack.Diagnostics
