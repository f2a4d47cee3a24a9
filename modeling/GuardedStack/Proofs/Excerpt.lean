import GuardedStack.Proofs.Lines

/-! What a line shows of its message. A text that fits is shown as it is, and of any other the line shows the longest
beginning of whole characters that leaves room for the marker. A write that does not fit leaves at most three bytes free,
and what later writes put there goes again when the marker is appended. -/
namespace GuardedStack.Diagnostics

/-- All that a message tries to write to the buffer, whether or not it fits. -/
def LineBuffer.attempts (b : LineBuffer) : Message → List String
  | [] => []
  | .text s :: rest => s :: if (b.write s.toList).2 then (b.write s.toList).1.attempts rest else []
  | .regardless s :: rest => s :: (b.write s.toList).1.attempts rest
  | .failure :: _ => []

/-- The text of a message, up to the write or the failure with which it ends. -/
def Message.attempted (m : Message) : String := .ofList ((LineBuffer.empty.attempts m).flatMap String.toList)

/-- The message ends with a failure, its own or that of a write. -/
def Message.fails (m : Message) : Bool := !(LineBuffer.empty.writeAll m).2

/-- The characters of a piece. -/
def Piece.chars : Piece → List Char
  | .text s | .regardless s => s.toList
  | .failure => []

/-- All characters of a message, whether or not there is room for them. -/
def Message.chars (m : Message) : List Char := m.flatMap Piece.chars

/-- `p` is the longest beginning of the text that ends between two characters and has at most `room` bytes. -/
structure Longest (room : Nat) (text p : String) : Prop where
  begins : ∃ rest, text = p ++ rest
  fits : p.utf8ByteSize ≤ room
  longest : ∀ place : String.Pos.Raw, place.IsValid text → place.byteIdx ≤ room → place.byteIdx ≤ p.utf8ByteSize

/-- The line of a message with this text, which fails or does not. -/
structure Shown (text : String) (fails : Bool) (line : String) : Prop where
  whole : text.utf8ByteSize ≤ capacity → fails = false → line = text
  cut : capacity < text.utf8ByteSize ∨ fails = true →
    ∃ p, Longest (capacity - marker.utf8ByteSize) text p ∧ line = p ++ marker
  small : line.utf8ByteSize ≤ capacity
  utf8 : line.toByteArray.IsValidUTF8
  begins : ∃ p rest, text = p ++ rest ∧ (line = p ∨ line = p ++ marker)

section
variable {low high room : Nat} {s s' : List Char}

theorem utf8ByteSize_ofList (s : List Char) : (String.ofList s).utf8ByteSize = byteLength s := by
  induction s with
  | nil => rfl
  | cons c rest ih =>
    have single : (String.ofList [c]).utf8ByteSize = c.utf8Size := by
      simp [String.utf8ByteSize,List.utf8Encode]
    rw [← List.singleton_append,String.ofList_append,String.utf8ByteSize_append,ih,single,byteLength_append]
    simp [byteLength]

theorem byteLength_toList (s : String) : byteLength s.toList = s.utf8ByteSize := by
  rw [← utf8ByteSize_ofList,String.ofList_toList]

theorem clip_append (fits : byteLength s ≤ room) : clip room (s ++ s') = s ++ clip (room - byteLength s) s' := by
  induction s generalizing room with
  | nil => simp [byteLength]
  | cons c rest ih =>
    simp only [byteLength] at fits
    rw [List.cons_append,clip,if_pos (by omega),ih (by omega),byteLength,Nat.sub_sub,List.cons_append]

/-- What is behind more than there is room for does not count. -/
theorem clip_append_of_lt (beyond : room < byteLength s) : clip room (s ++ s') = clip room s := by
  induction s generalizing room with
  | nil => simp [byteLength] at beyond
  | cons c rest ih =>
    simp only [byteLength] at beyond
    simp only [List.cons_append,clip]
    split
    · rw [ih (by omega)]
    · rfl

theorem clip_clip (order : low ≤ high) : clip low (clip high s) = clip low s := by
  induction s generalizing low high with
  | nil => rfl
  | cons c rest ih =>
    by_cases fits : c.utf8Size ≤ high
    · rw [clip,if_pos fits]
      by_cases small : c.utf8Size ≤ low
      · simp only [clip,if_pos small]
        rw [ih (by omega)]
      · simp only [clip,if_neg small]
    · simp only [clip,if_neg fits]
      rw [if_neg (by omega)]

theorem clip_begins (room : Nat) (s : List Char) : ∃ rest, s = clip room s ++ rest := by
  induction s generalizing room with
  | nil => exact ⟨[],rfl⟩
  | cons c rest ih =>
    rw [clip]
    split
    · obtain ⟨tail,same⟩ := ih (room - c.utf8Size)
      exact ⟨tail,by rw [List.cons_append,← same]⟩
    · exact ⟨c :: rest,rfl⟩

/-- The first character that is missing has at most four bytes. -/
theorem lt_byteLength_clip (beyond : room < byteLength s) : room < byteLength (clip room s) + 4 := by
  induction s generalizing room with
  | nil => simp [byteLength] at beyond
  | cons c rest ih =>
    have wide := c.utf8Size_le_four
    simp only [byteLength] at beyond
    rw [clip]
    split
    · have tail : room - c.utf8Size < byteLength (clip (room - c.utf8Size) rest) + 4 := ih (by omega)
      simp only [byteLength]
      omega
    · omega

theorem longest_clip (room : Nat) (s : List Char) : Longest room (.ofList s) (.ofList (clip room s)) where
  begins := by
    obtain ⟨rest,same⟩ := clip_begins room s
    exact ⟨.ofList rest,by rw [← String.ofList_append,← same]⟩
  fits := by
    rw [utf8ByteSize_ofList]
    exact byteLength_clip_le room s
  longest := by
    intro place valid within
    obtain ⟨front,back,split_,rfl⟩ := String.Pos.Raw.isValid_iff_exists_append.mp valid
    have size := byteLength_toList front
    obtain rfl : s = front.toList ++ back.toList := by
      rw [← String.toList_append,← split_,String.toList_ofList]
    simp only [String.byteIdx_rawEndPos] at within ⊢
    rw [utf8ByteSize_ofList,clip_append (by omega),byteLength_append]
    omega

end

namespace LineBuffer

variable {b : LineBuffer} {text : List Char}

/-- What the buffer keeps of the text: all of it, or so much that what is shown of it is settled. -/
inductive Keeps (b : LineBuffer) (text : List Char) : Prop
  | whole : b.truncated = false → b.chars = text → byteLength text ≤ capacity → Keeps b text
  | cut : b.truncated = true → capacity < byteLength text → capacity - marker.utf8ByteSize < byteLength b.chars →
      clip (capacity - marker.utf8ByteSize) b.chars = clip (capacity - marker.utf8ByteSize) text → Keeps b text

theorem empty_keeps : empty.Keeps [] := .whole rfl rfl (Nat.zero_le _)

theorem Keeps.write (keeps : b.Keeps text) (s : List Char) : (b.write s).1.Keeps (text ++ s) := by
  have marked : capacity = 256 ∧ marker.utf8ByteSize = 4 := ⟨rfl,rfl⟩
  unfold LineBuffer.write
  dsimp only
  cases keeps with
  | whole calm same fits =>
    subst same
    by_cases small : byteLength s ≤ capacity - byteLength b.chars
    · rw [if_pos small]
      exact .whole calm rfl (by rw [byteLength_append]; omega)
    · rw [if_neg small]
      have beyond : capacity < byteLength (b.chars ++ s) := by rw [byteLength_append]; omega
      have filled : b.chars ++ clip (capacity - byteLength b.chars) s = clip capacity (b.chars ++ s) := (clip_append fits).symm
      have free := lt_byteLength_clip beyond
      rw [filled]
      exact .cut rfl beyond (by dsimp only; omega) (clip_clip (Nat.sub_le _ _))
  | cut cut beyond full same =>
    have beyond' : capacity < byteLength (text ++ s) := by rw [byteLength_append]; omega
    have full' (more : List Char) : capacity - marker.utf8ByteSize < byteLength (b.chars ++ more) := by
      rw [byteLength_append]
      omega
    have same' (more : List Char) : clip (capacity - marker.utf8ByteSize) (b.chars ++ more) =
        clip (capacity - marker.utf8ByteSize) (text ++ s) := by
      rw [clip_append_of_lt full,clip_append_of_lt (by omega),same]
    split
    · exact .cut cut beyond' (full' _) (same' _)
    · exact .cut rfl beyond' (full' _) (same' _)

theorem Keeps.writeAll (keeps : b.Keeps text) (m : Message) :
    (b.writeAll m).1.Keeps (text ++ (b.attempts m).flatMap String.toList) := by
  induction m generalizing b text with
  | nil => simpa [LineBuffer.writeAll,attempts] using keeps
  | cons piece rest ih =>
    cases piece with
    | failure => simpa [LineBuffer.writeAll,attempts] using keeps
    | text s =>
      have next := keeps.write s.toList
      simp only [LineBuffer.writeAll,attempts]
      generalize b.write s.toList = written at next ⊢
      obtain ⟨b',ok⟩ := written
      cases ok with
      | true => simpa using ih next
      | false => simpa using next
    | regardless s =>
      have next := keeps.write s.toList
      simpa [LineBuffer.writeAll,attempts] using ih next

variable {m : Message}

/-- A message for which there is room is written whole, unless it fails on its own. -/
theorem writeAll_fits (calm : .failure ∉ m) (fits : byteLength b.chars + byteLength m.chars ≤ capacity) :
    b.writeAll m = (⟨b.chars ++ m.chars,b.truncated⟩,true) ∧ (b.attempts m).flatMap String.toList = m.chars := by
  induction m generalizing b with
  | nil => simp [writeAll,attempts,Message.chars]
  | cons piece rest ih =>
    have calm' : .failure ∉ rest := fun later => calm (.tail _ later)
    have step {s : String} (here : Message.chars (piece :: rest) = s.toList ++ Message.chars rest) :
        b.write s.toList = (⟨b.chars ++ s.toList,b.truncated⟩,true) ∧
          byteLength (b.chars ++ s.toList) + byteLength (Message.chars rest) ≤ capacity := by
      rw [here,byteLength_append] at fits
      exact ⟨if_pos (by omega),by rw [byteLength_append]; omega⟩
    cases piece with
    | failure => exact absurd List.mem_cons_self calm
    | text s =>
      obtain ⟨written,room⟩ := step (s := s) rfl
      obtain ⟨whole,all⟩ := ih (b := ⟨b.chars ++ s.toList,b.truncated⟩) calm' room
      simp [writeAll,attempts,written,whole,all,Message.chars,Piece.chars]
    | regardless s =>
      obtain ⟨written,room⟩ := step (s := s) rfl
      obtain ⟨whole,all⟩ := ih (b := ⟨b.chars ++ s.toList,b.truncated⟩) calm' room
      simp [writeAll,attempts,written,whole,all,Message.chars,Piece.chars]

/-- The buffer of a line has room for every message that fits. -/
theorem writeAll_empty (calm : .failure ∉ m) (fits : byteLength m.chars ≤ capacity) :
    empty.writeAll m = (⟨m.chars,false⟩,true) ∧ (empty.attempts m).flatMap String.toList = m.chars :=
  writeAll_fits calm (by simpa [empty,byteLength] using fits)

/-- A failure of the message's own is met, or a write has failed before it. -/
theorem not_mem_of_writeAll (whole : (b.writeAll m).2 = true) : .failure ∉ m := by
  induction m generalizing b with
  | nil => simp
  | cons piece rest ih =>
    cases piece with
    | failure => cases whole
    | text s =>
      simp only [writeAll] at whole
      generalize b.write s.toList = written at whole
      obtain ⟨b',ok⟩ := written
      cases ok with
      | true => simpa using ih whole
      | false => cases whole
    | regardless s => simpa using ih (b := (b.write s.toList).1) whole

end LineBuffer

/-- Of the messages that fit only those fail that hold a failure of their own. -/
theorem fails_iff {m : Message} (fits : byteLength m.chars ≤ capacity) : m.fails = true ↔ .failure ∈ m := by
  have whole : (LineBuffer.empty.writeAll m).2 = true ↔ .failure ∉ m :=
    ⟨LineBuffer.not_mem_of_writeAll,fun calm => by rw [(LineBuffer.writeAll_empty calm fits).1]⟩
  rw [Message.fails,Bool.not_eq_true',← Bool.not_eq_true,whole,Classical.not_not]

/-- A message that fits and holds no failure tries to write everything. -/
theorem attempted_eq {m : Message} (calm : .failure ∉ m) (fits : byteLength m.chars ≤ capacity) :
    m.attempted = .ofList m.chars := by
  rw [Message.attempted,(LineBuffer.writeAll_empty calm fits).2]

/-- A message that ignores writes that fail tries to write everything. -/
theorem attempted_regardless (strings : List String) :
    Message.attempted (strings.map .regardless) = .ofList (strings.flatMap String.toList) := by
  have all (b : LineBuffer) : b.attempts (strings.map .regardless) = strings := by
    induction strings generalizing b with
    | nil => rfl
    | cons s rest ih => rw [List.map_cons,LineBuffer.attempts,ih]
  rw [Message.attempted,all]

/-- One that stops there tries to write everything, or the strings up to the first with which the text is too long. -/
theorem attempts_text {b : LineBuffer} (strings : List String) : ∃ later, strings = b.attempts (strings.map .text) ++ later ∧
    (later = [] ∨ capacity < byteLength b.chars + byteLength ((b.attempts (strings.map .text)).flatMap String.toList)) := by
  induction strings generalizing b with
  | nil => exact ⟨[],rfl,.inl rfl⟩
  | cons s rest ih =>
    by_cases fits : byteLength s.toList ≤ capacity - byteLength b.chars
    · have written : b.write s.toList = (⟨b.chars ++ s.toList,b.truncated⟩,true) := if_pos fits
      obtain ⟨later,same,beyond⟩ := ih (b := ⟨b.chars ++ s.toList,b.truncated⟩)
      simp only [List.map_cons,LineBuffer.attempts,written,if_true]
      refine ⟨later,by rw [List.cons_append,← same],beyond.imp_right fun beyond => ?_⟩
      simp only [byteLength_append,List.flatMap_cons] at beyond ⊢
      omega
    · have refused : (b.write s.toList).2 = false := by rw [LineBuffer.write,if_neg fits]
      simp only [List.map_cons,LineBuffer.attempts,refused,Bool.false_eq_true,if_false]
      refine ⟨rest,rfl,.inr ?_⟩
      simp only [List.flatMap_cons,List.flatMap_nil,List.append_nil]
      omega

theorem shown_whole {text : String} (fits : text.utf8ByteSize ≤ capacity) : Shown text false text where
  whole _ _ := rfl
  cut beyond := by
    rcases beyond with large | fails
    · exact absurd fits (Nat.not_le.mpr large)
    · cases fails
  small := fits
  utf8 := text.isValidUTF8
  begins := ⟨text,"",by simp⟩

theorem shown_cut {text p : String} {fails : Bool} (longest : Longest (capacity - marker.utf8ByteSize) text p)
    (beyond : capacity < text.utf8ByteSize ∨ fails = true) : Shown text fails (p ++ marker) where
  whole fits calm := by
    rcases beyond with large | fails
    · exact absurd fits (Nat.not_le.mpr large)
    · simp [fails] at calm
  cut _ := ⟨p,longest,rfl⟩
  small := by
    have fits := longest.fits
    have short : marker.utf8ByteSize ≤ capacity := by decide
    rw [String.utf8ByteSize_append]
    omega
  utf8 := String.isValidUTF8 _
  begins := by
    obtain ⟨rest,same⟩ := longest.begins
    exact ⟨p,rest,same,.inr rfl⟩

/-- A line shows its message as it is where that fits and does not fail, and otherwise as much of the beginning as fits
before the marker, however the message deals with writes that fail. -/
theorem render_shown (m : Message) : Shown m.attempted m.fails (render m) := by
  have keeps := LineBuffer.empty_keeps.writeAll m
  have longest := longest_clip (capacity - marker.utf8ByteSize) ((LineBuffer.empty.attempts m).flatMap String.toList)
  have size := utf8ByteSize_ofList ((LineBuffer.empty.attempts m).flatMap String.toList)
  rw [List.nil_append] at keeps
  unfold Message.fails Message.attempted render
  generalize (LineBuffer.empty.attempts m).flatMap String.toList = text at keeps longest size ⊢
  generalize LineBuffer.empty.writeAll m = written at keeps ⊢
  obtain ⟨b,ok⟩ := written
  cases keeps with
  | whole calm same fits =>
    obtain rfl : b.chars = text := same
    have calm : b.truncated = false := calm
    simp only [calm,Bool.not_false,Bool.and_true]
    cases ok with
    | true => exact shown_whole (size ▸ fits)
    | false => exact shown_cut longest (.inr rfl)
  | cut cut beyond full same =>
    have cut : b.truncated = true := cut
    simp only [cut,Bool.not_true,Bool.and_false,Bool.false_eq_true,if_false]
    rw [same]
    exact shown_cut longest (.inl (size ▸ beyond))

end GuardedStack.Diagnostics
