/-! Memory as a total map from addresses to bytes, and words in it with the low byte first. -/
namespace GuardedStack

/-- `f` with another value at one place. -/
def replace [DecidableEq α] (f : α → β) (a : α) (b : β) : α → β := fun x => if x = a then b else f x

@[simp] theorem replace_same [DecidableEq α] (f : α → β) (a : α) (b : β) : replace f a b a = b := by
  simp [replace]

@[simp] theorem replace_other [DecidableEq α] (f : α → β) {a x : α} (b : β) (h : x ≠ a) :
    replace f a b x = f x := by
  simp [replace,h]

@[simp] theorem replace_self [DecidableEq α] (f : α → β) (a : α) : replace f a (f a) = f := by
  funext x
  by_cases same : x = a <;> simp [same]

/-- Counting a list from its second element on, where the first has been counted. -/
theorem replace_count [DecidableEq α] (counts : α → Nat) (a : α) (l : List α) :
    (fun x => replace counts a (counts a + 1) x + l.count x) = fun x => counts x + (a :: l).count x := by
  funext x
  by_cases same : x = a
  · subst same
    simp
    omega
  · simp [same,Ne.symm same]

@[simp] theorem replace_replace [DecidableEq α] (f : α → β) (a : α) (b b' : β) :
    replace (replace f a b) a b' = replace f a b' := by
  funext x
  by_cases same : x = a <;> simp [same]

abbrev Memory := UInt64 → UInt8

namespace Memory

/-- Fresh memory. -/
def zero : Memory := fun _ => 0

/-- The `count` bytes from `addr` on. -/
def load (m : Memory) (addr : UInt64) (count : Nat) : List UInt8 :=
  (List.range count).map fun i => m (addr + UInt64.ofNat i)

/-- `m` with `bytes` from `addr` on. -/
def store (m : Memory) (addr : UInt64) (bytes : List UInt8) : Memory :=
  let bytes := bytes.toArray
  fun a => (bytes[(a - addr).toNat]?).getD (m a)

@[simp] theorem length_load (m : Memory) (addr : UInt64) (count : Nat) :
    (m.load addr count).length = count := by
  simp [load]

/-- A store changes nothing outside its bytes. -/
theorem store_outside (m : Memory) {addr a : UInt64} {bytes : List UInt8}
    (outside : bytes.length ≤ (a - addr).toNat) : m.store addr bytes a = m a := by
  simp only [store,List.getElem?_toArray,List.getElem?_eq_none outside,Option.getD_none]

theorem store_inside (m : Memory) {addr : UInt64} {bytes : List UInt8} {i : Nat}
    (inside : i < bytes.length) (fits : i < UInt64.size) :
    m.store addr bytes (addr + UInt64.ofNat i) = bytes[i] := by
  have offset : (addr + UInt64.ofNat i - addr).toNat = i := by
    rw [UInt64.add_comm,UInt64.add_sub_cancel,UInt64.toNat_ofNat_of_lt' fits]
  simp only [store,List.getElem?_toArray,offset,List.getElem?_eq_getElem inside,Option.getD_some]

/-- What was stored is loaded. -/
theorem load_store (m : Memory) (addr : UInt64) {bytes : List UInt8} (fits : bytes.length ≤ UInt64.size) :
    (m.store addr bytes).load addr bytes.length = bytes := by
  apply List.ext_getElem (length_load _ _ _)
  intro i _ inside
  simp only [load,List.getElem_map,List.getElem_range]
  exact store_inside m inside (Nat.lt_of_lt_of_le inside fits)

end Memory

/-- The eight bytes of a word. -/
def encodeWord (word : UInt64) : List UInt8 :=
  (List.range 8).map fun i => (word >>> UInt64.ofNat (8 * i)).toUInt8

/-- The word of the first eight bytes; missing ones count as zero. -/
def decodeWord (bytes : List UInt8) : UInt64 :=
  UInt64.ofNat ((bytes.take 8).foldr (fun b rest => b.toNat + 256 * rest) 0)

@[simp] theorem length_encodeWord (word : UInt64) : (encodeWord word).length = 8 := by
  simp [encodeWord]

/-- Decoding undoes encoding, whatever follows. -/
theorem decodeWord_encodeWord_append (word : UInt64) (rest : List UInt8) :
    decodeWord (encodeWord word ++ rest) = word := by
  have whole := word.toNat_lt
  have first : (encodeWord word ++ rest).take 8 = encodeWord word :=
    List.take_left' (length_encodeWord word)
  apply UInt64.toNat_inj.mp
  rw [decodeWord,first]
  simp [encodeWord,List.range,List.range.loop,Nat.shiftRight_eq_div_pow]
  omega

/-- In a run of words each is found at its own offset. -/
theorem decodeWord_drop_flatMap {words : List UInt64} {i : Nat} (inside : i < words.length) :
    decodeWord ((words.flatMap encodeWord).drop (8 * i)) = words[i] := by
  induction words generalizing i with
  | nil => simp at inside
  | cons word rest ih =>
    rw [List.flatMap_cons]
    cases i with
    | zero => exact decodeWord_encodeWord_append word _
    | succ i =>
      have later : i < rest.length := by simpa using inside
      rw [Nat.mul_succ,Nat.add_comm,← List.drop_drop,List.drop_left' (length_encodeWord word),ih later]
      rfl

end GuardedStack
