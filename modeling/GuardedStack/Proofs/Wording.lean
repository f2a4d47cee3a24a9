import GuardedStack.Fault
import GuardedStack.Proofs.Excerpt
import Mathlib

/-! How faults read. A message is a row of words, and every number in it is a word of its own or part of one, so that the
message tells the fault and each of its values. -/
namespace GuardedStack

section
variable {b m n : Nat} {c : Char} {v w : UInt64} {i j : Int}

theorem digitChar_inj (first : m < 16) (second : n < 16) (same : m.digitChar = n.digitChar) : m = n := by
  have all : ∀ x y : Fin 16, x.val.digitChar = y.val.digitChar → x = y := by decide
  exact congrArg Fin.val (all ⟨m,first⟩ ⟨n,second⟩ same)

/-- Every character of a numeral is a digit of its base. -/
theorem digit_of_mem (base : 1 < b) (member : c ∈ Nat.toDigits b n) : ∃ digit < b, c = digit.digitChar := by
  induction n using Nat.strongRecOn with
  | ind n ih =>
    rw [Nat.toDigits_eq_if base] at member
    split at member
    next small => exact ⟨n,small,List.mem_singleton.mp member⟩
    next large =>
      rcases List.mem_append.mp member with leading | last
      · exact ih (n / b) (Nat.div_lt_self (by omega) base) leading
      · exact ⟨n % b,Nat.mod_lt _ (by omega),List.mem_singleton.mp last⟩

theorem toDigits_inj (base : 1 < b) (small : b ≤ 16) (same : Nat.toDigits b m = Nat.toDigits b n) : m = n := by
  induction m using Nat.strongRecOn generalizing n with
  | ind m ih =>
    rw [Nat.toDigits_eq_if base,Nat.toDigits_eq_if (n := n) base] at same
    by_cases one : m < b <;> by_cases other : n < b <;> simp only [one,other,if_true,if_false] at same
    · exact digitChar_inj (by omega) (by omega) (List.singleton_inj.mp same)
    · have lengths := congrArg List.length same
      simp at lengths
    · have lengths := congrArg List.length same
      simp at lengths
    · obtain ⟨leading,last⟩ := List.append_inj' same rfl
      have quotient := ih (m / b) (Nat.div_lt_self (by omega) base) leading
      have rest := digitChar_inj (Nat.lt_of_lt_of_le (Nat.mod_lt m (by omega)) small)
        (Nat.lt_of_lt_of_le (Nat.mod_lt n (by omega)) small) (List.singleton_inj.mp last)
      rw [← Nat.div_add_mod m b,← Nat.div_add_mod n b,quotient,rest]

/-- A numeral has only digits of base sixteen. -/
theorem not_mem_toDigits (base : 1 < b) (small : b ≤ 16) (other : ∀ digit < 16, c ≠ digit.digitChar) :
    c ∉ Nat.toDigits b n := by
  intro member
  obtain ⟨digit,below,same⟩ := digit_of_mem base member
  exact other digit (by omega) same

theorem byteLength_toDigits (base : 1 < b) (small : b ≤ 16) :
    Diagnostics.byteLength (Nat.toDigits b n) = (Nat.toDigits b n).length := by
  have ascii : ∀ digit < 16, digit.digitChar.utf8Size = 1 := by decide
  have narrow : ∀ s : List Char, (∀ c ∈ s, c ∈ Nat.toDigits b n) → Diagnostics.byteLength s = s.length := by
    intro s inside
    induction s with
    | nil => rfl
    | cons c rest ih =>
      obtain ⟨digit,below,rfl⟩ := digit_of_mem base (inside c List.mem_cons_self)
      have tail := ih fun c member => inside c (List.mem_cons_of_mem _ member)
      rw [Diagnostics.byteLength,ascii digit (by omega),tail,List.length_cons,Nat.add_comm]
  exact narrow _ fun _ => id

theorem toList_hex : (hex w).toList = '0' :: 'x' :: Nat.toDigits 16 w.toNat := by
  simp [hex]

@[simp] theorem hex_inj : hex v = hex w ↔ v = w := by
  constructor
  · intro same
    have lists := congrArg String.toList same
    rw [toList_hex,toList_hex] at lists
    have digits := (List.cons.inj (List.cons.inj lists).2).2
    exact UInt64.toNat_inj.mp (toDigits_inj (by decide) (by decide) digits)
  · rintro rfl
    rfl

theorem not_mem_hex (other : ∀ digit < 16, c ≠ digit.digitChar) (cross : c ≠ 'x') : c ∉ (hex w).toList := by
  have zero : c ≠ '0' := other 0 (by decide)
  have digits : c ∉ Nat.toDigits 16 w.toNat := not_mem_toDigits (by decide) (by decide) other
  rw [toList_hex]
  simp [zero,cross,digits]

theorem hex_size (w : UInt64) : (hex w).utf8ByteSize ≤ 18 := by
  have digits : (Nat.toDigits 16 w.toNat).length ≤ 16 :=
    (Nat.length_toDigits_le_iff (by decide) (by decide)).mpr w.toNat_lt
  have size : (hex w).utf8ByteSize = "0x".utf8ByteSize + Diagnostics.byteLength (Nat.toDigits 16 w.toNat) := by
    rw [hex,String.utf8ByteSize_append,← Diagnostics.utf8ByteSize_ofList (Nat.toDigits 16 w.toNat)]
  have marker : "0x".utf8ByteSize = 2 := rfl
  rw [size,byteLength_toDigits (by decide) (by decide)]
  omega

theorem repr_size {size : Nat} (positive : 0 < size) (below : n < 10 ^ size) : n.repr.utf8ByteSize ≤ size := by
  have digits : (Nat.toDigits 10 n).length ≤ size := (Nat.length_toDigits_le_iff (by decide) positive).mpr below
  rw [Nat.repr_eq_ofList_toDigits,Diagnostics.utf8ByteSize_ofList,byteLength_toDigits (by decide) (by decide)]
  exact digits

theorem toList_integer : i.repr.toList =
    if 0 ≤ i then Nat.toDigits 10 i.toNat else '-' :: Nat.toDigits 10 (-i).toNat := by
  rw [Int.repr_eq_if]
  split
  · simp
  · simp

theorem not_mem_integer (other : ∀ digit < 16, c ≠ digit.digitChar) (unsigned : c ≠ '-') : c ∉ i.repr.toList := by
  rw [toList_integer]
  split
  · exact not_mem_toDigits (by decide) (by decide) other
  · have digits : c ∉ Nat.toDigits 10 (-i).toNat := not_mem_toDigits (by decide) (by decide) other
    simp [unsigned,digits]

theorem code_size (code : Int32) : code.toInt.repr.utf8ByteSize ≤ 11 := by
  have high := code.toInt_lt
  have low := code.le_toInt
  rw [Int.repr_eq_if]
  split
  · have digits : code.toInt.toNat.repr.utf8ByteSize ≤ 10 := repr_size (by decide) (by omega)
    omega
  · have digits : (-code.toInt).toNat.repr.utf8ByteSize ≤ 10 := repr_size (by decide) (by omega)
    have sign : "-".utf8ByteSize = 1 := rfl
    rw [String.utf8ByteSize_append]
    omega

/-- A range is told by its start and its length. -/
@[simp] theorem range_inj {v' w' : UInt64} : hex v ++ "+" ++ hex w = hex v' ++ "+" ++ hex w' ↔ v = v' ∧ w = w' := by
  constructor
  · intro same
    have lists := congrArg String.toList same
    have plain (u : UInt64) : '+' ∉ (hex u).toList := not_mem_hex (by decide) (by decide)
    have split_ (u u' : UInt64) : (hex u ++ "+" ++ hex u').toList.splitOn '+' = [(hex u).toList,(hex u').toList] := by
      simp [List.splitOn_append_cons_self_of_not_mem (plain u),List.splitOn_eq_singleton (plain u')]
    have parts := congrArg (List.splitOn '+') lists
    rw [split_,split_] at parts
    simpa [String.toList_inj] using parts
  · rintro ⟨rfl,rfl⟩
    rfl

end

namespace Fault

/-- The words of a message. -/
def words : Fault → List String
  | zeroStackSize => ["stack","size","is","zero"]
  | misalignedStackSize size => ["stack","size",hex size,"is","not","16-byte","aligned"]
  | misalignedGuardSize guard pageSize =>
    ["guard","size",hex guard,"is","not","a","multiple","of","the","page","size",hex pageSize]
  | sizeOverflow size guard => ["stack","size",hex size,"plus","guard",hex guard,"overflows"]
  | handoffOverflow size needed =>
    ["stack","of",size.toNat.repr,"bytes","cannot","hold","a",needed.toNat.repr,"byte","handoff","record"]
  | misalignedStackPointer pointer => ["unsafe","stack","pointer",hex pointer,"is","misaligned"]
  | mapFailed len errno => ["mapping",hex len,"bytes","failed","(errno",errno.toInt.repr ++ ")"]
  | protectFailed addr len errno =>
    ["protecting","guard",hex addr ++ "+" ++ hex len,"failed","(errno",errno.toInt.repr ++ ")"]
  | unmapFailed addr len errno => ["unmapping",hex addr ++ "+" ++ hex len,"failed","(errno",errno.toInt.repr ++ ")"]
  | attributeQueryFailed code => ["reading","thread","attributes","failed","(code",code.toInt.repr ++ ")"]
  | keyCreateFailed code => ["creating","the","cleanup","key","failed","(code",code.toInt.repr ++ ")"]
  | keySetFailed code => ["arming","the","cleanup","key","failed","(code",code.toInt.repr ++ ")"]
  | interceptionFailed => ["real","pthread_create","could","not","be","resolved"]
  | alreadyInitialized => ["runtime","initialized","twice"]
  | notReady => ["thread","creation","intercepted","before","initialization"]

theorem words_ne_nil (f : Fault) : f.words ≠ [] := by
  cases f <;> simp [words]

theorem words_plain (f : Fault) : ∀ word ∈ f.words, ' ' ∉ word.toList := by
  have number (w : UInt64) : ' ' ∉ (hex w).toList := not_mem_hex (by decide) (by decide)
  have count (n : Nat) : ' ' ∉ Nat.toDigits 10 n := not_mem_toDigits (by decide) (by decide) (by decide)
  have code (i : Int) : ' ' ∉ i.repr.toList := not_mem_integer (by decide) (by decide)
  cases f <;> simp [words,number,count,code]

/-- The text before the first number, and every number with the text that follows it. -/
def parts : Fault → String × List (String × String)
  | zeroStackSize => ("stack size is zero",[])
  | misalignedStackSize size => ("stack size ",[(hex size," is not "),("16","-byte aligned")])
  | misalignedGuardSize guard pageSize =>
    ("guard size ",[(hex guard," is not a multiple of the page size "),(hex pageSize,"")])
  | sizeOverflow size guard => ("stack size ",[(hex size," plus guard "),(hex guard," overflows")])
  | handoffOverflow size needed =>
    ("stack of ",[(size.toNat.repr," bytes cannot hold a "),(needed.toNat.repr," byte handoff record")])
  | misalignedStackPointer pointer => ("unsafe stack pointer ",[(hex pointer," is misaligned")])
  | mapFailed len errno => ("mapping ",[(hex len," bytes failed (errno "),(errno.toInt.repr,")")])
  | protectFailed addr len errno =>
    ("protecting guard ",[(hex addr,"+"),(hex len," failed (errno "),(errno.toInt.repr,")")])
  | unmapFailed addr len errno =>
    ("unmapping ",[(hex addr,"+"),(hex len," failed (errno "),(errno.toInt.repr,")")])
  | attributeQueryFailed code => ("reading thread attributes failed (code ",[(code.toInt.repr,")")])
  | keyCreateFailed code => ("creating the cleanup key failed (code ",[(code.toInt.repr,")")])
  | keySetFailed code => ("arming the cleanup key failed (code ",[(code.toInt.repr,")")])
  | interceptionFailed => ("real pthread_create could not be resolved",[])
  | alreadyInitialized => ("runtime initialized twice",[])
  | notReady => ("thread creation intercepted before initialization",[])

/-- The text with the numbers in their places. -/
def joined (first : String) (rest : List (String × String)) : String :=
  rest.foldl (fun front part => front ++ part.1 ++ part.2) first

theorem message_parts (f : Fault) : f.message = joined f.parts.1 f.parts.2 := by
  cases f with
  | misalignedGuardSize guard pageSize =>
    show "guard size " ++ hex guard ++ " is not a multiple of the page size " ++ hex pageSize = _
    simp [joined,parts]
  | _ => rfl

/-- A message is its words with a space between any two. -/
theorem message_words (f : Fault) : f.message = String.intercalate " " f.words := by
  rw [message_parts]
  apply String.toList_inj.mp
  cases f <;> simp [joined,parts,words]

theorem words_inj {f g : Fault} (same : f.words = g.words) : f = g := by
  cases f <;> cases g <;> simp_all [words,Nat.repr_inj,Int.repr_inj,UInt64.toNat_inj,Int32.toInt_inj]

/-- A message tells its fault, with every value. -/
theorem message_inj {f g : Fault} (same : f.message = g.message) : f = g := by
  have parts (f : Fault) : f.message.toList.splitOn ' ' = f.words.map String.toList := by
    rw [message_words,String.toList_intercalate]
    apply List.splitOn_intercalate
    · intro word member
      obtain ⟨text,inside,rfl⟩ := List.mem_map.mp member
      exact f.words_plain text inside
    · simp [f.words_ne_nil]
  have lists : f.words.map String.toList = g.words.map String.toList := by rw [← parts,← parts,same]
  exact words_inj ((List.map_inj_right fun _ _ => String.toList_inj.mp).mp lists)

theorem joined_size (first : String) {rest : List (String × String)} {width : Nat}
    (numbers : ∀ part ∈ rest, part.1.utf8ByteSize ≤ width) : (joined first rest).utf8ByteSize ≤
      first.utf8ByteSize + (rest.map fun part => width + part.2.utf8ByteSize).sum := by
  induction rest generalizing first with
  | nil => simp [joined]
  | cons part rest ih =>
    have tail := ih (first ++ part.1 ++ part.2) fun part member => numbers part (List.mem_cons_of_mem _ member)
    have number := numbers part List.mem_cons_self
    simp only [String.utf8ByteSize_append] at tail
    simp only [joined,List.foldl_cons,List.map_cons,List.sum_cons] at tail ⊢
    omega

/-- No message takes up more than half a line. -/
theorem message_size (f : Fault) : f.message.utf8ByteSize ≤ 128 := by
  have wide (w : UInt64) : (hex w).utf8ByteSize ≤ 20 := Nat.le_trans (hex_size w) (by decide)
  have count (w : UInt64) : w.toNat.repr.utf8ByteSize ≤ 20 := by
    have bound := w.toNat_lt
    exact repr_size (by decide) (by omega)
  have code (code : Int32) : code.toInt.repr.utf8ByteSize ≤ 20 := Nat.le_trans (code_size code) (by decide)
  have numbers : ∀ part ∈ f.parts.2, part.1.utf8ByteSize ≤ 20 := by
    cases f <;> simp [parts,wide,count,code]
    decide
  rw [message_parts]
  apply Nat.le_trans (joined_size _ numbers)
  cases f <;> simp only [parts,List.map] <;> decide

end Fault
end GuardedStack
