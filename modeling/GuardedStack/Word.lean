/-! Machine words. Addresses and sizes are 64-bit words. `Checked.add` and `Checked.subtract` report a
result that does not fit in a word; the built-in `+` and `-` wrap and never fail. -/
namespace GuardedStack

/-- The checked operation whose exact result does not fit in a word. -/
inductive Overflow where
  | add
  | subtract
  deriving DecidableEq, Repr

def Overflow.message : Overflow → String
  | .add => "attempt to add with overflow"
  | .subtract => "attempt to subtract with overflow"

/-- A computation on words that ends at its first result that does not fit. -/
abbrev Checked (α : Type) := Except Overflow α

namespace Checked

def add (a b : UInt64) : Checked UInt64 :=
  if a.toNat + b.toNat < UInt64.size then .ok (a + b) else .error .add

def subtract (a b : UInt64) : Checked UInt64 :=
  if b ≤ a then .ok (a - b) else .error .subtract

theorem add_eq_ok_iff {a b c : UInt64} :
    add a b = .ok c ↔ a.toNat + b.toNat < UInt64.size ∧ a + b = c := by
  unfold add
  split
  · rename_i fits; simp [fits]
  · rename_i overflows; simp [overflows]

theorem subtract_eq_ok_iff {a b c : UInt64} : subtract a b = .ok c ↔ b ≤ a ∧ a - b = c := by
  unfold subtract
  split
  · rename_i fits; simp [fits]
  · rename_i below; simp [below]

/-- A checked sum is the exact sum. -/
theorem toNat_of_add {a b c : UInt64} (h : add a b = .ok c) : c.toNat = a.toNat + b.toNat := by
  obtain ⟨fits,rfl⟩ := add_eq_ok_iff.mp h
  rw [UInt64.toNat_add]
  exact Nat.mod_eq_of_lt fits

theorem add_ne_zero {a b c : UInt64} (h : add a b = .ok c) (nonempty : a ≠ 0 ∨ b ≠ 0) : c ≠ 0 := by
  rintro rfl
  have exact_ := toNat_of_add h
  simp only [UInt64.toNat_zero] at exact_
  rcases nonempty with left | right
  · exact left (UInt64.toNat_inj.mp (by simp; omega))
  · exact right (UInt64.toNat_inj.mp (by simp; omega))

end Checked

/-- Lower-case hexadecimal with the marker `0x` and no leading zeros. -/
def hex (word : UInt64) : String := "0x" ++ String.ofList (Nat.toDigits 16 word.toNat)

end GuardedStack
