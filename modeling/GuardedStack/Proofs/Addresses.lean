import GuardedStack.Proofs.Layout
import Mathlib.Data.Set.Card
import Mathlib.Order.Interval.Finset.Nat

/-! What a region tells of addresses, against the bytes that its mapping has. The two parts of a region cover its mapping
without sharing a byte, each has as many bytes as its size says, and regions overlap exactly if their mappings share a
byte. -/
namespace GuardedStack

/-- As many words as there are numbers between the bounds. -/
theorem ncard_words (low high : Nat) (fits : high ≤ UInt64.size) :
    {a : UInt64 | low ≤ a.toNat ∧ a.toNat < high}.ncard = high - low := by
  have image : UInt64.toNat '' {a : UInt64 | low ≤ a.toNat ∧ a.toNat < high} = ↑(Finset.Ico low high) := by
    ext n
    simp only [Set.mem_image,Set.mem_ofPred_eq,Finset.coe_Ico,Set.mem_Ico]
    constructor
    · rintro ⟨a,inside,rfl⟩
      exact inside
    · intro inside
      have small : (UInt64.ofNat n).toNat = n := UInt64.toNat_ofNat_of_lt' (by omega)
      exact ⟨.ofNat n,by rwa [small],small⟩
  have injective : Function.Injective UInt64.toNat := fun _ _ => UInt64.toNat_inj.mp
  calc {a : UInt64 | low ≤ a.toNat ∧ a.toNat < high}.ncard
      = (UInt64.toNat '' {a : UInt64 | low ≤ a.toNat ∧ a.toNat < high}).ncard :=
        (Set.ncard_image_of_injective _ injective).symm
    _ = (Finset.Ico low high).card := by rw [image,Set.ncard_coe_finset]
    _ = high - low := Nat.card_Ico low high

namespace Region

/-- The address is one of the mapping's. The bounds are exact sums. -/
def Covers (r : Region) (a : UInt64) : Prop :=
  r.start.toNat ≤ a.toNat ∧ a.toNat < r.start.toNat + (r.usable.toNat + r.guard.toNat)

/-- The region's tests of an address tell the two parts of its mapping. -/
structure Parted (r : Region) : Prop where
  length : ∃ len, r.length = .ok len ∧ len.toNat = r.usable.toNat + r.guard.toNat
  covers : ∀ a, ∃ inside, r.contains a = .ok inside ∧ (r.Covers a ↔ (r.inGuard a ^^ inside) = true) ∧
    (¬r.Covers a → r.inGuard a = false ∧ inside = false)
  guard : {a | r.inGuard a = true}.ncard = r.guard.toNat
  usable : {a | r.contains a = .ok true}.ncard = r.usable.toNat
  below : ∀ a b, r.inGuard a = true → r.contains b = .ok true → a < b

/-- The test of two regions tells whether their mappings share an address. -/
structure Compared (r s : Region) : Prop where
  shares : ∃ shared, r.overlaps s = .ok shared ∧ (shared = true ↔ ∃ a, r.Covers a ∧ s.Covers a) ∧
    (shared = false ↔ r.start.toNat + (r.usable.toNat + r.guard.toNat) ≤ s.start.toNat ∨
      s.start.toNat + (s.usable.toNat + s.guard.toNat) ≤ r.start.toNat)
  symm : r.overlaps s = s.overlaps r

/-- The base is above the guard and the top above the usable part, also where the sums wrap. -/
structure Stacked (r : Region) : Prop where
  base : r.base.toNat = (r.start.toNat + r.guard.toNat) % UInt64.size
  top : r.top.toNat = (r.base.toNat + r.usable.toNat) % UInt64.size

theorem stacked (r : Region) : r.Stacked where
  base := by
    conv_lhs => rw [← r.start_add_guard]
    exact UInt64.toNat_add r.start r.guard
  top := UInt64.toNat_add r.base r.usable

namespace Fits

variable {r : Region} (fits : r.Fits)
include fits

theorem inGuard_iff (a : UInt64) : r.inGuard a = true ↔
    r.start.toNat ≤ a.toNat ∧ a.toNat < r.start.toNat + r.guard.toNat := by
  simp only [inGuard,decide_eq_true_eq,UInt64.le_iff_toNat_le,UInt64.lt_iff_toNat_lt,fits.base_toNat]

theorem contains_iff (a : UInt64) : r.contains a = .ok true ↔
    r.start.toNat + r.guard.toNat ≤ a.toNat ∧ a.toNat < r.start.toNat + r.guard.toNat + r.usable.toNat := by
  rw [fits.contains_eq,Except.ok.injEq]
  simp only [decide_eq_true_eq,UInt64.le_iff_toNat_le,UInt64.lt_iff_toNat_lt,fits.base_toNat,fits.top_toNat]

/-- An address of the mapping is in one part, and any other address is in none. -/
theorem covers (a : UInt64) : ∃ inside, r.contains a = .ok inside ∧ (r.Covers a ↔ (r.inGuard a ^^ inside) = true) ∧
    (¬r.Covers a → r.inGuard a = false ∧ inside = false) := by
  have guard := fits.inGuard_iff a
  have usable := fits.contains_iff a
  rw [fits.contains_eq] at usable ⊢
  refine ⟨_,rfl,?_⟩
  generalize decide (r.base ≤ a ∧ a < r.top) = inside at usable ⊢
  rw [Except.ok.injEq] at usable
  unfold Covers
  cases guarded : r.inGuard a <;> cases inside
  all_goals
    simp only [guarded] at guard
    simp at guard usable ⊢
    omega

theorem parted : r.Parted where
  length := ⟨_,fits.length_eq,fits.len_toNat⟩
  covers := fits.covers
  guard := by
    have words := ncard_words r.start.toNat (r.start.toNat + r.guard.toNat) (by unfold Fits at fits; omega)
    simp only [fits.inGuard_iff]
    omega
  usable := by
    have words := ncard_words (r.start.toNat + r.guard.toNat) _ (Nat.le_of_lt fits)
    simp only [fits.contains_iff]
    omega
  below a b guard usable := by
    have low := (fits.inGuard_iff a).mp guard
    have high := (fits.contains_iff b).mp usable
    exact UInt64.lt_iff_toNat_lt.mpr (by omega)

end Fits

/-- Two mappings of which none ends before the other begins share the higher one of their starts. -/
theorem shares_iff {r s : Region} (sound : r.Sound) (other : s.Sound) : (∃ a, r.Covers a ∧ s.Covers a) ↔
    r.start.toNat < s.start.toNat + s.guard.toNat + s.usable.toNat ∧
      s.start.toNat < r.start.toNat + r.guard.toNat + r.usable.toNat := by
  unfold Covers
  constructor
  · rintro ⟨a,here,there⟩
    omega
  · intro below
    have nonempty := sound.nonempty
    have nonempty' := other.nonempty
    rcases Nat.le_total r.start.toNat s.start.toNat with order | order
    · exact ⟨s.start,by omega,by omega⟩
    · exact ⟨r.start,by omega,by omega⟩

theorem Sound.compared {r s : Region} (sound : r.Sound) (other : s.Sound) : r.Compared s where
  shares := by
    refine ⟨_,Fits.overlaps_eq sound.fits other.fits,?_,?_⟩
    · rw [shares_iff sound other,decide_eq_true_eq]
    · rw [decide_eq_false_iff_not]
      omega
  symm := by
    rw [Fits.overlaps_eq sound.fits other.fits,Fits.overlaps_eq other.fits sound.fits]
    simp only [and_comm]

/-- The tests of regions agree with the bytes of their mappings, and every region has its parts one above the other. -/
theorem tests_tell_bytes : (∀ r : Region, r.Stacked) ∧
    ∀ r s : Region, r.Sound → s.Sound → r.Parted ∧ s.Parted ∧ r.Compared s := by
  constructor
  · exact stacked
  · intro r s sound other
    have here : r.Parted := Fits.parted sound.fits
    have there : s.Parted := Fits.parted other.fits
    exact ⟨here,there,sound.compared other⟩

/-- One region ends where the other begins, and they do not overlap. -/
theorem tests_tell_neighbours : (⟨0x2000,0x1000,0x1000⟩ : Region).Sound ∧ (⟨0x4000,0x30,0x1000⟩ : Region).Sound ∧
    {a | (⟨0x4000,0x30,0x1000⟩ : Region).contains a = .ok true}.ncard = 48 ∧
    (⟨0x2000,0x1000,0x1000⟩ : Region).overlaps ⟨0x4000,0x30,0x1000⟩ = .ok false := by
  have low : (⟨0x2000,0x1000,0x1000⟩ : Region).Sound := ⟨by decide,by decide,by decide⟩
  have high : (⟨0x4000,0x30,0x1000⟩ : Region).Sound := ⟨by decide,by decide,by decide⟩
  obtain ⟨-,parted,compared⟩ := tests_tell_bytes.2 _ _ low high
  obtain ⟨shared,answer,-,apart⟩ := compared.shares
  obtain rfl := apart.mpr (.inl (by decide))
  exact ⟨low,high,parted.usable,answer⟩

end Region
end GuardedStack
