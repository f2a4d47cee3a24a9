import GuardedStack.ThreadStack

/-! Where things lie in the address space: mappings, the regions that describe them, and records in their tops. -/
namespace GuardedStack

structure Mapping where
  runtime : RuntimeId
  addr : UInt64
  len : UInt64
  deriving DecidableEq, Repr

namespace Mapping

def finish (m : Mapping) : Nat := m.addr.toNat + m.len.toNat

def Covers (m : Mapping) (place : Nat) : Prop := m.addr.toNat ≤ place ∧ place < m.finish

def Apart (a b : Mapping) : Prop := ∀ place, ¬(a.Covers place ∧ b.Covers place)

/-- What a mapper promises of a new mapping, whatever else is mapped. -/
def Proper (m : Mapping) : Prop := m.addr ≠ 0 ∧ m.finish < UInt64.size

theorem Apart.symm {a b : Mapping} (apart : a.Apart b) : b.Apart a :=
  fun place both => apart place both.symm

instance : Std.Symm Apart := ⟨fun _ _ => Apart.symm⟩

theorem Apart.sides {a b : Mapping} (apart : a.Apart b) (left : 0 < a.len.toNat) (right : 0 < b.len.toNat) :
    a.finish ≤ b.addr.toNat ∨ b.finish ≤ a.addr.toNat := by
  have clash := apart (max a.addr.toNat b.addr.toNat)
  simp only [Covers,finish] at clash ⊢
  omega

theorem Apart.addr_ne {a b : Mapping} (apart : a.Apart b) (left : 0 < a.len.toNat) (right : 0 < b.len.toNat) :
    a.addr ≠ b.addr := by
  intro same
  have sides := apart.sides left right
  simp only [finish,same] at sides
  omega

theorem positive {m : Mapping} (nonempty : m.len ≠ 0) : 0 < m.len.toNat :=
  Nat.pos_of_ne_zero fun zero => nonempty (UInt64.toNat_inj.mp zero)

/-- What lies apart from all others is none of them. -/
theorem Apart.new {m : Mapping} {live : List Mapping} (apart : ∀ m' ∈ live, m.Apart m') (positive : 0 < m.len.toNat) :
    m ∉ live :=
  fun old => (apart m old).addr_ne positive positive rfl

theorem drop_new {m : Mapping} {live : List Mapping} (new : m ∉ live) : (m :: live).filter (· ≠ m) = live := by
  have other : ∀ m' ∈ live, m' ≠ m := fun m' member same => new (same ▸ member)
  simpa [List.filter_cons] using other

end Mapping

namespace Region

/-- The mapping that a region describes. -/
def mapping (r : Region) (rt : RuntimeId) : Mapping := ⟨rt,r.start,r.usable + r.guard⟩

/-- The mapping does not reach the end of the address space. -/
def Fits (r : Region) : Prop := r.start.toNat + r.guard.toNat + r.usable.toNat < UInt64.size

instance (r : Region) : Decidable r.Fits := inferInstanceAs (Decidable (_ < _))

namespace Fits

variable {r : Region} (fits : r.Fits)
include fits

theorem base_toNat : r.base.toNat = r.start.toNat + r.guard.toNat := by
  simp only [Fits,UInt64.size] at fits
  rw [← r.start_add_guard,UInt64.toNat_add]
  exact Nat.mod_eq_of_lt (by omega)

theorem top_toNat : r.top.toNat = r.start.toNat + r.guard.toNat + r.usable.toNat := by
  rw [top,UInt64.toNat_add,fits.base_toNat]
  exact Nat.mod_eq_of_lt fits

theorem len_toNat : (r.usable + r.guard).toNat = r.usable.toNat + r.guard.toNat := by
  simp only [Fits,UInt64.size] at fits
  rw [UInt64.toNat_add]
  exact Nat.mod_eq_of_lt (by omega)

theorem finish_mapping (rt : RuntimeId) :
    (r.mapping rt).finish = r.start.toNat + r.guard.toNat + r.usable.toNat := by
  simp only [Mapping.finish,mapping,fits.len_toNat]
  omega

theorem length_eq : r.length = .ok (r.usable + r.guard) := by
  refine Checked.add_eq_ok_iff.mpr ⟨?_,rfl⟩
  simp only [Fits] at fits
  omega

theorem top_eq : Checked.add r.base r.usable = .ok r.top :=
  Checked.add_eq_ok_iff.mpr ⟨by rw [fits.base_toNat]; exact fits,rfl⟩

theorem contains_eq (a : UInt64) : r.contains a = .ok (decide (r.base ≤ a ∧ a < r.top)) := by
  unfold contains
  by_cases above : r.base ≤ a
  · rw [if_pos above,fits.top_eq]
    simp [above,bind,Except.bind,pure,Except.pure]
  · rw [if_neg above]
    simp [above,pure,Except.pure]

theorem finish_eq : r.finish = .ok (r.start + (r.usable + r.guard)) := by
  have exact_ := fits.len_toNat
  simp only [Fits] at fits
  unfold finish
  rw [length_eq fits]
  exact Checked.add_eq_ok_iff.mpr ⟨by omega,rfl⟩

theorem finish_toNat : (r.start + (r.usable + r.guard)).toNat = r.start.toNat + r.guard.toNat + r.usable.toNat := by
  rw [Checked.toNat_of_add (Checked.add_eq_ok_iff.mpr ⟨?_,rfl⟩),fits.len_toNat]
  · omega
  · rw [fits.len_toNat]
    simp only [Fits] at fits
    omega

/-- Each start is compared with the other mapping's end. -/
theorem overlaps_eq {s : Region} (other : s.Fits) : r.overlaps s = .ok (decide
    (r.start.toNat < s.start.toNat + s.guard.toNat + s.usable.toNat ∧
      s.start.toNat < r.start.toNat + r.guard.toNat + r.usable.toNat)) := by
  unfold overlaps
  rw [fits.finish_eq,other.finish_eq]
  simp only [bind,Except.bind,UInt64.lt_iff_toNat_lt,fits.finish_toNat,other.finish_toNat]
  split
  next below => simp [below,pure,Except.pure]
  next above => simp [above,pure,Except.pure]

end Fits

/-- The mapping starts above zero, is not empty and does not reach the end of the address space. -/
structure Sound (r : Region) : Prop where
  start_ne : r.start ≠ 0
  fits : r.start.toNat + r.guard.toNat + r.usable.toNat < UInt64.size
  nonempty : 0 < r.guard.toNat + r.usable.toNat

namespace Sound

variable {r : Region} (sound : r.Sound)
include sound

theorem base_toNat : r.base.toNat = r.start.toNat + r.guard.toNat := Fits.base_toNat sound.fits

theorem top_toNat : r.top.toNat = r.start.toNat + r.guard.toNat + r.usable.toNat := Fits.top_toNat sound.fits

theorem base_le_top : r.base ≤ r.top := by
  rw [UInt64.le_iff_toNat_le,sound.base_toNat,sound.top_toNat]
  omega

theorem len_toNat : (r.usable + r.guard).toNat = r.usable.toNat + r.guard.toNat := Fits.len_toNat sound.fits

theorem length_eq : r.length = .ok (r.usable + r.guard) := Fits.length_eq sound.fits

theorem top_eq : Checked.add r.base r.usable = .ok r.top := Fits.top_eq sound.fits

theorem contains_eq (a : UInt64) : r.contains a = .ok (decide (r.base ≤ a ∧ a < r.top)) := Fits.contains_eq sound.fits a

theorem finish_mapping (rt : RuntimeId) :
    (r.mapping rt).finish = r.start.toNat + r.guard.toNat + r.usable.toNat := Fits.finish_mapping sound.fits rt

theorem mapping_nonempty (rt : RuntimeId) : 0 < (r.mapping rt).len.toNat := by
  have nonempty := sound.nonempty
  simp only [mapping,sound.len_toNat]
  omega

end Sound
end Region

/-- A proper mapping of checked length is a sound region with its guard at the bottom. -/
theorem Mapping.Proper.region {rt : RuntimeId} {addr size guard total : UInt64}
    (proper : (⟨rt,addr,total⟩ : Mapping).Proper) (sum : Checked.add size guard = .ok total) (nonempty : total ≠ 0) :
    (⟨addr + guard,size,guard⟩ : Region).Sound ∧
      (⟨addr + guard,size,guard⟩ : Region).mapping rt = ⟨rt,addr,total⟩ := by
  have start : (⟨addr + guard,size,guard⟩ : Region).start = addr := by simp [Region.start]
  have exact_ := Checked.toNat_of_add sum
  obtain ⟨_,rfl⟩ := Checked.add_eq_ok_iff.mp sum
  have fits := proper.2
  have positive : (size + guard).toNat ≠ 0 := fun zero => nonempty (UInt64.toNat_inj.mp zero)
  simp only [Mapping.finish] at fits
  refine ⟨⟨?_,?_,?_⟩,?_⟩
  · rw [start]
    exact proper.1
  · rw [start]
    dsimp only
    omega
  · dsimp only
    omega
  · rw [Region.mapping,start]

abbrev Holding.mapping (h : Holding) : Mapping := h.region.mapping h.owner

def Handoff.holding (h : Handoff) : Holding := ⟨h.region,h.runtime⟩

abbrev Handoff.mapping (h : Handoff) : Mapping := h.region.mapping h.runtime

namespace Handoff

/-- The record lies in the mapping of its own region. -/
structure Sits (h : Handoff) (addr : UInt64) : Prop where
  sound : h.region.Sound
  above : h.mapping.addr.toNat ≤ addr.toNat
  below : addr.toNat + size.toNat ≤ h.mapping.finish

/-- The record is there to be read. -/
structure Rests (h : Handoff) (memory : Memory) (addr : UInt64) : Prop where
  sits : h.Sits addr
  bytes : memory.load addr size.toNat = h.encode

theorem Sits.finish_lt {h : Handoff} {addr : UInt64} (sits : h.Sits addr) : h.mapping.finish < UInt64.size := by
  rw [sits.sound.finish_mapping]
  exact sits.sound.fits

theorem Sits.addr_ne {h : Handoff} {addr : UInt64} (sits : h.Sits addr) : addr ≠ 0 := by
  rintro rfl
  exact sits.sound.start_ne (UInt64.toNat_inj.mp (Nat.le_zero.mp sits.above))

/-- The place flush against the top of a region that is large enough. -/
theorem sits_of_slot {h : Handoff} (sound : h.region.Sound) (large : size ≤ h.region.usable) :
    ∃ addr, Checked.subtract h.region.top size = .ok addr ∧ h.Sits addr := by
  have enough := UInt64.le_iff_toNat_le.mp large
  have top := sound.top_toNat
  have below : size ≤ h.region.top := UInt64.le_iff_toNat_le.mpr (by omega)
  refine ⟨h.region.top - size,Checked.subtract_eq_ok_iff.mpr ⟨below,rfl⟩,sound,?_,?_⟩
  · simp only [Region.mapping,UInt64.toNat_sub_of_le _ _ below]
    omega
  · rw [sound.finish_mapping,UInt64.toNat_sub_of_le _ _ below]
    omega

end Handoff

/-! Multiples of a power of two, which the library tells by a mask. -/

/-- A page size that keeps stack pointers aligned. -/
structure PageSize (page : UInt64) : Prop where
  power : page.toNat.isPowerOfTwo
  large : 16 ≤ page.toNat

theorem PageSize.ne_zero {page : UInt64} (paged : PageSize page) : page ≠ 0 := by
  rintro rfl
  exact absurd paged.large (by decide)

theorem PageSize.dvd {page : UInt64} (paged : PageSize page) : 16 ∣ page.toNat := by
  obtain ⟨⟨k,power⟩,large⟩ := paged
  rw [power] at large ⊢
  exact (Nat.pow_dvd_pow_iff_pow_le_pow (k := 4) (by decide)).mpr large

theorem mask_eq_zero_iff {word page : UInt64} (power : page.toNat.isPowerOfTwo) :
    word &&& (page - 1) = 0 ↔ page.toNat ∣ word.toNat := by
  obtain ⟨k,power⟩ := power
  have one : 1 ≤ page := by
    rw [UInt64.le_iff_toNat_le,power]
    exact Nat.one_le_two_pow
  have mask : (page - 1).toNat = page.toNat - 1 := UInt64.toNat_sub_of_le _ _ one
  rw [← UInt64.toNat_inj,UInt64.toNat_and,mask,power,Nat.and_two_pow_sub_one_eq_mod]
  exact (Nat.dvd_iff_mod_eq_zero ..).symm

theorem stackAlign_power : stackAlign.toNat.isPowerOfTwo := ⟨4,rfl⟩

namespace Region

/-- The top will do for a stack pointer. -/
abbrev Aligned (r : Region) : Prop := r.top &&& (stackAlign - 1) = 0

variable {r : Region} {page : UInt64}

theorem aligned_iff : r.Aligned ↔ 16 ∣ r.top.toNat := mask_eq_zero_iff stackAlign_power

/-- Above whole sixteens the top is aligned exactly if the usable part has whole sixteens itself, even where it wraps. -/
theorem aligned_iff_usable (start : 16 ∣ r.start.toNat) (guard : 16 ∣ r.guard.toNat) : r.Aligned ↔ 16 ∣ r.usable.toNat := by
  have top : r.top = r.start + r.guard + r.usable := by
    rw [r.start_add_guard]
    rfl
  rw [aligned_iff,top,UInt64.toNat_add,UInt64.toNat_add]
  omega

/-- With a page-aligned mapping the checks of the size and of the guard are enough. -/
theorem Fits.aligned (fits : r.Fits) (paged : PageSize page) (start : page.toNat ∣ r.start.toNat)
    (guard : r.guard &&& (page - 1) = 0) (usable : r.usable &&& (stackAlign - 1) = 0) : r.Aligned := by
  have whole := paged.dvd
  have guard := Nat.dvd_trans whole ((mask_eq_zero_iff paged.power).mp guard)
  have usable : 16 ∣ r.usable.toNat := (mask_eq_zero_iff stackAlign_power).mp usable
  rw [aligned_iff,fits.top_toNat]
  exact Nat.dvd_add (Nat.dvd_add (Nat.dvd_trans whole start) guard) usable

theorem Sound.aligned (sound : r.Sound) (paged : PageSize page) (start : page.toNat ∣ r.start.toNat)
    (guard : r.guard &&& (page - 1) = 0) (usable : r.usable &&& (stackAlign - 1) = 0) : r.Aligned :=
  Fits.aligned sound.fits paged start guard usable

/-- A record below an aligned top is aligned itself. -/
theorem Aligned.slot (aligned : r.Aligned) (large : Handoff.size ≤ r.top) :
    (r.top - Handoff.size) % Handoff.alignment = 0 := by
  have whole := aligned_iff.mp aligned
  rw [← UInt64.toNat_inj,UInt64.toNat_mod,UInt64.toNat_sub_of_le _ _ large]
  simp only [Handoff.size,Handoff.alignment,UInt64.reduceToNat]
  omega

end Region

/-- Bytes that are stored elsewhere are not loaded. -/
theorem Memory.load_store_apart (m : Memory) {addr other : UInt64} {bytes : List UInt8} {count : Nat}
    (stored : addr.toNat + bytes.length < UInt64.size) (loaded : other.toNat + count < UInt64.size)
    (apart : addr.toNat + bytes.length ≤ other.toNat ∨ other.toNat + count ≤ addr.toNat) :
    (m.store addr bytes).load other count = m.load other count := by
  simp only [load,List.map_inj_left,List.mem_range]
  intro i inside
  refine m.store_outside ?_
  have place : (other + UInt64.ofNat i).toNat = other.toNat + i := by
    rw [UInt64.toNat_add,UInt64.toNat_ofNat_of_lt' (by omega)]
    exact Nat.mod_eq_of_lt (by simp only [UInt64.size] at loaded; omega)
  have offset := UInt64.toNat_sub (other + UInt64.ofNat i) addr
  have bound := addr.toNat_lt
  simp only [UInt64.size] at stored loaded
  omega

/-- A record's place keeps its bytes when something is stored in another mapping. -/
theorem Handoff.Sits.load_store {h g : Handoff} {memory : Memory} {addr other : UInt64} {bytes : List UInt8}
    (here : h.Sits addr) (there : g.Sits other) (fits : bytes.length = size.toNat) (apart : h.mapping.Apart g.mapping) :
    (memory.store other bytes).load addr size.toNat = memory.load addr size.toNat := by
  have sides := apart.sides (here.sound.mapping_nonempty _) (there.sound.mapping_nonempty _)
  have below := here.below
  have below' := there.below
  have top := here.finish_lt
  have top' := there.finish_lt
  have above := here.above
  have above' := there.above
  apply Memory.load_store_apart
  · omega
  · omega
  · omega

/-- A record survives what is stored in another mapping. -/
theorem Handoff.Rests.store {h g : Handoff} {memory : Memory} {addr other : UInt64} {bytes : List UInt8}
    (rests : h.Rests memory addr) (sits : g.Sits other) (fits : bytes.length = size.toNat)
    (apart : h.mapping.Apart g.mapping) : h.Rests (memory.store other bytes) addr :=
  ⟨rests.sits,(rests.sits.load_store sits fits apart).trans rests.bytes⟩

theorem Handoff.Sits.rests {h : Handoff} {addr : UInt64} (sits : h.Sits addr) (memory : Memory) :
    h.Rests (memory.store addr h.encode) addr := by
  refine ⟨sits,?_⟩
  rw [← h.length_encode]
  exact memory.load_store addr (by simp [UInt64.size,size])

end GuardedStack
