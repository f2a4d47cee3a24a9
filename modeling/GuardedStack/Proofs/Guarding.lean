import GuardedStack.Proofs.Paging

/-! What becomes of a region while others come and go. Whatever was made and given back before, beside and after it, a
region's guard stays closed and its usable part open until it is itself given back, and then nothing of it is left. -/
namespace GuardedStack

open Pages

/-- Pages, and the regions that were made there and not given back. -/
structure Stock where
  pages : Pages
  live : List Region

inductive Usage where
  | allocate (rt : RuntimeId) (size guard : UInt64)
  | release (rt : RuntimeId) (r : Region)
  /-- Other code maps and unmaps elsewhere, and writes where it likes. -/
  | other

/-- One usage and what has come of it. A region that was to be given back is not used any more, also if the mapper has
refused it. -/
inductive Usage.Step (grain : Nat) : Usage → Stock → Stock → Prop
  | allocated {rt size guard r p p' live} : (Region.allocate rt size guard).run.Yields (Answers grain) p (.ok r) p' →
      Step grain (.allocate rt size guard) ⟨p,live⟩ ⟨p',r :: live⟩
  | refused {rt size guard cause p p' live} :
      (Region.allocate rt size guard).run.Yields (Answers grain) p (.error cause) p' →
      Step grain (.allocate rt size guard) ⟨p,live⟩ ⟨p',live⟩
  | released {rt r result p p' live} : r ∈ live → (Region.release rt r).run.Yields (Answers grain) p result p' →
      Step grain (.release rt r) ⟨p,live⟩ ⟨p',live.erase r⟩
  | other {p p' : Pages} {live} : (∀ r ∈ live, ∀ n, r.Spans grain n → p'.rights n = p.rights n) →
      Step grain .other ⟨p,live⟩ ⟨p',live⟩

/-- What has been done with a stock, the newest first. -/
inductive History (grain : Nat) : List Usage → Stock → Stock → Prop
  | nil {s} : History grain [] s s
  | step {log s s' s'' u} : History grain log s s' → u.Step grain s' s'' → History grain (u :: log) s s''

namespace Region

/-- To the byte: the guard cannot be touched, and the usable part can be read and written. -/
structure Shielded (grain : Nat) (p : Pages) (r : Region) : Prop where
  guard : ∀ i < r.guard, p.rightsAt grain (r.start + i) = some .none
  usable : ∀ i < r.usable, p.rightsAt grain (r.base + i) = some .readWrite

def Disjoint (grain : Nat) (r r' : Region) : Prop := ∀ n, ¬(r.Spans grain n ∧ r'.Spans grain n)

instance {grain : Nat} : Std.Symm (Disjoint grain) := ⟨fun _ _ apart n both => apart n both.symm⟩

/-- Nothing has changed for the region. -/
structure Kept (grain : Nat) (p p' : Pages) (r : Region) : Prop where
  rights : ∀ n, r.Spans grain n → p'.rights n = p.rights n
  bytes : ∀ a : UInt64, r.Spans grain (a.toNat / grain) → p'.bytes a = p.bytes a

/-- Where a region has its bytes. -/
structure Lies (grain : Nat) (r : Region) : Prop where
  sum : r.usable.toNat + r.guard.toNat < UInt64.size
  start : grain ∣ r.start.toNat
  fits : r.start.toNat + grain * count grain (r.usable + r.guard) ≤ UInt64.size

variable {grain : Nat} {p p' : Pages} {r r' : Region} {size guard : UInt64}

theorem Lies.length (lies : r.Lies grain) : r.length = .ok (r.usable + r.guard) :=
  Checked.add_eq_ok_iff.mpr ⟨lies.sum,rfl⟩

theorem Lies.total (lies : r.Lies grain) : (r.usable + r.guard).toNat = r.usable.toNat + r.guard.toNat :=
  Checked.toNat_of_add lies.length

theorem Made.lies (made : Made grain size guard p r p') : r.Lies grain :=
  ⟨by rw [made.width,made.depth]; exact made.sum,made.start,made.fits⟩

/-- The address of a usable byte, from the start of the mapping. -/
theorem base_add (r : Region) (i : UInt64) : r.base + i = r.start + (r.guard + i) := by
  rw [← r.start_add_guard,UInt64.add_assoc]

theorem Lies.toNat_usable (lies : r.Lies grain) {i : UInt64} (inside : i < r.usable) :
    (r.guard + i).toNat = r.guard.toNat + i.toNat := by
  have bound := lies.sum
  have inside := UInt64.lt_iff_toNat_lt.mp inside
  rw [UInt64.toNat_add]
  exact Nat.mod_eq_of_lt (by simp only [UInt64.size] at bound; omega)

section
variable (positive : 0 < grain) (lies : r.Lies grain)
include positive lies

theorem spans_guard {i : UInt64} (inside : i < r.guard) : r.Spans grain ((r.start + i).toNat / grain) := by
  have inside := UInt64.lt_iff_toNat_lt.mp inside
  exact span_byte positive lies.fits lies.start (by rw [lies.total]; omega)

theorem spans_usable {i : UInt64} (inside : i < r.usable) : r.Spans grain ((r.base + i).toNat / grain) := by
  have place := lies.toNat_usable inside
  have inside := UInt64.lt_iff_toNat_lt.mp inside
  rw [base_add]
  exact span_byte positive lies.fits lies.start (by rw [lies.total]; omega)

theorem Shielded.keep (shielded : r.Shielded grain p) (rights : ∀ n, r.Spans grain n → p'.rights n = p.rights n) :
    r.Shielded grain p' where
  guard i inside := (rights _ (spans_guard positive lies inside)).trans (shielded.guard i inside)
  usable i inside := (rights _ (spans_usable positive lies inside)).trans (shielded.usable i inside)

end

/-- A guard of whole pages leaves the bytes above it alone. -/
theorem Made.shielded (positive : 0 < grain) (made : Made grain size guard p r p') (whole : grain ∣ guard.toNat) :
    r.Shielded grain p' := by
  have lies := made.lies
  have total := lies.total
  obtain rfl := made.depth
  constructor
  · intro i inside
    apply made.closed
    have few : count grain r.guard ≤ count grain (r.usable + r.guard) := Nat.div_le_div_right (by omega)
    have room := Nat.mul_le_mul_left grain few
    have fits := lies.fits
    exact span_byte positive (by omega) lies.start (UInt64.lt_iff_toNat_lt.mp inside)
  · intro i inside
    apply made.open_ _ (spans_usable positive lies inside)
    have place := lies.toNat_usable inside
    have inside := UInt64.lt_iff_toNat_lt.mp inside
    rw [base_add]
    exact not_span_byte positive lies.fits lies.start whole (by omega) (by omega)

/-- Nothing happens to a region in pages of another. -/
theorem Kept.of_aside (aside : Aside grain r'.start (r'.usable + r'.guard) p p') (apart : r'.Disjoint grain r) :
    r.Kept grain p p' :=
  ⟨fun n span => aside.rights n fun other => apart n ⟨other,span⟩,
    fun a span => aside.bytes a fun other => apart _ ⟨other,span⟩⟩

/-- A release touches nothing but its own region. -/
theorem Lies.release (lies : r.Lies grain) {rt : RuntimeId} {result : Except Fault Unit}
    (yields : (Region.release rt r).run.Yields (Answers grain) p result p') :
    Aside grain r.start (r.usable + r.guard) p p' ∧ (result = .ok () → ∀ n, r.Spans grain n → p'.rights n = none) := by
  cases result with
  | ok done =>
    have post := yields.value (d := paging grain) (release_paging lies.length)
    exact ⟨post.1,fun _ => post.2⟩
  | error cause => exact ⟨yields.cause (d := paging grain) (release_paging lies.length),by simp⟩

theorem Kept.of_spares (spares : Spares grain p p') (mapped : ∀ n, r.Spans grain n → p.rights n ≠ none) :
    r.Kept grain p p' :=
  ⟨fun n span => spares.rights n (mapped n span),fun a span => spares.bytes a (mapped _ span)⟩

end Region

namespace Stock

/-- The live regions lie apart, each in pages of its own. -/
structure Sound (grain : Nat) (s : Stock) : Prop where
  lies : ∀ r ∈ s.live, r.Lies grain
  mapped : ∀ r ∈ s.live, ∀ n, r.Spans grain n → s.pages.rights n ≠ none
  apart : s.live.Pairwise (Region.Disjoint grain)

variable {grain : Nat} {s s' s₀ : Stock} {u : Usage} {log : List Usage} {r r' : Region} {p p' : Pages} {live : List Region}
  {rt : RuntimeId} {size guard : UInt64}

theorem Sound.erase (sound : Sound grain ⟨p,live⟩) (member : r ∈ live) : ∀ r' ∈ live.erase r, r.Disjoint grain r' := by
  have apart : (r :: live.erase r).Pairwise (Region.Disjoint grain) :=
    (List.perm_cons_erase member).pairwise sound.apart (Std.Symm.symm _ _)
  exact (List.pairwise_cons.mp apart).1

theorem Sound.of_made (sound : Sound grain ⟨p,live⟩) (made : Region.Made grain size guard p r p') :
    ∀ r' ∈ live, r'.Kept grain p p' :=
  fun r' member => .of_spares (made.aside.spares made.free) (sound.mapped r' member)

theorem Sound.of_release (sound : Sound grain ⟨p,live⟩) (member : r ∈ live) {result : Except Fault Unit}
    (yields : (Region.release rt r).run.Yields (Answers grain) p result p') : ∀ r' ∈ live.erase r, r'.Kept grain p p' :=
  fun r' left => .of_aside ((sound.lies r member).release yields).1 (sound.erase member r' left)

/-- A region is only given back by its own release, and nothing else changes its rights. -/
theorem Sound.keeps (sound : s.Sound grain) (step : u.Step grain s s') (member : r ∈ s.live)
    (other : ∀ rt, u ≠ .release rt r) : r ∈ s'.live ∧ ∀ n, r.Spans grain n → s'.pages.rights n = s.pages.rights n := by
  cases step with
  | allocated yields =>
    exact ⟨List.mem_cons_of_mem _ member,(sound.of_made (Region.allocate_made yields) r member).rights⟩
  | refused yields =>
    have spares := Region.allocate_spares yields
    exact ⟨member,(Region.Kept.of_spares spares (sound.mapped r member)).rights⟩
  | @released rt r' result p p' live member' yields =>
    have ne : r ≠ r' := by
      rintro rfl
      exact other rt rfl
    have left : r ∈ live.erase r' := (List.mem_erase_of_ne ne).mpr member
    exact ⟨left,(sound.of_release member' yields r left).rights⟩
  | other elsewhere => exact ⟨member,elsewhere r member⟩

/-- Regions that are left as they are stay apart. -/
theorem Sound.rest (sound : Sound grain ⟨p,live⟩) {live' : List Region} (sub : live'.Sublist live)
    (rights : ∀ r ∈ live', ∀ n, r.Spans grain n → p'.rights n = p.rights n) : Sound grain ⟨p',live'⟩ where
  lies r member := sound.lies r (sub.subset member)
  mapped r member n span := by
    rw [rights r member n span]
    exact sound.mapped r (sub.subset member) n span
  apart := sound.apart.sublist sub

theorem Sound.made (sound : Sound grain ⟨p,live⟩) (made : Region.Made grain size guard p r p') :
    Sound grain ⟨p',r :: live⟩ := by
  have old := sound.rest (.refl _) fun r' member => (sound.of_made made r' member).rights
  refine ⟨List.forall_mem_cons.mpr ⟨made.lies,old.lies⟩,List.forall_mem_cons.mpr ⟨?_,old.mapped⟩,
    List.pairwise_cons.mpr ⟨?_,old.apart⟩⟩
  · intro n span
    by_cases low : Span grain r.start guard n
    · simp [made.closed n low]
    · simp [made.open_ n span low]
  · rintro r' member n ⟨span,span'⟩
    exact sound.mapped r' member n span' (made.free n span)

theorem Sound.step (sound : s.Sound grain) (step : u.Step grain s s') : s'.Sound grain := by
  cases step with
  | allocated yields => exact sound.made (Region.allocate_made yields)
  | refused yields =>
    have spares := Region.allocate_spares yields
    exact sound.rest (.refl _) fun r member => (Region.Kept.of_spares spares (sound.mapped r member)).rights
  | released member yields =>
    exact sound.rest List.erase_sublist fun r' left => (sound.of_release member yields r' left).rights
  | other elsewhere => exact sound.rest (.refl _) elsewhere

theorem Sound.history (sound : s₀.Sound grain) (history : History grain log s₀ s) : s.Sound grain := by
  induction history with
  | nil => exact sound
  | step _ step ih => exact (ih sound).step step

/-- Through any history a region stays as it is until it is given back. -/
theorem Sound.stays (sound : s₀.Sound grain) (history : History grain log s₀ s) (member : r ∈ s₀.live)
    (others : ∀ rt, .release rt r ∉ log) :
    r ∈ s.live ∧ ∀ n, r.Spans grain n → s.pages.rights n = s₀.pages.rights n := by
  induction history with
  | nil => exact ⟨member,fun _ _ => rfl⟩
  | @step log s s' s'' u history step ih =>
    obtain ⟨here,same⟩ := ih sound member fun rt earlier => others rt (List.mem_cons_of_mem _ earlier)
    have other (rt) : u ≠ .release rt r := by
      rintro rfl
      exact others rt List.mem_cons_self
    obtain ⟨still,kept⟩ := (sound.history history).keeps step here other
    exact ⟨still,fun n span => (kept n span).trans (same n span)⟩

end Stock

/-- A region that was made from a stock, with what comes of it. -/
structure Guarded (grain : Nat) (size guard : UInt64) (s : Stock) (r : Region) (p' : Pages) : Prop where
  width : r.usable = size
  depth : r.guard = guard
  length : r.length = .ok (size + guard)
  start : grain ∣ r.start.toNat
  shielded : r.Shielded grain p'
  fresh : ∀ n, r.Spans grain n → s.pages.rights n = none
  outside : ∀ n, ¬r.Spans grain n → p'.rights n = s.pages.rights n
  /-- Every live region keeps its rights and its bytes. -/
  others : ∀ r' ∈ s.live, r'.Kept grain s.pages p'
  /-- It stays so until it is given back. -/
  later : ∀ {log s'}, History grain log ⟨p',r :: s.live⟩ s' → (∀ rt, .release rt r ∉ log) →
    r ∈ s'.live ∧ r.Shielded grain s'.pages
  /-- Once it is given back nothing of it is mapped, and every other live region has its rights and its bytes. -/
  released : ∀ {log s' rt p''}, History grain log ⟨p',r :: s.live⟩ s' → (∀ rt, .release rt r ∉ log) →
    (Region.release rt r).run.Yields (Answers grain) s'.pages (.ok ()) p'' →
      (∀ n, r.Spans grain n → p''.rights n = none) ∧ ∀ r' ∈ s'.live.erase r, r'.Kept grain s'.pages p''

/-- Whatever was made and given back before, a guard of whole pages is closed to the byte and the stack above it is open
to the byte, whatever the size is, and both stay so whatever is made and given back later. -/
theorem History.guarded {grain : Nat} {log : List Usage} {p p' : Pages} {s : Stock} {r : Region} {rt : RuntimeId}
    {size guard : UInt64} (history : History grain log ⟨p,[]⟩ s) (positive : 0 < grain) (whole : grain ∣ guard.toNat)
    (yields : (Region.allocate rt size guard).run.Yields (Answers grain) s.pages (.ok r) p') :
    Guarded grain size guard s r p' := by
  have made := Region.allocate_made yields
  have empty : Stock.Sound grain ⟨p,[]⟩ := ⟨by simp,by simp,.nil⟩
  have before := empty.history history
  have sound : Stock.Sound grain ⟨p',r :: s.live⟩ := before.made made
  have shielded := made.shielded positive whole
  refine ⟨made.width,made.depth,?_,made.start,shielded,made.free,fun n out => made.aside.rights n out,before.of_made made,?_,?_⟩
  · rw [made.lies.length,made.width,made.depth]
  · intro log s' later others
    obtain ⟨live,same⟩ := sound.stays later (.head _) others
    exact ⟨live,shielded.keep positive made.lies same⟩
  · intro log s' rt p'' later others yields
    have live := (sound.stays later (.head _) others).1
    exact ⟨(made.lies.release yields).2 rfl,(sound.history later).of_release live yields⟩

/-- A small region without a guard, and one whose usable part is a page and a byte. The kernel makes both, and is to give
back first the one and then the other. -/
def bare : Region := ⟨0x10000000,100,0⟩

def odd : Region := ⟨0x10002000 + 0x2000,0x1001,0x2000⟩

def crowded : Kernel := (Kernel.fresh.map 100 .readWrite).2

theorem odd_guarded : ∃ k k₁ k₂ : Kernel,
    (Region.allocate ⟨0⟩ 0x1001 0x2000).run.Yields (Answers Kernel.pageBytes) (crowded.paged .zero) (.ok odd) (k.paged .zero) ∧
      History Kernel.pageBytes [.release ⟨0⟩ bare] ⟨k.paged .zero,[odd,bare]⟩ ⟨k₁.paged .zero,[odd]⟩ ∧
      odd.Shielded Kernel.pageBytes (k₁.paged .zero) ∧
      (Region.release ⟨0⟩ odd).run.Yields (Answers Kernel.pageBytes) (k₁.paged .zero) (.ok ()) (k₂.paged .zero) ∧
      ∀ n, odd.Spans Kernel.pageBytes n → k₂.rights n = none := by
  have first : Kernel.fresh.map (100 + 0) .readWrite = (.ok 0x10000000,crowded) := by rfl
  have second : crowded.map (0x1001 + 0x2000) .readWrite = (.ok 0x10002000,(crowded.map 0x3001 .readWrite).2) := by rfl
  have mapped : (Kernel.fresh.paged .zero).Answers Kernel.pageBytes (.mapper ⟨0⟩ (.map (100 + 0) .readWrite)) (.ok 0x10000000)
      (crowded.paged .zero) ∧ crowded.Tidy := Kernel.map_answers Kernel.fresh_tidy (by decide +kernel) first
  have small : (Region.allocate ⟨0⟩ 100 0).run.Yields (Answers Kernel.pageBytes) (Kernel.fresh.paged .zero) (.ok bare)
      (crowded.paged .zero) := Region.allocate_yields (by decide +kernel) mapped.1 rfl
  obtain ⟨k,large⟩ : ∃ k : Kernel, (Region.allocate ⟨0⟩ 0x1001 0x2000).run.Yields (Answers Kernel.pageBytes) (crowded.paged .zero)
      (.ok odd) (k.paged .zero) := Kernel.allocates mapped.2 (by decide +kernel) (by decide +kernel) second
  have guarded := (History.nil.step (.allocated small)).guarded (by decide) (by decide +kernel) large
  obtain ⟨k₁,released⟩ : ∃ k₁ : Kernel, (Usage.release ⟨0⟩ bare).Step Kernel.pageBytes ⟨k.paged .zero,[odd,bare]⟩
      ⟨k₁.paged .zero,[odd,bare].erase bare⟩ :=
    ⟨_,.released (by simp) (Kernel.releases (by decide +kernel) (by decide +kernel) (by decide +kernel))⟩
  rw [show [odd,bare].erase bare = [odd] by decide +kernel] at released
  have history := History.nil.step released
  have others (rt) : Usage.release rt odd ∉ [.release ⟨0⟩ bare] := by simp [odd,bare]
  obtain ⟨k₂,last⟩ : ∃ k₂ : Kernel, (Region.release ⟨0⟩ odd).run.Yields (Answers Kernel.pageBytes) (k₁.paged .zero) (.ok ())
      (k₂.paged .zero) := ⟨_,Kernel.releases (by decide +kernel) (by decide +kernel) (by decide +kernel)⟩
  exact ⟨k,k₁,k₂,large,history,(guarded.later history others).2,last,(guarded.released history others last).1⟩

end GuardedStack
