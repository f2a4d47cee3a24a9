import GuardedStack.Allocation
import GuardedStack.Kernel
import GuardedStack.Proofs.Discipline
import Mathlib.Data.List.Pairwise
import Mathlib.Order.Basic

/-! Regions over page-granular memory. A mapper deals in whole pages, while a region is exact to the byte: its guard
cannot be touched and its usable part can, whatever is made and given back beside it. -/
namespace GuardedStack

structure Pages where
  /-- By the number of the page; one that is not mapped has none. -/
  rights : Nat → Option Rights
  bytes : Memory

namespace Pages

variable {grain : Nat} {p p' p'' : Pages} {addr len guard total i : UInt64} {n : Nat}

/-- Pages of a length, where a page has `grain` bytes. -/
def count (grain : Nat) (len : UInt64) : Nat := (len.toNat + (grain - 1)) / grain

/-- The page is one of a range, whose length counts up to the end of its last page. -/
def Span (grain : Nat) (addr len : UInt64) (n : Nat) : Prop :=
  addr.toNat / grain ≤ n ∧ n < addr.toNat / grain + count grain len

/-- The rights with which a byte can be touched. -/
def rightsAt (p : Pages) (grain : Nat) (addr : UInt64) : Option Rights := p.rights (addr.toNat / grain)

/-- Nothing has changed but the pages of the range. -/
structure Aside (grain : Nat) (addr len : UInt64) (p p' : Pages) : Prop where
  rights : ∀ n, ¬Span grain addr len n → p'.rights n = p.rights n
  bytes : ∀ a : UInt64, ¬Span grain addr len (a.toNat / grain) → p'.bytes a = p.bytes a

/-- What was mapped is as before. -/
structure Spares (grain : Nat) (p p' : Pages) : Prop where
  rights : ∀ n, p.rights n ≠ none → p'.rights n = p.rights n
  bytes : ∀ a : UInt64, p.rights (a.toNat / grain) ≠ none → p'.bytes a = p.bytes a

/-- What is assumed of a mapper. A range that it maps begins with a page, does not reach beyond the last address and was
free; what it refuses to do, it may have done to some pages of the range. -/
def Answers (grain : Nat) (p : Pages) : (q : Request) → q.Reply → Pages → Prop
  | .mapper _ (.map len rights), .ok addr, p' =>
    grain ∣ addr.toNat ∧ addr.toNat + grain * count grain len ≤ UInt64.size ∧ Aside grain addr len p p' ∧
      ∀ n, Span grain addr len n → p.rights n = none ∧ p'.rights n = some rights
  | .mapper _ (.protect addr len rights), .ok (), p' =>
    Aside grain addr len p p' ∧ p'.bytes = p.bytes ∧ ∀ n, Span grain addr len n → p'.rights n = some rights
  | .mapper _ (.protect addr len _), .error _, p' => Aside grain addr len p p' ∧ p'.bytes = p.bytes
  | .mapper _ (.unmap addr len), .ok (), p' =>
    Aside grain addr len p p' ∧ ∀ n, Span grain addr len n → p'.rights n = none
  | .mapper _ (.unmap addr len), .error _, p' => Aside grain addr len p p'
  | .state (.store addr bytes), _, p' => p' = { p with bytes := p.bytes.store addr bytes }
  | _, _, p' => p' = p

theorem len_le_count (positive : 0 < grain) (len : UInt64) : len.toNat ≤ grain * count grain len := by
  have whole := Nat.div_add_mod (len.toNat + (grain - 1)) grain
  have rest := Nat.mod_lt (len.toNat + (grain - 1)) positive
  unfold count
  omega

theorem count_whole (positive : 0 < grain) (whole : grain ∣ len.toNat) : count grain len = len.toNat / grain := by
  obtain ⟨k,same⟩ := whole
  rw [count,same,Nat.mul_add_div positive,Nat.div_eq_of_lt (by omega),Nat.mul_div_cancel_left _ positive,Nat.add_zero]

theorem count_zero : count grain 0 = 0 := by
  cases grain <;> simp [count]

theorem Span.mono (le : guard.toNat ≤ total.toNat) (span : Span grain addr guard n) : Span grain addr total n := by
  have few : count grain guard ≤ count grain total := Nat.div_le_div_right (by omega)
  exact ⟨span.1,by have := span.2; omega⟩

namespace Aside

theorem refl : Aside grain addr len p p := ⟨fun _ _ => rfl,fun _ _ => rfl⟩

theorem trans (first : Aside grain addr len p p') (second : Aside grain addr len p' p'') : Aside grain addr len p p'' :=
  ⟨fun n out => (second.rights n out).trans (first.rights n out),fun a out => (second.bytes a out).trans (first.bytes a out)⟩

theorem mono (le : guard.toNat ≤ total.toNat) (aside : Aside grain addr guard p p') : Aside grain addr total p p' :=
  ⟨fun n out => aside.rights n fun span => out (span.mono le),fun a out => aside.bytes a fun span => out (span.mono le)⟩

theorem spares (aside : Aside grain addr len p p') (free : ∀ n, Span grain addr len n → p.rights n = none) :
    Spares grain p p' :=
  ⟨fun n mapped => aside.rights n fun span => mapped (free n span),
    fun a mapped => aside.bytes a fun span => mapped (free _ span)⟩

end Aside

section
variable (positive : 0 < grain) (fits : addr.toNat + grain * count grain total ≤ UInt64.size)
include positive fits

theorem toNat_byte (inside : i.toNat < total.toNat) : (addr + i).toNat = addr.toNat + i.toNat := by
  have bound := len_le_count positive total
  rw [UInt64.toNat_add]
  exact Nat.mod_eq_of_lt (by simp only [UInt64.size] at fits; omega)

variable (start : grain ∣ addr.toNat)
include start

theorem page_byte (inside : i.toNat < total.toNat) : (addr + i).toNat / grain = addr.toNat / grain + i.toNat / grain := by
  rw [toNat_byte positive fits inside]
  obtain ⟨k,same⟩ := start
  rw [same,Nat.mul_add_div positive,Nat.mul_div_cancel_left _ positive]

/-- Every byte of a range is in its pages. -/
theorem span_byte (inside : i.toNat < total.toNat) : Span grain addr total ((addr + i).toNat / grain) := by
  rw [page_byte positive fits start inside]
  have bound := len_le_count positive total
  have below : i.toNat / grain < count grain total := Nat.div_lt_of_lt_mul (Nat.lt_of_lt_of_le inside bound)
  exact ⟨Nat.le_add_right _ _,Nat.add_lt_add_left below _⟩

/-- Whole pages hold no byte beyond their end. -/
theorem not_span_byte (whole : grain ∣ guard.toNat) (beyond : guard.toNat ≤ i.toNat) (inside : i.toNat < total.toNat) :
    ¬Span grain addr guard ((addr + i).toNat / grain) := by
  rw [page_byte positive fits start inside]
  have after : guard.toNat / grain ≤ i.toNat / grain := Nat.div_le_div_right beyond
  rintro ⟨-,below⟩
  rw [count_whole positive whole] at below
  omega

end

end Pages

open Pages Program Attempt

/-- Every request is allowed; the discipline only follows the pages. -/
def paging (grain : Nat) : Discipline Pages where
  may _ _ := True
  next := Pages.Answers grain
  ends _ := True

variable {grain : Nat} {p p' : Pages} {rt : RuntimeId}

theorem paging_silent : (paging grain).Silent where
  emits _ _ := trivial
  emitted _ _ _ _ step := step
  asks _ := trivial
  asked _ _ _ step := step

namespace Region

/-- The page is one of the region's mapping. -/
def Spans (r : Region) (grain : Nat) (n : Nat) : Prop := Span grain r.start (r.usable + r.guard) n

/-- A region that was made: where it lies and what that has changed. -/
structure Made (grain : Nat) (size guard : UInt64) (p : Pages) (r : Region) (p' : Pages) : Prop where
  width : r.usable = size
  depth : r.guard = guard
  sum : size.toNat + guard.toNat < UInt64.size
  start : grain ∣ r.start.toNat
  fits : r.start.toNat + grain * count grain (r.usable + r.guard) ≤ UInt64.size
  free : ∀ n, r.Spans grain n → p.rights n = none
  closed : ∀ n, Span grain r.start guard n → p'.rights n = some .none
  open_ : ∀ n, r.Spans grain n → ¬Span grain r.start guard n → p'.rights n = some .readWrite
  aside : Aside grain r.start (r.usable + r.guard) p p'

theorem closeGuard_paging {start total guard : UInt64} (le : guard.toNat ≤ total.toNat) :
    (closeGuard rt start total guard).Follows (paging grain)
      (fun p' _ => Aside grain start guard p p' ∧ ∀ n, Span grain start guard n → p'.rights n = some .none)
      (fun p' _ => Aside grain start total p p') p := by
  refine .bind (follows_outcome (follows_ofProgram (follows_request trivial ?_)))
  rintro (cause | _) p₁ closed
  · have first : Aside grain start total p p₁ := closed.1.mono le
    refine .bind (follows_outcome (follows_ofProgram (follows_request trivial ?_)))
    rintro (leftover | _) p₂ unmapped
    · refine .bind (follows_lift (follows_trace paging_silent rfl ?_))
      exact follows_throw (first.trans unmapped)
    · exact follows_throw (first.trans unmapped.1)
  · exact follows_pure ⟨closed.1,closed.2.2⟩

theorem allocate_paging {size guard : UInt64} :
    (allocate rt size guard).Follows (paging grain) (fun p' r => Made grain size guard p r p') (fun p' _ => Spares grain p p')
      p := by
  unfold allocate
  cases sum : Checked.add size guard with
  | error _ => exact follows_throw ⟨fun _ _ => rfl,fun _ _ => rfl⟩
  | ok total =>
    obtain ⟨small,rfl⟩ := Checked.add_eq_ok_iff.mp sum
    have exact_ := Checked.toNat_of_add sum
    refine .bind (follows_ofProgram (follows_request trivial ?_))
    rintro (cause | start) p₁ mapped
    · obtain rfl : p₁ = p := mapped
      exact ⟨fun _ _ => rfl,fun _ _ => rfl⟩
    obtain ⟨aligned,fits,aside,fresh⟩ := mapped
    have place : (⟨start + guard,size,guard⟩ : Region).start = start := by simp [Region.start]
    have made {p' : Pages} (beside : Aside grain start guard p₁ p')
        (closed : ∀ n, Span grain start guard n → p'.rights n = some .none) :
        Made grain size guard p ⟨start + guard,size,guard⟩ p' := by
      refine ⟨rfl,rfl,small,?_,?_,?_,?_,?_,?_⟩
      all_goals simp only [Spans,place]
      · exact aligned
      · exact fits
      · exact fun n span => (fresh n span).1
      · exact closed
      · exact fun n span out => (beside.rights n out).trans (fresh n span).2
      · exact aside.trans (beside.mono (by omega))
    have finish {p' : Pages} (done : Made grain size guard p ⟨start + guard,size,guard⟩ p') :
        (do
          Program.trace do
            let top ← Program.checked (Checked.add (start + guard) size)
            return s!"mapped unsafe stack {hex (start + guard)}..{hex top} (guard {hex guard})"
          return ⟨start + guard,size,guard⟩ : Attempt Region).Follows (paging grain)
            (fun p' r => Made grain size guard p r p') (fun p' _ => Spares grain p p') p' := by
      refine .bind (follows_lift (follows_trace paging_silent ?_ (follows_pure done)))
      cases Checked.add (start + guard) size with
      | error _ => trivial
      | ok top => rfl
    by_cases bare : guard = 0
    · subst bare
      simp only [ne_eq,not_true_eq_false,if_false]
      refine finish (made .refl ?_)
      intro n span
      have above := span.1
      have below := span.2
      rw [count_zero] at below
      omega
    · dsimp only
      rw [if_pos bare]
      refine .bind ((closeGuard_paging (by omega)).mono ?_ ?_)
      · rintro p' ⟨⟩ ⟨beside,closed⟩
        exact finish (made beside closed)
      · intro p' cause beside
        exact (aside.trans beside).spares fun n span => (fresh n span).1

theorem allocate_made {size guard : UInt64} {r : Region}
    (yields : (allocate rt size guard).run.Yields (Pages.Answers grain) p (.ok r) p') : Made grain size guard p r p' :=
  Yields.value (d := paging grain) yields allocate_paging

theorem allocate_spares {size guard : UInt64} {cause : Fault}
    (yields : (allocate rt size guard).run.Yields (Pages.Answers grain) p (.error cause) p') : Spares grain p p' :=
  Yields.cause (d := paging grain) yields allocate_paging

theorem release_paging {r : Region} (sum : r.length = .ok (r.usable + r.guard)) :
    (release rt r).Follows (paging grain)
      (fun p' _ => Aside grain r.start (r.usable + r.guard) p p' ∧ ∀ n, r.Spans grain n → p'.rights n = none)
      (fun p' _ => Aside grain r.start (r.usable + r.guard) p p') p := by
  refine .bind (follows_lift (follows_checked sum ?_))
  refine .bind (follows_ofProgram (follows_request trivial ?_))
  rintro (cause | _) p₁ unmapped
  · exact unmapped
  · exact follows_lift (follows_trace paging_silent rfl unmapped)

/-- Where the mapper maps and protects, and nothing is traced, a region is made. -/
theorem allocate_yields {size guard start : UInt64} {p₁ p₂ : Pages} (sum : size.toNat + guard.toNat < UInt64.size)
    (mapped : p.Answers grain (.mapper rt (.map (size + guard) .readWrite)) (.ok start) p₁)
    (closed : if guard = 0 then p₂ = p₁ else p₁.Answers grain (.mapper rt (.protect start guard .none)) (.ok ()) p₂) :
    (allocate rt size guard).run.Yields (Pages.Answers grain) p (.ok ⟨start + guard,size,guard⟩) p₂ := by
  unfold allocate
  rw [Checked.add_eq_ok_iff.mpr ⟨sum,rfl⟩]
  refine .ask mapped ?_
  by_cases bare : guard = 0
  · rw [if_pos bare] at closed
    simp only [ne_eq,bare,not_true_eq_false,if_false]
    subst closed
    exact .ask (r := Verbosity.quiet) rfl .done
  · rw [if_neg bare] at closed
    have close : (closeGuard rt start (size + guard) guard).run.Yields (Pages.Answers grain) p₁ (.ok ()) p₂ := .ask closed .done
    simp only [ne_eq,bare,not_false_eq_true,if_true]
    exact close.bind (.ask (r := Verbosity.quiet) rfl .done)

theorem release_yields {r : Region} (sum : r.length = .ok (r.usable + r.guard))
    (unmapped : p.Answers grain (.mapper rt (.unmap r.start (r.usable + r.guard))) (.ok ()) p') :
    (release rt r).run.Yields (Pages.Answers grain) p (.ok ()) p' := by
  unfold release
  rw [sum]
  exact .ask unmapped (.ask (r := Verbosity.quiet) rfl .done)

end Region

/-! The kernel of a rehearsal is such a mapper, as long as it has numbers for new pages. -/

namespace Kernel

variable {k k' : Kernel} {addr len : UInt64} {rights : Rights} {memory : Memory}

def paged (k : Kernel) (memory : Memory) : Pages := ⟨k.rights,memory⟩

/-- No page has a number that is still to be given. -/
def Tidy (k : Kernel) : Prop := ∀ n, k.cursor ≤ n → k.rights n = none

theorem fresh_tidy : fresh.Tidy := fun _ _ => rfl

theorem map_eq (mapped : k.map len rights = (.ok addr,k')) : len ≠ 0 ∧ addr = .ofNat (k.cursor * pageBytes) ∧
    ∃ place made, k' = { k.add (pages len) place rights with made := made } := by
  unfold map at mapped
  by_cases empty : len = 0
  · simp [empty] at mapped
  rw [if_neg empty] at mapped
  split at mapped
  · cases mapped
  split at mapped
  · cases mapped
  next place _ =>
    cases mapped
    exact ⟨empty,rfl,place,_,rfl⟩

theorem map_answers (tidy : k.Tidy) (room : (k.cursor + pages len) * pageBytes ≤ UInt64.size)
    (mapped : k.map len rights = (.ok addr,k')) :
    (k.paged memory).Answers pageBytes (.mapper rt (.map len rights)) (.ok addr) (k'.paged memory) ∧ k'.Tidy := by
  obtain ⟨present,rfl,place,made,rfl⟩ := map_eq mapped
  have some_ : 0 < pages len := by
    have positive := Nat.pos_of_ne_zero fun zero => present (UInt64.toNat_inj.mp zero)
    have bound : len.toNat ≤ pageBytes * pages len := Pages.len_le_count (by decide) len
    apply Nat.pos_of_ne_zero
    intro zero
    rw [zero] at bound
    omega
  have start : (UInt64.ofNat (k.cursor * pageBytes)).toNat = k.cursor * pageBytes := by
    apply UInt64.toNat_ofNat_of_lt'
    simp only [pageBytes] at room ⊢
    omega
  have first : (UInt64.ofNat (k.cursor * pageBytes)).toNat / pageBytes = k.cursor := by
    rw [start,Nat.mul_div_cancel _ (by decide)]
  have within (n : Nat) : Span pageBytes (.ofNat (k.cursor * pageBytes)) len n ↔ k.cursor ≤ n ∧ n < k.cursor + pages len := by
    rw [Span,first]
    rfl
  refine ⟨⟨?_,?_,⟨?_,fun _ _ => rfl⟩,?_⟩,?_⟩
  · rw [start]
    exact Nat.dvd_mul_left _ _
  · rw [start,Nat.mul_comm,← Nat.mul_add,Nat.mul_comm]
    exact room
  · intro n out
    exact (rights_add k _ place rights n).trans (if_neg fun inside => out ((within n).mpr inside))
  · intro n span
    have inside := (within n).mp span
    exact ⟨tidy n inside.1,(rights_add k _ place rights n).trans (if_pos inside)⟩
  · intro n beyond
    have beyond : k.cursor + pages len + 1 ≤ n := beyond
    exact ((rights_add k _ place rights n).trans (if_neg (by omega))).trans (tidy n (by omega))

theorem protect_answers (done : k.protect addr len rights = (0,k')) :
    (k.paged memory).Answers pageBytes (.mapper rt (.protect addr len rights)) (.ok ()) (k'.paged memory) := by
  have start : aligned addr = true := by
    by_contra off
    rw [protect,Bool.eq_false_iff.mpr off] at done
    cases done
  have reached : k.reach rights (pageOf addr) (pageOf addr + pages len) = pageOf addr + pages len := by
    by_contra short
    have limit : k.reach rights (pageOf addr) (pageOf addr + pages len) ≤ _ := reach_le (Nat.le_add_right _ _)
    rw [protect,start] at done
    simp only [Bool.not_true,Bool.false_eq_true,if_false,if_pos (Nat.lt_of_le_of_ne limit short)] at done
    cases done
  have changed (n : Nat) := rights_protect k len rights n start
  rw [done,reached] at changed
  exact ⟨⟨fun n out => (changed n).trans (if_neg out),fun _ _ => rfl⟩,rfl,fun n span => (changed n).trans (if_pos span)⟩

theorem unmap_answers (done : k.unmap addr len = (0,k')) :
    (k.paged memory).Answers pageBytes (.mapper rt (.unmap addr len)) (.ok ()) (k'.paged memory) := by
  unfold unmap at done
  split at done
  · cases done
  · cases done
    have changed (n : Nat) := rights_setRights k (pageOf addr) (pages len) none n
    refine ⟨⟨fun n out => (changed n).trans (if_neg out),fun _ _ => rfl⟩,fun n span => ?_⟩
    exact ((changed n).trans (if_pos span)).trans (by cases k.rights n <;> rfl)

/-- The guard of a new mapping can be protected. -/
theorem protects {size guard : UInt64} (tidy : k.Tidy) (room : (k.cursor + pages (size + guard)) * pageBytes ≤ UInt64.size)
    (sum : size.toNat + guard.toNat < UInt64.size) (mapped : k.map (size + guard) .readWrite = (.ok addr,k')) :
    (k'.protect addr guard .none).1 = 0 := by
  have answers : (k.paged .zero).Answers pageBytes (.mapper ⟨0⟩ (.map (size + guard) .readWrite)) (.ok addr) (k'.paged .zero) :=
    (map_answers tidy room mapped).1
  have exact_ : (size + guard).toNat = size.toNat + guard.toNat := Checked.toNat_of_add (Checked.add_eq_ok_iff.mpr ⟨sum,rfl⟩)
  have start : aligned addr = true := decide_eq_true (Nat.mod_eq_zero_of_dvd answers.1)
  have mapped (n : Nat) (low : pageOf addr ≤ n) (high : n < pageOf addr + pages guard) : (k'.rights n).isSome := by
    have span : Span pageBytes addr guard n := ⟨low,high⟩
    have given : k'.rights n = _ := (answers.2.2.2 n (span.mono (by omega))).2
    rw [given]
    rfl
  exact protect_eq_zero k' start mapped rfl

/-- Whenever the kernel maps what is asked of it, a region is made. -/
theorem allocates {size guard : UInt64} (tidy : k.Tidy) (room : (k.cursor + pages (size + guard)) * pageBytes ≤ UInt64.size)
    (sum : size.toNat + guard.toNat < UInt64.size) (mapped : k.map (size + guard) .readWrite = (.ok addr,k')) :
    ∃ k'' : Kernel, (Region.allocate rt size guard).run.Yields (Pages.Answers pageBytes) (k.paged memory)
      (.ok ⟨addr + guard,size,guard⟩) (k''.paged memory) := by
  have answers : (k.paged memory).Answers pageBytes (.mapper rt (.map (size + guard) .readWrite)) (.ok addr) (k'.paged memory) :=
    (map_answers tidy room mapped).1
  by_cases bare : guard = 0
  · exact ⟨k',Region.allocate_yields sum answers (by rw [if_pos bare])⟩
  · refine ⟨(k'.protect addr guard .none).2,Region.allocate_yields sum answers ?_⟩
    rw [if_neg bare]
    exact protect_answers (Prod.ext (protects tidy room sum mapped) rfl)

theorem releases {r : Region} (start : aligned r.start = true) (present : r.usable + r.guard ≠ 0)
    (sum : r.usable.toNat + r.guard.toNat < UInt64.size) :
    (Region.release rt r).run.Yields (Pages.Answers pageBytes) (k.paged memory) (.ok ())
      ((k.unmap r.start (r.usable + r.guard)).2.paged memory) := by
  have done : k.unmap r.start (r.usable + r.guard) = (0,(k.unmap r.start (r.usable + r.guard)).2) := by
    simp [unmap,start,present]
  exact Region.release_yields (Checked.add_eq_ok_iff.mpr ⟨sum,rfl⟩) (unmap_answers done)

end Kernel
end GuardedStack
