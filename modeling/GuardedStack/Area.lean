import GuardedStack.Rights
import GuardedStack.Room

/-! Runs of mapped pages that the kernel keeps as one. A run is split where a part of it gets other rights, and
neighbours that have become alike are joined again. The rights of a page are found in the first area that holds
it, and neither splitting nor joining shows there beyond the range that is changed. -/
namespace GuardedStack

/-- A run of mapped pages with the same rights. -/
structure Area where
  first : Nat
  count : Nat
  /-- Where the first page lies in the process. -/
  place : Nat
  rights : Rights
  /-- A page of the area has been written. -/
  written : Bool
  deriving DecidableEq, Repr

namespace Area

/-- The page behind the last one. -/
def stop (a : Area) : Nat := a.first + a.count

/-- The places of the pages. -/
def extent (a : Area) : Extent := ⟨a.place,a.count⟩

def holds (a : Area) (page : Nat) : Bool := a.first ≤ page ∧ page < a.stop

/-- The rights that the area gives a page. -/
def rightsOf (a : Area) (page : Nat) : Option Rights := if a.holds page then some a.rights else none

/-- Memory is promised for the pages: they may be written, or one of them has been. -/
def promised (a : Area) : Bool := a.rights.write || a.written

/-- The pages of the area from `start` up to `stop`, with the given rights. -/
def part (a : Area) (start stop : Nat) (rights : Rights) : Area :=
  let first := max a.first start
  ⟨first,min a.stop stop - first,a.place + (first - a.first),rights,a.written⟩

/-- The parts before, inside and behind a range of pages that get other rights or none at all. -/
def split (a : Area) (first count : Nat) (rights : Option Rights) : List Area :=
  a.part 0 first a.rights :: ((rights.map (a.part first (first + count))).toList ++
    [a.part (first + count) a.stop a.rights])

/-- The second area goes on where the first one ends. -/
def joins (a b : Area) : Bool :=
  a.stop = b.first ∧ a.place + a.count = b.place ∧ a.rights = b.rights ∧ a.promised = b.promised

def join (a b : Area) : Area := ⟨a.first,a.count + b.count,a.place,a.rights,a.written || b.written⟩

/-- Joins the neighbours in a list. -/
def coalesce : List Area → List Area
  | [] => []
  | a :: rest =>
    match coalesce rest with
    | [] => [a]
    | b :: others => if a.joins b then a.join b :: others else a :: b :: others

theorem holds_iff (a : Area) (page : Nat) : a.holds page = true ↔ a.first ≤ page ∧ page < a.stop :=
  decide_eq_true_iff

theorem rightsOf_part (a : Area) (start stop page : Nat) (rights : Rights) :
    (a.part start stop rights).rightsOf page =
      if start ≤ page ∧ page < stop then (a.rightsOf page).map fun _ => rights else none := by
  have holds : (a.part start stop rights).holds page = true ↔
      (start ≤ page ∧ page < stop) ∧ a.holds page = true := by
    rw [holds_iff,holds_iff]
    simp only [part,Area.stop]
    omega
  unfold rightsOf
  by_cases inside : start ≤ page ∧ page < stop
  · by_cases held : a.holds page = true
    · rw [if_pos (holds.mpr ⟨inside,held⟩),if_pos inside,if_pos held]
      rfl
    · rw [if_neg fun h => held (holds.mp h).2,if_pos inside,if_neg held]
      rfl
  · rw [if_neg fun h => inside (holds.mp h).1,if_neg inside]

/-- Splitting changes the rights inside the range only. -/
theorem rightsOf_split (a : Area) (first count page : Nat) (rights : Option Rights) :
    (a.split first count rights).findSome? (·.rightsOf page) =
      if first ≤ page ∧ page < first + count then (a.rightsOf page).bind fun _ => rights else a.rightsOf page := by
  have held (value : Rights) (found : a.rightsOf page = some value) :
      a.first ≤ page ∧ page < a.stop ∧ value = a.rights := by
    unfold rightsOf at found
    split at found
    · rename_i holds
      have := (a.holds_iff page).mp holds
      exact ⟨this.1,this.2,(Option.some.inj found).symm⟩
    · cases found
  cases found : a.rightsOf page with
  | none => cases rights <;> simp [split,rightsOf_part,found]
  | some value =>
    obtain ⟨above,below,rfl⟩ := held value found
    by_cases inside : first ≤ page ∧ page < first + count
    · have before : ¬(0 ≤ page ∧ page < first) := by omega
      have behind : ¬(first + count ≤ page ∧ page < a.stop) := by omega
      cases rights <;> simp only [split,List.findSome?_cons,Option.map_none,Option.map_some,Option.toList_none,
        Option.toList_some,List.nil_append,List.cons_append,List.findSome?_nil,rightsOf_part,found,
        if_neg before,if_neg behind,if_pos inside,Option.bind_some]
    · rw [if_neg inside]
      by_cases before : page < first
      · simp only [split,List.findSome?_cons,rightsOf_part,found,
          if_pos (show 0 ≤ page ∧ page < first from ⟨Nat.zero_le page,before⟩),Option.map_some]
      · have before : ¬(0 ≤ page ∧ page < first) := by omega
        have behind : first + count ≤ page ∧ page < a.stop := by omega
        cases rights <;> simp only [split,List.findSome?_cons,Option.map_none,Option.map_some,
          Option.toList_none,Option.toList_some,List.nil_append,List.cons_append,rightsOf_part,found,
          if_neg before,if_pos behind,if_neg inside]

/-- The area that joins two gives each page what one of them gave it. -/
theorem rightsOf_join {a b : Area} (joins : a.joins b = true) (page : Nat) :
    (a.join b).rightsOf page = (a.rightsOf page).or (b.rightsOf page) := by
  obtain ⟨next,_,same,_⟩ := of_decide_eq_true joins
  have holds : (a.join b).holds page = true ↔ a.holds page = true ∨ b.holds page = true := by
    rw [holds_iff,holds_iff,holds_iff]
    simp only [join,Area.stop] at next ⊢
    omega
  unfold rightsOf
  by_cases left : a.holds page = true
  · rw [if_pos (holds.mpr (.inl left)),if_pos left]
    rfl
  · by_cases right : b.holds page = true
    · rw [if_pos (holds.mpr (.inr right)),if_neg left,if_pos right]
      exact congrArg some same
    · rw [if_neg fun h => (holds.mp h).elim left right,if_neg left,if_neg right]
      rfl

/-- Joining does not show in the rights of a page. -/
theorem rightsOf_coalesce (areas : List Area) (page : Nat) :
    (coalesce areas).findSome? (·.rightsOf page) = areas.findSome? (·.rightsOf page) := by
  induction areas with
  | nil => rfl
  | cons a rest ih =>
    rw [List.findSome?_cons,← ih,coalesce]
    cases coalesce rest with
    | nil => rfl
    | cons b others =>
      by_cases joins : a.joins b = true
      · simp only [if_pos joins,List.findSome?_cons,rightsOf_join joins]
        cases a.rightsOf page <;> rfl
      · simp only [if_neg joins,List.findSome?_cons]

end Area
end GuardedStack
