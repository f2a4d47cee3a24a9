import GuardedStack.Area
import GuardedStack.Memory
import GuardedStack.Request

/-! The kernel's page memory. Rights belong to whole pages, and a length counts up to the end of its last page.
Pages are numbered, and addresses follow the numbers: every mapping gets pages with fresh numbers and a free
page behind them, so that an address never means two things. Where a page lies in the process is kept apart
from its number, and is free for others once the page is unmapped. Rights are changed area by area from the low
pages up, and a change that gets stuck has been made up to there. -/
namespace GuardedStack

structure Kernel where
  /-- The mapped pages. Those of one mapping stand in order. -/
  areas : List Area
  /-- The first page that was never mapped. -/
  cursor : Nat
  /-- The start and the length of every mapping ever made, oldest first. -/
  made : List (UInt64 × UInt64)
  /-- The page size that the system reports. -/
  reported : Int

namespace Kernel

/-- Bytes of a page. -/
def pageBytes : Nat := 4096

/-- Pages that memory is promised for at once. -/
def writableLimit : Nat := 0x7d0000

def fresh : Kernel := ⟨[],0x10000,[],4096⟩

/-- The rights of a page; an unmapped page has none. -/
def rights (k : Kernel) (page : Nat) : Option Rights := k.areas.findSome? (·.rightsOf page)

/-- Pages of a length. -/
def pages (len : UInt64) : Nat := (len.toNat + (pageBytes - 1)) / pageBytes

def pageOf (addr : UInt64) : Nat := addr.toNat / pageBytes

def aligned (addr : UInt64) : Bool := addr.toNat % pageBytes = 0

/-- The area of a page. -/
def area? (k : Kernel) (page : Nat) : Option Area := k.areas.find? (·.holds page)

theorem rights_eq (k : Kernel) (page : Nat) : k.rights page = (k.area? page).map (·.rights) := by
  unfold rights area?
  induction k.areas with
  | nil => rfl
  | cons a rest ih =>
    rw [List.findSome?_cons,List.find?_cons,ih,Area.rightsOf]
    cases a.holds page <;> rfl

theorem holds_of_area? {k : Kernel} {page : Nat} {a : Area} (found : k.area? page = some a) :
    a.first ≤ page ∧ page < a.stop := by
  have holds := List.find?_some found
  exact (a.holds_iff page).mp holds

/-- Every page between the first and the last of an area is mapped. -/
theorem isSome_rights_of_area? {k : Kernel} {start page : Nat} {a : Area} (found : k.area? start = some a)
    (above : start ≤ page) (below : page < a.stop) : (k.rights page).isSome := by
  have first := (holds_of_area? found).1
  rw [rights_eq,Option.isSome_map,area?,List.find?_isSome]
  exact ⟨a,List.mem_of_find?_eq_some found,(a.holds_iff page).mpr ⟨by omega,below⟩⟩

/-- Gives the mapped ones of `count` pages from `first` on other rights, or unmaps them. -/
def setRights (k : Kernel) (first count : Nat) (rights : Option Rights) : Kernel :=
  { k with areas := Area.coalesce ((k.areas.flatMap (·.split first count rights)).filter (0 < ·.count)) }

/-- An area without pages gives no rights. -/
theorem findSome?_filter_count (areas : List Area) (page : Nat) :
    (areas.filter (0 < ·.count)).findSome? (·.rightsOf page) = areas.findSome? (·.rightsOf page) := by
  induction areas with
  | nil => rfl
  | cons a rest ih =>
    rw [List.filter_cons]
    by_cases inhabited : 0 < a.count
    · rw [if_pos (decide_eq_true inhabited),List.findSome?_cons,List.findSome?_cons,ih]
    · have nothing : a.rightsOf page = none := if_neg fun holds => by
        have := (a.holds_iff page).mp holds
        unfold Area.stop at this
        omega
      rw [if_neg (fun h => inhabited (decide_eq_true_iff.mp h)),List.findSome?_cons,nothing,ih]

theorem rights_setRights (k : Kernel) (first count : Nat) (rights : Option Rights) (page : Nat) :
    (k.setRights first count rights).rights page =
      if first ≤ page ∧ page < first + count then (k.rights page).bind fun _ => rights else k.rights page := by
  simp only [setRights,Kernel.rights,Area.rightsOf_coalesce,findSome?_filter_count]
  induction k.areas with
  | nil => simp
  | cons a rest ih =>
    rw [List.flatMap_cons,List.findSome?_append,a.rightsOf_split,ih,List.findSome?_cons]
    by_cases inside : first ≤ page ∧ page < first + count
    · rw [if_pos inside,if_pos inside,if_pos inside]
      cases a.rightsOf page with
      | none => rfl
      | some value =>
        cases rights with
        | none => cases rest.findSome? (·.rightsOf page) <;> rfl
        | some rights => rfl
    · rw [if_neg inside,if_neg inside,if_neg inside]
      cases a.rightsOf page <;> rfl

/-- More writable pages than memory is promised for at once. -/
def exceeds (rights : Rights) (count : Nat) : Bool := rights.write && writableLimit < count

theorem exceeds_eq_false_of_le {rights : Rights} {count more : Nat} (le : count ≤ more)
    (few : exceeds rights more = false) : exceeds rights count = false := by
  simp only [exceeds,Bool.and_eq_false_iff,decide_eq_false_iff_not] at few ⊢
  exact few.imp_right fun small => by omega

/-- How far the pages from `page` up to `stop` can be given the rights: up to the first one that is not mapped,
or to an area that would need a promise for too many of them. -/
def reach (k : Kernel) (rights : Rights) (page stop : Nat) : Nat :=
  match _ : k.area? page with
  | none => page
  | some a =>
    if !a.promised && exceeds rights (min a.stop stop - page) then page
    else if a.stop < stop then k.reach rights a.stop stop
    else stop
termination_by stop - page
decreasing_by
  have := holds_of_area? ‹k.area? page = some a›
  omega

theorem reach_le {k : Kernel} {rights : Rights} {start stop : Nat} (order : start ≤ stop) :
    k.reach rights start stop ≤ stop := by
  fun_induction k.reach rights start stop with
  | case1 => exact order
  | case2 => exact order
  | case3 start a found allowed more ih => exact ih (Nat.le_of_lt more)
  | case4 => exact Nat.le_refl stop

/-- The pages up to the one that is reached are mapped. -/
theorem isSome_rights_of_lt_reach {k : Kernel} {rights : Rights} {start stop page : Nat} (order : start ≤ stop)
    (above : start ≤ page) (below : page < k.reach rights start stop) : (k.rights page).isSome := by
  fun_induction k.reach rights start stop with
  | case1 => omega
  | case2 => omega
  | case3 start a found allowed more ih =>
    by_cases here : page < a.stop
    · exact isSome_rights_of_area? found above here
    · exact ih (Nat.le_of_lt more) (by omega) below
  | case4 start a found allowed last => exact isSome_rights_of_area? found above (by omega)

/-- Mapped pages are all reached if they do not become writable or are not too many. -/
theorem reach_eq_stop {k : Kernel} {rights : Rights} {start stop : Nat} (order : start ≤ stop)
    (mapped : ∀ page, start ≤ page → page < stop → (k.rights page).isSome)
    (few : exceeds rights (stop - start) = false) : k.reach rights start stop = stop := by
  fun_induction k.reach rights start stop with
  | case1 start missing =>
    by_cases empty : start = stop
    · exact empty
    · have first := mapped start (Nat.le_refl start) (by omega)
      rw [rights_eq,missing] at first
      cases first
  | case2 start a found refused =>
    rw [exceeds_eq_false_of_le (by omega) few,Bool.and_false] at refused
    cases refused
  | case3 start a found allowed more ih =>
    have inside := holds_of_area? found
    exact ih (Nat.le_of_lt more) (fun page above below => mapped page (by omega) below)
      (exceeds_eq_false_of_le (by omega) few)
  | case4 => rfl

/-- A page size that is no size is taken to be 4096. -/
def pageSize (k : Kernel) : UInt64 :=
  if k.reported ≤ 0 then UInt64.ofNat pageBytes else UInt64.ofNat k.reported.toNat

/-- Maps `count` pages that lie at the given place. -/
def add (k : Kernel) (count place : Nat) (rights : Rights) : Kernel :=
  { k with areas := ⟨k.cursor,count,place,rights,false⟩ :: k.areas, cursor := k.cursor + count + 1 }

theorem rights_add (k : Kernel) (count place : Nat) (rights : Rights) (page : Nat) :
    (k.add count place rights).rights page =
      if k.cursor ≤ page ∧ page < k.cursor + count then some rights else k.rights page := by
  have holds : Area.holds ⟨k.cursor,count,place,rights,false⟩ page = true ↔
      k.cursor ≤ page ∧ page < k.cursor + count := Area.holds_iff _ _
  unfold add Kernel.rights
  rw [List.findSome?_cons,Area.rightsOf]
  by_cases inside : k.cursor ≤ page ∧ page < k.cursor + count
  · rw [if_pos (holds.mpr inside),if_pos inside]
  · rw [if_neg fun h => inside (holds.mp h),if_neg inside]

def map (k : Kernel) (len : UInt64) (rights : Rights) : Except Int32 UInt64 × Kernel :=
  if len = 0 then (.error 22,k)
  else if exceeds rights (pages len) then (.error 12,k)
  else match Room.place? (k.areas.map Area.extent) (pages len) with
    | none => (.error 12,k)
    | some place =>
      let addr := UInt64.ofNat (k.cursor * pageBytes)
      (.ok addr,{ k.add (pages len) place rights with made := k.made ++ [(addr,len)] })

/-- Gives the pages of a range other rights, as far as that is possible. -/
def protect (k : Kernel) (addr len : UInt64) (rights : Rights) : Int32 × Kernel :=
  if !aligned addr then (22,k)
  else
    let first := pageOf addr
    let stop := first + pages len
    let reached := k.reach rights first stop
    (if reached < stop then 12 else 0,k.setRights first (reached - first) (some rights))

/-- The pages up to the one that is reached have the rights then, and no other page has changed. -/
theorem rights_protect (k : Kernel) {addr : UInt64} (len : UInt64) (rights : Rights) (page : Nat)
    (start : aligned addr = true) :
    (k.protect addr len rights).2.rights page =
      if pageOf addr ≤ page ∧ page < k.reach rights (pageOf addr) (pageOf addr + pages len) then some rights
      else k.rights page := by
  simp only [protect,start,Bool.not_true,Bool.false_eq_true,if_false,rights_setRights]
  by_cases inside : pageOf addr ≤ page ∧ page < k.reach rights (pageOf addr) (pageOf addr + pages len)
  · have mapped := isSome_rights_of_lt_reach (Nat.le_add_right _ _) inside.1 inside.2
    rw [if_pos (by omega),if_pos inside]
    obtain ⟨old,found⟩ := Option.isSome_iff_exists.mp mapped
    rw [found]
    rfl
  · rw [if_neg (by omega),if_neg inside]

/-- A range of mapped pages gets rights that do not ask for too much memory. -/
theorem protect_eq_zero (k : Kernel) {addr len : UInt64} {rights : Rights} (start : aligned addr = true)
    (mapped : ∀ page, pageOf addr ≤ page → page < pageOf addr + pages len → (k.rights page).isSome)
    (few : exceeds rights (pages len) = false) : (k.protect addr len rights).1 = 0 := by
  have reached := reach_eq_stop (Nat.le_add_right _ _) mapped (by rw [Nat.add_sub_cancel_left]; exact few)
  simp only [protect,start,Bool.not_true,Bool.false_eq_true,if_false,reached,Nat.lt_irrefl]

def unmap (k : Kernel) (addr len : UInt64) : Int32 × Kernel :=
  if !aligned addr ∨ len = 0 then (22,k)
  else (0,k.setRights (pageOf addr) (pages len) none)

/-- The rights with which a byte can be touched. -/
def rightsAt (k : Kernel) (addr : UInt64) : Rights := (k.rights (pageOf addr)).getD .none

/-- Writes a byte, if that is allowed. -/
def write (k : Kernel) (addr : UInt64) : Kernel :=
  let touch (a : Area) : Area := if a.holds (pageOf addr) && a.rights.write then { a with written := true } else a
  { k with areas := k.areas.map touch }

/-- The mapping that an address belongs to, with the offset in it. One past the last page still belongs to it,
because the page behind a mapping is free. -/
def locate (k : Kernel) (addr : UInt64) : Option (Nat × UInt64) :=
  let belongs : UInt64 × UInt64 → Bool := fun (start,len) =>
    start ≤ addr ∧ (addr - start).toNat ≤ pages len * pageBytes
  (k.made.findIdx? belongs).bind fun i => k.made[i]?.map fun (start,_) => (i,addr - start)

end Kernel
end GuardedStack
