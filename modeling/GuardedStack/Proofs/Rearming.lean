import GuardedStack.Cleanup

/-! How long a cleanup key is driven. From any value on, the passes count upwards one at a time until the ceiling, and the
pass that finds the ceiling, or a value beyond it, is the one that releases and the last. -/
namespace GuardedStack.Cleanup

/-- What a pass stores in the key, which it has emptied. -/
def Action.stores : Action → UInt64
  | .rearm next => next
  | .release => 0

/-- A pass over a key, with the value that it finds and what it does. -/
structure Pass where
  found : UInt64
  action : Action
  deriving DecidableEq, Repr

/-- The passes over a key that holds `value`, as far as the budget goes, and what the key holds after them. -/
def passes (ceiling : UInt64) : (budget : Nat) → (value : UInt64) → Checked (List Pass × UInt64)
  | 0, value => .ok ([],value)
  | budget + 1, value =>
    if value = 0 then .ok ([],0) else do
      let made ← action value ceiling
      let (later,left) ← passes ceiling budget made.stores
      return (⟨value,made⟩ :: later,left)

/-- How many passes there are where the budget allows them. -/
def span (value ceiling : UInt64) : Nat := max 1 (ceiling.toNat + 1 - value.toNat)

/-- The passes that are made from `value` on, and what they leave. -/
structure Schedule (value ceiling : UInt64) (budget : Nat) (made : List Pass) (left : UInt64) : Prop where
  count : made.length = min budget (span value ceiling)
  found : ∀ i (inside : i < made.length), made[i].found.toNat = value.toNat + i
  rearms : ∀ p ∈ made, ∀ next, p.action = .rearm next → next ≠ 0 ∧ next ≤ ceiling
  releases : ∀ i (inside : i < made.length), made[i].action = .release ↔ i + 1 = span value ceiling
  once : (made.map Pass.action).count .release = if span value ceiling ≤ budget then 1 else 0
  left : left.toNat = if span value ceiling ≤ budget then 0 else value.toNat + budget

/-- Nothing is driven without a value. -/
theorem passes_zero (ceiling : UInt64) (budget : Nat) : passes ceiling budget 0 = .ok ([],0) := by
  cases budget with
  | zero => rfl
  | succ budget => rfl

/-- The actions alone are those of the drive. -/
theorem drive_eq_passes (ceiling : UInt64) (budget : Nat) (value : UInt64) :
    drive ceiling budget value = (passes ceiling budget value).map fun made => made.1.map Pass.action := by
  induction budget generalizing value with
  | zero => rfl
  | succ budget ih =>
    by_cases empty : value = 0
    · simp [drive,passes,empty,Except.map]
    · simp only [drive,passes,if_neg empty,bind,Except.bind]
      cases action value ceiling with
      | error overflow => rfl
      | ok made =>
        cases made with
        | rearm next =>
          simp only [ih,Action.stores]
          cases passes ceiling budget next <;> rfl
        | release =>
          simp only [ih,Action.stores]
          cases passes ceiling budget 0 <;> rfl

section
variable {value ceiling left : UInt64} {budget : Nat} {made : List Pass}

theorem span_pos (value ceiling : UInt64) : 1 ≤ span value ceiling := Nat.le_max_left _ _

/-- Below a ceiling there is room for the next value. -/
theorem toNat_succ (below : value < ceiling) : (value + 1).toNat = value.toNat + 1 := by
  have order := UInt64.lt_iff_toNat_lt.mp below
  have bound := ceiling.toNat_lt
  rw [UInt64.toNat_add,UInt64.toNat_one]
  omega

/-- The next value is made only where it fits. -/
theorem action_eq (value ceiling : UInt64) :
    action value ceiling = .ok (if value < ceiling then .rearm (value + 1) else .release) := by
  unfold action
  split
  next below =>
    have order := UInt64.lt_iff_toNat_lt.mp below
    have bound := ceiling.toNat_lt
    have fits : Checked.add value 1 = .ok (value + 1) := by
      apply Checked.add_eq_ok_iff.mpr
      refine ⟨?_,rfl⟩
      simp only [UInt64.toNat_one,UInt64.size]
      omega
    rw [fits]
    rfl
  next => rfl

theorem span_of_lt (below : value < ceiling) : span value ceiling = span (value + 1) ceiling + 1 := by
  have order := UInt64.lt_iff_toNat_lt.mp below
  unfold span
  rw [toNat_succ below]
  omega

theorem span_of_le (reached : ceiling ≤ value) : span value ceiling = 1 := by
  have order := UInt64.le_iff_toNat_le.mp reached
  unfold span
  omega

namespace Schedule

/-- Without a budget the key keeps its value. -/
theorem none (value ceiling : UInt64) : Schedule value ceiling 0 [] value := by
  have positive := span_pos value ceiling
  constructor
  · simp
  · simp
  · simp
  · simp
  · rw [if_neg (by omega)]
    rfl
  · rw [if_neg (by omega)]
    rfl

/-- A pass that releases is the only one. -/
theorem release (reached : ceiling ≤ value) : Schedule value ceiling (budget + 1) [⟨value,.release⟩] 0 := by
  have single := span_of_le reached
  constructor
  · simp [single]
  · simp
  · simp
  · simp [single]
  · simp [single]
  · simp [single]

/-- A pass that sets the value again comes before those that are driven from the next value on. -/
theorem rearm (below : value < ceiling) (later : Schedule (value + 1) ceiling budget made left) :
    Schedule value ceiling (budget + 1) (⟨value,.rearm (value + 1)⟩ :: made) left := by
  have longer := span_of_lt below
  have next := toNat_succ below
  have order := UInt64.lt_iff_toNat_lt.mp below
  constructor
  · rw [List.length_cons,later.count]
    omega
  · intro i inside
    cases i with
    | zero => rfl
    | succ i =>
      have found := later.found i (Nat.lt_of_succ_lt_succ inside)
      rw [List.getElem_cons_succ,found]
      omega
  · intro p member again rearmed
    rcases List.mem_cons.mp member with rfl | member
    · cases rearmed
      refine ⟨?_,UInt64.le_iff_toNat_le.mpr (by omega)⟩
      intro zero
      rw [zero,UInt64.toNat_zero] at next
      omega
    · exact later.rearms p member again rearmed
  · intro i inside
    cases i with
    | zero =>
      have positive := span_pos (value + 1) ceiling
      simp
      omega
    | succ i =>
      have releases := later.releases i (Nat.lt_of_succ_lt_succ inside)
      rw [List.getElem_cons_succ,releases]
      omega
  · rw [List.map_cons,List.count_cons_of_ne (by simp),later.once,longer]
    simp only [Nat.add_le_add_iff_right]
  · rw [later.left,longer,next]
    simp only [Nat.add_le_add_iff_right]
    split <;> omega

end Schedule

/-- A key with a value is driven by its schedule, and nothing overflows. -/
theorem passes_schedule (ceiling : UInt64) (budget : Nat) (armed : value ≠ 0) :
    ∃ made left, passes ceiling budget value = .ok (made,left) ∧ Schedule value ceiling budget made left := by
  induction budget generalizing value with
  | zero => exact ⟨[],value,rfl,.none value ceiling⟩
  | succ budget ih =>
    rw [passes,if_neg armed]
    by_cases below : value < ceiling
    · have order := UInt64.lt_iff_toNat_lt.mp below
      have next : value + 1 ≠ 0 := by
        intro zero
        have next := toNat_succ below
        rw [zero,UInt64.toNat_zero] at next
        omega
      obtain ⟨made,left,driven,schedule⟩ := ih next
      refine ⟨_,_,?_,schedule.rearm below⟩
      rw [action_eq,if_pos below]
      simp only [bind,Except.bind,Action.stores,driven]
      rfl
    · have reached := UInt64.not_lt.mp below
      refine ⟨_,_,?_,.release reached⟩
      rw [action_eq,if_neg below]
      simp only [bind,Except.bind,Action.stores,passes_zero]
      rfl

end

/-- From every value the passes count up to the ceiling, where one of them releases and ends the driving. From the value with
which a thread starts it is the pass whose number is the ceiling. -/
theorem driving_ends : (∀ value ceiling budget, value ≠ 0 → ∃ made left, passes ceiling budget value = .ok (made,left) ∧
      drive ceiling budget value = .ok (made.map Pass.action) ∧ Schedule value ceiling budget made left) ∧
    ∀ ceiling budget, 1 ≤ ceiling → ∃ made left, passes ceiling budget armed = .ok (made,left) ∧
      made.length = min budget ceiling.toNat ∧
      ∀ i (inside : i < made.length), made[i].action = .release ↔ i + 1 = ceiling.toNat := by
  constructor
  · intro value ceiling budget set_
    obtain ⟨made,left,driven,schedule⟩ := passes_schedule ceiling budget set_
    refine ⟨made,left,driven,?_,schedule⟩
    rw [drive_eq_passes,driven]
    rfl
  · intro ceiling budget positive
    have one := UInt64.le_iff_toNat_le.mp positive
    obtain ⟨made,left,driven,schedule⟩ := passes_schedule ceiling budget (show armed ≠ 0 by decide)
    have whole : span armed ceiling = ceiling.toNat := by
      rw [UInt64.toNat_one] at one
      simp only [span,armed,UInt64.toNat_one]
      omega
    have count := schedule.count
    have releases := schedule.releases
    rw [whole] at count releases
    exact ⟨made,left,driven,count,releases⟩

/-- At the end of the range there is one more value, and none after it. -/
theorem driving_ends_at_limit : (0xFFFFFFFFFFFFFFFE : UInt64) ≠ 0 ∧
    Schedule 0xFFFFFFFFFFFFFFFE 0xFFFFFFFFFFFFFFFF 5
      [⟨0xFFFFFFFFFFFFFFFE,.rearm 0xFFFFFFFFFFFFFFFF⟩,⟨0xFFFFFFFFFFFFFFFF,.release⟩] 0 := by
  have set_ : (0xFFFFFFFFFFFFFFFE : UInt64) ≠ 0 := by decide
  obtain ⟨made,left,driven,-,schedule⟩ := driving_ends.1 0xFFFFFFFFFFFFFFFE 0xFFFFFFFFFFFFFFFF 5 set_
  have shown : passes 0xFFFFFFFFFFFFFFFF 5 0xFFFFFFFFFFFFFFFE =
      .ok ([⟨0xFFFFFFFFFFFFFFFE,.rearm 0xFFFFFFFFFFFFFFFF⟩,⟨0xFFFFFFFFFFFFFFFF,.release⟩],0) := rfl
  rw [shown] at driven
  cases driven
  exact ⟨set_,schedule⟩

end GuardedStack.Cleanup
