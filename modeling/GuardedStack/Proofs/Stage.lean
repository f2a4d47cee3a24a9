import GuardedStack.Proofs.Custody

/-! The course of a thread that started from a record: its region is installed, its key is armed, and at its exit the
key counts the rounds until the last one takes the region. -/
namespace GuardedStack

/-- A part in a thread's course that is still to be played. -/
def Role.Acting : Role → Prop
  | arriving _ | arming | passing _ => True
  | plain | asking _ | starting _ _ | started _ | settled => False

theorem Role.Acting.base {r : Role} (acting : r.Acting) : r.Base := by
  cases r <;> trivial

/-- Where a thread with the region of `h` is in its course; `acting` tells which operations act a part, and `late`
whether the last round's destructor was called. -/
inductive Stage (h : Holding) (key : Key) (life : Life) (acting : Nat → Role → Prop) (late : Prop)
    (stack : Option Holding) (value : UInt64) : Prop
  | arriving {n : Nat} : life = .alive → (∀ k r, acting k r ↔ k = n ∧ r = .arriving h) → ¬late → stack = none →
      value = 0 → Stage h key life acting late stack value
  | arming {n : Nat} : life = .alive → (∀ k r, acting k r ↔ k = n ∧ r = .arming) → ¬late → stack = some h →
      value = 0 → Stage h key life acting late stack value
  | steady : life = .alive → (∀ k r, ¬acting k r) → ¬late → stack = some h → value = armed →
      Stage h key life acting late stack value
  /-- In round `i`, which has yet to call the destructor. -/
  | due {i : Nat} {todo : List Key} : life = .exiting i todo → (∀ k r, ¬acting k r) → ¬late → key ∈ todo →
      todo.Nodup → 1 ≤ i → i ≤ destructorRounds.toNat → stack = some h → value = .ofNat i →
      Stage h key life acting late stack value
  | passing {i n : Nat} {todo : List Key} : life = .exiting i todo →
      (∀ k r, acting k r ↔ k = n ∧ r = .passing (.ofNat i)) → (late ↔ i = destructorRounds.toNat) → key ∉ todo →
      1 ≤ i → i ≤ destructorRounds.toNat → stack = some h → value = 0 → Stage h key life acting late stack value
  | between {i : Nat} {todo : List Key} : life = .exiting i todo → (∀ k r, ¬acting k r) → ¬late → key ∉ todo →
      i < destructorRounds.toNat → stack = some h → value = .ofNat (i + 1) → Stage h key life acting late stack value
  | spent {i : Nat} {todo : List Key} : life = .exiting i todo → (∀ k r, ¬acting k r) → late →
      destructorRounds.toNat ≤ i → stack = none → value = 0 → Stage h key life acting late stack value

namespace Stage

variable {h : Holding} {key : Key} {life : Life} {acting acting' : Nat → Role → Prop} {late late' : Prop}
  {stack : Option Holding} {value : UInt64}

theorem ofNat_toNat {i : Nat} (small : i ≤ destructorRounds.toNat) : (UInt64.ofNat i).toNat = i := by
  refine UInt64.toNat_ofNat_of_lt' (Nat.lt_of_le_of_lt small ?_)
  decide

theorem ofNat_ne_zero {i : Nat} (positive : 1 ≤ i) (small : i ≤ destructorRounds.toNat) : UInt64.ofNat i ≠ 0 := by
  intro zero
  have exact_ := ofNat_toNat small
  rw [zero] at exact_
  simp at exact_
  omega

theorem congr (stage : Stage h key life acting late stack value) (same : ∀ k r, acting' k r ↔ acting k r) :
    Stage h key life acting' late stack value := by
  have parts : acting' = acting := by
    funext k r
    exact propext (same k r)
  rwa [parts]

/-- The first frame installs the region. -/
theorem settle (stage : Stage h key life acting late stack value) {n : Nat} {h' : Holding}
    (acts : acting n (.arriving h')) (now : ∀ k r, acting' k r ↔ k ≠ n ∧ acting k r ∨ k = n ∧ r = .arming) :
    h' = h ∧ Stage h key life acting' late (some h) value := by
  cases stage with
  | @arriving m alive only early bare zero =>
    obtain ⟨rfl,same⟩ := (only _ _).mp acts
    cases same
    refine ⟨rfl,.arming (n := n) alive ?_ early rfl zero⟩
    intro k r
    rw [now,only]
    by_cases mine : k = n <;> simp [mine]
  | arming alive only => cases ((only _ _).mp acts).2
  | passing exiting only => cases ((only _ _).mp acts).2
  | steady _ none | due _ none | between _ none | spent _ none => exact absurd acts (none _ _)

/-- The first frame arms the key. -/
theorem arm (stage : Stage h key life acting late stack value) {n : Nat} (acts : acting n .arming)
    (now : ∀ k r, acting' k r ↔ k ≠ n ∧ acting k r) : Stage h key life acting' late stack armed := by
  cases stage with
  | arming alive only early installed zero =>
    refine .steady alive ?_ early installed rfl
    intro k r
    rw [now,only]
    have mine := ((only _ _).mp acts).1
    rintro ⟨other,same,-⟩
    exact other (same.trans mine.symm)
  | arriving alive only => cases ((only _ _).mp acts).2
  | passing exiting only => cases ((only _ _).mp acts).2
  | steady _ none | due _ none | between _ none | spent _ none => exact absurd acts (none _ _)

/-- The destructor counts an early round. -/
theorem rearm (stage : Stage h key life acting late stack value) {n : Nat} {pass : UInt64} (acts : acting n (.passing pass))
    (early : pass < destructorRounds) (now : ∀ k r, acting' k r ↔ k ≠ n ∧ acting k r) :
    Stage h key life acting' late stack (pass + 1) := by
  cases stage with
  | @passing i m todo exiting only last done positive small installed zero =>
    obtain ⟨rfl,same⟩ := (only _ _).mp acts
    obtain rfl : pass = .ofNat i := by simpa using same
    have exact_ := ofNat_toNat small
    have early := UInt64.lt_iff_toNat_lt.mp early
    refine .between exiting ?_ ?_ done ?_ installed ?_
    · intro k r
      rw [now,only]
      rintro ⟨other,same,-⟩
      exact other same
    · rw [last]
      omega
    · omega
    · exact (UInt64.ofNat_add i 1).symm
  | arriving alive only => cases ((only _ _).mp acts).2
  | arming alive only => cases ((only _ _).mp acts).2
  | steady _ none | due _ none | between _ none | spent _ none => exact absurd acts (none _ _)

/-- The destructor takes the region in the last round. -/
theorem take (stage : Stage h key life acting late stack value) {n : Nat} {pass : UInt64} (acts : acting n (.passing pass))
    (final : destructorRounds ≤ pass) (now : ∀ k r, acting' k r ↔ k ≠ n ∧ acting k r) :
    Stage h key life acting' late none value := by
  cases stage with
  | @passing i m todo exiting only last done positive small installed zero =>
    obtain ⟨rfl,same⟩ := (only _ _).mp acts
    obtain rfl : pass = .ofNat i := by simpa using same
    have exact_ := ofNat_toNat small
    have final := UInt64.le_iff_toNat_le.mp final
    refine .spent exiting ?_ ?_ ?_ rfl zero
    · intro k r
      rw [now,only]
      rintro ⟨other,same,-⟩
      exact other same
    · rw [last]
      omega
    · omega
  | arriving alive only => cases ((only _ _).mp acts).2
  | arming alive only => cases ((only _ _).mp acts).2
  | steady _ none | due _ none | between _ none | spent _ none => exact absurd acts (none _ _)

/-- While nobody acts, the region is installed until the last round has taken it. -/
theorem rested (stage : Stage h key life acting late stack value) (none : ∀ k r, ¬acting k r) :
    late ∧ stack = .none ∨ ¬late ∧ stack = some h := by
  cases stage with
  | steady _ _ early installed => exact .inr ⟨early,installed⟩
  | due _ _ early _ _ _ _ installed => exact .inr ⟨early,installed⟩
  | between _ _ early _ _ installed => exact .inr ⟨early,installed⟩
  | spent _ _ gone _ bare => exact .inl ⟨gone,bare⟩
  | arriving _ only => exact absurd ((only _ _).mpr ⟨rfl,rfl⟩) (none _ _)
  | arming _ only => exact absurd ((only _ _).mpr ⟨rfl,rfl⟩) (none _ _)
  | passing _ only => exact absurd ((only _ _).mpr ⟨rfl,rfl⟩) (none _ _)

/-- After enough rounds there was a last one. -/
theorem finished (stage : Stage h key life acting late stack value) (none : ∀ k r, ¬acting k r) {i : Nat}
    (exiting : life = .exiting i []) (enough : destructorRounds.toNat ≤ i) : late := by
  cases stage with
  | spent _ _ gone => exact gone
  | due exiting' _ _ member =>
    obtain ⟨rfl,rfl⟩ : i = _ ∧ [] = _ := by simpa [exiting] using exiting'
    simp at member
  | between exiting' _ _ _ early =>
    obtain ⟨rfl,rfl⟩ : i = _ ∧ [] = _ := by simpa [exiting] using exiting'
    omega
  | passing _ only => exact absurd ((only _ _).mpr ⟨rfl,rfl⟩) (none _ _)
  | arriving alive | arming alive | steady alive => simp [exiting] at alive

/-- Before the first round the region is installed and the key is armed. -/
theorem unrounded (stage : Stage h key life acting late stack value) (none : ∀ k r, ¬acting k r)
    (exiting : life = .exiting 0 []) : stack = some h ∧ value = armed := by
  cases stage with
  | between exiting' _ _ _ _ installed counted =>
    obtain ⟨rfl,-⟩ : 0 = _ ∧ [] = _ := by simpa [exiting] using exiting'
    exact ⟨installed,counted⟩
  | due exiting' _ _ _ _ positive =>
    obtain ⟨rfl,-⟩ : 0 = _ ∧ [] = _ := by simpa [exiting] using exiting'
    omega
  | spent exiting' _ _ enough =>
    obtain ⟨rfl,-⟩ : 0 = _ ∧ [] = _ := by simpa [exiting] using exiting'
    simp [destructorRounds] at enough
  | passing _ only => exact absurd ((only _ _).mpr ⟨rfl,rfl⟩) (none _ _)
  | arriving alive | arming alive | steady alive => simp [exiting] at alive

/-- While the key is yet to be armed, the region is installed. -/
theorem installed (stage : Stage h key life acting late stack value) {n : Nat} (acts : acting n .arming) : stack = some h := by
  cases stage with
  | arming _ _ _ stacked => exact stacked
  | arriving _ only => cases ((only _ _).mp acts).2
  | passing _ only => cases ((only _ _).mp acts).2
  | steady _ none | due _ none | between _ none | spent _ none => exact absurd acts (none _ _)

/-- Before the exit, while nobody acts, the region is installed and the key is armed. -/
theorem living (stage : Stage h key life acting late stack value) (none : ∀ k r, ¬acting k r) (alive : life = .alive) :
    stack = some h ∧ value = armed := by
  cases stage with
  | steady _ _ _ stacked counted => exact ⟨stacked,counted⟩
  | arriving _ only => exact absurd ((only _ _).mpr ⟨rfl,rfl⟩) (none _ _)
  | arming _ only => exact absurd ((only _ _).mpr ⟨rfl,rfl⟩) (none _ _)
  | passing _ only => exact absurd ((only _ _).mpr ⟨rfl,rfl⟩) (none _ _)
  | due exiting | between exiting | spent exiting => simp [exiting] at alive

/-- While a destructor call is yet to act, the region is installed. -/
theorem stacked (stage : Stage h key life acting late stack value) {n : Nat} {pass : UInt64}
    (acts : acting n (.passing pass)) : stack = some h := by
  cases stage with
  | passing _ _ _ _ _ _ installed => exact installed
  | arriving alive only => cases ((only _ _).mp acts).2
  | arming alive only => cases ((only _ _).mp acts).2
  | steady _ none | due _ none | between _ none | spent _ none => exact absurd acts (none _ _)

section
variable (stage : Stage h key life acting late stack value) (none : ∀ k r, ¬acting k r)
include stage none

theorem exit (alive : life = .alive) : Stage h key (.exiting 0 []) acting late stack value := by
  cases stage with
  | steady _ _ early installed armed => exact .between rfl none early (by simp) (by decide) installed armed
  | arriving _ only => exact absurd ((only _ _).mpr ⟨rfl,rfl⟩) (none _ _)
  | arming _ only => exact absurd ((only _ _).mpr ⟨rfl,rfl⟩) (none _ _)
  | due exiting | passing exiting | between exiting | spent exiting => simp [alive] at exiting

theorem round {i : Nat} {order : List Key} (exiting : life = .exiting i []) (once : order.Nodup)
    (all : value ≠ 0 → key ∈ order) : Stage h key (.exiting (i + 1) order) acting late stack value := by
  cases stage with
  | between exiting' _ soon _ early installed counted =>
    obtain ⟨rfl,rfl⟩ : i = _ ∧ [] = _ := by simpa [exiting] using exiting'
    subst counted
    exact .due rfl none soon (all (ofNat_ne_zero (by omega) early)) once (by omega) early installed rfl
  | spent exiting' _ gone late bare zero =>
    obtain ⟨rfl,rfl⟩ : i = _ ∧ [] = _ := by simpa [exiting] using exiting'
    exact .spent rfl none gone (by omega) bare zero
  | due exiting' _ _ member =>
    obtain ⟨rfl,rfl⟩ : i = _ ∧ [] = _ := by simpa [exiting] using exiting'
    simp at member
  | passing _ only => exact absurd ((only _ _).mpr ⟨rfl,rfl⟩) (none _ _)
  | arriving alive | arming alive | steady alive => simp [exiting] at alive

/-- A key that does not concern the thread's region is looked at. -/
theorem skip {i : Nat} {k : Key} {todo : List Key} (exiting : life = .exiting i (k :: todo))
    (other : k = key → value = 0) : Stage h key (.exiting i todo) acting late stack value := by
  cases stage with
  | between exiting' _ soon done early installed counted =>
    obtain ⟨rfl,rfl⟩ : i = _ ∧ k :: todo = _ := by simpa [exiting] using exiting'
    exact .between rfl none soon (by simp at done; exact done.2) early installed counted
  | spent exiting' _ gone late bare zero =>
    obtain ⟨rfl,rfl⟩ : i = _ ∧ k :: todo = _ := by simpa [exiting] using exiting'
    exact .spent rfl none gone late bare zero
  | due exiting' _ soon member once positive small installed counted =>
    obtain ⟨rfl,rfl⟩ : i = _ ∧ k :: todo = _ := by simpa [exiting] using exiting'
    have ne : key ≠ k := by
      rintro rfl
      exact ofNat_ne_zero positive small (counted.symm.trans (other rfl))
    exact .due rfl none soon (List.mem_of_ne_of_mem ne member) (List.nodup_cons.mp once).2 positive small installed counted
  | passing _ only => exact absurd ((only _ _).mpr ⟨rfl,rfl⟩) (none _ _)
  | arriving alive | arming alive | steady alive => simp [exiting] at alive

/-- What the destructor finds when it is called. -/
theorem firing {i : Nat} {todo : List Key} (exiting : life = .exiting i (key :: todo)) (present : value ≠ 0) :
    stack = some h ∧ value ≤ destructorRounds := by
  cases stage with
  | due _ _ _ _ _ positive small installed counted =>
    refine ⟨installed,?_⟩
    rw [counted,UInt64.le_iff_toNat_le,ofNat_toNat small]
    exact small
  | between exiting' _ _ done =>
    obtain ⟨rfl,rfl⟩ : i = _ ∧ key :: todo = _ := by simpa [exiting] using exiting'
    simp at done
  | spent _ _ _ _ _ zero => exact absurd zero present
  | passing _ only => exact absurd ((only _ _).mpr ⟨rfl,rfl⟩) (none _ _)
  | arriving alive | arming alive | steady alive => simp [exiting] at alive

theorem fire {i n : Nat} {todo : List Key} (exiting : life = .exiting i (key :: todo)) (present : value ≠ 0)
    (now : ∀ k r, acting' k r ↔ k = n ∧ r = .passing value) (counts : late' ↔ value = destructorRounds ∨ late) :
    Stage h key (.exiting i todo) acting' late' stack 0 := by
  cases stage with
  | due exiting' _ soon member once positive small installed counted =>
    obtain ⟨rfl,rfl⟩ : i = _ ∧ key :: todo = _ := by simpa [exiting] using exiting'
    subst counted
    refine .passing rfl now ?_ (List.nodup_cons.mp once).1 positive small installed rfl
    rw [counts,← UInt64.toNat_inj,ofNat_toNat small]
    simp [soon]
  | between exiting' _ _ done =>
    obtain ⟨rfl,rfl⟩ : i = _ ∧ key :: todo = _ := by simpa [exiting] using exiting'
    simp at done
  | spent _ _ _ _ _ zero => exact absurd zero present
  | passing _ only => exact absurd ((only _ _).mpr ⟨rfl,rfl⟩) (none _ _)
  | arriving alive | arming alive | steady alive => simp [exiting] at alive

end
end Stage
end GuardedStack
