import GuardedStack.Proofs.Layout
import GuardedStack.Proofs.Rearming
import GuardedStack.Proofs.Trial

/-! What threads do to their stacks, one move at a time: a region is installed, taken, or given back, or a destructor round is
made. What a move comes to depends on nothing but what its thread holds, and that is told by the moves before. -/
namespace GuardedStack

inductive Move where
  | install (h : Holding)
  | take
  /-- A destructor round that finds the value `pass`, where `ceiling` rounds are certain. -/
  | round (pass ceiling : UInt64)
  | release

namespace Holding

/-- The owner's host sets the key's value. -/
def rearms (h : Holding) (key : CleanupKey) (value : UInt64) : Exchange :=
  ⟨.host h.owner (.setCleanupValue key value),.ok ()⟩

/-- The owner's mapper unmaps the region, guard included. -/
def unmaps (h : Holding) : Exchange := ⟨.mapper h.owner (.unmap h.region.start (h.region.usable + h.region.guard)),.ok ()⟩

/-- The region has a length, and its owner has a key. -/
structure Tenable (h : Holding) (runtimes : RuntimeId → RuntimeState) (key : RuntimeId → CleanupKey) : Prop where
  fits : h.region.usable.toNat + h.region.guard.toNat < UInt64.size
  ready : runtimes h.owner = ⟨.ready,some (key h.owner)⟩

end Holding

namespace Move

@[reducible] def Result : Move → Type
  | install _ => Except Fault Unit
  | take => Option Holding
  | round _ _ | release => Unit

def program : (m : Move) → Program m.Result
  | install h => (Thread.install h).run
  | take => Thread.take
  | round pass ceiling => Cleanup.round pass ceiling
  | release => Cleanup.releaseCurrent

/-- What the thread holds after the move. -/
def leaves (held : Option Holding) : Move → Option Holding
  | install h => if 16 ∣ h.region.top.toNat then some h else held
  | round pass ceiling => if pass < ceiling then held else none
  | take | release => none

def answers (held : Option Holding) : (m : Move) → m.Result
  | install h => if 16 ∣ h.region.top.toNat then .ok () else .error (.misalignedStackPointer h.region.top)
  | take => held
  | round _ _ | release => ()

/-- The calls that the move makes of the owner's mapper and host. -/
def calls (key : RuntimeId → CleanupKey) : (held : Option Holding) → Move → List Exchange
  | some h, round pass ceiling => if pass < ceiling then [h.rearms (key h.owner) (pass + 1)] else [h.unmaps]
  | some h, release => [h.unmaps]
  | _, _ => []

/-- The move leaves what is held: it is a refused install, or an early round. -/
def Keeps : Move → Prop
  | install h => ¬16 ∣ h.region.top.toNat
  | round pass ceiling => pass < ceiling
  | take | release => False

end Move

/-- The stack of a thread that holds this and has not pushed a frame. -/
def ThreadStack.of : Option Holding → ThreadStack
  | none => .empty
  | some h => ⟨h.region.top,some h⟩

/-- There is a region exactly if there is an owner, and the addresses are those of the region, or null. -/
structure ThreadStack.Shows (s : ThreadStack) (held : Option Holding) : Prop where
  region : s.region = held.map Holding.region
  owner : s.owner = held.map Holding.owner
  pointer : s.pointer = (held.map fun h => h.region.top).getD 0
  base : s.base = (held.map fun h => h.region.base).getD 0
  top : s.top = (held.map fun h => h.region.top).getD 0
  guard : s.guard = (held.map fun h => h.region.guard).getD 0

theorem ThreadStack.of_shows (held : Option Holding) : (of held).Shows held := by
  cases held <;> constructor <;> rfl

/-! A thread's moves, in order. -/

section
variable {moves : Nat → Move} {n : Nat} {h : Holding}

/-- What the thread holds after so many of its moves. -/
def standing (moves : Nat → Move) : Nat → Option Holding
  | 0 => none
  | n + 1 => (moves n).leaves (standing moves n)

/-- The last install that was not refused was of this, and it was not taken or given back since. -/
def Installed (moves : Nat → Move) (n : Nat) (h : Holding) : Prop :=
  ∃ i < n, moves i = .install h ∧ 16 ∣ h.region.top.toNat ∧ ∀ j, i < j → j < n → (moves j).Keeps

theorem Move.leaves_eq_some_iff {held : Option Holding} {m : Move} :
    m.leaves held = some h ↔ m = .install h ∧ 16 ∣ h.region.top.toNat ∨ m.Keeps ∧ held = some h := by
  cases m with
  | install h' =>
    by_cases aligned : 16 ∣ h'.region.top.toNat
    · simp only [leaves,Keeps,if_pos aligned,Option.some.injEq,install.injEq]
      constructor
      · rintro rfl
        exact .inl ⟨rfl,aligned⟩
      · rintro (⟨rfl,-⟩ | ⟨refused,-⟩)
        · rfl
        · exact absurd aligned refused
    · simp only [leaves,Keeps,if_neg aligned,install.injEq]
      constructor
      · intro held
        exact .inr ⟨aligned,held⟩
      · rintro (⟨rfl,aligned'⟩ | ⟨-,held⟩)
        · exact absurd aligned' aligned
        · exact held
  | round pass ceiling =>
    by_cases early : pass < ceiling
    · simp [leaves,Keeps,early]
    · simp [leaves,Keeps,early]
  | take | release => simp [leaves,Keeps]

theorem standing_iff : standing moves n = some h ↔ Installed moves n h := by
  induction n with
  | zero => simp [standing,Installed]
  | succ n ih =>
    rw [standing,Move.leaves_eq_some_iff,ih]
    constructor
    · rintro (⟨now,aligned⟩ | ⟨keeps,i,before,then_,aligned,since⟩)
      · exact ⟨n,by omega,now,aligned,fun j above below => by omega⟩
      · refine ⟨i,by omega,then_,aligned,fun j above below => ?_⟩
        rcases Nat.lt_succ_iff_lt_or_eq.mp below with below | rfl
        · exact since j above below
        · exact keeps
    · rintro ⟨i,before,then_,aligned,since⟩
      rcases Nat.lt_succ_iff_lt_or_eq.mp before with before | rfl
      · exact .inr ⟨since n before (by omega),i,before,then_,aligned,fun j above below => since j above (by omega)⟩
      · exact .inl ⟨then_,aligned⟩

/-- The calls of the last of several destructor rounds for a region that was installed before them: the value is set again
before the first round that has reached its ceiling, that one unmaps, and there is nothing left to do for the others. -/
def roundCalls (key : RuntimeId → CleanupKey) (h : Holding) (rounds : Nat → UInt64 × UInt64) (j : Nat) : List Exchange :=
  if ∃ k < j, (rounds k).2 ≤ (rounds k).1 then []
  else if (rounds j).1 < (rounds j).2 then [h.rearms (key h.owner) ((rounds j).1 + 1)]
  else [h.unmaps]

section
variable {rounds : Nat → UInt64 × UInt64} {i m : Nat} (installed : moves i = .install h) (aligned : 16 ∣ h.region.top.toNat)
  (follow : ∀ j < m, moves (i + 1 + j) = .round (rounds j).1 (rounds j).2)
include installed aligned follow

theorem standing_rounds {j : Nat} (inside : j ≤ m) :
    standing moves (i + 1 + j) = if ∃ k < j, (rounds k).2 ≤ (rounds k).1 then none else some h := by
  induction j with
  | zero => simp [standing,Move.leaves,installed,aligned]
  | succ j ih =>
    rw [← Nat.add_assoc,standing,ih (by omega),follow j (by omega)]
    by_cases passed : ∃ k < j, (rounds k).2 ≤ (rounds k).1
    · have later : ∃ k < j + 1, (rounds k).2 ≤ (rounds k).1 := by
        obtain ⟨k,before,reached⟩ := passed
        exact ⟨k,by omega,reached⟩
      rw [if_pos passed,if_pos later]
      simp [Move.leaves]
    · rw [if_neg passed]
      by_cases early : (rounds j).1 < (rounds j).2
      · have still : ¬∃ k < j + 1, (rounds k).2 ≤ (rounds k).1 := by
          rintro ⟨k,before,reached⟩
          rcases Nat.lt_succ_iff_lt_or_eq.mp before with before | rfl
          · exact passed ⟨k,before,reached⟩
          · exact absurd early (UInt64.not_lt.mpr reached)
        rw [if_neg still,Move.leaves,if_pos early]
      · have now : ∃ k < j + 1, (rounds k).2 ≤ (rounds k).1 := ⟨j,by omega,UInt64.not_lt.mp early⟩
        rw [if_pos now,Move.leaves,if_neg early]

theorem calls_rounds {key : RuntimeId → CleanupKey} {j : Nat} (inside : j < m) :
    (moves (i + 1 + j)).calls key (standing moves (i + 1 + j)) = roundCalls key h rounds j := by
  rw [standing_rounds installed aligned follow (Nat.le_of_lt inside),follow j inside,roundCalls]
  split
  · rfl
  · rfl

end
end

/-! What a move does to its own thread. -/

/-- A thread's stack, and its calls since the move began. -/
structure Seat where
  stack : ThreadStack
  calls : List Exchange

def Seat.after (x : Seat) (q : Request) (reply : q.Reply) : Seat where
  stack := match q with
    | .state (.setStack s) => s
    | _ => x.stack
  calls := x.calls ++ q.crossing reply

/-- Runtimes have their keys and calls succeed. A thread makes no other stack its own than the one that is due. -/
def moving (keys : RuntimeId → Option CleanupKey) (due : ThreadStack) : Discipline Seat where
  may _ q := match q with
    | .state .stack | .state (.key _) | .state .verbosity | .state (.emit _) => True
    | .state (.setStack s) => s = due
    | .mapper _ (.unmap _ _) | .host _ (.setCleanupValue _ _) => True
    | _ => False
  next x q reply y := y = x.after q reply ∧ match q with
    | .state .stack => reply = x.stack
    | .state (.key rt) => reply = keys rt
    | .mapper _ (.unmap _ _) | .host _ (.setCleanupValue _ _) => reply = .ok ()
    | _ => True
  ends _ := False

section
variable {keys : RuntimeId → Option CleanupKey} {due : ThreadStack} {x : Seat} {h : Holding} {held : Option Holding}

open Program Attempt

theorem Seat.after_quiet {call : StateCall} {reply : call.Reply} (still : ∀ s, call ≠ .setStack s) :
    x.after (.state call) reply = x := by
  cases call with
  | setStack s => exact absurd rfl (still s)
  | _ => simp [after,Request.crossing]

theorem moving_silent : (moving keys due).Silent where
  emits _ _ := trivial
  emitted _ _ _ _ step := step.1.trans (Seat.after_quiet (by simp))
  asks _ := trivial
  asked _ _ _ step := step.1.trans (Seat.after_quiet (by simp))

theorem Thread.stack_moves {post : Seat → ThreadStack → Prop} (after : post x x.stack) :
    stack.Follows (moving keys due) post x := by
  apply follows_request trivial
  rintro s y ⟨rfl,rfl⟩
  rwa [Seat.after_quiet (by simp)]

theorem Thread.setStack_moves : (setStack due).Follows (moving keys due) (fun y _ => y = ⟨due,x.calls⟩) x := by
  apply follows_request rfl
  rintro ⟨⟩ y ⟨rfl,-⟩
  simp [Seat.after,Request.crossing]

/-- An install that is refused does nothing. -/
theorem Thread.install_moves : (install h).Follows (moving keys (.of (Move.leaves held (.install h))))
    (fun y _ => 16 ∣ h.region.top.toNat ∧ y = ⟨.of (some h),x.calls⟩)
    (fun y cause => ¬16 ∣ h.region.top.toNat ∧ cause = .misalignedStackPointer h.region.top ∧ y = x) x := by
  apply Attempt.Follows.bind
  apply follows_lift
  apply stack_moves
  unfold ThreadStack.install
  by_cases aligned : h.region.Aligned
  · have whole := Region.aligned_iff.mp aligned
    rw [if_neg (not_not_intro aligned),Move.leaves,if_pos whole]
    exact follows_lift (setStack_moves.mono fun _ _ same => ⟨whole,same⟩)
  · rw [if_pos aligned]
    exact follows_throw ⟨mt Region.aligned_iff.mpr aligned,rfl,rfl⟩

theorem Thread.take_moves : take.Follows (moving keys .empty)
    (fun y taken => taken = x.stack.holding ∧ y = ⟨.empty,x.calls⟩) x := by
  apply Program.Follows.bind
  apply stack_moves
  apply Program.Follows.bind
  exact setStack_moves.mono fun _ _ same => ⟨rfl,same⟩

theorem Region.release_moves (fits : h.region.usable.toNat + h.region.guard.toNat < UInt64.size) :
    (release h.owner h.region).Follows (moving keys due) (fun y _ => y = ⟨x.stack,x.calls ++ [h.unmaps]⟩)
      (fun _ _ => False) x := by
  have length : h.region.length = .ok (h.region.usable + h.region.guard) := Checked.add_eq_ok_iff.mpr ⟨fits,rfl⟩
  apply Attempt.Follows.bind
  apply follows_lift
  apply follows_checked length
  apply Attempt.Follows.bind
  apply follows_ofProgram
  apply follows_request trivial
  rintro reply y ⟨rfl,rfl⟩
  exact follows_lift (follows_trace moving_silent rfl rfl)

namespace Cleanup

/-- What is held is given back once. -/
theorem releaseCurrent_moves (holds : x.stack = .of held)
    (fits : ∀ h, held = some h → h.region.usable.toNat + h.region.guard.toNat < UInt64.size) :
    releaseCurrent.Follows (moving keys .empty) (fun y _ => y = ⟨.empty,x.calls ++ held.toList.map Holding.unmaps⟩) x := by
  apply Program.Follows.bind
  apply Thread.take_moves.mono
  rintro y taken ⟨rfl,rfl⟩
  rw [holds]
  cases held with
  | none =>
    rw [Option.toList_none,List.map_nil,List.append_nil]
    rfl
  | some h => exact follows_orAbort_ok (Region.release_moves (x := ⟨.empty,x.calls⟩) (fits h rfl))

theorem round_moves {key : RuntimeId → CleanupKey} {pass ceiling : UInt64} (holds : x.stack = .of held)
    (fits : ∀ h, held = some h → h.region.usable.toNat + h.region.guard.toNat < UInt64.size)
    (known : ∀ h, held = some h → keys h.owner = some (key h.owner)) :
    (round pass ceiling).Follows (moving keys (.of (Move.leaves held (.round pass ceiling))))
      (fun y _ => y = ⟨.of (Move.leaves held (.round pass ceiling)),x.calls ++ Move.calls key held (.round pass ceiling)⟩) x := by
  apply Program.Follows.bind
  apply Thread.stack_moves
  cases held with
  | none =>
    rw [holds]
    show x = _
    simp [Move.leaves,Move.calls,← holds]
  | some h =>
    rw [show x.stack.owner = some h.owner by rw [holds]; rfl]
    apply Program.Follows.bind
    apply follows_checked (action_eq pass ceiling)
    by_cases early : pass < ceiling
    · rw [if_pos early]
      apply Program.Follows.bind
      apply Program.Follows.bind
      apply follows_request trivial
      rintro found y ⟨rfl,rfl⟩
      rw [known h rfl,Seat.after_quiet (by simp)]
      apply follows_orAbort_ok
      apply follows_ofProgram
      apply follows_request trivial
      rintro reply y ⟨rfl,rfl⟩
      simp only [Move.leaves,Move.calls,if_pos early,← holds]
      rfl
    · rw [if_neg early]
      simp only [Move.leaves,Move.calls,if_neg early]
      exact releaseCurrent_moves holds fits

end Cleanup

/-- A move comes to its end with the answer that is due for what its thread holds, having made the calls that are due. -/
theorem Move.program_moves {key : RuntimeId → CleanupKey} (m : Move)
    (fits : ∀ h, held = some h → h.region.usable.toNat + h.region.guard.toNat < UInt64.size)
    (known : ∀ h, held = some h → keys h.owner = some (key h.owner)) :
    m.program.Follows (moving keys (.of (m.leaves held)))
      (fun y result => result = m.answers held ∧ y = ⟨.of (m.leaves held),m.calls key held⟩) ⟨.of held,[]⟩ := by
  cases m with
  | install h =>
    have silent : Move.calls key held (.install h) = [] := by cases held <;> rfl
    apply Program.Follows.mono Thread.install_moves
    rintro y (cause | done) after
    · obtain ⟨refused,rfl,rfl⟩ := after
      simp only [leaves,answers,silent,if_neg refused,and_self]
    · obtain ⟨aligned,rfl⟩ := after
      simp only [leaves,answers,silent,if_pos aligned,and_self]
  | take =>
    have silent : Move.calls key held .take = [] := by cases held <;> rfl
    apply Program.Follows.mono Thread.take_moves
    rintro y taken ⟨rfl,rfl⟩
    rw [silent]
    cases held <;> exact ⟨rfl,rfl⟩
  | round pass ceiling =>
    apply Program.Follows.mono (Cleanup.round_moves rfl fits known)
    rintro y ⟨⟩ rfl
    exact ⟨rfl,rfl⟩
  | release =>
    apply Program.Follows.mono (Cleanup.releaseCurrent_moves rfl fits)
    rintro y ⟨⟩ rfl
    cases held <;> exact ⟨rfl,rfl⟩

end

/-! How long a move can be. -/

/-- There are no more requests than this, however they are answered. -/
def Program.AtMost : Program α → Nat → Prop
  | done _, _ | stop _, _ => True
  | ask _ _, 0 => False
  | ask _ next, n + 1 => ∀ reply, (next reply).AtMost n

section
variable {m n : Nat}

namespace Program

theorem AtMost.mono {p : Program α} (short : p.AtMost m) (below : m ≤ n) : p.AtMost n := by
  induction p generalizing m n with
  | done a => trivial
  | stop reason => trivial
  | ask q next ih =>
    cases m with
    | zero => exact short.elim
    | succ m =>
      cases n with
      | zero => omega
      | succ n => exact fun reply => ih reply (short reply) (by omega)

theorem AtMost.bind {p : Program α} {f : α → Program β} (first : p.AtMost m) (rest : ∀ a, (f a).AtMost n) :
    (p >>= f).AtMost (m + n) := by
  induction p generalizing m with
  | done a => exact (rest a).mono (Nat.le_add_left _ _)
  | stop reason => trivial
  | ask q next ih =>
    cases m with
    | zero => exact first.elim
    | succ m =>
      rw [Nat.add_right_comm]
      exact fun reply => ih reply (first reply)

theorem atMost_request {q : Request} : (request q).AtMost 1 := fun _ => trivial

theorem atMost_trace {s : String} : (trace (pure s)).AtMost 2 := by
  apply AtMost.bind atMost_request (n := 1)
  intro verbosity
  split
  · exact fun _ => trivial
  · trivial

end Program

open Program

theorem Attempt.atMost_orAbort {what : String} {attempt : Attempt α} (short : attempt.run.AtMost n) :
    (attempt.orAbort what).AtMost (n + 1) := by
  apply AtMost.bind short
  intro result
  cases result with
  | ok a => trivial
  | error cause => exact fun _ => trivial

theorem Thread.atMost_take : take.AtMost 2 := fun _ _ => trivial

theorem Runtime.atMost_cleanupKey {rt : RuntimeId} : (cleanupKey rt).AtMost 2 := by
  apply AtMost.bind atMost_request (n := 1)
  intro key
  cases key with
  | some key => trivial
  | none => exact fun _ => trivial

theorem Region.atMost_release {rt : RuntimeId} {r : Region} : (release rt r).run.AtMost 3 := by
  have traced : (trace (pure s!"released unsafe stack {hex r.base}..{hex r.top}")).AtMost 2 := atMost_trace
  unfold release
  cases r.length with
  | error overflow => trivial
  | ok length =>
    intro result
    cases result with
    | error cause => trivial
    | ok unmapped => exact traced.bind (n := 0) fun _ => trivial

theorem Cleanup.atMost_releaseCurrent : releaseCurrent.AtMost 6 := by
  apply AtMost.bind Thread.atMost_take (n := 4)
  intro taken
  cases taken with
  | none => trivial
  | some held => exact Attempt.atMost_orAbort Region.atMost_release

theorem Cleanup.atMost_round {pass ceiling : UInt64} : (round pass ceiling).AtMost 7 := by
  apply AtMost.bind atMost_request (n := 6)
  intro s
  cases s.owner with
  | none => trivial
  | some owner =>
    rw [action_eq]
    by_cases early : pass < ceiling
    · rw [if_pos early]
      have short : (Runtime.cleanupKey owner >>= fun key =>
          (Host.setCleanupValue owner key (pass + 1)).orAbort Diagnostics.Duty.rearming.text).AtMost 4 :=
        Runtime.atMost_cleanupKey.bind fun key =>
          Attempt.atMost_orAbort (show (Host.setCleanupValue owner key (pass + 1)).run.AtMost 1 from atMost_request)
      exact short.mono (by decide)
    · rw [if_neg early]
      exact atMost_releaseCurrent

theorem Thread.atMost_install {h : Holding} : (install h).run.AtMost 2 := by
  have read : (liftM stack : Attempt ThreadStack).run.AtMost 1 := fun _ => trivial
  apply read.bind (n := 1)
  intro result
  cases result with
  | error cause => trivial
  | ok s =>
    dsimp only [ExceptT.bindCont]
    split
    · exact fun _ => trivial
    · trivial

theorem Move.program_atMost (m : Move) : m.program.AtMost 7 := by
  cases m with
  | install h => exact Thread.atMost_install.mono (by decide)
  | take => exact Thread.atMost_take.mono (by decide)
  | round pass ceiling => exact Cleanup.atMost_round
  | release => exact Cleanup.atMost_releaseCurrent.mono (by decide)

end
end GuardedStack
