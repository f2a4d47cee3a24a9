import GuardedStack.Proofs.Discipline
import GuardedStack.Proofs.World
import GuardedStack.Proofs.Rearming

/-! What one call of the cleanup key's destructor does for its own thread: to the stack, to the key's value and to the
marks that the exit leaves behind. -/
namespace GuardedStack

/-- What concerns the library in a thread's exit. -/
inductive Mark where
  | round
  | fired (rt : RuntimeId) (key : CleanupKey) (value : UInt64)
  | stored (rt : RuntimeId) (key : CleanupKey) (value : UInt64)
  | unmapped (m : Mapping)
  deriving DecidableEq, Repr

namespace Mark

def ofReply : (q : Request) → q.Reply → List Mark
  | .mapper rt (.unmap addr len), .ok () => [unmapped ⟨rt,addr,len⟩]
  | .host rt (.setCleanupValue key value), .ok () => [stored rt key value]
  | _, _ => []

/-- The first rounds of an exit, each of which counts on. -/
def counted (rt : RuntimeId) (key : CleanupKey) : Nat → List Mark
  | 0 => []
  | n + 1 => counted rt key n ++ [round,fired rt key (.ofNat (n + 1)),stored rt key (.ofNat (n + 2))]

/-- The marks of an exit with at least as many rounds as the library counts. -/
def complete (rt : RuntimeId) (key : CleanupKey) (m : Mapping) (rounds : Nat) : List Mark :=
  counted rt key (destructorRounds.toNat - 1) ++ [round,fired rt key destructorRounds,unmapped m] ++
    List.replicate (rounds - destructorRounds.toNat) round

end Mark

/-- What a destructor call sees of its thread. -/
structure Passage where
  stack : ThreadStack
  value : UInt64
  marks : List Mark

namespace Passage

def after (rt : RuntimeId) (key : CleanupKey) (x : Passage) (q : Request) (reply : q.Reply) : Passage where
  stack := match q with
    | .state (.setStack s) => s
    | _ => x.stack
  value := match q, reply with
    | .host rt' (.setCleanupValue key' value), .ok () => if rt' = rt ∧ key' = key then value else x.value
    | _, _ => x.value
  marks := x.marks ++ Mark.ofReply q reply

def Expects (rt : RuntimeId) (key : CleanupKey) (x : Passage) : (q : Request) → q.Reply → Prop
  | .mapper _ (.unmap _ _), .error _ => False
  | .host _ (.setCleanupValue _ _), .error _ => False
  | .state .stack, s => s = x.stack
  | .state (.key rt'), kept => rt' = rt → kept = some key
  | _, _ => True

end Passage

def passage (rt : RuntimeId) (key : CleanupKey) : Discipline Passage where
  may _ _ := True
  next x q reply y := x.Expects rt key q reply ∧ y = x.after rt key q reply
  ends _ := False

open Program Attempt

variable {rt : RuntimeId} {key : CleanupKey} {x : Passage}

@[simp] theorem Passage.after_stack {s : ThreadStack} : x.after rt key (.state .stack) s = x := by
  simp [Passage.after,Mark.ofReply]

theorem passage_silent : (passage rt key).Silent where
  emits _ _ := trivial
  emitted x _ _ _ step := by
    rw [step.2]
    simp [Passage.after,Mark.ofReply]
  asks _ := trivial
  asked x _ _ step := by
    rw [step.2]
    simp [Passage.after,Mark.ofReply]

theorem passage_text {s : String} : (pure s : Program String).Follows (passage rt key) (fun y _ => y = x) x := rfl

/-- The thread after a destructor call with the value `pass`. -/
def Passage.passed (rt : RuntimeId) (key : CleanupKey) (h : Holding) (pass : UInt64) (x : Passage) : Passage :=
  if pass < destructorRounds then
    { x with value := pass + 1, marks := x.marks ++ [.stored rt key (pass + 1)] }
  else { x with stack := .empty, marks := x.marks ++ [.unmapped h.mapping] }

namespace Cleanup

theorem destructor_passage (key : CleanupKey) (pass : UInt64) (x : Passage) {h : Holding} (sound : h.region.Sound)
    (owner : h.owner = rt) (stack : x.stack.holding = some h) :
    (destructor pass).Follows (passage rt key) (fun y _ => y = x.passed rt key h pass) x := by
  refine Follows.callback ?_ fun _ overflow => overflow
  refine .bind (follows_request trivial ?_)
  rintro s y ⟨rfl,same⟩
  obtain rfl : x = y := by simpa using same.symm
  obtain ⟨⟨pointer,holding⟩,value,marks⟩ := x
  obtain rfl : holding = some h := stack
  subst owner
  dsimp only [ThreadStack.owner,Option.map]
  rw [action_eq]
  refine .bind (follows_checked rfl ?_)
  by_cases early : pass < destructorRounds
  · rw [if_pos early]
    refine .bind (.bind (follows_request trivial ?_))
    rintro kept y ⟨found,rfl⟩
    obtain rfl : kept = some key := found rfl
    refine follows_orAbort_ok (follows_ofProgram (follows_request trivial ?_))
    rintro (cause | _) y ⟨works,rfl⟩
    · exact works.elim
    · simp [Passage.after,Mark.ofReply,Passage.passed,early]
  · rw [if_neg early]
    refine .bind (.bind (follows_request trivial ?_))
    rintro s y ⟨rfl,rfl⟩
    refine .bind (follows_request trivial ?_)
    rintro ⟨⟩ y ⟨-,rfl⟩
    refine follows_orAbort_ok ?_
    refine .bind (follows_lift (follows_checked sound.length_eq ?_))
    refine .bind (follows_ofProgram (follows_request trivial ?_))
    rintro (cause | _) y ⟨works,rfl⟩
    · exact works.elim
    · refine follows_lift (follows_trace passage_silent passage_text ?_)
      simp [Passage.after,Mark.ofReply,Passage.passed,early,Holding.mapping,Region.mapping]

end Cleanup
end GuardedStack
