import GuardedStack.Proofs.Commission

/-! What has come of a wanted thread, as a run shows it: the deals of the spawn that asked for it, and how far the thread
itself is. A thread that has begun calls the function exactly once, with the argument, unless it is still about to. -/
namespace GuardedStack

open Deal

/-- The answer, if this is one, is as the surroundings of the runtime should give it. -/
def Event.smooth (rt : RuntimeId) (page : UInt64) : Event → Bool
  | answered _ _ q reply => q.smooth rt page reply
  | _ => true

namespace World

/-- An operation's deals so far, the newest first. -/
def Trace.deals (trace : Trace) (n : Nat) : List Deal := trace.counted ofReply n

/-- The requests of an operation that were answered, the newest first. -/
def Trace.requests (trace : Trace) (n : Nat) : List Request := trace.counted (fun q _ => some q) n

variable {trace : Trace} {w w' : World} {e : Event} {t : ThreadId} {n k : Nat} {rt : RuntimeId} {page : UInt64}

/-- The watch says what has happened. -/
def Happened (trace : Trace) (n : Nat) : Dealing → Prop
  | .offer _ deals => deals = trace.deals n
  | .arrival _ _ steps deals => deals = trace.deals n ∧ steps = (trace.requests n).length

theorem Happened.after {x : Dealing} {q : Request} {reply : q.Reply} (happened : Happened trace n x) :
    Happened (.answered n t q reply :: trace) n (x.after q reply) := by
  have deals : Trace.deals (.answered n t q reply :: trace) n = (ofReply q reply).toList ++ trace.deals n := counted_answered
  have requests : Trace.requests (.answered n t q reply :: trace) n = q :: trace.requests n := counted_answered
  cases x with
  | offer o told =>
    obtain rfl : told = trace.deals n := happened
    exact deals.symm
  | arrival addr record steps told =>
    obtain ⟨rfl,rfl⟩ := happened
    exact ⟨deals.symm,by rw [requests,List.length_cons]⟩

theorem Happened.other {x : Dealing} (other : ¬e.Concerns n) (happened : Happened trace n x) : Happened (e :: trace) n x := by
  have deals : Trace.deals (e :: trace) n = trace.deals n := counted_other other
  have requests : Trace.requests (e :: trace) n = trace.requests n := counted_other other
  cases x with
  | offer o told => exact Eq.trans happened deals.symm
  | arrival addr record steps told => exact ⟨happened.1.trans deals.symm,by rw [requests]; exact happened.2⟩

theorem Trace.granted (smooth : trace.all (·.smooth rt page)) : Trace.Grants (dealing rt page) trace :=
  fun _ _ _ _ member => List.all_eq_true.mp smooth _ member

section
variable (run : Run trace w) (paged : PageSize page) (granted : Trace.Grants (dealing rt page) trace)
include run paged granted

theorem Run.happened {x : Dealing} (track : (dealing rt page).track trace n = some x) : Happened trace n x := by
  refine run.tracked (I := fun trace n _ x => Happened trace n x) (dealing_covers paged) granted ?_
    (fun _ _ _ happened => happened.after) (fun other happened => happened.other other) track
  intro trace w e w' n x run step opens starts
  have deals : Trace.deals (e :: trace) n = [] := run.uncounted step opens
  have requests : Trace.requests (e :: trace) n = [] := run.uncounted step opens
  rcases Dealing.of_start starts with ⟨_,_,o,-,-,rfl⟩ | ⟨_,_,call,record,-,-,-,-,rfl⟩
  · exact deals.symm
  · exact ⟨deals.symm,by rw [requests]; rfl⟩

/-- A spawn is watched from the beginning. -/
theorem Run.offered {o : Commission} (own : o.runtime = rt) (called : .called n t o.operation ∈ trace) :
    trace.homes n = t ∧ (dealing rt page).track trace n = some (.offer o (trace.deals n)) := by
  obtain ⟨home,x,track,deals,rfl⟩ := run.opened (v := dealing rt page) (P := fun x => ∃ deals, x = .offer o deals) called rfl
    ⟨_,if_pos own,[],rfl⟩ (by rintro _ q reply ⟨deals,rfl⟩; exact ⟨_,rfl⟩)
  obtain rfl : deals = trace.deals n := run.happened paged granted track
  exact ⟨by simpa [Event.homes] using home,track⟩

/-- A new thread is watched from the beginning. -/
theorem Run.arrived {call : SpawnCall} {record : Handoff} (own : record.runtime = rt) (aligned : record.region.Aligned)
    (present : call.arg ≠ 0) (began : .began k t call record ∈ trace) :
    trace.homes k = t ∧ (dealing rt page).track trace k =
      some (.arrival call.arg record (trace.requests k).length (trace.deals k)) := by
  obtain ⟨home,x,track,steps,deals,rfl⟩ := run.opened (v := dealing rt page)
    (P := fun x => ∃ steps deals, x = .arrival call.arg record steps deals) began rfl
    ⟨_,if_pos ⟨own,aligned,present⟩,0,[],rfl⟩ (by rintro _ q reply ⟨steps,deals,rfl⟩; exact ⟨_,_,rfl⟩)
  obtain ⟨rfl,rfl⟩ := run.happened paged granted track
  exact ⟨by simpa [Event.homes] using home,track⟩

end

/-- How far the operation `k` is, with which a new thread calls a function. -/
inductive Serving (entry : EntryPoint) (arg : UInt64) (k : Nat) (t : ThreadId) (trace : Trace) (w : World) : Prop
  /-- It has called no function yet, and is at one of the six requests that come before. -/
  | arriving {f : Frame} {q : Request} : f ∈ w.frames t → f.number = k → f.Asks q → q.Inward →
      (trace.requests k).length < 6 → trace.deals k = [] → Serving entry arg k t trace w
  /-- It is calling the function. -/
  | calling {f : Frame} : f ∈ w.frames t → f.number = k → f.Asks (.enter entry arg) → trace.deals k = [] →
      Serving entry arg k t trace w
  /-- It has called the function once and is about to end with the function's result. -/
  | done {addr result : UInt64} : ⟨k,.body .fromRecord addr,.done result⟩ ∈ w.frames t →
      trace.deals k = [entered entry arg result] → Serving entry arg k t trace w
  /-- It has ended so. -/
  | ended {addr result : UInt64} : .returned k t (.body .fromRecord addr) result ∈ trace →
      trace.deals k = [entered entry arg result] → Serving entry arg k t trace w
  /-- It is over without a result, because its thread has exited while it was calling the function. -/
  | left : trace.Parted t k (.enter entry arg) → w.Gone k → trace.deals k = [] → Serving entry arg k t trace w

/-- A thread never stops on its way to the function, and calls no other. -/
theorem Run.serving {call : SpawnCall} {h : Handoff} (run : Run trace w) (paged : PageSize page)
    (granted : Trace.Grants (dealing h.runtime page) trace) (aligned : h.region.Aligned) (present : call.arg ≠ 0)
    (began : .began k t call h ∈ trace) : Serving h.start h.arg k t trace w := by
  obtain ⟨home,track⟩ := run.arrived paged granted rfl aligned present began
  have covers : (dealing h.runtime page).Covers := dealing_covers paged
  rcases run.whereabouts covers granted track with ⟨⟨number,op,rest⟩,member,same⟩ | ⟨gone,parted⟩
  · obtain rfl : number = k := same
    rw [home] at member
    have keeps := run.watched covers granted t _ _ member track
    cases rest with
    | ask q next =>
      obtain ⟨-,none,⟨early,inward⟩ | ⟨-,rfl⟩⟩ := keeps.1
      · exact .arriving member rfl ⟨next,rfl⟩ inward early none
      · exact .calling member rfl ⟨next,rfl⟩ none
    | done result =>
      obtain ⟨value,same,once⟩ := keeps
      cases same
      exact .done member once
    | stop reason =>
      have known := run.operation (f := ⟨number,op,.stop reason⟩) began rfl member
      obtain rfl : Operation.body call.start call.arg = op := Option.some.inj known
      exact keeps.elim
  · rw [home] at parted
    rcases parted with ⟨op,result,returned⟩ | ⟨op,c,entry,arg,⟨-,none,entered⟩,parted⟩
    · obtain ⟨value,same,once⟩ := (run.ended covers granted returned).2 _ track
      cases same
      exact .ended returned once
    · rcases entered with ⟨-,inward⟩ | ⟨-,same⟩
      · exact inward.elim
      · exact .left (same ▸ parted) gone none

end World
end GuardedStack
