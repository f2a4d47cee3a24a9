import GuardedStack.Proofs.FailedStart
import GuardedStack.Proofs.Handover
import GuardedStack.Proofs.Service

/-! A spawn through the library against the plain primitive. The primitive is asked once, with the caller's handle and
attributes, and its code is what the caller gets. If it starts a thread, that thread calls the caller's function with the
caller's argument, once, and ends with the function's result; if not, the mappings are as before. -/
namespace GuardedStack

open Deal

namespace Event

/-- The thread on which it happens. -/
def thread : Event → ThreadId
  | called _ t _ | began _ t _ _ | answered _ t _ _ | returned _ t _ _ | moved t _ | keyed t _ _ | exited t _ | round t
  | skipped t | fired _ t _ _ _ _ | foreign t _ _ => t

/-- An answer to the operation, or its end. -/
def Within (n : Nat) : Event → Prop
  | answered k _ _ _ | returned k _ _ _ => k = n
  | _ => False

end Event

namespace World

/-- The world goes on, and this has happened since. -/
inductive Onward (w : World) : Trace → World → Prop
  | nil : Onward w [] w
  | step {log w' e w''} : Onward w log w' → ¬w'.Ended → Step w' e w'' → Onward w (e :: log) w''

variable {trace log before after : Trace} {w w₀ w' : World} {e : Event} {t : ThreadId} {n : Nat} {page : UInt64} {o : Commission}

theorem Run.onward (run : Run before w₀) (onward : Onward w₀ log w) : Run (log ++ before) w := by
  induction onward with
  | nil => exact run
  | step onward going step ih => exact ih.step going step

/-- Other threads' stacks and keys stay as they are. -/
theorem Step.elsewhere (step : w.Step e w') (other : e.thread ≠ t) :
    w'.image.threads t = w.image.threads t ∧ w'.values t = w.values t := by
  have other := Ne.symm other
  cases step with
  | @answer t' n op q next below reply w' here answers =>
    constructor
    · rcases answers.threads with same | ⟨s,-,same⟩
      · exact congrFun same t
      · exact (congrFun same t).trans (replace_other _ _ other)
    · rcases answers.values with same | ⟨rt,key,value,-,rfl⟩
      · exact congrFun same t
      · exact replace_other _ _ other
  | move => exact ⟨replace_other _ _ other,rfl⟩
  | key | fire | foreign => exact ⟨rfl,replace_other _ _ other⟩
  | call | begin | ret | exit | round | skip => exact ⟨rfl,rfl⟩

theorem Answers.live {q : Request} {reply : q.Reply} (answers : w.Answers t q reply w') :
    w'.live = (ofReply q reply).toList.foldr Deal.live w.live := by
  cases answers.change with
  | state | map | unmap | stuck | set | accept => rfl
  | nothing inert =>
    refine (Deal.live_still (n := 0) (t := 0) fun m moves => ?_).symm
    rcases moves with maps | unmaps
    · unfold Event.Maps at maps
      split at maps
      next same => cases same; exact inert
      · exact maps
    · unfold Event.Unmaps at unmaps
      split at unmaps
      next same => cases same; exact inert
      · exact unmaps

theorem Step.live_still (step : w.Step e w') (still : ∀ m, ¬(e.Maps m ∨ e.Unmaps m)) : w'.live = w.live := by
  cases step with
  | answer here answers => exact answers.live.trans (Deal.live_still still)
  | call | begin | ret | move | key | exit | round | skip | fire | foreign => rfl

theorem deals_other (other : ¬e.Within n) : Trace.deals (e :: trace) n = trace.deals n := by
  cases e with
  | answered => exact counted_other other
  | _ => rfl

/-- What became of the acceptance of a thread, after which this has happened. -/
inductive Fulfilled (o : Commission) (call : SpawnCall) (t : ThreadId) (after trace : Trace) (w : World) : Prop
  /-- The thread has not begun, and its record waits for it. -/
  | waiting {r : Region} : (∀ e ∈ after, ¬e.Begins call) → w.Due call (o.record r) → Fulfilled o call t after trace w
  /-- A new thread has begun on the record, and no other one does unless the host accepts another call that is the same. -/
  | begun {later middle : Trace} {k : Nat} {thread : ThreadId} {r : Region} :
      after = later ++ .began k thread call (o.record r) :: middle → (∀ e ∈ middle, ¬e.Begins call) →
      (∀ {last earlier e}, later = last ++ e :: earlier → e.Begins call → ∃ e' ∈ earlier, e'.Accepts call) → thread ≠ t →
      Serving o.entry o.arg k thread trace w → Fulfilled o call t after trace w

/-- The spawn `n`, which was called on the thread `t` of the world `start` before all of `log`. -/
structure Interception (o : Commission) (n : Nat) (t : ThreadId) (start : World) (log trace : Trace) (w : World) : Prop where
  /-- The primitive gets the caller's handle and attributes, and a routine and a record of the library's. -/
  passes : ∀ {t' rt call code}, .answered n t' (.host rt (.spawn call)) code ∈ trace →
    t' = t ∧ rt = o.runtime ∧ ∃ addr, call = o.call addr
  /-- The primitive was asked once and what it gave is returned. One region was mapped for this, and unmapped again if no
  thread was started; the spawn calls no function itself. -/
  returned : ∀ {t' op result}, .returned n t' op result ∈ trace → ∃ code addr, ∃ r : Region,
    (⟨op,result⟩ : (op : Operation) × op.Result) = ⟨o.operation,code⟩ ∧
      .answered n t (.host o.runtime (.spawn (o.call addr))) code ∈ trace ∧
        trace.deals n = o.concluded (r.mapping o.runtime) addr code
  /-- If the code is not zero then no thread was accepted, and so none begins for the spawn. -/
  refused : ∀ {t' code}, .returned n t' o.operation code ∈ trace → code ≠ 0 →
    ∀ {t' rt call}, .answered n t' (.host rt (.spawn call)) (0 : Int32) ∉ trace
  /-- Each thread that begins was accepted, and for each acceptance one thread begins. -/
  origin : ∀ {after before k t' call record}, trace = after ++ .began k t' call record :: before → Awaited call before
  /-- A thread that was accepted does what the caller wants of it. -/
  accepted : ∀ {after before t' rt call}, trace = after ++ .answered n t' (.host rt (.spawn call)) (0 : Int32) :: before →
    Fulfilled o call t after trace w
  /-- No answer changes any thread's stack or keys. -/
  unchanged : ∀ {t' q reply w'}, w.Step (.answered n t' q reply) w' →
    w'.image.threads = w.image.threads ∧ w'.values = w.values
  /-- If nothing else happens on the calling thread, its stack and its keys are as before the call. -/
  caller : (∀ e ∈ log, e.thread = t → e.Within n) →
    w.image.threads t = start.image.threads t ∧ w.values t = start.values t
  /-- If nothing else maps or unmaps, all mappings are as before the call, but for the region of a thread that was started. -/
  live : (∀ e ∈ log, ∀ m, e.Maps m ∨ e.Unmaps m → e.Within n) → ∀ {t' code}, .returned n t' o.operation code ∈ trace →
    ∃ m, mapped m ∈ trace.deals n ∧ w.live = if code = 0 then m :: start.live else start.live
  /-- The spawn stops only if the runtime is not ready or the new thread cannot be prepared. -/
  stopped : ∀ {t' op reason}, ⟨n,op,.stop reason⟩ ∈ w.frames t' → reason.Refused

section
variable (run : Run trace w) (paged : PageSize page) (granted : Trace.Grants (dealing o.runtime page) trace)
  (called : .called n t o.operation ∈ trace)
include run paged granted called

theorem Run.offers {q : Request} {t' : ThreadId} {reply : q.Reply} (step : w.Step (.answered n t' q reply) w') :
    Offers o (trace.custodies n) (trace.deals n) q := by
  cases step with
  | answer here answers =>
    obtain ⟨-,track⟩ := run.offered paged granted rfl called
    have keeps := run.watched (dealing_covers paged) granted t' ⟨n,_,_⟩ _ (by rw [here]; exact .head _) track
    exact keeps.1.2

theorem Run.unchanged {q : Request} {t' : ThreadId} {reply : q.Reply} (step : w.Step (.answered n t' q reply) w') :
    w'.image.threads = w.image.threads ∧ w'.values = w.values := by
  have offers := run.offers paged granted called step
  cases step with
  | answer here answers =>
    constructor
    · rcases answers.threads with same | ⟨s,rfl,-⟩
      · exact same
      · exact absurd offers Offers.not_setStack
    · rcases answers.values with same | ⟨rt,key,value,rfl,-⟩
      · exact same
      · exact absurd offers Offers.not_setCleanupValue

/-- The live mappings are those of some time before and the spawn's own. -/
theorem Run.live_answer {q : Request} {t' : ThreadId} {reply : q.Reply} (step : w.Step (.answered n t' q reply) w')
    {old : List Mapping} (live : w.live = (trace.deals n).foldr Deal.live old) (new : ∀ m, mapped m ∈ trace.deals n → m ∉ old) :
    w'.live = (Trace.deals (.answered n t' q reply :: trace) n).foldr Deal.live old ∧
      ∀ m, mapped m ∈ Trace.deals (.answered n t' q reply :: trace) n → m ∉ old := by
  have offers := run.offers paged granted called step
  have deals : Trace.deals (.answered n t' q reply :: trace) n = (ofReply q reply).toList ++ trace.deals n := counted_answered
  rw [deals]
  cases step with
  | answer here answers =>
    refine ⟨answers.live.trans (by rw [live,List.foldr_append]),?_⟩
    intro m member
    rcases List.mem_append.mp member with now | before
    · obtain ⟨rights,same⟩ := of_mapped (Option.mem_toList.mp now)
      cases same
      obtain ⟨none,nonempty⟩ := offers.of_map
      obtain ⟨-,apart,-⟩ := answers
      have same : w.live = old := by rw [live,none]; rfl
      rw [← same]
      exact Mapping.Apart.new apart (Mapping.positive nonempty)
    · exact new m before

end

/-- The spawn asks the primitive for its thread, on a record that names the caller's function. -/
theorem Run.wanted {rt : RuntimeId} {call : SpawnCall} {code : Int32} {t' : ThreadId}
    (run : Run (after ++ .answered n t' (.host rt (.spawn call)) code :: before) w) (paged : PageSize page)
    (granted : Trace.Grants (dealing o.runtime page) (after ++ .answered n t' (.host rt (.spawn call)) code :: before))
    (called : .called n t o.operation ∈ after ++ .answered n t' (.host rt (.spawn call)) code :: before) :
    t' = t ∧ rt = o.runtime ∧ ∃ r : Region, ∃ addr, call = o.call addr ∧ r.Aligned ∧
      (before.custodies n).hand = .placed addr (o.record r) := by
  obtain ⟨earlier,w₀,w₁,run₀,going,step⟩ := run.answering called rfl
  have granted₀ : Trace.Grants (dealing o.runtime page) before := fun _ _ _ _ member =>
    granted _ _ _ _ (List.mem_append_right after (List.mem_cons_of_mem _ member))
  have home := (run.offered paged granted rfl called).1
  rw [run.answered_home (List.mem_append_right after (.head before))] at home
  exact ⟨home,(run₀.offers paged granted₀ earlier step).of_spawn⟩

section
variable {t' : ThreadId} {rt : RuntimeId} {call : SpawnCall} (run : Run trace w) (paged : PageSize page)
  (granted : Trace.Grants (dealing o.runtime page) trace) (called : .called n t o.operation ∈ trace)
include run paged granted called

theorem Run.returned {op : Operation} {result : op.Result} (returned : .returned n t' op result ∈ trace) :
    ∃ code addr, ∃ r : Region, (⟨op,result⟩ : (op : Operation) × op.Result) = ⟨o.operation,code⟩ ∧
      .answered n t (.host o.runtime (.spawn (o.call addr))) code ∈ trace ∧
        trace.deals n = o.concluded (r.mapping o.runtime) addr code := by
  obtain ⟨home,track⟩ := run.offered paged granted rfl called
  obtain ⟨code,addr,r,-,same,deals⟩ := (run.ended (dealing_covers paged) granted returned).2 _ track
  have member : asked o.runtime (o.call addr) code ∈ trace.deals n := by
    rw [deals,Commission.concluded]
    split <;> simp
  obtain ⟨t₀,q,reply,answered,is⟩ := mem_counted.mp member
  cases of_asked is
  obtain rfl : t₀ = t := (run.answered_home answered).symm.trans home
  exact ⟨code,addr,r,same,answered,deals⟩

theorem Run.unaccepted {code : Int32} (returned : .returned n t' o.operation code ∈ trace) (refused : code ≠ 0) {t' : ThreadId} :
    .answered n t' (.host rt (.spawn call)) (0 : Int32) ∉ trace := by
  intro answered
  obtain ⟨code',addr,r,same,-,deals⟩ := run.returned paged granted called returned
  cases same
  have member : asked rt call 0 ∈ trace.deals n := mem_counted.mpr ⟨_,_,_,answered,rfl⟩
  rw [deals,Commission.concluded,if_neg refused] at member
  obtain ⟨-,-,zero⟩ : rt = o.runtime ∧ call = o.call addr ∧ 0 = code := by simpa using member
  exact refused zero.symm

end

theorem Run.fulfilled {t' : ThreadId} {rt : RuntimeId} {call : SpawnCall}
    (run : Run (after ++ .answered n t' (.host rt (.spawn call)) (0 : Int32) :: before) w) (paged : PageSize page)
    (granted : Trace.Grants (dealing o.runtime page) (after ++ .answered n t' (.host rt (.spawn call)) (0 : Int32) :: before))
    (called : .called n t o.operation ∈ after ++ .answered n t' (.host rt (.spawn call)) (0 : Int32) :: before) :
    Fulfilled o call t after (after ++ .answered n t' (.host rt (.spawn call)) (0 : Int32) :: before) w := by
  obtain ⟨rfl,rfl,r,addr,rfl,aligned,placed⟩ := run.wanted paged granted called
  have due {w₁} (run₁ : Run (.answered n t' (.host o.runtime (.spawn (o.call addr))) (0 : Int32) :: before) w₁) :
      w₁.Due (o.call addr) (o.record r) := by
    cases run₁ with
    | step run₀ going step => exact run₀.inv.due placed step
  rcases run.handed due with ⟨none,waits⟩ | ⟨later,k,thread,middle,rfl,first,fresh⟩
  · exact .waiting none waits
  · obtain ⟨w₁,run₁,-⟩ := run.earlier
    have other : thread ≠ t' := by
      rintro rfl
      exact fresh (.head before)
    have began : Event.began k thread (o.call addr) (o.record r) ∈
        (later ++ .began k thread (o.call addr) (o.record r) :: middle) ++
          .answered n t' (.host o.runtime (.spawn (o.call addr))) (0 : Int32) :: before := by simp
    have once {last earlier : Trace} {e : Event} (split : later = last ++ e :: earlier) (begins : e.Begins (o.call addr)) :
        ∃ e' ∈ earlier, e'.Accepts (o.call addr) := by
      cases e with
      | began k' t' call h =>
        obtain rfl : call = o.call addr := begins
        subst split
        simp only [List.append_assoc,List.cons_append] at run
        exact run.origin.again rfl
      | _ => exact begins.elim
    exact .begun rfl first once other (run.serving (h := o.record r) paged granted aligned (due run₁).rests.sits.addr_ne began)

section
variable {w₁ : World} (run : Run before w₀) (going : ¬w₀.Ended) (call : w₀.Step (.called n t o.operation) w₁)
  (onward : Onward w₁ log w) (paged : PageSize page)
  (granted : Trace.Grants (dealing o.runtime page) (log ++ .called n t o.operation :: before))
include run going call onward paged granted

theorem Run.caller (only : ∀ e ∈ log, e.thread = t → e.Within n) :
    w.image.threads t = w₀.image.threads t ∧ w.values t = w₀.values t := by
  have run₁ := run.step going call
  have called (log : Trace) : .called n t o.operation ∈ log ++ .called n t o.operation :: before := by simp
  induction onward with
  | nil =>
    cases call
    exact ⟨rfl,rfl⟩
  | @step log w₂ e w₃ onward going step ih =>
    obtain ⟨now,only⟩ := List.forall_mem_cons.mp only
    have earlier : Trace.Grants (dealing o.runtime page) (log ++ .called n t o.operation :: before) := granted.earlier
    obtain ⟨threads,values⟩ := ih earlier only
    rw [← threads,← values]
    by_cases here : e.thread = t
    · have within := now here
      cases e with
      | answered k t' q reply =>
        obtain rfl : k = n := within
        obtain ⟨threads,values⟩ := (run₁.onward onward).unchanged paged earlier (called log) step
        exact ⟨congrFun threads t,congrFun values t⟩
      | returned =>
        cases step
        exact ⟨rfl,rfl⟩
      | _ => exact within.elim
    · exact step.elsewhere here

theorem Run.live (only : ∀ e ∈ log, ∀ m, e.Maps m ∨ e.Unmaps m → e.Within n) :
    w.live = (Trace.deals (log ++ .called n t o.operation :: before) n).foldr Deal.live w₀.live ∧
      ∀ m, mapped m ∈ Trace.deals (log ++ .called n t o.operation :: before) n → m ∉ w₀.live := by
  have run₁ := run.step going call
  have called (log : Trace) : .called n t o.operation ∈ log ++ .called n t o.operation :: before := by simp
  induction onward with
  | nil =>
    have deals : Trace.deals (.called n t o.operation :: before) n = [] := run.uncounted call rfl
    cases call
    simp [deals,push,setFrames]
  | @step log w₂ e w₃ onward going step ih =>
    obtain ⟨now,only⟩ := List.forall_mem_cons.mp only
    have earlier : Trace.Grants (dealing o.runtime page) (log ++ .called n t o.operation :: before) := granted.earlier
    obtain ⟨live,new⟩ := ih earlier only
    by_cases within : e.Within n
    · cases e with
      | answered k t' q reply =>
        obtain rfl : k = n := within
        exact (run₁.onward onward).live_answer paged earlier (called log) step live new
      | returned =>
        cases step
        exact ⟨live,new⟩
      | _ => exact within.elim
    · have still : w₃.live = w₂.live := step.live_still fun m moves => within (now m moves)
      rw [still,List.cons_append,deals_other within]
      exact ⟨live,new⟩

end

/-- Where the surroundings of the runtime work and the pages are of a usual size, a spawn through the library is the plain
spawn, whatever the function, its argument, the geometry and the primitive's code are, and whatever else goes on. -/
theorem Run.interception {before log : Trace} {start called w : World} (run : Run before start) (going : ¬start.Ended)
    (call : start.Step (.called n t o.operation) called) (onward : Onward called log w) (paged : PageSize page)
    (smooth : (log ++ .called n t o.operation :: before).all (·.smooth o.runtime page)) :
    Interception o n t start log (log ++ .called n t o.operation :: before) w := by
  have granted := Trace.granted smooth
  have run' := (run.step going call).onward onward
  have begun : .called n t o.operation ∈ log ++ .called n t o.operation :: before := by simp
  constructor
  case passes =>
    intro t' rt call code answered
    obtain ⟨after,before,split⟩ := List.append_of_mem answered
    rw [split] at run' granted begun
    obtain ⟨home,runtime,r,addr,same,-⟩ := run'.wanted paged granted begun
    exact ⟨home,runtime,addr,same⟩
  case returned => exact fun returned => run'.returned paged granted begun returned
  case refused => exact fun returned refused => run'.unaccepted paged granted begun returned refused
  case origin =>
    intro after before k t' call record split
    rw [split] at run'
    exact run'.origin
  case accepted =>
    intro after before t' rt call split
    rw [split] at run' granted begun ⊢
    exact run'.fulfilled paged granted begun
  case unchanged => exact fun step => run'.unchanged paged granted begun step
  case caller => exact run.caller going call onward paged granted
  case live =>
    intro only t' code returned
    obtain ⟨live,new⟩ := run.live going call onward paged granted only
    obtain ⟨code',addr,r,same,-,deals⟩ := run'.returned paged granted begun returned
    cases same
    have made : mapped (r.mapping o.runtime) ∈ Trace.deals (log ++ .called n t o.operation :: before) n := by
      rw [deals,Commission.concluded]
      split <;> simp
    refine ⟨r.mapping o.runtime,made,?_⟩
    rw [live,deals,Commission.concluded]
    split
    next => rfl
    next => exact Mapping.drop_new (new _ made)
  case stopped =>
    intro t' op reason member
    obtain ⟨-,track⟩ := run'.offered paged granted rfl begun
    have keeps := run'.watched (dealing_covers paged) granted t' _ _ member track
    cases op with
    | spawn => exact keeps
    | start | body | destroy => exact keeps.elim

/-- The world goes on and may do so. -/
structure Ongoing (w : World) (s : Trace × World) : Prop where
  onward : Onward w s.1 s.2
  going : ¬s.2.Ended

theorem Ongoing.turns {refuses : Request → Bool} {k : Nat} {s : Trace × World} (ongoing : Ongoing w s) :
    Ongoing w (turns refuses t k s) := by
  apply turns_keep ongoing
  intro s e w' ongoing took
  exact ⟨.step ongoing.onward ongoing.going (turn_step took),turn_going took ongoing.going⟩

/-- A thread is wanted for a function, and its argument is six. -/
def vacancy : Commission := ⟨⟨1⟩,0,none,⟨5⟩,6⟩

/-- The main thread spawns it. -/
def vacated (refuses : Request → Bool) : Trace × World := turns refuses 0 200 ([],settled.2.push 0 vacancy.operation)

/-- The new thread runs as far as it goes. -/
def filled : Trace × World := arrive (fun _ => false) 1 ⟨0,none,.fromRecord,43016144⟩ (vacated fun _ => false)

/-- The primitive starts no thread. -/
def withdrawn : Trace × World :=
  vacated fun q => match q with
    | .host _ (.spawn _) => true
    | _ => false

theorem settled_outside : settled.2.Outside 0 := by
  have idle : settled.2.frames 0 = [] := by rfl
  simp [Outside,idle]

theorem vacancy_called : settled.2.Step (.called settled.2.count 0 vacancy.operation) (settled.2.push 0 vacancy.operation) :=
  .call (by decide +kernel) settled_outside rfl

theorem vacated_ongoing (refuses : Request → Bool) : Ongoing (settled.2.push 0 vacancy.operation) (vacated refuses) :=
  Ongoing.turns ⟨.nil,(settled_going.call (by decide +kernel) settled_outside rfl).going⟩

theorem filled_ongoing : Ongoing (settled.2.push 0 vacancy.operation) filled := by
  have before := vacated_ongoing fun _ => false
  have unborn : (vacated fun _ => false).2.lives 1 = .unborn := by decide +kernel
  have idle : (vacated fun _ => false).2.frames 1 = [] := by rfl
  exact Ongoing.turns ⟨before.onward.step before.going (.begin unborn (by decide +kernel)),
    begin_going before.going idle ⟨_,_,rfl⟩⟩

theorem filled_interception :
    Interception vacancy 1 0 settled.2 filled.1 (filled.1 ++ .called 1 0 vacancy.operation :: settled.1) filled.2 ∧
      .returned 1 0 vacancy.operation (0 : Int32) ∈ filled.1 ∧
      .returned 2 1 (.body .fromRecord 43016144) (6 : UInt64) ∈ filled.1 ∧
    Interception vacancy 1 0 settled.2 withdrawn.1 (withdrawn.1 ++ .called 1 0 vacancy.operation :: settled.1) withdrawn.2 ∧
      .returned 1 0 vacancy.operation (11 : Int32) ∈ withdrawn.1 ∧ withdrawn.2.live = settled.2.live := by
  have paged : PageSize 0x1000 := ⟨⟨12,rfl⟩,by decide⟩
  have code : (vacated fun _ => false).1.head? = some (.returned 1 0 vacancy.operation (0 : Int32)) := by rfl
  have result : filled.1.head? = some (.returned 2 1 (.body .fromRecord 43016144) (6 : UInt64)) := by rfl
  have refused : withdrawn.1.head? = some (.returned 1 0 vacancy.operation (11 : Int32)) := by rfl
  refine ⟨?_,?_,List.mem_of_head? result,?_,List.mem_of_head? refused,by decide +kernel⟩
  · exact settled_run.interception settled_going.going vacancy_called filled_ongoing.onward paged (by decide +kernel)
  · exact mem_turns (List.mem_cons_of_mem _ (List.mem_of_head? code))
  · exact settled_run.interception settled_going.going vacancy_called (vacated_ongoing _).onward paged (by decide +kernel)

end World
end GuardedStack
