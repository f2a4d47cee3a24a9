import GuardedStack.Proofs.Footing
import GuardedStack.Proofs.Isolation
import GuardedStack.Proofs.Terms

/-! What a new thread finds when its function is called: the region that was made for it, from the very attributes that the
host had reported, all of it its own, with the pointer at an aligned top, the key armed and the record gone. -/
namespace GuardedStack

open Term

/-- The answer, if this is one, is as the runtime's mapper should give it. -/
def Event.even (rt : RuntimeId) (page : UInt64) : Event → Bool
  | answered _ _ q reply => q.even rt page reply
  | _ => true

/-- Where the thread's pointer is moved to by compiled code. -/
def Event.pointed (t : ThreadId) : Event → Option UInt64
  | moved t' pointer => if t' = t then some pointer else none
  | _ => none

namespace World

/-- What an operation was told, the newest first. -/
def Trace.terms (trace : Trace) (n : Nat) : List Term := trace.counted Term.ofReply n

/-- A host has not set the runtime's key and has said why. -/
def Trace.Unkeyed (trace : Trace) (rt : RuntimeId) (cause : Fault) : Prop :=
  ∃ n t key value, .answered n t (.host rt (.setCleanupValue key value)) (.error cause) ∈ trace

/-- Where compiled code has left the thread's pointer, if it has moved it. -/
def Trace.pointed (trace : Trace) (t : ThreadId) : Option UInt64 := trace.findSome? (Event.pointed t)

variable {trace before after : Trace} {w w' : World} {e : Event} {t : ThreadId} {n k : Nat} {rt : RuntimeId} {page : UInt64}
  {causes : Fault → Prop} {addr : UInt64} {h : Handoff} {blanked : Bool}

theorem Trace.launching (even : trace.all (·.even rt page)) (keyed : ∀ {cause}, trace.Unkeyed rt cause → causes cause) :
    Trace.Grants (launching rt page causes) trace := by
  intro n t q reply member
  refine ⟨List.all_eq_true.mp even _ member,?_⟩
  unfold Request.Keyed
  split
  · rintro rfl
    exact keyed ⟨n,t,_,_,member⟩
  · trivial

/-- What is stored is as long as a record, and lies where a record may in the mapping that is in the hand. -/
theorem Inv.stores {bytes : List UInt8} (inv : w.Inv trace) (stores : (trace.custodies n).Stores addr bytes) :
    bytes.length = Handoff.size.toNat ∧ ∃ g : Handoff, (w.estate trace).Holds (.call n) g.mapping ∧ g.Sits addr ∧
      ∀ h, (trace.custodies n).hand ≠ .installed h := by
  cases stores with
  | @place g held _ sits same =>
    exact ⟨by rw [same,Handoff.length_encode],g,.call (congrArg Hand.mapping held),sits,by simp [held]⟩
  | @blank g placed same =>
    have rests := inv.exact_.placed (e := w.estate trace) placed
    exact ⟨by rw [same]; simp [Handoff.blank],g,.call (congrArg Hand.mapping placed),rests.sits,by simp [placed]⟩

/-- A thread that runs what new threads run is not in its exit. -/
theorem Run.alive {f : Frame} {routine : StartRoutine} {arg : UInt64} (run : Run trace w) (member : f ∈ w.frames t)
    (body : f.operation = .body routine arg) : w.lives t = .alive := by
  induction run generalizing f with
  | nil initial => simp [initial.frames] at member
  | @step trace w e w' run going step ih =>
    rcases step.frames member with ⟨opens,started⟩ | ⟨g,earlier,-,same⟩
    · rw [body] at started
      cases step with
      | call _ _ named =>
        obtain rfl := Option.some.inj started
        cases named
      | @begin t' call unborn accepted =>
        by_cases mine : t = t'
        · simp [setLife,mine]
        · have number : w.count = f.number := opens
          have old := run.inv.orderly.old (f := f) (t := t) (by simpa [setLife,push,setFrames,mine] using member)
          omega
      | fire => cases started
      | _ => cases started
    · have alive := ih earlier (same.trans body)
      cases step with
      | @begin t' => by_cases mine : t = t' <;> simp [setLife,push,setFrames,mine,alive]
      | answer here answers => simpa [setFrames,answers.kept.2.2] using alive
      | @exit t' =>
        by_cases mine : t = t'
        · simp [setLife,setFrames,mine] at member
        · simpa [setLife,setFrames,mine] using alive
      | @round t' _ _ _ idle | @skip t' _ _ _ _ idle | @fire t' _ _ _ _ _ idle | @foreign t' _ _ _ _ idle =>
        have other : t ≠ t' := by
          rintro rfl
          simp [idle] at earlier
        simpa [setLife,push,setFrames,setValue,other] using alive
      | call | ret | move | key => exact alive

/-- The pointer of a thread with a stack is at the top or where compiled code has left it. -/
theorem Run.pointed {h : Holding} (run : Run trace w) (stack : (w.image.threads t).holding = some h) :
    (w.image.threads t).pointer = h.region.top ∨ trace.pointed t = some (w.image.threads t).pointer := by
  induction run with
  | nil initial => simp [initial.threads,ThreadStack.empty] at stack
  | @step trace w e w' run going step ih =>
    cases step with
    | @answer t' n op q next below reply w' here answers =>
      change (w'.image.threads t).holding = some h at stack
      change (w'.image.threads t).pointer = h.region.top ∨ trace.pointed t = some (w'.image.threads t).pointer
      rcases answers.threads with same | ⟨s,rfl,same⟩
      · rw [same] at stack ⊢
        exact ih stack
      · by_cases mine : t = t'
        · subst mine
          rw [same,replace_same] at stack ⊢
          rw [(run.inv.may here).2.holding.mp stack]
          exact .inl rfl
        · rw [same,replace_other _ _ mine] at stack ⊢
          exact ih stack
    | @move t' h' pointer =>
      by_cases mine : t = t'
      · subst mine
        exact .inr (by simp [Trace.pointed,Event.pointed,setStack])
      · simpa [Trace.pointed,Event.pointed,setStack,mine,Ne.symm mine] using ih (by simpa [setStack,mine] using stack)
    | call | begin | ret | key | exit | round | skip | fire | foreign => exact ih stack

/-! A thread that began from a record, while no initialization writes its stack. -/

section
variable (run : Run trace w) (clean : trace.Clean t) (begun : trace.begun t = some h) {f : Frame} (member : f ∈ w.frames t)
include run clean begun member

/-- Before the key is armed, the thread has the record's region. -/
theorem Run.arming_stack (role : (trace.custodies f.number).role = .arming) :
    (w.image.threads t).holding = some h.holding := by
  obtain ⟨key,-,stage⟩ := (run.tenure clean).stage run.inv run.lineage begun
  exact stage.installed (n := f.number) ⟨run.inv.orderly.home member,role,trivial⟩

/-- Once the key is armed, the thread has the region and the value. -/
theorem Run.settled_stack {routine : StartRoutine} {arg : UInt64} (role : (trace.custodies f.number).role = .settled)
    (body : f.operation = .body routine arg) : (w.image.threads t).holding = some h.holding ∧
      ∃ key, (w.image.runtimes h.runtime).key = some key ∧ w.values t (.cleanup h.runtime key) = armed := by
  have tenure := run.tenure clean
  obtain ⟨key,found,stage⟩ := tenure.stage run.inv run.lineage begun
  have calm (k : Nat) (r : Role) : ¬trace.acting t k r := by
    intro acts
    obtain ⟨g,there,rfl⟩ := tenure.acting acts
    obtain ⟨-,rfl,acting⟩ := acts
    obtain rfl := (run.inv.orderly.tidy t).lowest there member acting.base (by rw [role]; trivial)
    rw [role] at acting
    exact acting
  obtain ⟨stack,value⟩ := stage.living calm (run.alive member body)
  exact ⟨stack,key,found,value⟩

end

/-! What the watch says in a run. -/

/-- A new thread is watched from the beginning. -/
theorem Run.landed {call : SpawnCall} (run : Run trace w) (own : h.runtime = rt) (aligned : h.region.Aligned) (present : call.arg ≠ 0)
    (began : .began k t call h ∈ trace) :
    trace.homes k = t ∧ ∃ blanked, (launching rt page causes).track trace k = some (.arrival call.arg h blanked) := by
  obtain ⟨home,x,track,blanked,rfl⟩ := run.opened (v := launching rt page causes)
    (P := fun x => ∃ blanked, x = .arrival call.arg h blanked) began rfl
    ⟨_,congrArg (Option.map _) (if_pos ⟨own,aligned,present⟩),false,rfl⟩ (by rintro _ q reply ⟨blanked,rfl⟩; exact ⟨_,rfl⟩)
  exact ⟨by simpa [Event.homes] using home,blanked,track⟩

section
variable (run : Run trace w) (paged : PageSize page) (granted : Trace.Grants (launching rt page causes) trace)
include run paged granted

/-- A spawn is watched from the beginning. -/
theorem Run.terms {o : Commission} (own : o.runtime = rt) (called : .called n t o.operation ∈ trace) :
    trace.homes n = t ∧ (launching rt page causes).track trace n = some (.offer o (trace.terms n)) := by
  obtain ⟨home,x,track,told,rfl⟩ := run.opened (v := launching rt page causes) (P := fun x => ∃ told, x = .offer o told)
    called rfl ⟨_,congrArg (Option.map _) (if_pos own),[],rfl⟩ (by rintro _ q reply ⟨told,rfl⟩; exact ⟨_,rfl⟩)
  have same := run.tracked (I := fun trace n _ x => ∀ {o told}, x = .offer o told → told = trace.terms n)
    (launching_covers paged) granted ?_ ?_ ?_ track rfl
  · exact ⟨by simpa [Event.homes] using home,same ▸ track⟩
  · rintro trace w e w' n x run step opens starts o told rfl
    have nothing : Trace.terms (e :: trace) n = [] := run.uncounted step opens
    rcases Launching.of_start starts with ⟨_,_,_,-,-,same⟩ | ⟨_,_,_,_,-,-,-,-,same⟩
    · rw [nothing]
      exact (Launching.offer.inj same).2
    · cases same
  · rintro trace n t op q reply x - - - before o told same
    have terms : Trace.terms (.answered n t q reply :: trace) n = (ofReply q reply).toList ++ trace.terms n := counted_answered
    cases x with
    | offer o' earlier =>
      obtain rfl := (Launching.offer.inj same).2
      rw [terms,← before rfl]
    | arrival => cases same
  · rintro trace e n t x other before o told same
    have terms : Trace.terms (e :: trace) n = trace.terms n := counted_other other
    rw [terms]
    exact before same

/-- The record of a new thread lay in its own region when the thread began. -/
theorem Run.landing (track : (launching rt page causes).track trace k = some (.arrival addr h blanked)) :
    h.Sits addr ∧ ∃ call, call.arg = addr ∧ .began k (trace.homes k) call h ∈ trace := by
  refine run.tracked (I := fun trace n t x => ∀ {addr h blanked}, x = .arrival addr h blanked →
    h.Sits addr ∧ ∃ call, call.arg = addr ∧ .began n t call h ∈ trace) (launching_covers paged) granted ?_ ?_ ?_ track rfl
  · rintro trace w e w' n x run step opens starts addr h blanked rfl
    rcases Launching.of_start starts with ⟨_,_,_,-,-,same⟩ | ⟨k,t,call,record,-,-,-,rfl,same⟩
    · cases same
    · cases same
      obtain rfl : k = n := opens
      cases step with
      | begin unborn member =>
        obtain ⟨g,rests,record⟩ := run.inv.record member
        rw [record]
        exact ⟨rests.sits,call,rfl,by simp [Trace.homes,Event.homes]⟩
  · rintro trace n t op q reply x - - - before addr h blanked same
    cases x with
    | offer => cases same
    | arrival addr' h' earlier =>
      obtain ⟨rfl,rfl,-⟩ := Launching.arrival.inj same
      obtain ⟨sits,call,arg,began⟩ := before rfl
      exact ⟨sits,call,arg,List.mem_cons_of_mem _ began⟩
  · rintro trace e n t x other before addr h blanked same
    obtain ⟨sits,call,arg,began⟩ := before same
    exact ⟨sits,call,arg,List.mem_cons_of_mem _ began⟩

/-- From when a new thread has blanked its record, it has the mapping in its hand or its region as its stack. -/
theorem Run.blank_hand (going : ¬w.Ended) {f : Frame} (member : f ∈ w.frames t)
    (track : (launching rt page causes).track trace f.number = some (.arrival addr h true)) (clean : trace.Clean t) :
    (trace.custodies f.number).hand = .held h.mapping ∨ (w.image.threads t).holding = some h.holding := by
  have home := run.inv.orderly.home member
  obtain ⟨-,call,-,began⟩ := run.landing paged granted track
  rw [home] at began
  have begun := (run.begun began).1
  have known := run.operation began rfl member
  have keeps := run.watched (launching_covers paged) granted t f _ member track
  have follows := (run.inv.orderly.tidy t).follows member
  obtain ⟨number,op,rest⟩ := f
  obtain rfl : Operation.body call.start call.arg = op := Option.some.inj known
  have settled (role : (trace.custodies number).role = .settled) : (w.image.threads t).holding = some h.holding :=
    (run.settled_stack clean begun member role rfl).1
  cases rest with
  | ask q next =>
    cases keeps.1.2 with
    | install held => exact .inl held
    | arm role => exact .inr (run.arming_stack clean begun member role)
    | enter role => exact .inr (settled role)
  | done result => exact .inr (settled follows.2)
  | stop reason => exact absurd ⟨t,_,member,reason,rfl⟩ going

/-- What others store leaves a blanked record blank. -/
theorem Run.blank_kept (going : ¬w.Ended) {f : Frame} (member : f ∈ w.frames t)
    (track : (launching rt page causes).track trace f.number = some (.arrival addr h true)) (clean : trace.Clean t)
    (blank : w.image.memory.load addr Handoff.size.toNat = Handoff.blank) {other : UInt64} {bytes : List UInt8}
    (stores : (trace.custodies n).Stores other bytes) (ne : n ≠ f.number) :
    (w.image.memory.store other bytes).load addr Handoff.size.toNat = Handoff.blank := by
  have inv := run.inv
  obtain ⟨fits,g,mine,there,free⟩ := inv.stores stores
  -- The other operation writes into its own mapping, and this thread's has another holder.
  have apart : h.mapping.Apart g.mapping := by
    rcases run.blank_hand paged granted going member track clean with held | stack
    · have holds : (w.estate trace).Holds (.call f.number) h.mapping := .call (congrArg Hand.mapping held)
      exact inv.exact_.apart_of_holders holds mine (by simpa using Ne.symm ne)
    · obtain ⟨o,holds,thread⟩ := Estate.Holds.of_installed (e := w.estate trace) stack
      refine inv.exact_.apart_of_holders holds mine ?_
      rcases thread with rfl | ⟨k,rfl,installed⟩
      · simp
      · rintro ⟨⟩
        exact free _ installed
  rw [(run.landing paged granted track).1.load_store there fits apart]
  exact blank

/-- The new thread itself blanks its record and then writes no memory. -/
theorem Run.blank_answer {op : Operation} {q : Request} {next : q.Reply → Program op.Result} {below : List Frame}
    {reply : q.Reply} (here : w.frames t = ⟨n,op,.ask q next⟩ :: below) (answers : w.Answers t q reply w')
    (track : (launching rt page causes).track (.answered n t q reply :: trace) n = some (.arrival addr h true))
    (before : (launching rt page causes).track trace n = some (.arrival addr h true) →
      w.image.memory.load addr Handoff.size.toNat = Handoff.blank) :
    w'.image.memory.load addr Handoff.size.toNat = Handoff.blank := by
  have head : ⟨n,op,.ask q next⟩ ∈ w.frames t := by simp [here]
  obtain ⟨x,earlier,same⟩ : ∃ x, (launching rt page causes).track trace n = some x ∧ x.after q reply = .arrival addr h true := by
    simpa [Watch.track,Watch.moved,Option.map_eq_some_iff,launching] using track
  have keeps := (run.watched (launching_covers paged) granted t _ x head earlier).1
  have still (silent : q.stores = false) : w'.image.memory = w.image.memory := by
    rcases answers.memory with same | ⟨_,_,rfl,-⟩
    · exact same
    · cases silent
  cases x with
  | offer => cases same
  | arrival addr' h' blanked =>
    obtain ⟨rfl,rfl,blanks⟩ := Launching.arrival.inj same
    cases keeps.2 with
    | read => cases blanks
    | blank =>
      obtain ⟨-,rfl⟩ := answers
      exact w.image.memory.load_store addr' (by decide)
    | install _ silent | arm _ silent =>
      rw [still silent]
      exact before earlier
    | enter =>
      rw [still rfl]
      exact before earlier

end

/-- Nothing is written where a record was, as long as its thread is there. -/
theorem Run.blank (run : Run trace w) (paged : PageSize page) (granted : Trace.Grants (launching rt page causes) trace)
    (clean : trace.Clean t) {f : Frame} (member : f ∈ w.frames t)
    (track : (launching rt page causes).track trace f.number = some (.arrival addr h true)) :
    w.image.memory.load addr Handoff.size.toNat = Handoff.blank := by
  induction run generalizing f with
  | nil => cases track
  | @step trace w e w' run going step ih =>
    have ih {f} := ih granted.earlier clean.earlier (f := f)
    by_cases concerned : e.Concerns f.number
    · by_cases opens : e.Opens f.number
      · rw [track_opens opens] at track
        rcases Launching.of_start track with ⟨_,_,_,-,-,same⟩ | ⟨_,_,_,_,-,-,-,-,same⟩ <;> cases same
      · have home := (run.step going step).inv.orderly.home member
        cases step with
        | @answer t' n op q next below reply w' here answers =>
          obtain rfl : n = f.number := concerned
          obtain rfl : t' = t := (run.inv.home here).symm.trans home
          show w'.image.memory.load addr _ = _
          exact run.blank_answer paged granted.earlier here answers track (ih (f := ⟨f.number,op,.ask q next⟩) (by simp [here]))
        | call | begin | fire => exact absurd concerned opens
        | _ => exact concerned.elim
    · rw [(unconcerned (launching rt page causes) trace concerned).1] at track
      rcases step.frames member with ⟨opens,-⟩ | ⟨g,before,number,-⟩
      · exact absurd opens.concerns concerned
      · rw [← number] at track concerned
        have blank := ih before track
        cases step with
        | @answer t' n op q next below reply w' here answers =>
          show w'.image.memory.load addr _ = _
          rcases answers.memory with same | ⟨other,bytes,rfl,same⟩
          · rw [same]
            exact blank
          · rw [same]
            exact run.blank_kept paged granted.earlier going before track clean.earlier blank (run.inv.may here) concerned
        | call | begin | ret | move | key | exit | round | skip | fire | foreign => exact blank

/-- What a new thread finds when its function is called, and keeps until the function returns but for the pointer. -/
structure Entry (h : Holding) (t : ThreadId) (trace : Trace) (w : World) : Prop where
  /-- The pointer is at the top, if whatever code has moved it has brought it back. -/
  pointer : (∀ pointer, trace.pointed t = some pointer → pointer = h.region.top) →
    (w.image.threads t).pointer = h.region.top
  region : (w.image.threads t).region = some h.region
  owner : (w.image.threads t).owner = some h.owner
  base : (w.image.threads t).base = h.region.base
  top : (w.image.threads t).top = h.region.top
  guard : (w.image.threads t).guard = h.region.guard
  armed : ∃ key, (w.image.runtimes h.owner).key = some key ∧ w.values t (.cleanup h.owner key) = armed
  live : h.mapping ∈ w.live ∧ Untouched h.mapping trace
  /-- No other thread's bookkeeping names a region there. -/
  others : ∀ {t' h'}, t' ≠ t → (w.image.threads t').holding = some h' → h'.mapping.Apart h.mapping
  /-- No record that is still to be read lies there or tells of a region there. -/
  records : ∀ {addr record}, Unread addr record trace → record.mapping.Apart h.mapping
  /-- Where the record was there are zeros. -/
  blank : w.image.memory.load (h.region.top - Handoff.size) Handoff.size.toNat = Handoff.blank

/-- The thread `k` has begun with the record. -/
structure Launched (record : Handoff) (k : Nat) (t : ThreadId) (trace : Trace) (w : World) : Prop where
  /-- It stops only if the key was not set, and says why it was not. -/
  stops : ∀ {t' op reason}, ⟨k,op,.stop reason⟩ ∈ w.frames t' →
    ∃ cause, trace.Unkeyed record.runtime cause ∧ reason = .aborted (.fault Diagnostics.Duty.arming.text cause)
  /-- It calls no function but the record's. -/
  calls : ∀ {t' f entry arg}, f ∈ w.frames t' → f.number = k → f.Asks (.enter entry arg) →
    t' = t ∧ entry = record.start ∧ arg = record.arg
  /-- When it calls that, everything is in place, unless an initialization was made on the thread while its key was set. -/
  enters : ∀ {f entry arg}, f ∈ w.frames t → f.number = k → f.Asks (.enter entry arg) → trace.Clean t →
    Entry record.holding t trace w

/-- What comes of a spawn that has reached the primitive and started a thread, where `after` has happened since. The host
had reported the attributes `a`, and one mapping was made, at `start`. -/
structure Launch (o : Commission) (n : Nat) (call : SpawnCall) (a : StackAttributes) (start : UInt64)
    (after before trace : Trace) (w : World) : Prop where
  told : before.terms n = [mapped ⟨o.runtime,start,a.size + a.guard⟩,given o.runtime a]
  top : (a.region start).top.toNat = start.toNat + a.guard.toNat + a.size.toNat
  aligned : 16 ∣ (a.region start).top.toNat
  asked : call = o.call ((a.region start).top - Handoff.size)
  /-- The thread that begins for this does so with the region, and as the caller wants it. -/
  begins : ∀ {later k t record middle}, after = later ++ .began k t call record :: middle → (∀ e ∈ middle, ¬e.Begins call) →
    record = o.record (a.region start) ∧ Launched record k t trace w

section
variable (inv : w.Inv trace)
include inv

/-- Stacks of different threads lie apart. -/
theorem Inv.stacks_apart {t' : ThreadId} {h h' : Holding} (stack : (w.image.threads t).holding = some h)
    (stack' : (w.image.threads t').holding = some h') (other : t' ≠ t) : h'.mapping.Apart h.mapping := by
  obtain ⟨o,holds,thread⟩ := Estate.Holds.of_installed (e := w.estate trace) stack
  obtain ⟨o',holds',thread'⟩ := Estate.Holds.of_installed (e := w.estate trace) stack'
  refine inv.exact_.apart_of_holders holds' holds ?_
  rcases thread with rfl | ⟨n,rfl,installed⟩ <;> rcases thread' with rfl | ⟨n',rfl,installed'⟩
  · simpa using other
  · simp
  · simp
  · -- One operation has installed at most one region, and that on its own thread.
    rintro ⟨⟩
    obtain rfl : h' = h := Hand.installed.inj (installed'.symm.trans installed)
    have home : trace.homes n = t := inv.exact_.installed installed stack
    have home' : trace.homes n = t' := inv.exact_.installed installed' stack'
    exact other (home'.symm.trans home)

/-- A record that is still to be read tells of a region that is nobody's stack yet. -/
theorem Inv.record_apart {h : Holding} {record : Handoff} (stack : (w.image.threads t).holding = some h)
    (lies : Lies trace w addr record) : record.mapping.Apart h.mapping := by
  obtain ⟨o,holds,thread⟩ := Estate.Holds.of_installed (e := w.estate trace) stack
  obtain ⟨-,o',holds',holder⟩ := inv.resting lies
  refine inv.exact_.apart_of_holders holds' holds ?_
  rcases holder with ⟨call,rfl⟩ | ⟨n,rfl,placed⟩ <;> rcases thread with rfl | ⟨k,rfl,installed⟩
  · simp
  · simp
  · simp
  · rintro ⟨⟩
    cases placed.symm.trans installed

end

/-- A thread that has begun with the record of an aligned region. -/
theorem Run.launched {call : SpawnCall} (run : Run trace w) (paged : PageSize page)
    (even : trace.all (·.even h.runtime page)) (aligned : h.region.Aligned) (place : call.arg = h.region.top - Handoff.size)
    (present : call.arg ≠ 0) (began : .began k t call h ∈ trace) : Launched h k t trace w := by
  have granted : Trace.Grants (launching h.runtime page (trace.Unkeyed h.runtime)) trace := Trace.launching even id
  have covers : (launching h.runtime page (trace.Unkeyed h.runtime)).Covers := launching_covers paged
  obtain ⟨home,blanked,track⟩ : trace.homes k = t ∧ ∃ blanked, (launching h.runtime page (trace.Unkeyed h.runtime)).track
      trace k = some (.arrival call.arg h blanked) := run.landed rfl aligned present began
  have begun := (run.begun began).1
  -- An operation that calls a function has done its part, so it blanked the record before.
  have entering {t' f entry arg} (member : f ∈ w.frames t') (number : f.number = k) (asks : f.Asks (.enter entry arg)) :
      (entry = h.start ∧ arg = h.arg) ∧ blanked = true ∧ (trace.custodies k).role = .settled := by
    subst number
    obtain ⟨empty,role⟩ := run.inv.asks_may member asks
    have keeps := run.watched covers granted t' f _ member track
    obtain ⟨next,rest⟩ := asks
    rw [rest] at keeps
    refine ⟨?_,?_,role⟩
    · cases keeps.1.2 with
      | install held => simp [empty] at held
      | arm arming => simp [role] at arming
      | enter => exact ⟨rfl,rfl⟩
    · cases keeps.1.2 <;> rfl
  constructor
  case stops =>
    intro t' op reason member
    have keeps := run.watched covers granted t' _ _ member track
    have known := run.operation (f := ⟨k,op,.stop reason⟩) began rfl member
    obtain rfl : Operation.body call.start call.arg = op := Option.some.inj known
    exact keeps
  case calls =>
    intro t' f entry arg member number asks
    refine ⟨?_,(entering member number asks).1⟩
    rw [← run.inv.orderly.home member,number,home]
  case enters =>
    intro f entry arg member number asks clean
    obtain ⟨-,rfl,role⟩ := entering member number asks
    subst number
    have body : Operation.body call.start call.arg = f.operation := Option.some.inj (run.operation began rfl member)
    obtain ⟨stack,keyed⟩ := run.settled_stack clean begun member role body.symm
    exact {
      pointer := fun back => (run.pointed stack).elim id (back _)
      region := by simp [ThreadStack.region,stack]
      owner := by simp [ThreadStack.owner,stack]
      base := by simp [ThreadStack.base,ThreadStack.region,stack]
      top := by simp [ThreadStack.top,ThreadStack.region,stack]
      guard := by simp [ThreadStack.guard,ThreadStack.region,stack]
      armed := keyed
      live := (run.footing.stack stack).2
      others := fun other stack' => run.inv.stacks_apart stack stack' other
      records := fun unread => run.inv.record_apart stack (run.lies unread)
      blank := by
        have zeros := run.blank paged granted clean member track
        rwa [place] at zeros }

/-- The thread that begins first for an acceptance finds the record that was placed for it. -/
theorem Run.first_record {call : SpawnCall} {record : Handoff} {middle : Trace}
    (run : Run (.began k t call record :: middle ++ before) w) (due : ∀ {w₀}, Run before w₀ → w₀.Due call h)
    (first : ∀ e ∈ middle, ¬e.Begins call) : record = h := by
  cases run with
  | step run going step =>
    rcases Run.handed run due with ⟨-,waits⟩ | ⟨later,k',t',middle',same,-⟩
    · rcases run.inv.hand waits step with ⟨other,-⟩ | ⟨k',t',-,same⟩
      · exact absurd rfl other
      · injection same
    · exact absurd rfl (first (.began k' t' call h) (by simp [same]))

/-- What the creating thread checks of a reported geometry is enough for the new thread: wherever the pages are of a usual
size and the runtime's mappings start at multiples of it, a spawn that reaches the primitive and starts a thread gives it a
region of exactly the reported sizes, and the thread gets to its function on this region or stops for want of its key. -/
theorem Run.entry {o : Commission} {t' : ThreadId} {call : SpawnCall}
    (run : Run (after ++ .answered n t' (.host rt (.spawn call)) (0 : Int32) :: before) w) (paged : PageSize page)
    (even : (after ++ .answered n t' (.host rt (.spawn call)) (0 : Int32) :: before).all (·.even o.runtime page))
    (called : .called n t o.operation ∈ after ++ .answered n t' (.host rt (.spawn call)) (0 : Int32) :: before) :
    ∃ a start, Launch o n call a start after before
      (after ++ .answered n t' (.host rt (.spawn call)) (0 : Int32) :: before) w := by
  obtain ⟨earlier,w₀,w₁,run₀,going,step⟩ := run.answering called rfl
  have granted : Trace.Grants (launching o.runtime page fun _ => True) before := by
    refine Trace.launching (List.all_eq_true.mpr fun e member => ?_) fun _ => trivial
    exact List.all_eq_true.mp even e (List.mem_append_right after (List.mem_cons_of_mem _ member))
  obtain ⟨-,track⟩ := run₀.terms paged granted rfl earlier
  obtain ⟨a,start,launches⟩ : ∃ a start, Launches o (before.custodies n) (before.terms n) a start rt call := by
    cases step with
    | answer here answers =>
      have keeps := run₀.watched (launching_covers paged) granted t' ⟨n,_,_⟩ _ (by rw [here]; exact .head _) track
      exact keeps.1.2 rfl
  obtain ⟨rfl,told,sound,aligned,asked,placed⟩ := launches
  have place : call.arg = (a.region start).top - Handoff.size := by rw [asked]; rfl
  rw [← place] at placed
  have due {w₁} (run₁ : Run (.answered n t' (.host o.runtime (.spawn call)) (0 : Int32) :: before) w₁) :
      w₁.Due call (o.record (a.region start)) := by
    cases run₁ with
    | step run₀ going step => exact run₀.inv.due placed step
  refine ⟨a,start,?_,?_,Region.aligned_iff.mp aligned,asked,?_⟩
  · rw [told,Region.mapping,StackAttributes.start_region]
    rfl
  · rw [sound.top_toNat,StackAttributes.start_region]
    rfl
  · rintro later k thread record middle rfl first
    have began : Event.began k thread call record ∈ (later ++ .began k thread call record :: middle) ++
        .answered n t' (.host o.runtime (.spawn call)) (0 : Int32) :: before := by simp
    obtain ⟨w₁,run₁,-⟩ := Run.earlier (List.append_assoc later _ _ ▸ run)
    obtain rfl := run₁.first_record due first
    obtain ⟨w₂,run₂,-⟩ := Run.earlier (show Run ((_ :: middle) ++ _) w₁ from run₁)
    exact ⟨rfl,run.launched paged even aligned place (due run₂).rests.sits.addr_ne began⟩

/-- The call with which the wanted thread was accepted. -/
def boarding : SpawnCall := ⟨0,none,.fromRecord,43016144⟩

/-- The wanted thread has begun, and has got to its function. -/
def boarded : Trace × World :=
  turns (fun _ => false) 1 6
    (.began posted.2.count 1 boarding (.decode (posted.2.image.memory.load boarding.arg Handoff.size.toNat)) :: posted.1,
      { (posted.2.push 1 (.body boarding.start boarding.arg)).setLife 1 .alive with
        accepted := posted.2.accepted.erase boarding })

theorem boarded_going : Going boarded := by
  have unborn : posted.2.lives 1 = .unborn := by decide +kernel
  have idle : posted.2.frames 1 = [] := by rfl
  exact Going.turns ⟨.step posted_going.run posted_going.going (.begin unborn (by decide +kernel)),
    begin_going posted_going.going idle ⟨_,_,rfl⟩⟩

theorem boarded_clean : boarded.1.Clean 1 := by
  apply boarded_going.run.clean
  have first : ∀ n rt, .called n 1 (.start rt) ∉ settled.1 := uncalled_turns (by simp)
  have second : ∀ n rt, .called n 1 (.start rt) ∉ posted.1 := uncalled_turns (by simpa [vacancy] using first)
  exact uncalled_turns (by simpa using second)

theorem boarded_entry : ∃ a start, a = ⟨16384,4096⟩ ∧ start = 42995712 ∧
    Launch vacancy 1 boarding a start (boarded.1.take 8) (boarded.1.drop 9) boarded.1 boarded.2 ∧
      Entry ⟨a.region start,⟨1⟩⟩ 1 boarded.1 boarded.2 ∧ (boarded.2.image.threads 1).pointer = 43016192 := by
  have split : boarded.1 = boarded.1.take 8 ++ .answered 1 0 (.host ⟨1⟩ (.spawn boarding)) (0 : Int32) :: boarded.1.drop 9 := by
    rfl
  have run := boarded_going.run
  have even : boarded.1.all (·.even ⟨1⟩ 0x1000) := by decide +kernel
  have called : .called 1 0 vacancy.operation ∈ boarded.1 := mem_turns (List.mem_cons_of_mem _ (mem_turns (.head _)))
  rw [split] at run even called
  obtain ⟨a,start,launch⟩ := run.entry ⟨⟨12,rfl⟩,by decide⟩ even called
  rw [← split] at launch
  have told : Trace.terms (boarded.1.drop 9) 1 = [mapped ⟨⟨1⟩,42995712,20480⟩,given ⟨1⟩ ⟨16384,4096⟩] := by rfl
  obtain ⟨rfl,rfl⟩ : a = ⟨16384,4096⟩ ∧ start = 42995712 := by
    have same := launch.told.symm.trans told
    simp at same
    obtain ⟨⟨-,start_eq,-⟩,-,a_eq⟩ := same
    exact ⟨a_eq,start_eq⟩
  have began : boarded.1.take 8 = boarded.1.take 6 ++ .began 2 1 boarding (vacancy.record ⟨42999808,16384,4096⟩) ::
      [.returned 1 0 vacancy.operation (0 : Int32)] := by rfl
  have launched := (launch.begins began (by simp [Event.Begins])).2
  have pending : ∃ f ∈ boarded.2.frames 1, f.number = 2 ∧ f.Asks (.enter ⟨5⟩ 6) := ⟨_,.head _,rfl,_,rfl⟩
  obtain ⟨f,member,number,asks⟩ := pending
  have entry := launched.enters member number asks boarded_clean
  have still : boarded.1.pointed 1 = none := by rfl
  exact ⟨_,_,rfl,rfl,launch,entry,entry.pointer (by simp [still])⟩

end World
end GuardedStack
