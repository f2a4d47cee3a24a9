import GuardedStack.Proofs.Course

/-! The runtime's own thread: the initialization that succeeds leaves its region there, and nothing ever takes it
back. -/
namespace GuardedStack

/-- An operation starts a runtime with one request, and gives up what it has installed with that request alone. -/
inductive Custody.Shift (c : Custody) (q : Request) (c' : Custody) : Prop
  | same : c'.role = c.role → (∀ h, c.hand = .installed h → c'.hand ≠ .empty) → Shift c q c'
  | part : (∀ h, c.role ≠ .started h) → (∀ h, c'.role ≠ .started h) →
      (∀ h, c.hand = .installed h → c'.hand ≠ .empty) → Shift c q c'
  | start {h : Holding} {rt : RuntimeId} : q = .state (.setPhase rt .ready) → c.role = .starting rt true →
      c.hand = .installed h → c'.role = .started h → Shift c q c'

namespace Custody

variable {c : Custody} {q : Request} {reply : q.Reply}

theorem shift (may : c.May q) : c.Shift q (c.after q reply) := by
  have forget {q : Request} : c.Shift q c.forget := .same rfl fun h installed => by simp [forget,installed]
  cases q with
  | enter entry arg => exact forget
  | mapper rt call =>
    cases call with
    | pageSize => exact forget
    | protect => exact forget
    | map len rights =>
      obtain ⟨empty,-,-⟩ := may
      cases reply with
      | ok addr => exact .same rfl (by simp [empty])
      | error cause => exact forget
    | unmap addr len =>
      have held : c.hand = .held ⟨rt,addr,len⟩ := may
      exact .same rfl (by simp [held])
  | host rt call =>
    cases call with
    | setCleanupValue key value =>
      obtain ⟨empty,-,part⟩ := may
      cases reply with
      | error cause => exact forget
      | ok done =>
        apply Shift.part
        · rintro h role
          rcases part with ⟨other,-⟩ | ⟨pass,other,-⟩ <;> simp [role] at other
        · simp [after]
        · simp [empty]
    | spawn call =>
      obtain ⟨-,h,placed⟩ := may
      apply Shift.same
      · simp only [after]
        split <;> rfl
      · simp [placed]
    | stackLimit | defaultAttributes | requestedAttributes | installInterception | createCleanupKey => exact forget
  | state call =>
    cases call with
    | stack =>
      refine .same rfl ?_
      intro h installed
      simp only [after,read,installed]
      split <;> simp
    | setStack s =>
      cases may.2 with
      | main held role _ shape =>
        apply Shift.same <;> simp [after,write,held,role,shape]
      | arrival held role =>
        apply Shift.part <;> simp [after,write,held,role]
      | detach installed =>
        apply Shift.same <;> simp [after,write,installed]
      | pass empty role =>
        apply Shift.part <;> simp [after,write,empty,role]
    | phase rt =>
      simp only [after]
      split
      · exact .same rfl fun h installed => by simp [installed]
      · exact .same rfl fun h installed => by simp [installed]
    | exchangePhase rt expected desired =>
      obtain ⟨role,empty,-⟩ := may
      simp only [after]
      split
      · apply Shift.part <;> simp [role,empty]
      · exact .same rfl fun h installed => by simp [installed]
    | setPhase rt phase =>
      rcases may with ⟨role,empty,rfl⟩ | ⟨role,rfl,h,installed⟩
      · apply Shift.part <;> simp [after,setPhase,role,empty]
      · exact .start rfl role installed (by simp [after,setPhase,installed])
    | keepKey rt key =>
      obtain ⟨role,h,installed⟩ := may
      apply Shift.part <;> simp [after,role,installed]
    | store addr bytes =>
      cases may with
      | place held => apply Shift.same <;> simp [after,store,held]
      | blank placed => apply Shift.same <;> simp [after,store,placed]
    | key | load | verbosity | setVerbosity | environment | emit =>
      exact .same rfl fun h installed => by simp [after,installed]

theorem Shift.kept {c' : Custody} (shift : c.Shift q c') {h : Holding} (started : c.role = .started h) :
    c'.role = .started h := by
  cases shift with
  | same role => exact role.trans started
  | part other => exact absurd started (other h)
  | start _ role => simp [started] at role

end Custody

namespace World

structure Rooted (rt : RuntimeId) (trace : Trace) (w : World) : Prop where
  named : ∀ {t f rt'}, f ∈ w.frames t → f.operation.runtime? = some rt' → rt' = rt
  kept : ∀ {k h}, (trace.custodies k).role = .started h →
    (w.image.threads (trace.homes k)).holding = some h ∧ trace.begun (trace.homes k) = none ∧ w.Ready h.owner
  one : ∀ {k k' h h'}, (trace.custodies k).role = .started h → (trace.custodies k').role = .started h' → k = k'
  /-- A thread that did not start from a record has a region of its own only by this initialization. -/
  native : ∀ {t m}, (w.estate trace).Holds (.stack t) m → trace.begun t = none →
    ∃ k h, (trace.custodies k).role = .started h ∧ trace.homes k = t ∧ h.mapping = m
  done : ∀ {k h}, (trace.custodies k).role = .started h →
    w.Running (trace.homes k) k ∨ .returned k (trace.homes k) (.start rt) (.ok h.region) ∈ trace
  returned : ∀ {k t rt' region}, .returned k t (.start rt') (.ok region) ∈ trace →
    trace.homes k = t ∧ ∃ h, (trace.custodies k).role = .started h ∧ h.region = region

variable {rt : RuntimeId} {trace : Trace} {w w' : World} {t : ThreadId} {e : Event} {n : Nat} {c : Custody}
  {op : Operation}

section
variable (rooted : w.Rooted rt trace) (inv : w.Inv trace) (alone : w.Alone rt trace)
include rooted inv alone

/-- The runtime starts only once. -/
theorem Rooted.unstarted {rt' : RuntimeId} {kept : Bool} {k : Nat} {h : Holding}
    (role : (trace.custodies n).role = .starting rt' kept) : (trace.custodies k).role ≠ .started h := by
  intro started
  exact alone.unready inv role (rooted.kept started).2.2

variable (course : w.Course rt trace)
include course

section
variable {q : Request} {next : q.Reply → Program op.Result} {below : List Frame} {reply : q.Reply}
  (here : w.frames t = ⟨n,op,.ask q next⟩ :: below) (answers : w.Answers t q reply w')
include here answers

/-- No other operation changes the stack of the runtime's own thread. -/
theorem Rooted.threads_answer {k : Nat} {h : Holding} (started : (trace.custodies k).role = .started h) :
    w'.image.threads (trace.homes k) = w.image.threads (trace.homes k) := by
  have based (base : (trace.custodies n).role.Base) : trace.homes k ≠ t := by
    intro same
    have native := (rooted.kept started).2.1
    exact course.base base (by rw [inv.home here,← same,native])
  cases inv.act here answers with
  | quiet _ threads => rw [threads]
  | stack role => exact absurd started (rooted.unstarted inv alone role)
  | settle role _ _ threads =>
    rw [threads,replace_other _ _ (based (by simp [role,Role.Base]))]
  | arm _ _ _ threads => rw [threads]
  | rearm _ _ _ _ threads => rw [threads]
  | take role _ _ threads =>
    rw [threads,replace_other _ _ (based (by simp [role,Role.Base]))]

theorem Rooted.answer :
    (w'.setFrames t (⟨n,op,next reply⟩ :: below)).Rooted rt (.answered n t q reply :: trace) := by
  have home := inv.home here
  have may := inv.may here
  have shift : (trace.custodies n).Shift q ((trace.custodies n).after q reply) := Custody.shift may
  have custodies {k : Nat} : Trace.custodies (.answered n t q reply :: trace) k =
      if k = n then (trace.custodies n).after q reply else trace.custodies k := rfl
  have stays {k : Nat} {h : Holding} (started : (trace.custodies k).role = .started h) :
      (Trace.custodies (.answered n t q reply :: trace) k).role = .started h := by
    rw [custodies]
    split
    next same => exact shift.kept (same ▸ started)
    · exact started
  have before {k : Nat} {h : Holding}
      (started : (Trace.custodies (.answered n t q reply :: trace) k).role = .started h) :
      (trace.custodies k).role = .started h ∨ k = n ∧ (trace.custodies n).hand = .installed h ∧
        (trace.custodies n).role = .starting h.owner true ∧ q = .state (.setPhase h.owner .ready) := by
    rw [custodies] at started
    split at started
    next same =>
      subst same
      cases shift with
      | same role => exact .inl (role.symm.trans started)
      | part _ other => exact absurd started (other h)
      | @start h' rt' asks role installed role' =>
        obtain rfl : h' = h := by simpa [started] using role'.symm
        obtain ⟨kept,role''⟩ := inv.phased.installer installed
        obtain ⟨rfl,rfl⟩ : rt' = h'.owner ∧ true = kept := by simpa [role] using role''
        exact .inr ⟨rfl,installed,role,asks⟩
    · exact .inl started
  refine ⟨?_,?_,?_,?_,?_,?_⟩
  · intro t' f rt' member named
    by_cases mine : t' = t
    · subst mine
      have member : f ∈ ⟨n,op,next reply⟩ :: below := by simpa [setFrames] using member
      rcases List.mem_cons.mp member with rfl | later
      · exact rooted.named (t := t') (f := ⟨n,op,.ask q next⟩) (by simp [here]) named
      · exact rooted.named (t := t') (by simp [here,later]) named
    · exact rooted.named (t := t') (by simpa [setFrames,mine,answers.kept.1] using member) named
  · intro k h started
    show (w'.image.threads (trace.homes k)).holding = some h ∧ trace.begun (trace.homes k) = none ∧ w'.Ready h.owner
    rcases before started with old | ⟨rfl,installed,role,rfl⟩
    · obtain ⟨stack,native,ready⟩ := rooted.kept old
      rw [rooted.threads_answer inv alone course here answers old]
      exact ⟨stack,native,inv.ready_answer here answers ready⟩
    · have stack : (w.image.threads (trace.homes k)).holding = some h := alone.tight.kept (e := w.estate trace) installed
      obtain ⟨-,rfl⟩ := answers
      refine ⟨stack,?_,by simp [Ready,Image.answer,Image.setRuntime]⟩
      -- The thread of a record would know a runtime that is ready already.
      cases native : trace.begun (trace.homes k) with
      | none => rfl
      | some record =>
        exact absurd (course.ready native) (alone.unready inv role)
  · intro k k' h h' started started'
    rcases before started with old | ⟨rfl,-,role,-⟩
    · rcases before started' with old' | ⟨rfl,-,role,-⟩
      · exact rooted.one old old'
      · exact absurd old (rooted.unstarted inv alone role)
    · rcases before started' with old' | ⟨rfl,-⟩
      · exact absurd old' (rooted.unstarted inv alone role)
      · rfl
  · intro t' m holds native
    have native : trace.begun t' = none := native
    have holds : (w'.estate (.answered n t q reply :: trace)).Holds (.stack t') m := holds
    rcases (inv.deed here answers).holds inv.exact_ holds with clash | old | gain
    · cases clash
    · obtain ⟨k,h,started,place,same⟩ := rooted.native old native
      exact ⟨k,h,stays started,place,same⟩
    · cases gain with
      | settle role =>
        have based := course.base (k := n) (by simp [role,Role.Base])
        rw [home] at based
        exact absurd native based
      | @keep h role _ installed emptied =>
        have installed : (trace.custodies n).hand = .installed h := installed
        have emptied : ((trace.custodies n).after q reply).hand = .empty := by
          simpa [estate,custodies] using emptied
        cases shift with
        | same _ keeps => exact absurd emptied (keeps h installed)
        | part _ _ keeps => exact absurd emptied (keeps h installed)
        | start _ _ installed' role' =>
          rw [installed] at installed'
          cases installed'
          exact ⟨n,h,by simpa [custodies] using role',rfl,rfl⟩
  · intro k h started
    rcases before started with old | ⟨rfl,-⟩
    · rcases rooted.done old with running | returned
      · exact .inl (answers.running here running)
      · exact .inr (List.mem_cons_of_mem _ returned)
    · apply Or.inl
      apply answers.running here
      rw [show Trace.homes (.answered k t q reply :: trace) k = t from home,Running,here]
      exact ⟨_,List.mem_cons_self,rfl⟩
  · intro k t' rt' region member
    have member : .returned k t' (.start rt') (.ok region) ∈ trace := by simpa using member
    obtain ⟨place,h,started,same⟩ := rooted.returned member
    exact ⟨place,h,stays started,same⟩

end
end

section
variable (rooted : w.Rooted rt trace) (inv : w.Inv trace)
include rooted

/-- An operation begins, and no stack changes hands. -/
theorem Rooted.enter (inv : w.Inv trace) (taken : e.custodies trace.custodies = replace trace.custodies w.count c)
    (at_ : e.homes trace.homes = replace trace.homes w.count t) (plain : ∀ h, c.role ≠ .started h)
    (named : ∀ {rt'}, op.runtime? = some rt' → rt' = rt) (image : w'.image = w.image)
    (frames : w'.frames = (w.push t op).frames)
    (stacked : ∀ {t' m}, (w'.estate (e :: trace)).Holds (.stack t') m → (w.estate trace).Holds (.stack t') m)
    (begun : ∀ t', e.begun trace.begun t' = trace.begun t' ∨
      trace.begun t' = none ∧ (w.image.threads t').holding = none)
    (ongoing : ∀ k t op result, e ≠ .returned k t op result) : w'.Rooted rt (e :: trace) := by
  have other {k : Nat} {h : Holding} (started : (trace.custodies k).role = .started h) : k ≠ w.count := by
    rintro rfl
    simp [inv.orderly.fresh w.count (Nat.le_refl _),Custody.idle] at started
  have stays {k : Nat} {h : Holding} (started : (trace.custodies k).role = .started h) :
      (Trace.custodies (e :: trace) k).role = .started h := by
    simpa [Trace.custodies,taken,other started] using started
  have home {k : Nat} {h : Holding} (started : (trace.custodies k).role = .started h) :
      Trace.homes (e :: trace) k = trace.homes k := by
    simp [Trace.homes,at_,other started]
  have before {k : Nat} {h : Holding} (started : (Trace.custodies (e :: trace) k).role = .started h) :
      (trace.custodies k).role = .started h := by
    by_cases same : k = w.count
    · subst same
      exact absurd (by simpa [Trace.custodies,taken] using started) (plain h)
    · simpa [Trace.custodies,taken,same] using started
  refine ⟨?_,?_,?_,?_,?_,?_⟩
  · intro t' f rt' member called
    rw [frames] at member
    by_cases mine : t' = t
    · subst mine
      have member : f ∈ ⟨w.count,op,op.program⟩ :: w.frames t' := by simpa [push,setFrames] using member
      rcases List.mem_cons.mp member with rfl | later
      · exact named called
      · exact rooted.named later called
    · exact rooted.named (t := t') (by simpa [push,setFrames,mine] using member) called
  · intro k h started
    obtain ⟨stack,native,ready⟩ := rooted.kept (before started)
    rw [home (before started),image]
    refine ⟨stack,?_,by simpa [Ready,image] using ready⟩
    rcases begun (trace.homes k) with same | ⟨-,bare⟩
    · exact same.trans native
    · simp [stack] at bare
  · intro k k' h h' started started'
    exact rooted.one (before started) (before started')
  · intro t' m holds native
    have native : trace.begun t' = none := by
      rcases begun t' with same | ⟨none,-⟩
      · exact same.symm.trans native
      · exact none
    obtain ⟨k,h,started,place,same⟩ := rooted.native (stacked holds) native
    exact ⟨k,h,stays started,(home started).trans place,same⟩
  · intro k h started
    have started := before started
    rw [home started]
    rcases rooted.done started with ⟨f,member,number⟩ | returned
    · refine .inl ⟨f,?_,number⟩
      rw [frames]
      by_cases mine : trace.homes k = t
      · simpa [push,setFrames,mine] using .inr (mine ▸ member)
      · simpa [push,setFrames,mine] using member
    · exact .inr (List.mem_cons_of_mem _ returned)
  · intro k t' rt' region member
    rcases List.mem_cons.mp member with same | earlier
    · exact absurd same.symm (ongoing _ _ _ _)
    · obtain ⟨place,h,started,same⟩ := rooted.returned earlier
      exact ⟨(home started).trans place,h,stays started,same⟩

/-- No operation's part changes. -/
theorem Rooted.still (taken : e.custodies trace.custodies = trace.custodies) (at_ : e.homes trace.homes = trace.homes)
    (begun : e.begun trace.begun = trace.begun) (same : w'.estate (e :: trace) = w.estate trace)
    (runtimes : w'.image.runtimes = w.image.runtimes) (frames : ∀ {t f}, f ∈ w'.frames t → f ∈ w.frames t)
    (done : ∀ {k h}, (trace.custodies k).role = .started h → w.Running (trace.homes k) k →
      w'.Running (trace.homes k) k ∨ e = .returned k (trace.homes k) (.start rt) (.ok h.region))
    (returned : ∀ {k t rt' region}, e = .returned k t (.start rt') (.ok region) →
      trace.homes k = t ∧ ∃ h, (trace.custodies k).role = .started h ∧ h.region = region) :
    w'.Rooted rt (e :: trace) := by
  have custodies : Trace.custodies (e :: trace) = trace.custodies := taken
  have houses : Trace.homes (e :: trace) = trace.homes := at_
  have records : Trace.begun (e :: trace) = trace.begun := begun
  refine ⟨?_,?_,?_,?_,?_,?_⟩
  · exact fun member => rooted.named (frames member)
  · intro k h started
    rw [custodies] at started
    obtain ⟨stack,native,ready⟩ := rooted.kept started
    have stacked : (w'.image.threads (trace.homes k)).holding = (w.image.threads (trace.homes k)).holding :=
      congrFun (congrArg Estate.stacked same) _
    rw [houses,records,stacked]
    exact ⟨stack,native,by simpa [Ready,runtimes] using ready⟩
  · rw [custodies]
    exact rooted.one
  · rw [same,custodies,houses,records]
    exact rooted.native
  · intro k h started
    rw [custodies] at started
    rw [houses]
    rcases rooted.done started with running | earlier
    · rcases done started running with running | rfl
      · exact .inl running
      · exact .inr (.head _)
    · exact .inr (List.mem_cons_of_mem _ earlier)
  · intro k t rt' region member
    rw [custodies,houses]
    rcases List.mem_cons.mp member with same | earlier
    · exact returned same.symm
    · exact rooted.returned earlier

/-- The initialization returns the region that it has left on its thread. -/
theorem Rooted.ret {result : op.Result} {below : List Frame} (inv : w.Inv trace)
    (here : w.frames t = ⟨n,op,.done result⟩ :: below) :
    (w.setFrames t below).Rooted rt (.returned n t op result :: trace) := by
  have home : trace.homes n = t := inv.home here
  have tidy := inv.orderly.tidy t
  rw [here] at tidy
  have ends : op.Ends (trace.custodies n) result := tidy.1
  have smaller {t' : ThreadId} {f : Frame} (member : f ∈ (w.setFrames t below).frames t') : f ∈ w.frames t' := by
    by_cases mine : t' = t
    · subst mine
      rw [here]
      exact List.mem_cons_of_mem _ (by simpa [setFrames] using member)
    · simpa [setFrames,mine] using member
  refine rooted.still rfl rfl rfl rfl rfl smaller ?_ ?_
  · rintro k h started ⟨f,member,rfl⟩
    by_cases mine : trace.homes f.number = t
    · rw [mine,here] at member
      rcases List.mem_cons.mp member with rfl | later
      · right
        cases op with
        | start rt' =>
          have named : rt' = rt := rooted.named (t := t) (f := ⟨n,.start rt',.done result⟩) (by simp [here]) rfl
          subst named
          cases result with
          | ok region =>
            obtain ⟨-,rt₀,role⟩ := ends
            have role' : Role.started ⟨region,rt₀⟩ = .started h := role.symm.trans started
            cases role'
            rw [home]
          | error cause =>
            obtain ⟨-,role | role⟩ := ends <;> simp [role] at started
        | spawn => simp [ends.2] at started
        | body => simp [ends.2] at started
        | destroy value =>
          obtain ⟨-,role | ⟨pass,seen,role,-⟩⟩ := ends <;> simp [role] at started
      · exact .inl ⟨f,by simpa [setFrames,mine] using later,rfl⟩
    · exact .inl ⟨f,by simpa [setFrames,mine] using member,rfl⟩
  · intro k t' rt' region same
    cases same
    obtain ⟨-,rt₀,role⟩ := ends
    exact ⟨home,_,role,rfl⟩

end

theorem Initial.rooted (initial : w.Initial) : w.Rooted rt [] where
  named member := by simp [initial.frames] at member
  kept started := by cases started
  one started := by cases started
  native holds := by
    cases holds with
    | stack stack => simp [estate,initial.threads,ThreadStack.empty] at stack
  done started := by cases started
  returned member := by cases member

theorem Rooted.step (rooted : w.Rooted rt trace) (inv : w.Inv trace) (alone : w.Alone rt trace)
    (course : w.Course rt trace) (sole : Sole rt (e :: trace)) (step : w.Step e w') : w'.Rooted rt (e :: trace) := by
  cases step with
  | @call t op _ _ named =>
    have mine := sole.calls List.mem_cons_self
    refine rooted.enter (c := .ofOperation op) inv rfl rfl ?_ ?_ rfl rfl ?_ (fun _ => .inl rfl) (by simp)
    · cases op <;> simp [Custody.ofOperation]
    · intro rt' named'
      simpa [mine] using named'.symm
    · exact inv.holds_enter (c := .ofOperation op) rfl rfl rfl (by cases op <;> rfl) rfl rfl
  | @begin t call unborn member =>
    obtain ⟨bare,idle⟩ := inv.orderly.unborn unborn
    obtain ⟨h,rests,record⟩ := inv.record member
    rw [record]
    refine rooted.enter (c := .ofRecord call.arg h) inv rfl rfl ?_ ?_ rfl rfl ?_ ?_ (by simp)
    · simp [Custody.ofRecord]
    · simp [Operation.runtime?]
    · intro t' m holds
      rw [estate_begin] at holds
      rcases inv.exact_.moves_begin inv.bare rests member _ _ holds with ⟨clash,-⟩ | ⟨-,before⟩
      · cases clash
      · exact before
    · intro t'
      by_cases mine : t' = t
      · subst mine
        right
        refine ⟨?_,by rw [bare]; rfl⟩
        by_contra started
        exact course.born started unborn
      · exact .inl (by simp [Event.begun,mine])
  | answer here answers => exact rooted.answer inv alone course here answers
  | ret here => exact rooted.ret inv here
  | @exit t alive entered =>
    refine rooted.still rfl rfl rfl rfl rfl ?_ ?_ (by simp)
    · intro t' f member
      by_cases mine : t' = t
      · simp [setLife,setFrames,mine] at member
      · simpa [setLife,setFrames,mine] using member
    · rintro k h started ⟨f,member,rfl⟩
      refine .inl ⟨f,?_,rfl⟩
      have other : trace.homes f.number ≠ t := by
        intro home
        rw [home] at member
        have settled := (inv.entered member (entered f member)).2
        simp [settled] at started
      simpa [setLife,setFrames,other] using member
  | @move t h pointer _ _ stack =>
    exact rooted.still rfl rfl rfl (estate_move stack) rfl id (fun _ running => .inl running) (by simp)
  | @fire t rounds rt' key todo =>
    refine rooted.enter (c := .ofValue _ _) inv rfl rfl ?_ ?_ rfl rfl ?_ (fun _ => .inl rfl) (by simp)
    · simp [Custody.ofValue]
    · simp [Operation.runtime?]
    · exact inv.holds_enter (c := .ofValue _ _) rfl rfl rfl rfl rfl rfl
  | key | round | skip | foreign =>
    exact rooted.still rfl rfl rfl rfl rfl id (fun _ running => .inl running) (by simp)

theorem Run.rooted (run : Run trace w) (sole : Sole rt trace) : w.Rooted rt trace := by
  induction run with
  | nil initial => exact initial.rooted
  | step run going step ih =>
    obtain ⟨alone,course⟩ := run.course sole.earlier
    exact (ih sole.earlier).step run.inv alone course sole step

end World
end GuardedStack
