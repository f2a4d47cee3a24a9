import GuardedStack.Proofs.Phases
import GuardedStack.Proofs.Turns

/-! Every run keeps the books in order, and so no mapping is unmapped in part, twice or through another runtime. -/
namespace GuardedStack.World

variable {trace : Trace} {w w' : World} {t : ThreadId}

section
variable {n : Nat} {op : Operation} {q : Request} {next : q.Reply → Program op.Result} {below : List Frame}
  {reply : q.Reply} (inv : w.Inv trace) (here : w.frames t = ⟨n,op,.ask q next⟩ :: below)
  (answers : w.Answers t q reply w')
include inv here answers

/-- A runtime that is ready stays ready. -/
theorem Inv.ready_answer {rt : RuntimeId} (ready : w.Ready rt) : w'.Ready rt := by
  have may := inv.may here
  have before : (w.image.runtimes rt).phase = .ready := ready
  show (w'.image.runtimes rt).phase = .ready
  cases q with
  | mapper rt call | host rt call | enter entry arg => rwa [answers.foreign (by trivial)]
  | state call =>
    obtain ⟨-,rfl⟩ := answers
    cases call with
    | exchangePhase rt' expected desired =>
      obtain ⟨-,-,rfl,-⟩ := may
      simp only [Image.answer]
      split
      next won =>
        have other : rt ≠ rt' := by
          rintro rfl
          simp [before] at won
        simpa [Image.setRuntime,other] using before
      · exact before
    | setPhase rt' phase =>
      by_cases same : rt = rt'
      · subst same
        rcases may with ⟨role,-,-⟩ | ⟨-,rfl,-⟩
        · have busy := (inv.phased.starting role).1
          simp [before] at busy
        · simp [Image.answer,Image.setRuntime]
      · simpa [Image.answer,Image.setRuntime,same] using before
    | keepKey rt' key =>
      by_cases same : rt = rt'
      · subst same
        simpa [Image.answer,Image.setRuntime,RuntimeState.keepKey] using before
      · simpa [Image.answer,Image.setRuntime,same] using before
    | _ => exact before

theorem Inv.mapped_answer : Trace.untouched (.answered n t q reply :: trace) ⊆ w'.live := by
  have mapped := inv.mapped
  cases answers.change with
  | state | set | accept => exact mapped
  | map => exact List.cons_subset_cons _ mapped
  | unmap =>
    intro m member
    obtain ⟨old,other⟩ := List.mem_filter.mp member
    exact List.mem_filter.mpr ⟨mapped old,other⟩
  | stuck =>
    intro m member
    obtain ⟨old,-⟩ := List.mem_filter.mp member
    exact mapped old
  | nothing inert =>
    rw [Trace.untouched,untouched_inert inert]
    exact mapped

theorem Inv.routine_answer : ∀ call ∈ w'.accepted, call.start = .fromRecord := by
  have may := inv.may here
  have routine := inv.orderly.routine
  cases answers.change with
  | accept => exact List.forall_mem_cons.mpr ⟨may.1,routine⟩
  | state | map | unmap | stuck | set | nothing => exact routine

theorem Inv.answer :
    (w'.setFrames t (⟨n,op,next reply⟩ :: below)).Inv (.answered n t q reply :: trace) where
  orderly := inv.orderly.answer here answers (inv.expects here answers) (inv.routine_answer here answers)
  phased := (inv.phased_answer here answers).congr rfl
  exact_ := (inv.deed here answers).exact inv.exact_
  pledged := (inv.deed here answers).pledged inv.exact_ (inv.pledged.mono fun _ => inv.ready_answer here answers)
  mapped := by
    have mapped := inv.mapped_answer here answers
    exact mapped

end


theorem Initial.inv (initial : w.Initial) : w.Inv [] where
  orderly := by
    have idle {t} : w.frames t = [] := initial.frames t
    refine ⟨fun _ _ => rfl,?_,?_,?_,?_,?_,?_,?_,?_⟩
    · simp [idle]
    · simp [idle]
    · intro t
      rw [idle]
      trivial
    · simp [idle]
    · simp [Trace.custodies,Custody.idle]
    · intro t
      rw [initial.threads]
      exact ThreadStack.empty_sound
    · exact fun {t} _ => ⟨initial.threads t,idle⟩
    · simp [initial.accepted]
  phased := by
    have fresh {rt} : w.image.runtimes rt = .fresh := initial.runtimes rt
    refine ⟨?_,?_,?_,?_,?_,?_,?_⟩
    all_goals simp [Trace.custodies,Custody.idle,fresh,RuntimeState.fresh]
  exact_ := by
    have none {o m} : ¬(w.estate []).Holds o m := by
      intro holds
      cases holds with
      | call hand => simp [estate,Trace.custodies,Custody.idle,Hand.mapping] at hand
      | stack stack => simp [estate,initial.threads,ThreadStack.empty] at stack
      | record member => simp [estate,initial.accepted] at member
    refine ⟨?_,?_,fun holds => (none holds).elim,fun holds => (none holds).elim,?_,?_,?_,?_⟩
    all_goals simp [estate,Trace.untouched,Trace.custodies,Custody.idle,initial.accepted]
  pledged := by
    refine ⟨?_,?_,?_⟩
    · intro t m holds
      cases holds with
      | stack stack => simp [estate,initial.threads,ThreadStack.empty] at stack
    · intro call m holds
      cases holds with
      | record member => simp [estate,initial.accepted] at member
    · simp [estate,Trace.custodies,Custody.idle]
  mapped := by simp [Trace.untouched]

theorem estate_begin (call : SpawnCall) (h : Handoff) :
    World.estate (.began w.count t call h :: trace)
      { (w.push t (.body call.start call.arg)).setLife t .alive with accepted := w.accepted.erase call } =
      { (w.estate trace).setHand w.count (.placed call.arg h) with
        records := (w.estate trace).records.erase call
        homes := replace (w.estate trace).homes w.count t } := by
  have hands : (fun n => (Trace.custodies (.began w.count t call h :: trace) n).hand) =
      replace (fun n => (trace.custodies n).hand) w.count (.placed call.arg h) := by
    funext k
    by_cases mine : k = w.count <;> simp [Trace.custodies,Event.custodies,mine,Custody.ofRecord]
  simp only [estate,hands]
  rfl

section
variable (inv : w.Inv trace)
include inv

theorem Inv.bare : (w.estate trace).hands w.count = .empty := by
  simp only [estate,inv.orderly.fresh w.count (Nat.le_refl _)]
  rfl

/-- An operation that begins with an empty hand only takes its place on its thread. -/
theorem Inv.estate_enter {e : Event} {c : Custody}
    (taken : e.custodies trace.custodies = replace trace.custodies w.count c)
    (at_ : e.homes trace.homes = replace trace.homes w.count t) (untouched : e.untouched trace.untouched = trace.untouched)
    (empty : c.hand = .empty) (image : w'.image = w.image) (accepted : w'.accepted = w.accepted) :
    w'.estate (e :: trace) =
      { w.estate trace with homes := replace (w.estate trace).homes w.count t } := by
  have hands : (fun n => (Trace.custodies (e :: trace) n).hand) = fun n => (trace.custodies n).hand := by
    funext k
    by_cases mine : k = w.count
    · have bare : (trace.custodies w.count).hand = .empty := inv.bare
      simp [Trace.custodies,taken,empty,mine,bare]
    · simp [Trace.custodies,taken,mine]
  simp only [estate,image,accepted,hands,Trace.untouched,untouched,Trace.homes,at_]

/-- An operation begins with an empty hand. -/
theorem Inv.enter {e : Event} {op : Operation} {c : Custody} (outside : w.Outside t)
    (taken : e.custodies trace.custodies = replace trace.custodies w.count c)
    (at_ : e.homes trace.homes = replace trace.homes w.count t)
    (untouched : e.untouched trace.untouched = trace.untouched)
    (follows : op.program.Follows custody op.Ends c) (base : c.role.Base → w.frames t = [])
    (known : ∀ s, c.seen = some s → w.image.threads t = s) (empty : c.hand = .empty)
    (starting : ∀ rt kept, c.role ≠ .starting rt kept) (learned : ∀ {rt}, rt ∈ c.ready → w.Ready rt)
    (key : c.key = none) (born : w'.lives t ≠ .unborn) (lives : ∀ t', t' ≠ t → w'.lives t' = w.lives t')
    (image : w'.image = w.image) (frames : w'.frames = (w.push t op).frames) (count : w'.count = w.count + 1)
    (accepted : w'.accepted = w.accepted) (live : w'.live = w.live) : w'.Inv (e :: trace) := by
  have same := inv.estate_enter taken at_ untouched empty image accepted
  refine ⟨?_,?_,?_,?_,?_⟩
  · refine inv.orderly.begin outside taken at_ follows base known image frames count ?_ (by simp [accepted])
    intro t' unborn
    have other : t' ≠ t := by
      rintro rfl
      exact born unborn
    exact ⟨other,lives t' other ▸ unborn⟩
  · exact inv.phased.learn taken (by rw [image]) (fun role => absurd role (starting _ _)) learned (by simp [key])
      (by simp [empty])
  · rw [same]
    exact inv.exact_.enter inv.bare
  · rw [same]
    have ready : w'.Ready = w.Ready := by
      funext rt
      simp [Ready,image]
    rw [ready]
    exact ⟨fun holds => inv.pledged.stack (holds.congr rfl rfl rfl rfl),
      fun holds => inv.pledged.record (holds.congr rfl rfl rfl rfl),inv.pledged.placed⟩
  · simpa [Trace.untouched,untouched,live] using inv.mapped

theorem Inv.call {op : Operation} (born : w.lives t ≠ .unborn) (outside : w.Outside t) (named : op.runtime?.isSome) :
    (w.push t op).Inv (.called w.count t op :: trace) := by
  refine inv.enter outside rfl rfl rfl (Operation.named_follows named) ?_ ?_ ?_ ?_ ?_ ?_ born (fun _ _ => rfl) rfl rfl rfl rfl rfl
  all_goals cases op <;> simp [Custody.ofOperation,Role.Base]

/-- On a thread that runs no operation, nothing is installed but for the thread itself. -/
theorem Inv.idle_free (idle : w.frames t = []) {h : Holding} (stack : (w.image.threads t).holding = some h) (k : Nat) :
    (trace.custodies k).hand ≠ .installed h := by
  intro installed
  have home : trace.homes k = t := inv.exact_.installed (e := w.estate trace) installed stack
  obtain ⟨f,member,-⟩ := inv.orderly.busy (n := k) (by simp [installed])
  simp [home,idle] at member

theorem Inv.fire {rounds : Nat} {rt : RuntimeId} {key : CleanupKey} {todo : List Key}
    (idle : w.frames t = []) :
    (((w.setValue t (.cleanup rt key) 0).push t (.destroy (w.values t (.cleanup rt key)))).setLife t
      (.exiting rounds todo)).Inv
        (.fired w.count t rt key (w.values t (.cleanup rt key)) (w.image.threads t) :: trace) := by
  have outside : w.Outside t := by simp [Outside,idle]
  refine inv.enter outside rfl rfl rfl (Operation.destroy_follows (inv.orderly.sound t) _) (fun _ => idle) ?_ rfl ?_ ?_
    rfl ?_ ?_ rfl rfl rfl rfl rfl
  · simp [Custody.ofValue]
  · simp [Custody.ofValue]
  · intro rt' member
    obtain ⟨h,stack,rfl⟩ : ∃ h, (w.image.threads t).holding = some h ∧ h.owner = rt' := by
      simpa [Custody.ofValue,ThreadStack.owner] using member
    exact inv.pledged.stack (.stack (e := w.estate trace) stack (inv.idle_free idle stack))
  · simp [setLife]
  · intro t' other
    simp [setLife,push,setFrames,setValue,other]

/-- An accepted thread's memory says a record. -/
theorem Inv.record {call : SpawnCall} (member : call ∈ w.accepted) : ∃ h : Handoff,
    h.Rests w.image.memory call.arg ∧ .decode (w.image.memory.load call.arg Handoff.size.toNat) = h := by
  obtain ⟨h,rests⟩ := inv.exact_.rests (e := w.estate trace) member
  have bytes : w.image.memory.load call.arg Handoff.size.toNat = h.encode := rests.bytes
  exact ⟨h,rests,by rw [bytes,Handoff.decode_encode]⟩

theorem Inv.begin {call : SpawnCall} (unborn : w.lives t = .unborn) (member : call ∈ w.accepted) :
    World.Inv (.began w.count t call (.decode (w.image.memory.load call.arg Handoff.size.toNat)) :: trace)
      { (w.push t (.body call.start call.arg)).setLife t .alive with accepted := w.accepted.erase call } := by
  obtain ⟨bare,idle⟩ := inv.orderly.unborn unborn
  obtain ⟨h,rests,record⟩ := inv.record member
  have empty := inv.bare
  have ready : w.Ready h.runtime := inv.pledged.record (.record (e := w.estate trace) member rests)
  have outside : w.Outside t := by simp [Outside,idle]
  have follows : (Operation.body call.start call.arg).program.Follows custody
      (Operation.body call.start call.arg).Ends (.ofRecord call.arg h) := by
    rw [inv.orderly.routine call member]
    exact Operation.body_follows rests.sits.sound call.arg
  rw [record]
  refine ⟨?_,?_,?_,?_,inv.mapped⟩
  · refine inv.orderly.begin outside rfl rfl follows (fun _ => idle) ?_ rfl rfl rfl ?_ ?_
    · rintro s ⟨⟩
      exact bare
    · intro t' unborn'
      by_cases mine : t' = t
      · simp [setLife,mine] at unborn'
      · exact ⟨mine,by simpa [setLife,push,setFrames,mine] using unborn'⟩
    · exact fun _ => List.mem_of_mem_erase
  · refine inv.phased.learn rfl rfl ?_ ?_ ?_ ?_
    · simp [Custody.ofRecord]
    · intro rt learned
      obtain rfl := List.mem_singleton.mp learned
      exact ready
    · simp [Custody.ofRecord]
    · simp [Custody.ofRecord]
  · rw [estate_begin]
    exact inv.exact_.begin empty rests member
  · rw [estate_begin]
    have moves := inv.exact_.moves_begin (t := t) empty rests member
    refine ⟨?_,?_,?_⟩
    · intro t' m holds
      rcases moves _ _ holds with ⟨clash,-⟩ | ⟨-,before⟩
      · cases clash
      · exact inv.pledged.stack before
    · intro call' m holds
      rcases moves _ _ holds with ⟨clash,-⟩ | ⟨-,before⟩
      · cases clash
      · exact inv.pledged.record before
    · intro k addr h' hand
      rcases Estate.of_setHand (e := w.estate trace) hand with ⟨-,new⟩ | ⟨-,hand⟩
      · cases new
        exact ready
      · exact inv.pledged.placed hand

/-- Neither operations nor mappings change hands. -/
theorem Inv.still {e : Event} (taken : e.custodies trace.custodies = trace.custodies)
    (at_ : e.homes trace.homes = trace.homes) (untouched : e.untouched trace.untouched = trace.untouched)
    (orderly : w'.Orderly (e :: trace)) (runtimes : w'.image.runtimes = w.image.runtimes)
    (memory : w'.image.memory = w.image.memory) (accepted : w'.accepted = w.accepted) (live : w'.live = w.live)
    (stacked : ∀ t, (w'.image.threads t).holding = (w.image.threads t).holding) : w'.Inv (e :: trace) := by
  have same : w'.estate (e :: trace) = w.estate trace := by
    simp only [estate,Trace.untouched,Trace.custodies,Trace.homes,taken,at_,untouched,memory,accepted,stacked]
  have ready : w'.Ready = w.Ready := by
    funext rt
    simp [Ready,runtimes]
  refine ⟨orderly,?_,?_,?_,?_⟩
  · have phased := inv.phased
    have custodies : Trace.custodies (e :: trace) = trace.custodies := taken
    constructor
    · rw [custodies,runtimes]; exact phased.starting
    · rw [custodies]; exact phased.starter
    · rw [custodies,runtimes]; exact phased.learned
    · rw [runtimes]; exact phased.keyed
    · rw [runtimes]; exact phased.keyless
    · rw [custodies,runtimes]; exact phased.lookup
    · rw [custodies]; exact phased.installer
  · rw [same]
    exact inv.exact_
  · rw [same,ready]
    exact inv.pledged
  · simpa [Trace.untouched,untouched,live] using inv.mapped

end

/-- Every step keeps the books in order. -/
theorem Inv.step {e : Event} (inv : w.Inv trace) (step : w.Step e w') : w'.Inv (e :: trace) := by
  cases step with
  | call born outside named => exact inv.call born outside named
  | begin unborn member => exact inv.begin unborn member
  | answer here answers => exact inv.answer here answers
  | ret here => exact inv.still rfl rfl rfl (inv.orderly.ret here) rfl rfl rfl rfl fun _ => rfl
  | @move t h pointer outside alive stack low high =>
    have holding (t' : ThreadId) : ((w.setStack t ⟨pointer,some h⟩).image.threads t').holding =
        (w.image.threads t').holding := by
      by_cases same : t' = t <;> simp [setStack,same,stack]
    refine inv.still rfl rfl rfl ?_ rfl rfl rfl rfl holding
    refine inv.orderly.still rfl rfl rfl rfl (fun _ unborn => unborn) rfl ?_
    intro t'
    by_cases same : t' = t
    · subst same
      have sound := (inv.orderly.sound t').some h stack
      refine .inr ⟨outside,by simp [alive],?_⟩
      refine ⟨by simp [setStack],?_⟩
      intro h' stack'
      obtain rfl : h = h' := by simpa [setStack] using stack'
      exact ⟨sound.1,by simpa [setStack] using low,by simpa [setStack] using high⟩
    · exact .inl (by simp [setStack,same])
  | key outside born =>
    exact inv.still rfl rfl rfl (inv.orderly.still rfl rfl rfl rfl (fun _ => id) rfl fun _ => .inl rfl) rfl rfl rfl rfl
      fun _ => rfl
  | exit alive entered =>
    exact inv.still rfl rfl rfl (inv.orderly.exit entered) rfl rfl rfl rfl fun _ => rfl
  | fire exiting idle present => exact inv.fire idle
  | round | skip =>
    refine inv.still rfl rfl rfl ?_ rfl rfl rfl rfl fun _ => rfl
    exact inv.orderly.still rfl rfl rfl rfl (fun _ unborn => (unborn_setLife (by simp) unborn).1) rfl fun _ => .inl rfl
  | @foreign t rounds number todo =>
    refine inv.still rfl rfl rfl ?_ rfl rfl rfl rfl fun _ => rfl
    exact inv.orderly.still rfl rfl rfl rfl
      (fun _ unborn => (unborn_setLife (w := w.setValue t (.foreign number) 0) (by simp) unborn).1) rfl fun _ => .inl rfl

theorem Run.inv (run : Run trace w) : w.Inv trace := by
  induction run with
  | nil initial => exact initial.inv
  | step run going step ih => exact ih.step step

/-- On one thread an operation is in progress once. -/
theorem Tidy.unique {custodies : Nat → Custody} {fs : List Frame} (tidy : Tidy custodies fs) {f g : Frame}
    (here : f ∈ fs) (there : g ∈ fs) (same : f.number = g.number) : f = g := by
  induction fs with
  | nil => cases here
  | cons first below ih =>
    obtain ⟨-,outer,-,rest⟩ := tidy
    rcases List.mem_cons.mp here with rfl | early
    · rcases List.mem_cons.mp there with rfl | late
      · rfl
      · exact absurd same.symm (outer g late).2
    · rcases List.mem_cons.mp there with rfl | late
      · exact absurd same (outer f early).2
      · exact ih rest early late

/-- What a thread runs for its own sake is one operation. -/
theorem Tidy.lowest {custodies : Nat → Custody} {fs : List Frame} (tidy : Tidy custodies fs) {f g : Frame} (here : f ∈ fs)
    (there : g ∈ fs) (base : (custodies f.number).role.Base) (base' : (custodies g.number).role.Base) : f = g := by
  induction fs with
  | nil => cases here
  | cons first below ih =>
    obtain ⟨-,-,alone,rest⟩ := tidy
    rcases List.mem_cons.mp here with rfl | early
    · rw [alone base] at there
      exact (List.mem_singleton.mp there).symm
    · rcases List.mem_cons.mp there with rfl | late
      · rw [alone base'] at here
        exact List.mem_singleton.mp here
      · exact ih rest early late

theorem Inv.asks_may (inv : w.Inv trace) {f : Frame} {q : Request} (member : f ∈ w.frames t) (asks : f.Asks q) :
    (trace.custodies f.number).May q := by
  have follows := (inv.orderly.tidy t).follows member
  obtain ⟨next,rest⟩ := asks
  rw [rest] at follows
  exact follows.1

/-- Whenever an operation asks to unmap something, it names a whole mapping that is live at that very mapper and that
nobody has tried to unmap since it was made; and no other operation asks for the same at that time. -/
theorem Run.unmap_live {f : Frame} {rt : RuntimeId} {addr len : UInt64} (run : Run trace w) (member : f ∈ w.frames t)
    (asks : f.Asks (.mapper rt (.unmap addr len))) :
    ⟨rt,addr,len⟩ ∈ w.live ∧ Untouched ⟨rt,addr,len⟩ trace ∧
      ∀ t' f', f' ∈ w.frames t' → f'.Asks (.mapper rt (.unmap addr len)) → t' = t ∧ f' = f := by
  have inv := run.inv
  have holds {t f} (member : f ∈ w.frames t) (asks : f.Asks (.mapper rt (.unmap addr len))) :
      (w.estate trace).Holds (.call f.number) ⟨rt,addr,len⟩ := by
    have hand : (trace.custodies f.number).hand = .held ⟨rt,addr,len⟩ := inv.asks_may member asks
    refine .call ?_
    show (trace.custodies f.number).hand.mapping = _
    rw [hand]
    rfl
  have untouched : ⟨rt,addr,len⟩ ∈ trace.untouched := inv.exact_.held (holds member asks)
  refine ⟨inv.mapped untouched,Trace.untouched_of_mem untouched,?_⟩
  intro t' f' member' asks'
  have same : f'.number = f.number := by
    simpa using inv.exact_.exclusive (holds member' asks') (holds member asks)
  have home : t' = t := by rw [← inv.orderly.home member',← inv.orderly.home member,same]
  subst home
  exact ⟨rfl,(inv.orderly.tidy t').unique member' member same⟩

/-- The main thread asks for a runtime, and the guard of the new mapping is refused. -/
def refusal : Trace × World :=
  turns (fun q => match q with
    | .mapper _ (.protect _ _ _) => true
    | _ => false) 0 7 ([.called 0 0 (.start ⟨1⟩)],first.push 0 (.start ⟨1⟩))

theorem refusal_run : Run refusal.1 refusal.2 := by
  have called : Going ([.called 0 0 (.start ⟨1⟩)],first.push 0 (.start ⟨1⟩)) :=
    first_going.call (by simp [first]) trivial rfl
  exact called.turns.run

theorem refusal_unmap_live : ∃ f ∈ refusal.2.frames 0, f.Asks (.mapper ⟨1⟩ (.unmap 0x100000 0x2801000)) ∧
    ⟨⟨1⟩,0x100000,0x2801000⟩ ∈ refusal.2.live ∧ Untouched ⟨⟨1⟩,0x100000,0x2801000⟩ refusal.1 := by
  have pending : ∃ f ∈ refusal.2.frames 0, f.Asks (.mapper ⟨1⟩ (.unmap 0x100000 0x2801000)) :=
    ⟨_,.head _,_,rfl⟩
  obtain ⟨f,member,asks⟩ := pending
  have exact_ := Run.unmap_live refusal_run member asks
  exact ⟨f,member,asks,exact_.1,exact_.2.1⟩

end GuardedStack.World
