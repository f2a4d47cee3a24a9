import GuardedStack.Proofs.Acts
import GuardedStack.Proofs.Errands
import GuardedStack.Proofs.Stage

/-! Any number of runtimes on the same threads. A thread that started from a record keeps to its course with the one key
of the record's runtime, whatever happens on other threads, as long as no initialization writes its stack. -/
namespace GuardedStack

/-- The record that each thread began with. -/
def Event.begun (e : Event) (before : ThreadId → Option Handoff) : ThreadId → Option Handoff :=
  match e with
  | began _ t _ record => replace before t (some record)
  | _ => before

namespace World

def Trace.begun : Trace → ThreadId → Option Handoff
  | [] => fun _ => none
  | e :: earlier => e.begun (begun earlier)

def Trace.acting (trace : Trace) (t : ThreadId) (k : Nat) (r : Role) : Prop :=
  trace.homes k = t ∧ (trace.custodies k).role = r ∧ r.Acting

/-- The last round's destructor call was made on the thread. -/
def Released (trace : Trace) (t : ThreadId) : Prop :=
  ∃ n rt key stack, .fired n t rt key destructorRounds stack ∈ trace

theorem released_cons {trace : Trace} {t : ThreadId} {e : Event}
    (other : ∀ n rt key value stack, e ≠ .fired n t rt key value stack) :
    Released (e :: trace) t ↔ Released trace t := by
  constructor
  · rintro ⟨n,rt,key,stack,member⟩
    rcases List.mem_cons.mp member with same | earlier
    · exact absurd same.symm (other _ _ _ _ _)
    · exact ⟨n,rt,key,stack,earlier⟩
  · rintro ⟨n,rt,key,stack,earlier⟩
    exact ⟨n,rt,key,stack,List.mem_cons_of_mem _ earlier⟩

variable {rt : RuntimeId} {trace : Trace} {w w' : World} {t : ThreadId} {e : Event} {n : Nat} {c : Custody}

/-- Who acts after one custody has changed. -/
theorem acting_taken (taken : e.custodies trace.custodies = replace trace.custodies n c)
    (homes : e.homes trace.homes = replace trace.homes n t) {t' : ThreadId} {k : Nat} {r : Role} :
    Trace.acting (e :: trace) t' k r ↔
      k ≠ n ∧ trace.acting t' k r ∨ k = n ∧ t' = t ∧ c.role = r ∧ r.Acting := by
  by_cases same : k = n
  · simp [Trace.acting,Trace.custodies,Trace.homes,taken,homes,same,eq_comm]
  · simp [Trace.acting,Trace.custodies,Trace.homes,taken,homes,same]

theorem acting_still (taken : e.custodies trace.custodies = trace.custodies) (homes : e.homes trace.homes = trace.homes)
    {t' : ThreadId} {k : Nat} {r : Role} : Trace.acting (e :: trace) t' k r ↔ trace.acting t' k r := by
  simp [Trace.acting,Trace.custodies,Trace.homes,taken,homes]

theorem Inv.unacted (inv : w.Inv trace) (r : Role) : ¬trace.acting t w.count r := by
  rintro ⟨-,rfl,acts⟩
  simp [inv.orderly.fresh w.count (Nat.le_refl _),Custody.idle,Role.Acting] at acts

/-- Where a new operation is another thread's, the same act as before. -/
theorem Inv.acting_elsewhere (inv : w.Inv trace) (taken : e.custodies trace.custodies = replace trace.custodies w.count c)
    (homes : e.homes trace.homes = replace trace.homes w.count t) {t' : ThreadId} (other : t' ≠ t) (k : Nat) (r : Role) :
    Trace.acting (e :: trace) t' k r ↔ trace.acting t' k r := by
  refine (acting_taken taken homes).trans ?_
  constructor
  · rintro (⟨-,before⟩ | ⟨-,same,-⟩)
    · exact before
    · exact absurd same other
  · intro before
    refine .inl ⟨?_,before⟩
    rintro rfl
    exact inv.unacted r before

/-- What waits for a thread's function has done its part. -/
theorem Inv.entered (inv : w.Inv trace) {f : Frame} (member : f ∈ w.frames t) (entered : f.Entered) :
    (trace.custodies f.number).hand = .empty ∧ (trace.custodies f.number).role = .settled := by
  have follows := (inv.orderly.tidy t).follows member
  unfold Frame.Entered at entered
  split at entered
  next entry arg next asks =>
    rw [asks] at follows
    exact follows.1
  · exact entered.elim

/-- A key that is kept stays. -/
theorem Answers.key {q : Request} {reply : q.Reply} (answers : w.Answers t q reply w') {rt' : RuntimeId}
    {key : CleanupKey} (found : (w.image.runtimes rt').key = some key) : (w'.image.runtimes rt').key = some key := by
  cases q with
  | mapper rt call | host rt call | enter entry arg => rwa [answers.foreign (by trivial)]
  | state call =>
    obtain ⟨-,rfl⟩ := answers
    cases call with
    | exchangePhase rt₀ expected desired =>
      simp only [Image.answer]
      split
      · by_cases same : rt' = rt₀
        · subst same
          simpa [Image.setRuntime] using found
        · simpa [Image.setRuntime,same] using found
      · exact found
    | setPhase rt₀ phase =>
      by_cases same : rt' = rt₀
      · subst same
        simpa [Image.answer,Image.setRuntime] using found
      · simpa [Image.answer,Image.setRuntime,same] using found
    | keepKey rt₀ key₀ =>
      by_cases same : rt' = rt₀
      · subst same
        simp [Image.answer,Image.setRuntime,RuntimeState.keepKey,found]
      · simpa [Image.answer,Image.setRuntime,same] using found
    | _ => exact found

section
variable {op : Operation} {q : Request} {next : q.Reply → Program op.Result} {below : List Frame} {reply : q.Reply}
  (inv : w.Inv trace) (here : w.frames t = ⟨n,op,.ask q next⟩ :: below)
include inv here

theorem Inv.acting_answer {t' : ThreadId} {k : Nat} {r : Role} :
    Trace.acting (.answered n t q reply :: trace) t' k r ↔ k ≠ n ∧ trace.acting t' k r ∨
      k = n ∧ t' = t ∧ ((trace.custodies n).after q reply).role = r ∧ r.Acting := by
  have home := inv.home here
  by_cases same : k = n
  · subst same
    simp [Trace.acting,Trace.custodies,Event.custodies,Trace.homes,Event.homes,home,eq_comm]
  · simp [Trace.acting,Trace.custodies,Event.custodies,Trace.homes,Event.homes,same]

/-- If the operation's part is the same, or none of a thread's course before and after, then so is everybody's. -/
theorem Inv.acting_same {t' : ThreadId} (same : ((trace.custodies n).after q reply).role = (trace.custodies n).role ∨
    ¬(trace.custodies n).role.Base ∧ ¬((trace.custodies n).after q reply).role.Base) (k : Nat) (r : Role) :
    Trace.acting (.answered n t q reply :: trace) t' k r ↔ trace.acting t' k r := by
  have home := inv.home here
  refine (inv.acting_answer here).trans ?_
  by_cases mine : k = n
  · subst mine
    rcases same with role | ⟨before,after⟩
    · simp [Trace.acting,home,role,eq_comm]
    · constructor
      · rintro (⟨other,-⟩ | ⟨-,-,rfl,acts⟩)
        · exact absurd rfl other
        · exact absurd acts.base after
      · rintro ⟨-,rfl,acts⟩
        exact absurd acts.base before
  · simp [mine]

end

theorem Step.keeps {key : CleanupKey} (step : w.Step e w') (found : (w.image.runtimes rt).key = some key) :
    (w'.image.runtimes rt).key = some key := by
  cases step with
  | answer here answers => exact answers.key found
  | _ => exact found

/-- Runs have been shorter, and what they kept as keys is still there. -/
theorem Run.earlier {later : Trace} (run : Run (later ++ trace) w) : ∃ w₀, Run trace w₀ ∧
    ∀ rt key, (w₀.image.runtimes rt).key = some key → (w.image.runtimes rt).key = some key := by
  induction later generalizing w with
  | nil => exact ⟨w,run,fun _ _ found => found⟩
  | cons e later ih =>
    cases run with
    | step run going step =>
      obtain ⟨w₀,run₀,kept⟩ := ih run
      exact ⟨w₀,run₀,fun rt key found => step.keeps (kept rt key found)⟩

theorem Step.born (step : w.Step e w') (unborn : w'.lives t = .unborn) : w.lives t = .unborn := by
  cases step with
  | call | ret | move | key => exact unborn
  | answer here answers => simpa [setFrames,answers.kept.2.2] using unborn
  | begin => exact (unborn_setLife (by simp) unborn).1
  | exit | round | skip | fire | foreign => exact (unborn_setLife (by simp) unborn).1

/-- Nothing is answered on a thread that has not started. -/
theorem Run.answered_born {q : Request} {reply : q.Reply} (run : Run trace w)
    (answered : .answered n t q reply ∈ trace) : w.lives t ≠ .unborn := by
  induction run with
  | nil => cases answered
  | @step trace w e w' run going step ih =>
    intro unborn
    have before := step.born unborn
    rcases List.mem_cons.mp answered with rfl | earlier
    · cases step with
      | answer here => simp [(run.inv.orderly.unborn before).2] at here
    · exact ih earlier before

/-- A thread begins once. -/
theorem Run.begun {call : SpawnCall} {record : Handoff} (run : Run trace w) (started : .began n t call record ∈ trace) :
    trace.begun t = some record ∧ w.lives t ≠ .unborn := by
  induction run with
  | nil => cases started
  | @step trace w e w' run going step ih =>
    rcases List.mem_cons.mp started with rfl | earlier
    · cases step with
      | begin => simp [Trace.begun,Event.begun,setLife]
    · obtain ⟨begun,born⟩ := ih earlier
      refine ⟨?_,fun unborn => born (step.born unborn)⟩
      cases step with
      | @begin t' _ unborn =>
        have other : t ≠ t' := by
          rintro rfl
          exact born unborn
        simpa [Trace.begun,Event.begun,other] using begun
      | _ => exact begun

theorem Trace.began {record : Handoff} (trace : Trace) (begun : trace.begun t = some record) :
    ∃ n call, .began n t call record ∈ trace := by
  induction trace with
  | nil => cases begun
  | cons e earlier ih =>
    have before (begun : Trace.begun earlier t = some record) : ∃ n call, .began n t call record ∈ e :: earlier := by
      obtain ⟨n,call,member⟩ := ih begun
      exact ⟨n,call,List.mem_cons_of_mem _ member⟩
    cases e with
    | began n t' call record' =>
      by_cases mine : t = t'
      · subst mine
        obtain rfl : record' = record := by simpa [Trace.begun,Event.begun] using begun
        exact ⟨n,call,.head _⟩
      · exact before (by simpa [Trace.begun,Event.begun,mine] using begun)
    | _ => exact before begun

/-- No operation that has won the phase of a runtime has written the thread's stack. -/
def Trace.Clean (trace : Trace) (t : ThreadId) : Prop :=
  ∀ {k rt s}, .answered k t (.claim rt) true ∈ trace → .answered k t (.state (.setStack s)) () ∉ trace

theorem Trace.Clean.earlier (clean : Trace.Clean (e :: trace) t) : trace.Clean t :=
  fun won wrote => clean (List.mem_cons_of_mem _ won) (List.mem_cons_of_mem _ wrote)

/-- Only an exchange of the phase begins an initialization. -/
theorem starting_of_after {q : Request} {reply : q.Reply} {kept : Bool} (may : c.May q)
    (starting : (c.after q reply).role = .starting rt kept) :
    (∃ kept', c.role = .starting rt kept') ∨ (⟨q,reply⟩ : (q : Request) × q.Reply) = ⟨.claim rt,true⟩ := by
  cases q with
  | enter entry arg => exact .inl ⟨_,starting⟩
  | mapper rt call =>
    cases call with
    | map len rights => cases reply <;> exact .inl ⟨_,starting⟩
    | pageSize | protect | unmap => exact .inl ⟨_,starting⟩
  | host rt call =>
    cases call with
    | setCleanupValue key value =>
      cases reply with
      | ok done => cases starting
      | error cause => exact .inl ⟨_,starting⟩
    | spawn call =>
      simp only [Custody.after] at starting
      split at starting <;> exact .inl ⟨_,starting⟩
    | stackLimit | defaultAttributes | requestedAttributes | installInterception | createCleanupKey =>
      exact .inl ⟨_,starting⟩
  | state call =>
    cases call with
    | setStack s =>
      simp only [Custody.after,Custody.write] at starting
      split at starting <;> first | exact .inl ⟨_,starting⟩ | cases starting
    | setPhase rt phase =>
      cases phase <;> simp only [Custody.after,Custody.setPhase] at starting
      · cases starting
      · cases starting
      · split at starting
        · cases starting
        · exact .inl ⟨_,starting⟩
    | store addr bytes =>
      simp only [Custody.after,Custody.store] at starting
      split at starting <;> exact .inl ⟨_,starting⟩
    | phase rt =>
      simp only [Custody.after] at starting
      split at starting <;> exact .inl ⟨_,starting⟩
    | exchangePhase rt' expected desired =>
      obtain ⟨-,-,rfl,rfl⟩ := may
      cases reply with
      | false => exact .inl ⟨_,starting⟩
      | true =>
        obtain ⟨rfl,-⟩ := Role.starting.inj starting
        exact .inr rfl
    | keepKey rt' key =>
      obtain ⟨rfl,-⟩ := Role.starting.inj starting
      exact .inl ⟨_,may.1⟩
    | stack | key | load | verbosity | setVerbosity | environment | emit => exact .inl ⟨_,starting⟩

/-- Whoever initializes a runtime has won its phase. -/
theorem Run.claimed {kept : Bool} (run : Run trace w) (starting : (trace.custodies n).role = .starting rt kept) :
    .answered n (trace.homes n) (.claim rt) true ∈ trace := by
  induction run generalizing kept with
  | nil => cases starting
  | @step trace w e w' run going step ih =>
    by_cases concerned : e.Concerns n
    · cases step with
      | @answer t n' op q next below reply w' here answers =>
        obtain rfl : n' = n := concerned
        have home : trace.homes n' = t := run.inv.home here
        have starting : ((trace.custodies n').after q reply).role = .starting rt kept := by
          simpa [Trace.custodies,Event.custodies] using starting
        rcases starting_of_after (run.inv.may here) starting with ⟨kept',before⟩ | same
        · exact List.mem_cons_of_mem _ (ih before)
        · cases same
          rw [show Trace.homes (.answered n' t (.claim rt) true :: trace) n' = t from home]
          exact .head _
      | @call t op =>
        obtain rfl := concerned
        have starting : (Custody.ofOperation op).role = .starting rt kept := by
          simpa [Trace.custodies,Event.custodies] using starting
        cases op <;> cases starting
      | begin =>
        obtain rfl := concerned
        simp [Trace.custodies,Event.custodies,Custody.ofRecord] at starting
      | fire =>
        obtain rfl := concerned
        simp [Trace.custodies,Event.custodies,Custody.ofValue] at starting
      | _ => exact concerned.elim
    · obtain ⟨-,custodies,homes⟩ := unconcerned errands trace concerned
      rw [custodies] at starting
      rw [homes]
      exact List.mem_cons_of_mem _ (ih starting)

/-! Only threads that began from a record have to do with cleanup keys. -/

structure Lineage (trace : Trace) (w : World) : Prop where
  base : ∀ {k}, (trace.custodies k).role.Base → trace.begun (trace.homes k) ≠ none
  armed : ∀ {t rt key}, w.values t (.cleanup rt key) ≠ 0 → trace.begun t ≠ none
  born : ∀ {t}, trace.begun t ≠ none → w.lives t ≠ .unborn
  released : ∀ {t}, Released trace t → trace.begun t ≠ none
  ready : ∀ {t record}, trace.begun t = some record → w.Ready record.runtime

theorem Initial.lineage (initial : w.Initial) : w.Lineage [] where
  base base := base.elim
  armed present := absurd (initial.values _ _) present
  born started := absurd rfl started
  released := by simp [Released]
  ready started := by cases started

theorem Inv.ready_step (inv : w.Inv trace) (step : w.Step e w') (ready : w.Ready rt) : w'.Ready rt := by
  cases step with
  | answer here answers => exact inv.ready_answer here answers ready
  | _ => exact ready

section
variable (lineage : w.Lineage trace) (step : w.Step e w')
include lineage step

/-- What has begun stays so. -/
theorem Lineage.begun {record : Handoff} (begun : trace.begun t = some record) :
    Trace.begun (e :: trace) t = some record := by
  cases step with
  | @begin t' _ unborn =>
    have other : t ≠ t' := by
      rintro rfl
      exact lineage.born (by simp [begun]) unborn
    simpa [Trace.begun,Event.begun,other] using begun
  | _ => exact begun

theorem Lineage.native (begun : trace.begun t ≠ none) : Trace.begun (e :: trace) t ≠ none := by
  obtain ⟨record,begun⟩ := Option.ne_none_iff_exists'.mp begun
  simp [lineage.begun step begun]

/-- Who begins with this step, or had begun. -/
theorem Lineage.began {record : Handoff} (begun : Trace.begun (e :: trace) t = some record) :
    trace.begun t = some record ∨ w.lives t = .unborn ∧ trace.begun t = none ∧ ∃ call, e = .began w.count t call record := by
  cases step with
  | @begin t' call unborn =>
    by_cases mine : t = t'
    · subst mine
      obtain rfl : _ = record := by simpa [Trace.begun,Event.begun] using begun
      refine .inr ⟨unborn,?_,call,rfl⟩
      by_contra native
      exact lineage.born native unborn
    · exact .inl (by simpa [Trace.begun,Event.begun,mine] using begun)
  | _ => exact .inl begun

variable (inv : w.Inv trace)
include inv

theorem Lineage.base_step {k : Nat} (base : (Trace.custodies (e :: trace) k).role.Base) :
    Trace.begun (e :: trace) (Trace.homes (e :: trace) k) ≠ none := by
  by_cases concerned : e.Concerns k
  · cases step with
    | @call t op =>
      obtain rfl := concerned
      have base : (Custody.ofOperation op).role.Base := by simpa [Trace.custodies,Event.custodies] using base
      cases op <;> exact base.elim
    | begin =>
      obtain rfl := concerned
      simp [Trace.homes,Event.homes,Trace.begun,Event.begun]
    | fire exiting idle present =>
      obtain rfl := concerned
      simpa [Trace.homes,Event.homes,Trace.begun,Event.begun] using lineage.armed present
    | @answer t n op q next below reply w' here answers =>
      obtain rfl : n = k := concerned
      have base : ((trace.custodies n).after q reply).role.Base := by
        simpa [Trace.custodies,Event.custodies] using base
      exact lineage.base (Custody.base_of_after (inv.may here) base)
    | _ => exact concerned.elim
  · obtain ⟨-,custodies,homes⟩ := unconcerned errands trace concerned
    rw [custodies] at base
    rw [homes]
    exact lineage.native step (lineage.base base)

theorem Lineage.armed_step {key : CleanupKey} (present : w'.values t (.cleanup rt key) ≠ 0) :
    Trace.begun (e :: trace) t ≠ none := by
  refine lineage.native step ?_
  cases step with
  | @answer t' n op q next below reply w' here answers =>
    have set {rt₀ key₀ value} (base : (trace.custodies n).role.Base)
        (values : w'.values = (w.setValue t' (.cleanup rt₀ key₀) value).values) : trace.begun t ≠ none := by
      by_cases mine : t = t'
      · subst mine
        exact inv.home here ▸ lineage.base base
      · have present : w'.values t (.cleanup rt key) ≠ 0 := present
        rw [values] at present
        exact lineage.armed (by simpa [setValue,mine] using present)
    have present : w'.values t (.cleanup rt key) ≠ 0 := present
    cases inv.act here answers with
    | quiet _ _ values | stack _ _ _ values | settle _ _ _ _ values | take _ _ _ _ values =>
      exact lineage.armed (values ▸ present)
    | arm role _ _ _ values => exact set (by simp [role,Role.Base]) values
    | rearm role _ _ _ _ values => exact set (by simp [role,Role.Base]) values
  | @key t' number value =>
    suffices before : w.values t (.cleanup rt key) ≠ 0 from lineage.armed before
    by_cases mine : t = t' <;> simpa [setValue,mine] using present
  | @foreign t' rounds number =>
    suffices before : w.values t (.cleanup rt key) ≠ 0 from lineage.armed before
    by_cases mine : t = t' <;> simpa [setLife,setValue,mine] using present
  | @fire t' rounds rt' key' todo exiting idle present' =>
    by_cases mine : t = t'
    · subst mine
      exact lineage.armed present'
    · have before : w.values t (.cleanup rt key) ≠ 0 := by simpa [setLife,push,setFrames,setValue,mine] using present
      exact lineage.armed before
  | call | begin | ret | move | exit | round | skip => exact lineage.armed present

end

theorem Lineage.step (lineage : w.Lineage trace) (inv : w.Inv trace) (step : w.Step e w') : w'.Lineage (e :: trace) where
  base := lineage.base_step step inv
  armed := lineage.armed_step step inv
  born {t} begun := by
    obtain ⟨record,begun⟩ := Option.ne_none_iff_exists'.mp begun
    rcases lineage.began step begun with old | ⟨-,-,call,rfl⟩
    · exact fun unborn => lineage.born (by simp [old]) (step.born unborn)
    · cases step with
      | begin => simp [setLife]
  released {t} := by
    rintro ⟨n,rt,key,stack,member⟩
    refine lineage.native step ?_
    rcases List.mem_cons.mp member with same | earlier
    · cases step with
      | fire exiting idle present =>
        obtain rfl : t = _ := (Event.fired.inj same).2.1
        exact lineage.armed present
      | _ => cases same
    · exact lineage.released ⟨n,rt,key,stack,earlier⟩
  ready {t record} begun := by
    refine inv.ready_step step ?_
    rcases lineage.began step begun with old | ⟨-,-,call,rfl⟩
    · exact lineage.ready old
    · cases step with
      | begin unborn member =>
        obtain ⟨h,rests,record⟩ := inv.record member
        rw [record]
        exact inv.pledged.record (.record (e := w.estate trace) member rests)

theorem Run.lineage (run : Run trace w) : w.Lineage trace := by
  induction run with
  | nil initial => exact initial.lineage
  | step run going step ih => exact ih.step run.inv step

/-! What a thread runs for its own sake stays until it has acted. -/

/-- What does not wait runs before all else on its thread. -/
theorem Inv.top (inv : w.Inv trace) {f : Frame} (member : f ∈ w.frames t) (idle : ¬f.Waits) : ∃ below, w.frames t = f :: below := by
  have tidy := inv.orderly.tidy t
  cases here : w.frames t with
  | nil => simp [here] at member
  | cons g below =>
    rw [here] at member tidy
    rcases List.mem_cons.mp member with rfl | later
    · exact ⟨below,rfl⟩
    · exact absurd (tidy.2.1 f later).1 idle

/-- One thread's course, by the record with which it began. -/
structure Tenure (trace : Trace) (w : World) (t : ThreadId) : Prop where
  acting : ∀ {k r}, trace.acting t k r → w.Running t k
  values : ∀ {rt key}, w.values t (.cleanup rt key) ≠ 0 →
    ∃ record, trace.begun t = some record ∧ record.runtime = rt ∧ (w.image.runtimes rt).key = some key
  staged : ∀ {record key}, trace.begun t = some record → (w.image.runtimes record.runtime).key = some key →
    Stage record.holding (.cleanup record.runtime key) (w.lives t) (trace.acting t) (Released trace t)
      (w.image.threads t).holding (w.values t (.cleanup record.runtime key))
  fired : ∀ {n rt key value s}, .fired n t rt key value s ∈ trace → ∃ record, trace.begun t = some record ∧
    record.runtime = rt ∧ (w.image.runtimes rt).key = some key ∧ s.holding = some record.holding ∧ value ≠ 0 ∧
    value ≤ destructorRounds

theorem Initial.tenure (initial : w.Initial) : w.Tenure [] t where
  acting := by
    rintro k r ⟨-,rfl,acts⟩
    exact False.elim acts
  values present := absurd (initial.values _ _) present
  staged begun := by cases begun
  fired member := by cases member

section
variable (tenure : w.Tenure trace t)
include tenure

/-- On a thread without operations nobody acts. -/
theorem Tenure.idle (idle : w.frames t = []) (k : Nat) (r : Role) : ¬trace.acting t k r := by
  intro acts
  obtain ⟨f,member,-⟩ := tenure.acting acts
  simp [idle] at member

theorem Tenure.entered (inv : w.Inv trace) (entered : ∀ f ∈ w.frames t, f.Entered) (k : Nat) (r : Role) :
    ¬trace.acting t k r := by
  intro acts
  obtain ⟨f,member,rfl⟩ := tenure.acting acts
  obtain ⟨-,rfl,acting⟩ := acts
  rw [(inv.entered member (entered f member)).2] at acting
  exact acting

/-- The key of the thread's runtime is there. -/
theorem Tenure.stage (inv : w.Inv trace) (lineage : w.Lineage trace) {record : Handoff}
    (begun : trace.begun t = some record) : ∃ key, (w.image.runtimes record.runtime).key = some key ∧
      Stage record.holding (.cleanup record.runtime key) (w.lives t) (trace.acting t) (Released trace t)
        (w.image.threads t).holding (w.values t (.cleanup record.runtime key)) := by
  obtain ⟨key,found⟩ := Option.ne_none_iff_exists'.mp (inv.phased.keyed (lineage.ready begun))
  exact ⟨key,found,tenure.staged begun found⟩

/-- An operation that is done acts no part any more. -/
theorem Tenure.done (inv : w.Inv trace) (lineage : w.Lineage trace) {f : Frame} {result : f.operation.Result} {r : Role}
    (member : f ∈ w.frames t) (done : f.rest = .done result) : ¬trace.acting t f.number r := by
  rintro ⟨home,rfl,acts⟩
  have ends : f.operation.Ends (trace.custodies f.number) result := by
    have follows := (inv.orderly.tidy t).follows member
    rwa [done] at follows
  have idle : ¬f.Waits := by simp [Frame.Waits,done]
  obtain ⟨below,here⟩ := inv.top member idle
  obtain ⟨n,op,rest⟩ := f
  cases op with
  | start rt =>
    cases result with
    | ok region =>
      obtain ⟨-,rt',role⟩ := ends
      simp [role,Role.Acting] at acts
    | error cause =>
      obtain ⟨-,role | role⟩ := ends <;> simp [role,Role.Acting] at acts
  | spawn =>
    obtain ⟨-,role⟩ := ends
    simp [role,Role.Acting] at acts
  | body =>
    obtain ⟨-,role⟩ := ends
    simp [role,Role.Acting] at acts
  | destroy value =>
    obtain ⟨-,role | ⟨pass,s,role,seen,bare⟩⟩ := ends
    · simp [role,Role.Acting] at acts
    · -- A destructor that finds no stack would be one that runs after the last round.
      have native := lineage.base (k := n) (by simp [role,Role.Base])
      rw [show trace.homes n = t from home] at native
      obtain ⟨record,begun⟩ := Option.ne_none_iff_exists'.mp native
      obtain ⟨key,-,stage⟩ := tenure.stage inv lineage begun
      have installed := stage.stacked (n := n) ⟨home,role,trivial⟩
      rw [inv.orderly.seen here idle seen,bare] at installed
      cases installed

theorem Tenure.running_step (inv : w.Inv trace) (lineage : w.Lineage trace) (step : w.Step e w') {k : Nat} {r : Role}
    (acts : Trace.acting (e :: trace) t k r) : w'.Running t k := by
  by_cases concerned : e.Concerns k
  · obtain ⟨home,-⟩ := acts
    cases step with
    | @call t' op | @begin t' | @fire t' =>
      obtain rfl := concerned
      obtain rfl : t' = t := by simpa [Trace.homes,Event.homes] using home
      exact ⟨_,push_top _ _ _,rfl⟩
    | @answer t' n op q next below reply w' here answers =>
      obtain rfl : n = k := concerned
      obtain rfl : t' = t := (inv.home here).symm.trans home
      exact ⟨⟨n,op,next reply⟩,by simp [setFrames],rfl⟩
    | _ => exact concerned.elim
  · obtain ⟨-,custodies,homes⟩ := unconcerned errands trace concerned
    have before : trace.acting t k r := by
      obtain ⟨home,role,acting⟩ := acts
      exact ⟨homes ▸ home,custodies ▸ role,acting⟩
    obtain ⟨f,member,rfl⟩ := tenure.acting before
    rcases step.stays member concerned with stays | ⟨result,done,-⟩ | ⟨-,entered⟩
    · exact ⟨f,stays,rfl⟩
    · exact absurd before (tenure.done inv lineage member done)
    · obtain ⟨-,rfl,acting⟩ := before
      rw [(inv.entered member entered).2] at acting
      exact acting.elim

section
variable (inv : w.Inv trace) (lineage : w.Lineage trace) (step : w.Step e w')
include inv lineage step

/-- The thread's stage changes as the step says. -/
theorem Tenure.carry (kept : Trace.begun (e :: trace) t = trace.begun t)
    (quiet : ∀ n rt key value s, e ≠ .fired n t rt key value s)
    (values : ∀ {rt key}, w'.values t (.cleanup rt key) ≠ 0 →
      ∃ record, trace.begun t = some record ∧ record.runtime = rt ∧ (w.image.runtimes rt).key = some key)
    (staged : ∀ {record : Handoff} {key}, trace.begun t = some record → (w.image.runtimes record.runtime).key = some key →
      Stage record.holding (.cleanup record.runtime key) (w.lives t) (trace.acting t) (Released trace t)
        (w.image.threads t).holding (w.values t (.cleanup record.runtime key)) →
      Stage record.holding (.cleanup record.runtime key) (w'.lives t) (Trace.acting (e :: trace) t) (Released trace t)
        (w'.image.threads t).holding (w'.values t (.cleanup record.runtime key))) : w'.Tenure (e :: trace) t where
  acting := tenure.running_step inv lineage step
  values present := by
    obtain ⟨record,begun,owner,found⟩ := values present
    exact ⟨record,kept.trans begun,owner,step.keeps found⟩
  staged {record key} begun found := by
    rw [kept] at begun
    obtain ⟨key',before,stage⟩ := tenure.stage inv lineage begun
    obtain rfl : key = key' := Option.some.inj (found.symm.trans (step.keeps before))
    rw [propext (released_cons fun n => quiet n)]
    exact staged begun before stage
  fired member := by
    rcases List.mem_cons.mp member with same | earlier
    · exact absurd same.symm (quiet _ _ _ _ _)
    · obtain ⟨record,begun,owner,found,rest⟩ := tenure.fired earlier
      exact ⟨record,kept.trans begun,owner,step.keeps found,rest⟩

/-- Nothing happens on the thread. -/
theorem Tenure.still (kept : Trace.begun (e :: trace) t = trace.begun t)
    (quiet : ∀ n rt key value s, e ≠ .fired n t rt key value s) (lives : w'.lives t = w.lives t)
    (stack : (w'.image.threads t).holding = (w.image.threads t).holding)
    (values : ∀ rt key, w'.values t (.cleanup rt key) = w.values t (.cleanup rt key))
    (acting : ∀ k r, Trace.acting (e :: trace) t k r ↔ trace.acting t k r) : w'.Tenure (e :: trace) t := by
  refine tenure.carry inv lineage step kept quiet ?_ ?_
  · intro rt key present
    exact tenure.values (values rt key ▸ present)
  · intro record key begun found stage
    rw [lives,stack,values]
    exact stage.congr acting

end

/-- The thread's exit goes on. -/
theorem Tenure.shift (inv : w.Inv trace) (lineage : w.Lineage trace) (step : w.Step e w')
    (taken : e.custodies trace.custodies = trace.custodies) (homes : e.homes trace.homes = trace.homes)
    (kept : e.begun trace.begun = trace.begun) (quiet : ∀ n rt key value s, e ≠ .fired n t rt key value s)
    (values : ∀ {rt key}, w'.values t (.cleanup rt key) = w.values t (.cleanup rt key))
    (staged : ∀ {h rt key late}, Stage h (.cleanup rt key) (w.lives t) (trace.acting t) late (w.image.threads t).holding
        (w.values t (.cleanup rt key)) →
      Stage h (.cleanup rt key) (w'.lives t) (trace.acting t) late (w'.image.threads t).holding
        (w.values t (.cleanup rt key))) : w'.Tenure (e :: trace) t := by
  refine tenure.carry inv lineage step (congrFun kept t) quiet ?_ ?_
  · intro rt key present
    exact tenure.values (values ▸ present)
  · intro record key begun found stage
    rw [values]
    exact (staged stage).congr fun _ _ => acting_still taken homes

/-- The key that the acting operation knows is the one of the thread's runtime. -/
theorem Tenure.knows (run : Run trace w) {k : Nat} {r : Role} {key : CleanupKey} {record : Handoff}
    (acts : trace.acting t k r) (begun : trace.begun t = some record)
    (known : (trace.custodies k).key = some (rt,key)) : rt = record.runtime := by
  obtain ⟨f,member,rfl⟩ := tenure.acting acts
  obtain ⟨x,track⟩ : ∃ x, errands.track trace f.number = some x := by
    refine run.tracked_some (fun {e n} opens => ?_) (run.inv.orderly.old member)
    cases e with
    | called | began | fired => rfl
    | _ => exact opens.elim
  have known_ := run.known track
  obtain ⟨home,rfl,acting⟩ := acts
  rw [home] at known_
  rcases known_.client known with outer | client
  · exact absurd acting.base (known_.outer outer)
  · cases x with
    | outer => cases client
    | arrival record' =>
      obtain ⟨call,began⟩ := known_.arrival rfl
      have same := (run.begun began).1
      rw [begun] at same
      obtain rfl := Option.some.inj same
      exact (Option.some.inj client).symm
    | departure value s acted =>
      obtain ⟨rt',key',fired⟩ := known_.departure rfl
      obtain ⟨record',begun',-,-,stack,-⟩ := tenure.fired fired
      rw [begun] at begun'
      obtain rfl := Option.some.inj begun'
      have owner : s.owner = some rt := client
      simpa [ThreadStack.owner,stack,Handoff.holding] using owner.symm

end

section
variable {op : Operation} {q : Request} {next : q.Reply → Program op.Result} {below : List Frame} {reply : q.Reply}
  (tenure : w.Tenure trace t) (run : Run trace w) (here : w.frames t = ⟨n,op,.ask q next⟩ :: below)
  (answers : w.Answers t q reply w')
include tenure run here answers

theorem Tenure.values_answer {key : CleanupKey} (present : w'.values t (.cleanup rt key) ≠ 0) :
    ∃ record, trace.begun t = some record ∧ record.runtime = rt ∧ (w.image.runtimes rt).key = some key := by
  have inv := run.inv
  have home := inv.home here
  have set {rt₀ key₀ value} (acts : (trace.custodies n).role.Acting) (known : (trace.custodies n).key = some (rt₀,key₀))
      (values : w'.values = (w.setValue t (.cleanup rt₀ key₀) value).values) :
      ∃ record, trace.begun t = some record ∧ record.runtime = rt ∧ (w.image.runtimes rt).key = some key := by
    by_cases same : Key.cleanup rt key = .cleanup rt₀ key₀
    · obtain ⟨rfl,rfl⟩ : rt = rt₀ ∧ key = key₀ := by simpa using same
      obtain ⟨record,begun⟩ := Option.ne_none_iff_exists'.mp (home ▸ run.lineage.base acts.base)
      exact ⟨record,begun,(tenure.knows run ⟨home,rfl,acts⟩ begun known).symm,inv.phased.lookup known⟩
    · rw [values] at present
      exact tenure.values (by simpa [setValue,same] using present)
  cases inv.act here answers with
  | quiet _ _ values | stack _ _ _ values | settle _ _ _ _ values | take _ _ _ _ values =>
    exact tenure.values (values ▸ present)
  | arm role _ known _ values => exact set (by simp [role,Role.Acting]) known values
  | rearm role _ _ known _ values => exact set (by simp [role,Role.Acting]) known values

theorem Tenure.staged_answer (clean : Trace.Clean (.answered n t q reply :: trace) t) {record : Handoff} {key : CleanupKey}
    (begun : trace.begun t = some record) (found : (w.image.runtimes record.runtime).key = some key)
    (stage : Stage record.holding (.cleanup record.runtime key) (w.lives t) (trace.acting t) (Released trace t)
      (w.image.threads t).holding (w.values t (.cleanup record.runtime key))) :
    Stage record.holding (.cleanup record.runtime key) (w'.lives t) (Trace.acting (.answered n t q reply :: trace) t)
      (Released trace t) (w'.image.threads t).holding (w'.values t (.cleanup record.runtime key)) := by
  have inv := run.inv
  have home := inv.home here
  have only {rt' key'} (acts : (trace.custodies n).role.Acting) (known : (trace.custodies n).key = some (rt',key')) :
      rt' = record.runtime ∧ key' = key := by
    obtain rfl := tenure.knows run ⟨home,rfl,acts⟩ begun known
    exact ⟨rfl,by simpa [found] using (inv.phased.lookup known).symm⟩
  -- The operation's part is over.
  have spent (role : ((trace.custodies n).after q reply).role = .settled) (k : Nat) (r : Role) :
      Trace.acting (.answered n t q reply :: trace) t k r ↔ k ≠ n ∧ trace.acting t k r := by
    refine (inv.acting_answer here).trans ?_
    constructor
    · rintro (old | ⟨-,-,same,acts⟩)
      · exact old
      · rw [role] at same
        subst same
        exact acts.elim
    · exact .inl
  rw [answers.kept.2.2]
  cases inv.act here answers with
  | quiet same threads values =>
    rw [threads,values]
    exact stage.congr (inv.acting_same here same)
  | stack role same threads values =>
    rw [values]
    rcases answers.threads with still | ⟨s,rfl,-⟩
    · rw [still]
      exact stage.congr (inv.acting_same here (.inl same))
    · have claimed := run.claimed role
      rw [home] at claimed
      exact absurd (.head _) (clean (List.mem_cons_of_mem _ claimed))
  | @settle h s role role' installed threads values =>
    have now (k : Nat) (r : Role) : Trace.acting (.answered n t q reply :: trace) t k r ↔
        k ≠ n ∧ trace.acting t k r ∨ k = n ∧ r = .arming := by
      refine (inv.acting_answer here).trans ?_
      rw [role']
      constructor
      · rintro (old | ⟨same,-,rfl,-⟩)
        · exact .inl old
        · exact .inr ⟨same,rfl⟩
      · rintro (old | ⟨same,rfl⟩)
        · exact .inl old
        · exact .inr ⟨same,rfl,rfl,trivial⟩
    obtain ⟨rfl,settled⟩ := stage.settle ⟨home,role,trivial⟩ now
    rwa [threads,values,replace_same,installed]
  | @arm rt' key' role role' known threads values =>
    obtain ⟨rfl,rfl⟩ := only (by simp [role,Role.Acting]) known
    rw [threads,values]
    have armed := stage.arm ⟨home,role,trivial⟩ (spent role')
    simpa [setValue] using armed
  | @rearm rt' key' value role early role' known threads values =>
    obtain ⟨rfl,rfl⟩ := only (by simp [role,Role.Acting]) known
    rw [threads,values]
    have counted := stage.rearm ⟨home,role,trivial⟩ early (spent role')
    simpa [setValue] using counted
  | take role late role' threads values =>
    rw [threads,values]
    have taken := stage.take ⟨home,role,trivial⟩ late (spent role')
    simpa [ThreadStack.empty] using taken

end

section
variable (tenure : w.Tenure trace t) (inv : w.Inv trace) (lineage : w.Lineage trace)
include tenure inv lineage

/-- The thread begins. -/
theorem Tenure.begin {call : SpawnCall} {record : Handoff} (unborn : w.lives t = .unborn)
    (step : w.Step (.began w.count t call record) w') (lives : w'.lives t = .alive) (image : w'.image = w.image)
    (values : w'.values = w.values) : w'.Tenure (.began w.count t call record :: trace) t := by
  obtain ⟨bare,idle⟩ := inv.orderly.unborn unborn
  have native : trace.begun t = none := by
    by_contra begun
    exact lineage.born begun unborn
  have vacant {rt key} : w'.values t (.cleanup rt key) = 0 := by
    rw [values]
    by_contra present
    exact lineage.armed present native
  refine ⟨tenure.running_step inv lineage step,fun present => absurd vacant present,?_,?_⟩
  · intro record' key begun found
    obtain rfl : record = record' := by simpa [Trace.begun,Event.begun] using begun
    rw [lives,image,bare,vacant]
    refine .arriving (n := w.count) rfl ?_ ?_ rfl rfl
    · intro k r
      refine (acting_taken (n := w.count) (c := .ofRecord call.arg record) rfl rfl).trans ?_
      constructor
      · rintro (⟨-,old⟩ | ⟨same,-,rfl,-⟩)
        · exact absurd old (tenure.idle idle k r)
        · exact ⟨same,rfl⟩
      · rintro ⟨same,rfl⟩
        exact .inr ⟨same,rfl,rfl,trivial⟩
    · rw [released_cons (by simp)]
      exact fun released => lineage.released released native
  · intro n rt key value s member
    rcases List.mem_cons.mp member with clash | earlier
    · cases clash
    · obtain ⟨record',begun,-⟩ := tenure.fired earlier
      simp [native] at begun

/-- The thread's key is fired. -/
theorem Tenure.fire {rounds : Nat} {key : CleanupKey} {todo : List Key}
    (exiting : w.lives t = .exiting rounds (.cleanup rt key :: todo)) (idle : w.frames t = [])
    (present : w.values t (.cleanup rt key) ≠ 0) :
    (((w.setValue t (.cleanup rt key) 0).push t (.destroy (w.values t (.cleanup rt key)))).setLife t
      (.exiting rounds todo)).Tenure
        (.fired w.count t rt key (w.values t (.cleanup rt key)) (w.image.threads t) :: trace) t := by
  have step : w.Step _ _ := .fire exiting idle present
  obtain ⟨record,begun,rfl,found⟩ := tenure.values present
  have stage := tenure.staged begun found
  obtain ⟨installed,small⟩ := stage.firing (tenure.idle idle) exiting present
  refine ⟨tenure.running_step inv lineage step,?_,?_,?_⟩
  · intro rt' key' present'
    by_cases same : Key.cleanup rt' key' = .cleanup record.runtime key
    · simp [setLife,push,setFrames,setValue,same] at present'
    · exact tenure.values (by simpa [setLife,push,setFrames,setValue,same] using present')
  · intro record' key' begun' found'
    obtain rfl : record = record' := Option.some.inj (begun.symm.trans begun')
    obtain rfl : key = key' := Option.some.inj (found.symm.trans found')
    have passing (k : Nat) (r : Role) : Trace.acting (.fired w.count t record.runtime key
        (w.values t (.cleanup record.runtime key)) (w.image.threads t) :: trace) t k r ↔
          k = w.count ∧ r = .passing (w.values t (.cleanup record.runtime key)) := by
      refine (acting_taken (n := w.count) (c := .ofValue _ _) rfl rfl).trans ?_
      constructor
      · rintro (⟨-,old⟩ | ⟨same,-,rfl,-⟩)
        · exact absurd old (tenure.idle idle k r)
        · exact ⟨same,rfl⟩
      · rintro ⟨same,rfl⟩
        exact .inr ⟨same,rfl,rfl,trivial⟩
    have counts : Released (.fired w.count t record.runtime key (w.values t (.cleanup record.runtime key))
        (w.image.threads t) :: trace) t ↔ w.values t (.cleanup record.runtime key) = destructorRounds ∨ Released trace t := by
      simp only [Released,List.mem_cons]
      constructor
      · rintro ⟨n,rt₀,key₀,stack,same | earlier⟩
        · injection same with _ _ _ _ value
          exact .inl value.symm
        · exact .inr ⟨n,rt₀,key₀,stack,earlier⟩
      · rintro (same | ⟨n,rt₀,key₀,stack,earlier⟩)
        · exact ⟨_,_,_,_,.inl (by rw [same])⟩
        · exact ⟨n,rt₀,key₀,stack,.inr earlier⟩
    simpa [setLife,push,setFrames,setValue] using stage.fire (tenure.idle idle) exiting present passing counts
  · intro n rt' key' value s member
    rcases List.mem_cons.mp member with same | earlier
    · cases same
      exact ⟨record,begun,rfl,found,installed,present,small⟩
    · exact tenure.fired earlier

end

/-- A called operation acts no part. -/
theorem Inv.acting_call (inv : w.Inv trace) {t' : ThreadId} {op : Operation} (k : Nat) (r : Role) :
    Trace.acting (.called w.count t' op :: trace) t k r ↔ trace.acting t k r := by
  refine (acting_taken (n := w.count) rfl rfl).trans ?_
  constructor
  · rintro (⟨-,old⟩ | ⟨-,-,rfl,acting⟩)
    · exact old
    · cases op <;> exact acting.elim
  · intro old
    refine .inl ⟨?_,old⟩
    rintro rfl
    exact inv.unacted r old

/-- While no initialization writes its stack, a thread keeps to its course. -/
theorem Tenure.step (tenure : w.Tenure trace t) (run : Run trace w) (clean : Trace.Clean (e :: trace) t)
    (step : w.Step e w') : w'.Tenure (e :: trace) t := by
  have inv := run.inv
  have lineage := run.lineage
  cases step with
  | call born outside named =>
    exact tenure.still inv lineage (.call born outside named) rfl (by simp) rfl rfl (fun _ _ => rfl) inv.acting_call
  | @begin t' call unborn member =>
    by_cases mine : t = t'
    · subst mine
      exact tenure.begin inv lineage unborn (.begin unborn member) (by simp [setLife]) rfl rfl
    · exact tenure.still inv lineage (.begin unborn member) (by simp [Trace.begun,Event.begun,mine]) (by simp)
        (by simp [setLife,push,setFrames,mine]) rfl (fun _ _ => rfl)
        (inv.acting_elsewhere (c := .ofRecord _ _) rfl rfl mine)
  | @answer t' n op q next below reply w' here answers =>
    have step : w.Step _ _ := .answer here answers
    by_cases mine : t = t'
    · subst mine
      exact tenure.carry inv lineage step rfl (by simp) (tenure.values_answer run here answers)
        (tenure.staged_answer run here answers clean)
    · refine tenure.still inv lineage step rfl (by simp) ?_ ?_ ?_ ?_
      · simp [setFrames,answers.kept.2.2]
      · rcases answers.threads with still | ⟨s,-,wrote⟩
        · simp [setFrames,still]
        · simp [setFrames,wrote,mine]
      · intro rt key
        rcases answers.values with still | ⟨rt',key',value,-,rfl⟩
        · simp [setFrames,still]
        · simp [setFrames,setValue,mine]
      · intro k r
        refine (inv.acting_answer here).trans ?_
        constructor
        · rintro (⟨-,old⟩ | ⟨-,same,-⟩)
          · exact old
          · exact absurd same mine
        · intro old
          refine .inl ⟨?_,old⟩
          rintro rfl
          exact mine (old.1.symm.trans (inv.home here))
  | ret here => exact tenure.still inv lineage (.ret here) rfl (by simp) rfl rfl (fun _ _ => rfl) fun _ _ => acting_still rfl rfl
  | @move t' h pointer outside alive stack low high =>
    refine tenure.still inv lineage (.move outside alive stack low high) rfl (by simp) rfl ?_ (fun _ _ => rfl)
      fun _ _ => acting_still rfl rfl
    by_cases mine : t = t'
    · subst mine
      simp [setStack,stack]
    · simp [setStack,mine]
  | @key t' number value outside born =>
    refine tenure.still inv lineage (.key outside born) rfl (by simp) rfl rfl (fun rt key => ?_) fun _ _ => acting_still rfl rfl
    by_cases mine : t = t' <;> simp [setValue,mine]
  | @exit t' alive entered =>
    have step : w.Step _ _ := .exit alive entered
    by_cases mine : t = t'
    · subst mine
      refine tenure.shift inv lineage step rfl rfl rfl (by simp) rfl fun stage => ?_
      simpa [setLife,setFrames] using stage.exit (tenure.entered inv entered) alive
    · exact tenure.still inv lineage step rfl (by simp) (by simp [setLife,setFrames,mine]) rfl (fun _ _ => rfl)
        fun _ _ => acting_still rfl rfl
  | @round t' rounds order exiting idle once all =>
    have step : w.Step _ _ := .round exiting idle once all
    by_cases mine : t = t'
    · subst mine
      refine tenure.shift inv lineage step rfl rfl rfl (by simp) rfl fun stage => ?_
      simpa [setLife] using stage.round (tenure.idle idle) exiting once (all _)
    · exact tenure.still inv lineage step rfl (by simp) (by simp [setLife,mine]) rfl (fun _ _ => rfl)
        fun _ _ => acting_still rfl rfl
  | @skip t' rounds k todo exiting idle absent =>
    have step : w.Step _ _ := .skip exiting idle absent
    by_cases mine : t = t'
    · subst mine
      refine tenure.shift inv lineage step rfl rfl rfl (by simp) rfl fun stage => ?_
      simpa [setLife] using stage.skip (tenure.idle idle) exiting fun same => same ▸ absent
    · exact tenure.still inv lineage step rfl (by simp) (by simp [setLife,mine]) rfl (fun _ _ => rfl)
        fun _ _ => acting_still rfl rfl
  | @fire t' rounds rt key todo exiting idle present =>
    by_cases mine : t = t'
    · subst mine
      exact tenure.fire inv lineage exiting idle present
    · refine tenure.still inv lineage (.fire exiting idle present) rfl ?_ ?_ rfl ?_
        (inv.acting_elsewhere (c := .ofValue _ _) rfl rfl mine)
      · simp [Ne.symm mine]
      · simp [setLife,push,setFrames,setValue,mine]
      · simp [setLife,push,setFrames,setValue,mine]
  | @foreign t' rounds number todo exiting idle present =>
    have step : w.Step _ _ := .foreign exiting idle present
    by_cases mine : t = t'
    · subst mine
      refine tenure.shift inv lineage step rfl rfl rfl (by simp) (by simp [setLife,setValue]) fun stage => ?_
      simpa [setLife,setValue] using stage.skip (tenure.idle idle) exiting (by simp)
    · exact tenure.still inv lineage step rfl (by simp) (by simp [setLife,setValue,mine]) rfl
        (by simp [setLife,setValue,mine]) fun _ _ => acting_still rfl rfl

theorem Run.tenure (run : Run trace w) (clean : trace.Clean t) : w.Tenure trace t := by
  induction run with
  | nil initial => exact initial.tenure
  | step run going step ih => exact (ih clean.earlier).step run clean step

end World
end GuardedStack
