import GuardedStack.Proofs.Discretion
import GuardedStack.Proofs.Turns

/-! Runs that differ in their logging. Two runs of one world in which the outside makes the same choices, while in each the
verbosity, the environment and the descriptor are set anew at any time, are the same run but for the reports. A world
without its reports goes on by itself, and what it comes to depends on the choices alone. -/
namespace GuardedStack

/-- What is decided outside the library in one step. -/
inductive Choice where
  | call (t : ThreadId) (op : Operation)
  | begin (t : ThreadId) (call : SpawnCall)
  /-- Whatever the thread asks for across a seam, or of its function, is answered so. -/
  | answer (t : ThreadId) (reply : (q : Request) → q.Reply)
  | ret (t : ThreadId)
  | move (t : ThreadId) (pointer : UInt64)
  | key (t : ThreadId) (number : Nat) (value : UInt64)
  | exit (t : ThreadId)
  | round (t : ThreadId) (order : List Key)
  | skip (t : ThreadId)
  | fire (t : ThreadId)
  | foreign (t : ThreadId)

/-- The event is the answer to a report. -/
def Event.Reports : Event → Bool
  | answered _ _ q _ => q.hush.isSome
  | _ => false

/-- The choice behind an event, where it can be told from the event. -/
def Event.choice? : Event → Option Choice
  | called _ t op => some (.call t op)
  | began _ t call _ => some (.begin t call)
  | returned _ t _ _ => some (.ret t)
  | moved t pointer => some (.move t pointer)
  | keyed t number value => some (.key t number value)
  | exited t _ => some (.exit t)
  | skipped t => some (.skip t)
  | fired _ t _ _ _ _ => some (.fire t)
  | foreign t _ _ => some (.foreign t)
  | answered _ _ _ _ | round _ => none

def Choice.thread : Choice → ThreadId
  | call t _ | begin t _ | answer t _ | ret t | move t _ | key t _ _ | exit t | round t _ | skip t | fire t | foreign t => t

def Frame.hushed (f : Frame) : Frame := ⟨f.number,f.operation,f.rest.hushed⟩

def Frame.Stopped (f : Frame) (reason : Stop) : Prop := f.rest = .stop reason

namespace World

/-- A reply as it may come: to a request for the state what the state says, otherwise what is chosen. A page may have any
size, and a new mapping may lie anywhere. -/
def Replies (w : World) (t : ThreadId) (choose : (q : Request) → q.Reply) : (q : Request) → q.Reply → Prop
  | .state call, reply => reply = (w.image.answer t call).1
  | q, reply => reply = choose q ∧ q.Proper reply

/-- What a reply changes. -/
def told (w : World) (t : ThreadId) : (q : Request) → q.Reply → World
  | .state call, _ => { w with image := (w.image.answer t call).2 }
  | .mapper rt (.map len _), .ok addr => { w with live := ⟨rt,addr,len⟩ :: w.live }
  | .mapper rt (.unmap addr len), .ok () => { w with live := w.live.filter (· ≠ ⟨rt,addr,len⟩) }
  | .host rt (.setCleanupValue key value), .ok () => w.setValue t (.cleanup rt key) value
  | .host _ (.spawn call), code => if code = 0 then { w with accepted := call :: w.accepted } else w
  | _, _ => w

/-- A step with the choice that it follows. Answers to reports are no such steps. -/
inductive Turn (w : World) : Choice → Event → World → Prop
  | step {c e w'} : w.Step e w' → e.choice? = some c → Turn w c e w'
  | answer {t n op q next below reply choose} : w.frames t = ⟨n,op,.ask q next⟩ :: below → q.hush = none →
      w.Replies t choose q reply →
      Turn w (.answer t choose) (.answered n t q reply) ((w.told t q reply).setFrames t (⟨n,op,next reply⟩ :: below))
  | round {t rounds order} : w.lives t = .exiting rounds [] → w.frames t = [] → order.Nodup →
      (∀ k, w.values t k ≠ 0 → k ∈ order) → Turn w (.round t order) (.round t) (w.setLife t (.exiting (rounds + 1) order))

/-- A report of a thread is answered. -/
inductive Reported (w : World) (t : ThreadId) : World → Prop
  | answer {n op call next below} {quiet : call.Reply} : w.frames t = ⟨n,op,.ask (.state call) next⟩ :: below →
      (Request.state call).hush = some quiet → Reported w t
        ((w.told t (.state call) (w.image.answer t call).1).setFrames t (⟨n,op,next (w.image.answer t call).1⟩ :: below))

/-- Other diagnostics, and another descriptor for the lines to come. -/
def tune (w : World) (verbosity : Verbosity) (environment : Option ByteArray) (stderr : Diagnostics.Descriptor) : World :=
  { w with image := { w.image with verbosity := verbosity, environment := environment, stderr := stderr } }

/-- A run with these choices and events, the newest first. Reports and changes of the diagnostics come between them. -/
inductive Tuned (start : World) : List Choice → Trace → World → Prop
  | nil : Tuned start [] [] start
  | turn {choices trace w c e w'} : Tuned start choices trace w → ¬w.Ended → w.Turn c e w' →
      Tuned start (c :: choices) (e :: trace) w'
  | report {choices trace w t w'} : Tuned start choices trace w → ¬w.Ended → w.Reported t w' → Tuned start choices trace w'
  | tune {choices trace w} (verbosity environment stderr) : Tuned start choices trace w →
      Tuned start choices trace (w.tune verbosity environment stderr)

/-- The world without its diagnostics, in which no operation reports. -/
def hushed (w : World) : World :=
  { w.tune .quiet none .working with frames := fun t => (w.frames t).map Frame.hushed }

variable {w w' : World} {t : ThreadId} {c : Choice} {e : Event}

@[simp] theorem frames_hushed : w.hushed.frames t = (w.frames t).map Frame.hushed := rfl

@[simp] theorem hushed_tune (verbosity environment stderr) : (w.tune verbosity environment stderr).hushed = w.hushed := rfl

@[simp] theorem hushed_setLife (life : Life) : (w.setLife t life).hushed = w.hushed.setLife t life := rfl

@[simp] theorem hushed_setStack (s : ThreadStack) : (w.setStack t s).hushed = w.hushed.setStack t s := rfl

@[simp] theorem hushed_setValue (k : Key) (value : UInt64) :
    (w.setValue t k value).hushed = w.hushed.setValue t k value := rfl

@[simp] theorem frame_hushed (f : Frame) : f.hushed.hushed = f.hushed := by
  simp [Frame.hushed]

@[simp] theorem frame_hushed_comp : Frame.hushed ∘ Frame.hushed = Frame.hushed := funext frame_hushed

@[simp] theorem hushed_hushed : w.hushed.hushed = w.hushed := by
  simp [hushed,tune]

@[simp] theorem hushed_setFrames (fs : List Frame) :
    (w.setFrames t fs).hushed = w.hushed.setFrames t (fs.map Frame.hushed) := by
  simp only [hushed,setFrames,tune]
  congr
  funext t'
  by_cases same : t' = t <;> simp [same]

theorem hushed_push (op : Operation) : (w.hushed.push t op).hushed = (w.push t op).hushed := by
  simp only [hushed,push,setFrames,tune]
  congr
  funext t'
  by_cases same : t' = t <;> simp [same]

end World

theorem Request.Foreign.plain {q : Request} (foreign : q.Foreign) : q.hush = none := by
  cases q with
  | state => exact foreign.elim
  | mapper | host | enter => rfl

namespace Frame

/-- The operation has no report to make before it goes on. -/
def Settled (f : Frame) : Prop :=
  match f.rest with
  | .ask q _ => q.hush = none
  | .done _ | .stop _ => True

variable {f : Frame}

theorem Waits.settled (waits : f.Waits) : f.Settled := by
  obtain ⟨n,op,rest⟩ := f
  cases rest with
  | done | stop => exact waits.elim
  | ask q next => exact Request.Foreign.plain waits

theorem Waits.hushed (waits : f.Waits) : f.hushed.Waits := by
  obtain ⟨n,op,rest⟩ := f
  cases rest with
  | done | stop => exact waits.elim
  | ask q next =>
    have plain := Request.Foreign.plain waits
    simpa only [Waits,Frame.hushed,Program.hushed_ask plain] using waits

theorem Entered.hushed (entered : f.Entered) : f.hushed.Entered := by
  obtain ⟨n,op,rest⟩ := f
  cases rest with
  | done | stop => exact entered.elim
  | ask q next =>
    cases q with
    | enter => trivial
    | mapper | host | state => exact entered.elim

section
variable (settled : f.Settled)
include settled

theorem Settled.waits (waits : f.hushed.Waits) : f.Waits := by
  obtain ⟨n,op,rest⟩ := f
  cases rest with
  | done | stop => exact waits
  | ask q next =>
    have plain : q.hush = none := settled
    simpa only [Waits,Frame.hushed,Program.hushed_ask plain] using waits

theorem Settled.entered (entered : f.hushed.Entered) : f.Entered := by
  obtain ⟨n,op,rest⟩ := f
  cases rest with
  | done | stop => exact entered
  | ask q next =>
    have plain : q.hush = none := settled
    simp only [Entered,Frame.hushed,Program.hushed_ask plain] at entered
    cases q with
    | enter => trivial
    | mapper | host | state => exact entered.elim

end
end Frame

namespace World

variable {w w' : World} {t : ThreadId} {c : Choice} {e : Event}

theorem Outside.hushed (outside : w.Outside t) : w.hushed.Outside t := by
  unfold Outside at outside ⊢
  rw [frames_hushed]
  cases frames : w.frames t with
  | nil => trivial
  | cons f below =>
    rw [frames] at outside
    exact outside.hushed

section
variable {q : Request} {reply : q.Reply}

@[simp] theorem frames_told : (w.told t q reply).frames = w.frames := by
  unfold told setValue
  split
  case h_5 => split <;> rfl
  all_goals rfl

@[simp] theorem lives_told : (w.told t q reply).lives = w.lives := by
  unfold told setValue
  split
  case h_5 => split <;> rfl
  all_goals rfl

/-- A report changes nothing but the diagnostics. -/
theorem hushed_told_report {quiet : q.Reply} (report : q.hush = some quiet) : (w.told t q reply).hushed = w.hushed := by
  cases q with
  | mapper | host | enter => cases report
  | state call =>
    cases call with
    | verbosity | setVerbosity | environment | emit => rfl
    | _ => cases report

/-- Other requests are answered in the same way without diagnostics. -/
theorem hushed_answer {call : StateCall} {r : call.Reply} (plain : (Request.state call).hush = none) :
    (w.hushed.image.answer t call).1 = (w.image.answer t call).1 ∧
      (w.told t (.state call) r).hushed = w.hushed.told t (.state call) r := by
  cases call with
  | verbosity | setVerbosity | environment | emit => cases plain
  | exchangePhase rt expected desired =>
    by_cases free : (w.image.runtimes rt).phase = expected
    all_goals simp [told,Image.answer,World.hushed,tune,free,Image.setRuntime]
  | _ => exact ⟨rfl,rfl⟩

theorem hushed_told (plain : q.hush = none) : (w.told t q reply).hushed = w.hushed.told t q reply := by
  unfold told
  split
  case h_1 reply => exact (hushed_answer (r := reply) plain).2
  case h_5 => split <;> rfl
  all_goals rfl

theorem Replies.hushed {choose : (q : Request) → q.Reply} (replies : w.Replies t choose q reply) (plain : q.hush = none) :
    w.hushed.Replies t choose q reply := by
  cases q with
  | state call => exact replies.trans (hushed_answer (r := reply) plain).1.symm
  | mapper | host | enter => exact replies

end

theorem Step.hushed (step : w.Step e w') (choice : e.choice? = some c) : ∃ v, w.hushed.Step e v ∧ v.hushed = w'.hushed := by
  cases step with
  | answer | round => cases choice
  | call alive outside named => exact ⟨_,.call alive outside.hushed named,hushed_push _⟩
  | @begin t call unborn accepted =>
    refine ⟨_,.begin unborn accepted,?_⟩
    exact congrArg (fun v : World => { v.setLife t .alive with accepted := w.accepted.erase call }) (hushed_push _)
  | ret here =>
    refine ⟨_,.ret (by rw [frames_hushed,here]; rfl),?_⟩
    simp
  | move outside alive held above below => exact ⟨_,.move outside.hushed alive held above below,by simp⟩
  | key outside alive => exact ⟨_,.key outside.hushed alive,by simp⟩
  | exit alive entered =>
    refine ⟨_,.exit alive ?_,by simp⟩
    simp only [frames_hushed,List.mem_map,forall_exists_index,and_imp,forall_apply_eq_imp_iff₂]
    exact fun f member => (entered f member).hushed
  | skip life idle unset => exact ⟨_,.skip life (by rw [frames_hushed,idle]; rfl) unset,by simp⟩
  | @fire t rounds rt key todo life idle armed =>
    refine ⟨_,.fire life (by rw [frames_hushed,idle]; rfl) armed,?_⟩
    exact congrArg (fun v : World => v.setLife t (.exiting rounds todo))
      (hushed_push (w := w.setValue t (.cleanup rt key) 0) _)
  | foreign life idle armed => exact ⟨_,.foreign life (by rw [frames_hushed,idle]; rfl) armed,by simp⟩

theorem Turn.hushed (turn : w.Turn c e w') : ∃ v, w.hushed.Turn c e v ∧ v.hushed = w'.hushed := by
  cases turn with
  | answer here plain replies =>
    refine ⟨_,.answer (by rw [frames_hushed,here,List.map_cons,Frame.hushed,Program.hushed_ask plain]) plain
      (replies.hushed plain),?_⟩
    simp [hushed_told plain,Frame.hushed]
  | round life idle order all => exact ⟨_,.round life (by rw [frames_hushed,idle]; rfl) order all,by simp⟩
  | step step choice =>
    obtain ⟨v,step,same⟩ := step.hushed choice
    exact ⟨v,.step step choice,same⟩

theorem Replies.unique {choose : (q : Request) → q.Reply} {q : Request} {reply reply' : q.Reply}
    (replies : w.Replies t choose q reply) (replies' : w.Replies t choose q reply') : reply = reply' := by
  cases q with
  | state => exact replies.trans replies'.symm
  | mapper | host | enter => exact replies.1.trans replies'.1.symm

/-- A choice leaves one way to go on. -/
theorem Step.unique {e' : Event} {v v' : World} (step : w.Step e v) (step' : w.Step e' v') (choice : e.choice? = some c)
    (choice' : e'.choice? = some c) : e = e' ∧ v = v' := by
  cases step with
  | answer | round => cases choice
  | call | begin | key | exit =>
    cases choice
    cases step' <;> cases choice'
    exact ⟨rfl,rfl⟩
  | ret here =>
    cases choice
    cases step' <;> cases choice'
    rename_i here'
    cases here.symm.trans here'
    exact ⟨rfl,rfl⟩
  | move outside alive held =>
    cases choice
    cases step' <;> cases choice'
    rename_i held' _ _
    cases held.symm.trans held'
    exact ⟨rfl,rfl⟩
  | skip life =>
    cases choice
    cases step' <;> cases choice'
    rename_i life' _ _
    cases life.symm.trans life'
    exact ⟨rfl,rfl⟩
  | fire life =>
    cases choice
    cases step' <;> cases choice'
    rename_i life' _ _
    cases life.symm.trans life'
    exact ⟨rfl,rfl⟩
  | foreign life =>
    cases choice
    cases step' <;> cases choice'
    rename_i life' _ _
    cases life.symm.trans life'
    exact ⟨rfl,rfl⟩

theorem Turn.unique {e' : Event} {v v' : World} (turn : w.Turn c e v) (turn' : w.Turn c e' v') : e = e' ∧ v = v' := by
  cases turn with
  | answer here plain replies =>
    cases turn' with
    | answer here' plain' replies' =>
      cases here.symm.trans here'
      obtain rfl := replies.unique replies'
      exact ⟨rfl,rfl⟩
    | step step choice => cases step <;> cases choice
  | round life idle order all =>
    cases turn' with
    | round life' =>
      cases life.symm.trans life'
      exact ⟨rfl,rfl⟩
    | step step choice => cases step <;> cases choice
  | step step choice =>
    cases turn' with
    | answer => cases step <;> cases choice
    | round => cases step <;> cases choice
    | step step' choice' => exact step.unique step' choice choice'

theorem outside_of_idle (idle : w.frames t = []) : w.Outside t := by
  unfold Outside
  rw [idle]
  trivial

/-- All operations are discreet, all but a thread's innermost one wait, and a thread has none before it is started. -/
structure Civil (w : World) : Prop where
  discreet : ∀ t, ∀ f ∈ w.frames t, f.rest.Discreet
  waits : ∀ t f below, w.frames t = f :: below → ∀ g ∈ below, g.Waits
  unborn : ∀ t, w.lives t = .unborn → w.frames t = []

namespace Civil

variable {f : Frame} {below : List Frame} (civil : w.Civil)
include civil

/-- The operations stay. -/
theorem still (same : w'.frames = w.frames) (lives : ∀ t, w'.lives t = .unborn → w.lives t = .unborn) : w'.Civil :=
  ⟨same ▸ civil.discreet,same ▸ civil.waits,fun t unborn => same ▸ civil.unborn t (lives t unborn)⟩

/-- A thread's operations become other ones. -/
theorem change (fs : List Frame) (frames : w'.frames = (w.setFrames t fs).frames) (discreet : ∀ f ∈ fs, f.rest.Discreet)
    (waits : ∀ f below, fs = f :: below → ∀ g ∈ below, g.Waits)
    (lives : ∀ t', w'.lives t' = .unborn → w.lives t' = .unborn ∧ (t' = t → fs = [])) : w'.Civil := by
  refine ⟨fun t' => ?_,fun t' => ?_,fun t' unborn => ?_⟩
  all_goals by_cases same : t' = t
  · simpa [frames,setFrames,same] using discreet
  · simpa [frames,setFrames,same] using civil.discreet t'
  · simpa [frames,setFrames,same] using waits
  · simpa [frames,setFrames,same] using civil.waits t'
  · simpa [frames,setFrames,same] using (lives t' unborn).2 same
  · simpa [frames,setFrames,same] using civil.unborn t' (lives t' unborn).1

theorem born (here : w.frames t = f :: below) {t' : ThreadId} (unborn : w.lives t' = .unborn) : t' ≠ t := by
  rintro rfl
  simp [civil.unborn t' unborn] at here

theorem goOn (here : w.frames t = f :: below) {f' : Frame} (discreet : f'.rest.Discreet) :
    (w.setFrames t (f' :: below)).Civil := by
  refine civil.change _ rfl ?_ ?_ fun t' unborn => ⟨unborn,fun same => absurd same (civil.born here unborn)⟩
  · rintro g (_ | ⟨_,member⟩)
    · exact discreet
    · exact civil.discreet t g (here ▸ List.mem_cons_of_mem _ member)
  · rintro g below ⟨⟩
    exact civil.waits t f _ here

theorem push {op : Operation} (outside : w.Outside t) (frames : w'.frames = (w.push t op).frames)
    (lives : ∀ t', w'.lives t' = .unborn → w.lives t' = .unborn ∧ t' ≠ t) : w'.Civil := by
  refine civil.change (⟨w.count,op,op.program⟩ :: w.frames t) frames ?_ ?_
    fun t' unborn => ⟨(lives t' unborn).1,fun same => absurd same (lives t' unborn).2⟩
  · rintro f (_ | ⟨_,member⟩)
    · exact op.discreet
    · exact civil.discreet t f member
  · rintro f below ⟨⟩ g member
    unfold Outside at outside
    cases frames : w.frames t with
    | nil => simp [frames] at member
    | cons f below =>
      rw [frames] at outside member
      rcases List.mem_cons.mp member with rfl | deeper
      · exact outside
      · exact civil.waits t f below frames g deeper

theorem drop (here : w.frames t = f :: below) : (w.setFrames t below).Civil := by
  refine civil.change _ rfl (fun g member => civil.discreet t g (here ▸ List.mem_cons_of_mem _ member)) ?_
    fun t' unborn => ⟨unborn,fun same => absurd same (civil.born here unborn)⟩
  rintro g deeper rfl h member
  exact civil.waits t f _ here h (List.mem_cons_of_mem _ member)

theorem turn (turn : w.Turn c e w') : w'.Civil := by
  cases turn with
  | @answer t n op q next below reply choose here plain replies =>
    have discreet := civil.discreet t ⟨n,op,.ask q next⟩ (by simp [here])
    have told : (w.told t q reply).Civil := civil.still frames_told fun t' unborn => lives_told (w := w) ▸ unborn
    refine told.goOn (by rw [frames_told]; exact here) (discreet.after plain ?_)
    cases q with
    | state => trivial
    | mapper | host | enter => exact replies.2
  | round => exact civil.still rfl fun _ unborn => (unborn_setLife (by simp) unborn).1
  | step step choice =>
    cases step with
    | answer | round => cases choice
    | call alive outside named => exact civil.push outside rfl fun _ unborn => ⟨unborn,fun same => alive (same ▸ unborn)⟩
    | begin unborn accepted =>
      exact civil.push (outside_of_idle (civil.unborn _ unborn)) rfl fun _ => unborn_setLife (w := w) (by simp)
    | ret here => exact civil.drop here
    | move | key => exact civil.still rfl fun _ => id
    | skip | foreign => exact civil.still rfl fun _ unborn => (unborn_setLife (w := w) (by simp) unborn).1
    | exit => exact civil.change [] rfl (by simp) (by simp) fun _ unborn =>
        ⟨(unborn_setLife (w := w) (by simp) unborn).1,fun _ => rfl⟩
    | fire life idle armed =>
      exact civil.push (outside_of_idle idle) rfl fun _ => unborn_setLife (w := w) (by simp)

/-- A report is answered, and nothing but the diagnostics is other than before. -/
theorem reported (told : w.Reported t w') : w'.Civil ∧ w'.hushed = w.hushed := by
  cases told with
  | @answer n op call next below quiet here report =>
    have discreet := civil.discreet t ⟨n,op,.ask (.state call) next⟩ (by simp [here])
    obtain ⟨rest,same⟩ := discreet.report report (w.image.answer t call).1
    have told : (w.told t (.state call) (w.image.answer t call).1).Civil :=
      civil.still frames_told fun _ unborn => lives_told (w := w) ▸ unborn
    refine ⟨told.goOn (by rw [frames_told]; exact here) rest,?_⟩
    rw [hushed_setFrames,hushed_told_report report,List.map_cons,Frame.hushed,same]
    have back : w.hushed.setFrames t ((w.frames t).map Frame.hushed) = w.hushed :=
      congrArg (fun frames => { w.hushed with frames := frames }) (replace_self w.hushed.frames t)
    rw [here] at back
    exact back

end Civil

/-- The same run without diagnostics: after each choice, no operation reports. -/
inductive Muffled (start : World) : List Choice → Trace → World → Prop
  | nil : Muffled start [] [] start.hushed
  | turn {choices trace w c e v} : Muffled start choices trace w → w.Turn c e v →
      Muffled start (c :: choices) (e :: trace) v.hushed

variable {start : World} {choices : List Choice} {trace trace' : Trace}

/-- What comes of choices depends on nothing else. -/
theorem Muffled.unique (run : start.Muffled choices trace w) (run' : start.Muffled choices trace' w') :
    trace = trace' ∧ w = w' := by
  induction run generalizing trace' w' with
  | nil =>
    cases run'
    exact ⟨rfl,rfl⟩
  | turn _ turn ih =>
    cases run' with
    | turn earlier turn' =>
      obtain ⟨rfl,rfl⟩ := ih earlier
      obtain ⟨rfl,rfl⟩ := turn.unique turn'
      exact ⟨rfl,rfl⟩

/-- A run with any diagnostics is civil, and the same run without diagnostics stands behind it. -/
theorem Tuned.muffled (civil : start.Civil) (run : start.Tuned choices trace w) :
    w.Civil ∧ start.Muffled choices trace w.hushed := by
  induction run with
  | nil => exact ⟨civil,.nil⟩
  | turn _ _ turn ih =>
    obtain ⟨civil,muffled⟩ := ih
    obtain ⟨v,turn',same⟩ := turn.hushed
    exact ⟨civil.turn turn,same ▸ .turn muffled turn'⟩
  | report _ _ told ih =>
    obtain ⟨civil,muffled⟩ := ih
    obtain ⟨civil,same⟩ := civil.reported told
    exact ⟨civil,same ▸ muffled⟩
  | tune verbosity environment stderr _ ih => exact ⟨ih.1.still rfl fun _ => id,ih.2⟩

theorem Initial.civil (initial : start.Initial) : start.Civil :=
  ⟨fun t => by simp [initial.frames t],fun t => by simp [initial.frames t],fun t _ => initial.frames t⟩

/-- What can happen to a thread without its reports can happen once it has made them. -/
theorem Step.heard {v : World} (still : ∀ t, c.thread = t → ∀ f ∈ w.frames t, f.Settled) (step : w.hushed.Step e v)
    (choice : e.choice? = some c) : ∃ v, w.Step e v := by
  have idle {t : ThreadId} (none : w.hushed.frames t = []) : w.frames t = [] := List.map_eq_nil_iff.mp none
  have outside {t : ThreadId} (mine : c.thread = t) (outside : w.hushed.Outside t) : w.Outside t := by
    unfold Outside at outside ⊢
    rw [frames_hushed] at outside
    cases frames : w.frames t with
    | nil => trivial
    | cons f below =>
      rw [frames] at outside
      exact (still t mine f (by simp [frames])).waits outside
  cases step with
  | answer | round => cases choice
  | call alive free named =>
    cases choice
    exact ⟨_,.call alive (outside rfl free) named⟩
  | begin unborn accepted => exact ⟨_,.begin unborn accepted⟩
  | @ret t n op a below here =>
    cases choice
    rw [frames_hushed] at here
    obtain ⟨⟨n,op,rest⟩,below,frames,same,-⟩ := List.map_eq_cons_iff.mp here
    have settled := still t rfl ⟨n,op,rest⟩ (by simp [frames])
    cases rest with
    | done a =>
      cases same
      exact ⟨_,.ret frames⟩
    | stop => cases same
    | ask q next =>
      have plain : q.hush = none := settled
      simp only [Frame.hushed,Program.hushed_ask plain] at same
      cases same
  | move free alive held above below =>
    cases choice
    exact ⟨_,.move (outside rfl free) alive held above below⟩
  | key free alive =>
    cases choice
    exact ⟨_,.key (outside rfl free) alive⟩
  | exit alive entered =>
    cases choice
    exact ⟨_,.exit alive fun f member => (still _ rfl f member).entered (entered f.hushed (List.mem_map_of_mem member))⟩
  | skip life none unset => exact ⟨_,.skip life (idle none) unset⟩
  | fire life none armed => exact ⟨_,.fire life (idle none) armed⟩
  | foreign life none armed => exact ⟨_,.foreign life (idle none) armed⟩

theorem Turn.heard {v : World} (still : ∀ t, c.thread = t → ∀ f ∈ w.frames t, f.Settled) (turn : w.hushed.Turn c e v) :
    ∃ v, w.Turn c e v := by
  cases turn with
  | step step choice =>
    obtain ⟨v,step⟩ := step.heard still choice
    exact ⟨v,.step step choice⟩
  | round life none order all => exact ⟨_,.round life (List.map_eq_nil_iff.mp none) order all⟩
  | @answer t n op q next below reply choose here plain replies =>
    rw [frames_hushed] at here
    obtain ⟨⟨n,op,rest⟩,below,frames,same,-⟩ := List.map_eq_cons_iff.mp here
    have settled := still t rfl ⟨n,op,rest⟩ (by simp [frames])
    cases rest with
    | done | stop => cases same
    | ask q next =>
      have plain' : q.hush = none := settled
      simp only [Frame.hushed,Program.hushed_ask plain'] at same
      cases same
      refine ⟨_,.answer frames plain ?_⟩
      cases q with
      | state call => exact replies.trans (hushed_answer (r := reply) plain).1
      | mapper | host | enter => exact replies

/-- A thread that can go on is not about to stop for good. -/
theorem Turn.unstopped (civil : w.Civil) (turn : w.Turn c e w') {f : Frame} {below : List Frame}
    (here : w.frames c.thread = f :: below) (reason : Stop) : ¬f.hushed.Stopped reason := by
  have outside (outside : w.Outside c.thread) : ¬f.hushed.Stopped reason := by
    unfold Outside at outside
    rw [here] at outside
    have waits : f.hushed.Waits := Frame.Waits.hushed outside
    intro stops
    simp only [Frame.Waits,show f.hushed.rest = .stop reason from stops] at waits
  cases turn with
  | answer here' plain =>
    cases here.symm.trans here'
    simp [Frame.Stopped,Frame.hushed,Program.hushed_ask plain]
  | round _ idle => simp [Choice.thread,idle] at here
  | step step choice =>
    cases step with
    | answer | round => cases choice
    | call _ free => cases choice; exact outside free
    | begin unborn => cases choice; simp [Choice.thread,civil.unborn _ unborn] at here
    | ret here' => cases choice; cases here.symm.trans here'; simp [Frame.Stopped,Frame.hushed,Program.hushed]
    | move free => cases choice; exact outside free
    | key free => cases choice; exact outside free
    | exit _ entered =>
      cases choice
      have entered := (entered f (here ▸ List.mem_cons_self)).hushed
      intro stops
      simp only [Frame.Entered,show f.hushed.rest = .stop reason from stops] at entered
    | skip _ idle | fire _ idle | foreign _ idle => cases choice; simp [Choice.thread,idle] at here

/-- A thread makes its reports, and nothing else happens. -/
theorem Tuned.settle (civil : start.Civil) {n : Nat} {op : Operation} {p : Program op.Result} {below : List Frame}
    (run : start.Tuned choices trace w) (going : ¬w.Ended) (here : w.frames t = ⟨n,op,p⟩ :: below)
    (unstopped : ∀ reason, p.hushed ≠ .stop reason) :
    ∃ v, start.Tuned choices trace v ∧ v.hushed = w.hushed ∧ ¬v.Ended ∧ ∀ f ∈ v.frames t, f.Settled := by
  have calm := (run.muffled civil).1
  have below_ (f : Frame) (member : f ∈ below) : f.Settled := (calm.waits t _ below here f member).settled
  induction p generalizing w with
  | done a => exact ⟨w,run,rfl,going,by simpa [here,Frame.Settled] using below_⟩
  | stop reason => exact absurd rfl (unstopped reason)
  | ask q next ih =>
    cases report : q.hush with
    | none => exact ⟨w,run,rfl,going,by simpa [here,Frame.Settled,report] using below_⟩
    | some quiet =>
      cases q with
      | mapper | host | enter => cases report
      | state call =>
        have told := Reported.answer here report
        obtain ⟨calm',same⟩ := calm.reported told
        have rest := ((calm.discreet t _ (by rw [here]; exact List.mem_cons_self)).report report (w.image.answer t call).1).2
        have unstopped' (reason : Stop) : (next (w.image.answer t call).1).hushed ≠ .stop reason :=
          fun stops => unstopped reason (rest ▸ stops)
        have going' : ¬((w.told t (.state call) (w.image.answer t call).1).setFrames t
            (⟨n,op,next (w.image.answer t call).1⟩ :: below)).Ended := by
          rintro ⟨t',f,member,reason,stops⟩
          by_cases mine : t' = t
          · simp only [setFrames,mine,replace_same,List.mem_cons] at member
            rcases member with rfl | deeper
            · exact unstopped' reason (congrArg Program.hushed stops)
            · exact going ⟨t,f,by simp [here,deeper],reason,stops⟩
          · simp only [setFrames,replace_other _ _ mine,frames_told] at member
            exact going ⟨t',f,member,reason,stops⟩
        obtain ⟨v,run,same',others⟩ := ih _ (run.report going told) going' (by simp [setFrames]) unstopped' calm'
        exact ⟨v,run,same'.trans same,others⟩

/-- What can happen next does not wait for reports for good. -/
theorem Tuned.follow {v : World} (civil : start.Civil) (run : start.Tuned choices trace w)
    (other : start.Tuned choices trace' w') (same : w.hushed = w'.hushed) (going : ¬w'.Ended) (turn : w.Turn c e v) :
    ∃ v', start.Tuned (c :: choices) (e :: trace') v' := by
  have calm := (run.muffled civil).1
  have settled : ∃ v', start.Tuned choices trace' v' ∧ v'.hushed = w'.hushed ∧ ¬v'.Ended ∧
      ∀ f ∈ v'.frames c.thread, f.Settled := by
    cases frames : w'.frames c.thread with
    | nil => exact ⟨w',other,rfl,going,by simp [frames]⟩
    | cons f below =>
      have alike : (w.frames c.thread).map Frame.hushed = (w'.frames c.thread).map Frame.hushed :=
        congrArg (fun h : World => h.frames c.thread) same
      rw [frames] at alike
      obtain ⟨g,rest,here,alike,-⟩ := List.map_eq_cons_iff.mp alike
      refine other.settle civil going frames fun reason stops => turn.unstopped calm here reason ?_
      rw [alike]
      exact stops
  obtain ⟨v',run',same',going',settled⟩ := settled
  obtain ⟨u,turn,-⟩ := turn.hushed
  rw [same,← same'] at turn
  obtain ⟨u',turn⟩ := turn.heard (fun t mine => mine ▸ settled)
  exact ⟨_,.turn run' going' turn⟩

/-- What a thread is answered in a world. -/
theorem Answers.told {q : Request} {reply : q.Reply} (answers : w.Answers t q reply w') :
    w' = w.told t q reply ∧ q.Proper reply := by
  cases q with
  | state call => exact ⟨answers.2,trivial⟩
  | enter => exact ⟨answers,trivial⟩
  | mapper rt call =>
    cases call with
    | pageSize => exact ⟨answers.2,trivial⟩
    | protect => exact ⟨answers,trivial⟩
    | map len rights =>
      cases reply with
      | ok addr => exact ⟨answers.2.2,answers.1⟩
      | error cause => exact ⟨answers,trivial⟩
    | unmap addr len => cases reply <;> exact ⟨answers,trivial⟩
  | host rt call =>
    cases call with
    | setCleanupValue key value => cases reply <;> exact ⟨answers,trivial⟩
    | _ => exact ⟨answers,trivial⟩

theorem Answers.replies {choose : (q : Request) → q.Reply} {q : Request} {reply : q.Reply} (answers : w.Answers t q reply w')
    (chosen : reply = choose q) : w.Replies t choose q reply := by
  cases q with
  | state call => exact answers.1
  | mapper | host | enter => exact ⟨chosen,answers.told.2⟩

/-- Every step of a world follows a choice or answers a report. -/
theorem Step.turn (step : w.Step e w') :
    e.Reports = false ∧ (∃ c, w.Turn c e w') ∨ e.Reports = true ∧ ∃ t, w.Reported t w' := by
  cases step with
  | @answer t n op q next below reply w' here answers =>
    obtain ⟨rfl,-⟩ := answers.told
    cases report : q.hush with
    | none =>
      classical
      let choose (q' : Request) : q'.Reply := if same : q' = q then same ▸ reply else (w.grant (fun _ => false) t q').1
      have chosen : reply = choose q := by simp [choose]
      exact .inl ⟨by simp [Event.Reports,report],_,.answer here report (answers.replies chosen)⟩
    | some quiet =>
      cases q with
      | mapper | host | enter => cases report
      | state call =>
        obtain ⟨rfl,-⟩ := answers
        exact .inr ⟨by simp [Event.Reports,report],t,.answer here report⟩
  | round life idle order all => exact .inl ⟨rfl,_,.round life idle order all⟩
  | call alive outside named => exact .inl ⟨rfl,_,.step (.call alive outside named) rfl⟩
  | begin unborn accepted => exact .inl ⟨rfl,_,.step (.begin unborn accepted) rfl⟩
  | ret here => exact .inl ⟨rfl,_,.step (.ret here) rfl⟩
  | move outside alive held above below => exact .inl ⟨rfl,_,.step (.move outside alive held above below) rfl⟩
  | key outside alive => exact .inl ⟨rfl,_,.step (.key outside alive) rfl⟩
  | exit alive entered => exact .inl ⟨rfl,_,.step (.exit alive entered) rfl⟩
  | skip life idle unset => exact .inl ⟨rfl,_,.step (.skip life idle unset) rfl⟩
  | fire life idle armed => exact .inl ⟨rfl,_,.step (.fire life idle armed) rfl⟩
  | foreign life idle armed => exact .inl ⟨rfl,_,.step (.foreign life idle armed) rfl⟩

/-- Every run is one of these, with the answers to reports left out of its trace. -/
theorem Run.tuned (run : Run trace w) :
    ∃ (start : World) (choices : List Choice), start.Initial ∧ start.Tuned choices (trace.filter (!·.Reports)) w := by
  induction run with
  | nil initial => exact ⟨_,[],initial,.nil⟩
  | step _ going step ih =>
    obtain ⟨start,choices,initial,tuned⟩ := ih
    rcases step.turn with ⟨heard,c,turn⟩ | ⟨silent,t,told⟩
    · exact ⟨start,c :: choices,initial,by simpa [heard] using tuned.turn going turn⟩
    · exact ⟨start,choices,initial,by simpa [silent] using tuned.report going told⟩

/-- Two runs of one world with the same choices are alike, whatever the verbosity, the environment and the descriptor are in
each: the same calls are made and the same results returned, and all that is left is the same. Where an operation has
stopped for good in the one run, reports are all that it may still have to make before the same stop in the other. And
what can happen next in the one run can happen next in the other one. -/
theorem logging_unheard (initial : start.Initial) (run : start.Tuned choices trace w) (other : start.Tuned choices trace' w') :
    trace = trace' ∧ w.hushed = w'.hushed ∧
      (∀ t reason, ∀ f ∈ w.frames t, f.Stopped reason → ∃ f' ∈ w'.frames t, f'.number = f.number ∧ f'.hushed.Stopped reason) ∧
      (¬w'.Ended → ∀ c e v, w.Turn c e v → ∃ v', start.Tuned (c :: choices) (e :: trace') v') := by
  have civil := initial.civil
  -- Without the reports both are runs of one machine, whose steps depend on the choices alone.
  obtain ⟨rfl,same⟩ := (run.muffled civil).2.unique (other.muffled civil).2
  refine ⟨rfl,same,fun t reason f member stopped => ?_,fun going c e v turn => run.follow civil other same going turn⟩
  have alike : (w.frames t).map Frame.hushed = (w'.frames t).map Frame.hushed :=
    congrArg (fun h : World => h.frames t) same
  have found : f.hushed ∈ (w'.frames t).map Frame.hushed := alike ▸ List.mem_map_of_mem member
  obtain ⟨f',member',twin⟩ := List.mem_map.mp found
  have number := congrArg Frame.number twin
  refine ⟨f',member',number,?_⟩
  rw [twin]
  exact congrArg Program.hushed stopped

/-- Replies that do not look at the world. -/
def steady (q : Request) : q.Reply := (first.grant (fun _ => false) 0 q).1

def steadily (w : World) (t : ThreadId) : (q : Request) → q.Reply
  | .state call => (w.image.answer t call).1
  | q => steady q

theorem steadily_replies (q : Request) : w.Replies t steady q (w.steadily t q) := by
  cases q with
  | state call => rfl
  | mapper | host | enter => exact ⟨rfl,(first.grant_answers (fun _ => false) 0 _).told.2⟩

/-- An answer, or the end of an operation. -/
def Choice.ofMark (t : ThreadId) (answered : Bool) : Choice := if answered then .answer t steady else .ret t

/-- The thread's innermost operation goes on with such replies, unless it stops. -/
def heed (t : ThreadId) : Nat → List Bool × Trace × World → List Bool × Trace × World
  | 0, s => s
  | k + 1, s =>
    match s.2.2.frames t with
    | ⟨n,op,.ask q next⟩ :: below =>
      match next (s.2.2.steadily t q) with
      | .stop _ => s
      | rest =>
        let w := (s.2.2.told t q (s.2.2.steadily t q)).setFrames t (⟨n,op,rest⟩ :: below)
        heed t k (if q.hush.isSome then (s.1,s.2.1,w) else (true :: s.1,.answered n t q (s.2.2.steadily t q) :: s.2.1,w))
    | ⟨n,op,.done a⟩ :: below => heed t k (false :: s.1,.returned n t op a :: s.2.1,s.2.2.setFrames t below)
    | _ => s

/-- A run with these marks after its first choices. -/
structure Heeds (start : World) (t : ThreadId) (choices : List Choice) (s : List Bool × Trace × World) : Prop where
  run : start.Tuned (s.1.map (Choice.ofMark t) ++ choices) s.2.1 s.2.2
  going : ¬s.2.2.Ended

theorem Heeds.heed {k : Nat} {s : List Bool × Trace × World} (heeds : start.Heeds t choices s) :
    start.Heeds t choices (heed t k s) := by
  induction k generalizing s with
  | zero => exact heeds
  | succ k ih =>
    have going := not_ended.mp heeds.going t
    unfold World.heed
    split
    next n op q next below here =>
      rw [here] at going
      have later : Open below := fun f member => going f (List.mem_cons_of_mem _ member)
      split
      · exact heeds
      next goes =>
        have frames : ((s.2.2.told t q (s.2.2.steadily t q)).setFrames t
            (⟨n,op,next (s.2.2.steadily t q)⟩ :: below)).frames =
              (s.2.2.setFrames t (⟨n,op,next (s.2.2.steadily t q)⟩ :: below)).frames := by simp [setFrames]
        have ongoing := open_setFrames _ heeds.going frames (List.forall_mem_cons.mpr ⟨goes,later⟩)
        apply ih
        cases report : q.hush with
        | none => exact ⟨.turn heeds.run heeds.going (.answer here report (steadily_replies q)),ongoing⟩
        | some quiet =>
          cases q with
          | mapper | host | enter => cases report
          | state call => exact ⟨.report heeds.run heeds.going (.answer here report),ongoing⟩
    next n op a below here =>
      rw [here] at going
      exact ih ⟨.turn heeds.run heeds.going (.step (.ret here) rfl),
        open_setFrames below heeds.going rfl fun f member => going f (List.mem_cons_of_mem _ member)⟩
    · exact heeds

/-- An initialization, after the diagnostics were set. -/
def heard (verbosity : Verbosity) (environment : Option ByteArray) (stderr : Diagnostics.Descriptor) :
    List Bool × Trace × World :=
  heed 0 40 ([],[.called 0 0 (.start ⟨0⟩)],(first.tune verbosity environment stderr).push 0 (.start ⟨0⟩))

theorem heard_heeds (verbosity : Verbosity) (environment : Option ByteArray) (stderr : Diagnostics.Descriptor) :
    first.Heeds 0 [.call 0 (.start ⟨0⟩)] (heard verbosity environment stderr) := by
  have tuned : first.Tuned [] [] (first.tune verbosity environment stderr) := .tune verbosity environment stderr .nil
  have going : ¬(first.tune verbosity environment stderr).Ended := by
    have calm : ∀ t, Open (first.frames t) := not_ended.mp first_going.going
    exact not_ended.mpr calm
  have called : (first.tune verbosity environment stderr).Turn (.call 0 (.start ⟨0⟩)) (.called 0 0 (.start ⟨0⟩)) _ :=
    .step (.call (by simp [first,tune]) trivial rfl) rfl
  refine Heeds.heed ⟨.turn tuned going called,open_setFrames _ going rfl (List.forall_mem_cons.mpr ⟨?_,by simp [first,tune]⟩)⟩
  intro reason stops
  cases stops

theorem logging_unheard_start : ∃ choices trace quiet loud, first.Tuned choices trace quiet ∧ first.Tuned choices trace loud ∧
    quiet.image.verbosity = .quiet ∧ loud.image.verbosity = .trace ∧ choices.length = 13 ∧ quiet.hushed = loud.hushed := by
  have run := (heard_heeds .quiet none .working).run
  have other := (heard_heeds .trace (some "trace".toUTF8) .broken).run
  have marks : (heard .quiet none .working).1 = (heard .trace (some "trace".toUTF8) .broken).1 := by decide +kernel
  rw [← marks] at other
  obtain ⟨trace,same,-⟩ := logging_unheard first_initial run other
  rw [← trace] at other
  exact ⟨_,_,_,_,run,other,by decide +kernel,by decide +kernel,
    by rw [List.length_append,List.length_map]; decide +kernel,same⟩

end World
end GuardedStack
