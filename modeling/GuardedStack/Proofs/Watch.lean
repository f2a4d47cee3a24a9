import GuardedStack.Proofs.Ownership

/-! Watching operations from their beginning. What an operation has asked for and been told is summed up in a state of its
own beside its custody. An operation whose program keeps to the rules of a watch keeps to them in every run, whatever
else happens between its requests. -/
namespace GuardedStack

structure Watch (τ : Type) where
  /-- The state in which an operation begins, if it is watched. -/
  start : Event → Option τ
  after : τ → (q : Request) → q.Reply → τ
  may : Operation → Custody → τ → Request → Prop
  /-- What is taken for granted of replies. -/
  grants : (q : Request) → q.Reply → Prop
  ends : (op : Operation) → τ → op.Result → Prop
  stops : Operation → Stop → Prop

/-- With this event the operation `n` begins. -/
def Event.Opens (n : Nat) : Event → Prop
  | called k _ _ | began k _ _ _ | fired k _ _ _ _ _ => k = n
  | _ => False

/-- The operation that begins with this event. -/
def Event.operation? : Event → Option Operation
  | called _ _ op => some op
  | began _ _ call _ => some (.body call.start call.arg)
  | fired _ _ _ _ value _ => some (.destroy value)
  | _ => none

/-- With this event the operation `n` begins or is answered. -/
def Event.Concerns (n : Nat) : Event → Prop
  | called k _ _ | began k _ _ _ | fired k _ _ _ _ _ | answered k _ _ _ => k = n
  | _ => False

theorem Event.Opens.concerns {e : Event} {n : Nat} (opens : e.Opens n) : e.Concerns n := by
  cases e with
  | called | began | fired => exact opens
  | _ => exact opens.elim

theorem Event.Opens.unique {e : Event} {n k : Nat} (opens : e.Opens n) (concerns : e.Concerns k) : k = n := by
  cases e with
  | called | began | fired => exact concerns.symm.trans opens
  | _ => exact opens.elim

/-- What an answer to the operation counts for. -/
def Event.counted {α : Type} (counts : (q : Request) → q.Reply → Option α) (n : Nat) : Event → Option α
  | answered k _ q reply => if k = n then counts q reply else none
  | _ => none

/-- What the answers to an operation have counted for, the newest first. -/
def World.Trace.counted {α : Type} (counts : (q : Request) → q.Reply → Option α) (trace : Trace) (n : Nat) : List α :=
  trace.filterMap (·.counted counts n)

namespace World

variable {α : Type} {counts : (q : Request) → q.Reply → Option α} {trace : Trace} {e : Event} {t : ThreadId} {n : Nat}

theorem counted_cons : Trace.counted counts (e :: trace) n = (e.counted counts n).toList ++ trace.counted counts n := by
  unfold Trace.counted
  rw [List.filterMap_cons]
  split <;> simp_all

theorem counted_answered {q : Request} {reply : q.Reply} :
    Trace.counted counts (.answered n t q reply :: trace) n = (counts q reply).toList ++ trace.counted counts n := by
  simp [counted_cons,Event.counted]

theorem counted_other (other : ¬e.Concerns n) : Trace.counted counts (e :: trace) n = trace.counted counts n := by
  have silent : e.counted counts n = none := by
    cases e with
    | answered => exact if_neg other
    | _ => rfl
  simp [counted_cons,silent]

theorem mem_counted {a : α} : a ∈ trace.counted counts n ↔
    ∃ t q, ∃ reply : q.Reply, .answered n t q reply ∈ trace ∧ counts q reply = some a := by
  simp only [Trace.counted,List.mem_filterMap]
  constructor
  · rintro ⟨e,member,same⟩
    cases e with
    | answered k t q reply =>
      by_cases mine : k = n
      · subst mine
        exact ⟨t,q,reply,member,by simpa [Event.counted] using same⟩
      · simp [Event.counted,mine] at same
    | _ => cases same
  · rintro ⟨t,q,reply,member,same⟩
    exact ⟨_,member,by simpa [Event.counted] using same⟩

end World

namespace Watch

variable {τ : Type} (v : Watch τ)

def rules (op : Operation) : Discipline (Custody × τ) where
  may x q := v.may op x.1 x.2 q
  next x q reply y := x.1.Expects q reply ∧ v.grants q reply ∧ y = (x.1.after q reply,v.after x.2 q reply)
  ends := v.stops op

/-- The rest of an operation keeps to the rules. -/
def Keeps (op : Operation) (rest : Program op.Result) (c : Custody) (x : τ) : Prop :=
  rest.Follows (v.rules op) (fun y result => v.ends op y.2 result) (c,x)

def moved (e : Event) (before : Nat → Option τ) : Nat → Option τ :=
  match e with
  | .called n _ _ | .began n _ _ _ | .fired n _ _ _ _ _ => replace before n (v.start e)
  | .answered n _ q reply => replace before n ((before n).map (v.after · q reply))
  | _ => before

def track : World.Trace → Nat → Option τ
  | [] => fun _ => none
  | e :: earlier => v.moved e (track earlier)

/-- The operations that are watched keep to the rules from their beginning. -/
structure Covers : Prop where
  call : ∀ {n t op x}, op.runtime?.isSome → v.start (.called n t op) = some x →
    v.Keeps op op.program (.ofOperation op) x
  body : ∀ {n t call record x}, record.region.Sound → v.start (.began n t call record) = some x →
    v.Keeps (.body .fromRecord call.arg) (Operation.program _) (.ofRecord call.arg record) x
  destroy : ∀ {n t rt key value s x}, s.Sound → v.start (.fired n t rt key value s) = some x →
    v.Keeps (.destroy value) (Operation.program _) (.ofValue value s) x

end Watch

namespace World

/-- All replies so far are as the watch takes for granted. -/
def Trace.Grants {τ : Type} (v : Watch τ) (trace : Trace) : Prop :=
  ∀ n t q reply, .answered n t q reply ∈ trace → v.grants q reply

variable {τ : Type} {v : Watch τ} {trace : Trace} {w w' : World} {t : ThreadId} {e : Event}

theorem Trace.Grants.earlier (granted : Trace.Grants v (e :: trace)) : Trace.Grants v trace :=
  fun n t q reply member => granted n t q reply (List.mem_cons_of_mem _ member)

theorem track_opens {k : Nat} (opens : e.Opens k) : v.track (e :: trace) k = v.start e := by
  cases e with
  | called | began | fired =>
    cases opens
    exact replace_same _ _ _
  | _ => exact opens.elim

/-- What is not concerned stays as it was. -/
theorem unconcerned (v : Watch τ) (trace : Trace) {k : Nat} (other : ¬e.Concerns k) :
    v.track (e :: trace) k = v.track trace k ∧ Trace.custodies (e :: trace) k = trace.custodies k ∧
      Trace.homes (e :: trace) k = trace.homes k := by
  cases e with
  | called | began | fired => exact ⟨replace_other _ _ (Ne.symm other),replace_other _ _ (Ne.symm other),
      replace_other _ _ (Ne.symm other)⟩
  | answered => exact ⟨replace_other _ _ (Ne.symm other),replace_other _ _ (Ne.symm other),rfl⟩
  | _ => exact ⟨rfl,rfl,rfl⟩

/-- All operations in progress that are watched keep to the rules. -/
def Watched (v : Watch τ) (trace : Trace) (w : World) : Prop :=
  ∀ t f x, f ∈ w.frames t → v.track trace f.number = some x →
    v.Keeps f.operation f.rest (trace.custodies f.number) x

section
variable (watched : Watched v trace w)
include watched

theorem Watched.still (part : ∀ {t f}, f ∈ w'.frames t → f ∈ w.frames t) (quiet : ∀ n, ¬e.Concerns n) :
    Watched v (e :: trace) w' := by
  intro t f x member tracked
  obtain ⟨track,custodies,-⟩ := unconcerned v trace (quiet f.number)
  rw [track] at tracked
  rw [custodies]
  exact watched t f x (part member) tracked

/-- An operation begins. -/
theorem Watched.push (inv : w.Inv trace) {op : Operation} {c : Custody} (opens : e.Opens w.count)
    (taken : Trace.custodies (e :: trace) w.count = c)
    (frames : w'.frames = (w.push t op).frames) (keeps : ∀ {x}, v.start e = some x → v.Keeps op op.program c x) :
    Watched v (e :: trace) w' := by
  intro t' f x member tracked
  have cases_ : f = ⟨w.count,op,op.program⟩ ∨ f ∈ w.frames t' := by
    by_cases same : t' = t
    · simpa [frames,World.push,setFrames,same] using member
    · exact .inr (by simpa [frames,World.push,setFrames,same] using member)
  rcases cases_ with rfl | old
  · rw [track_opens opens] at tracked
    rw [taken]
    exact keeps tracked
  · have other : ¬e.Concerns f.number := fun concerns => Nat.ne_of_lt (inv.orderly.old old) (opens.unique concerns)
    obtain ⟨track,custodies,-⟩ := unconcerned v trace other
    rw [track] at tracked
    rw [custodies]
    exact watched t' f x old tracked

theorem Watched.answer (inv : w.Inv trace) {n : Nat} {op : Operation} {q : Request} {next : q.Reply → Program op.Result}
    {below : List Frame} {reply : q.Reply} (here : w.frames t = ⟨n,op,.ask q next⟩ :: below)
    (answers : w.Answers t q reply w') (granted : v.grants q reply) :
    Watched v (.answered n t q reply :: trace) (w'.setFrames t (⟨n,op,next reply⟩ :: below)) := by
  intro t' f x member tracked
  have head : ⟨n,op,.ask q next⟩ ∈ w.frames t := by simp [here]
  have cases_ : f = ⟨n,op,next reply⟩ ∨ f ∈ w.frames t' ∧ f.number ≠ n := by
    by_cases same : t' = t
    · have member : f = ⟨n,op,next reply⟩ ∨ f ∈ below := by simpa [setFrames,same] using member
      have tidy := inv.orderly.tidy t
      rw [here] at tidy
      exact member.imp_right fun later => ⟨by simp [same,here,later],(tidy.2.1 f later).2⟩
    · have old : f ∈ w.frames t' := by simpa [setFrames,same,answers.kept.1] using member
      refine .inr ⟨old,fun number => same ?_⟩
      have home := inv.orderly.home old
      rw [number] at home
      exact home.symm.trans (inv.orderly.home head)
  rcases cases_ with rfl | ⟨old,other⟩
  · obtain ⟨x₀,before,rfl⟩ : ∃ x₀, v.track trace n = some x₀ ∧ v.after x₀ q reply = x := by
      simpa [Watch.track,Watch.moved,Option.map_eq_some_iff] using tracked
    have keeps := (watched t _ x₀ head before).2 reply _ ⟨inv.expects here answers,granted,rfl⟩
    simpa [Watch.Keeps,Trace.custodies,Event.custodies] using keeps
  · obtain ⟨track,custodies,-⟩ := unconcerned v trace (e := .answered n t q reply) (Ne.symm other)
    rw [track] at tracked
    rw [custodies]
    exact watched t' f x old tracked

end

theorem Run.watched (run : Run trace w) (covers : v.Covers) (granted : Trace.Grants v trace) : Watched v trace w := by
  induction run with
  | nil initial =>
    intro t f x member
    simp [initial.frames] at member
  | @step trace w e w' run going step ih =>
    have watched := ih granted.earlier
    have inv := run.inv
    cases step with
    | call _ _ named =>
      exact watched.push inv rfl (by simp [Trace.custodies,Event.custodies]) rfl
        (covers.call named)
    | @begin t call unborn member =>
      obtain ⟨h,rests,record⟩ := inv.record member
      rw [record]
      refine watched.push inv rfl (by simp [Trace.custodies,Event.custodies]; rfl) rfl ?_
      rw [inv.orderly.routine call member]
      exact covers.body rests.sits.sound
    | answer here answers => exact watched.answer inv here answers (granted _ _ _ _ List.mem_cons_self)
    | @ret t n op result below here =>
      refine watched.still ?_ (by simp [Event.Concerns])
      intro t' f member
      by_cases same : t' = t
      · subst same
        have member : f ∈ below := by simpa [setFrames] using member
        simp [here,member]
      · simpa [setFrames,same] using member
    | @exit t =>
      refine watched.still ?_ (by simp [Event.Concerns])
      intro t' f member
      by_cases same : t' = t
      · simp [setLife,setFrames,same] at member
      · simpa [setLife,setFrames,same] using member
    | @fire t =>
      exact watched.push inv rfl (by simp [Trace.custodies,Event.custodies]) rfl
        (covers.destroy (inv.orderly.sound t))
    | move | key | round | skip | foreign => exact watched.still id (by simp [Event.Concerns])

/-- What holds of an operation when it begins and is kept by each answer that the rules allow, holds in every run. -/
theorem Run.tracked {I : Trace → Nat → ThreadId → τ → Prop} (run : Run trace w) (covers : v.Covers)
    (granted : Trace.Grants v trace)
    (opened : ∀ {trace w e w' n x}, Run trace w → w.Step e w' → e.Opens n → v.start e = some x →
      I (e :: trace) n (Trace.homes (e :: trace) n) x)
    (answered : ∀ {trace n t op q reply x}, (trace.custodies n).May q → v.may op (trace.custodies n) x q →
      v.grants q reply → I trace n t x → I (.answered n t q reply :: trace) n t (v.after x q reply))
    (kept : ∀ {trace e n t x}, ¬e.Concerns n → I trace n t x → I (e :: trace) n t x)
    {n : Nat} {x : τ} (track : v.track trace n = some x) : I trace n (trace.homes n) x := by
  induction run generalizing x with
  | nil => cases track
  | @step trace w e w' run going step ih =>
    have earlier {x} := ih granted.earlier (x := x)
    by_cases concerned : e.Concerns n
    · by_cases opens : e.Opens n
      · exact opened run step opens (track_opens opens ▸ track)
      · cases step with
        | @answer t n' op q next rest reply w' here answers =>
          obtain rfl : n' = n := concerned
          obtain ⟨x₀,before,rfl⟩ : ∃ x₀, v.track trace n' = some x₀ ∧ v.after x₀ q reply = x := by
            simpa [Watch.track,Watch.moved,Option.map_eq_some_iff] using track
          have head : ⟨n',op,.ask q next⟩ ∈ w.frames t := by simp [here]
          have home : trace.homes n' = t := run.inv.home here
          have old := earlier before
          rw [home] at old
          show I _ n' (trace.homes n') _
          rw [home]
          exact answered (run.inv.may here) (run.watched covers granted.earlier t _ x₀ head before).1
            (granted _ _ _ _ List.mem_cons_self) old
        | call | begin | fire => exact absurd concerned opens
        | _ => exact concerned.elim
    · obtain ⟨same,-,home⟩ := unconcerned v trace concerned
      rw [home]
      rw [same] at track
      exact kept concerned (earlier track)

theorem Step.grows (step : w.Step e w') : w.count ≤ w'.count := by
  cases step with
  | answer here answers => simp [setFrames,answers.kept.2.1]
  | call | begin | fire => exact Nat.le_succ _
  | ret | move | key | exit | round | skip | foreign => exact Nat.le_refl _

/-- Numbers are given in order. -/
theorem Run.concerned {n : Nat} (run : Run trace w) (member : e ∈ trace) (concerns : e.Concerns n) : n < w.count := by
  induction run with
  | nil => cases member
  | @step trace w e' w' run going step ih =>
    have grows := step.grows
    rcases List.mem_cons.mp member with rfl | earlier
    · cases step with
      | call | begin | fire =>
        obtain rfl : w.count = n := concerns
        exact Nat.lt_succ_self _
      | answer here =>
        obtain rfl := concerns
        exact Nat.lt_of_lt_of_le (run.inv.orderly.old (f := ⟨_,_,_⟩) (by rw [here]; exact List.mem_cons_self)) grows
      | _ => exact concerns.elim
    · exact Nat.lt_of_lt_of_le (ih earlier) grows

theorem Step.new {n : Nat} (step : w.Step e w') (opens : e.Opens n) : n = w.count := by
  cases step with
  | call | begin | fire => exact opens.symm
  | _ => exact opens.elim

/-- An operation that begins is a new one. -/
theorem Run.fresh {n : Nat} (run : Run trace w) (step : w.Step e w') (opens : e.Opens n) : ∀ e' ∈ trace, ¬e'.Concerns n :=
  fun _ member concerns => Nat.ne_of_lt (run.concerned member concerns) (step.new opens)

/-- An operation begins once. -/
theorem Run.opening {e' : Event} {n : Nat} (run : Run trace w) (here : e ∈ trace) (there : e' ∈ trace) (opens : e.Opens n)
    (opens' : e'.Opens n) : e = e' := by
  induction run with
  | nil => cases here
  | @step trace w e₀ w' run going step ih =>
    rcases List.mem_cons.mp here with rfl | earlier
    · rcases List.mem_cons.mp there with rfl | earlier'
      · rfl
      · exact absurd opens'.concerns (run.fresh step opens _ earlier')
    · rcases List.mem_cons.mp there with rfl | earlier'
      · exact absurd opens.concerns (run.fresh step opens' _ earlier)
      · exact ih earlier earlier'

/-- An operation that was answered has begun before. -/
theorem Run.answering {q : Request} {reply : q.Reply} (run : Run (after ++ .answered n t q reply :: before) w)
    (begun : e ∈ after ++ .answered n t q reply :: before) (opens : e.Opens n) :
    e ∈ before ∧ ∃ w₀ w₁, Run before w₀ ∧ ¬w₀.Ended ∧ w₀.Step (.answered n t q reply) w₁ := by
  induction after generalizing w with
  | nil =>
    cases run with
    | step run going step =>
      rcases List.mem_cons.mp begun with rfl | earlier
      · exact opens.elim
      · exact ⟨earlier,_,_,run,going,step⟩
  | cons e' after ih =>
    cases run with
    | step run going step =>
      rcases List.mem_cons.mp begun with rfl | earlier
      · exact absurd rfl (run.fresh step opens _ (List.mem_append_right after (.head before)))
      · exact ih run earlier

/-- An operation that begins has been told nothing yet. -/
theorem Run.uncounted {α : Type} {counts : (q : Request) → q.Reply → Option α} {n : Nat} (run : Run trace w)
    (step : w.Step e w') (opens : e.Opens n) : Trace.counted counts (e :: trace) n = [] := by
  refine List.eq_nil_iff_forall_not_mem.mpr fun a member => ?_
  obtain ⟨t,q,reply,answered,-⟩ := mem_counted.mp member
  rcases List.mem_cons.mp answered with rfl | earlier
  · exact opens
  · exact run.fresh step opens _ earlier rfl

theorem Run.answered_home {n : Nat} {q : Request} {reply : q.Reply} (run : Run trace w) (member : .answered n t q reply ∈ trace) :
    trace.homes n = t := by
  induction run with
  | nil => cases member
  | @step trace w e w' run going step ih =>
    rcases List.mem_cons.mp member with rfl | earlier
    · cases step with
      | answer here => exact run.inv.home here
    · by_cases opens : e.Opens n
      · exact absurd rfl (run.fresh step opens _ earlier)
      · rw [← ih earlier]
        cases e with
        | called | began | fired => exact replace_other _ _ (Ne.symm opens)
        | _ => rfl

/-- Where every beginning is watched, every operation is. -/
theorem Run.tracked_some {n : Nat} (run : Run trace w) (total : ∀ {e n}, e.Opens n → (v.start e).isSome)
    (old : n < w.count) : ∃ x, v.track trace n = some x := by
  induction run with
  | nil initial => simp [initial.count] at old
  | @step trace w e w' run going step ih =>
    by_cases concerned : e.Concerns n
    · by_cases opens : e.Opens n
      · rw [track_opens opens]
        exact Option.isSome_iff_exists.mp (total opens)
      · cases step with
        | @answer t n' op q next rest reply w' here answers =>
          obtain rfl : n' = n := concerned
          obtain ⟨x,before⟩ := ih (run.inv.orderly.old (f := ⟨n',op,.ask q next⟩) (by rw [here]; exact List.mem_cons_self))
          exact ⟨v.after x q reply,by simp [Watch.track,Watch.moved,before]⟩
        | call | begin | fire => exact absurd concerned opens
        | _ => exact concerned.elim
    · rw [(unconcerned v trace concerned).1]
      apply ih
      cases step with
      | call | begin | fire =>
        exact Nat.lt_of_le_of_ne (Nat.le_of_lt_succ old) fun same => concerned same.symm
      | answer here answers => simpa [setFrames,answers.kept.2.1] using old
      | ret | move | key | exit | round | skip | foreign => exact old

/-- What is in progress after a step was so before, or begins with it. -/
theorem Step.frames {f : Frame} (step : w.Step e w') (member : f ∈ w'.frames t) :
    (e.Opens f.number ∧ e.operation? = some f.operation) ∨
      ∃ g ∈ w.frames t, g.number = f.number ∧ g.operation = f.operation := by
  have pushed {t' op} (member : f ∈ (w.push t' op).frames t) :
      (f.number = w.count ∧ f.operation = op) ∨ ∃ g ∈ w.frames t, g.number = f.number ∧ g.operation = f.operation := by
    by_cases same : t = t'
    · have member : f = ⟨w.count,op,op.program⟩ ∨ f ∈ w.frames t' := by simpa [World.push,setFrames,same] using member
      rcases member with rfl | old
      · exact .inl ⟨rfl,rfl⟩
      · exact .inr ⟨f,same ▸ old,rfl,rfl⟩
    · exact .inr ⟨f,by simpa [World.push,setFrames,same] using member,rfl,rfl⟩
  cases step with
  | call | begin | fire =>
    rcases pushed member with ⟨number,operation⟩ | old
    · exact .inl ⟨number.symm,congrArg some operation.symm⟩
    · exact .inr old
  | @answer t' n op q next below reply w' here answers =>
    by_cases same : t = t'
    · have member : f = ⟨n,op,next reply⟩ ∨ f ∈ below := by simpa [setFrames,same] using member
      rcases member with rfl | old
      · exact .inr ⟨⟨n,op,.ask q next⟩,by simp [same,here],rfl,rfl⟩
      · exact .inr ⟨f,by simp [same,here,old],rfl,rfl⟩
    · exact .inr ⟨f,by simpa [setFrames,same,answers.kept.1] using member,rfl,rfl⟩
  | @ret t' n op result below here =>
    by_cases same : t = t'
    · have member : f ∈ below := by simpa [setFrames,same] using member
      exact .inr ⟨f,by simp [same,here,member],rfl,rfl⟩
    · exact .inr ⟨f,by simpa [setFrames,same] using member,rfl,rfl⟩
  | @exit t' =>
    by_cases same : t = t'
    · simp [setLife,setFrames,same] at member
    · exact .inr ⟨f,by simpa [setLife,setFrames,same] using member,rfl,rfl⟩
  | move | key | round | skip | foreign => exact .inr ⟨f,member,rfl,rfl⟩

/-- What is in progress has begun, as what it is. -/
theorem Run.started {f : Frame} (run : Run trace w) (member : f ∈ w.frames t) :
    ∃ e ∈ trace, e.Opens f.number ∧ e.operation? = some f.operation := by
  induction run generalizing f with
  | nil initial => simp [initial.frames] at member
  | step run going step ih =>
    rcases step.frames member with ⟨opens,started⟩ | ⟨g,before,number,operation⟩
    · exact ⟨_,.head _,opens,started⟩
    · obtain ⟨e',earlier,opens,started⟩ := ih before
      exact ⟨e',List.mem_cons_of_mem _ earlier,number ▸ opens,operation ▸ started⟩

/-- With the event that an operation has begun with, it is known what it is. -/
theorem Run.operation {f : Frame} (run : Run trace w) (begun : e ∈ trace) (opens : e.Opens f.number)
    (member : f ∈ w.frames t) : e.operation? = some f.operation := by
  obtain ⟨e',begun',opens',started⟩ := run.started member
  obtain rfl := run.opening begun begun' opens opens'
  exact started

/-- An operation in progress stays as it is until it is answered, unless it is done or its thread exits from its
function. -/
theorem Step.stays {f : Frame} (step : w.Step e w') (member : f ∈ w.frames t) (other : ¬e.Concerns f.number) :
    f ∈ w'.frames t ∨ (∃ result, f.rest = .done result ∧ e = .returned f.number t f.operation result) ∨
      (∃ s, e = .exited t s) ∧ f.Entered := by
  cases step with
  | @call t' | @begin t' | @fire t' =>
    refine .inl ?_
    by_cases same : t = t'
    · subst same
      simp [push,setFrames,setLife,setValue,member]
    · simpa [push,setFrames,setLife,setValue,same] using member
  | @answer t' n op q next below reply w' here answers =>
    refine .inl ?_
    by_cases same : t = t'
    · subst same
      rw [here] at member
      rcases List.mem_cons.mp member with rfl | later
      · exact absurd rfl other
      · simp [setFrames,later]
    · simpa [setFrames,same,answers.kept.1] using member
  | @ret t' n op result below here =>
    by_cases same : t = t'
    · subst same
      rw [here] at member
      rcases List.mem_cons.mp member with rfl | later
      · exact .inr (.inl ⟨result,rfl,rfl⟩)
      · exact .inl (by simpa [setFrames] using later)
    · exact .inl (by simpa [setFrames,same] using member)
  | @exit t' alive entered =>
    by_cases same : t = t'
    · subst same
      exact .inr (.inr ⟨⟨_,rfl⟩,entered f member⟩)
    · exact .inl (by simpa [setFrames,setLife,same] using member)
  | move | key | round | skip | foreign => exact .inl member

theorem push_top (w : World) (t : ThreadId) (op : Operation) : ⟨w.count,op,op.program⟩ ∈ (w.push t op).frames t := by
  simp [push,setFrames]

/-- The operation `n` was in progress and is so no more. -/
def Gone (w : World) (n : Nat) : Prop := n < w.count ∧ ∀ t, ¬w.Running t n

/-- What is gone stays gone, and nothing concerns it any more. -/
theorem Gone.step {n : Nat} (gone : w.Gone n) (step : w.Step e w') : ¬e.Concerns n ∧ w'.Gone n := by
  obtain ⟨old,absent⟩ := gone
  refine ⟨?_,Nat.lt_of_lt_of_le old step.grows,?_⟩
  · intro concerns
    cases step with
    | call | begin | fire => exact Nat.ne_of_gt old concerns
    | answer here => exact absent _ ⟨⟨_,_,_⟩,by rw [here]; exact List.mem_cons_self,concerns⟩
    | _ => exact concerns.elim
  · rintro t ⟨f,member,rfl⟩
    rcases step.frames member with ⟨opens,-⟩ | ⟨g,before,number,-⟩
    · exact Nat.ne_of_lt old (step.new opens)
    · exact absent t ⟨g,before,number⟩

/-- An operation that returns is over. -/
theorem Run.gone_ret {n : Nat} {op : Operation} {result : op.Result} {below : List Frame} (run : Run trace w)
    (here : w.frames t = ⟨n,op,.done result⟩ :: below) : (w.setFrames t below).Gone n := by
  have inv := run.inv
  have head : ⟨n,op,.done result⟩ ∈ w.frames t := by simp [here]
  have tidy := inv.orderly.tidy t
  rw [here] at tidy
  refine ⟨inv.orderly.old head,?_⟩
  rintro t' ⟨f,member,number⟩
  by_cases mine : t' = t
  · have later : f ∈ below := by simpa [setFrames,mine] using member
    exact (tidy.2.1 f later).2 number
  · have old : f ∈ w.frames t' := by simpa [setFrames,mine] using member
    have home := inv.orderly.home old
    rw [number] at home
    exact mine (home.symm.trans (inv.orderly.home head))

/-- An operation that has ended is over, and ended as the watch says. -/
theorem Run.ended {n : Nat} {op : Operation} {result : op.Result} (run : Run trace w) (covers : v.Covers)
    (granted : Trace.Grants v trace) (member : .returned n t op result ∈ trace) :
    w.Gone n ∧ ∀ x, v.track trace n = some x → v.ends op x result := by
  induction run with
  | nil => cases member
  | @step trace w e w' run going step ih =>
    rcases List.mem_cons.mp member with rfl | earlier
    · cases step with
      | ret here =>
        refine ⟨run.gone_ret here,?_⟩
        have head : ⟨n,op,.done result⟩ ∈ w.frames t := by simp [here]
        exact fun x tracked => run.watched covers granted.earlier t _ x head tracked
    · obtain ⟨gone,ends⟩ := ih granted.earlier earlier
      obtain ⟨other,gone'⟩ := gone.step step
      refine ⟨gone',fun x tracked => ends x ?_⟩
      rwa [(unconcerned v trace other).1] at tracked

/-- What holds of an operation with its first event, and is kept by its answers, holds from then on. -/
theorem Run.opened {P : τ → Prop} {e₀ : Event} {n : Nat} (run : Run trace w) (member : e₀ ∈ trace) (opens : e₀.Opens n)
    (starts : ∃ x, v.start e₀ = some x ∧ P x) (keeps : ∀ {x q reply}, P x → P (v.after x q reply)) :
    trace.homes n = e₀.homes (fun _ => 0) n ∧ ∃ x, v.track trace n = some x ∧ P x := by
  induction run with
  | nil => cases member
  | @step trace w e w' run going step ih =>
    rcases List.mem_cons.mp member with rfl | earlier
    · refine ⟨?_,track_opens opens ▸ starts⟩
      cases e₀ with
      | called | began | fired =>
        cases opens
        simp [Trace.homes,Event.homes]
      | _ => exact opens.elim
    · obtain ⟨home,x,track,holds⟩ := ih earlier
      by_cases concerned : e.Concerns n
      · by_cases again : e.Opens n
        · exact absurd opens.concerns (run.fresh step again _ earlier)
        · cases e with
          | answered k t q reply =>
            obtain rfl : k = n := concerned
            exact ⟨home,v.after x q reply,by simp [Watch.track,Watch.moved,track],keeps holds⟩
          | called | began | fired => exact absurd concerned again
          | _ => exact concerned.elim
      · obtain ⟨same,-,house⟩ := unconcerned v trace concerned
        rw [same,house]
        exact ⟨home,x,track,holds⟩

/-- A thread exited while its operation `n` was at the request. -/
def Trace.Parted (trace : Trace) (t : ThreadId) (n : Nat) (q : Request) : Prop :=
  ∃ s before w f, .exited t s :: before <:+ trace ∧ Run before w ∧ f ∈ w.frames t ∧ f.number = n ∧ f.Asks q

theorem Trace.Parted.later {n : Nat} {q : Request} (parted : trace.Parted t n q) : Trace.Parted (e :: trace) t n q := by
  obtain ⟨s,before,w,f,part,rest⟩ := parted
  exact ⟨s,before,w,f,part.trans (List.suffix_cons e trace),rest⟩

/-- An operation is in progress until it returns or its thread exits while it waits for its function. -/
theorem Run.whereabouts {n : Nat} {x : τ} (run : Run trace w) (covers : v.Covers) (granted : Trace.Grants v trace)
    (track : v.track trace n = some x) :
    w.Running (trace.homes n) n ∨ w.Gone n ∧
      ((∃ op result, .returned n (trace.homes n) op result ∈ trace) ∨
        ∃ op c entry arg, v.may op c x (.enter entry arg) ∧ trace.Parted (trace.homes n) n (.enter entry arg)) := by
  induction run generalizing x with
  | nil => cases track
  | @step trace w e w' run going step ih =>
    by_cases concerned : e.Concerns n
    · left
      cases step with
      | call | begin | fire =>
        obtain rfl : w.count = n := concerned
        simp only [Trace.homes,Event.homes,replace_same]
        exact ⟨_,push_top _ _ _,rfl⟩
      | @answer t' k op q next below reply w' here answers =>
        obtain rfl : k = n := concerned
        exact ⟨⟨k,op,next reply⟩,by simp [Trace.homes,Event.homes,run.inv.home here,setFrames],rfl⟩
      | _ => exact concerned.elim
    · obtain ⟨same,-,house⟩ := unconcerned v trace concerned
      rw [same] at track
      rw [house]
      rcases ih granted.earlier track with ⟨f,member,rfl⟩ | ⟨gone,left_⟩
      · rcases step.stays member concerned with stays | ⟨result,-,rfl⟩ | ⟨⟨s,rfl⟩,entered⟩
        · exact .inl ⟨f,stays,rfl⟩
        · cases step with
          | ret here => exact .inr ⟨run.gone_ret here,.inl ⟨_,_,.head _⟩⟩
        · have keeps := run.watched covers granted.earlier _ f x member track
          have old := run.inv.orderly.old member
          right
          refine ⟨⟨Nat.lt_of_lt_of_le old step.grows,?_⟩,.inr ?_⟩
          · cases step with
            | exit alive all =>
              rintro t' ⟨g,there,number⟩
              by_cases mine : t' = trace.homes f.number
              · simp [setLife,setFrames,mine] at there
              · have home := run.inv.orderly.home (f := g) (by simpa [setLife,setFrames,mine] using there)
                exact mine (number ▸ home).symm
          · unfold Frame.Entered at entered
            split at entered
            next entry arg next asks =>
              rw [asks] at keeps
              exact ⟨_,_,entry,arg,keeps.1,s,trace,w,f,List.suffix_rfl,run,member,rfl,next,asks⟩
            · exact entered.elim
      · refine .inr ⟨(gone.step step).2,left_.imp ?_ ?_⟩
        · rintro ⟨op,result,returned⟩
          exact ⟨op,result,List.mem_cons_of_mem _ returned⟩
        · rintro ⟨op,c,entry,arg,may,parted⟩
          exact ⟨op,c,entry,arg,may,parted.later⟩

end World
end GuardedStack
