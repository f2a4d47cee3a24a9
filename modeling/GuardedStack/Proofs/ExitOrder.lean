import GuardedStack.Proofs.Conservation
import GuardedStack.Proofs.Rounds

/-! The order of a thread's exit. The cleanup key's destructor counts the rounds and takes the region in the last one,
whatever other keys there are, however often they are set again and in whatever order a round looks at them. -/
namespace GuardedStack

/-- What the event adds to the marks of the thread. -/
def Event.marks (e : Event) (t : ThreadId) : List Mark :=
  match e with
  | round t' => if t' = t then [.round] else []
  | fired _ t' rt key value _ => if t' = t then [.fired rt key value] else []
  | answered _ t' q reply => if t' = t then Mark.ofReply q reply else []
  | _ => []

theorem Mark.complete_succ {rt : RuntimeId} {key : CleanupKey} {m : Mapping} {i : Nat}
    (late : destructorRounds.toNat ≤ i) : complete rt key m (i + 1) = complete rt key m i ++ [round] := by
  unfold complete
  rw [Nat.sub_add_comm late,List.replicate_succ',← List.append_assoc]

/-- No early round is the last one. -/
theorem Mark.last_not_counted (rt : RuntimeId) (key : CleanupKey) {i : Nat} (early : i < destructorRounds.toNat) :
    fired rt key destructorRounds ∉ counted rt key i := by
  induction i with
  | zero => simp [counted]
  | succ i ih =>
    have exact_ := Stage.ofNat_toNat (Nat.le_of_lt early)
    have other : destructorRounds ≠ .ofNat (i + 1) := by
      intro same
      rw [← same] at exact_
      omega
    have before := ih (by omega)
    simp [counted,-UInt64.ofNat_add,before,other]

namespace World

/-- The marks of the thread, the oldest first. -/
def Trace.marks (t : ThreadId) : Trace → List Mark
  | [] => []
  | e :: earlier => marks t earlier ++ e.marks t

variable {rt : RuntimeId} {trace : Trace} {w w' : World} {t : ThreadId} {key : CleanupKey} {h : Holding}
  {s : ThreadStack} {marks : List Mark} {e : Event}

/-- Other destructors on the thread do not call the library, and its cleanup keys can be set. -/
structure Undisturbed (t : ThreadId) (trace : Trace) : Prop where
  calls : ∀ {n op}, .called n t op ∉ trace
  sets : ∀ {n rt key value cause}, .answered n t (.host rt (.setCleanupValue key value)) (.error cause) ∉ trace

theorem Undisturbed.mono {trace trace' : Trace} (undisturbed : Undisturbed t trace) (part : trace' ⊆ trace) :
    Undisturbed t trace' where
  calls member := undisturbed.calls (part member)
  sets member := undisturbed.sets (part member)

/-- How far the thread is in its exit, which it began with the stack `s`. -/
inductive Leaving (rt : RuntimeId) (key : CleanupKey) (h : Holding) (s : ThreadStack) (t : ThreadId) (w : World)
    (marks : List Mark) : Prop
  | between {i : Nat} {todo : List Key} : w.lives t = .exiting i todo → w.frames t = [] → i < destructorRounds.toNat →
      .cleanup rt key ∉ todo → w.image.threads t = s → w.values t (.cleanup rt key) = .ofNat (i + 1) →
      marks = Mark.counted rt key i → Leaving rt key h s t w marks
  | due {i : Nat} {todo : List Key} : w.lives t = .exiting (i + 1) todo → w.frames t = [] →
      i < destructorRounds.toNat → .cleanup rt key ∈ todo → todo.Nodup → w.image.threads t = s →
      w.values t (.cleanup rt key) = .ofNat (i + 1) → marks = Mark.counted rt key i ++ [.round] →
      Leaving rt key h s t w marks
  /-- What is left of the destructor call will count on or take the region. -/
  | passing {i n : Nat} {todo : List Key} {rest : Program Unit} : w.lives t = .exiting (i + 1) todo →
      w.frames t = [⟨n,.destroy (.ofNat (i + 1)),rest⟩] → i < destructorRounds.toNat → .cleanup rt key ∉ todo →
      rest.Follows (passage rt key)
        (fun y _ => y = Passage.passed rt key h (.ofNat (i + 1))
          ⟨s,0,Mark.counted rt key i ++ [.round,.fired rt key (.ofNat (i + 1))]⟩)
        ⟨w.image.threads t,w.values t (.cleanup rt key),marks⟩ →
      Leaving rt key h s t w marks
  | spent {i : Nat} {todo : List Key} : w.lives t = .exiting i todo → w.frames t = [] → destructorRounds.toNat ≤ i →
      w.image.threads t = .empty → w.values t (.cleanup rt key) = 0 → marks = Mark.complete rt key h.mapping i →
      Leaving rt key h s t w marks

section
variable {n : Nat} {q : Request} {reply : q.Reply} (answers : w.Answers t q reply w')
include answers

/-- What a destructor call sees follows what happens to its thread. -/
theorem Answers.passage (found : (w.image.runtimes rt).key = some key)
    (sole : Sole rt (.answered n t q reply :: trace)) (undisturbed : Undisturbed t [.answered n t q reply]) :
    Passage.Expects rt key ⟨w.image.threads t,w.values t (.cleanup rt key),marks⟩ q reply ∧
      (⟨w'.image.threads t,w'.values t (.cleanup rt key),marks ++ Mark.ofReply q reply⟩ : Passage) =
        Passage.after rt key ⟨w.image.threads t,w.values t (.cleanup rt key),marks⟩ q reply := by
  cases q with
  | enter entry arg =>
    obtain rfl : w' = w := answers
    exact ⟨trivial,rfl⟩
  | mapper rt' call =>
    have threads : w'.image.threads = w.image.threads := by rw [answers.foreign trivial]
    have values : w'.values = w.values := by
      rcases answers.values with same | ⟨_,_,_,clash,-⟩
      · exact same
      · cases clash
    rw [threads,values]
    cases call with
    | unmap addr len =>
      cases reply with
      | ok done => exact ⟨trivial,rfl⟩
      | error cause => exact absurd List.mem_cons_self sole.unmaps
    | pageSize | map | protect => exact ⟨trivial,rfl⟩
  | host rt' call =>
    have threads : w'.image.threads = w.image.threads := by rw [answers.foreign trivial]
    rw [threads]
    cases call with
    | setCleanupValue key' value =>
      cases reply with
      | ok done =>
        obtain rfl : w' = w.setValue t (.cleanup rt' key') value := answers
        refine ⟨trivial,?_⟩
        by_cases mine : rt' = rt ∧ key' = key
        · simp [Passage.after,setValue,mine]
        · have other : Key.cleanup rt key ≠ .cleanup rt' key' := by
            rintro ⟨⟩
            exact mine ⟨rfl,rfl⟩
          simp [Passage.after,setValue,mine,other]
      | error cause => exact absurd List.mem_cons_self undisturbed.sets
    | _ =>
      have values : w'.values = w.values := by
        rcases answers.values with same | ⟨_,_,_,clash,-⟩
        · exact same
        · cases clash
      rw [values]
      exact ⟨trivial,rfl⟩
  | state call =>
    obtain ⟨rfl,rfl⟩ := answers
    cases call with
    | key rt' =>
      refine ⟨?_,rfl⟩
      rintro rfl
      exact found
    | setStack s => exact ⟨trivial,by simp [Passage.after,Image.answer]⟩
    | stack => exact ⟨rfl,rfl⟩
    | exchangePhase rt' expected desired =>
      refine ⟨trivial,?_⟩
      simp only [Passage.after,Image.answer]
      split <;> rfl
    | _ => exact ⟨trivial,rfl⟩

end

/-- Nothing happens to the thread. -/
theorem Leaving.congr (leaving : Leaving rt key h s t w marks) (lives : w'.lives t = w.lives t)
    (frames : w'.frames t = w.frames t) (threads : w'.image.threads t = w.image.threads t)
    (values : w'.values t (.cleanup rt key) = w.values t (.cleanup rt key)) (silent : e.marks t = []) :
    Leaving rt key h s t w' (marks ++ e.marks t) := by
  rw [silent,List.append_nil]
  cases leaving with
  | between exiting idle early gone stack value told =>
    exact .between (lives.trans exiting) (frames.trans idle) early gone (threads.trans stack) (values.trans value) told
  | due exiting idle early member once stack value told =>
    exact .due (lives.trans exiting) (frames.trans idle) early member once (threads.trans stack) (values.trans value) told
  | passing exiting running early gone follows =>
    refine .passing (lives.trans exiting) (frames.trans running) early gone ?_
    rwa [threads,values]
  | spent exiting idle late stack value told =>
    exact .spent (lives.trans exiting) (frames.trans idle) late (threads.trans stack) (values.trans value) told

theorem Leaving.exiting (leaving : Leaving rt key h s t w marks) : ∃ i todo, w.lives t = .exiting i todo := by
  cases leaving with
  | between exiting => exact ⟨_,_,exiting⟩
  | due exiting => exact ⟨_,_,exiting⟩
  | passing exiting => exact ⟨_,_,exiting⟩
  | spent exiting => exact ⟨_,_,exiting⟩

section
variable (leaving : Leaving rt key h s t w marks)
include leaving

theorem Leaving.answer {n : Nat} {op : Operation} {q : Request} {next : q.Reply → Program op.Result}
    {below : List Frame} {reply : q.Reply} (here : w.frames t = ⟨n,op,.ask q next⟩ :: below)
    (answers : w.Answers t q reply w') (found : (w.image.runtimes rt).key = some key)
    (sole : Sole rt (.answered n t q reply :: trace)) (undisturbed : Undisturbed t [.answered n t q reply]) :
    Leaving rt key h s t (w'.setFrames t (⟨n,op,next reply⟩ :: below))
      (marks ++ (Event.answered n t q reply).marks t) := by
  cases leaving with
  | between _ idle => simp [here] at idle
  | due _ idle => simp [here] at idle
  | spent _ idle => simp [here] at idle
  | @passing i n' todo rest exiting running early gone follows =>
    rw [here] at running
    injection running with same below
    cases same
    subst below
    have lives : (w'.setFrames t [⟨n,.destroy (.ofNat (i + 1)),next reply⟩]).lives t = .exiting (i + 1) todo := by
      simpa [setFrames,answers.kept.2.2] using exiting
    have frames : (w'.setFrames t [⟨n,.destroy (.ofNat (i + 1)),next reply⟩]).frames t =
        [⟨n,.destroy (.ofNat (i + 1)),next reply⟩] := by
      simp [setFrames]
    refine .passing lives frames early gone ?_
    have followed := follows.2 reply _ (answers.passage found sole undisturbed)
    simpa [Event.marks,setFrames] using followed

theorem Leaving.ret {n : Nat} {op : Operation} {result : op.Result} {below : List Frame}
    (here : w.frames t = ⟨n,op,.done result⟩ :: below) :
    Leaving rt key h s t (w.setFrames t below) (marks ++ (Event.returned n t op result).marks t) := by
  cases leaving with
  | between _ idle => simp [here] at idle
  | due _ idle => simp [here] at idle
  | spent _ idle => simp [here] at idle
  | @passing i n' todo rest exiting running early gone follows =>
    rw [here] at running
    injection running with same below
    cases same
    subst below
    have exact_ := Stage.ofNat_toNat (i := i + 1) early
    have lives : (w.setFrames t []).lives t = .exiting (i + 1) todo := exiting
    have frames : (w.setFrames t []).frames t = [] := by simp [setFrames]
    have done : (⟨w.image.threads t,w.values t (.cleanup rt key),marks⟩ : Passage) =
      Passage.passed rt key h (.ofNat (i + 1)) ⟨s,0,Mark.counted rt key i ++ [.round,.fired rt key (.ofNat (i + 1))]⟩ :=
        follows
    have silent : marks ++ (Event.returned n t (.destroy (.ofNat (i + 1))) result).marks t = marks := by
      simp [Event.marks]
    rw [silent]
    by_cases counts : i + 1 < destructorRounds.toNat
    · have soon : UInt64.ofNat (i + 1) < destructorRounds := by
        rw [UInt64.lt_iff_toNat_lt,exact_]
        exact counts
      simp only [Passage.passed,soon,if_true] at done
      injection done with stack value told
      refine .between lives frames counts gone stack ?_ ?_
      · exact value.trans (UInt64.ofNat_add (i + 1) 1).symm
      · rw [told,Mark.counted,UInt64.ofNat_add (i + 1) 1]
        simp
    · have last : i + 1 = destructorRounds.toNat := by omega
      have late : ¬UInt64.ofNat (i + 1) < destructorRounds := by
        rw [UInt64.lt_iff_toNat_lt,exact_]
        exact counts
      have whole : UInt64.ofNat (i + 1) = destructorRounds := by
        rw [← UInt64.toNat_inj,exact_,last]
      simp only [Passage.passed,late,if_false] at done
      injection done with stack value told
      refine .spent lives frames (by omega) stack value ?_
      have before : i = destructorRounds.toNat - 1 := by omega
      rw [told,whole,Mark.complete,last,← before]
      simp

theorem Leaving.round {rounds : Nat} {order : List Key} (exiting : w.lives t = .exiting rounds [])
    (once : order.Nodup) (all : ∀ k, w.values t k ≠ 0 → k ∈ order) (idle : w.frames t = []) :
    Leaving rt key h s t (w.setLife t (.exiting (rounds + 1) order)) (marks ++ (Event.round t).marks t) := by
  have told : (Event.round t).marks t = [.round] := by simp [Event.marks]
  rw [told]
  cases leaving with
  | between exiting' _ early gone stack value told =>
    obtain ⟨rfl,rfl⟩ : rounds = _ ∧ [] = _ := by simpa [exiting] using exiting'
    refine .due (by simp [setLife]) idle early (all _ ?_) once stack value (by rw [told])
    rw [value]
    exact Stage.ofNat_ne_zero (by omega) early
  | due exiting' _ _ member =>
    obtain ⟨rfl,rfl⟩ : rounds = _ ∧ [] = _ := by simpa [exiting] using exiting'
    simp at member
  | passing _ running => simp [idle] at running
  | spent exiting' _ late stack value told =>
    obtain ⟨rfl,rfl⟩ : rounds = _ ∧ [] = _ := by simpa [exiting] using exiting'
    have lives : (w.setLife t (.exiting (rounds + 1) order)).lives t = .exiting (rounds + 1) order := by
      simp [setLife]
    refine .spent lives idle (by omega) stack value ?_
    rw [told,Mark.complete_succ late]

/-- Another key is looked at, or one without a value. -/
theorem Leaving.skip {rounds : Nat} {k : Key} {todo : List Key} (exiting : w.lives t = .exiting rounds (k :: todo))
    (other : k = .cleanup rt key → w.values t (.cleanup rt key) = 0) (lives : w'.lives t = .exiting rounds todo)
    (frames : w'.frames t = w.frames t) (threads : w'.image.threads t = w.image.threads t)
    (values : w'.values t (.cleanup rt key) = w.values t (.cleanup rt key)) (idle : w.frames t = [])
    (silent : e.marks t = []) : Leaving rt key h s t w' (marks ++ e.marks t) := by
  rw [silent,List.append_nil]
  cases leaving with
  | between exiting' _ early gone stack value told =>
    obtain ⟨rfl,rfl⟩ : rounds = _ ∧ k :: todo = _ := by simpa [exiting] using exiting'
    have gone : .cleanup rt key ∉ todo := fun member => gone (List.mem_cons_of_mem _ member)
    exact .between lives (frames.trans idle) early gone (threads.trans stack) (values.trans value) told
  | due exiting' _ early member once stack value told =>
    obtain ⟨rfl,rfl⟩ : rounds = _ ∧ k :: todo = _ := by simpa [exiting] using exiting'
    have ne : Key.cleanup rt key ≠ k := by
      rintro rfl
      exact Stage.ofNat_ne_zero (by omega) early (value.symm.trans (other rfl))
    exact .due lives (frames.trans idle) early (List.mem_of_ne_of_mem ne member) (List.nodup_cons.mp once).2
      (threads.trans stack) (values.trans value) told
  | passing _ running => simp [idle] at running
  | spent exiting' _ late stack value told =>
    obtain ⟨rfl,rfl⟩ : rounds = _ ∧ k :: todo = _ := by simpa [exiting] using exiting'
    exact .spent lives (frames.trans idle) late (threads.trans stack) (values.trans value) told

theorem Leaving.fire {rounds : Nat} {todo : List Key} (exiting : w.lives t = .exiting rounds (.cleanup rt key :: todo))
    (idle : w.frames t = []) (present : w.values t (.cleanup rt key) ≠ 0) (sound : h.region.Sound)
    (owner : h.owner = rt) (stack : s.holding = some h) :
    Leaving rt key h s t
      (((w.setValue t (.cleanup rt key) 0).push t (.destroy (w.values t (.cleanup rt key)))).setLife t
        (.exiting rounds todo))
      (marks ++ (Event.fired w.count t rt key (w.values t (.cleanup rt key)) (w.image.threads t)).marks t) := by
  cases leaving with
  | between exiting' _ early gone =>
    obtain ⟨rfl,rfl⟩ : rounds = _ ∧ .cleanup rt key :: todo = _ := by simpa [exiting] using exiting'
    simp at gone
  | @due i _ exiting' _ early member once same value told =>
    obtain ⟨rfl,rfl⟩ : rounds = _ ∧ .cleanup rt key :: todo = _ := by simpa [exiting] using exiting'
    rw [value]
    have lives : (((w.setValue t (.cleanup rt key) 0).push t (.destroy (.ofNat (i + 1)))).setLife t
        (.exiting (i + 1) todo)).lives t = .exiting (i + 1) todo := by
      simp [setLife]
    have frames : (((w.setValue t (.cleanup rt key) 0).push t (.destroy (.ofNat (i + 1)))).setLife t
        (.exiting (i + 1) todo)).frames t =
          [⟨w.count,.destroy (.ofNat (i + 1)),Operation.program (.destroy (.ofNat (i + 1)))⟩] := by
      simp [setLife,push,setFrames,setValue,idle]
    refine .passing lives frames early (List.nodup_cons.mp once).1 ?_
    have reached : (⟨w.image.threads t,0,marks ++ [.fired rt key (.ofNat (i + 1))]⟩ : Passage) =
        ⟨s,0,Mark.counted rt key i ++ [.round,.fired rt key (.ofNat (i + 1))]⟩ := by
      rw [same,told,List.append_assoc]
      rfl
    have follows := Cleanup.destructor_passage key (.ofNat (i + 1))
      ⟨s,0,Mark.counted rt key i ++ [.round,.fired rt key (.ofNat (i + 1))]⟩ sound owner stack
    rw [← reached] at follows
    simpa [Event.marks,setLife,push,setFrames,setValue,same,told,Operation.program] using follows
  | passing _ running => simp [idle] at running
  | spent _ _ _ _ zero => exact absurd zero present

/-- One step, on whatever thread, takes the exit further. -/
theorem Leaving.step (alone : w.Alone rt trace) (course : w.Course rt trace)
    (found : (w.image.runtimes rt).key = some key) (sound : h.region.Sound) (owner : h.owner = rt)
    (stack : s.holding = some h) (sole : Sole rt (e :: trace)) (undisturbed : Undisturbed t [e])
    (step : w.Step e w') : Leaving rt key h s t w' (marks ++ e.marks t) := by
  obtain ⟨i,todo,exiting⟩ := leaving.exiting
  cases step with
  | @call t' op =>
    have other : t ≠ t' := by
      rintro rfl
      exact undisturbed.calls List.mem_cons_self
    exact leaving.congr rfl (by simp [push,setFrames,other]) rfl rfl rfl
  | @begin t' call unborn =>
    have other : t ≠ t' := by
      rintro rfl
      simp [exiting] at unborn
    exact leaving.congr (by simp [setLife,push,setFrames,other]) (by simp [setLife,push,setFrames,other]) rfl rfl rfl
  | @answer t' n op q next below reply w₁ here answers =>
    by_cases mine : t' = t
    · subst mine
      exact leaving.answer here answers found sole undisturbed
    · have other : t ≠ t' := fun same => mine same.symm
      have threads : w₁.image.threads t = w.image.threads t := by
        rcases answers.threads with same | ⟨s,-,same⟩
        · rw [same]
        · rw [same,replace_other _ _ other]
      have values : w₁.values t = w.values t := by
        rcases answers.values with same | ⟨_,_,_,-,rfl⟩
        · rw [same]
        · simp [setValue,other]
      exact leaving.congr (by simp [setFrames,answers.kept.2.2]) (by simp [setFrames,answers.kept.1,other]) threads
        (by simp [setFrames,values]) (by simp [Event.marks,mine])
  | @ret t' n op result below here =>
    by_cases mine : t' = t
    · subst mine
      exact leaving.ret here
    · have other : t ≠ t' := fun same => mine same.symm
      exact leaving.congr rfl (by simp [setFrames,other]) rfl rfl rfl
  | @move t' h' pointer _ alive =>
    have other : t ≠ t' := by
      rintro rfl
      simp [exiting] at alive
    exact leaving.congr rfl rfl (by simp [setStack,other]) rfl rfl
  | @key t' number value =>
    refine leaving.congr rfl rfl rfl ?_ rfl
    by_cases mine : t = t' <;> simp [setValue,mine]
  | @exit t' alive =>
    have other : t ≠ t' := by
      rintro rfl
      simp [exiting] at alive
    exact leaving.congr (by simp [setLife,setFrames,other]) (by simp [setLife,setFrames,other]) rfl rfl rfl
  | @round t' rounds order exiting' idle once all =>
    by_cases mine : t' = t
    · subst mine
      exact leaving.round exiting' once all idle
    · have other : t ≠ t' := fun same => mine same.symm
      exact leaving.congr (by simp [setLife,other]) rfl rfl rfl (by simp [Event.marks,mine])
  | @skip t' rounds k todo' exiting' idle absent =>
    by_cases mine : t' = t
    · subst mine
      exact leaving.skip exiting' (fun same => same ▸ absent) (by simp [setLife]) rfl rfl rfl idle rfl
    · have other : t ≠ t' := fun same => mine same.symm
      exact leaving.congr (by simp [setLife,other]) rfl rfl rfl rfl
  | @fire t' rounds rt' key' todo' exiting' idle present =>
    by_cases mine : t' = t
    · subst mine
      have kept := (course.values present).2
      obtain rfl := alone.of_key kept
      obtain rfl : key' = key := by simpa [found] using kept.symm
      exact leaving.fire exiting' idle present sound owner stack
    · have other : t ≠ t' := fun same => mine same.symm
      exact leaving.congr (by simp [setLife,push,setFrames,setValue,other])
        (by simp [setLife,push,setFrames,setValue,other]) rfl (by simp [setLife,push,setFrames,setValue,other])
        (by simp [Event.marks,mine])
  | @foreign t' rounds number todo' exiting' idle present =>
    by_cases mine : t' = t
    · subst mine
      exact leaving.skip exiting' (by simp) (by simp [setLife]) rfl rfl (by simp [setLife,setValue]) idle rfl
    · have other : t ≠ t' := fun same => mine same.symm
      exact leaving.congr (by simp [setLife,setValue,other]) rfl rfl (by simp [setLife,setValue,other]) rfl

/-- A destructor call of the library goes on until it ends. -/
theorem Leaving.flows : Open (w.frames t) := by
  intro f member reason stops
  cases leaving with
  | between _ idle => simp [idle] at member
  | due _ idle => simp [idle] at member
  | spent _ idle => simp [idle] at member
  | @passing i n todo rest _ running _ _ follows =>
    rw [running] at member
    obtain rfl := List.mem_singleton.mp member
    have stops : rest = .stop reason := stops
    rw [stops] at follows
    exact follows

theorem Leaving.ended {rounds : Nat} (exiting : w.lives t = .exiting rounds []) (idle : w.frames t = [])
    (enough : destructorRounds.toNat ≤ rounds) :
    marks = Mark.complete rt key h.mapping rounds ∧ w.values t (.cleanup rt key) = 0 := by
  cases leaving with
  | spent exiting' _ _ _ value told =>
    obtain ⟨rfl,-⟩ : rounds = _ ∧ [] = _ := by simpa [exiting] using exiting'
    exact ⟨told,value⟩
  | between exiting' _ early =>
    obtain ⟨rfl,-⟩ : rounds = _ ∧ [] = _ := by simpa [exiting] using exiting'
    omega
  | due exiting' _ _ member =>
    obtain ⟨-,rfl⟩ : rounds = _ ∧ [] = _ := by simpa [exiting] using exiting'
    simp at member
  | passing _ running => simp [idle] at running

/-- The stack that other destructors see. -/
theorem Leaving.sees (idle : w.frames t = []) :
    w.image.threads t = if .fired rt key destructorRounds ∈ marks then .empty else s := by
  cases leaving with
  | between _ _ early _ stack _ told =>
    rw [told,if_neg (Mark.last_not_counted rt key early),stack]
  | due _ _ early _ _ stack _ told =>
    have soon := Mark.last_not_counted rt key early
    rw [told,if_neg (by simpa using soon),stack]
  | passing _ running => simp [idle] at running
  | spent _ _ _ stack _ told =>
    rw [told,if_pos (by simp [Mark.complete]),stack]

end

variable {after before : Trace} {n : Nat} {call : SpawnCall} {record : Handoff}

theorem Run.leaving (run : Run (after ++ .exited t s :: before) w) (sole : Sole rt (after ++ .exited t s :: before))
    (began : .began n t call record ∈ before) (undisturbed : Undisturbed t after) :
    ∃ key, (w.image.runtimes rt).key = some key ∧ record.region.Sound ∧ s.holding = some ⟨record.region,rt⟩ ∧
      Leaving rt key ⟨record.region,rt⟩ s t w (Trace.marks t after) := by
  induction after generalizing w with
  | nil =>
    obtain ⟨alone,course⟩ := run.course sole
    have begun := (run.begun (List.mem_append_right _ (List.mem_cons_of_mem _ began))).1
    have ready := course.ready begun
    obtain ⟨key,found⟩ := Option.ne_none_iff_exists'.mp (run.inv.phased.keyed ready)
    have mine := alone.of_ready ready
    rw [mine] at found
    have staged := course.staged begun found
    have sounds := run.inv.orderly.sound t
    cases run with
    | @step _ w₀ _ _ run going step =>
      cases step with
      | exit alive entered =>
        have idle : ((w₀.setFrames t []).setLife t (.exiting 0 [])).frames t = [] := by simp [setLife,setFrames]
        have exiting : ((w₀.setFrames t []).setLife t (.exiting 0 [])).lives t = .exiting 0 [] := by simp [setLife]
        obtain ⟨stack,armed⟩ := staged.unrounded (course.idle idle) exiting
        have stack : (w₀.image.threads t).holding = some ⟨record.region,rt⟩ := by
          rw [← mine]
          exact stack
        exact ⟨key,found,(sounds.some _ stack).1,stack,.between exiting idle (by decide) (by simp) rfl armed rfl⟩
  | cons e after ih =>
    cases run with
    | step run going step =>
      obtain ⟨key,found,sound,stack,leaving⟩ := ih run sole.earlier (undisturbed.mono (List.subset_cons_self e after))
      obtain ⟨alone,course⟩ := run.course sole.earlier
      refine ⟨key,step.keeps found,sound,stack,?_⟩
      exact leaving.step alone course found sound rfl stack sole (undisturbed.mono (by simp)) step

/-- The exit of a thread that has begun it with the stack `s`, and what has happened since. -/
structure Exit (rt : RuntimeId) (key : CleanupKey) (m : Mapping) (s : ThreadStack) (t : ThreadId) (after : Trace)
    (w : World) : Prop where
  kept : (w.image.runtimes rt).key = some key
  flows : Open (w.frames t)
  /-- Other destructors see the thread's stack until the last counted round calls the library's destructor. -/
  sees : ∀ {later earlier number stack}, after = later ++ .foreign t number stack :: earlier →
    stack = if .fired rt key destructorRounds ∈ Trace.marks t earlier then .empty else s
  marks : ∀ {rounds}, w.lives t = .exiting rounds [] → w.frames t = [] → destructorRounds.toNat ≤ rounds →
    Trace.marks t after = Mark.complete rt key m rounds
  clear : ∀ {rounds}, w.lives t = .exiting rounds [] → w.frames t = [] → destructorRounds.toNat ≤ rounds →
    w.values t (.cleanup rt key) = 0

/-- If nothing disturbs an exit, no destructor call of the library stops, and in an exit of enough rounds the cleanup
key's destructor runs in each of the counted rounds with the number of the round, sets the key again in all but the
last of them, unmaps the thread's region in the last one, and leaves the key without a value; after that it does not
run again. -/
theorem Run.exit_order (run : Run (after ++ .exited t s :: before) w) (sole : Sole rt (after ++ .exited t s :: before))
    (began : .began n t call record ∈ before) (undisturbed : Undisturbed t after) :
    s.holding = some ⟨record.region,rt⟩ ∧ ∃ key, Exit rt key (record.region.mapping rt) s t after w := by
  obtain ⟨key,found,-,stack,leaving⟩ := run.leaving sole began undisturbed
  refine ⟨stack,key,found,leaving.flows,?_,fun exiting idle enough => (leaving.ended exiting idle enough).1,
    fun exiting idle enough => (leaving.ended exiting idle enough).2⟩
  rintro later earlier number seen rfl
  rw [List.append_assoc] at run sole
  obtain ⟨w₁,run₁,kept⟩ := run.earlier
  cases run₁ with
  | @step _ w₀ _ _ run₀ going step =>
    have sole₀ : Sole rt (earlier ++ .exited t s :: before) :=
      sole.mono fun e member => List.mem_append_right _ (List.mem_cons_of_mem _ member)
    have undisturbed₀ : Undisturbed t earlier :=
      undisturbed.mono fun e member => List.mem_append_right _ (List.mem_cons_of_mem _ member)
    obtain ⟨key₀,found₀,-,-,leaving₀⟩ := run₀.leaving sole₀ began undisturbed₀
    have same : key₀ = key := by
      have later := kept rt key₀ (step.keeps found₀)
      simpa [found] using later.symm
    subst same
    cases step with
    | foreign _ idle₀ => exact leaving₀.sees idle₀

/-- Thread 1 sets a key of its own and exits. -/
def leave (s : Trace × World) : Trace × World :=
  (.exited 1 (s.2.image.threads 1) :: .keyed 1 3 9 :: s.1,
    ((s.2.setValue 1 (.foreign 3) 9).setFrames 1 []).setLife 1 (.exiting 0 []))

/-- A round in which the destructor of that key runs first and sets the key again. -/
def lap (rounds : Nat) (s : Trace × World) : Trace × World :=
  let began := s.2.setLife 1 (.exiting (rounds + 1) [.foreign 3,.cleanup ⟨1⟩ ⟨7⟩])
  let called := (began.setValue 1 (.foreign 3) 0).setLife 1 (.exiting (rounds + 1) [.cleanup ⟨1⟩ ⟨7⟩])
  let again := called.setValue 1 (.foreign 3) 9
  let value := again.values 1 (.cleanup ⟨1⟩ ⟨7⟩)
  turns (fun _ => false) 1 200
    (.fired again.count 1 ⟨1⟩ ⟨7⟩ value (again.image.threads 1) :: .keyed 1 3 9 ::
      .foreign 1 3 (began.image.threads 1) :: .round 1 :: s.1,
      ((again.setValue 1 (.cleanup ⟨1⟩ ⟨7⟩) 0).push 1 (.destroy value)).setLife 1 (.exiting (rounds + 1) []))

/-- Thread 1 began its exit with the stack, and nothing has disturbed it since. -/
def Leaves (before : Trace) (stack : ThreadStack) (trace : Trace) : Prop :=
  ∃ after, trace = after ++ .exited 1 stack :: before ∧ Undisturbed 1 after

theorem Leaves.cons {stack : ThreadStack} (leaves : Leaves before stack trace) (calls : ∀ n op, e ≠ .called n 1 op)
    (sets : ∀ n rt key value cause, e ≠ .answered n 1 (.host rt (.setCleanupValue key value)) (.error cause)) :
    Leaves before stack (e :: trace) := by
  obtain ⟨after,past,undisturbed⟩ := leaves
  refine ⟨e :: after,by simp [past],fun member => ?_,fun member => ?_⟩
  · rcases List.mem_cons.mp member with same | earlier
    · exact calls _ _ same.symm
    · exact undisturbed.calls earlier
  · rcases List.mem_cons.mp member with same | earlier
    · exact sets _ _ _ _ _ same.symm
    · exact undisturbed.sets earlier

theorem Leaves.turns {stack : ThreadStack} {k : Nat} {s : Trace × World} (leaves : Leaves before stack s.1) :
    Leaves before stack (turns (fun _ => false) 1 k s).1 := by
  apply turns_keep (P := fun later => Leaves before stack later.1) leaves
  intro later e w leaves took
  obtain ⟨n,op,q,next,below,-,-,rfl,-⟩ | ⟨n,op,result,below,-,rfl,-⟩ := turn_cases took
  · apply leaves.cons (by simp)
    intro n' rt key value cause same
    cases q with
    | host rt call => cases call <;> cases same
    | state | mapper | enter => cases same
  · exact leaves.cons (by simp) (by simp)

/-- One runtime, and one other key on thread 1. -/
structure Lapping (before : Trace) (stack : ThreadStack) (s : Trace × World) : Prop where
  going : Going s
  sole : Sole ⟨1⟩ s.1
  foreign : ∀ number, number ≠ 3 → s.2.values 1 (.foreign number) = 0
  leaves : Leaves before stack s.1

section
variable {s : Trace × World} {stack : ThreadStack}

theorem Lapping.keys (lapping : Lapping before stack s)
    (found : (s.2.image.runtimes ⟨1⟩).key = some ⟨7⟩) (k : Key) (present : s.2.values 1 k ≠ 0) :
    k ∈ [.foreign 3,.cleanup ⟨1⟩ ⟨7⟩] := by
  obtain ⟨alone,course⟩ := lapping.going.run.course lapping.sole
  cases k with
  | foreign number =>
    by_cases same : number = 3
    · simp [same]
    · exact absurd (lapping.foreign number same) present
  | cleanup rt key =>
    have kept := (course.values present).2
    obtain rfl := alone.of_key kept
    obtain rfl : key = ⟨7⟩ := by simpa [found] using kept.symm
    simp

theorem Lapping.lap {rounds : Nat} (lapping : Lapping before stack s) (idle : s.2.frames 1 = [])
    (due : s.2.lives 1 = .exiting rounds [] ∧ (s.2.image.runtimes ⟨1⟩).key = some ⟨7⟩ ∧
      s.2.values 1 (.foreign 3) ≠ 0 ∧ s.2.values 1 (.cleanup ⟨1⟩ ⟨7⟩) ≠ 0) : Lapping before stack (lap rounds s) where
  going := by
    obtain ⟨exiting,found,other,own⟩ := due
    apply Going.turns
    have lives (w : World) (todo : List Key) : (w.setLife 1 (.exiting (rounds + 1) todo)).lives 1 =
      .exiting (rounds + 1) todo := by simp [setLife]
    have round := lapping.going.still (.round exiting idle (by decide) (lapping.keys found)) rfl
    have called := round.still (.foreign (lives _ _) idle other) rfl
    have again : Going (.keyed 1 3 9 :: _,_) :=
      called.still (.key (by simp [Outside,setLife,setValue,idle]) (by simp [setLife])) rfl
    have due := lives ((s.2.setLife 1 (.exiting (rounds + 1) [.foreign 3,.cleanup ⟨1⟩ ⟨7⟩])).setValue 1 (.foreign 3) 0)
      [.cleanup ⟨1⟩ ⟨7⟩]
    exact again.fire due idle (by simpa [setLife,setValue] using own)
  sole := by
    apply Sole.turns
    repeat apply Sole.cons _ (by simp) (by simp)
    exact lapping.sole
  foreign number different := by
    unfold World.lap
    simp [foreign_turns,setLife,push,setFrames,setValue,different,lapping.foreign]

  leaves := by
    apply Leaves.turns
    repeat apply Leaves.cons _ (by simp) (by simp)
    exact lapping.leaves

theorem leave_lapping (ongoing : Going s) (sole : Sole ⟨1⟩ s.1) (alive : s.2.lives 1 = .alive)
    (idle : s.2.frames 1 = []) (foreign : ∀ number, s.2.values 1 (.foreign number) = 0) :
    Lapping (.keyed 1 3 9 :: s.1) (s.2.image.threads 1) (leave s) where
  going := by
    have keyed : Going (.keyed 1 3 9 :: _,_) :=
      ongoing.still (.key (by simp [Outside,idle]) (by simp [alive])) rfl
    exact keyed.step (.exit alive (by simp [setValue,idle])) rfl (by simp [Open])
  sole := by
    repeat apply Sole.cons _ (by simp) (by simp)
    exact sole
  foreign number different := by simp [leave,setLife,setFrames,setValue,different,foreign]
  leaves := ⟨[],rfl,⟨by simp,by simp⟩⟩

end

/-- As many rounds as the library counts. -/
def departure : Trace × World := lap 3 (lap 2 (lap 1 (lap 0 (leave settlement))))

theorem departure_lapping : Lapping (.keyed 1 3 9 :: settlement.1) (settlement.2.image.threads 1) departure := by
  have foreign (number : Nat) : settlement.2.values 1 (.foreign number) = 0 := by
    unfold settlement arrive perform
    simp [foreign_turns,setLife,push,setFrames,first]
  have left := leave_lapping settlement_going settlement_sole (by decide +kernel) (settlement_idle 1) foreign
  have once : Lapping _ _ (lap 0 (leave settlement)) := left.lap rfl (by decide +kernel)
  have twice : Lapping _ _ (lap 1 (lap 0 (leave settlement))) := once.lap rfl (by decide +kernel)
  have thrice : Lapping _ _ (lap 2 (lap 1 (lap 0 (leave settlement)))) := twice.lap rfl (by decide +kernel)
  exact thrice.lap rfl (by decide +kernel)

theorem departure_exit_order : ∃ after key, ∃ record : Handoff,
    departure.1 = after ++ .exited 1 (settlement.2.image.threads 1) :: .keyed 1 3 9 :: settlement.1 ∧
      departure.2.lives 1 = .exiting 4 [] ∧ departure.2.frames 1 = [] ∧
        Exit ⟨1⟩ key (record.region.mapping ⟨1⟩) (settlement.2.image.threads 1) 1 after departure.2 := by
  obtain ⟨after,past,undisturbed⟩ := departure_lapping.leaves
  have run := departure_lapping.going.run
  have sole := departure_lapping.sole
  rw [past] at run sole
  have began : ∃ n call record, .began n 1 call record ∈ .keyed 1 3 9 :: settlement.1 := by
    refine ⟨_,_,_,List.mem_cons_of_mem _ (mem_turns List.mem_cons_self)⟩
  obtain ⟨n,call,record,began⟩ := began
  obtain ⟨-,key,exit⟩ := run.exit_order sole began undisturbed
  exact ⟨after,key,record,past,by decide +kernel,rfl,exit⟩

end World
end GuardedStack
