import GuardedStack.Proofs.Ledger

/-! The order on each thread is kept, whether an operation begins, is answered or ends, and when the thread exits. -/
namespace GuardedStack

/-- The request crossed a seam in vain, and was not for an unmap. -/
def Request.Inert : (q : Request) → q.Reply → Prop
  | .state _, _ => False
  | .mapper _ (.map _ _), .ok _ => False
  | .mapper _ (.unmap _ _), _ => False
  | .host _ (.setCleanupValue _ _), .ok () => False
  | .host _ (.spawn _), code => code ≠ 0
  | _, _ => True

namespace Custody

variable {c : Custody} {q : Request} {reply : q.Reply}

theorem after_inert (inert : q.Inert reply) : c.after q reply = c.forget := by
  cases q with
  | state call => exact inert.elim
  | enter entry arg => rfl
  | mapper rt call =>
    cases call with
    | pageSize | protect => rfl
    | unmap addr len => exact inert.elim
    | map len rights =>
      cases reply with
      | ok addr => exact inert.elim
      | error cause => rfl
  | host rt call =>
    cases call with
    | setCleanupValue key value =>
      cases reply with
      | ok done => exact inert.elim
      | error cause => rfl
    | spawn call => exact c.after_refused inert
    | stackLimit | defaultAttributes | requestedAttributes | installInterception | createCleanupKey => rfl

theorem after_foreign (foreign : q.Foreign) : (c.after q reply).seen = none := by
  cases q with
  | state call => exact foreign.elim
  | enter entry arg => rfl
  | mapper rt call =>
    cases call with
    | map len rights => cases reply <;> rfl
    | pageSize | protect | unmap => rfl
  | host rt call =>
    cases call with
    | setCleanupValue key value => cases reply <;> rfl
    | spawn call =>
      simp only [after]
      split <;> rfl
    | stackLimit | defaultAttributes | requestedAttributes | installInterception | createCleanupKey => rfl

theorem write_seen (s : ThreadStack) : (c.write s).seen = some s := by
  unfold write
  split <;> rfl

/-- What a thread has seen of its own stack stays true while only the thread acts. -/
theorem after_state {p : Image} {t : ThreadId} {call : StateCall} {s : ThreadStack}
    (known : ∀ s, c.seen = some s → p.threads t = s)
    (seen : (c.after (.state call) (p.answer t call).1).seen = some s) : (p.answer t call).2.threads t = s := by
  cases call with
  | stack => exact Option.some.inj seen
  | setStack s' =>
    simp only [after,write_seen,Option.some.injEq] at seen
    simp [Image.answer,seen]
  | setPhase rt phase =>
    refine known s ?_
    cases phase <;> simp only [after,setPhase] at seen
    · exact seen
    · exact seen
    · split at seen <;> exact seen
  | store addr bytes =>
    refine known s ?_
    simp only [after,store] at seen
    split at seen <;> exact seen
  | phase rt =>
    refine known s ?_
    simp only [after] at seen
    split at seen <;> exact seen
  | exchangePhase rt expected desired =>
    have kept : c.seen = some s := by
      simp only [after] at seen
      split at seen <;> exact seen
    simp only [Image.answer]
    split <;> exact known s kept
  | key | keepKey | load | verbosity | setVerbosity | environment | emit => exact known s seen

/-- Nothing becomes a thread's own operation by what it does. -/
theorem base_of_after (may : c.May q) (base : (c.after q reply).role.Base) : c.role.Base := by
  cases q with
  | enter entry arg => exact base
  | mapper rt call =>
    cases call with
    | map len rights => cases reply <;> exact base
    | pageSize | protect | unmap => exact base
  | host rt call =>
    cases call with
    | setCleanupValue key value =>
      obtain ⟨-,-,⟨role,-⟩ | ⟨pass,role,-,-⟩⟩ := may <;> simp [role,Role.Base]
    | spawn call =>
      simp only [after] at base
      split at base <;> exact base
    | stackLimit | defaultAttributes | requestedAttributes | installInterception | createCleanupKey => exact base
  | state call =>
    cases call with
    | setStack s =>
      simp only [after,write] at base
      split at base
      next role => simp [role,Role.Base]
      · exact base
      · exact base
      next role => simp [role,Role.Base]
      · exact base
    | setPhase rt phase =>
      cases phase <;> simp only [after,setPhase] at base
      · exact base.elim
      · exact base.elim
      · split at base
        · exact base.elim
        · exact base
    | store addr bytes =>
      simp only [after,store] at base
      split at base <;> exact base
    | phase rt =>
      simp only [after] at base
      split at base <;> exact base
    | exchangePhase rt expected desired =>
      simp only [after] at base
      split at base
      · exact base.elim
      · exact base
    | keepKey => exact base.elim
    | stack | key | load | verbosity | setVerbosity | environment | emit => exact base

end Custody

theorem Operation.Ends.hand {op : Operation} {c : Custody} {result : op.Result} (ends : op.Ends c result) :
    c.hand = .empty := by
  cases op with
  | start rt => cases result <;> exact ends.1
  | spawn | body | destroy => exact ends.1

namespace World

variable {trace : Trace} {w w' : World} {t : ThreadId} {custodies custodies' : Nat → Custody}

namespace Tidy

theorem congr {fs : List Frame} (tidy : Tidy custodies fs)
    (same : ∀ f ∈ fs, custodies' f.number = custodies f.number) : Tidy custodies' fs := by
  induction fs with
  | nil => trivial
  | cons f below ih =>
    obtain ⟨follows,outer,bottom,rest⟩ := tidy
    have here := same f List.mem_cons_self
    refine ⟨?_,outer,?_,ih rest fun g member => same g (List.mem_cons_of_mem _ member)⟩
    · rwa [here]
    · rwa [here]

theorem follows {fs : List Frame} (tidy : Tidy custodies fs) {f : Frame} (member : f ∈ fs) :
    f.rest.Follows custody f.operation.Ends (custodies f.number) := by
  induction fs with
  | nil => cases member
  | cons g below ih =>
    rcases List.mem_cons.mp member with rfl | later
    · exact tidy.1
    · exact ih tidy.2.2.2 later

end Tidy

theorem Orderly.waits (orderly : w.Orderly trace) (outside : w.Outside t) {f : Frame} (member : f ∈ w.frames t) :
    f.Waits := by
  have tidy := orderly.tidy t
  unfold Outside at outside
  cases here : w.frames t with
  | nil => simp [here] at member
  | cons g below =>
    rw [here] at member outside tidy
    rcases List.mem_cons.mp member with rfl | later
    · exact outside
    · exact (tidy.2.1 f later).1

/-- The only request that writes a thread's stack. -/
theorem answer_threads (p : Image) (t : ThreadId) (call : StateCall) :
    (p.answer t call).2.threads = p.threads ∨
      ∃ s, call = .setStack s ∧ (p.answer t call).2.threads = replace p.threads t s := by
  cases call with
  | setStack s => exact .inr ⟨s,rfl,rfl⟩
  | exchangePhase rt expected desired =>
    simp only [Image.answer]
    split <;> exact .inl rfl
  | _ => exact .inl rfl

/-- What an answer changes. -/
inductive Change (w : World) (t : ThreadId) : (q : Request) → q.Reply → World → Prop
  | state (call : StateCall) :
      Change w t (.state call) (w.image.answer t call).1 { w with image := (w.image.answer t call).2 }
  | map {rt : RuntimeId} {len addr : UInt64} {rights : Rights} : (⟨rt,addr,len⟩ : Mapping).Proper →
      (∀ m ∈ w.live, (⟨rt,addr,len⟩ : Mapping).Apart m) →
      Change w t (.mapper rt (.map len rights)) (.ok addr) { w with live := ⟨rt,addr,len⟩ :: w.live }
  | unmap {rt : RuntimeId} {addr len : UInt64} : Change w t (.mapper rt (.unmap addr len)) (.ok ())
      { w with live := w.live.filter (· ≠ ⟨rt,addr,len⟩) }
  /-- An unmap that fails. -/
  | stuck {rt : RuntimeId} {addr len : UInt64} {cause : Fault} :
      Change w t (.mapper rt (.unmap addr len)) (.error cause) w
  | set {rt : RuntimeId} {key : CleanupKey} {value : UInt64} :
      Change w t (.host rt (.setCleanupValue key value)) (.ok ()) (w.setValue t (.cleanup rt key) value)
  | accept {rt : RuntimeId} {call : SpawnCall} :
      Change w t (.host rt (.spawn call)) 0 { w with accepted := call :: w.accepted }
  | nothing {q : Request} {reply : q.Reply} : q.Inert reply → Change w t q reply w

theorem untouched_inert {n : Nat} {q : Request} {reply : q.Reply} {before : List Mapping} (inert : q.Inert reply) :
    Event.untouched (.answered n t q reply) before = before := by
  unfold Event.untouched
  split
  next same =>
    cases same
    exact inert.elim
  next same =>
    cases same
    exact inert.elim
  · rfl

namespace Answers

variable {q : Request} {reply : q.Reply} (answers : w.Answers t q reply w')
include answers

theorem change : w.Change t q reply w' := by
  cases q with
  | state call =>
    obtain ⟨rfl,rfl⟩ := answers
    exact .state call
  | enter entry arg =>
    obtain rfl : w' = w := answers
    exact .nothing trivial
  | mapper rt call =>
    cases call with
    | pageSize =>
      obtain ⟨-,rfl⟩ := answers
      exact .nothing trivial
    | protect addr len rights =>
      obtain rfl : w' = w := answers
      exact .nothing trivial
    | map len rights =>
      cases reply with
      | ok addr =>
        obtain ⟨proper,apart,rfl⟩ := answers
        exact .map proper apart
      | error cause =>
        obtain rfl : w' = w := answers
        exact .nothing trivial
    | unmap addr len =>
      cases reply with
      | ok done =>
        obtain rfl : w' = { w with live := w.live.filter (· ≠ ⟨rt,addr,len⟩) } := answers
        exact .unmap
      | error cause =>
        obtain rfl : w' = w := answers
        exact .stuck
  | host rt call =>
    cases call with
    | setCleanupValue key value =>
      cases reply with
      | ok done =>
        obtain rfl : w' = w.setValue t (.cleanup rt key) value := answers
        exact .set
      | error cause =>
        obtain rfl : w' = w := answers
        exact .nothing trivial
    | spawn call =>
      have result : w' = if reply = 0 then { w with accepted := call :: w.accepted } else w := answers
      by_cases accepted : reply = 0
      · rw [if_pos accepted] at result
        subst result accepted
        exact .accept
      · rw [if_neg accepted] at result
        subst result
        exact .nothing accepted
    | stackLimit | defaultAttributes | requestedAttributes | installInterception | createCleanupKey =>
      obtain rfl : w' = w := answers
      exact .nothing trivial

theorem foreign (foreign : q.Foreign) : w'.image = w.image := by
  cases answers.change with
  | state => exact foreign.elim
  | map | unmap | stuck | set | accept | nothing => rfl

/-- Whatever is answered, no operation begins or ends. -/
theorem kept : w'.frames = w.frames ∧ w'.count = w.count ∧ w'.lives = w.lives := by
  cases answers.change with
  | state | map | unmap | stuck | set | accept | nothing => exact ⟨rfl,rfl,rfl⟩

theorem threads : w'.image.threads = w.image.threads ∨
    ∃ s, q = .state (.setStack s) ∧ w'.image.threads = replace w.image.threads t s := by
  cases answers.change with
  | state call =>
    rcases answer_threads w.image t call with same | ⟨s,rfl,wrote⟩
    · exact .inl same
    · exact .inr ⟨s,rfl,wrote⟩
  | map | unmap | stuck | set | accept | nothing => exact .inl rfl

/-- The only request that writes memory. -/
theorem memory : w'.image.memory = w.image.memory ∨
    ∃ addr bytes, q = .state (.store addr bytes) ∧ w'.image.memory = w.image.memory.store addr bytes := by
  cases answers.change with
  | state call =>
    cases call with
    | store addr bytes => exact .inr ⟨addr,bytes,rfl,rfl⟩
    | exchangePhase rt expected desired =>
      simp only [Image.answer]
      split <;> exact .inl rfl
    | _ => exact .inl rfl
  | map | unmap | stuck | set | accept | nothing => exact .inl rfl

theorem values : w'.values = w.values ∨
    ∃ rt key value, q = .host rt (.setCleanupValue key value) ∧ w' = w.setValue t (.cleanup rt key) value := by
  cases answers.change with
  | set => exact .inr ⟨_,_,_,rfl,rfl⟩
  | state | map | unmap | stuck | accept | nothing => exact .inl rfl

/-- What is in progress is so after an answer. -/
theorem running {n k : Nat} {op : Operation} {next : q.Reply → Program op.Result} {below : List Frame} {t' : ThreadId}
    (here : w.frames t = ⟨n,op,.ask q next⟩ :: below) (running : w.Running t' k) :
    (w'.setFrames t (⟨n,op,next reply⟩ :: below)).Running t' k := by
  obtain ⟨f,member,number⟩ := running
  by_cases mine : t' = t
  · rw [mine,here] at member
    rcases List.mem_cons.mp member with rfl | later
    · exact ⟨⟨n,op,next reply⟩,by simp [setFrames,mine],number⟩
    · exact ⟨f,by simp [setFrames,mine,later],number⟩
  · exact ⟨f,by simpa [setFrames,mine,answers.kept.1] using member,number⟩

end Answers

section
variable (orderly : w.Orderly trace)
include orderly

/-- An operation begins on a thread on which nothing of the library runs. -/
theorem Orderly.begin {e : Event} {op : Operation} {c : Custody} (outside : w.Outside t)
    (taken : e.custodies trace.custodies = replace trace.custodies w.count c)
    (at_ : e.homes trace.homes = replace trace.homes w.count t)
    (follows : op.program.Follows custody op.Ends c) (base : c.role.Base → w.frames t = [])
    (known : ∀ s, c.seen = some s → w.image.threads t = s) (image : w'.image = w.image)
    (frames : w'.frames = (w.push t op).frames) (count : w'.count = w.count + 1)
    (lives : ∀ t', w'.lives t' = .unborn → t' ≠ t ∧ w.lives t' = .unborn)
    (accepted : ∀ call ∈ w'.accepted, call ∈ w.accepted) : w'.Orderly (e :: trace) := by
  have here : w'.frames t = ⟨w.count,op,op.program⟩ :: w.frames t := by simp [frames,push,setFrames]
  have there {t'} (other : t' ≠ t) : w'.frames t' = w.frames t' := by simp [frames,push,setFrames,other]
  have mine : Trace.custodies (e :: trace) w.count = c := by simp [Trace.custodies,taken]
  have others {k} (other : k ≠ w.count) : Trace.custodies (e :: trace) k = trace.custodies k := by
    simp [Trace.custodies,taken,other]
  have houses {k} (other : k ≠ w.count) : Trace.homes (e :: trace) k = trace.homes k := by
    simp [Trace.homes,at_,other]
  have house : Trace.homes (e :: trace) w.count = t := by simp [Trace.homes,at_]
  have before {t' f} (member : f ∈ w.frames t') : f.number ≠ w.count := Nat.ne_of_lt (orderly.old member)
  have cases_ {t' f} (member : f ∈ w'.frames t') :
      f = ⟨w.count,op,op.program⟩ ∧ t' = t ∨ f ∈ w.frames t' := by
    by_cases same : t' = t
    · subst same
      rw [here] at member
      exact (List.mem_cons.mp member).imp (⟨·,rfl⟩) id
    · exact .inr (there same ▸ member)
  have kept {t'} : Tidy (Trace.custodies (e :: trace)) (w.frames t') :=
    (orderly.tidy t').congr fun f member => others (before member)
  refine ⟨?_,?_,?_,?_,?_,?_,?_,?_,?_⟩
  · intro k above
    rw [count] at above
    rw [others (by omega)]
    exact orderly.fresh k (by omega)
  · intro t' f member
    rw [count]
    rcases cases_ member with ⟨rfl,-⟩ | old
    · exact Nat.lt_succ_self _
    · exact Nat.lt_succ_of_lt (orderly.old old)
  · intro t' f member
    rcases cases_ member with ⟨rfl,rfl⟩ | old
    · exact house
    · rw [houses (before old)]
      exact orderly.home old
  · intro t'
    by_cases same : t' = t
    · subst same
      rw [here]
      refine ⟨by rwa [mine],fun g member => ⟨orderly.waits outside member,before member⟩,?_,kept⟩
      rwa [mine]
    · rw [there same]
      exact kept
  · intro t' f below s shape idle seen
    rw [image]
    by_cases same : t' = t
    · subst same
      rw [here] at shape
      obtain ⟨rfl,-⟩ := List.cons.inj shape
      exact known s (by rwa [mine] at seen)
    · rw [there same] at shape
      have member : f ∈ w.frames t' := by simp [shape]
      rw [others (before member)] at seen
      exact orderly.seen shape idle seen
  · intro k busy
    by_cases same : k = w.count
    · subst same
      rw [house,here]
      exact ⟨_,List.mem_cons_self,rfl⟩
    · rw [others same] at busy
      obtain ⟨f,member,number⟩ := orderly.busy busy
      refine ⟨f,?_,number⟩
      rw [houses same]
      by_cases home : trace.homes k = t
      · rw [home] at member ⊢
        rw [here]
        exact List.mem_cons_of_mem _ member
      · rwa [there home]
  · intro t'
    rw [image]
    exact orderly.sound t'
  · intro t' unborn
    obtain ⟨other,unborn⟩ := lives t' unborn
    rw [image,there other]
    exact orderly.unborn unborn
  · exact fun call member => orderly.routine call (accepted call member)

/-- A request of the innermost operation is answered. -/
theorem Orderly.answer {n : Nat} {op : Operation} {q : Request} {next : q.Reply → Program op.Result}
    {below : List Frame} {reply : q.Reply} (here : w.frames t = ⟨n,op,.ask q next⟩ :: below)
    (answers : w.Answers t q reply w') (expected : (trace.custodies n).Expects q reply)
    (accepted : ∀ call ∈ w'.accepted, call.start = .fromRecord) :
    (w'.setFrames t (⟨n,op,next reply⟩ :: below)).Orderly (.answered n t q reply :: trace) := by
  obtain ⟨frames,count,lives⟩ := answers.kept
  obtain ⟨⟨may,after⟩,outer,bottom,rest⟩ : Tidy _ (⟨n,op,.ask q next⟩ :: below) := here ▸ orderly.tidy t
  have mine : Trace.custodies (.answered n t q reply :: trace) n = (trace.custodies n).after q reply := by
    simp [Trace.custodies,Event.custodies]
  have others {k} (other : k ≠ n) : Trace.custodies (.answered n t q reply :: trace) k = trace.custodies k := by
    simp [Trace.custodies,Event.custodies,other]
  have head : ⟨n,op,.ask q next⟩ ∈ w.frames t := by simp [here]
  have home : trace.homes n = t := orderly.home head
  have elsewhere {t' f} (other : t' ≠ t) (member : f ∈ w.frames t') : f.number ≠ n := by
    rintro rfl
    exact other ((orderly.home member).symm.trans home)
  have now : (w'.setFrames t (⟨n,op,next reply⟩ :: below)).frames t = ⟨n,op,next reply⟩ :: below := by
    simp [setFrames]
  have there {t'} (other : t' ≠ t) :
      (w'.setFrames t (⟨n,op,next reply⟩ :: below)).frames t' = w.frames t' := by
    simp [setFrames,other,frames]
  have numbers {t' f} (member : f ∈ (w'.setFrames t (⟨n,op,next reply⟩ :: below)).frames t') :
      ∃ g ∈ w.frames t', g.number = f.number := by
    by_cases same : t' = t
    · subst same
      rw [now] at member
      rcases List.mem_cons.mp member with rfl | later
      · exact ⟨_,head,rfl⟩
      · exact ⟨f,by simp [here,later],rfl⟩
    · exact ⟨f,there same ▸ member,rfl⟩
  refine ⟨?_,?_,?_,?_,?_,?_,?_,?_,accepted⟩
  · intro k above
    have above : w.count ≤ k := by simpa [setFrames,count] using above
    have bound : n < w.count := orderly.old head
    rw [others (by omega)]
    exact orderly.fresh k above
  · intro t' f member
    obtain ⟨g,old,same⟩ := numbers member
    simpa [setFrames,count,← same] using orderly.old old
  · intro t' f member
    obtain ⟨g,old,same⟩ := numbers member
    rw [← same]
    exact orderly.home old
  · intro t'
    by_cases same : t' = t
    · subst same
      rw [now]
      refine ⟨?_,outer,?_,rest.congr fun f member => others (outer f member).2⟩
      · rw [mine]
        exact after reply _ ⟨expected,rfl⟩
      · rw [mine]
        exact fun base => bottom (Custody.base_of_after may base)
    · rw [there same]
      exact (orderly.tidy t').congr fun f member => others (elsewhere same member)
  · intro t' f below' s shape idle seen
    by_cases same : t' = t
    · subst same
      rw [now] at shape
      obtain ⟨rfl,-⟩ := List.cons.inj shape
      rw [mine] at seen
      cases q with
      | state call =>
        obtain ⟨rfl,rfl⟩ := answers
        exact Custody.after_state (fun s known => orderly.seen here id known) seen
      | mapper rt call | host rt call | enter entry arg =>
        rw [Custody.after_foreign (by trivial)] at seen
        cases seen
    · rw [there same] at shape
      have member : f ∈ w.frames t' := by simp [shape]
      rw [others (elsewhere same member)] at seen
      have known := orderly.seen shape idle seen
      rcases answers.threads with unmoved | ⟨s',-,wrote⟩
      · simpa [setFrames,unmoved] using known
      · simpa [setFrames,wrote,same] using known
  · intro k busy
    apply answers.running here
    by_cases same : k = n
    · subst same
      exact ⟨_,home ▸ head,rfl⟩
    · exact orderly.busy (by rwa [others same] at busy)
  · intro t'
    have sound := orderly.sound t'
    show (w'.image.threads t').Sound
    rcases answers.threads with unmoved | ⟨s',rfl,wrote⟩
    · rwa [unmoved]
    · by_cases same : t' = t
      · simpa [wrote,same] using may.1
      · simpa [wrote,same] using sound
  · intro t' unborn
    have unborn : w.lives t' = .unborn := by simpa [setFrames,lives] using unborn
    obtain ⟨empty,none⟩ := orderly.unborn unborn
    have other : t' ≠ t := by
      rintro rfl
      simp [here] at none
    refine ⟨?_,(there other).trans none⟩
    show w'.image.threads t' = _
    rcases answers.threads with unmoved | ⟨s',-,wrote⟩
    · rwa [unmoved]
    · simpa [wrote,other] using empty

/-- An operation ends, with an empty hand. -/
theorem Orderly.ret {n : Nat} {op : Operation} {result : op.Result} {below : List Frame}
    (here : w.frames t = ⟨n,op,.done result⟩ :: below) :
    (w.setFrames t below).Orderly (.returned n t op result :: trace) := by
  obtain ⟨ends,outer,-,rest⟩ : Tidy _ (⟨n,op,.done result⟩ :: below) := here ▸ orderly.tidy t
  have empty : (trace.custodies n).hand = .empty := Operation.Ends.hand ends
  have now : (w.setFrames t below).frames t = below := by simp [setFrames]
  have there {t'} (other : t' ≠ t) : (w.setFrames t below).frames t' = w.frames t' := by simp [setFrames,other]
  have old {t' f} (member : f ∈ (w.setFrames t below).frames t') : f ∈ w.frames t' := by
    by_cases same : t' = t
    · subst same
      rw [now] at member
      simp [here,member]
    · exact there same ▸ member
  refine ⟨orderly.fresh,fun member => orderly.old (old member),fun member => orderly.home (old member),
    ?_,?_,?_,orderly.sound,?_,orderly.routine⟩
  · intro t'
    by_cases same : t' = t
    · subst same
      rwa [now]
    · rw [there same]
      exact orderly.tidy t'
  · intro t' f below' s shape idle seen
    by_cases same : t' = t
    · subst same
      rw [now] at shape
      exact absurd (outer f (by simp [shape])).1 idle
    · rw [there same] at shape
      exact orderly.seen shape idle seen
  · intro k busy
    obtain ⟨f,member,rfl⟩ := orderly.busy busy
    refine ⟨f,?_,rfl⟩
    show f ∈ (w.setFrames t below).frames (trace.homes f.number)
    by_cases same : trace.homes f.number = t
    · rw [same] at member ⊢
      rw [here] at member
      rw [now]
      rcases List.mem_cons.mp member with rfl | later
      · exact absurd empty busy
      · exact later
    · rwa [there same]
  · intro t' unborn
    obtain ⟨bare,none⟩ := orderly.unborn unborn
    have other : t' ≠ t := by
      rintro rfl
      simp [here] at none
    exact ⟨bare,(there other).trans none⟩

/-- A thread leaves its function: whatever waits for the function has an empty hand. -/
theorem Orderly.exit {s : ThreadStack} {rounds : Nat} {todo : List Key}
    (entered : ∀ f ∈ w.frames t, f.Entered) :
    ((w.setFrames t []).setLife t (.exiting rounds todo)).Orderly (.exited t s :: trace) := by
  have empty {f} (member : f ∈ w.frames t) : (trace.custodies f.number).hand = .empty := by
    have follows := (orderly.tidy t).follows member
    have waits := entered f member
    unfold Frame.Entered at waits
    split at waits
    next entry arg next asks =>
      rw [asks] at follows
      exact follows.1.1
    · exact waits.elim
  have there {t'} (other : t' ≠ t) : (w.setFrames t []).frames t' = w.frames t' := by simp [setFrames,other]
  have now : (w.setFrames t []).frames t = [] := by simp [setFrames]
  have old {t' f} (member : f ∈ (w.setFrames t []).frames t') : t' ≠ t ∧ f ∈ w.frames t' := by
    by_cases same : t' = t
    · subst same
      simp [now] at member
    · exact ⟨same,there same ▸ member⟩
  refine ⟨orderly.fresh,fun member => orderly.old (old member).2,fun member => orderly.home (old member).2,
    ?_,?_,?_,orderly.sound,?_,orderly.routine⟩
  · intro t'
    show Tidy _ ((w.setFrames t []).frames t')
    by_cases same : t' = t
    · subst same
      rw [now]
      trivial
    · rw [there same]
      exact orderly.tidy t'
  · intro t' f below s' shape
    have shape : (w.setFrames t []).frames t' = f :: below := shape
    have member : f ∈ (w.setFrames t []).frames t' := by simp [shape]
    obtain ⟨other,-⟩ := old member
    exact orderly.seen ((there other).symm.trans shape)
  · intro k busy
    obtain ⟨f,member,rfl⟩ := orderly.busy busy
    refine ⟨f,?_,rfl⟩
    show f ∈ (w.setFrames t []).frames (trace.homes f.number)
    by_cases same : trace.homes f.number = t
    · exact absurd (empty (same ▸ member)) busy
    · rwa [there same]
  · intro t' unborn
    by_cases same : t' = t
    · subst same
      simp [setLife] at unborn
    · obtain ⟨bare,none⟩ := orderly.unborn (t := t') (by simpa [setLife,setFrames,same] using unborn)
      exact ⟨bare,(there same).trans none⟩

/-- Nothing is asked or begun. -/
theorem Orderly.still {e : Event} (taken : e.custodies trace.custodies = trace.custodies)
    (at_ : e.homes trace.homes = trace.homes) (frames : w'.frames = w.frames) (count : w'.count = w.count)
    (lives : ∀ t, w'.lives t = .unborn → w.lives t = .unborn) (accepted : w'.accepted = w.accepted)
    (threads : ∀ t, w'.image.threads t = w.image.threads t ∨
      w.Outside t ∧ w.lives t ≠ .unborn ∧ (w'.image.threads t).Sound) : w'.Orderly (e :: trace) := by
  have same : Trace.custodies (e :: trace) = trace.custodies := taken
  have house : Trace.homes (e :: trace) = trace.homes := at_
  refine ⟨?_,?_,?_,?_,?_,?_,?_,?_,?_⟩
  · rw [same,count]
    exact orderly.fresh
  · rw [frames,count]
    exact orderly.old
  · rw [house,frames]
    exact orderly.home
  · rw [same,frames]
    exact orderly.tidy
  · intro t f below s shape idle seen
    rw [frames] at shape
    rw [same] at seen
    rcases threads t with unmoved | ⟨outside,-,-⟩
    · rw [unmoved]
      exact orderly.seen shape idle seen
    · exact absurd (orderly.waits outside (by simp [shape])) idle
  · rw [same,house,frames]
    exact orderly.busy
  · intro t
    rcases threads t with unmoved | ⟨-,-,sound⟩
    · rw [unmoved]
      exact orderly.sound t
    · exact sound
  · intro t unborn
    rw [frames]
    rcases threads t with unmoved | ⟨-,born,-⟩
    · rw [unmoved]
      exact orderly.unborn (lives t unborn)
    · exact absurd (lives t unborn) born
  · rw [accepted]
    exact orderly.routine

end

end World
end GuardedStack
