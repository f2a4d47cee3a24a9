import GuardedStack.Proofs.Contest
import GuardedStack.Proofs.Tenure

/-! Runtimes that share threads. A destructor call reaches the key and the mapping of whoever owns the stack that it finds.
On a thread whose stack no initialization has written that is the runtime whose key was fired and whose region the
thread began with, and the region is unmapped in the last round of the exit. -/
namespace GuardedStack

theorem Untouched.made {m : Mapping} {trace : World.Trace} (untouched : Untouched m trace) : ∃ e ∈ trace, e.Maps m := by
  induction trace with
  | nil => exact untouched.elim
  | cons e earlier ih =>
    rcases untouched with maps | ⟨-,before⟩
    · exact ⟨e,.head _,maps⟩
    · obtain ⟨e',member,maps⟩ := ih before
      exact ⟨e',List.mem_cons_of_mem _ member,maps⟩

namespace World

/-- What the destructor call `n` for the value, which found the stack `s`, does to keys and to mappings. -/
structure Reach (trace : Trace) (w : World) (n : Nat) (t : ThreadId) (value : UInt64) (s : ThreadStack) : Prop where
  /-- It sets the key of the stack's owner to the number of the next round. -/
  sets : ∀ {t' rt key v reply}, .answered n t' (.host rt (.setCleanupValue key v)) reply ∈ trace →
    s.owner = some rt ∧ (w.image.runtimes rt).key = some key ∧ value < destructorRounds ∧ v = value + 1
  /-- It unmaps the stack's region, which the owner's mapper has made. -/
  unmaps : ∀ {t' rt addr len reply}, .answered n t' (.mapper rt (.unmap addr len)) reply ∈ trace →
    (∃ h, s.holding = some h ∧ h.mapping = ⟨rt,addr,len⟩) ∧ (∃ e ∈ trace, e.Maps ⟨rt,addr,len⟩) ∧ destructorRounds ≤ value
  /-- It asks no seam for anything else. -/
  only : ∀ {t' q reply}, .answered n t' q reply ∈ trace → q.Foreign →
    (∃ rt key v, q = .host rt (.setCleanupValue key v)) ∨ ∃ rt addr len, q = .mapper rt (.unmap addr len)
  /-- Once it is over, it has done one of the two for the stack that it found. -/
  acts : ∀ {t' op result h}, .returned n t' op result ∈ trace → s.holding = some h →
    value < destructorRounds ∧ (∃ key, .answered n t (.host h.owner (.setCleanupValue key (value + 1))) (.ok ()) ∈ trace) ∨
      destructorRounds ≤ value ∧ .answered n t (.mapper h.owner (.unmap h.mapping.addr h.mapping.len)) (.ok ()) ∈ trace

/-- The destructor call `n` sets no key but the one of `rt`, and unmaps nothing but `m`. -/
structure Confined (trace : Trace) (n : Nat) (rt : RuntimeId) (key : CleanupKey) (m : Mapping) : Prop where
  sets : ∀ {t rt' key' v reply}, .answered n t (.host rt' (.setCleanupValue key' v)) reply ∈ trace → rt' = rt ∧ key' = key
  unmaps : ∀ {t rt' addr len reply}, .answered n t (.mapper rt' (.unmap addr len)) reply ∈ trace → ⟨rt',addr,len⟩ = m

structure Isolation (trace : Trace) (w : World) : Prop where
  reach : ∀ {n t rt key value s}, .fired n t rt key value s ∈ trace → Reach trace w n t value s
  /-- If no initialization has written the thread's stack before the key is fired, then the thread began with a region of
  the key's runtime, which it still has, and the call keeps to that runtime. -/
  confined : ∀ {after before n t rt key value s}, trace = after ++ .fired n t rt key value s :: before →
    Trace.Clean before t →
    ∃ m call record, .began m t call record ∈ before ∧ record.runtime = rt ∧ s.holding = some record.holding ∧
      (w.image.runtimes rt).key = some key ∧ value ≠ 0 ∧ value ≤ destructorRounds ∧
        Confined trace n rt key (record.region.mapping rt)
  /-- After an exit of enough rounds the thread's region is unmapped, by the call for the last of the counted rounds. -/
  released : ∀ {m t call record rounds}, .began m t call record ∈ trace → trace.Clean t → w.lives t = .exiting rounds [] →
    w.frames t = [] → destructorRounds.toNat ≤ rounds →
    ∃ n key s, .fired n t record.runtime key destructorRounds s ∈ trace ∧
      .answered n t (.mapper record.runtime (.unmap record.holding.mapping.addr record.holding.mapping.len)) (.ok ()) ∈ trace

variable {trace : Trace} {w w' : World} {t : ThreadId} {n : Nat} {rt : RuntimeId} {key : CleanupKey} {value : UInt64}
  {s : ThreadStack}

section
variable (run : Run trace w)
include run

/-- Outside code that starts no runtime on a thread leaves its stack alone. -/
theorem Run.clean (uncalled : ∀ n rt, .called n t (.start rt) ∉ trace) : trace.Clean t := by
  intro k rt s won wrote
  have mark : Milestone.exchanged rt true ∈ trace.milestones k := mem_milestones.mpr ⟨t,_,_,won,rfl⟩
  obtain ⟨rt',-,-,told⟩ := run.attempt mark (by simp)
  have called := (told.attempts rfl).2.2
  rw [run.answered_home won] at called
  exact uncalled k rt' called

/-- A key that was set is the one that its runtime keeps. -/
theorem Run.set_key {v : UInt64} {reply : (HostCall.setCleanupValue key v).Reply}
    (member : .answered n t (.host rt (.setCleanupValue key v)) reply ∈ trace) :
    (w.image.runtimes rt).key = some key := by
  induction run with
  | nil => cases member
  | @step trace w e w' run going step ih =>
    refine step.keeps ?_
    rcases List.mem_cons.mp member with rfl | earlier
    · cases step with
      | answer here answers =>
        obtain ⟨-,known,-⟩ := run.inv.may here
        exact run.inv.phased.lookup known
    · exact ih earlier

/-- A mapping that was unmapped was made before, by the same mapper. -/
theorem Run.made {addr len : UInt64} {reply : (MapperCall.unmap addr len).Reply}
    (member : .answered n t (.mapper rt (.unmap addr len)) reply ∈ trace) : ∃ e ∈ trace, e.Maps ⟨rt,addr,len⟩ := by
  induction run with
  | nil => cases member
  | @step trace w e w' run going step ih =>
    suffices before : ∃ e ∈ trace, e.Maps ⟨rt,addr,len⟩ by
      obtain ⟨e',made,maps⟩ := before
      exact ⟨e',List.mem_cons_of_mem _ made,maps⟩
    rcases List.mem_cons.mp member with rfl | earlier
    · cases step with
      | answer here answers =>
        have held : (trace.custodies n).hand = .held ⟨rt,addr,len⟩ := run.inv.may here
        have holds : (w.estate trace).Holds (.call n) ⟨rt,addr,len⟩ := .call (congrArg Hand.mapping held)
        exact (Trace.untouched_of_mem (run.inv.exact_.held holds)).made
    · exact ih earlier

/-- A destructor call is watched from the beginning. -/
theorem Run.departs (fired : .fired n t rt key value s ∈ trace) :
    trace.homes n = t ∧ ∃ acted, errands.track trace n = some (.departure value s acted) := by
  obtain ⟨home,x,track,acted,rfl⟩ := run.opened (v := errands) (P := fun x => ∃ acted, x = .departure value s acted)
    fired rfl ⟨_,rfl,false,rfl⟩ (fun ⟨acted,same⟩ => same ▸ Errand.after_departure value s acted _ _)
  exact ⟨by simpa [Event.homes] using home,acted,track⟩

/-- It is in progress until it returns, for it never waits for a thread's function. -/
theorem Run.pursued (fired : .fired n t rt key value s ∈ trace) :
    w.Running t n ∨ ∃ op result, .returned n t op result ∈ trace := by
  obtain ⟨rfl,acted,track⟩ := run.departs fired
  rcases run.whereabouts errands_covers (fun _ _ _ _ _ => trivial) track with running | ⟨-,returned | entered⟩
  · exact .inl running
  · exact .inr returned
  · obtain ⟨_,_,_,_,may,-⟩ := entered
    exact may.elim

theorem Run.reach (fired : .fired n t rt key value s ∈ trace) : Reach trace w n t value s := by
  obtain ⟨home,acted,track⟩ := run.departs fired
  have known := run.known track
  refine ⟨?_,?_,?_,?_⟩
  · intro t' rt' key' v reply member
    obtain ⟨-,owner,early,next⟩ := known.asked rfl member
    exact ⟨owner,run.set_key member,early,next⟩
  · intro t' rt' addr len reply member
    obtain ⟨-,late,found⟩ := known.asked rfl member
    exact ⟨found,run.made member,late⟩
  · intro t' q reply member foreign
    have may := known.asked rfl member
    cases q with
    | state => exact foreign.elim
    | enter => exact may.elim
    | host rt call =>
      cases call with
      | setCleanupValue key v => exact .inl ⟨rt,key,v,rfl⟩
      | _ => exact may.elim
    | mapper rt call =>
      cases call with
      | unmap addr len => exact .inr ⟨rt,addr,len,rfl⟩
      | _ => exact may.elim
  · intro t' op result h returned holds
    obtain ⟨-,ends⟩ := run.ended errands_covers (fun _ _ _ _ _ => trivial) returned
    rcases ends _ track with bare | rfl
    · simp [holds] at bare
    · obtain ⟨t₀,h',holds',done⟩ := known.acted rfl
      obtain rfl : h = h' := Option.some.inj (holds.symm.trans holds')
      rcases done with ⟨early,key',set⟩ | ⟨late,unmapped⟩
      · obtain rfl : t₀ = t := (run.answered_home set).symm.trans home
        exact .inl ⟨early,key',set⟩
      · obtain rfl : t₀ = t := (run.answered_home unmapped).symm.trans home
        exact .inr ⟨late,unmapped⟩

end

theorem Reach.confined {record : Handoff} (reach : Reach trace w n t value s) (holds : s.holding = some record.holding)
    (found : (w.image.runtimes record.runtime).key = some key) :
    Confined trace n record.runtime key (record.region.mapping record.runtime) where
  sets member := by
    obtain ⟨owner,kept,-⟩ := reach.sets member
    obtain rfl : record.runtime = _ := by simpa [ThreadStack.owner,holds,Handoff.holding] using owner
    exact ⟨rfl,Option.some.inj (kept.symm.trans found)⟩
  unmaps member := by
    obtain ⟨⟨h,holds',same⟩,-⟩ := reach.unmaps member
    obtain rfl : record.holding = h := Option.some.inj (holds.symm.trans holds')
    exact same.symm

/-- However many runtimes start, spawn and clean up on the same threads. -/
theorem Run.isolation (run : Run trace w) : Isolation trace w where
  reach := run.reach
  confined {after before n t rt key value s} past clean := by
    subst past
    have reach := run.reach (List.mem_append_right after (.head before))
    obtain ⟨w₀,run₀,kept⟩ := run.earlier
    have clean₀ : Trace.Clean (.fired n t rt key value s :: before) t := by
      intro k rt' s' won wrote
      exact clean (List.mem_of_ne_of_mem (by simp) won) (List.mem_of_ne_of_mem (by simp) wrote)
    obtain ⟨record,begun,rfl,found,holds,positive,small⟩ := (run₀.tenure clean₀).fired (.head _)
    obtain ⟨m,call,began⟩ := Trace.began before begun
    have found := kept _ _ found
    exact ⟨m,call,record,began,rfl,holds,found,positive,small,reach.confined holds found⟩
  released {m t call record rounds} began clean exiting idle enough := by
    have begun := (run.begun began).1
    have tenure := run.tenure clean
    obtain ⟨key,-,stage⟩ := tenure.stage run.inv run.lineage begun
    obtain ⟨n,rt,key',s,fired⟩ := stage.finished (tenure.idle idle) exiting enough
    obtain ⟨record',begun',rfl,-,holds,-⟩ := tenure.fired fired
    obtain rfl : record = record' := Option.some.inj (begun.symm.trans begun')
    rcases run.pursued fired with ⟨f,member,-⟩ | ⟨op,result,returned⟩
    · simp [idle] at member
    · rcases (run.reach fired).acts returned holds with ⟨early,-⟩ | ⟨-,unmapped⟩
      · exact absurd early (by decide)
      · exact ⟨n,key',s,fired,unmapped⟩

/-- Thread 0 initializes two runtimes and spawns thread 1 with the first of them. -/
def meeting : Trace × World :=
  let once := perform (fun _ => false) 0 (.start ⟨1⟩) ([],first)
  let twice := perform (fun _ => false) 0 (.start ⟨2⟩) once
  let spawned := perform (fun _ => false) 0 (.spawn ⟨1⟩ 0 none ⟨5⟩ 6) twice
  arrive (fun _ => false) 1 ⟨0,none,.fromRecord,84963280⟩ spawned

/-- A round of thread 1's exit, which calls the first runtime's destructor. -/
def tour (rounds : Nat) (s : Trace × World) : Trace × World :=
  let began := s.2.setLife 1 (.exiting (rounds + 1) [.cleanup ⟨1⟩ ⟨7⟩])
  let value := began.values 1 (.cleanup ⟨1⟩ ⟨7⟩)
  turns (fun _ => false) 1 200
    (.fired began.count 1 ⟨1⟩ ⟨7⟩ value (began.image.threads 1) :: .round 1 :: s.1,
      ((began.setValue 1 (.cleanup ⟨1⟩ ⟨7⟩) 0).push 1 (.destroy value)).setLife 1 (.exiting (rounds + 1) []))

/-- Thread 1 is the first runtime's, calls nothing itself and has no other keys. -/
structure Touring (s : Trace × World) : Prop where
  going : Going s
  uncalled : ∀ n rt, .called n 1 (.start rt) ∉ s.1
  foreign : ∀ number, s.2.values 1 (.foreign number) = 0
  began : ∃ m call record, .began m 1 call record ∈ s.1 ∧ record.runtime = ⟨1⟩

theorem uncalled_turns {refuses : Request → Bool} {t t' : ThreadId} {k : Nat} {s : Trace × World}
    (uncalled : ∀ n rt, .called n t (.start rt) ∉ s.1) (n : Nat) (rt : RuntimeId) :
    .called n t (.start rt) ∉ (turns refuses t' k s).1 := by
  apply turns_keep (P := fun later => .called n t (.start rt) ∉ later.1) (uncalled n rt)
  intro later e w uncalled took
  obtain ⟨_,_,_,_,_,-,-,rfl,-⟩ | ⟨_,_,_,_,-,rfl,-⟩ := turn_cases took
  · simpa using uncalled
  · simpa using uncalled

theorem Touring.tour {rounds : Nat} {s : Trace × World} (touring : Touring s) (idle : s.2.frames 1 = [])
    (due : s.2.lives 1 = .exiting rounds [] ∧ (s.2.image.runtimes ⟨1⟩).key = some ⟨7⟩ ∧
      s.2.values 1 (.cleanup ⟨1⟩ ⟨7⟩) ≠ 0) : Touring (tour rounds s) where
  going := by
    obtain ⟨exiting,found,present⟩ := due
    obtain ⟨m,call,record,began,owner⟩ := touring.began
    have begun := (touring.going.run.begun began).1
    have tenure := touring.going.run.tenure (touring.going.run.clean touring.uncalled)
    have only (k : Key) (present : s.2.values 1 k ≠ 0) : k ∈ [Key.cleanup ⟨1⟩ ⟨7⟩] := by
      cases k with
      | foreign number => exact absurd (touring.foreign number) present
      | cleanup rt key =>
        obtain ⟨record',begun',rfl,found'⟩ := tenure.values present
        obtain rfl : record = record' := Option.some.inj (begun.symm.trans begun')
        rw [owner] at found' ⊢
        obtain rfl : key = ⟨7⟩ := by simpa [found] using found'.symm
        exact .head _
    have round := touring.going.still (.round exiting idle (by decide) only) rfl
    exact (round.fire (by simp [setLife]) idle present).turns
  uncalled := uncalled_turns fun n rt => by simpa using touring.uncalled n rt
  foreign number := by
    unfold World.tour
    simp [foreign_turns,setLife,push,setFrames,setValue,touring.foreign]
  began := by
    obtain ⟨m,call,record,began,owner⟩ := touring.began
    exact ⟨m,call,record,mem_turns (List.mem_cons_of_mem _ (List.mem_cons_of_mem _ began)),owner⟩

theorem meeting_going : Going meeting := by
  apply Going.arrive
  · apply Going.perform
    · apply Going.perform
      · exact first_going.perform (by simp [first]) trivial rfl
      · decide
      · trivial
      · rfl
    · decide
    · trivial
    · rfl
  · rfl
  · rfl
  · decide
  · exact ⟨_,_,rfl⟩

theorem meeting_idle : meeting.2.frames 1 = [] := by rfl

theorem meeting_began : ∃ m call record, .began m 1 call record ∈ meeting.1 ∧ record.runtime = ⟨1⟩ :=
  ⟨_,_,_,mem_turns List.mem_cons_self,by decide +kernel⟩

theorem meeting_uncalled (n : Nat) (rt : RuntimeId) : .called n 1 (.start rt) ∉ meeting.1 := by
  have one : ∀ n rt, .called n 1 (.start rt) ∉ (perform (fun _ => false) 0 (.start ⟨1⟩) ([],first)).1 :=
    uncalled_turns (by simp)
  have two : ∀ n rt, .called n 1 (.start rt) ∉ (perform (fun _ => false) 0 (.start ⟨2⟩) _).1 :=
    uncalled_turns (by simpa using one)
  have three : ∀ n rt, .called n 1 (.start rt) ∉ (perform (fun _ => false) 0 (.spawn ⟨1⟩ 0 none ⟨5⟩ 6) _).1 :=
    uncalled_turns (by simpa using two)
  exact uncalled_turns (by simpa using three) n rt

/-- Thread 1 begins its exit. -/
def quit (s : Trace × World) : Trace × World :=
  (.exited 1 (s.2.image.threads 1) :: s.1,(s.2.setFrames 1 []).setLife 1 (.exiting 0 []))

theorem Going.quit {s : Trace × World} (ongoing : Going s) (alive : s.2.lives 1 = .alive) (idle : s.2.frames 1 = []) :
    Going (quit s) :=
  ongoing.step (.exit alive (by simp [idle])) rfl (by simp [Open])

/-- Thread 1 has exited, with as many rounds as the library counts. -/
def parting : Trace × World := tour 3 (tour 2 (tour 1 (tour 0 (quit meeting))))

theorem parting_touring : Touring parting := by
  have left : Touring (quit meeting) := by
    obtain ⟨m,call,record,began,owner⟩ := meeting_began
    refine ⟨meeting_going.quit (by decide +kernel) meeting_idle,?_,?_,m,call,record,List.mem_cons_of_mem _ began,owner⟩
    · simpa [quit] using meeting_uncalled
    · intro number
      unfold quit meeting arrive perform
      simp [foreign_turns,setLife,push,setFrames,first]
  have once : Touring (tour 0 (quit meeting)) := left.tour rfl (by decide +kernel)
  have twice : Touring (tour 1 (tour 0 (quit meeting))) := once.tour rfl (by decide +kernel)
  have thrice : Touring (tour 2 (tour 1 (tour 0 (quit meeting)))) := twice.tour rfl (by decide +kernel)
  exact thrice.tour rfl (by decide +kernel)

theorem parting_isolation : Isolation parting.1 parting.2 ∧ parting.2.live.map Mapping.runtime = [⟨2⟩,⟨1⟩] ∧
    ∃ m call record n key s, .began m 1 call record ∈ parting.1 ∧ .fired n 1 record.runtime key destructorRounds s ∈ parting.1 ∧
      .answered n 1 (.mapper record.runtime (.unmap record.holding.mapping.addr record.holding.mapping.len)) (.ok ()) ∈
        parting.1 := by
  have isolation := Run.isolation parting_touring.going.run
  obtain ⟨m,call,record,began,-⟩ := parting_touring.began
  obtain ⟨n,key,s,fired,unmapped⟩ := isolation.released began
    (parting_touring.going.run.clean parting_touring.uncalled) (by decide +kernel) rfl (Nat.le_refl _)
  exact ⟨isolation,by decide +kernel,m,call,record,n,key,s,began,fired,unmapped⟩

end World
end GuardedStack
