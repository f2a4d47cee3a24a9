import GuardedStack.Proofs.MainThread

/-! No leak. Between operations the live mappings are those of the runtime's own region, of the records that wait for
their threads, and of the threads whose last round has not come; each has one keeper. -/
namespace GuardedStack.World

/-- Nothing is in progress but the functions of threads. -/
def Boundary (w : World) : Prop := ∀ t, ∀ f ∈ w.frames t, f.Entered

inductive Keeper where
  | main
  | record (call : SpawnCall)
  | thread (t : ThreadId)
  deriving DecidableEq

inductive Keeps (rt : RuntimeId) (trace : Trace) (w : World) : Keeper → Mapping → Prop
  /-- The runtime was initialized. -/
  | main {n : Nat} {t : ThreadId} {region : Region} : .returned n t (.start rt) (.ok region) ∈ trace →
      Keeps rt trace w .main (region.mapping rt)
  /-- The record of a thread that was accepted and has not started. -/
  | record {call : SpawnCall} {record : Handoff} : call ∈ w.accepted →
      .decode (w.image.memory.load call.arg Handoff.size.toNat) = record →
      Keeps rt trace w (.record call) (record.region.mapping rt)
  /-- A thread that has started, before its last round. -/
  | thread {n : Nat} {t : ThreadId} {call : SpawnCall} {record : Handoff} : .began n t call record ∈ trace →
      ¬Released trace t → Keeps rt trace w (.thread t) (record.region.mapping rt)

structure Conserved (rt : RuntimeId) (trace : Trace) (w : World) : Prop where
  live : ∀ m, m ∈ w.live ↔ ∃ keeper, Keeps rt trace w keeper m
  once : w.live.Nodup
  one : ∀ {keeper m m'}, Keeps rt trace w keeper m → Keeps rt trace w keeper m' → m = m'
  exclusive : ∀ {keeper keeper' m}, Keeps rt trace w keeper m → Keeps rt trace w keeper' m → keeper = keeper'
  apart : ∀ {keeper keeper' m m'}, Keeps rt trace w keeper m → Keeps rt trace w keeper' m' → keeper ≠ keeper' →
    m.Apart m'
  /-- The main region stays, whatever becomes of its thread. -/
  main : ∀ {n t region}, .returned n t (.start rt) (.ok region) ∈ trace →
    (w.image.threads t).holding = some ⟨region,rt⟩
  installed : ∀ {n t call record}, .began n t call record ∈ trace → ¬Released trace t →
    (w.image.threads t).holding = some ⟨record.region,rt⟩
  released : ∀ {n t call record}, .began n t call record ∈ trace → Released trace t →
    (w.image.threads t).holding = none
  finished : ∀ {n t call record rounds}, .began n t call record ∈ trace → w.lives t = .exiting rounds [] →
    destructorRounds.toNat ≤ rounds → Released trace t

variable {rt : RuntimeId} {trace : Trace} {w : World} {t : ThreadId} {record : Handoff}

/-- The holder that a keeper is. -/
def Keeper.Is (trace : Trace) : Keeper → Holder → Prop
  | .main, o => ∃ t, o = .stack t ∧ trace.begun t = none
  | .record call, o => o = .record call
  | .thread t, o => o = .stack t ∧ trace.begun t ≠ none

theorem Keeper.Is.unique {k k' : Keeper} {o : Holder} (is : k.Is trace o) (is' : k'.Is trace o) : k = k' := by
  cases k with
  | main =>
    obtain ⟨t,rfl,native⟩ := is
    cases k' with
    | main => rfl
    | record call => cases is'
    | thread t' =>
      obtain ⟨same,started⟩ := is'
      cases same
      exact absurd native started
  | record call =>
    obtain rfl := is
    cases k' with
    | main =>
      obtain ⟨t,same,-⟩ := is'
      cases same
    | record call' =>
      cases is'
      rfl
    | thread t' => cases is'.1
  | thread t =>
    obtain ⟨rfl,started⟩ := is
    cases k' with
    | main =>
      obtain ⟨t',same,native⟩ := is'
      cases same
      exact absurd native started
    | record call => cases is'
    | thread t' =>
      cases is'.1
      rfl

section
variable (run : Run trace w) (sole : Sole rt trace) (boundary : w.Boundary)
include run boundary

theorem Boundary.empty (k : Nat) : (trace.custodies k).hand = .empty := by
  by_contra busy
  obtain ⟨f,member,rfl⟩ := run.inv.orderly.busy busy
  exact busy (run.inv.entered member (boundary _ f member)).1

include sole

/-- The thread of a record has its region until its last round. -/
theorem Boundary.rested (begun : trace.begun t = some record) :
    Released trace t ∧ (w.image.threads t).holding = none ∨
      ¬Released trace t ∧ (w.image.threads t).holding = some ⟨record.region,rt⟩ := by
  obtain ⟨alone,course⟩ := run.course sole
  have ready := course.ready begun
  have mine := alone.of_ready ready
  obtain ⟨key,found⟩ := Option.ne_none_iff_exists'.mp (run.inv.phased.keyed ready)
  rw [mine] at found
  have rested := (course.staged begun found).rested (course.entered run.inv (boundary t))
  rwa [Handoff.holding,mine] at rested

theorem Boundary.holder {keeper : Keeper} {m : Mapping} (keeps : Keeps rt trace w keeper m) :
    ∃ o, keeper.Is trace o ∧ (w.estate trace).Holds o m := by
  have inv := run.inv
  obtain ⟨alone,course⟩ := run.course sole
  have free (h : Holding) (k : Nat) : (w.estate trace).hands k ≠ .installed h := by
    have empty : (w.estate trace).hands k = .empty := boundary.empty run k
    simp [empty]
  cases keeps with
  | main returned =>
    obtain ⟨rfl,h,started,rfl⟩ := (run.rooted sole).returned returned
    obtain ⟨stack,native,ready⟩ := (run.rooted sole).kept started
    rw [← alone.of_ready ready]
    exact ⟨_,⟨_,rfl,native⟩,.stack (e := w.estate trace) stack (free h)⟩
  | @record call record member told =>
    obtain ⟨h,rests,record'⟩ := inv.record member
    obtain rfl : h = record := record'.symm.trans told
    have holds := Estate.Holds.record (e := w.estate trace) member rests
    rw [← alone.of_ready (inv.pledged.record holds)]
    exact ⟨_,rfl,holds⟩
  | thread began early =>
    obtain ⟨begun,-⟩ := run.begun began
    rcases boundary.rested run sole begun with ⟨late,-⟩ | ⟨-,stack⟩
    · exact absurd late early
    · exact ⟨_,⟨rfl,by simp [begun]⟩,.stack (e := w.estate trace) stack (free _)⟩

theorem Boundary.keeper {o : Holder} {m : Mapping} (holds : (w.estate trace).Holds o m) :
    ∃ keeper, Keeps rt trace w keeper m := by
  have inv := run.inv
  obtain ⟨alone,course⟩ := run.course sole
  cases holds with
  | @call k m hand =>
    have empty : (w.estate trace).hands k = .empty := boundary.empty run k
    simp [empty,Hand.mapping] at hand
  | @record call h member rests =>
    have mine := alone.of_ready (inv.pledged.record (.record (e := w.estate trace) member rests))
    obtain ⟨h',rests',record⟩ := inv.record member
    obtain rfl := rests'.unique rests
    exact ⟨.record call,mine ▸ .record member record⟩
  | @stack t h stack free =>
    have stack' : (w.image.threads t).holding = some h := stack
    cases begun : trace.begun t with
    | some record =>
      obtain ⟨n,call,began⟩ := trace.began begun
      rcases boundary.rested run sole begun with ⟨-,bare⟩ | ⟨early,installed⟩
      · simp [stack'] at bare
      · rw [stack'] at installed
        cases installed
        exact ⟨.thread t,.thread began early⟩
    | none =>
      obtain ⟨k,h',started,rfl,same⟩ := (run.rooted sole).native (.stack stack free) begun
      rcases (run.rooted sole).done started with ⟨f,member,rfl⟩ | returned
      · have settled := (inv.entered member (boundary _ f member)).2
        simp [settled] at started
      · rw [← same,Holding.mapping,alone.of_ready ((run.rooted sole).kept started).2.2]
        exact ⟨.main,.main returned⟩

/-- Whatever threads have spawned, started, failed and exited, between operations each live mapping has one keeper, and
nothing else is live. -/
theorem Run.conservation : Conserved rt trace w where
  live m := by
    have inv := run.inv
    obtain ⟨alone,-⟩ := run.course sole
    constructor
    · intro member
      rw [alone.live] at member
      obtain ⟨o,holds⟩ := alone.tight.covered (e := w.estate trace) member
      exact boundary.keeper run sole holds
    · rintro ⟨keeper,keeps⟩
      obtain ⟨o,-,holds⟩ := boundary.holder run sole keeps
      exact inv.mapped (inv.exact_.held holds)
  once := by
    obtain ⟨alone,-⟩ := run.course sole
    have exact_ := run.inv.exact_
    rw [alone.live]
    apply exact_.apart.imp_of_mem
    rintro m m' member - apart rfl
    exact apart.addr_ne (exact_.positive member) (exact_.positive member) rfl
  one {keeper m m'} keeps keeps' := by
    cases keeps with
    | main returned =>
      cases keeps' with
      | main returned' =>
        obtain ⟨-,h,started,rfl⟩ := (run.rooted sole).returned returned
        obtain ⟨-,h',started',rfl⟩ := (run.rooted sole).returned returned'
        obtain rfl := (run.rooted sole).one started started'
        obtain rfl : h = h' := by simpa [started] using started'
        rfl
    | record _ told =>
      cases keeps' with
      | record _ told' => rw [← told,← told']
    | thread began =>
      cases keeps' with
      | thread began' =>
        have same := (run.begun began).1.symm.trans (run.begun began').1
        cases same
        rfl
  exclusive keeps keeps' := by
    obtain ⟨o,is,holds⟩ := boundary.holder run sole keeps
    obtain ⟨o',is',holds'⟩ := boundary.holder run sole keeps'
    obtain rfl := run.inv.exact_.exclusive holds holds'
    exact is.unique is'
  apart {keeper keeper' m m'} keeps keeps' other := by
    obtain ⟨o,is,holds⟩ := boundary.holder run sole keeps
    obtain ⟨o',is',holds'⟩ := boundary.holder run sole keeps'
    apply run.inv.exact_.apart_of_holders holds holds'
    rintro rfl
    exact other (is.unique is')
  main returned := by
    obtain ⟨alone,-⟩ := run.course sole
    obtain ⟨rfl,h,started,rfl⟩ := (run.rooted sole).returned returned
    obtain ⟨stack,-,ready⟩ := (run.rooted sole).kept started
    rw [← alone.of_ready ready]
    exact stack
  installed began early := by
    rcases boundary.rested run sole (run.begun began).1 with ⟨late,-⟩ | ⟨-,stack⟩
    · exact absurd late early
    · exact stack
  released began late := by
    rcases boundary.rested run sole (run.begun began).1 with ⟨-,bare⟩ | ⟨early,-⟩
    · exact bare
    · exact absurd late early
  finished {n t call record rounds} began exiting enough := by
    obtain ⟨alone,course⟩ := run.course sole
    obtain ⟨begun,-⟩ := run.begun began
    have ready := course.ready begun
    obtain ⟨key,found⟩ := Option.ne_none_iff_exists'.mp (run.inv.phased.keyed ready)
    rw [alone.of_ready ready] at found
    exact (course.staged begun found).finished (course.entered run.inv (boundary t)) exiting enough

end

/-- The main thread has initialized a runtime and spawned two threads, and one of them has started. -/
def settlement : Trace × World :=
  let begun := perform (fun _ => false) 0 (.start ⟨1⟩) ([],first)
  let spawned := perform (fun _ => false) 0 (.spawn ⟨1⟩ 0 none ⟨5⟩ 6) begun
  let both := perform (fun _ => false) 0 (.spawn ⟨1⟩ 0 none ⟨5⟩ 7) spawned
  arrive (fun _ => false) 1 ⟨0,none,.fromRecord,43016144⟩ both

theorem settlement_going : Going settlement := by
  apply Going.arrive
  · apply Going.perform
    · apply Going.perform
      · exact first_going.perform (by simp [first]) trivial rfl
      · decide
      · trivial
      · rfl
    · decide
    · trivial
    · rfl
  · rfl
  · rfl
  · decide
  · exact ⟨_,_,rfl⟩

theorem settlement_sole : Sole ⟨1⟩ settlement.1 := by
  have nothing : Sole ⟨1⟩ [] := ⟨by simp,by simp⟩
  apply Sole.turns
  apply Sole.cons _ (by simp) (by simp)
  apply Sole.turns
  apply Sole.cons _ (by simp [Operation.runtime?]) (by simp)
  apply Sole.turns
  apply Sole.cons _ (by simp [Operation.runtime?]) (by simp)
  apply Sole.turns
  exact nothing.cons (by simp [Operation.runtime?]) (by simp)

theorem settlement_idle (t : ThreadId) : settlement.2.frames t = [] := by
  by_cases main : t = 0
  · subst main
    rfl
  · by_cases new : t = 1
    · subst new
      rfl
    · unfold settlement arrive perform
      simp [frames_turns,setLife,push,setFrames,main,new,first]

theorem settlement_conserved : Conserved ⟨1⟩ settlement.1 settlement.2 ∧ settlement.2.live.length = 3 :=
  ⟨settlement_going.run.conservation settlement_sole (by simp [Boundary,settlement_idle]),by decide⟩

end GuardedStack.World
