import GuardedStack.Proofs.Contest

/-! The initialization of a runtime as a state machine. One attempt at a time has the phase, at most one ever succeeds,
and all others leave nothing behind. A runtime becomes ready only with its key, and whoever looks the key up has found
the runtime ready. -/
namespace GuardedStack.World

open Milestone

/-- The state machine at any time of a run. -/
structure Initialization (rt : RuntimeId) (trace : Trace) (w : World) : Prop where
  /-- At most one attempt succeeds. -/
  once : ∀ {n k t t' r r'}, .returned n t (.start rt) (.ok r) ∈ trace →
    .returned k t' (.start rt) (.ok r') ∈ trace → n = k ∧ r = r'
  /-- One attempt at a time is between its exchange of the phase and its storing of the next. -/
  alone : ∀ {n k}, trace.Pending rt n → trace.Pending rt k → n = k
  pending : (w.image.runtimes rt).phase = .initializing ↔ ∃ n, trace.Pending rt n
  /-- What any attempt asks for first is the exchange. -/
  claims : ∀ {n t}, .called n t (.start rt) ∈ trace → trace.milestones n = [] →
    ∀ {t' q reply}, .answered n t' q reply ∉ trace
  /-- The exchange is won exactly if the runtime is not initialized. Otherwise nothing at all changes but for the
  attempt, which is over with its fault. -/
  exchange : ∀ {n t won w'}, w.Step (.answered n t (.claim rt) won) w' →
    (won = true ↔ (w.image.runtimes rt).phase = .uninitialized) ∧
      (won = false → ∃ next below, w.frames t = ⟨n,.start rt,.ask (.claim rt) next⟩ :: below ∧
        w' = w.setFrames t (⟨n,.start rt,.done (.error .alreadyInitialized)⟩ :: below))
  /-- An attempt that lost the exchange has asked for nothing else and fails with that fault. -/
  refused : ∀ {n}, exchanged rt false ∈ trace.milestones n →
    trace.milestones n = [exchanged rt false] ∧ (∀ {t q reply}, .answered n t q reply ∈ trace → q = .claim rt) ∧
      ∀ {t op result}, .returned n t op result ∈ trace →
        Event.returned n t op result = .returned n t (.start rt) (.error .alreadyInitialized)
  /-- A runtime is ready through one attempt, which has installed the main region on the calling thread, had thread
  creation intercepted, created the key and kept it, each with success. -/
  opened : w.Ready rt → ∃ n t h key, h.owner = rt ∧ .called n t (.start rt) ∈ trace ∧
    trace.milestones n = ready h key ∧ (w.image.runtimes rt).key = some key ∧
    ∀ {t' q reply}, .answered n t' q reply ∈ trace → t' = t
  succeeded : ∀ {n t r}, .returned n t (.start rt) (.ok r) ∈ trace → w.Ready rt ∧ ∃ key, trace.milestones n = ready ⟨r,rt⟩ key
  stays : w.Ready rt → ∀ {e w'}, w.Step e w' → w'.Ready rt
  /-- Where a key was created, the runtime is ready through that attempt, or the attempt is just about to keep the key or
  to make the runtime ready. -/
  created : ∀ {n key}, Milestone.created rt key ∈ trace.milestones n →
    (∃ h, h.owner = rt ∧ trace.milestones n = ready h key) ∨
      ∃ t f, f ∈ w.frames t ∧ f.number = n ∧ (f.Asks (.state (.keepKey rt key)) ∨ f.Asks (.state (.setPhase rt .ready)))
  single : ∀ {n k key key'}, Milestone.created rt key ∈ trace.milestones n →
    Milestone.created rt key' ∈ trace.milestones k → n = k ∧ key = key'
  /-- Whoever looks the key up finds it. -/
  lookup : ∀ {t f}, f ∈ w.frames t → f.Asks (.state (.key rt)) → w.Ready rt ∧ (w.image.runtimes rt).key ≠ none
  keyed : ∀ {t f}, f ∈ w.frames t → f.rest ≠ .stop (.aborted .noKey)

variable {trace : Trace} {w w' : World} {t : ThreadId} {n : Nat} {rt : RuntimeId}

section
variable (run : Run trace w)
include run

theorem Run.succeeded {r : Region} (member : .returned n t (.start rt) (.ok r) ∈ trace) :
    ∃ key, trace.milestones n = ready ⟨r,rt⟩ key := by
  obtain ⟨gone,ends⟩ := run.ended bidding_covers (fun _ _ _ _ _ => trivial) member
  obtain ⟨b,track⟩ := run.bidder gone.1
  obtain ⟨key,rfl⟩ := ends b track
  obtain ⟨-,same,-⟩ := (run.told track).attempts rfl
  exact ⟨key,same.symm⟩

theorem Run.exchange {won : Bool} (step : w.Step (.answered n t (.claim rt) won) w') :
    (won = true ↔ (w.image.runtimes rt).phase = .uninitialized) ∧
      (won = false → ∃ next below, w.frames t = ⟨n,.start rt,.ask (.claim rt) next⟩ :: below ∧
        w' = w.setFrames t (⟨n,.start rt,.done (.error .alreadyInitialized)⟩ :: below)) := by
  cases step with
  | @answer _ _ op _ next below _ w' here answers =>
    obtain ⟨⟨runtime,marks⟩,told,may,keeps⟩ := run.bid_top here
    have expects := run.inv.expects here answers
    obtain ⟨same,rfl⟩ := answers
    cases runtime with
    | none =>
      obtain common | ⟨rt',clash,-⟩ : Request.Common (.claim rt) ∨ ∃ rt', Request.claim rt = .state (.key rt') ∧ _ := may
      · exact common.elim
      · cases clash
    | some rt' =>
      obtain ⟨rfl,attempts⟩ : op = .start rt' ∧ Attempts rt' marks (.claim rt) := may
      obtain ⟨rfl,rfl⟩ := attempts.of_claim
      constructor
      · rw [same]
        simp only [Image.answer]
        split <;> simp_all
      · rintro rfl
        have busy : (w.image.runtimes rt).phase ≠ .uninitialized := by
          intro free
          simp [Image.answer,free] at same
        have finished := Bid.refused_done (keeps false _ ⟨expects,trivial,rfl⟩)
        refine ⟨next,below,here,?_⟩
        rw [finished]
        simp [Image.answer,busy]

theorem Run.refused (member : exchanged rt false ∈ trace.milestones n) :
    trace.milestones n = [exchanged rt false] ∧ (∀ {t q reply}, .answered n t q reply ∈ trace → q = .claim rt) ∧
      ∀ {t op result}, .returned n t op result ∈ trace →
        Event.returned n t op result = .returned n t (.start rt) (.error .alreadyInitialized) := by
  obtain ⟨rt',track,standing,told⟩ := run.attempt member (by simp)
  obtain ⟨rfl,same⟩ := standing.of_refused member
  refine ⟨same,told.refused rfl same,?_⟩
  intro t op result returned
  obtain ⟨-,ends⟩ := run.ended bidding_covers (fun _ _ _ _ _ => trivial) returned
  have ends := ends _ track
  rw [same] at ends
  cases op with
  | start rt' =>
    cases result with
    | ok region =>
      obtain ⟨key,clash⟩ := ends
      cases clash
    | error cause =>
      rcases ends with ⟨same,rfl⟩ | ⟨marks,undecided,clash⟩
      · cases same
        rfl
      · cases clash
  | spawn | body | destroy => cases ends

omit run in
theorem opened_ready {h : Holding} {key : CleanupKey} (same : trace.milestones n = ready h key) :
    stored h.owner .ready ∈ trace.milestones n := by
  rw [same]
  exact .head _

theorem Run.created {key : CleanupKey} (member : Milestone.created rt key ∈ trace.milestones n) :
    (∃ h, h.owner = rt ∧ trace.milestones n = ready h key) ∨ trace.Pending rt n ∧
      ∃ t f, f ∈ w.frames t ∧ f.number = n ∧ (f.Asks (.state (.keepKey rt key)) ∨ f.Asks (.state (.setPhase rt .ready))) := by
  obtain ⟨rt',-,standing,-⟩ := run.attempt member (by simp)
  obtain ⟨rfl,h,owner,marks⟩ := standing.of_created member
  subst owner
  rcases marks with same | same | same
  · have pending : trace.Pending h.owner n := by simp [Trace.Pending,same,installed]
    obtain ⟨t,f,frame,number,-,q,asks,attempts⟩ := run.pending_asks pending
    rw [same] at attempts
    exact .inr ⟨pending,t,f,frame,number,.inl (attempts.of_created ▸ asks)⟩
  · have pending : trace.Pending h.owner n := by simp [Trace.Pending,same,installed]
    obtain ⟨t,f,frame,number,-,q,asks,attempts⟩ := run.pending_asks pending
    rw [same] at attempts
    exact .inr ⟨pending,t,f,frame,number,.inr (attempts.of_kept ▸ asks)⟩
  · exact .inl ⟨h,rfl,same⟩

theorem Run.single {k : Nat} {key key' : CleanupKey} (member : Milestone.created rt key ∈ trace.milestones n)
    (member' : Milestone.created rt key' ∈ trace.milestones k) : n = k ∧ key = key' := by
  have contest : Contest rt trace w := run.contest
  have same : n = k := by
    rcases run.created member with ⟨h,rfl,ready⟩ | ⟨pending,-⟩
    · rcases run.created member' with ⟨h',owner,ready'⟩ | ⟨pending',-⟩
      · exact contest.first (opened_ready ready) (owner ▸ opened_ready ready')
      · exact (contest.apart pending' (opened_ready ready)).elim
    · rcases run.created member' with ⟨h',rfl,ready'⟩ | ⟨pending',-⟩
      · exact (contest.apart pending (opened_ready ready')).elim
      · exact contest.one pending pending'
  subst same
  refine ⟨rfl,?_⟩
  obtain ⟨rt',-,standing,-⟩ := run.attempt member (by simp)
  obtain ⟨rfl,h,owner,marks⟩ := standing.of_created member
  rcases marks with same | same | same
  all_goals simp_all [ready,installed]

theorem Run.lookup {f : Frame} (member : f ∈ w.frames t) (asks : f.Asks (.state (.key rt))) :
    w.Ready rt ∧ (w.image.runtimes rt).key ≠ none := by
  suffices ready : w.Ready rt from ⟨ready,run.inv.phased.keyed ready⟩
  obtain ⟨⟨runtime,marks⟩,told,keeps⟩ := run.bid member
  obtain ⟨next,rest⟩ := asks
  rw [rest] at keeps
  have may := keeps.1
  cases runtime with
  | none =>
    obtain common | ⟨rt',same,ready⟩ :
        Request.Common (.state (.key rt)) ∨ ∃ rt', Request.state (.key rt) = .state (.key rt') ∧ _ := may
    · exact common.elim
    · cases same
      exact run.inv.phased.learned ready
  | some rt' => exact absurd may.2 Attempts.not_key

theorem Run.initialization (rt : RuntimeId) : Initialization rt trace w where
  once {n k _ _ _ _} member member' := by
    obtain ⟨key,same⟩ := run.succeeded member
    obtain ⟨key',same'⟩ := run.succeeded member'
    have contest : Contest rt trace w := run.contest
    have one : n = k := contest.first (opened_ready same) (opened_ready same')
    subst one
    rw [same] at same'
    exact ⟨rfl,congrArg Holding.region (ready_inj same')⟩
  alone := run.contest.one
  pending := ⟨run.contest.busy,fun ⟨_,pending⟩ => run.contest.pending pending⟩
  claims member fresh := by
    obtain ⟨b,track⟩ := run.bidder (run.concerned member rfl)
    have told := run.told track
    have attempt := told.caller member
    exact fun {_ _ _} => told.silent attempt ((told.attempts attempt).2.1.trans fresh)
  exchange := run.exchange
  refused := run.refused
  opened ready := by
    obtain ⟨n,opened⟩ := run.contest.ready ready
    obtain ⟨rt',track,standing,told⟩ := run.attempt opened (by simp)
    obtain ⟨rfl,h,key,owner,same⟩ := standing.of_ready opened
    refine ⟨n,trace.homes n,h,key,owner,(told.attempts rfl).2.2,same,?_,fun member => (run.answered_home member).symm⟩
    subst owner
    exact run.contest.keyed (by rw [same]; simp [Milestone.ready])
  succeeded member := by
    obtain ⟨key,same⟩ := run.succeeded member
    exact ⟨run.contest.opened (opened_ready same),key,same⟩
  stays ready e w' step := by
    cases step with
    | answer here answers => exact run.inv.ready_answer here answers ready
    | _ => exact ready
  created member := (run.created member).imp_right And.right
  single := run.single
  lookup := run.lookup
  keyed {t f} member stops := by
    have follows := (run.inv.orderly.tidy t).follows member
    rw [stops] at follows
    exact follows rfl

end

/-- The main thread asks for a runtime, and asks again while the host is to intercept thread creation. -/
def reentry : Trace × World :=
  let outer := turns (fun _ => false) 0 10 ([.called 0 0 (.start ⟨1⟩)],first.push 0 (.start ⟨1⟩))
  perform (fun _ => false) 0 (.start ⟨1⟩) outer

theorem reentry_going : Going reentry := by
  apply Going.perform
  · exact (first_going.call (by simp [first]) trivial rfl).turns
  · decide
  · trivial
  · rfl

theorem reentry_initialization : Initialization ⟨1⟩ reentry.1 reentry.2 ∧ reentry.2.Ready ⟨1⟩ ∧
    exchanged ⟨1⟩ false ∈ reentry.1.milestones 1 ∧ Milestone.created ⟨1⟩ ⟨7⟩ ∈ reentry.1.milestones 0 :=
  ⟨reentry_going.run.initialization ⟨1⟩,by rfl,by decide,by decide⟩

end GuardedStack.World
