import GuardedStack.Proofs.Bids

/-! Attempts to initialize one runtime, over a whole run in which any number of them follow, overlap or interrupt one
another: what each has behind it, and how the phase and the key of the runtime follow from that. -/
namespace GuardedStack

open Milestone

/-- Requests that may change the runtime. -/
def StateCall.Moves (rt : RuntimeId) : StateCall → Prop
  | .exchangePhase rt' _ _ | .setPhase rt' _ | .keepKey rt' _ => rt' = rt
  | _ => False

/-- Milestones that say how far the runtime itself is. -/
def Milestone.Counts (rt : RuntimeId) : Milestone → Prop
  | exchanged rt' true | stored rt' _ | kept rt' _ => rt' = rt
  | _ => False

theorem Milestone.Counts.moves {rt : RuntimeId} {m : Milestone} {q : Request} {reply : q.Reply} (counts : m.Counts rt)
    (is : ofReply q reply = some m) : ∃ call, q = .state call ∧ call.Moves rt := by
  unfold ofReply at is
  split at is <;> cases is
  next rt' _ _ won =>
    cases won with
    | false => exact counts.elim
    | true => exact ⟨_,rfl,counts⟩
  all_goals first | exact ⟨_,rfl,counts⟩ | exact counts.elim

theorem answer_runtimes {rt : RuntimeId} {call : StateCall} (still : ¬call.Moves rt) (p : Image) (t : ThreadId) :
    (p.answer t call).2.runtimes rt = p.runtimes rt := by
  cases call with
  | exchangePhase rt' expected desired =>
    simp only [Image.answer]
    split
    · exact replace_other _ _ (Ne.symm still)
    · rfl
  | setPhase rt' phase | keepKey rt' key => exact replace_other _ _ (Ne.symm still)
  | _ => rfl

/-- What an attempt for the runtime can have behind it. -/
inductive Standing (rt : RuntimeId) : List Milestone → Prop
  | asking : Standing rt []
  | refused : Standing rt [exchanged rt false]
  | undecided {marks : List Milestone} : Undecided rt marks → Standing rt marks
  | keyed {h : Holding} {key : CleanupKey} : h.owner = rt →
      Standing rt (created rt key :: intercepted rt :: installed h)
  | armed {h : Holding} {key : CleanupKey} : h.owner = rt →
      Standing rt (kept rt key :: created rt key :: intercepted rt :: installed h)
  | opened {h : Holding} {key : CleanupKey} : h.owner = rt → Standing rt (ready h key)
  | failed {marks : List Milestone} : Undecided rt marks → Standing rt (stored rt .uninitialized :: marks)

theorem Attempts.standing {rt : RuntimeId} {marks : List Milestone} {q : Request} (attempts : Attempts rt marks q)
    (reply : q.Reply) : Standing rt ((ofReply q reply).toList ++ marks) := by
  cases attempts with
  | claim =>
    cases reply with
    | false => exact .refused
    | true => exact .undecided (undecided_won rt)
  | plain undecided plain =>
    rw [ofReply_plain plain]
    exact .undecided undecided
  | @install h owner =>
    subst owner
    exact .undecided (undecided_installed h)
  | @intercept h owner =>
    subst owner
    cases reply with
    | ok done => exact .undecided (undecided_installed h).intercepted
    | error cause => exact .undecided (undecided_installed h)
  | @create h owner =>
    subst owner
    cases reply with
    | ok key => exact .keyed rfl
    | error cause => exact .undecided (undecided_installed h).intercepted
  | keep owner => exact .armed owner
  | @open_ h key owner =>
    subst owner
    exact .opened rfl
  | report owner reports =>
    rcases reports with rfl | ⟨line,rfl⟩
    · exact .opened owner
    · exact .opened owner
  | detach undecided => exact .undecided (undecided.stacked _)
  | close undecided => exact .failed undecided

theorem Milestone.Undecided.won {rt : RuntimeId} {marks : List Milestone} (undecided : Undecided rt marks) :
    exchanged rt true ∈ marks := by
  obtain ⟨later,rfl,-⟩ := undecided
  simp

theorem Milestone.Undecided.mem {rt : RuntimeId} {marks : List Milestone} {m : Milestone} (undecided : Undecided rt marks)
    (member : m ∈ marks) : m = exchanged rt true ∨ (∃ s, m = .stacked s) ∨ m = .intercepted rt := by
  obtain ⟨later,rfl,only⟩ := undecided
  rcases List.mem_append.mp member with late | first
  · exact .inr (only m late)
  · exact .inl (List.mem_singleton.mp first)

/-- Only whoever has won the phase goes on. -/
theorem Attempts.won {rt : RuntimeId} {marks : List Milestone} {q : Request} (attempts : Attempts rt marks q) :
    marks = [] ∧ q = .claim rt ∨ exchanged rt true ∈ marks := by
  cases attempts with
  | claim => exact .inl ⟨rfl,rfl⟩
  | plain undecided | detach undecided | close undecided => exact .inr undecided.won
  | install => exact .inr (.head _)
  | intercept owner | create owner | keep owner | open_ owner | report owner =>
    subst owner
    exact .inr (by simp [ready,installed])

section
variable {rt rt' : RuntimeId} {marks : List Milestone} {key : CleanupKey}

theorem Standing.of_refused (standing : Standing rt marks) (member : exchanged rt' false ∈ marks) :
    rt' = rt ∧ marks = [exchanged rt false] := by
  cases standing with
  | refused => simpa using member
  | undecided undecided => simpa using undecided.mem member
  | failed undecided => simpa using undecided.mem (List.mem_of_ne_of_mem (by simp) member)
  | asking | keyed | armed | opened => simp [ready,installed] at member

theorem Standing.of_won (standing : Standing rt marks) (member : exchanged rt' true ∈ marks) : rt' = rt := by
  cases standing with
  | asking | refused => simp at member
  | undecided undecided => simpa using undecided.mem member
  | failed undecided => simpa using undecided.mem (List.mem_of_ne_of_mem (by simp) member)
  | keyed owner | armed owner => simpa [installed,owner] using member
  | opened owner => simpa [ready,installed,owner] using member

/-- Once the key is created the attempt is about to keep it or to store the phase, or it has stored it. -/
theorem Standing.of_created (standing : Standing rt marks) (member : created rt' key ∈ marks) :
    rt' = rt ∧ ∃ h : Holding, h.owner = rt ∧ (marks = created rt key :: intercepted rt :: installed h ∨
      marks = kept rt key :: created rt key :: intercepted rt :: installed h ∨ marks = ready h key) := by
  cases standing with
  | asking | refused => simp at member
  | undecided undecided => simpa using undecided.mem member
  | failed undecided => simpa using undecided.mem (List.mem_of_ne_of_mem (by simp) member)
  | @keyed h _ owner =>
    obtain ⟨rfl,rfl⟩ : rt' = rt ∧ key = _ := by simpa [installed] using member
    exact ⟨rfl,h,owner,.inl rfl⟩
  | @armed h _ owner =>
    obtain ⟨rfl,rfl⟩ : rt' = rt ∧ key = _ := by simpa [installed] using member
    exact ⟨rfl,h,owner,.inr (.inl rfl)⟩
  | @opened h _ owner =>
    subst owner
    obtain ⟨rfl,rfl⟩ : rt' = h.owner ∧ key = _ := by simpa [ready,installed] using member
    exact ⟨rfl,h,rfl,.inr (.inr rfl)⟩

theorem Standing.of_ready (standing : Standing rt marks) (member : stored rt' .ready ∈ marks) :
    rt' = rt ∧ ∃ h key, h.owner = rt ∧ marks = ready h key := by
  cases standing with
  | asking | refused => simp at member
  | undecided undecided => simpa using undecided.mem member
  | failed undecided => simpa using undecided.mem (List.mem_of_ne_of_mem (by simp) member)
  | keyed | armed => simp [installed] at member
  | @opened h key owner =>
    subst owner
    exact ⟨by simpa [ready,installed] using member,h,key,rfl,rfl⟩

theorem Attempts.not_enter {entry : EntryPoint} {arg : UInt64} : ¬Attempts rt marks (.enter entry arg) := by
  rintro ⟨⟩
  next plain => exact plain

theorem Attempts.of_claim {expected desired : Phase}
    (attempts : Attempts rt marks (.state (.exchangePhase rt' expected desired))) : rt' = rt ∧ marks = [] := by
  cases attempts with
  | claim => exact ⟨rfl,rfl⟩
  | plain undecided plain => exact plain.elim
  | report _ reports => rcases reports with clash | ⟨line,clash⟩ <;> cases clash

/-- With the key created there is one thing to do. -/
theorem Attempts.of_created {q : Request} (attempts : Attempts rt (created rt' key :: marks) q) :
    q = .state (.keepKey rt key) := by
  cases attempts with
  | keep owner => rfl
  | plain undecided | detach undecided | close undecided =>
    simpa using undecided.mem (m := created rt' key) (.head _)

theorem Attempts.of_kept {q : Request} (attempts : Attempts rt (kept rt' key :: marks) q) :
    q = .state (.setPhase rt .ready) := by
  cases attempts with
  | open_ owner => rfl
  | plain undecided | detach undecided | close undecided =>
    simpa using undecided.mem (m := kept rt' key) (.head _)

theorem Attempts.not_key : ¬Attempts rt marks (.state (.key rt')) := by
  rintro ⟨⟩
  next plain => exact plain
  next reports => rcases reports with clash | ⟨line,clash⟩ <;> cases clash

/-- Before it stores a phase an attempt has stored none, and it has won the exchange. -/
theorem Attempts.pending {phase : Phase} (attempts : Attempts rt marks (.state (.setPhase rt' phase))) :
    rt' = rt ∧ phase ≠ .initializing ∧ exchanged rt true ∈ marks ∧ ∀ phase', stored rt phase' ∉ marks := by
  cases attempts with
  | plain undecided plain => exact plain.elim
  | open_ owner =>
    subst owner
    exact ⟨rfl,by simp,by simp [installed],by simp [installed]⟩
  | report _ reports => rcases reports with clash | ⟨line,clash⟩ <;> cases clash
  | close undecided =>
    exact ⟨rfl,by simp,undecided.won,fun _ member => by simpa using undecided.mem member⟩

/-- An attempt that has won the phase and has not stored the next one waits for a reply. -/
theorem Bid.pending_asks {c : Custody} {rest : Program (Operation.start rt).Result} (standing : Standing rt marks)
    (keeps : bidding.Keeps (.start rt) rest c ⟨some rt,marks⟩) (won : exchanged rt true ∈ marks)
    (unstored : ∀ phase, stored rt phase ∉ marks) : ∃ q next, rest = .ask q next ∧ Attempts rt marks q := by
  cases rest with
  | ask q next => exact ⟨q,next,rfl,keeps.1.2⟩
  | stop reason => exact keeps.elim
  | done result =>
    have ends : Bid.Ends (.start rt) ⟨some rt,marks⟩ result := keeps
    cases result with
    | ok region =>
      obtain ⟨key,same⟩ := ends
      cases same
      exact absurd (.head _) (unstored .ready)
    | error cause =>
      rcases ends with ⟨same,-⟩ | ⟨marks',-,same⟩
      · cases same
        simp at won
      · cases same
        exact absurd (.head _) (unstored .uninitialized)

/-- An attempt that did not get the phase is over. -/
theorem Bid.refused_done {c : Custody} {rest : Program (Operation.start rt).Result}
    (keeps : bidding.Keeps (.start rt) rest c ⟨some rt,[exchanged rt false]⟩) :
    rest = .done (.error .alreadyInitialized) := by
  cases rest with
  | ask q next =>
    rcases Attempts.won keeps.1.2 with ⟨clash,-⟩ | won
    · cases clash
    · simp at won
  | stop reason => exact keeps.elim
  | done result =>
    have ends : Bid.Ends (.start rt) ⟨some rt,[exchanged rt false]⟩ result := keeps
    cases result with
    | ok region =>
      obtain ⟨key,same⟩ := ends
      cases same
    | error cause =>
      rcases ends with ⟨-,rfl⟩ | ⟨marks,undecided,same⟩
      · rfl
      · cases same

end

namespace World

/-- An operation's milestones so far, the newest first. -/
def Trace.milestones (trace : Trace) (n : Nat) : List Milestone := trace.counted ofReply n

variable {trace : Trace} {w w' : World} {e : Event} {t : ThreadId} {n : Nat} {rt : RuntimeId}

theorem milestones_cons : Trace.milestones (e :: trace) n = (e.counted ofReply n).toList ++ trace.milestones n := counted_cons

@[simp] theorem milestones_answered {q : Request} {reply : q.Reply} :
    Trace.milestones (.answered n t q reply :: trace) n = (ofReply q reply).toList ++ trace.milestones n := counted_answered

theorem milestones_other {k : Nat} (other : ¬e.Concerns k) : Trace.milestones (e :: trace) k = trace.milestones k :=
  counted_other other

theorem milestones_elsewhere {k : Nat} {q : Request} {reply : q.Reply} (other : k ≠ n) :
    Trace.milestones (.answered n t q reply :: trace) k = trace.milestones k :=
  milestones_other fun same => other same.symm

theorem mem_milestones {m : Milestone} :
    m ∈ trace.milestones n ↔ ∃ t q, ∃ reply : q.Reply, .answered n t q reply ∈ trace ∧ ofReply q reply = some m := mem_counted

/-- What the history says of an operation with its bid. -/
structure Told (trace : Trace) (n : Nat) (t : ThreadId) (b : Bid) : Prop where
  attempts : ∀ {rt}, b.runtime = some rt →
    Standing rt b.marks ∧ b.marks = trace.milestones n ∧ .called n t (.start rt) ∈ trace
  silent : ∀ {rt}, b.runtime = some rt → b.marks = [] → ∀ {t' q reply}, .answered n t' q reply ∉ trace
  refused : ∀ {rt}, b.runtime = some rt → b.marks = [exchanged rt false] →
    ∀ {t' q reply}, .answered n t' q reply ∈ trace → q = .claim rt
  common : b.runtime = none → ∀ m ∈ trace.milestones n, ∃ s, m = stacked s
  caller : ∀ {rt t'}, .called n t' (.start rt) ∈ trace → b.runtime = some rt

theorem Told.kept {b : Bid} (told : Told trace n t b) (other : ¬e.Concerns n) : Told (e :: trace) n t b := by
  have before {t' q reply} (member : .answered n t' q reply ∈ e :: trace) : .answered n t' q reply ∈ trace := by
    rcases List.mem_cons.mp member with rfl | earlier
    · exact absurd rfl other
    · exact earlier
  refine ⟨?_,?_,?_,?_,?_⟩
  · intro rt attempt
    obtain ⟨standing,marks,called⟩ := told.attempts attempt
    rw [milestones_other other]
    exact ⟨standing,marks,List.mem_cons_of_mem _ called⟩
  · exact fun attempt fresh _ _ _ member => told.silent attempt fresh (before member)
  · exact fun attempt refused _ _ _ member => told.refused attempt refused (before member)
  · rw [milestones_other other]
    exact told.common
  · intro rt t' member
    rcases List.mem_cons.mp member with rfl | earlier
    · exact absurd rfl other
    · exact told.caller earlier

theorem Told.answered {b : Bid} {op : Operation} {c : Custody} {q : Request} {reply : q.Reply}
    (told : Told trace n t b) (may : b.May op c q) : Told (.answered n t q reply :: trace) n t (b.after q reply) := by
  obtain ⟨runtime,marks⟩ := b
  cases runtime with
  | none =>
    have caller {rt t'} (member : .called n t' (.start rt) ∈ .answered n t q reply :: trace) : none = some rt :=
      told.caller (by simpa using member)
    refine ⟨by simp [Bid.after],by simp [Bid.after],by simp [Bid.after],?_,caller⟩
    intro _ m member
    rw [milestones_answered] at member
    rcases List.mem_append.mp member with new | old
    · rcases may with common | ⟨rt,rfl,-⟩
      · have mark : ofReply q reply = some m := by simpa using new
        unfold ofReply at mark
        split at mark <;> first | exact common.elim | cases mark
        exact ⟨_,rfl⟩
      · cases new
    · exact told.common rfl m old
  | some rt =>
    obtain ⟨-,attempts⟩ : _ ∧ Attempts rt marks q := may
    obtain ⟨-,same,called⟩ := told.attempts rfl
    have standing := attempts.standing reply
    refine ⟨?_,?_,?_,by simp [Bid.after],fun member => told.caller (by simpa using member)⟩
    · rintro rt' ⟨⟩
      refine ⟨standing,?_,List.mem_cons_of_mem _ called⟩
      simpa [Bid.after] using same
    · rintro rt' ⟨⟩ fresh
      have fresh : (ofReply q reply).toList ++ marks = [] := fresh
      rcases attempts.won with ⟨-,rfl⟩ | won
      · cases fresh
      · simp [(List.append_eq_nil_iff.mp fresh).2] at won
    · rintro rt' ⟨⟩ lost t' q' reply' member
      have lost : (ofReply q reply).toList ++ marks = [exchanged rt false] := lost
      rcases attempts.won with ⟨rfl,rfl⟩ | won
      · rcases List.mem_cons.mp member with now | before
        · cases now
          rfl
        · exact absurd before (told.silent rfl rfl)
      · have late := List.mem_append_right (ofReply q reply).toList won
        simp [lost] at late

theorem Run.told {b : Bid} (run : Run trace w) (track : bidding.track trace n = some b) :
    Told trace n (trace.homes n) b := by
  refine run.tracked (I := Told) bidding_covers (fun _ _ _ _ _ => trivial) ?_ ?_ (fun other told => told.kept other) track
  · intro trace w e w' n b run step opens starts
    have before := run.fresh step opens
    have nothing : Trace.milestones (e :: trace) n = [] := run.uncounted step opens
    have silent {t q reply} : .answered n t q reply ∉ e :: trace := by
      intro member
      rcases List.mem_cons.mp member with rfl | earlier
      · exact opens
      · exact before _ earlier rfl
    have fresh : b.marks = [] := by
      cases step with
      | @call t op => cases op <;> cases starts <;> rfl
      | begin | fire => cases starts; rfl
      | _ => exact opens.elim
    refine ⟨?_,fun _ _ => silent,by simp [fresh],by simp [nothing],?_⟩
    · intro rt attempt
      rw [fresh,nothing]
      refine ⟨.asking,rfl,?_⟩
      cases step with
      | @call t op =>
        cases opens
        cases op <;> cases starts <;> cases attempt
        simp [Trace.homes,Event.homes]
      | begin | fire => cases starts; cases attempt
      | _ => exact opens.elim
    · intro rt t' member
      rcases List.mem_cons.mp member with rfl | earlier
      · cases starts
        rfl
      · exact absurd rfl (before _ earlier)
  · exact fun _ may _ told => told.answered may

/-- The operation has won the phase of the runtime and has not stored the next one. -/
def Trace.Pending (trace : Trace) (rt : RuntimeId) (n : Nat) : Prop :=
  exchanged rt true ∈ trace.milestones n ∧ ∀ phase, stored rt phase ∉ trace.milestones n

theorem pending_other {k : Nat} (other : ¬e.Concerns k) : Trace.Pending (e :: trace) rt k ↔ trace.Pending rt k := by
  simp only [Trace.Pending,milestones_other other]

section
variable (run : Run trace w)
include run

theorem Run.bids : Watched bidding trace w := run.watched bidding_covers fun _ _ _ _ _ => trivial

/-- Every operation makes a bid, if an empty one. -/
theorem Run.bidder (old : n < w.count) : ∃ b, bidding.track trace n = some b := by
  refine run.tracked_some (fun {e n} opens => ?_) old
  cases e with
  | called n t op => cases op <;> rfl
  | began | fired => rfl
  | _ => exact opens.elim

/-- Whoever has passed more than a change of stack is an attempt. -/
theorem Run.attempt {m : Milestone} (member : m ∈ trace.milestones n) (counts : ∀ s, m ≠ stacked s) :
    ∃ rt, bidding.track trace n = some ⟨some rt,trace.milestones n⟩ ∧ Standing rt (trace.milestones n) ∧
      Told trace n (trace.homes n) ⟨some rt,trace.milestones n⟩ := by
  obtain ⟨t,q,reply,answered,-⟩ := mem_milestones.mp member
  obtain ⟨⟨runtime,marks⟩,track⟩ := run.bidder (run.concerned answered rfl)
  have told := run.told track
  cases runtime with
  | none =>
    obtain ⟨s,same⟩ := told.common rfl m member
    exact absurd same (counts s)
  | some rt =>
    obtain ⟨standing,rfl,-⟩ := told.attempts rfl
    exact ⟨rt,track,standing,told⟩

theorem Run.bid {f : Frame} (member : f ∈ w.frames t) : ∃ b, Told trace f.number t b ∧
    bidding.Keeps f.operation f.rest (trace.custodies f.number) b := by
  obtain ⟨b,track⟩ := run.bidder (run.inv.orderly.old member)
  have told := run.told track
  rw [run.inv.orderly.home member] at told
  exact ⟨b,told,run.bids t f b member track⟩

theorem Run.bid_top {op : Operation} {rest : Program op.Result} {below : List Frame}
    (here : w.frames t = ⟨n,op,rest⟩ :: below) :
    ∃ b, Told trace n t b ∧ bidding.Keeps op rest (trace.custodies n) b :=
  run.bid (f := ⟨n,op,rest⟩) (by rw [here]; exact .head _)

/-- What has a part in an initialization is asked for by an attempt. -/
theorem Run.attempts {op : Operation} {q : Request} {next : q.Reply → Program op.Result} {below : List Frame}
    (here : w.frames t = ⟨n,op,.ask q next⟩ :: below) (uncommon : ¬q.Common) (other : ∀ rt, q ≠ .state (.key rt)) :
    ∃ rt, op = .start rt ∧ Attempts rt (trace.milestones n) q := by
  obtain ⟨⟨runtime,marks⟩,told,may,-⟩ := run.bid_top here
  cases runtime with
  | none =>
    rcases may with common | ⟨rt,rfl,-⟩
    · exact absurd common uncommon
    · exact absurd rfl (other rt)
  | some rt =>
    obtain ⟨rfl,attempts⟩ : op = .start rt ∧ Attempts rt marks q := may
    obtain ⟨-,rfl,-⟩ := told.attempts rfl
    exact ⟨rt,rfl,attempts⟩

/-- An attempt that has the phase is in progress, and waits for a reply. -/
theorem Run.pending_asks (pending : trace.Pending rt n) : ∃ t f, f ∈ w.frames t ∧ f.number = n ∧
    f.operation = .start rt ∧ ∃ q, f.Asks q ∧ Attempts rt (trace.milestones n) q := by
  induction run with
  | nil => cases pending.1
  | @step trace w e w' run going step ih =>
    by_cases concerned : e.Concerns n
    · by_cases opens : e.Opens n
      · have nothing : Trace.milestones (e :: trace) n = [] := run.uncounted step opens
        simp [Trace.Pending,nothing] at pending
      cases step with
      | @answer t n' op q next below reply w' here answers =>
        obtain rfl : n' = n := concerned
        obtain ⟨⟨runtime,marks⟩,told,keeps⟩ := run.bid_top here
        have after : Told (.answered n' t q reply :: trace) n' t _ := told.answered keeps.1
        have rest := keeps.2 reply _ ⟨run.inv.expects here answers,trivial,rfl⟩
        cases runtime with
        | none =>
          obtain ⟨s,clash⟩ := after.common rfl _ pending.1
          cases clash
        | some rt' =>
          obtain ⟨rfl,-⟩ := keeps.1
          obtain ⟨standing,same,-⟩ := after.attempts rfl
          rw [Trace.Pending,← same] at pending
          rw [← same]
          obtain rfl := standing.of_won pending.1
          obtain ⟨q',next',asks,attempts⟩ := Bid.pending_asks standing rest pending.1 pending.2
          exact ⟨t,⟨n',_,next reply⟩,by simp [setFrames],rfl,rfl,q',⟨next',asks⟩,attempts⟩
      | call | begin | fire => exact absurd concerned opens
      | _ => exact concerned.elim
    · rw [pending_other concerned] at pending
      obtain ⟨t,f,member,rfl,operation,q,⟨next,rest⟩,attempts⟩ := ih pending
      rw [milestones_other concerned]
      refine ⟨t,f,?_,rfl,operation,q,⟨next,rest⟩,attempts⟩
      rcases step.stays member concerned with stays | ⟨result,done,-⟩ | ⟨-,entered⟩
      · exact stays
      · rw [rest] at done
        cases done
      · rw [Frame.Entered,rest] at entered
        cases q with
        | enter => exact (Attempts.not_enter attempts).elim
        | _ => exact entered.elim

end

/-- How the phase and the key of the runtime came about. -/
structure Contest (rt : RuntimeId) (trace : Trace) (w : World) : Prop where
  pending : ∀ {n}, trace.Pending rt n → (w.image.runtimes rt).phase = .initializing
  busy : (w.image.runtimes rt).phase = .initializing → ∃ n, trace.Pending rt n
  one : ∀ {n k}, trace.Pending rt n → trace.Pending rt k → n = k
  opened : ∀ {n}, stored rt .ready ∈ trace.milestones n → w.Ready rt
  ready : w.Ready rt → ∃ n, stored rt .ready ∈ trace.milestones n
  first : ∀ {n k}, stored rt .ready ∈ trace.milestones n → stored rt .ready ∈ trace.milestones k → n = k
  keyed : ∀ {n key}, kept rt key ∈ trace.milestones n → (w.image.runtimes rt).key = some key

theorem Initial.contest (initial : w.Initial) : Contest rt [] w := by
  have fresh : w.image.runtimes rt = .fresh := initial.runtimes rt
  refine ⟨?_,?_,?_,?_,?_,?_,?_⟩
  all_goals simp [Trace.Pending,Trace.milestones,Trace.counted,Ready,fresh,RuntimeState.fresh]

section
variable (contest : Contest rt trace w)
include contest

theorem Contest.apart {k : Nat} (pending : trace.Pending rt n) (opened : stored rt .ready ∈ trace.milestones k) : False := by
  have ready : (w.image.runtimes rt).phase = .ready := contest.opened opened
  have busy := contest.pending pending
  simp [ready] at busy

/-- Nothing has happened to the runtime. -/
theorem Contest.quiet (runtime : w'.image.runtimes rt = w.image.runtimes rt)
    (others : ∀ {n m}, e.counted ofReply n = some m → ¬m.Counts rt) : Contest rt (e :: trace) w' := by
  have same {n m} (counts : m.Counts rt) : m ∈ Trace.milestones (e :: trace) n ↔ m ∈ trace.milestones n := by
    rw [milestones_cons,List.mem_append,Option.mem_toList]
    exact or_iff_right fun new => others new counts
  have pending {n} : Trace.Pending (e :: trace) rt n ↔ trace.Pending rt n := by
    simp only [Trace.Pending,same (m := exchanged rt true) rfl,same (m := stored rt _) rfl]
  have opened {n} : stored rt .ready ∈ Trace.milestones (e :: trace) n ↔ stored rt .ready ∈ trace.milestones n :=
    same rfl
  have ready : w'.Ready rt ↔ w.Ready rt := by rw [Ready,runtime,Ready]
  refine ⟨?_,?_,?_,?_,?_,?_,?_⟩
  · rw [runtime]
    exact fun now => contest.pending (pending.mp now)
  · rw [runtime]
    simpa only [pending] using contest.busy
  · exact fun now now' => contest.one (pending.mp now) (pending.mp now')
  · exact fun now => ready.mpr (contest.opened (opened.mp now))
  · simpa only [opened,ready] using contest.ready
  · exact fun now now' => contest.first (opened.mp now) (opened.mp now')
  · rw [runtime]
    exact fun now => contest.keyed ((same (m := kept rt _) rfl).mp now)

/-- The operation wins the phase. -/
theorem Contest.won (free : (w.image.runtimes rt).phase = .uninitialized) (fresh : trace.milestones n = [])
    (runtime : w'.image.runtimes rt = { w.image.runtimes rt with phase := .initializing }) :
    Contest rt (.answered n t (.claim rt) true :: trace) w' := by
  have mine : Trace.milestones (.answered n t (.claim rt) true :: trace) n = [exchanged rt true] := by
    rw [milestones_answered,fresh]
    rfl
  have none {k} : ¬trace.Pending rt k := fun pending => by simp [contest.pending pending] at free
  have only {k} (pending : Trace.Pending (.answered n t (.claim rt) true :: trace) rt k) : k = n := by
    by_cases same : k = n
    · exact same
    · rw [Trace.Pending,milestones_elsewhere same] at pending
      exact absurd pending none
  have unopened {k} : stored rt .ready ∉ Trace.milestones (.answered n t (.claim rt) true :: trace) k := by
    intro opened
    by_cases same : k = n
    · simp [same,mine] at opened
    · rw [milestones_elsewhere same] at opened
      have ready : (w.image.runtimes rt).phase = .ready := contest.opened opened
      simp [ready] at free
  refine ⟨?_,?_,?_,?_,?_,?_,?_⟩
  · simp [runtime]
  · exact fun _ => ⟨n,by simp [Trace.Pending,mine]⟩
  · exact fun now now' => (only now).trans (only now').symm
  · exact fun opened => absurd opened unopened
  · simp [Ready,runtime]
  · exact fun opened => absurd opened unopened
  · intro k key member
    rw [runtime]
    by_cases same : k = n
    · simp [same,mine] at member
    · exact contest.keyed (milestones_elsewhere same ▸ member)

/-- The operation has the runtime keep the key. -/
theorem Contest.kept {key : CleanupKey} (missing : (w.image.runtimes rt).key = none)
    (runtime : w'.image.runtimes rt = (w.image.runtimes rt).keepKey key) :
    Contest rt (.answered n t (.state (.keepKey rt key)) () :: trace) w' := by
  have mine : Trace.milestones (.answered n t (.state (.keepKey rt key)) () :: trace) n =
      Milestone.kept rt key :: trace.milestones n := milestones_answered
  have same {k m} (other : m ≠ Milestone.kept rt key) :
      m ∈ Trace.milestones (.answered n t (.state (.keepKey rt key)) () :: trace) k ↔ m ∈ trace.milestones k := by
    by_cases same : k = n
    · simp [same,mine,other]
    · rw [milestones_elsewhere same]
  have phase : (w'.image.runtimes rt).phase = (w.image.runtimes rt).phase := by simp [runtime,RuntimeState.keepKey]
  have pending {k} : Trace.Pending (.answered n t (.state (.keepKey rt key)) () :: trace) rt k ↔ trace.Pending rt k := by
    simp [Trace.Pending,same]
  refine ⟨?_,?_,?_,?_,?_,?_,?_⟩
  · rw [phase]
    exact fun now => contest.pending (pending.mp now)
  · simpa only [phase,pending] using contest.busy
  · exact fun now now' => contest.one (pending.mp now) (pending.mp now')
  · intro k opened
    rw [Ready,phase]
    exact contest.opened ((same (by simp)).mp opened)
  · intro ready
    rw [Ready,phase] at ready
    obtain ⟨k,opened⟩ := contest.ready ready
    exact ⟨k,(same (by simp)).mpr opened⟩
  · exact fun now now' => contest.first ((same (by simp)).mp now) ((same (by simp)).mp now')
  · intro k key' member
    by_cases new : Milestone.kept rt key' = Milestone.kept rt key
    · cases new
      simp [runtime,RuntimeState.keepKey,missing]
    · have known := contest.keyed ((same new).mp member)
      simp [missing] at known

/-- The operation that has the phase stores the next one. -/
theorem Contest.stored {phase : Phase} (pending : trace.Pending rt n) (done : phase ≠ .initializing)
    (runtime : w'.image.runtimes rt = { w.image.runtimes rt with phase := phase }) :
    Contest rt (.answered n t (.state (.setPhase rt phase)) () :: trace) w' := by
  have mine : Trace.milestones (.answered n t (.state (.setPhase rt phase)) () :: trace) n =
      Milestone.stored rt phase :: trace.milestones n := milestones_answered
  have none {k} : ¬Trace.Pending (.answered n t (.state (.setPhase rt phase)) () :: trace) rt k := by
    intro now
    by_cases same : k = n
    · exact now.2 phase (by simp [same,mine])
    · rw [Trace.Pending,milestones_elsewhere same] at now
      exact same (contest.one now pending)
  have only {k} (opened : Milestone.stored rt .ready ∈
      Trace.milestones (.answered n t (.state (.setPhase rt phase)) () :: trace) k) : k = n ∧ phase = .ready := by
    have before {k} : Milestone.stored rt .ready ∉ trace.milestones k := fun opened => contest.apart pending opened
    by_cases same : k = n
    · exact ⟨same,by simpa [same,mine,before,eq_comm] using opened⟩
    · rw [milestones_elsewhere same] at opened
      exact absurd opened before
  refine ⟨fun now => absurd now none,?_,fun now => absurd now none,?_,?_,?_,?_⟩
  · simp [runtime,done]
  · intro k opened
    simp [Ready,runtime,(only opened).2]
  · intro ready
    have phase : phase = .ready := by simpa [Ready,runtime] using ready
    exact ⟨n,by simp [mine,phase]⟩
  · exact fun now now' => (only now).1.trans (only now').1.symm
  · intro k key member
    rw [runtime]
    by_cases same : k = n
    · exact contest.keyed (n := n) (by simpa [same,mine] using member)
    · exact contest.keyed (milestones_elsewhere same ▸ member)

end

theorem Contest.answer {op : Operation} {q : Request} {next : q.Reply → Program op.Result} {below : List Frame}
    {reply : q.Reply} {w'' : World} (contest : Contest rt trace w) (run : Run trace w)
    (here : w.frames t = ⟨n,op,.ask q next⟩ :: below) (answers : w.Answers t q reply w') (image : w''.image = w'.image) :
    Contest rt (.answered n t q reply :: trace) w'' := by
  have milestone {k} {m : Milestone} (is : Event.counted ofReply k (.answered n t q reply) = some m) :
      ofReply q reply = some m := by
    simp only [Event.counted] at is
    split at is
    · exact is
    · cases is
  by_cases moves : ∃ call, q = .state call ∧ call.Moves rt
  · obtain ⟨call,rfl,moves⟩ := moves
    have may := run.inv.may here
    obtain ⟨rfl,rfl⟩ := answers
    cases call with
    | exchangePhase rt' expected desired =>
      obtain rfl : rt' = rt := moves
      obtain ⟨-,-,rfl,rfl⟩ := may
      by_cases free : (w.image.runtimes rt').phase = .uninitialized
      · obtain ⟨rt,-,attempts⟩ := run.attempts here id (by simp)
        have fresh : trace.milestones n = [] := attempts.of_claim.2
        simp only [Image.answer,free,if_true] at image ⊢
        exact contest.won free fresh (by simp [image,Image.setRuntime])
      · simp only [Image.answer,free,if_false] at image milestone ⊢
        refine contest.quiet (by rw [image]) fun is counts => ?_
        cases milestone is
        exact counts
    | setPhase rt' phase =>
      obtain rfl : rt' = rt := moves
      obtain ⟨rt,-,attempts⟩ := run.attempts here id (by simp)
      obtain ⟨rfl,done,won,unstored⟩ := attempts.pending
      exact contest.stored ⟨won,unstored⟩ done (by simp [image,Image.answer,Image.setRuntime])
    | keepKey rt' key =>
      obtain rfl : rt' = rt := moves
      have missing := (run.inv.phased.starting may.1).2
      exact contest.kept (by simpa using missing) (by simp [image,Image.answer,Image.setRuntime])
    | _ => exact moves.elim
  · refine contest.quiet ?_ fun is counts => moves (counts.moves (milestone is))
    rw [image]
    cases q with
    | state call =>
      obtain ⟨-,rfl⟩ := answers
      exact answer_runtimes (fun yes => moves ⟨call,rfl,yes⟩) _ _
    | mapper | host | enter => rw [answers.foreign trivial]

theorem Run.contest (run : Run trace w) : Contest rt trace w := by
  induction run with
  | nil initial => exact initial.contest
  | @step trace w e w' run going step ih =>
    cases step with
    | answer here answers => exact ih.answer run here answers rfl
    | _ => exact ih.quiet rfl (by simp [Event.counted])

end World
end GuardedStack
