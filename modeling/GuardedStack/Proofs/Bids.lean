import GuardedStack.Proofs.Asks

/-! What an attempt to initialize a runtime goes through: it asks for the phase, and if it gets it, it makes the main
region, installs it, has thread creation intercepted, creates the key, keeps it and stores the new phase. Once the key
is created nothing can fail any more. Other operations have no part in this, and look the key up only where the runtime
was found ready. -/
namespace GuardedStack

/-- What counts in the initialization of a runtime. -/
inductive Milestone where
  | exchanged (rt : RuntimeId) (won : Bool)
  | stacked (s : ThreadStack)
  | intercepted (rt : RuntimeId)
  | created (rt : RuntimeId) (key : CleanupKey)
  | kept (rt : RuntimeId) (key : CleanupKey)
  | stored (rt : RuntimeId) (phase : Phase)
  deriving DecidableEq

namespace Milestone

def ofReply : (q : Request) → q.Reply → Option Milestone
  | .state (.exchangePhase rt _ _), won => some (exchanged rt won)
  | .state (.setStack s), _ => some (stacked s)
  | .host rt .installInterception, .ok () => some (intercepted rt)
  | .host rt .createCleanupKey, .ok key => some (created rt key)
  | .state (.keepKey rt key), _ => some (kept rt key)
  | .state (.setPhase rt phase), _ => some (stored rt phase)
  | _, _ => none

theorem ofReply_plain {q : Request} {reply : q.Reply} (plain : q.Plain) : ofReply q reply = none := by
  unfold ofReply
  split <;> first | rfl | exact plain.elim

/-! The milestones of an attempt that has come so far, the newest first. -/

def installed (h : Holding) : List Milestone := [stacked ⟨h.region.top,some h⟩,exchanged h.owner true]

def ready (h : Holding) (key : CleanupKey) : List Milestone :=
  stored h.owner .ready :: kept h.owner key :: created h.owner key :: intercepted h.owner :: installed h

theorem ready_inj {h h' : Holding} {key key' : CleanupKey} (same : ready h key = ready h' key') : h = h' := by
  have tops : stacked ⟨h.region.top,some h⟩ = stacked ⟨h'.region.top,some h'⟩ :=
    Option.some.inj (congrArg (·[4]?) same)
  exact Option.some.inj (congrArg ThreadStack.holding (stacked.inj tops))

/-- The attempt has the phase, and may still fail. -/
def Undecided (rt : RuntimeId) (marks : List Milestone) : Prop :=
  ∃ later, marks = later ++ [exchanged rt true] ∧ ∀ m ∈ later, (∃ s, m = stacked s) ∨ m = intercepted rt

theorem undecided_won (rt : RuntimeId) : Undecided rt [exchanged rt true] := ⟨[],rfl,by simp⟩

theorem Undecided.stacked {rt : RuntimeId} {marks : List Milestone} (undecided : Undecided rt marks) (s : ThreadStack) :
    Undecided rt (stacked s :: marks) := by
  obtain ⟨later,rfl,only⟩ := undecided
  exact ⟨Milestone.stacked s :: later,rfl,List.forall_mem_cons.mpr ⟨.inl ⟨s,rfl⟩,only⟩⟩

theorem Undecided.intercepted {rt : RuntimeId} {marks : List Milestone} (undecided : Undecided rt marks) :
    Undecided rt (intercepted rt :: marks) := by
  obtain ⟨later,rfl,only⟩ := undecided
  exact ⟨Milestone.intercepted rt :: later,rfl,List.forall_mem_cons.mpr ⟨.inr rfl,only⟩⟩

theorem undecided_installed (h : Holding) : Undecided h.owner (installed h) := (undecided_won h.owner).stacked _

end Milestone

open Milestone

/-- What an attempt for the runtime may ask for after these milestones. -/
inductive Attempts (rt : RuntimeId) : List Milestone → Request → Prop
  | claim : Attempts rt [] (.claim rt)
  | plain {marks : List Milestone} {q : Request} : Undecided rt marks → q.Plain → Attempts rt marks q
  | install {h : Holding} : h.owner = rt →
      Attempts rt [exchanged rt true] (.state (.setStack ⟨h.region.top,some h⟩))
  | intercept {h : Holding} : h.owner = rt → Attempts rt (installed h) (.host rt .installInterception)
  | create {h : Holding} : h.owner = rt → Attempts rt (intercepted rt :: installed h) (.host rt .createCleanupKey)
  | keep {h : Holding} {key : CleanupKey} : h.owner = rt →
      Attempts rt (created rt key :: intercepted rt :: installed h) (.state (.keepKey rt key))
  | open_ {h : Holding} {key : CleanupKey} : h.owner = rt →
      Attempts rt (kept rt key :: created rt key :: intercepted rt :: installed h) (.state (.setPhase rt .ready))
  | report {h : Holding} {key : CleanupKey} {call : StateCall} : h.owner = rt →
      (call = .verbosity ∨ ∃ line, call = .emit line) → Attempts rt (ready h key) (.state call)
  | detach {marks : List Milestone} : Undecided rt marks → Attempts rt marks (.state (.setStack .empty))
  | close {marks : List Milestone} : Undecided rt marks → Attempts rt marks (.state (.setPhase rt .uninitialized))

/-- Requests that have no part in an initialization, and are not for a key. -/
def Request.Common : Request → Prop
  | .host _ .installInterception | .host _ .createCleanupKey => False
  | .state (.exchangePhase _ _ _) | .state (.setPhase _ _) | .state (.keepKey _ _) | .state (.key _) => False
  | _ => True

theorem Request.Plain.common {q : Request} (plain : q.Plain) : q.Common := by
  cases q with
  | mapper | enter => trivial
  | host rt call => cases call <;> trivial
  | state call => cases call <;> trivial

/-- Which runtime an operation attempts to initialize, and how far it is. -/
structure Bid where
  runtime : Option RuntimeId
  marks : List Milestone

namespace Bid

def start : Event → Option Bid
  | .called _ _ (.start rt) => some ⟨some rt,[]⟩
  | .called _ _ _ | .began _ _ _ _ | .fired _ _ _ _ _ _ => some ⟨none,[]⟩
  | _ => none

/-- Only for attempts milestones are counted. -/
def after (b : Bid) (q : Request) (reply : q.Reply) : Bid :=
  match b.runtime with
  | some _ => { b with marks := (ofReply q reply).toList ++ b.marks }
  | none => b

def May (op : Operation) (c : Custody) (b : Bid) (q : Request) : Prop :=
  match b.runtime with
  | some rt => op = .start rt ∧ Attempts rt b.marks q
  | none => q.Common ∨ ∃ rt, q = .state (.key rt) ∧ rt ∈ c.ready

def Ends : (op : Operation) → Bid → op.Result → Prop
  | .start rt, b, .ok region => ∃ key, b = ⟨some rt,ready ⟨region,rt⟩ key⟩
  | .start rt, b, .error cause => b = ⟨some rt,[exchanged rt false]⟩ ∧ cause = .alreadyInitialized ∨
      ∃ marks, Undecided rt marks ∧ b = ⟨some rt,stored rt .uninitialized :: marks⟩
  | _, b, _ => b.runtime = none

end Bid

/-- An attempt never stops. -/
def bidding : Watch Bid where
  start := Bid.start
  after := Bid.after
  may := Bid.May
  grants _ _ := True
  ends := Bid.Ends
  stops
    | .start _, _ => False
    | _, reason => custody.ends reason

namespace Watch

variable {τ : Type} {v : Watch τ} {op : Operation} {c : Custody} {x : τ}

/-- What the rules and custody say about the same program. -/
theorem with_custody {p : Program α} {P : Custody × τ → α → Prop} {Q : Custody → α → Prop}
    (rules : p.Follows (v.rules op) P (c,x)) (follows : p.Follows custody Q c) :
    p.Follows (v.rules op) (fun y a => P y a ∧ Q y.1 a) (c,x) := by
  induction p generalizing c x with
  | done a => exact ⟨rules,follows⟩
  | stop reason => exact rules
  | ask q next ih =>
    refine ⟨rules.1,?_⟩
    rintro reply y ⟨expected,granted,rfl⟩
    exact ih reply (rules.2 reply _ ⟨expected,granted,rfl⟩) (follows.2 reply _ ⟨expected,rfl⟩)

theorem attempt_with_custody {attempt : Attempt α} {P : Custody × τ → α → Prop} {F : Custody × τ → Fault → Prop}
    {Q : Custody → α → Prop} {G : Custody → Fault → Prop} (rules : attempt.Follows (v.rules op) P F (c,x))
    (follows : attempt.Follows custody Q G c) :
    attempt.Follows (v.rules op) (fun y a => P y a ∧ Q y.1 a) (fun y cause => F y cause ∧ G y.1 cause) (c,x) := by
  refine Program.Follows.mono (with_custody rules follows) ?_
  rintro y (cause | a) holds
  · exact holds
  · exact holds

end Watch

open Program Attempt

section
variable {rt : RuntimeId} {c : Custody} {marks : List Milestone}

theorem Bid.may_plain (undecided : Undecided rt marks) {q : Request} (plain : q.Plain) :
    bidding.may (.start rt) c ⟨some rt,marks⟩ q :=
  ⟨rfl,.plain undecided plain⟩

/-- A plain request of an attempt that may still fail. -/
theorem bidding_plain {q : Request} {post : Custody × Bid → q.Reply → Prop}
    (undecided : Undecided rt marks) (plain : q.Plain)
    (after : ∀ reply, c.Expects q reply → post (c.after q reply,⟨some rt,marks⟩) reply) :
    (request q).Follows (bidding.rules (.start rt)) post (c,⟨some rt,marks⟩) := by
  refine follows_request (Bid.may_plain (c := c) undecided plain) ?_
  rintro reply y ⟨expected,-,rfl⟩
  have same : Bid.after ⟨some rt,marks⟩ q reply = ⟨some rt,marks⟩ := by
    simp [Bid.after,ofReply_plain plain]
  show post (_,Bid.after ⟨some rt,marks⟩ q reply) reply
  rw [same]
  exact after reply expected

/-- A part of an attempt that makes only plain requests. -/
theorem Program.Asks.bidding {p : Program α} {post : Custody → α → Prop} (asks : p.Asks Request.Plain Stop.Overflow)
    (follows : p.Follows custody post c) (undecided : Undecided rt marks) :
    p.Follows (bidding.rules (.start rt)) (fun y a => y.2 = ⟨some rt,marks⟩ ∧ post y.1 a) (c,⟨some rt,marks⟩) := by
  refine Program.Asks.follows (v := GuardedStack.bidding) (fun _ _ => Bid.may_plain undecided) ?_ asks follows ?_
  · intro q reply plain
    simp [GuardedStack.bidding,Bid.after,ofReply_plain plain]
  · -- Custody allows no overflow, and these programs stop for nothing else.
    rintro (operation | _ | _ | _) overflow known
    · exact known
    all_goals exact overflow

theorem Attempt.Asks.bidding {attempt : Attempt α} {ok : Custody → α → Prop} {fault : Custody → Fault → Prop}
    (asks : attempt.Asks Request.Plain Stop.Overflow) (follows : attempt.Follows custody ok fault c)
    (undecided : Undecided rt marks) :
    attempt.Follows (bidding.rules (.start rt)) (fun y a => y.2 = ⟨some rt,marks⟩ ∧ ok y.1 a)
      (fun y cause => y.2 = ⟨some rt,marks⟩ ∧ fault y.1 cause) (c,⟨some rt,marks⟩) := by
  refine Program.Follows.mono (Program.Asks.bidding asks follows undecided) ?_
  rintro y (cause | a) holds
  · exact holds
  · exact holds

namespace Startup

theorem attach_bids {h : Holding} :
    (attach h.owner h.region).Follows (bidding.rules (.start h.owner))
      (fun y _ => ∃ key, y.2 = ⟨some h.owner,kept h.owner key :: created h.owner key :: intercepted h.owner ::
        installed h⟩)
      (fun y _ => ∃ marks, Undecided h.owner marks ∧ y.2 = ⟨some h.owner,marks⟩)
      (c,⟨some h.owner,[exchanged h.owner true]⟩) := by
  have won := undecided_won h.owner
  have installed_ := undecided_installed h
  refine .bind (.bind (follows_lift (bidding_plain won trivial fun s _ => ?_)))
  unfold ThreadStack.install
  split
  next done s' made =>
    split at made
    · simp at made
    · obtain rfl : _ = s' := (Prod.ext_iff.mp made).2
      refine follows_lift (follows_request ⟨rfl,.install rfl⟩ ?_)
      rintro ⟨⟩ y ⟨-,-,rfl⟩
      refine .bind (follows_ofProgram (follows_request ⟨rfl,.intercept rfl⟩ ?_))
      rintro (cause | _) y ⟨-,-,rfl⟩
      · exact ⟨_,installed_,rfl⟩
      refine .bind (follows_ofProgram (follows_request ⟨rfl,.create rfl⟩ ?_))
      rintro (cause | key) y ⟨-,-,rfl⟩
      · exact ⟨_,installed_.intercepted,rfl⟩
      refine follows_lift (follows_request ⟨rfl,.keep rfl⟩ ?_)
      rintro ⟨⟩ y ⟨-,-,rfl⟩
      exact ⟨key,rfl⟩
  next cause s' made => exact follows_throw ⟨_,won,rfl⟩

theorem detach_bids {region : Region} (undecided : Undecided rt marks) :
    (detach region).Follows (bidding.rules (.start rt)) (fun y _ => ∃ marks, Undecided rt marks ∧ y.2 = ⟨some rt,marks⟩)
      (c,⟨some rt,marks⟩) := by
  refine .bind (bidding_plain undecided trivial fun s _ => ?_)
  split
  · refine .bind (.bind (bidding_plain undecided trivial fun s _ => ?_))
    refine .bind (follows_request ⟨rfl,.detach undecided⟩ ?_)
    rintro ⟨⟩ y ⟨-,-,rfl⟩
    exact ⟨_,undecided.stacked _,rfl⟩
  · exact ⟨_,undecided,rfl⟩

theorem bringUp_bids (empty : c.hand = .empty) (starting : c.role = .starting rt false) :
    (bringUp rt).Follows (bidding.rules (.start rt))
      (fun y r => ∃ key, y.2 = ⟨some rt,kept rt key :: created rt key :: intercepted rt :: installed ⟨r,rt⟩⟩)
      (fun y _ => ∃ marks, Undecided rt marks ∧ y.2 = ⟨some rt,marks⟩) (c,⟨some rt,[exchanged rt true]⟩) := by
  have won := undecided_won rt
  refine .bind (follows_lift (bidding_plain won trivial fun limit _ => ?_))
  refine .bind (follows_lift (bidding_plain won trivial fun guard large => ?_))
  have based : ¬c.forget.role.Base := by simp [Custody.forget,starting,Role.Base]
  refine .bind ((Region.allocate_asks.bidding (Region.allocate_follows (c := c.forget) empty based (.inr large))
    won).mono ?_ ?_)
  · rintro ⟨c',b⟩ r ⟨rfl,sound,-,-,rfl⟩
    refine .bind (follows_outcome (Attempt.Follows.mono (Watch.attempt_with_custody (attach_bids (h := ⟨r,rt⟩))
      (attach_follows (h := ⟨r,rt⟩) sound rfl starting)) ?_ ?_))
    · rintro y ⟨⟩ ⟨made,-⟩
      exact made
    · rintro ⟨c',b⟩ cause ⟨⟨marks,undecided,rfl⟩,failed⟩
      have mine : c'.hand = .held (r.mapping rt) ∨ c'.hand = .installed ⟨r,rt⟩ := by
        obtain ⟨seen,rfl | rfl⟩ := failed
        · exact .inl rfl
        · exact .inr rfl
      refine .bind (follows_lift ((Watch.with_custody (detach_bids undecided)
        (detach_follows (h := ⟨r,rt⟩) mine)).mono ?_))
      rintro ⟨c',b⟩ ⟨⟩ ⟨⟨marks,undecided,rfl⟩,seen,rfl⟩
      refine .bind (follows_lift ((Region.discard_asks.bidding (Region.discard_follows sound rfl) undecided).mono ?_))
      rintro y ⟨⟩ ⟨kept,-⟩
      exact follows_throw ⟨_,undecided,kept⟩
  · rintro y cause ⟨kept,-⟩
    exact ⟨_,won,kept⟩

/-- After the phase was stored an attempt only reports. -/
theorem notice_bids {h : Holding} {key : CleanupKey} {text : String} :
    (Program.notice (pure text)).Follows (bidding.rules (.start h.owner))
      (fun y _ => y.2 = ⟨some h.owner,ready h key⟩) (c,⟨some h.owner,ready h key⟩) := by
  have asks : (Program.notice (pure text)).Asks
      (fun q => ∃ call, q = .state call ∧ (call = .verbosity ∨ ∃ line, call = .emit line)) (fun _ => False) :=
    asks_notice ⟨_,rfl,.inl rfl⟩ (fun _ => ⟨_,rfl,.inr ⟨_,rfl⟩⟩) asks_text
  refine Program.Asks.stays (v := bidding) ?_ ?_ asks fun _ clash => clash.elim
  · rintro _ _ ⟨call,rfl,reports⟩
    exact ⟨rfl,.report rfl reports⟩
  · rintro _ reply ⟨call,rfl,rfl | ⟨line,rfl⟩⟩ <;> rfl

theorem attempt_bids (rt : RuntimeId) :
    (attempt rt).Follows (bidding.rules (.start rt)) (fun y region => ∃ key, y.2 = ⟨some rt,ready ⟨region,rt⟩ key⟩)
      (fun y cause => y.2 = ⟨some rt,[exchanged rt false]⟩ ∧ cause = .alreadyInitialized ∨
        ∃ marks, Undecided rt marks ∧ y.2 = ⟨some rt,stored rt .uninitialized :: marks⟩)
      (.ofOperation (.start rt),⟨some rt,[]⟩) := by
  have won := undecided_won rt
  refine .bind (follows_lift (follows_request ⟨rfl,Attempts.claim⟩ ?_))
  rintro granted y ⟨-,-,rfl⟩
  cases granted with
  | false => exact follows_throw (.inl ⟨rfl,rfl⟩)
  | true =>
    refine .bind (follows_lift (bidding_plain won trivial fun setting _ => ?_))
    refine .bind (follows_lift (bidding_plain won trivial fun _ _ => ?_))
    refine .bind (follows_outcome ((bringUp_bids rfl rfl).mono ?_ ?_))
    · rintro ⟨c,b⟩ region ⟨key,rfl⟩
      refine .bind (follows_lift (follows_request ⟨rfl,Attempts.open_ (h := ⟨region,rt⟩) rfl⟩ ?_))
      rintro ⟨⟩ y ⟨-,-,rfl⟩
      refine .bind (follows_lift ((notice_bids (h := ⟨region,rt⟩)).mono ?_))
      rintro y ⟨⟩ same
      exact follows_pure ⟨key,same⟩
    · rintro ⟨c,b⟩ cause ⟨marks,undecided,rfl⟩
      refine .bind (follows_lift (follows_request ⟨rfl,Attempts.close undecided⟩ ?_))
      rintro ⟨⟩ y ⟨-,-,rfl⟩
      exact follows_throw (.inr ⟨marks,undecided,rfl⟩)

end Startup

/-! Other operations take no part. -/

theorem Bid.may_common {op : Operation} {q : Request} (common : q.Common) : bidding.may op c ⟨none,[]⟩ q :=
  Or.inl common

/-- A program without a part in an initialization. -/
theorem Program.Asks.bidding_common {op : Operation} {p : Program α} {post : Custody → α → Prop}
    (asks : p.Asks Request.Common fun _ => True) (follows : p.Follows custody post c)
    (stops : ∀ reason, custody.ends reason → GuardedStack.bidding.stops op reason) :
    p.Follows (GuardedStack.bidding.rules op) (fun y a => y.2 = ⟨none,[]⟩ ∧ post y.1 a) (c,⟨none,[]⟩) :=
  Program.Asks.follows (v := GuardedStack.bidding) (fun _ _ => Bid.may_common) (fun _ _ _ => rfl) asks follows
    fun _ _ => stops _

theorem Program.Asks.bidding_stays {op : Operation} {p : Program α} (asks : p.Asks Request.Common custody.ends)
    (stops : ∀ reason, custody.ends reason → GuardedStack.bidding.stops op reason) :
    p.Follows (GuardedStack.bidding.rules op) (fun y _ => y.2 = ⟨none,[]⟩) (c,⟨none,[]⟩) :=
  Program.Asks.stays (v := GuardedStack.bidding) (fun _ _ => Bid.may_common) (fun _ _ _ => rfl) asks stops

/-- Other operations may look a key up where the runtime was found ready. -/
theorem bidding_calm {op : Operation} (stops : ∀ reason, custody.ends reason → GuardedStack.bidding.stops op reason) :
    bidding.Calm op ⟨none,[]⟩ where
  may c q inner := by
    refine .inl ?_
    cases q with
    | state call => cases call <;> trivial
    | mapper | host | enter => exact inner.elim
  after _ _ _ := rfl
  stops := stops

namespace Spawn

theorem prepare_asks {attr : Option AttributeRef} {start : EntryPoint} {arg : UInt64} :
    (prepare rt attr start arg).Asks Request.Plain Stop.Unfaulted := by
  refine .bind (Host.attributes_asks.mono (fun _ => Request.Quiet.plain) fun _ => id) fun attributes => ?_
  refine .bind (asks_lift (asks_request (q := .mapper _ _) trivial)) fun pageSize => ?_
  refine .bind (asks_lift ((asks_checked _).mono (fun _ => id) fun _ => Stop.Overflow.unfaulted)) ?_
  rintro (cause | _)
  · trivial
  · refine .bind (Region.allocate_asks.mono (fun _ => id) fun _ => Stop.Overflow.unfaulted) fun region => ?_
    refine .bind (asks_outcome (Handoff.place_asks.mono (fun _ => Request.Quiet.plain) fun _ => id)) ?_
    rintro (cause | record)
    · refine .bind (asks_lift (Region.discard_asks.mono (fun _ => id) fun _ => Stop.Overflow.unfaulted)) fun _ => ?_
      trivial
    · exact .bind (asks_lift (asks_trace trivial (fun _ => trivial) asks_text)) fun _ => trivial

theorem intercept_asks {handle : UInt64} {attr : Option AttributeRef} {start : EntryPoint} {arg : UInt64} :
    (intercept rt handle attr start arg).Asks Request.Common fun _ => True := by
  refine .bind (asks_request trivial) fun phase => ?_
  split
  · refine .bind (asks_orAbort (prepare_asks.mono (fun _ => Request.Plain.common) fun _ _ => trivial) (fun _ => trivial)
      fun _ => trivial) fun record => ?_
    refine .bind (asks_request trivial) fun code => ?_
    split
    · trivial
    · refine .bind (Handoff.take_asks (fun _ _ => trivial) fun _ _ => trivial) fun handoff => ?_
      refine .bind (asks_orAbort (Region.release_asks.mono (fun _ => Request.Plain.common) fun _ _ => trivial)
        (fun _ => trivial) fun _ => trivial) fun _ => ?_
      trivial
  · exact asks_abort (fun _ => trivial) trivial

theorem firstFrame_bids {h : Handoff} {addr arg : UInt64} {routine : StartRoutine} (sound : h.region.Sound) :
    (firstFrame addr).Follows (bidding.rules (.body routine arg)) (fun y _ => y.2 = ⟨none,[]⟩) (.ofRecord addr h,⟨none,[]⟩) := by
  refine Spawn.firstFrame_calm (bidding_calm fun _ => id) sound (fun c ready => .inr ⟨_,rfl,ready⟩) (fun _ => rfl) ?_
  intro c key empty role known
  have rest : ((Host.setCleanupValue h.runtime key armed).orAbort Diagnostics.Duty.arming.text >>= fun _ =>
      request (.enter h.start h.arg)).Asks Request.Common custody.ends :=
    .bind (asks_orAbort (asks_request (q := .host _ _) trivial) (fun _ => trivial) fun _ => by simp [custody]) fun _ =>
      asks_request trivial
  exact rest.bidding_stays fun _ => id

end Spawn

theorem Cleanup.round_bids {value word : UInt64} {s : ThreadStack} (whole : s.Sound) :
    (round value destructorRounds).Follows (bidding.rules (.destroy word)) (fun y _ => y.2 = ⟨none,[]⟩)
      (.ofValue value s,⟨none,[]⟩) := by
  refine Cleanup.round_calm (bidding_calm fun _ => id) whole (fun c rt _ ready => .inr ⟨rt,rfl,ready⟩) (fun _ _ => rfl)
    (fun _ _ => rfl) ?_ ?_
  · intro h c key holds early known
    refine Program.Asks.bidding_stays (asks_orAbort ?_ (fun _ => trivial) fun _ => ?_) fun _ => id
    · exact asks_request (q := .host _ _) trivial
    · simp [custody]
  · intro h c holds late held
    refine Program.Asks.bidding_stays (asks_orAbort ?_ (fun _ => trivial) fun _ => ?_) fun _ => id
    · exact (Region.release_asks_sound (whole.some h holds).1).mono (fun _ => Request.Plain.common) fun _ => id
    · simp [custody]

theorem bidding_covers : bidding.Covers where
  call {n t op b} named starts := by
    cases op with
    | start rt =>
      obtain rfl : ⟨some rt,[]⟩ = b := Option.some.inj starts
      refine Program.Follows.mono (Startup.attempt_bids rt) ?_
      rintro y (cause | region) ends
      · exact ends
      · exact ends
    | spawn rt handle attr entry arg =>
      obtain rfl : ⟨none,[]⟩ = b := Option.some.inj starts
      refine (Spawn.intercept_asks.bidding_common (Operation.spawn_follows rt handle attr entry arg) fun _ => id).mono ?_
      rintro ⟨c,b⟩ code ⟨rfl,-⟩
      rfl
    | body | destroy => simp [Operation.runtime?] at named
  body {n t call record b} sound starts := by
    obtain rfl : ⟨none,[]⟩ = b := Option.some.inj starts
    exact (Spawn.firstFrame_bids sound).mono fun _ _ same => congrArg Bid.runtime same
  destroy {n t rt key value s b} whole starts := by
    obtain rfl : ⟨none,[]⟩ = b := Option.some.inj starts
    exact ((Cleanup.round_bids whole).callback fun _ overflow => overflow).mono fun _ _ same => congrArg Bid.runtime same

end
end GuardedStack
