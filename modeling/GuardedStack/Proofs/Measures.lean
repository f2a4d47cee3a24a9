import GuardedStack.Proofs.Admission
import GuardedStack.Proofs.Contest
import GuardedStack.Proofs.Errands

/-! What operations measure stacks by. A spawn hands a region to the primitive only after the check of attributes; an attempt to
initialize never makes that check. It installs what it has made of its host's limit and of one page, and only the top of that
is looked at. -/
namespace GuardedStack

open Program Attempt

/-- What the check of attributes looks at. -/
def Region.attributes (r : Region) : StackAttributes := ⟨r.usable,r.guard⟩

/-- The check lets the attributes pass. -/
abbrev StackAttributes.Passes (a : StackAttributes) (page : UInt64) : Prop := a.validate page = .ok (.ok ())

/-- With a usable page size the check says what it means. -/
theorem StackAttributes.passes_iff {a : StackAttributes} {page : UInt64} (paged : PageSize page) :
    a.Passes page ↔ a.Valid page := by
  constructor
  · intro passes
    cases StackAttributes.verdict paged passes with
    | valid valid => exact valid
  · intro valid
    obtain ⟨verdict,told,-⟩ := a.validate_verdict paged.ne_zero
    have why := StackAttributes.verdict paged told
    cases why with
    | zero zero => exact absurd zero valid.nonempty
    | size odd => exact absurd valid.size odd
    | guard _ _ odd => exact absurd valid.guard odd
    | valid => exact told

/-- The first limit that an operation was told, and the runtime whose host told it. -/
abbrev Measuring := Option (RuntimeId × Option UInt64)

/-- A main stack of the runtime for the limit that was told: above one page, with an aligned top. -/
def Startup.Measured (rt : RuntimeId) (page : UInt64) (told : Measuring) (h : Holding) : Prop :=
  ∃ limit start, told = some (rt,limit) ∧ h = ⟨mainRegion limit page start,rt⟩ ∧ h.region.Aligned

namespace Measuring

def start : Event → Option Measuring
  | .called _ _ _ | .began _ _ _ _ | .fired _ _ _ _ _ _ => some none
  | _ => none

def after (told : Measuring) : (q : Request) → q.Reply → Measuring
  | .host rt .stackLimit, limit => told.or (some (rt,limit))
  | _, _ => told

def May (rt : RuntimeId) (page : UInt64) (op : Operation) (c : Custody) (told : Measuring) : Request → Prop
  | .state (.setStack s) => op = .start rt → ∀ h, s.holding = some h → Startup.Measured rt page told h
  | .host _ (.spawn call) => ∀ h, c.hand = .placed call.arg h → h.runtime = rt → h.region.attributes.Passes page
  | _ => True

end Measuring

/-- The runtime's mapper keeps to a page size. -/
def measuring (rt : RuntimeId) (page : UInt64) : Watch Measuring where
  start := Measuring.start
  after := Measuring.after
  may := Measuring.May rt page
  grants q reply := q.even rt page reply
  ends _ _ _ := True
  stops _ _ := True

/-- Requests that bring a region neither to a thread nor to the primitive. -/
def Request.Bare : Request → Prop
  | .state (.setStack s) => s.holding = none
  | .host _ (.spawn _) => False
  | _ => True

theorem Request.Plain.bare {q : Request} (plain : q.Plain) : q.Bare := by
  cases q with
  | mapper | enter => trivial
  | host rt call => cases call <;> trivial
  | state call => cases call <;> trivial

section
variable {rt rt' : RuntimeId} {page : UInt64} {op : Operation} {c : Custody} {told : Measuring} {E : Stop → Prop}

theorem Request.Bare.may {q : Request} (bare : q.Bare) : (measuring rt page).may op c told q := by
  cases q with
  | mapper | enter => trivial
  | host rt call => cases call <;> trivial
  | state call =>
    cases call with
    | setStack s =>
      intro _ h held
      cases held.symm.trans bare
    | _ => trivial

theorem Measuring.after_told (first : RuntimeId × Option UInt64) (q : Request) (reply : q.Reply) :
    Measuring.after (some first) q reply = some first := by
  unfold after
  split <;> rfl

/-- A part that brings no region anywhere. -/
theorem Program.Asks.measured {p : Program α} {post : Custody → α → Prop} (asks : p.Asks Request.Bare E)
    (follows : p.Follows custody post c) :
    p.Follows ((measuring rt page).rules op) (fun y a => (∀ first, told = some first → y.2 = some first) ∧ post y.1 a) (c,told) := by
  refine Watch.with_custody ?_ follows
  refine Asks.within (v := measuring rt page) (P := fun x => ∀ first, told = some first → x = some first) ?_ ?_ asks
    (fun _ _ => trivial) fun _ => id
  · exact fun _ _ _ _ bare => bare.may
  · intro x q reply known _ first same
    obtain rfl := known first same
    exact Measuring.after_told first q reply

theorem Attempt.Asks.measured {attempt : Attempt α} {ok : Custody → α → Prop} {fault : Custody → Fault → Prop}
    (asks : attempt.Asks Request.Plain E) (follows : attempt.Follows custody ok fault c) :
    attempt.Follows ((measuring rt page).rules op) (fun y a => (∀ first, told = some first → y.2 = some first) ∧ ok y.1 a)
      (fun _ _ => True) (c,told) := by
  refine Program.Follows.mono (Program.Asks.measured (asks.mono (fun _ => Request.Plain.bare) fun _ => id) follows) ?_
  rintro y (cause | a) holds
  · trivial
  · exact holds

/-- After the last region was brought nothing matters. -/
theorem Program.Asks.unmeasured {p : Program α} (asks : p.Asks Request.Bare E) :
    p.Follows ((measuring rt page).rules op) (fun _ _ => True) (c,told) :=
  Asks.within (v := measuring rt page) (P := fun _ => True) (fun _ _ _ _ bare => bare.may) (fun _ _ _ _ _ => trivial) asks
    (fun _ _ => trivial) trivial

theorem Attempt.Asks.unmeasured {attempt : Attempt α} (asks : attempt.Asks Request.Bare E) :
    attempt.Follows ((measuring rt page).rules op) (fun _ _ => True) (fun _ _ => True) (c,told) := by
  refine Program.Follows.mono (Program.Asks.unmeasured asks) ?_
  rintro y (cause | a) -
  · trivial
  · trivial

namespace Startup

/-- Only a region with an aligned top is installed. -/
theorem attach_measured {limit : Option UInt64} {size start : UInt64} (sized : rt' = rt → size = page) :
    (attach rt' (mainRegion limit size start)).Follows ((measuring rt page).rules (.start rt')) (fun _ _ => True)
      (fun _ _ => True) (c,some (rt',limit)) := by
  refine .bind (.bind (follows_lift (follows_request trivial ?_)))
  rintro s y ⟨-,-,rfl⟩
  unfold ThreadStack.install
  by_cases aligned : (mainRegion limit size start).Aligned
  · rw [if_neg (not_not_intro aligned)]
    refine follows_lift (follows_request ?_ ?_)
    · rintro ⟨⟩ _ ⟨⟩
      obtain rfl := sized rfl
      exact ⟨limit,start,rfl,rfl,aligned⟩
    rintro ⟨⟩ y ⟨-,-,rfl⟩
    refine Attempt.Asks.unmeasured (E := fun _ => True) (.bind (asks_request (q := .host _ _) trivial) fun _ => ?_)
    exact .bind (asks_request (q := .host _ _) trivial) fun _ => asks_lift (asks_request trivial)
  · rw [if_pos aligned]
    exact follows_throw trivial

theorem detach_asks {r : Region} : (detach r).Asks Request.Bare E := by
  refine .bind (asks_request trivial) fun s => ?_
  split
  · exact .bind (Thread.take_asks trivial rfl) fun _ => trivial
  · trivial

/-- What is installed was made for the limit and a page. -/
theorem bringUp_measured (empty : c.hand = .empty) (starting : c.role = .starting rt' false) :
    (bringUp rt').Follows ((measuring rt page).rules (.start rt')) (fun _ _ => True) (fun _ _ => True) (c,none) := by
  refine .bind (follows_lift (follows_request trivial ?_))
  rintro limit y ⟨-,-,rfl⟩
  refine .bind (follows_lift (follows_request trivial ?_))
  rintro size y ⟨large,even,rfl⟩
  -- Other runtimes may have other pages.
  have sized : rt' = rt → size = page := by simpa [measuring,Request.even,imp_iff_not_or] using even
  have based : ¬c.forget.role.Base := by simp [Custody.forget,starting,Role.Base]
  refine .bind ((Region.allocate_asks.measured
    (Region.allocate_follows (c := c.forget) empty based (.inr large))).mono ?_ fun _ _ _ => trivial)
  rintro ⟨c',x⟩ r ⟨known,sound,usable,guard,rfl⟩
  obtain rfl := known _ rfl
  obtain ⟨start,rfl⟩ : ∃ start, r = mainRegion limit size start :=
    ⟨r.start,by rw [mainRegion,← guard,r.start_add_guard,stackSize,← usable]⟩
  refine .bind (follows_outcome ((attach_measured sized).mono (fun _ _ _ => follows_pure trivial) ?_))
  rintro ⟨c',x⟩ cause -
  refine Attempt.Asks.unmeasured (E := fun _ => True) (.bind (asks_lift detach_asks) fun _ => .bind (asks_lift ?_) fun _ => trivial)
  exact Region.discard_asks.mono (fun _ => Request.Plain.bare) fun _ _ => trivial

theorem attempt_measured :
    (attempt rt').Follows ((measuring rt page).rules (.start rt')) (fun _ _ => True) (fun _ _ => True)
      (.ofOperation (.start rt'),none) := by
  refine .bind (follows_lift (follows_request trivial ?_))
  rintro won y ⟨-,-,rfl⟩
  cases won with
  | false => exact follows_throw trivial
  | true =>
    refine .bind (follows_lift (follows_request trivial ?_))
    rintro setting y ⟨-,-,rfl⟩
    refine .bind (follows_lift (follows_request trivial ?_))
    rintro ⟨⟩ y ⟨-,-,rfl⟩
    refine .bind (follows_outcome ((bringUp_measured rfl rfl).mono ?_ ?_))
    · rintro ⟨c,x⟩ r -
      refine Attempt.Asks.unmeasured (E := fun _ => True) (.bind (asks_lift (asks_request trivial)) fun _ => ?_)
      exact .bind (asks_lift (asks_notice trivial (fun _ => trivial) asks_text)) fun _ => trivial
    · rintro ⟨c,x⟩ cause -
      refine Attempt.Asks.unmeasured (E := fun _ => True) (.bind (asks_lift (asks_request trivial)) fun _ => ?_)
      trivial

end Startup

namespace Spawn

/-- A record is placed only in a region that has passed the check. -/
theorem prepare_measured {attr : Option AttributeRef} {entry : EntryPoint} {arg : UInt64} (empty : c.hand = .empty)
    (free : ¬c.role.Base) (ready : rt' ∈ c.ready) :
    (prepare rt' attr entry arg).Follows ((measuring rt page).rules op)
      (fun y addr => ∃ h : Handoff, y.1.hand = .placed addr h ∧ (h.runtime = rt → h.region.attributes.Passes page))
      (fun _ _ => True) (c,told) := by
  refine .bind ((Attempt.Asks.measured (Host.attributes_asks.mono (fun _ => Request.Quiet.plain) fun _ => id)
    (E := fun _ => True) (Host.attributes_follows (c := c))).mono ?_ fun _ _ _ => trivial)
  rintro ⟨c',x⟩ a ⟨-,rfl⟩
  refine .bind (follows_lift (follows_request trivial ?_))
  rintro size y ⟨large,even,rfl⟩
  have sized : rt' = rt → size = page := by simpa [measuring,Request.even,imp_iff_not_or] using even
  obtain ⟨verdict,told',-⟩ := a.validate_verdict large
  refine .bind (follows_lift (follows_checked told' ?_))
  cases verdict with
  | error cause => exact follows_throw trivial
  | ok done =>
    obtain ⟨nonempty,-,-⟩ := StackAttributes.of_validate told'
    refine .bind ((Region.allocate_asks.measured
      (Region.allocate_follows (c := c.forget) empty free (.inl nonempty))).mono ?_ fun _ _ _ => trivial)
    rintro ⟨c',x⟩ r ⟨-,sound,usable,guard,rfl⟩
    have passes (same : rt' = rt) : r.attributes.Passes page := by
      rw [← sized same,show r.attributes = a by rw [Region.attributes,usable,guard]]
      exact told'
    have placed := Handoff.place_follows (h := ⟨entry,arg,r,rt'⟩) (c := { c with hand := .held (r.mapping rt'), seen := none })
      sound rfl ready
    refine .bind (follows_outcome ((Attempt.Asks.measured (Handoff.place_asks.mono (fun _ => Request.Quiet.plain) fun _ => id)
      placed).mono ?_ ?_))
    · rintro ⟨c',x⟩ addr ⟨-,rfl⟩
      have told {c : Custody} {s : String} : (trace (pure s)).Follows custody (fun y _ => y = c) c :=
        follows_trace custody_silent follows_text rfl
      refine .bind (follows_lift ((Program.Asks.measured (E := fun _ => True) (asks_trace trivial (fun _ => trivial) asks_text)
        told).mono ?_))
      rintro y ⟨⟩ ⟨-,same⟩
      exact follows_pure ⟨⟨entry,arg,r,rt'⟩,by rw [same],passes⟩
    · rintro ⟨c',x⟩ cause -
      refine .bind (follows_lift ((Program.Asks.unmeasured (E := fun _ => True) ?_).mono fun _ _ _ => follows_throw trivial))
      exact Region.discard_asks.mono (fun _ => Request.Plain.bare) fun _ _ => trivial

theorem intercept_measured {handle : UInt64} {attr : Option AttributeRef} {entry : EntryPoint} {arg : UInt64} :
    (intercept rt' handle attr entry arg).Follows ((measuring rt page).rules op) (fun _ _ => True)
      (.ofOperation (.spawn rt' handle attr entry arg),told) := by
  refine .bind (follows_request trivial ?_)
  rintro phase y ⟨-,-,rfl⟩
  split
  next ready =>
    subst ready
    have prepared := @prepare_measured rt rt' page op ⟨.empty,.plain,none,[rt'],none⟩ told attr entry arg rfl id
      (List.mem_singleton_self _)
    refine .bind (follows_orAbort_ends (prepared.mono ?_ fun _ _ _ _ => trivial) fun _ => trivial)
    rintro ⟨c,x⟩ addr ⟨h,placed,passes⟩
    refine .bind (follows_request ?_ ?_)
    · intro h' placed'
      obtain ⟨-,rfl⟩ := Hand.placed.inj (placed.symm.trans placed')
      exact passes
    rintro code y ⟨-,-,rfl⟩
    split
    · trivial
    · refine Program.Asks.unmeasured (E := fun _ => True) ?_
      refine .bind (Handoff.take_asks (fun _ _ => trivial) fun _ _ => trivial) fun handoff => ?_
      refine .bind (asks_orAbort (Region.release_asks.mono (fun _ => Request.Plain.bare) fun _ _ => trivial) (fun _ => trivial)
        fun _ => trivial) fun _ => ?_
      trivial
  next => exact .bind (follows_request trivial fun _ _ _ => trivial)

end Spawn

/-- What a thread runs for its own sake asks for no thread, and is no attempt. -/
theorem Watch.Keeps.measured {x : Errand} {rest : Program op.Result} (keeps : errands.Keeps op rest c x)
    (inner : op ≠ .start rt) (own : x ≠ .outer) : (measuring rt page).Keeps op rest c told := by
  refine (Program.Follows.simulate (e := (measuring rt page).rules op) (R := fun y x => y.1 = x.1 ∧ x.2 ≠ .outer) keeps
    (y := (c,told)) ⟨rfl,own⟩ (fun _ _ => trivial) ?_ ?_).mono fun _ _ _ => trivial
  · rintro ⟨_,x⟩ ⟨c,told⟩ q ⟨rfl,own⟩ may
    cases q with
    | mapper | enter => trivial
    | host rt call =>
      cases call with
      | spawn call =>
        cases x with
        | outer => exact absurd rfl own
        | arrival | departure => exact may.elim
      | _ => trivial
    | state call =>
      cases call with
      | setStack s => exact fun same => absurd same inner
      | _ => trivial
  · rintro ⟨_,x⟩ ⟨c,told⟩ q reply y' ⟨rfl,own⟩ - ⟨expected,-,rfl⟩
    refine ⟨(c.after q reply,x.after q reply),⟨expected,trivial,rfl⟩,rfl,?_⟩
    cases x with
    | outer => exact absurd rfl own
    | arrival record => simp [Errand.after]
    | departure value s acted =>
      obtain ⟨acted',same⟩ := Errand.after_departure value s acted q reply
      simp [same]

theorem measuring_covers : (measuring rt page).Covers where
  call {n t op told} named starts := by
    obtain rfl : none = told := Option.some.inj starts
    cases op with
    | start rt =>
      refine Program.Follows.mono Startup.attempt_measured ?_
      rintro y (cause | r) -
      · trivial
      · trivial
    | spawn rt handle attr entry arg => exact Spawn.intercept_measured
    | body | destroy => simp [Operation.runtime?] at named
  body {n t call record told} sound starts :=
    (errands_covers.body (n := n) (t := t) sound rfl).measured (by simp) (by simp)
  destroy {n t rt key value s told} whole starts :=
    (@errands_covers.destroy n t rt key value s _ whole rfl).measured (by simp) (by simp)

end
end GuardedStack
