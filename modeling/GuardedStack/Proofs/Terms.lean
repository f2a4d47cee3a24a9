import GuardedStack.Proofs.Commission

/-! The terms of a spawn: the attributes that its host reports and the mapping that is made for them. What the creating
thread checks of the attributes is all that the new thread relies on: with page-aligned mappings it cannot stop but for
a key that the host does not set. Nothing else need work. -/
namespace GuardedStack

open Program Attempt

/-- The region of a thread with these attributes, whose mapping starts there. -/
def StackAttributes.region (a : StackAttributes) (start : UInt64) : Region := ⟨start + a.guard,a.size,a.guard⟩

@[simp] theorem StackAttributes.start_region (a : StackAttributes) (start : UInt64) : (a.region start).start = start := by
  simp [region,Region.start]

/-- What a spawn is told. -/
inductive Term where
  | given (rt : RuntimeId) (a : StackAttributes)
  | mapped (m : Mapping)
  deriving DecidableEq

namespace Term

def ofReply : (q : Request) → q.Reply → Option Term
  | .host rt .defaultAttributes, .ok a => some (given rt a)
  | .host rt (.requestedAttributes _), .ok a => some (given rt a)
  | .mapper rt (.map len _), .ok addr => some (mapped ⟨rt,addr,len⟩)
  | _, _ => none

theorem ofReply_inner {q : Request} {reply : q.Reply} (inner : q.Inner) : ofReply q reply = none := by
  unfold ofReply
  split <;> first | rfl | exact inner.elim

end Term

open Term

/-- What a spawn hands to the primitive, after it was told the attributes and the start of a mapping. -/
structure Launches (o : Commission) (c : Custody) (terms : List Term) (a : StackAttributes) (start : UInt64)
    (rt : RuntimeId) (call : SpawnCall) : Prop where
  runtime : rt = o.runtime
  terms : terms = [mapped ((a.region start).mapping o.runtime),given o.runtime a]
  sound : (a.region start).Sound
  aligned : (a.region start).Aligned
  call : call = o.call ((a.region start).top - Handoff.size)
  placed : c.hand = .placed ((a.region start).top - Handoff.size) (o.record (a.region start))

def Request.stores : Request → Bool
  | .state (.store _ _) => true
  | _ => false

/-- What a new thread may ask for: it blanks its record, and writes no memory after that. -/
inductive Arrives (addr : UInt64) (h : Handoff) (c : Custody) : Bool → Request → Prop
  | read {count : Nat} : Arrives addr h c false (.state (.load addr count))
  | blank : Arrives addr h c false (.state (.store addr Handoff.blank))
  | install {q : Request} : c.hand = .held h.mapping → q.stores = false → Arrives addr h c true q
  | arm {q : Request} : c.role = .arming → q.stores = false → Arrives addr h c true q
  | enter : c.role = .settled → Arrives addr h c true (.enter h.start h.arg)

inductive Launching where
  | offer (o : Commission) (terms : List Term)
  /-- A new thread that began with the record, which is blanked by now or not. -/
  | arrival (addr : UInt64) (record : Handoff) (blanked : Bool)

namespace Launching

def ofDealing : Dealing → Launching
  | .offer o _ => offer o []
  | .arrival addr record _ _ => arrival addr record false

/-- What is watched when a spawn is dealt with is watched here. -/
def start (rt : RuntimeId) (e : Event) : Option Launching := (Dealing.start rt e).map ofDealing

theorem of_start {rt : RuntimeId} {e : Event} {x : Launching} (starts : start rt e = some x) :
    (∃ n t o, o.runtime = rt ∧ e = .called n t o.operation ∧ x = offer o []) ∨
      ∃ n t call record, record.runtime = rt ∧ record.region.Aligned ∧ call.arg ≠ 0 ∧ e = .began n t call record ∧
        x = arrival call.arg record false := by
  obtain ⟨deal,begins,rfl⟩ := Option.map_eq_some_iff.mp starts
  rcases Dealing.of_start begins with ⟨n,t,o,own,same,rfl⟩ | ⟨n,t,call,record,own,aligned,present,same,rfl⟩
  · exact .inl ⟨n,t,o,own,same,rfl⟩
  · exact .inr ⟨n,t,call,record,own,aligned,present,same,rfl⟩

def after (x : Launching) (q : Request) (reply : q.Reply) : Launching :=
  match x with
  | offer o terms => offer o ((ofReply q reply).toList ++ terms)
  | arrival addr record blanked => arrival addr record (q.stores || blanked)

def May (op : Operation) (c : Custody) (x : Launching) (q : Request) : Prop :=
  match x with
  | offer o terms => op = o.operation ∧
      ∀ {rt call}, q = .host rt (.spawn call) → ∃ a start, Launches o c terms a start rt call
  | arrival addr record blanked => op = .body .fromRecord addr ∧ Arrives addr record c blanked q

end Launching

/-- The runtime's mapper keeps to a page size, and its mappings start at multiples of that. -/
def Request.even (rt : RuntimeId) (page : UInt64) : (q : Request) → q.Reply → Bool
  | .mapper rt' .pageSize, size => rt' ≠ rt ∨ size = page
  | .mapper rt' (.map _ _), .ok addr => rt' ≠ rt ∨ page.toNat ∣ addr.toNat
  | _, _ => true

/-- If the runtime's host does not set its key, it says one of these causes. -/
def Request.Keyed (rt : RuntimeId) (causes : Fault → Prop) : (q : Request) → q.Reply → Prop
  | .host rt' (.setCleanupValue _ _), .error cause => rt' = rt → causes cause
  | _, _ => True

/-- A new thread stops only for want of its key. -/
def launching (rt : RuntimeId) (page : UInt64) (causes : Fault → Prop) : Watch Launching where
  start := Launching.start rt
  after := Launching.after
  may := Launching.May
  grants q reply := q.even rt page reply ∧ q.Keyed rt causes reply
  ends _ _ _ := True
  stops
    | .body _ _, reason => ∃ cause, causes cause ∧ reason = .aborted (.fault Diagnostics.Duty.arming.text cause)
    | _, _ => True

section
variable {o : Commission} {page : UInt64} {causes : Fault → Prop} {c : Custody} {told : List Term}

/-- Everything but the primitive itself may be asked at any time. -/
theorem Launching.may_offer {q : Request} (other : ∀ rt call, q ≠ .host rt (.spawn call)) :
    Launching.May o.operation c (.offer o told) q :=
  ⟨rfl,fun same => absurd same (other _ _)⟩

theorem offer_calm : (launching o.runtime page causes).Calm o.operation (.offer o told) where
  may c q inner := by
    apply Launching.may_offer
    rintro rt call rfl
    exact inner
  after q reply inner := by simp [launching,Launching.after,ofReply_inner inner]
  stops _ _ := trivial

/-- A part of a spawn that does not ask the primitive. -/
theorem Program.Asks.terms {p : Program α} {E : Stop → Prop} (asks : p.Asks Request.Plain E) :
    p.Follows ((launching o.runtime page causes).rules o.operation) (fun y _ => ∃ told, y.2 = .offer o told)
      (c,.offer o told) := by
  refine Program.Asks.within (v := launching o.runtime page causes) (P := fun x => ∃ told, x = .offer o told) ?_ ?_ asks
    (fun _ _ => trivial) ⟨told,rfl⟩
  · rintro c _ q ⟨told,rfl⟩ plain
    apply Launching.may_offer
    rintro rt call rfl
    exact plain
  · rintro _ q reply ⟨told,rfl⟩ -
    exact ⟨_,rfl⟩

/-- A report leaves everything as it is. -/
theorem Program.trace_terms {text : Program String} (asks : text.Asks Request.Inner fun _ => True)
    (follows : text.Follows custody (fun y _ => y = c) c) :
    (trace text).Follows ((launching o.runtime page causes).rules o.operation) (fun y _ => y = (c,.offer o told))
      (c,.offer o told) := by
  have told : (trace text).Follows custody (fun y _ => y = c) c := follows_trace custody_silent follows rfl
  refine (offer_calm.follows (asks_trace trivial (fun _ => trivial) asks) told).mono ?_
  rintro ⟨c,x⟩ ⟨⟩ ⟨rfl,rfl⟩
  rfl

theorem Host.attributes_terms :
    (attributes o.runtime o.attr).Follows ((launching o.runtime page causes).rules o.operation)
      (fun y a => y = (c.forget,.offer o (given o.runtime a :: told))) (fun y _ => ∃ told, y.2 = .offer o told)
      (c,.offer o told) := by
  cases o.attr with
  | none =>
    refine follows_ofProgram (follows_request (Launching.may_offer (by simp)) ?_)
    rintro (cause | a) y ⟨-,-,rfl⟩
    · exact ⟨told,rfl⟩
    · rfl
  | some attr =>
    refine follows_ofProgram (follows_request (Launching.may_offer (by simp)) ?_)
    rintro (cause | a) y ⟨-,-,rfl⟩
    · exact ⟨told,rfl⟩
    · rfl

namespace Region

/-- A guard that is closed leaves the terms as they are. -/
theorem closeGuard_terms {start total guard : UInt64} :
    (closeGuard o.runtime start total guard).Follows ((launching o.runtime page causes).rules o.operation)
      (fun y _ => y = (c.forget,.offer o told)) (fun y _ => ∃ told, y.2 = .offer o told) (c,.offer o told) := by
  refine .bind (follows_outcome (follows_ofProgram (follows_request (Launching.may_offer (by simp)) ?_)))
  rintro (cause | _) y ⟨-,-,rfl⟩
  · refine .bind (follows_outcome (follows_ofProgram (follows_request (Launching.may_offer (by simp)) ?_)))
    rintro (leftover | _) y ⟨-,-,rfl⟩
    · refine .bind (follows_lift ((trace_terms asks_text follows_text).mono ?_))
      rintro y ⟨⟩ rfl
      exact ⟨told,rfl⟩
    · exact ⟨told,rfl⟩
  · rfl

theorem allocate_terms {size guard : UInt64} (nonempty : size ≠ 0) :
    (allocate o.runtime size guard).Follows ((launching o.runtime page causes).rules o.operation)
      (fun y r => page.toNat ∣ r.start.toNat ∧ y.2 = .offer o (mapped (r.mapping o.runtime) :: told))
      (fun y _ => ∃ told, y.2 = .offer o told) (c,.offer o told) := by
  unfold allocate
  cases sum : Checked.add size guard with
  | error _ => exact ⟨told,rfl⟩
  | ok total =>
    have positive := Checked.add_ne_zero sum (.inl nonempty)
    refine .bind (follows_ofProgram (follows_request (Launching.may_offer (by simp)) ?_))
    rintro (cause | start) y ⟨proper,⟨even,-⟩,rfl⟩
    · exact ⟨told,rfl⟩
    obtain ⟨sound,whole⟩ := Mapping.Proper.region proper sum positive
    have place : page.toNat ∣ start.toNat := by simpa [Request.even] using even
    have start_eq : (⟨start + guard,size,guard⟩ : Region).start = start := by simp [Region.start]
    have report (c : Custody) : (trace (Program.checked (Checked.add (start + guard) size) >>= fun top =>
        pure s!"mapped unsafe stack {hex (start + guard)}..{hex top} (guard {hex guard})")).Follows
          ((launching o.runtime page causes).rules o.operation)
            (fun y _ => y = (c,.offer o (mapped ⟨o.runtime,start,total⟩ :: told)))
              (c,.offer o (mapped ⟨o.runtime,start,total⟩ :: told)) :=
      trace_terms (.bind ((asks_checked _).mono (fun _ => id) fun _ _ => trivial) fun _ => asks_text)
        (made_text (r := ⟨start + guard,size,guard⟩) sound)
    dsimp only
    split
    · refine .bind (closeGuard_terms.mono ?_ fun _ _ => id)
      rintro y ⟨⟩ rfl
      refine .bind (follows_lift ((report _).mono ?_))
      rintro y ⟨⟩ rfl
      exact follows_pure ⟨by rwa [start_eq],by rw [whole]⟩
    · refine .bind (follows_lift ((report _).mono ?_))
      rintro y ⟨⟩ rfl
      exact follows_pure ⟨by rwa [start_eq],by rw [whole]⟩

end Region

/-- The record goes flush against the top of an aligned region. -/
theorem Handoff.place_terms {r : Region} (sound : r.Sound) (aligned : r.Aligned) :
    (place (o.record r)).Follows ((launching o.runtime page causes).rules o.operation)
      (fun y addr => addr = r.top - size ∧ y.2 = .offer o told) (fun y _ => y.2 = .offer o told) (c,.offer o told) := by
  refine .bind ((slot_aligned sound aligned).mono ?_ fun _ _ same => congrArg Prod.snd same)
  rintro y addr ⟨rfl,rfl⟩
  refine .bind (follows_lift (follows_request (Launching.may_offer (by simp)) ?_))
  rintro ⟨⟩ y ⟨-,-,rfl⟩
  exact follows_pure ⟨rfl,rfl⟩

namespace Spawn

theorem prepare_terms (paged : PageSize page) (empty : c.hand = .empty) (free : ¬c.role.Base) (ready : o.runtime ∈ c.ready) :
    (prepare o.runtime o.attr o.entry o.arg).Follows ((launching o.runtime page causes).rules o.operation)
      (fun y addr => ∃ told a start, y.2 = .offer o told ∧ Launches o y.1 told a start o.runtime (o.call addr))
      (fun y _ => ∃ told, y.2 = .offer o told) (c,.offer o []) := by
  refine .bind (Host.attributes_terms.mono ?_ fun _ _ => id)
  rintro y a rfl
  refine .bind (follows_lift (follows_request (Launching.may_offer (by simp)) ?_))
  rintro size y ⟨large,⟨even,-⟩,rfl⟩
  obtain rfl : size = page := by simpa [Request.even] using even
  obtain ⟨verdict,checked_,-⟩ := a.validate_verdict large
  refine .bind (follows_lift (follows_checked checked_ ?_))
  cases verdict with
  | error cause => exact follows_throw ⟨_,rfl⟩
  | ok done =>
    obtain ⟨nonempty,usable,guard⟩ := StackAttributes.of_validate checked_
    refine .bind ((Watch.attempt_with_custody (c := c.forget) (x := Launching.offer o [given o.runtime a])
      (Region.allocate_terms nonempty) (Region.allocate_follows empty free (.inl nonempty))).mono ?_ fun _ _ => And.left)
    rintro ⟨c',x⟩ r ⟨⟨whole,rfl⟩,sound,usable_eq,guard_eq,rfl⟩
    obtain ⟨start,rfl⟩ : ∃ start, r = a.region start :=
      ⟨r.start,by rw [StackAttributes.region,← usable_eq,← guard_eq,r.start_add_guard]⟩
    have aligned := sound.aligned paged whole guard usable
    have placed := Handoff.place_follows (h := o.record (a.region start)) (c := { c with
      hand := .held ((a.region start).mapping o.runtime), seen := none }) sound rfl ready
    refine .bind (follows_outcome ((Watch.attempt_with_custody (Handoff.place_terms sound aligned) placed).mono ?_ ?_))
    · rintro ⟨c',x⟩ addr ⟨⟨rfl,rfl⟩,rfl⟩
      refine .bind (follows_lift ((trace_terms asks_text follows_text).mono ?_))
      rintro y ⟨⟩ rfl
      exact follows_pure ⟨_,a,start,rfl,rfl,rfl,sound,aligned,rfl,rfl⟩
    · rintro ⟨c',x⟩ cause ⟨rfl,rfl⟩
      refine .bind (follows_lift ((Region.discard_asks.terms).mono ?_))
      exact fun y _ released => follows_throw released

theorem intercept_terms (paged : PageSize page) :
    (intercept o.runtime o.handle o.attr o.entry o.arg).Follows ((launching o.runtime page causes).rules o.operation)
      (fun _ _ => True) (.ofOperation o.operation,.offer o []) := by
  refine .bind (follows_request (Launching.may_offer (by simp)) ?_)
  rintro phase y ⟨-,-,rfl⟩
  split
  next ready =>
    subst ready
    have prepared := @prepare_terms o page causes ⟨.empty,.plain,none,[o.runtime],none⟩ paged rfl id
      (List.mem_singleton_self _)
    refine .bind (follows_orAbort_ends (prepared.mono ?_ ?_) fun _ => trivial)
    · rintro ⟨c,x⟩ addr ⟨told,a,start,rfl,launches⟩
      refine .bind (follows_request ⟨rfl,?_⟩ ?_)
      · rintro rt call ⟨⟩
        exact ⟨a,start,launches⟩
      rintro code y ⟨-,-,rfl⟩
      split
      · trivial
      · refine Program.Follows.mono (Program.Asks.terms (E := fun _ => True) ?_) fun _ _ _ => trivial
        refine .bind (Handoff.take_asks (fun _ _ => trivial) fun _ _ => trivial) fun handoff => ?_
        refine .bind (asks_orAbort (Region.release_asks.mono (fun _ => id) fun _ _ => trivial) (fun _ => trivial)
          fun _ => trivial) fun _ => ?_
        trivial
    · rintro ⟨c,x⟩ cause ⟨told,rfl⟩ line
      exact Launching.may_offer (by simp)
  next => exact .bind (follows_request (Launching.may_offer (by simp)) fun _ _ _ => trivial)

/-- A new thread that is given an aligned region stops only for want of its key. -/
theorem firstFrame_launches {h : Handoff} {addr : UInt64} (aligned : h.region.Aligned) (present : addr ≠ 0) :
    (firstFrame addr).Follows ((launching h.runtime page causes).rules (.body .fromRecord addr)) (fun _ _ => True)
      (.ofRecord addr h,.arrival addr h false) := by
  unfold firstFrame
  rw [if_neg present]
  refine .bind (.bind (follows_request ⟨rfl,.read⟩ ?_))
  rintro bytes y ⟨written,-,rfl⟩
  obtain rfl := written h rfl rfl
  refine .bind (follows_request ⟨rfl,.blank⟩ ?_)
  rintro ⟨⟩ y ⟨-,-,rfl⟩
  rw [Handoff.decode_encode]
  refine .bind (follows_orAbort_ok (.bind (follows_lift (follows_request ⟨rfl,.install rfl rfl⟩ ?_))))
  rintro s y ⟨⟨-,again,-⟩,-,rfl⟩
  obtain rfl := again _ rfl
  rw [show ThreadStack.empty.install ⟨h.region,h.runtime⟩ = (.ok (),⟨h.region.top,some ⟨h.region,h.runtime⟩⟩) from
    if_neg (not_not.mpr aligned)]
  refine follows_lift (follows_request ⟨rfl,.install rfl rfl⟩ ?_)
  rintro ⟨⟩ y ⟨-,-,rfl⟩
  refine .bind (.bind (follows_request ⟨rfl,.arm rfl rfl⟩ ?_))
  rintro (_ | key) y ⟨kept,-,rfl⟩
  · exact absurd rfl (kept (List.mem_singleton_self _))
  refine .bind (follows_orAbort_reports (follows_ofProgram (follows_request ⟨rfl,.arm rfl rfl⟩ ?_)))
  rintro (cause | _) y ⟨-,⟨-,keyed⟩,rfl⟩
  · exact ⟨fun line => ⟨rfl,.arm rfl rfl⟩,cause,keyed rfl,rfl⟩
  · exact follows_request ⟨rfl,.enter rfl⟩ fun _ _ _ => trivial

end Spawn

theorem launching_covers {rt : RuntimeId} (paged : PageSize page) : (launching rt page causes).Covers where
  call {n t op x} named starts := by
    rcases Launching.of_start starts with ⟨_,_,o,rfl,same,rfl⟩ | ⟨_,_,_,_,-,-,-,clash,-⟩
    · cases same
      exact Spawn.intercept_terms paged
    · cases clash
  body {n t call record x} sound starts := by
    have starts : Launching.start rt (.began n t call record) = some x := starts
    rcases Launching.of_start starts with ⟨_,_,_,-,clash,-⟩ | ⟨_,_,_,_,rfl,aligned,present,same,rfl⟩
    · cases clash
    · cases same
      exact Spawn.firstFrame_launches aligned present
  destroy sound starts := by cases starts

end
end GuardedStack
