import GuardedStack.Proofs.Bids

/-! What a wanted thread goes through on its way. The creating thread maps one region, puts a record into it and asks the
primitive once; if that starts no thread it unmaps the region again. The new thread makes six requests for its own sake
and then calls the function. Here the surroundings of the runtime work, up to the primitive, and keep to a page size. -/
namespace GuardedStack

/-- What counts on the way. -/
inductive Deal where
  | mapped (m : Mapping)
  | unmapped (m : Mapping)
  /-- The primitive that starts threads was asked and gave this code. -/
  | asked (rt : RuntimeId) (call : SpawnCall) (code : Int32)
  /-- A thread's function was called with this argument and gave this result. -/
  | entered (entry : EntryPoint) (arg result : UInt64)
  deriving DecidableEq

namespace Deal

def ofReply : (q : Request) → q.Reply → Option Deal
  | .mapper rt (.map len _), .ok addr => some (mapped ⟨rt,addr,len⟩)
  | .mapper rt (.unmap addr len), .ok () => some (unmapped ⟨rt,addr,len⟩)
  | .host rt (.spawn call), code => some (asked rt call code)
  | .enter entry arg, result => some (entered entry arg result)
  | _, _ => none

theorem ofReply_quiet {q : Request} {reply : q.Reply} (quiet : q.Quiet) : ofReply q reply = none := by
  unfold ofReply
  split <;> first | rfl | exact quiet.elim

/-- The live mappings after the deal. -/
def live : Deal → List Mapping → List Mapping
  | mapped m, before => m :: before
  | unmapped m, before => before.filter (· ≠ m)
  | asked _ _ _, before | entered _ _ _, before => before

theorem of_asked {q : Request} {reply : q.Reply} {rt : RuntimeId} {call : SpawnCall} {code : Int32}
    (is : ofReply q reply = some (asked rt call code)) :
    (⟨q,reply⟩ : (q : Request) × q.Reply) = ⟨.host rt (.spawn call),code⟩ := by
  unfold ofReply at is
  split at is <;> cases is
  rfl

theorem of_mapped {q : Request} {reply : q.Reply} {m : Mapping} (is : ofReply q reply = some (mapped m)) :
    ∃ rights, (⟨q,reply⟩ : (q : Request) × q.Reply) = ⟨.mapper m.runtime (.map m.len rights),.ok m.addr⟩ := by
  unfold ofReply at is
  split at is <;> cases is
  exact ⟨_,rfl⟩

/-- An answer that neither maps nor unmaps anything is no deal about mappings. -/
theorem live_still {q : Request} {reply : q.Reply} {n : Nat} {t : ThreadId} {live : List Mapping}
    (still : ∀ m, ¬((Event.answered n t q reply).Maps m ∨ (Event.answered n t q reply).Unmaps m)) :
    (ofReply q reply).toList.foldr Deal.live live = live := by
  unfold ofReply
  split
  · exact absurd (.inl rfl) (still _)
  · exact absurd (.inr rfl) (still _)
  · rfl
  · rfl
  · rfl

end Deal

open Deal

/-- A thread that outside code wants. -/
structure Commission where
  runtime : RuntimeId
  handle : UInt64
  attr : Option AttributeRef
  entry : EntryPoint
  arg : UInt64

namespace Commission

abbrev operation (o : Commission) : Operation := .spawn o.runtime o.handle o.attr o.entry o.arg

/-- The call of the primitive on a record at the address. -/
def call (o : Commission) (addr : UInt64) : SpawnCall := ⟨o.handle,o.attr,.fromRecord,addr⟩

/-- The record in the region. -/
def record (o : Commission) (r : Region) : Handoff := ⟨o.entry,o.arg,r,o.runtime⟩

/-- All deals of a spawn that has returned with the code, the newest first. -/
def concluded (o : Commission) (m : Mapping) (addr : UInt64) (code : Int32) : List Deal :=
  if code = 0 then [asked o.runtime (o.call addr) code,mapped m]
  else [unmapped m,asked o.runtime (o.call addr) code,mapped m]

end Commission

/-- What the creating thread may ask for after these deals. -/
inductive Offers (o : Commission) (c : Custody) : List Deal → Request → Prop
  | quiet {deals : List Deal} {q : Request} : q.Quiet → Offers o c deals q
  | map {len : UInt64} : len ≠ 0 → Offers o c [] (.mapper o.runtime (.map len .readWrite))
  /-- The record did not fit. -/
  | drop {m : Mapping} : Offers o c [mapped m] (.mapper o.runtime (.unmap m.addr m.len))
  | spawn {r : Region} {addr : UInt64} : r.Aligned → c.hand = .placed addr (o.record r) →
      Offers o c [mapped (r.mapping o.runtime)] (.host o.runtime (.spawn (o.call addr)))
  | release {m : Mapping} {addr : UInt64} {code : Int32} : code ≠ 0 →
      Offers o c [asked o.runtime (o.call addr) code,mapped m] (.mapper o.runtime (.unmap m.addr m.len))

namespace Offers

variable {o : Commission} {c : Custody} {deals : List Deal} {rt : RuntimeId}

theorem of_spawn {call : SpawnCall} (offers : Offers o c deals (.host rt (.spawn call))) :
    rt = o.runtime ∧ ∃ r : Region, ∃ addr, call = o.call addr ∧ r.Aligned ∧ c.hand = .placed addr (o.record r) := by
  cases offers with
  | quiet quiet => exact quiet.elim
  | spawn aligned placed => exact ⟨rfl,_,_,rfl,aligned,placed⟩

/-- Only one mapping is made. -/
theorem of_map {len : UInt64} {rights : Rights} (offers : Offers o c deals (.mapper rt (.map len rights))) :
    deals = [] ∧ len ≠ 0 := by
  cases offers with
  | quiet quiet => exact quiet.elim
  | map nonempty => exact ⟨rfl,nonempty⟩

theorem not_setStack {s : ThreadStack} : ¬Offers o c deals (.state (.setStack s)) := by
  rintro ⟨⟩
  next quiet => exact quiet

theorem not_setCleanupValue {key : CleanupKey} {value : UInt64} :
    ¬Offers o c deals (.host rt (.setCleanupValue key value)) := by
  rintro ⟨⟩
  next quiet => exact quiet

end Offers

/-- Requests that a new thread makes before it calls its function. -/
def Request.Inward : Request → Prop
  | .state _ | .host _ (.setCleanupValue _ _) => True
  | _ => False

inductive Dealing where
  | offer (o : Commission) (deals : List Deal)
  /-- A new thread that began with the record, after so many answers. -/
  | arrival (addr : UInt64) (record : Handoff) (steps : Nat) (deals : List Deal)

namespace Dealing

/-- Only what concerns the runtime is watched. -/
def start (rt : RuntimeId) : Event → Option Dealing
  | .called _ _ (.spawn rt' handle attr entry arg) =>
    if rt' = rt then some (.offer ⟨rt',handle,attr,entry,arg⟩ []) else none
  | .began _ _ call record =>
    if record.runtime = rt ∧ record.region.Aligned ∧ call.arg ≠ 0 then some (.arrival call.arg record 0 []) else none
  | _ => none

theorem of_start {rt : RuntimeId} {e : Event} {x : Dealing} (starts : start rt e = some x) :
    (∃ n t o, o.runtime = rt ∧ e = .called n t o.operation ∧ x = offer o []) ∨
      ∃ n t call record, record.runtime = rt ∧ record.region.Aligned ∧ call.arg ≠ 0 ∧ e = .began n t call record ∧
        x = arrival call.arg record 0 [] := by
  unfold start at starts
  split at starts
  · split at starts
    next same =>
      cases starts
      exact .inl ⟨_,_,_,same,rfl,rfl⟩
    · cases starts
  · split at starts
    next fit =>
      cases starts
      exact .inr ⟨_,_,_,_,fit.1,fit.2.1,fit.2.2,rfl,rfl⟩
    · cases starts
  · cases starts

def after (x : Dealing) (q : Request) (reply : q.Reply) : Dealing :=
  match x with
  | offer o deals => offer o ((ofReply q reply).toList ++ deals)
  | arrival addr record steps deals => arrival addr record (steps + 1) ((ofReply q reply).toList ++ deals)

def May (op : Operation) (c : Custody) (x : Dealing) (q : Request) : Prop :=
  match x with
  | offer o deals => op = o.operation ∧ Offers o c deals q
  | arrival addr record steps deals => op = .body .fromRecord addr ∧ deals = [] ∧
      (steps < 6 ∧ q.Inward ∨ steps = 6 ∧ q = .enter record.start record.arg)

def Ends (op : Operation) (x : Dealing) (result : op.Result) : Prop :=
  match x with
  | offer o deals => ∃ code addr, ∃ r : Region, r.Sound ∧ (⟨op,result⟩ : (op : Operation) × op.Result) = ⟨o.operation,code⟩ ∧
      deals = o.concluded (r.mapping o.runtime) addr code
  | arrival addr record _ deals => ∃ value, (⟨op,result⟩ : (op : Operation) × op.Result) = ⟨.body .fromRecord addr,value⟩ ∧
      deals = [entered record.start record.arg value]

end Dealing

/-- The surroundings of the runtime do what they are asked to, and mappings start at multiples of the page size. -/
def Request.smooth (rt : RuntimeId) (page : UInt64) : (q : Request) → q.Reply → Bool
  | .mapper rt' .pageSize, size => rt' ≠ rt ∨ size = page
  | .mapper rt' (.map _ _), .ok addr => rt' ≠ rt ∨ page.toNat ∣ addr.toNat
  | .mapper rt' (.map _ _), .error _ => rt' ≠ rt
  | .mapper rt' (.protect _ _ _), .error _ => rt' ≠ rt
  | .mapper rt' (.unmap _ _), .error _ => rt' ≠ rt
  | .host rt' (.setCleanupValue _ _), .error _ => rt' ≠ rt
  | _, _ => true

/-- The wanted thread was refused before the primitive was asked. -/
def Stop.Refused : Stop → Prop
  | .aborted (.fault what _) => what = Diagnostics.Duty.preparing.text
  | .aborted (.check what _) => what = "self.is_ready()"
  | _ => False

/-- A new thread never stops. -/
def dealing (rt : RuntimeId) (page : UInt64) : Watch Dealing where
  start := Dealing.start rt
  after := Dealing.after
  may := Dealing.May
  grants q reply := q.smooth rt page reply
  ends := Dealing.Ends
  stops
    | .spawn _ _ _ _ _, reason => reason.Refused
    | _, _ => False

open Program Attempt

section
variable {o : Commission} {page : UInt64} {c : Custody} {deals : List Deal}

theorem Offers.may {q : Request} (offers : Offers o c deals q) :
    (dealing o.runtime page).may o.operation c (.offer o deals) q :=
  ⟨rfl,offers⟩

/-- A part of a spawn that makes only quiet requests. -/
theorem Program.Asks.offers {p : Program α} {post : Custody → α → Prop} (asks : p.Asks Request.Quiet Stop.Overflow)
    (follows : p.Follows custody post c) :
    p.Follows ((dealing o.runtime page).rules o.operation) (fun y a => y.2 = .offer o deals ∧ post y.1 a)
      (c,.offer o deals) := by
  refine Program.Asks.follows (v := dealing o.runtime page) (fun _ _ quiet => Offers.may (.quiet quiet)) ?_ asks follows ?_
  · intro q reply quiet
    simp [dealing,Dealing.after,ofReply_quiet quiet]
  · rintro (operation | _ | _ | _) overflow known
    · exact known.elim
    all_goals exact overflow.elim

theorem Attempt.Asks.offers {attempt : Attempt α} {ok : Custody → α → Prop} {fault : Custody → Fault → Prop}
    (asks : attempt.Asks Request.Quiet Stop.Overflow) (follows : attempt.Follows custody ok fault c) :
    attempt.Follows ((dealing o.runtime page).rules o.operation) (fun y a => y.2 = .offer o deals ∧ ok y.1 a)
      (fun y cause => y.2 = .offer o deals ∧ fault y.1 cause) (c,.offer o deals) := by
  refine Program.Follows.mono (Program.Asks.offers asks follows) ?_
  rintro y (cause | a) holds
  · exact holds
  · exact holds

/-- A report leaves everything as it is. -/
theorem Program.trace_offers {text : Program String} (asks : text.Asks Request.Quiet Stop.Overflow)
    (follows : text.Follows custody (fun y _ => y = c) c) :
    (trace text).Follows ((dealing o.runtime page).rules o.operation) (fun y _ => y = (c,.offer o deals))
      (c,.offer o deals) := by
  have told : (trace text).Follows custody (fun y _ => y = c) c := follows_trace custody_silent follows rfl
  refine ((asks_trace trivial (fun _ => trivial) asks).offers told).mono ?_
  rintro ⟨c,x⟩ ⟨⟩ ⟨rfl,rfl⟩
  rfl

namespace Region

/-- The guard of a new mapping is closed. -/
theorem closeGuard_offers {start total guard : UInt64} :
    (closeGuard o.runtime start total guard).Follows ((dealing o.runtime page).rules o.operation)
      (fun y _ => y = (c.forget,.offer o deals)) (fun _ _ => False) (c,.offer o deals) := by
  refine .bind (follows_outcome (follows_ofProgram (follows_request ⟨rfl,.quiet trivial⟩ ?_)))
  rintro (cause | _) y ⟨-,smooth,rfl⟩
  · simp [dealing,Request.smooth] at smooth
  · rfl

theorem allocate_offers {size guard : UInt64} (nonempty : size ≠ 0) :
    (allocate o.runtime size guard).Follows ((dealing o.runtime page).rules o.operation)
      (fun y r => page.toNat ∣ r.start.toNat ∧ y.2 = .offer o [mapped (r.mapping o.runtime)])
      (fun y _ => ∃ deals, y.2 = .offer o deals) (c,.offer o []) := by
  unfold allocate
  cases sum : Checked.add size guard with
  | error _ => exact ⟨[],rfl⟩
  | ok total =>
    have positive := Checked.add_ne_zero sum (.inl nonempty)
    refine .bind (follows_ofProgram (follows_request ⟨rfl,.map positive⟩ ?_))
    rintro (cause | start) y ⟨proper,smooth,rfl⟩
    · exact ⟨[],rfl⟩
    obtain ⟨sound,whole⟩ := Mapping.Proper.region proper sum positive
    have place : page.toNat ∣ start.toNat := by simpa [dealing,Request.smooth] using smooth
    have start_eq : (⟨start + guard,size,guard⟩ : Region).start = start := by simp [Region.start]
    have report (c : Custody) : (trace (Program.checked (Checked.add (start + guard) size) >>= fun top =>
        pure s!"mapped unsafe stack {hex (start + guard)}..{hex top} (guard {hex guard})")).Follows
          ((dealing o.runtime page).rules o.operation) (fun y _ => y = (c,.offer o [mapped ⟨o.runtime,start,total⟩]))
            (c,.offer o [mapped ⟨o.runtime,start,total⟩]) :=
      trace_offers (.bind (asks_checked _) fun _ => asks_text) (made_text (r := ⟨start + guard,size,guard⟩) sound)
    dsimp only
    split
    · refine .bind (closeGuard_offers.mono ?_ fun _ _ => False.elim)
      rintro y ⟨⟩ rfl
      refine .bind (follows_lift ((report _).mono ?_))
      rintro y ⟨⟩ rfl
      exact follows_pure ⟨by rwa [start_eq],by rw [whole]⟩
    · refine .bind (follows_lift ((report _).mono ?_))
      rintro y ⟨⟩ rfl
      exact follows_pure ⟨by rwa [start_eq],by rw [whole]⟩

/-- A region is unmapped where that is allowed. -/
theorem release_offers {r : Region} (sound : r.Sound)
    (allowed : ∀ c, Offers o c deals (.mapper o.runtime (.unmap r.start (r.usable + r.guard)))) :
    (release o.runtime r).Follows ((dealing o.runtime page).rules o.operation)
      (fun y _ => y.2 = .offer o (unmapped (r.mapping o.runtime) :: deals)) (fun _ _ => False) (c,.offer o deals) := by
  refine .bind (follows_lift (follows_checked sound.length_eq ?_))
  refine .bind (follows_ofProgram (follows_request ⟨rfl,allowed c⟩ ?_))
  rintro (cause | _) y ⟨-,smooth,rfl⟩
  · simp [dealing,Request.smooth] at smooth
  · refine follows_lift ((trace_offers asks_text follows_text).mono ?_)
    rintro y ⟨⟩ rfl
    rfl

theorem discard_offers {r : Region} {reason : String} (sound : r.Sound)
    (allowed : ∀ c, Offers o c deals (.mapper o.runtime (.unmap r.start (r.usable + r.guard)))) :
    (discard o.runtime reason r).Follows ((dealing o.runtime page).rules o.operation)
      (fun y _ => y.2 = .offer o (unmapped (r.mapping o.runtime) :: deals)) (c,.offer o deals) := by
  refine .bind (Program.Follows.mono (release_offers sound allowed) ?_)
  rintro y (leftover | _) released
  · exact released.elim
  · exact released

end Region

namespace Handoff

theorem place_offers {r : Region} (sound : r.Sound) (aligned : r.Aligned) :
    (place (o.record r)).Follows ((dealing o.runtime page).rules o.operation) (fun y _ => y.2 = .offer o deals)
      (fun y _ => y.2 = .offer o deals) (c,.offer o deals) := by
  refine .bind ((slot_aligned sound aligned).mono ?_ fun _ _ same => congrArg Prod.snd same)
  rintro y addr ⟨rfl,-⟩
  refine .bind (follows_lift (follows_request ⟨rfl,.quiet trivial⟩ ?_))
  rintro ⟨⟩ y ⟨-,-,rfl⟩
  exact follows_pure rfl

/-- The record comes back as it was placed. -/
theorem take_offers {addr : UInt64} {h : Handoff} (placed : c.hand = .placed addr h) :
    (take addr).Follows ((dealing o.runtime page).rules o.operation)
      (fun y a => a = h ∧ y = ({ c with hand := .held h.mapping },.offer o deals)) (c,.offer o deals) := by
  have asks : (take addr).Asks Request.Quiet Stop.Overflow := take_asks (fun _ _ => trivial) fun _ _ => trivial
  refine (asks.offers (take_follows placed)).mono ?_
  rintro ⟨c,x⟩ a ⟨rfl,rfl,rfl⟩
  exact ⟨rfl,rfl⟩

end Handoff

/-- What the check of a geometry lets pass. -/
theorem StackAttributes.of_validate {a : StackAttributes} (accepted : a.validate page = .ok (.ok ())) :
    a.size ≠ 0 ∧ a.size &&& (stackAlign - 1) = 0 ∧ a.guard &&& (page - 1) = 0 := by
  unfold validate at accepted
  split at accepted
  · cases accepted
  next size_ne =>
    split at accepted
    · cases accepted
    next whole =>
      refine ⟨size_ne,not_not.mp whole,?_⟩
      cases mask : Checked.subtract page 1 with
      | error _ =>
        rw [mask] at accepted
        cases accepted
      | ok word =>
        obtain ⟨-,rfl⟩ := Checked.subtract_eq_ok_iff.mp mask
        rw [mask] at accepted
        by_contra guarded
        simp [Bind.bind,Except.bind,pure,Except.pure,guarded] at accepted

namespace Spawn

/-- The record names the wanted function and its argument, and lies in a new region that will do for a stack. -/
theorem prepare_offers (paged : PageSize page) (empty : c.hand = .empty) (free : ¬c.role.Base) (ready : o.runtime ∈ c.ready) :
    (prepare o.runtime o.attr o.entry o.arg).Follows ((dealing o.runtime page).rules o.operation)
      (fun y addr => ∃ r : Region, r.Sound ∧ r.Aligned ∧ y.1.hand = .placed addr (o.record r) ∧
        y.2 = .offer o [mapped (r.mapping o.runtime)]) (fun y _ => ∃ deals, y.2 = .offer o deals) (c,.offer o []) := by
  refine .bind ((Host.attributes_asks.offers (Host.attributes_follows (c := c))).mono ?_ fun y _ failed => ⟨[],failed.1⟩)
  rintro ⟨c',x⟩ attributes ⟨rfl,rfl⟩
  refine .bind (follows_lift (follows_request ⟨rfl,.quiet trivial⟩ ?_))
  rintro size y ⟨large,smooth,rfl⟩
  obtain rfl : size = page := by simpa [dealing,Request.smooth] using smooth
  obtain ⟨verdict,checked_,-⟩ := attributes.validate_verdict large
  refine .bind (follows_lift (follows_checked checked_ ?_))
  cases verdict with
  | error cause => exact follows_throw ⟨[],rfl⟩
  | ok done =>
    obtain ⟨nonempty,usable,guard⟩ := StackAttributes.of_validate checked_
    refine .bind ((Watch.attempt_with_custody (c := c.forget) (x := Dealing.offer o []) (Region.allocate_offers nonempty)
      (Region.allocate_follows empty free (.inl nonempty))).mono ?_ fun _ _ => And.left)
    rintro ⟨c'',x⟩ r ⟨⟨start,rfl⟩,sound,usable_eq,guard_eq,rfl⟩
    have aligned := sound.aligned paged start (guard_eq ▸ guard) (usable_eq ▸ usable)
    have placed := Handoff.place_follows (h := o.record r) (c := { c with
      hand := .held (r.mapping o.runtime), seen := none }) sound rfl ready
    refine .bind (follows_outcome ((Watch.attempt_with_custody (Handoff.place_offers sound aligned) placed).mono ?_ ?_))
    · rintro ⟨c'',x⟩ record ⟨rfl,rfl⟩
      refine .bind (follows_lift ((trace_offers asks_text follows_text).mono ?_))
      rintro y ⟨⟩ rfl
      exact follows_pure ⟨r,sound,aligned,rfl,rfl⟩
    · rintro ⟨c'',x⟩ cause ⟨rfl,rfl⟩
      refine .bind (follows_lift ((Region.discard_offers sound fun _ => .drop).mono ?_))
      exact fun y _ released => follows_throw ⟨_,released⟩

theorem intercept_offers (paged : PageSize page) :
    (intercept o.runtime o.handle o.attr o.entry o.arg).Follows ((dealing o.runtime page).rules o.operation)
      (fun y code => ∃ addr, ∃ r : Region, r.Sound ∧ y.2 = .offer o (o.concluded (r.mapping o.runtime) addr code))
      (.ofOperation o.operation,.offer o []) := by
  refine .bind (follows_request ⟨rfl,.quiet trivial⟩ ?_)
  rintro phase y ⟨-,-,rfl⟩
  split
  next ready =>
    subst ready
    have prepared := prepare_offers (o := o) (c := ⟨.empty,.plain,none,[o.runtime],none⟩) paged rfl id
      (List.mem_singleton_self _)
    refine .bind (follows_orAbort_ends (prepared.mono ?_ ?_) fun _ => rfl)
    · rintro ⟨c,x⟩ addr ⟨r,sound,aligned,placed,rfl⟩
      refine .bind (follows_request ⟨rfl,.spawn aligned placed⟩ ?_)
      rintro code y ⟨-,-,rfl⟩
      split
      next accepted => exact ⟨addr,r,sound,by simp [Commission.concluded,accepted]; rfl⟩
      next refused =>
        have still : (c.after (.host o.runtime (.spawn (o.call addr))) code).hand = .placed addr (o.record r) := by
          simpa [Custody.after_refused,refused,Custody.forget] using placed
        refine .bind ((Handoff.take_offers still).mono ?_)
        rintro y h ⟨rfl,rfl⟩
        refine .bind (follows_orAbort_ok ((Region.release_offers sound fun _ => .release refused).mono ?_ fun _ _ => id))
        rintro ⟨c,x⟩ ⟨⟩ rfl
        exact ⟨addr,r,sound,by simp [Commission.concluded,refused]; rfl⟩
    · rintro ⟨c,x⟩ cause ⟨deals,rfl⟩ line
      exact ⟨rfl,.quiet trivial⟩
  next => exact .bind (follows_request ⟨rfl,.quiet trivial⟩ fun _ _ _ => rfl)

/-- A new thread makes exactly six requests, installs its region and arms its key, and calls the function. -/
theorem firstFrame_arrives {h : Handoff} {addr : UInt64} (aligned : h.region.Aligned) (present : addr ≠ 0) :
    (firstFrame addr).Follows ((dealing h.runtime page).rules (.body .fromRecord addr))
      (fun y result => ∃ steps, y.2 = .arrival addr h steps [entered h.start h.arg result])
      (.ofRecord addr h,.arrival addr h 0 []) := by
  unfold firstFrame
  rw [if_neg present]
  refine .bind (.bind (follows_request ⟨rfl,rfl,.inl ⟨by decide,trivial⟩⟩ ?_))
  rintro bytes y ⟨written,-,rfl⟩
  obtain rfl := written h rfl rfl
  refine .bind (follows_request ⟨rfl,rfl,.inl ⟨by decide,trivial⟩⟩ ?_)
  rintro ⟨⟩ y ⟨-,-,rfl⟩
  rw [Handoff.decode_encode]
  refine .bind (follows_orAbort_ok (.bind (follows_lift (follows_request ⟨rfl,rfl,.inl ⟨by decide,trivial⟩⟩ ?_))))
  rintro s y ⟨⟨-,again,-⟩,-,rfl⟩
  obtain rfl := again _ rfl
  rw [show ThreadStack.empty.install ⟨h.region,h.runtime⟩ = (.ok (),⟨h.region.top,some ⟨h.region,h.runtime⟩⟩) from
    if_neg (not_not.mpr aligned)]
  refine follows_lift (follows_request ⟨rfl,rfl,.inl ⟨by decide,trivial⟩⟩ ?_)
  rintro ⟨⟩ y ⟨-,-,rfl⟩
  refine .bind (.bind (follows_request ⟨rfl,rfl,.inl ⟨by decide,trivial⟩⟩ ?_))
  rintro (_ | key) y ⟨kept,-,rfl⟩
  · exact absurd rfl (kept (List.mem_singleton_self _))
  refine .bind (follows_orAbort_ok (follows_ofProgram (follows_request ⟨rfl,rfl,.inl ⟨by decide,trivial⟩⟩ ?_)))
  rintro (cause | _) y ⟨-,smooth,rfl⟩
  · simp [dealing,Request.smooth] at smooth
  refine follows_request ⟨rfl,rfl,.inr ⟨rfl,rfl⟩⟩ ?_
  rintro result y ⟨-,-,rfl⟩
  exact ⟨7,rfl⟩

end Spawn

theorem dealing_covers {rt : RuntimeId} (paged : PageSize page) : (dealing rt page).Covers where
  call {n t op x} named starts := by
    rcases Dealing.of_start starts with ⟨_,_,o,rfl,same,rfl⟩ | ⟨_,_,_,_,-,-,-,clash,-⟩
    · cases same
      refine Program.Follows.mono (Spawn.intercept_offers paged) ?_
      rintro ⟨c,x⟩ code ⟨addr,r,sound,rfl⟩
      exact ⟨code,addr,r,sound,rfl,rfl⟩
    · cases clash
  body {n t call record x} sound starts := by
    have starts : Dealing.start rt (.began n t call record) = some x := starts
    rcases Dealing.of_start starts with ⟨_,_,_,-,clash,-⟩ | ⟨_,_,_,_,rfl,aligned,present,same,rfl⟩
    · cases clash
    · cases same
      refine Program.Follows.mono (Spawn.firstFrame_arrives aligned present) ?_
      rintro ⟨c,x⟩ result ⟨steps,rfl⟩
      exact ⟨result,rfl,rfl⟩
  destroy sound starts := by cases starts

end
end GuardedStack
