import GuardedStack.Proofs.Discretion
import GuardedStack.Proofs.Terms
import GuardedStack.Proofs.Trial

/-! What a thread does for a runtime that is ready, while every call works: each operation in closed form, with the calls
that it makes one by one and with what it leaves of the thread's stack, of its key's value, of memory and of the
mappings. -/
namespace GuardedStack

open Program Attempt

/-- A runtime that is ready, and what its surroundings reply. -/
structure Site where
  runtime : RuntimeId
  key : CleanupKey
  page : UInt64
  attributes : Option AttributeRef → StackAttributes
  results : EntryPoint → UInt64 → UInt64
  /-- What the mapper may give next to the live mappings. -/
  offers : List Mapping → Mapping → Prop
  paged : PageSize page
  proper {live : List Mapping} {m : Mapping} : offers live m → m.Proper
  even {live : List Mapping} {m : Mapping} : offers live m → 16 ∣ m.addr.toNat

/-- A thread's stack, its key's value, memory, the mappings, and the calls that the thread has made. -/
structure Shift where
  stack : ThreadStack
  value : UInt64
  memory : Memory
  live : List Mapping
  calls : List Exchange

namespace Shift

/-- These calls were made. -/
def tell (x : Shift) (said : List Exchange) : Shift := { x with calls := x.calls ++ said }

/-- The calls apart, what a reply changes. -/
def act (x : Shift) : (q : Request) → q.Reply → Shift
  | .state (.setStack s), _ => { x with stack := s }
  | .state (.store addr bytes), _ => { x with memory := x.memory.store addr bytes }
  | .mapper rt (.map len _), .ok addr => { x with live := ⟨rt,addr,len⟩ :: x.live }
  | .mapper rt (.unmap addr len), .ok () => { x with live := x.live.filter (· ≠ ⟨rt,addr,len⟩) }
  | .host _ (.setCleanupValue _ value), .ok () => { x with value := value }
  | _, _ => x

def after (x : Shift) (q : Request) (reply : q.Reply) : Shift := (x.act q reply).tell (q.crossing reply)

variable {x : Shift} {said more : List Exchange}

@[simp] theorem tell_calls : (x.tell said).calls = x.calls ++ said := rfl

@[simp] theorem tell_tell : (x.tell said).tell more = x.tell (said ++ more) := by
  simp [tell]

@[simp] theorem tell_nil : x.tell [] = x := by
  simp [tell]

@[simp] theorem after_state {call : StateCall} {reply : call.Reply} :
    x.after (.state call) reply = x.act (.state call) reply :=
  tell_nil

end Shift

namespace Site

/-- What is replied where everything works. -/
def Expects (h : Site) (x : Shift) : (q : Request) → q.Reply → Prop
  | .state .stack, s => s = x.stack
  | .state (.phase rt), phase => rt = h.runtime → phase = .ready
  | .state (.key rt), key => rt = h.runtime → key = some h.key
  | .state (.load addr count), bytes => bytes = x.memory.load addr count
  | .mapper _ .pageSize, size => size = h.page
  | .mapper rt (.map len _), reply => ∃ start, reply = .ok start ∧ h.offers x.live ⟨rt,start,len⟩
  | .mapper _ (.protect _ _ _), reply => reply = .ok ()
  | .mapper _ (.unmap _ _), reply => reply = .ok ()
  | .host _ .defaultAttributes, reply => reply = .ok (h.attributes none)
  | .host _ (.requestedAttributes attr), reply => reply = .ok (h.attributes (some attr))
  | .host _ (.setCleanupValue _ _), reply => reply = .ok ()
  | .host _ (.spawn _), code => code = 0
  | .enter entry arg, result => result = h.results entry arg
  | _, _ => True

/-- The library's state is asked for no more than a ready runtime needs, and no key but its own is set. A call has to be
granted after those before it. -/
def May (h : Site) (grants : List Exchange → Request → Prop) (x : Shift) : Request → Prop
  | .state (.exchangePhase _ _ _) | .state (.setPhase _ _) | .state (.keepKey _ _) => False
  | .state (.setVerbosity _) | .state .environment => False
  | .state _ => True
  | .host rt (.setCleanupValue key value) =>
    rt = h.runtime ∧ key = h.key ∧ grants x.calls (.host rt (.setCleanupValue key value))
  | q => grants x.calls q

/-- The geometry can be given to a thread. -/
structure Honours (h : Site) (a : StackAttributes) : Prop where
  valid : a.validate h.page = .ok (.ok ())
  fits : Checked.add a.size a.guard = .ok (a.size + a.guard)
  large : Handoff.size ≤ a.size

end Site

/-- A thread at work. It may abort only if that is granted too. -/
def working (h : Site) (grants : List Exchange → Request → Prop) (aborts : Prop) : Discipline Shift where
  may := h.May grants
  next x q reply y := h.Expects x q reply ∧ y = x.after q reply
  ends reason := aborts ∧ ∃ cause, reason = .aborted cause

/-- The calls are granted one after the other. -/
def Granted (grants : List Exchange → Request → Prop) : List Exchange → List Exchange → Prop
  | _, [] => True
  | before, e :: rest => grants before e.1 ∧ Granted grants (before ++ [e]) rest

theorem granted_all (before said : List Exchange) : Granted (fun _ _ => True) before said := by
  induction said generalizing before with
  | nil => trivial
  | cons e rest ih => exact ⟨trivial,ih _⟩

section
variable {h : Site} {grants : List Exchange → Request → Prop} {aborts : Prop} {x : Shift}

theorem working_silent : (working h grants aborts).Silent where
  emits _ _ := trivial
  emitted _ _ _ _ step := step.2.trans Shift.tell_nil
  asks _ := trivial
  asked _ _ _ step := step.2.trans Shift.tell_nil

theorem working_text {s : String} : (pure s : Program String).Follows (working h grants aborts) (fun y _ => y = x) x := rfl

/-- A fault is reported and ends everything, where that is granted. -/
theorem works_orAbort (what : String) {attempt : Attempt α} {post : Shift → α → Prop}
    (follows : attempt.Follows (working h grants aborts) post (fun _ _ => aborts) x) :
    (attempt.orAbort what).Follows (working h grants aborts) post x :=
  follows_orAbort_reports (follows.mono (fun _ _ => id) fun _ _ allowed => ⟨fun _ => trivial,allowed,_,rfl⟩)

/-- Where counting cannot overflow, a callback does what the program does. -/
theorem works_callback {p : Program α} {post : Shift → α → Prop} (follows : p.Follows (working h grants aborts) post x) :
    p.callback.Follows (working h grants aborts) post x :=
  follows.callback (by rintro operation ⟨-,cause,clash⟩; cases clash)

namespace Site

/-- The calls for the geometry of a new thread. -/
def asking (h : Site) (attr : Option AttributeRef) : List Exchange :=
  [match attr with
    | none => ⟨.host h.runtime .defaultAttributes,.ok (h.attributes none)⟩
    | some attr => ⟨.host h.runtime (.requestedAttributes attr),.ok (h.attributes (some attr))⟩,
  ⟨.mapper h.runtime .pageSize,h.page⟩]

/-- The calls that map a region. Without a guard there is nothing to protect. -/
def mapping (h : Site) (a : StackAttributes) (start : UInt64) : List Exchange :=
  ⟨.mapper h.runtime (.map (a.size + a.guard) .readWrite),.ok start⟩ ::
    if a.guard = 0 then [] else [⟨.mapper h.runtime (.protect start a.guard .none),.ok ()⟩]

/-- The calls of a spawn up to the primitive. -/
def preparing (h : Site) (attr : Option AttributeRef) (start : UInt64) : List Exchange :=
  h.asking attr ++ h.mapping (h.attributes attr) start

/-- The calls of a new thread. -/
def arriving (h : Site) (entry : EntryPoint) (arg : UInt64) : List Exchange :=
  [⟨.host h.runtime (.setCleanupValue h.key armed),.ok ()⟩,⟨.enter entry arg,h.results entry arg⟩]

/-- The call of a destructor round. -/
def passing (h : Site) (r : Region) (pass : UInt64) : Exchange :=
  if pass < destructorRounds then ⟨.host h.runtime (.setCleanupValue h.key (pass + 1)),.ok ()⟩
  else ⟨.mapper h.runtime (.unmap r.start (r.usable + r.guard)),.ok ()⟩

end Site

theorem StackAttributes.mapping_region {a : StackAttributes} {rt : RuntimeId} {start : UInt64} :
    (a.region start).mapping rt = ⟨rt,start,a.size + a.guard⟩ := by
  rw [Region.mapping,a.start_region]
  rfl

section
variable {a : StackAttributes} {live : List Mapping} {rt : RuntimeId} {start : UInt64}

theorem Site.sound_region (nonempty : a.size ≠ 0) (fits : Checked.add a.size a.guard = .ok (a.size + a.guard))
    (offered : h.offers live ⟨rt,start,a.size + a.guard⟩) : (a.region start).Sound :=
  ((h.proper offered).region fits (Checked.add_ne_zero fits (.inl nonempty))).1

/-- What passes the check is aligned where the mapper puts it. -/
theorem Site.aligned_region (valid : a.validate h.page = .ok (.ok ()))
    (fits : Checked.add a.size a.guard = .ok (a.size + a.guard))
    (offered : h.offers live ⟨rt,start,a.size + a.guard⟩) : (a.region start).Aligned := by
  obtain ⟨nonempty,usable,guard⟩ := StackAttributes.of_validate valid
  have guard : 16 ∣ a.guard.toNat := Nat.dvd_trans h.paged.dvd ((mask_eq_zero_iff h.paged.power).mp guard)
  have usable : 16 ∣ a.size.toNat := (mask_eq_zero_iff stackAlign_power).mp usable
  have whole : 16 ∣ start.toNat := h.even offered
  rw [Region.aligned_iff,(h.sound_region nonempty fits offered).top_toNat,a.start_region]
  exact Nat.dvd_add (Nat.dvd_add whole guard) usable

end

theorem Host.attributes_works {attr : Option AttributeRef} {e : Exchange} (first : e ∈ (h.asking attr).head?)
    (granted : grants x.calls e.1) :
    (attributes h.runtime attr).Follows (working h grants aborts)
      (fun y a => a = h.attributes attr ∧ y = x.tell [e]) (fun _ _ => False) x := by
  cases attr with
  | none =>
    cases first
    refine follows_ofProgram (follows_request granted ?_)
    rintro _ y ⟨rfl,rfl⟩
    exact ⟨rfl,rfl⟩
  | some attr =>
    cases first
    refine follows_ofProgram (follows_request granted ?_)
    rintro _ y ⟨rfl,rfl⟩
    exact ⟨rfl,rfl⟩

namespace Region

theorem closeGuard_works {start total guard : UInt64}
    (granted : grants x.calls (.mapper h.runtime (.protect start guard .none))) :
    (closeGuard h.runtime start total guard).Follows (working h grants aborts)
      (fun y _ => y = x.tell [⟨.mapper h.runtime (.protect start guard .none),.ok ()⟩]) (fun _ _ => False) x := by
  refine .bind (follows_outcome (follows_ofProgram (follows_request granted ?_)))
  rintro _ y ⟨rfl,rfl⟩
  exact follows_pure rfl

/-- A region is made of what the mapper offers. -/
theorem allocate_works {a : StackAttributes} (nonempty : a.size ≠ 0)
    (maps : grants x.calls (.mapper h.runtime (.map (a.size + a.guard) .readWrite)))
    (guards : ∀ {start live}, h.offers live ⟨h.runtime,start,a.size + a.guard⟩ →
      Granted grants x.calls (h.mapping a start)) :
    (allocate h.runtime a.size a.guard).Follows (working h grants aborts)
      (fun y r => ∃ start, r = a.region start ∧ h.offers x.live ⟨h.runtime,start,a.size + a.guard⟩ ∧
        Checked.add a.size a.guard = .ok (a.size + a.guard) ∧
        y = Shift.tell { x with live := ⟨h.runtime,start,a.size + a.guard⟩ :: x.live } (h.mapping a start))
      (fun _ _ => ∀ total, Checked.add a.size a.guard ≠ .ok total) x := by
  unfold allocate
  cases sum : Checked.add a.size a.guard with
  | error operation => exact follows_throw (by simp)
  | ok total =>
    obtain ⟨small,rfl⟩ := Checked.add_eq_ok_iff.mp sum
    refine .bind (follows_ofProgram (follows_request maps ?_))
    rintro _ y ⟨⟨start,rfl,offered⟩,rfl⟩
    have granted := guards offered
    have sound : (a.region start).Sound := h.sound_region nonempty sum offered
    -- What is reported adds up, as the region is sound.
    have told {z : Shift} : (trace (Program.checked (Checked.add (start + a.guard) a.size) >>= fun top =>
        pure s!"mapped unsafe stack {hex (start + a.guard)}..{hex top} (guard {hex a.guard})")).Follows
          (working h grants aborts) (fun y _ => y = z) z :=
      follows_trace working_silent (.bind (follows_checked sound.top_eq working_text)) rfl
    rw [Site.mapping] at granted
    dsimp only
    split
    next guarded =>
      rw [if_neg guarded] at granted
      refine .bind ((closeGuard_works granted.2.1).mono ?_ (by simp))
      rintro y ⟨⟩ rfl
      refine .bind (follows_lift (Program.Follows.mono told ?_))
      rintro y ⟨⟩ rfl
      refine follows_pure ⟨start,rfl,offered,rfl,?_⟩
      rw [Site.mapping,if_neg guarded]
      simp [Shift.after,Shift.act,Shift.tell,Request.crossing]
    next unguarded =>
      refine .bind (follows_lift (Program.Follows.mono told ?_))
      rintro y ⟨⟩ rfl
      refine follows_pure ⟨start,rfl,offered,rfl,?_⟩
      rw [Site.mapping,if_pos (not_not.mp unguarded)]
      rfl

theorem release_works {r : Region} (fits : r.length = .ok (r.usable + r.guard))
    (granted : grants x.calls (.mapper h.runtime (.unmap r.start (r.usable + r.guard)))) :
    (release h.runtime r).Follows (working h grants aborts)
      (fun y _ => y = Shift.tell { x with live := x.live.filter (· ≠ r.mapping h.runtime) }
        [⟨.mapper h.runtime (.unmap r.start (r.usable + r.guard)),.ok ()⟩]) (fun _ _ => False) x := by
  refine .bind (follows_lift (follows_checked fits ?_))
  refine .bind (follows_ofProgram (follows_request granted ?_))
  rintro _ y ⟨rfl,rfl⟩
  exact follows_lift (follows_trace working_silent working_text rfl)

theorem discard_works {r : Region} {reason : String} (fits : r.length = .ok (r.usable + r.guard))
    (granted : grants x.calls (.mapper h.runtime (.unmap r.start (r.usable + r.guard)))) :
    (discard h.runtime reason r).Follows (working h grants aborts)
      (fun y _ => y = Shift.tell { x with live := x.live.filter (· ≠ r.mapping h.runtime) }
        [⟨.mapper h.runtime (.unmap r.start (r.usable + r.guard)),.ok ()⟩]) x := by
  refine .bind (Program.Follows.mono (release_works fits granted) ?_)
  rintro y (leftover | _) released
  · exact released.elim
  · exact released

end Region

/-- In an aligned region the place is found if the record is no larger than the region. -/
theorem Handoff.slot_exact {d : Discipline σ} {z : σ} {r : Region} (sound : r.Sound) (aligned : r.Aligned) :
    (slot r).Follows d (fun y addr => y = z ∧ size ≤ r.usable ∧ addr = r.top - size)
      (fun y _ => y = z ∧ ¬size ≤ r.usable) z := by
  unfold slot
  split
  next small => exact follows_throw ⟨rfl,UInt64.not_le.mpr small⟩
  next large =>
    have large : size ≤ r.usable := UInt64.not_lt.mp large
    obtain ⟨addr,below,-⟩ := sits_of_slot (h := ⟨⟨0⟩,0,r,⟨0⟩⟩) sound large
    obtain ⟨inside,rfl⟩ := Checked.subtract_eq_ok_iff.mp below
    refine .bind (follows_lift (follows_checked below ?_))
    rw [if_pos (aligned.slot inside)]
    exact follows_pure ⟨rfl,large,rfl⟩

namespace Site

/-- All calls of a spawn up to the primitive are granted. -/
structure Leave (h : Site) (grants : List Exchange → Request → Prop) (attr : Option AttributeRef)
    (before : List Exchange) : Prop where
  asks : Granted grants before (h.asking attr)
  maps : grants (before ++ h.asking attr)
    (.mapper h.runtime (.map ((h.attributes attr).size + (h.attributes attr).guard) .readWrite))
  guards {start : UInt64} {live : List Mapping} :
    h.offers live ⟨h.runtime,start,(h.attributes attr).size + (h.attributes attr).guard⟩ →
      Granted grants (before ++ h.asking attr) (h.mapping (h.attributes attr) start)

/-- What a thread has done for a spawn up to the primitive: there is a mapping, with the record at its top. -/
structure Prepared (h : Site) (attr : Option AttributeRef) (entry : EntryPoint) (arg : UInt64) (x : Shift)
    (start addr : UInt64) (y : Shift) : Prop where
  honours : h.Honours (h.attributes attr)
  offered : h.offers x.live ⟨h.runtime,start,(h.attributes attr).size + (h.attributes attr).guard⟩
  place : addr = ((h.attributes attr).region start).top - Handoff.size
  after : y = Shift.tell { x with
    memory := x.memory.store addr (Handoff.mk entry arg ((h.attributes attr).region start) h.runtime).encode
    live := ⟨h.runtime,start,(h.attributes attr).size + (h.attributes attr).guard⟩ :: x.live } (h.preparing attr start)

end Site

namespace Spawn

variable {attr : Option AttributeRef} {entry : EntryPoint} {arg : UInt64}

theorem prepare_works (leave : h.Leave grants attr x.calls)
    (lax : ¬h.Honours (h.attributes attr) → aborts ∧ ∀ before q, grants before q) :
    (prepare h.runtime attr entry arg).Follows (working h grants aborts)
      (fun y addr => ∃ start, h.Prepared attr entry arg x start addr y) (fun _ _ => aborts) x := by
  obtain ⟨e,asking⟩ : ∃ e : Exchange, h.asking attr = [e,⟨.mapper h.runtime .pageSize,h.page⟩] := ⟨_,rfl⟩
  have asks := leave.asks
  rw [asking] at asks
  refine .bind ((Host.attributes_works (e := e) (by simp [asking]) asks.1).mono ?_ (by simp))
  rintro y a ⟨rfl,rfl⟩
  refine .bind (follows_lift (follows_request asks.2.1 ?_))
  rintro _ y ⟨rfl,rfl⟩
  obtain ⟨verdict,checked_,nonempty⟩ := (h.attributes attr).validate_verdict h.paged.ne_zero
  refine .bind (follows_lift (follows_checked checked_ ?_))
  cases verdict with
  | error cause => exact follows_throw (lax fun honours => by simp [honours.valid] at checked_).1
  | ok done =>
    have told : (x.tell [e]).after (.mapper h.runtime .pageSize) h.page = x.tell (h.asking attr) := by
      rw [asking]
      simp [Shift.after,Shift.act,Request.crossing]
    rw [told]
    refine .bind ((Region.allocate_works (nonempty rfl) leave.maps leave.guards).mono ?_ ?_)
    · rintro y r ⟨start,rfl,offered,fits,rfl⟩
      have sound := h.sound_region (nonempty rfl) fits offered
      have aligned := h.aligned_region checked_ fits offered
      refine .bind (follows_outcome (.bind ((Handoff.slot_exact sound aligned).mono ?_ ?_)))
      · rintro y addr ⟨rfl,large,rfl⟩
        refine .bind (follows_lift (follows_request trivial ?_))
        rintro ⟨⟩ y ⟨-,rfl⟩
        refine follows_pure (.bind (follows_lift (follows_trace working_silent working_text ?_)))
        refine follows_pure ⟨start,⟨checked_,fits,large⟩,offered,rfl,?_⟩
        simp [Shift.after,Shift.act,Shift.tell,Request.crossing,Site.preparing]
      · rintro y cause ⟨rfl,small⟩
        obtain ⟨allowed,free⟩ := lax fun honours => small honours.large
        exact .bind (follows_lift ((Region.discard_works sound.length_eq (free _ _)).mono fun _ _ _ =>
          follows_throw allowed))
    · rintro y cause misfits
      exact (lax fun honours => misfits _ honours.fits).1

/-- Where everything is granted, a spawn that comes to its end has started a thread. -/
theorem intercept_works {handle : UInt64} (lax : ¬h.Honours (h.attributes attr) → aborts) :
    (intercept h.runtime handle attr entry arg).Follows (working h (fun _ _ => True) aborts)
      (fun y code => ∃ start addr z, h.Prepared attr entry arg x start addr z ∧ code = 0 ∧
        y = z.tell [⟨.host h.runtime (.spawn ⟨handle,attr,.fromRecord,addr⟩),(0 : Int32)⟩]) x := by
  refine .bind (follows_request trivial ?_)
  rintro phase y ⟨ready,same⟩
  obtain rfl : y = x := same.trans Shift.tell_nil
  obtain rfl := ready rfl
  rw [if_pos rfl]
  have leave : h.Leave (fun _ _ => True) attr y.calls := ⟨granted_all _ _,trivial,fun _ => granted_all _ _⟩
  refine .bind (works_orAbort _ ((prepare_works leave fun small => ⟨lax small,fun _ _ => trivial⟩).mono ?_ fun _ _ => id))
  rintro z addr ⟨start,prepared⟩
  refine .bind (follows_request trivial ?_)
  rintro _ z' ⟨rfl,rfl⟩
  exact ⟨start,addr,z,prepared,rfl,rfl⟩

/-- A new thread reads its record, blanks it, and has the record's region as its stack. -/
theorem firstFrame_works {r : Region} {addr : UInt64} (present : addr ≠ 0)
    (written : x.memory.load addr Handoff.size.toNat = (Handoff.mk entry arg r h.runtime).encode) (aligned : r.Aligned)
    (granted : Granted grants x.calls (h.arriving entry arg)) :
    (firstFrame addr).Follows (working h grants aborts)
      (fun y result => result = h.results entry arg ∧ y = Shift.tell { x with
        stack := ⟨r.top,some ⟨r,h.runtime⟩⟩, value := armed, memory := x.memory.store addr Handoff.blank }
          (h.arriving entry arg)) x := by
  unfold firstFrame
  rw [if_neg present]
  refine .bind (.bind (follows_request trivial ?_))
  rintro bytes y ⟨rfl,same⟩
  obtain rfl : y = x := same.trans Shift.tell_nil
  refine .bind (follows_request trivial ?_)
  rintro ⟨⟩ z ⟨-,rfl⟩
  rw [written,Handoff.decode_encode]
  refine .bind (follows_orAbort_ok (.bind (follows_lift (follows_request trivial ?_))))
  rintro s z ⟨-,rfl⟩
  rw [show s.install ⟨r,h.runtime⟩ = (.ok (),⟨r.top,some ⟨r,h.runtime⟩⟩) from if_neg (not_not.mpr aligned)]
  refine follows_lift (follows_request trivial ?_)
  rintro ⟨⟩ z ⟨-,rfl⟩
  refine .bind (.bind (follows_request trivial ?_))
  rintro kept z ⟨found,rfl⟩
  obtain rfl := found rfl
  refine .bind (follows_orAbort_ok (follows_ofProgram (follows_request ?_ ?_)))
  · simpa [working,Site.May,Shift.after,Shift.act,Request.crossing] using granted.1
  rintro _ z ⟨rfl,rfl⟩
  refine follows_request ?_ ?_
  · simpa [working,Site.May,Shift.after,Shift.act,Request.crossing,Shift.tell] using granted.2.1
  rintro _ z ⟨rfl,rfl⟩
  refine ⟨rfl,?_⟩
  simp [Shift.after,Shift.act,Shift.tell,Request.crossing,Site.arriving]

end Spawn

theorem ofNat_lt_rounds {round : Nat} (high : round ≤ destructorRounds.toNat) :
    UInt64.ofNat round < destructorRounds ↔ round < destructorRounds.toNat := by
  have same : (UInt64.ofNat round).toNat = round := UInt64.toNat_ofNat_of_lt' (Nat.lt_of_le_of_lt high (by decide))
  rw [UInt64.lt_iff_toNat_lt,same]

/-- The thread after a round of its exit: counted on, or without its region. -/
def Shift.passed (h : Site) (r : Region) (pass : UInt64) (x : Shift) : Shift :=
  (if pass < destructorRounds then { x with value := pass + 1 }
    else { x with stack := .empty, live := x.live.filter (· ≠ r.mapping h.runtime) }).tell [h.passing r pass]

namespace Cleanup

theorem destructor_works {r : Region} {pass : UInt64} (held : x.stack.holding = some ⟨r,h.runtime⟩)
    (fits : r.length = .ok (r.usable + r.guard)) (granted : grants x.calls (h.passing r pass).1) :
    (destructor pass).Follows (working h grants aborts) (fun y _ => y = x.passed h r pass) x := by
  refine works_callback (.bind (follows_request trivial ?_))
  rintro s y ⟨rfl,same⟩
  obtain rfl : y = x := same.trans Shift.tell_nil
  simp only [ThreadStack.owner,held,Option.map_some]
  rw [action_eq]
  refine .bind (follows_checked rfl ?_)
  unfold Shift.passed
  by_cases early : pass < destructorRounds
  · rw [Site.passing,if_pos early] at granted
    rw [if_pos early,if_pos early,Site.passing,if_pos early]
    refine .bind (.bind (follows_request trivial ?_))
    rintro kept z ⟨found,same⟩
    obtain rfl : z = y := same.trans Shift.tell_nil
    obtain rfl := found rfl
    refine follows_orAbort_ok (follows_ofProgram (follows_request ⟨rfl,rfl,granted⟩ ?_))
    rintro _ z' ⟨rfl,rfl⟩
    rfl
  · rw [Site.passing,if_neg early] at granted
    rw [if_neg early,if_neg early,Site.passing,if_neg early]
    refine .bind (.bind (follows_request trivial ?_))
    rintro s z ⟨rfl,same⟩
    obtain rfl : z = y := same.trans Shift.tell_nil
    refine .bind (follows_request trivial ?_)
    rintro ⟨⟩ z' ⟨-,rfl⟩
    have bare : z.after (.state (.setStack .empty)) () = { z with stack := .empty } := Shift.tell_nil
    rw [held,bare]
    exact follows_orAbort_ok (Region.release_works (x := { z with stack := .empty }) fits granted)

end Cleanup

end
end GuardedStack
