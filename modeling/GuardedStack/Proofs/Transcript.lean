import GuardedStack.Proofs.Terms
import GuardedStack.Proofs.Trial

/-! Operations in fixed surroundings, call by call. How each call is answered is given beforehand, success or failure; what
is found out here are the calls that an operation then makes, in their order, and what comes of it. It may also stop, and
then the calls before the stop are known as well. -/
namespace GuardedStack

/-- How far the runtime is, and how each call is answered. No operation makes a call twice, so that one reply for each call
is all that it can be told. -/
structure Setting where
  phase : Phase
  mapper : (call : MapperCall) → call.Reply
  host : (call : HostCall) → call.Reply

namespace Program

/-- The program, with the reason for which it stops as its value. -/
def caught : Program α → Program (Except Stop α)
  | done a => done (.ok a)
  | stop reason => done (.error reason)
  | ask q next => ask q fun reply => (next reply).caught

section
variable {σ : Type} {d : Discipline σ} {x : σ}

/-- After a part that may stop. -/
theorem Follows.bind_caught {p : Program α} {f : α → Program β} {post : σ → Except Stop β → Prop}
    (first : p.caught.Follows d (fun y result => match result with
      | .ok a => (f a).caught.Follows d post y
      | .error reason => post y (.error reason)) x) : (p >>= f).caught.Follows d post x := by
  induction p generalizing x with
  | done a => exact first
  | stop reason => exact first
  | ask q next ih => exact ⟨first.1,fun reply y step => ih reply (first.2 reply y step)⟩

/-- A part that does not stop. -/
theorem Follows.caught {p : Program α} {post : σ → Except Stop α → Prop} (follows : p.Follows d (fun y a => post y (.ok a)) x)
    (lasts : ∀ reason, ¬d.ends reason) : p.caught.Follows d post x := by
  induction p generalizing x with
  | done a => exact follows
  | stop reason => exact absurd follows (lasts reason)
  | ask q next ih => exact ⟨follows.1,fun reply y step => ih reply (follows.2 reply y step)⟩

end
end Program

namespace Attempt

variable {σ : Type} {d : Discipline σ} {x : σ}

theorem Follows.bind_caught {attempt : Attempt α} {f : α → Attempt β} {post : σ → Except Stop (Except Fault β) → Prop}
    (first : attempt.Follows d (fun y a => (f a).run.caught.Follows d post y) (fun y cause => post y (.ok (.error cause))) x)
    (lasts : ∀ reason, ¬d.ends reason) : (attempt >>= f).run.caught.Follows d post x := by
  refine Program.Follows.bind_caught (Program.Follows.caught (Program.Follows.mono first ?_) lasts)
  rintro y (cause | a) holds
  · exact holds
  · exact holds

theorem outcome_caught {attempt : Attempt α} {f : Except Fault α → Attempt β} {post : σ → Except Stop (Except Fault β) → Prop}
    (first : attempt.run.caught.Follows d (fun y result => match result with
      | .ok outcome => (f outcome).run.caught.Follows d post y
      | .error reason => post y (.error reason)) x) : (attempt.outcome >>= f).run.caught.Follows d post x := by
  refine Program.Follows.bind_caught (Program.Follows.bind_caught (first.mono ?_))
  rintro y (reason | outcome) holds
  · exact holds
  · exact holds

end Attempt

open Program Attempt

namespace Setting

variable (s : Setting) (rt : RuntimeId)

def page : UInt64 := s.mapper .pageSize

def map (len : UInt64) : Except Fault UInt64 := s.mapper (.map len .readWrite)

def protect (addr len : UInt64) : Except Fault Unit := s.mapper (.protect addr len .none)

def unmap (addr len : UInt64) : Except Fault Unit := s.mapper (.unmap addr len)

def attributes : Option AttributeRef → Except Fault StackAttributes
  | none => s.host .defaultAttributes
  | some attr => s.host (.requestedAttributes attr)

/-- Where a call gets its reply from. What other threads change of the library's state is left open. -/
def Replies : (q : Request) → q.Reply → Prop
  | .mapper rt' call, reply => rt' = rt → reply = s.mapper call
  | .host rt' call, reply => rt' = rt → reply = s.host call
  | .state (.phase rt'), phase => rt' = rt → phase = s.phase
  | .state (.exchangePhase rt' expected _), won => rt' = rt → (won = true ↔ s.phase = expected)
  | _, _ => True

/-- The calls so far, each with its reply. -/
def heard : Discipline (List Exchange) where
  may _ _ := True
  next calls q reply calls' := s.Replies rt q reply ∧ calls' = calls ++ q.crossing reply
  ends _ := False

/-- A mapping never reaches the end of the address space. -/
def Within : Prop := ∀ len rights addr, s.mapper (.map len rights) = .ok addr → addr.toNat + len.toNat < UInt64.size

/-! The calls of a spawn, with their replies. -/

def asking : Option AttributeRef → Exchange
  | none => ⟨.host rt .defaultAttributes,s.host .defaultAttributes⟩
  | some attr => ⟨.host rt (.requestedAttributes attr),s.host (.requestedAttributes attr)⟩

def sizing : Exchange := ⟨.mapper rt .pageSize,s.page⟩

def mapping (a : StackAttributes) : Exchange := ⟨.mapper rt (.map (a.size + a.guard) .readWrite),s.map (a.size + a.guard)⟩

def guarding (a : StackAttributes) (start : UInt64) : Exchange :=
  ⟨.mapper rt (.protect start a.guard .none),s.protect start a.guard⟩

def unmapping (a : StackAttributes) (start : UInt64) : Exchange :=
  ⟨.mapper rt (.unmap start (a.size + a.guard)),s.unmap start (a.size + a.guard)⟩

end Setting

/-- Stack and guard together have a length that fits in a word. -/
def StackAttributes.Adds (a : StackAttributes) : Prop := a.size.toNat + a.guard.toNat < UInt64.size

/-- The report of a record that is out of place. -/
def Handoff.misplaced (addr : UInt64) : Stop :=
  .aborted (.check "addr % align_of::<ThreadHandoff>() == 0" [.text s!"handoff record at {hex addr} is misaligned"])

namespace Setting

/-- What comes of making a region: the calls for it, and the region or the first fault. -/
inductive Allocates (s : Setting) (rt : RuntimeId) (a : StackAttributes) : List Exchange → Except Fault Region → Prop
  | overflow : ¬a.Adds → Allocates s rt a [] (.error (.sizeOverflow a.size a.guard))
  | unmapped {cause} : a.Adds → s.map (a.size + a.guard) = .error cause → Allocates s rt a [s.mapping rt a] (.error cause)
  | unprotected {start cause} : a.Adds → s.map (a.size + a.guard) = .ok start → a.guard ≠ 0 →
      s.protect start a.guard = .error cause →
      Allocates s rt a [s.mapping rt a,s.guarding rt a start,s.unmapping rt a start] (.error cause)
  | guarded {start} : a.Adds → s.map (a.size + a.guard) = .ok start → a.guard ≠ 0 → s.protect start a.guard = .ok () →
      Allocates s rt a [s.mapping rt a,s.guarding rt a start] (.ok (a.region start))
  | guardless {start} : a.Adds → s.map (a.size + a.guard) = .ok start → a.guard = 0 →
      Allocates s rt a [s.mapping rt a] (.ok (a.region start))

/-- What comes of preparing a thread: all calls for it, and the address of its record, the first fault, or a stop. -/
inductive Prepares (s : Setting) (rt : RuntimeId) (attr : Option AttributeRef) :
    List Exchange → Except Stop (Except Fault UInt64) → Prop
  | unasked {cause} : s.attributes attr = .error cause → Prepares s rt attr [s.asking rt attr] (.ok (.error cause))
  | invalid {a cause} : s.attributes attr = .ok a → a.validate s.page = .ok (.error cause) →
      Prepares s rt attr [s.asking rt attr,s.sizing rt] (.ok (.error cause))
  | unmade {a said cause} : s.attributes attr = .ok a → a.validate s.page = .ok (.ok ()) → s.Allocates rt a said (.error cause) →
      Prepares s rt attr (s.asking rt attr :: s.sizing rt :: said) (.ok (.error cause))
  | small {a said start} : s.attributes attr = .ok a → a.validate s.page = .ok (.ok ()) →
      s.Allocates rt a said (.ok (a.region start)) → a.size < Handoff.size →
      Prepares s rt attr (s.asking rt attr :: s.sizing rt :: said ++ [s.unmapping rt a start])
        (.ok (.error (.handoffOverflow a.size Handoff.size)))
  | misplaced {a said start} : s.attributes attr = .ok a → a.validate s.page = .ok (.ok ()) →
      s.Allocates rt a said (.ok (a.region start)) → Handoff.size ≤ a.size →
      ((a.region start).top - Handoff.size) % Handoff.alignment ≠ 0 →
      Prepares s rt attr (s.asking rt attr :: s.sizing rt :: said)
        (.error (Handoff.misplaced ((a.region start).top - Handoff.size)))
  | placed {a said start} : s.attributes attr = .ok a → a.validate s.page = .ok (.ok ()) →
      s.Allocates rt a said (.ok (a.region start)) → Handoff.size ≤ a.size →
      ((a.region start).top - Handoff.size) % Handoff.alignment = 0 →
      Prepares s rt attr (s.asking rt attr :: s.sizing rt :: said) (.ok (.ok ((a.region start).top - Handoff.size)))

end Setting

section
variable {s : Setting} {rt : RuntimeId} {calls said : List Exchange} {a : StackAttributes} {start : UInt64}

theorem Setting.heard_silent : (s.heard rt).Silent where
  emits _ _ := trivial
  emitted _ _ _ _ step := step.2.trans (List.append_nil _)
  asks _ := trivial
  asked _ _ _ step := step.2.trans (List.append_nil _)

theorem Setting.heard_lasts (reason : Stop) : ¬(s.heard rt).ends reason := id

theorem Setting.heard_text {text : String} : (pure text : Program String).Follows (s.heard rt) (fun y _ => y = calls) calls := rfl

/-- A call of the runtime's mapper gets the reply that was given beforehand. -/
theorem Setting.heard_mapper {call : MapperCall} {post : List Exchange → call.Reply → Prop}
    (after : ∀ reply, s.mapper call = reply → post (calls ++ [⟨.mapper rt call,s.mapper call⟩]) reply) :
    (request (.mapper rt call)).Follows (s.heard rt) post calls := by
  refine follows_request trivial ?_
  rintro reply y ⟨replied,rfl⟩
  obtain rfl := replied rfl
  exact after _ rfl

theorem Setting.heard_host {call : HostCall} {post : List Exchange → call.Reply → Prop}
    (after : ∀ reply, s.host call = reply → post (calls ++ [⟨.host rt call,s.host call⟩]) reply) :
    (request (.host rt call)).Follows (s.heard rt) post calls := by
  refine follows_request trivial ?_
  rintro reply y ⟨replied,rfl⟩
  obtain rfl := replied rfl
  exact after _ rfl

/-- State requests cross no seam. -/
theorem Setting.heard_state {call : StateCall} {post : List Exchange → call.Reply → Prop}
    (after : ∀ reply, s.Replies rt (.state call) reply → post calls reply) :
    (request (.state call)).Follows (s.heard rt) post calls := by
  refine follows_request trivial ?_
  rintro reply y ⟨replied,rfl⟩
  rw [Request.crossing,List.append_nil]
  exact after reply replied

/-- Every request is answered, so that what goes on in these surroundings comes to an end. -/
theorem Setting.heard_ends {p : Program α} {post : List Exchange → α → Prop} (follows : p.Follows (s.heard rt) post calls) :
    ∃ calls' a, p.Yields (s.heard rt).next calls a calls' ∧ post calls' a := by
  have answered (q : Request) : ∃ reply, s.Replies rt q reply := by
    cases q with
    | mapper rt' call => exact ⟨s.mapper call,fun _ => rfl⟩
    | host rt' call => exact ⟨s.host call,fun _ => rfl⟩
    | enter entry arg => exact ⟨0,trivial⟩
    | state call =>
      cases call with
      | stack => exact ⟨.empty,trivial⟩
      | phase rt' => exact ⟨s.phase,fun _ => rfl⟩
      | exchangePhase rt' expected desired => exact ⟨decide (s.phase = expected),fun _ => decide_eq_true_iff⟩
      | load addr count => exact ⟨[],trivial⟩
      | verbosity => exact ⟨.quiet,trivial⟩
      | key rt' | environment => exact ⟨none,trivial⟩
      | setStack | setPhase | keepKey | store | setVerbosity | emit => exact ⟨(),trivial⟩
  induction p generalizing calls with
  | done a => exact ⟨calls,a,.done,follows⟩
  | stop reason => exact follows.elim
  | ask q next ih =>
    obtain ⟨reply,replied⟩ := answered q
    obtain ⟨calls',a,yields,holds⟩ := ih reply (follows.2 reply _ ⟨replied,rfl⟩)
    exact ⟨calls',a,.ask ⟨replied,rfl⟩ yields,holds⟩

/-- The region of a mapping that does not reach the end of the address space. -/
theorem StackAttributes.fits_region (adds : a.Adds) (within : start.toNat + (a.size + a.guard).toNat < UInt64.size) :
    (a.region start).Fits := by
  have sum := Checked.toNat_of_add (Checked.add_eq_ok_iff.mpr ⟨adds,rfl⟩)
  rw [sum] at within
  simp only [Region.Fits,start_region]
  simp only [region]
  omega

namespace Setting.Allocates

theorem region {r : Region} (allocates : s.Allocates rt a said (.ok r)) : ∃ start, r = a.region start := by
  cases allocates with
  | guarded => exact ⟨_,rfl⟩
  | guardless => exact ⟨_,rfl⟩

/-- What was done for a region that was made. -/
theorem made (allocates : s.Allocates rt a said (.ok (a.region start))) :
    a.Adds ∧ s.map (a.size + a.guard) = .ok start ∧ (a.guard ≠ 0 → s.protect start a.guard = .ok ()) ∧
      said = s.mapping rt a :: if a.guard = 0 then [] else [s.guarding rt a start] := by
  generalize place : a.region start = r at allocates
  have own {start'} (same : r = a.region start') : start' = start := by
    rw [← a.start_region start',← same,← place,a.start_region]
  cases allocates with
  | guarded adds mapped guarded protects =>
    obtain rfl := own rfl
    exact ⟨adds,mapped,fun _ => protects,by rw [if_neg guarded]⟩
  | guardless adds mapped guardless =>
    obtain rfl := own rfl
    exact ⟨adds,mapped,fun guarded => absurd guardless guarded,by rw [if_pos guardless]⟩

end Setting.Allocates

namespace Region

theorem closeGuard_heard :
    (closeGuard rt start (a.size + a.guard) a.guard).Follows (s.heard rt)
      (fun y _ => s.protect start a.guard = .ok () ∧ y = calls ++ [s.guarding rt a start])
      (fun y cause => s.protect start a.guard = .error cause ∧ y = calls ++ [s.guarding rt a start,s.unmapping rt a start])
      calls := by
  refine .bind (follows_outcome (follows_ofProgram (Setting.heard_mapper ?_)))
  rintro (cause | _) replied
  · refine .bind (follows_outcome (follows_ofProgram (Setting.heard_mapper ?_)))
    have told : calls ++ [s.guarding rt a start] ++ [s.unmapping rt a start] =
        calls ++ [s.guarding rt a start,s.unmapping rt a start] := List.append_assoc ..
    rintro (leftover | _) -
    · exact .bind (follows_lift (follows_trace Setting.heard_silent Setting.heard_text (follows_throw ⟨replied,told⟩)))
    · exact follows_throw ⟨replied,told⟩
  · exact follows_pure ⟨replied,rfl⟩

/-- A region that was made is reported, which makes no call. -/
theorem traced {more : List Exchange} (fits : (a.region start).Fits) (made : s.Allocates rt a said (.ok (a.region start)))
    (told : more = calls ++ said) : Attempt.Follows (s.heard rt)
      (fun y r => ∃ said start, s.Allocates rt a said (.ok r) ∧ r = a.region start ∧ r.Fits ∧ y = calls ++ said)
      (fun y cause => ∃ said, s.Allocates rt a said (.error cause) ∧ y = calls ++ said)
      (do
        Program.trace do
          let top ← Program.checked (Checked.add (start + a.guard) a.size)
          return s!"mapped unsafe stack {hex (start + a.guard)}..{hex top} (guard {hex a.guard})"
        return ⟨start + a.guard,a.size,a.guard⟩) more := by
  refine .bind (follows_lift (follows_trace Setting.heard_silent ?_ ?_))
  · exact .bind (follows_checked fits.top_eq Setting.heard_text)
  · exact follows_pure ⟨said,start,made,rfl,fits,told⟩

/-- Making a region in closed form. -/
theorem allocate_heard (within : s.Within) :
    (allocate rt a.size a.guard).Follows (s.heard rt)
      (fun y r => ∃ said start, s.Allocates rt a said (.ok r) ∧ r = a.region start ∧ r.Fits ∧ y = calls ++ said)
      (fun y cause => ∃ said, s.Allocates rt a said (.error cause) ∧ y = calls ++ said) calls := by
  unfold allocate
  cases sum : Checked.add a.size a.guard with
  | error _ =>
    refine follows_throw ⟨[],.overflow fun adds => ?_,(List.append_nil _).symm⟩
    rw [Checked.add_eq_ok_iff.mpr ⟨adds,rfl⟩] at sum
    cases sum
  | ok total =>
    obtain ⟨adds,rfl⟩ := Checked.add_eq_ok_iff.mp sum
    refine .bind (follows_ofProgram (Setting.heard_mapper ?_))
    rintro (cause | start) replied
    · exact ⟨_,.unmapped adds replied,rfl⟩
    have fits := StackAttributes.fits_region adds (within _ _ _ replied)
    dsimp only
    split
    next guarded =>
      refine .bind (closeGuard_heard.mono ?_ ?_)
      · rintro y ⟨⟩ ⟨protects,rfl⟩
        exact traced fits (.guarded adds replied guarded protects) (List.append_assoc ..)
      · rintro y cause ⟨fails,rfl⟩
        exact ⟨_,.unprotected adds replied guarded fails,List.append_assoc ..⟩
    next guardless => exact traced fits (.guardless adds replied (not_not.mp guardless)) rfl

theorem release_heard (fits : (a.region start).Fits) :
    (release rt (a.region start)).Follows (s.heard rt) (fun y _ => y = calls ++ [s.unmapping rt a start])
      (fun y _ => y = calls ++ [s.unmapping rt a start]) calls := by
  have told : s.unmapping rt a start =
      ⟨.mapper rt (.unmap (a.region start).start (a.size + a.guard)),s.unmap (a.region start).start (a.size + a.guard)⟩ := by
    rw [StackAttributes.start_region]
    rfl
  rw [told]
  refine .bind (follows_lift (follows_checked fits.length_eq (.bind (follows_ofProgram (Setting.heard_mapper ?_)))))
  rintro (leftover | _) -
  · rfl
  · exact follows_lift (follows_trace Setting.heard_silent Setting.heard_text rfl)

theorem discard_heard {reason : String} (fits : (a.region start).Fits) :
    (discard rt reason (a.region start)).Follows (s.heard rt) (fun y _ => y = calls ++ [s.unmapping rt a start]) calls := by
  refine .bind (Program.Follows.mono (release_heard fits) ?_)
  rintro y (leftover | _) rfl
  · exact follows_trace Setting.heard_silent Setting.heard_text rfl
  · rfl

end Region

theorem Host.attributes_heard {attr : Option AttributeRef} :
    (Host.attributes rt attr).Follows (s.heard rt)
      (fun y a => s.attributes attr = .ok a ∧ y = calls ++ [s.asking rt attr])
      (fun y cause => s.attributes attr = .error cause ∧ y = calls ++ [s.asking rt attr]) calls := by
  cases attr with
  | none =>
    refine follows_ofProgram (Setting.heard_host ?_)
    rintro (cause | a) replied
    · exact ⟨replied,rfl⟩
    · exact ⟨replied,rfl⟩
  | some attr =>
    refine follows_ofProgram (Setting.heard_host ?_)
    rintro (cause | a) replied
    · exact ⟨replied,rfl⟩
    · exact ⟨replied,rfl⟩

namespace Handoff

/-- What comes of placing a record. -/
inductive Places (r : Region) : Except Stop (Except Fault UInt64) → Prop
  | small : r.usable < size → Places r (.ok (.error (.handoffOverflow r.usable size)))
  | misplaced : size ≤ r.usable → (r.top - size) % alignment ≠ 0 → Places r (.error (misplaced (r.top - size)))
  | placed : size ≤ r.usable → (r.top - size) % alignment = 0 → Places r (.ok (.ok (r.top - size)))

theorem place_heard {h : Handoff} (fits : h.region.Fits) :
    (place h).run.caught.Follows (s.heard rt) (fun y result => y = calls ∧ Places h.region result) calls := by
  have top := fits.top_toNat
  refine Program.Follows.bind_caught ?_
  unfold slot
  split
  next small => exact ⟨rfl,.small small⟩
  next large =>
    have large := UInt64.not_lt.mp large
    have enough := UInt64.le_iff_toNat_le.mp large
    have below : Checked.subtract h.region.top size = .ok (h.region.top - size) :=
      Checked.subtract_eq_ok_iff.mpr ⟨UInt64.le_iff_toNat_le.mpr (by omega),rfl⟩
    rw [below]
    refine Attempt.Follows.bind_caught (follows_lift (follows_checked rfl ?_)) Setting.heard_lasts
    split
    next even => exact Setting.heard_state fun _ _ => ⟨rfl,.placed large even⟩
    next odd => exact Setting.heard_state fun _ _ => ⟨rfl,.misplaced large odd⟩

end Handoff

namespace Spawn

theorem prepare_heard {attr : Option AttributeRef} {entry : EntryPoint} {arg : UInt64} (within : s.Within) (large : s.page ≠ 0) :
    (prepare rt attr entry arg).run.caught.Follows (s.heard rt)
      (fun y result => ∃ said, s.Prepares rt attr said result ∧ y = calls ++ said) calls := by
  refine Attempt.Follows.bind_caught (Host.attributes_heard.mono ?_ ?_) Setting.heard_lasts
  · rintro y a ⟨given,rfl⟩
    refine Attempt.Follows.bind_caught (follows_lift (Setting.heard_mapper ?_)) Setting.heard_lasts
    rintro page sized
    obtain rfl : s.page = page := sized
    obtain ⟨verdict,checked_,-⟩ := a.validate_verdict large
    refine Attempt.Follows.bind_caught (follows_lift (follows_checked checked_ ?_)) Setting.heard_lasts
    have told (said : List Exchange) : calls ++ [s.asking rt attr] ++ [s.sizing rt] ++ said =
        calls ++ (s.asking rt attr :: s.sizing rt :: said) := by simp
    cases verdict with
    | error cause => exact ⟨_,.invalid given checked_,List.append_assoc ..⟩
    | ok _ =>
      refine Attempt.Follows.bind_caught ((Region.allocate_heard within).mono ?_ ?_) Setting.heard_lasts
      · rintro y _ ⟨said,start,made,rfl,fits,rfl⟩
        refine Attempt.outcome_caught ((Handoff.place_heard (h := ⟨entry,arg,a.region start,rt⟩) fits).mono ?_)
        rintro y result ⟨rfl,places⟩
        cases places with
        | small small =>
          refine Attempt.Follows.bind_caught (follows_lift ((Region.discard_heard fits).mono ?_)) Setting.heard_lasts
          rintro y ⟨⟩ rfl
          exact ⟨_,.small given checked_ made small,(congrArg (· ++ _) (told said)).trans (List.append_assoc ..)⟩
        | misplaced enough odd => exact ⟨_,.misplaced given checked_ made enough odd,told said⟩
        | placed enough even =>
          refine Attempt.Follows.bind_caught (follows_lift (follows_trace Setting.heard_silent Setting.heard_text ?_)) Setting.heard_lasts
          exact ⟨_,.placed given checked_ made enough even,told said⟩
      · rintro y cause ⟨said,fails,rfl⟩
        exact ⟨_,.unmade given checked_ fails,told said⟩
  · rintro y cause ⟨fails,rfl⟩
    exact ⟨_,.unasked fails,rfl⟩

end Spawn
end

/-- Stacks are too small for a record, and nothing can be unmapped. -/
def Setting.cramped : Setting where
  phase := .ready
  mapper
    | .pageSize => 0x1000
    | .map len _ => if len ≤ 0x10000000 then .ok 0x100000 else .error (.mapFailed len 12)
    | .protect _ _ _ => .ok ()
    | .unmap addr len => .error (.unmapFailed addr len 12)
  host
    | .stackLimit => none
    | .defaultAttributes | .requestedAttributes _ => .ok ⟨32,0x1000⟩
    | .installInterception | .setCleanupValue _ _ => .ok ()
    | .createCleanupKey => .ok ⟨7⟩
    | .spawn _ => 0

theorem Setting.cramped_within : cramped.Within := by
  intro len rights addr mapped
  change (if len ≤ 0x10000000 then .ok 0x100000 else .error (.mapFailed len 12) : Except Fault UInt64) = .ok addr at mapped
  split at mapped
  next small =>
    cases mapped
    have small : len.toNat ≤ 0x10000000 := UInt64.le_iff_toNat_le.mp small
    show 0x100000 + len.toNat < UInt64.size
    simp only [UInt64.size]
    omega
  · cases mapped

end GuardedStack
