import GuardedStack.Proofs.Transcript
import Mathlib.Data.List.Sigma

/-! What is left of an allocation, or of the preparation of a thread, that fails: the first fault, whatever goes wrong after
it, and no mapping but one that could not be unmapped. What succeeds has made one mapping and unmapped none. -/
namespace GuardedStack

open Program Attempt

namespace Exchange

def made? : Exchange → Option Mapping
  | ⟨.mapper rt (.map len _),.ok addr⟩ => some ⟨rt,addr,len⟩
  | _ => none

/-- What a call asks to unmap, whether or not it works. -/
def unmapped? : Exchange → Option Mapping
  | ⟨.mapper rt (.unmap addr len),_⟩ => some ⟨rt,addr,len⟩
  | _ => none

/-- The part of memory that a call asks to protect, and how. -/
def protected? : Exchange → Option (UInt64 × UInt64 × Rights)
  | ⟨.mapper _ (.protect addr len rights),_⟩ => some (addr,len,rights)
  | _ => none

/-- The live mappings after a call. -/
def live (before : List Mapping) : Exchange → List Mapping
  | ⟨.mapper rt (.map len _),.ok addr⟩ => ⟨rt,addr,len⟩ :: before
  | ⟨.mapper rt (.unmap addr len),.ok ()⟩ => before.erase ⟨rt,addr,len⟩
  | _ => before

end Exchange

/-- The mapping has room for the stack and its guard, and for nothing else. -/
structure StackAttributes.Filled (a : StackAttributes) (rt : RuntimeId) (m : Mapping) : Prop where
  runtime : m.runtime = rt
  len : m.len.toNat = a.size.toNat + a.guard.toNat

namespace Setting

/-- The steps of an allocation as they stand, without any clean-up: the first that fails decides. -/
def allocated (s : Setting) (a : StackAttributes) : Except Fault Region := do
  if UInt64.size ≤ a.size.toNat + a.guard.toNat then throw (.sizeOverflow a.size a.guard)
  let start ← s.map (a.size + a.guard)
  if a.guard ≠ 0 then s.protect start a.guard
  return a.region start

/-- The verdict of the check, which is always given for a page size that is not zero. -/
def validated (s : Setting) (a : StackAttributes) : Except Fault Unit :=
  match a.validate s.page with
  | .ok verdict => verdict
  | .error _ => .ok ()

/-- The steps of a preparation, in the same way. -/
def prepared (s : Setting) (attr : Option AttributeRef) : Except Fault Region := do
  let a ← s.attributes attr
  s.validated a
  let r ← s.allocated a
  if a.size < Handoff.size then throw (.handoffOverflow a.size Handoff.size)
  return r

end Setting

/-- Nothing was mapped, or all of the one mapping is asked to be unmapped once. Then it is left only if that fails. -/
inductive Undone (s : Setting) (rt : RuntimeId) (wanted : Except Fault StackAttributes) (calls : List Exchange) : Prop
  | nothing : calls.filterMap Exchange.made? = [] → calls.filterMap Exchange.unmapped? = [] →
      (∀ before, calls.foldl Exchange.live before = before) → Undone s rt wanted calls
  | mapping (a : StackAttributes) (m : Mapping) : wanted = .ok a → a.Filled rt m → calls.filterMap Exchange.made? = [m] →
      calls.filterMap Exchange.unmapped? = [m] →
      (s.unmap m.addr m.len = .ok () → ∀ before, calls.foldl Exchange.live before = before) →
      (∀ cause, s.unmap m.addr m.len = .error cause → ∀ before, calls.foldl Exchange.live before = m :: before) →
      Undone s rt wanted calls

/-- One mapping was made and kept. Its guard, if there is one, was protected by one call. -/
structure Kept (rt : RuntimeId) (a : StackAttributes) (m : Mapping) (calls : List Exchange) : Prop where
  filled : a.Filled rt m
  made : calls.filterMap Exchange.made? = [m]
  unmapped : calls.filterMap Exchange.unmapped? = []
  live : ∀ before, calls.foldl Exchange.live before = m :: before
  guarded : calls.filterMap Exchange.protected? = if a.guard = 0 then [] else [(m.addr,a.guard,.none)]

/-- How an operation ends that goes through these steps for these attributes. -/
structure Settled (s : Setting) (rt : RuntimeId) (wanted : Except Fault StackAttributes) (steps : Except Fault Region)
    (calls : List Exchange) (outcome : Except Fault α) : Prop where
  /-- It fails as the first step to fail does, and succeeds if none does. -/
  cause : ∀ cause, outcome = .error cause ↔ steps = .error cause
  undone : ∀ cause, outcome = .error cause → Undone s rt wanted calls
  kept : ∀ value, outcome = .ok value → ∃ a m, wanted = .ok a ∧ steps = .ok (a.region m.addr) ∧ Kept rt a m calls
  /-- No call is made twice. -/
  once : calls.NodupKeys

variable {s : Setting} {rt : RuntimeId} {a : StackAttributes} {start : UInt64} {calls said : List Exchange}
  {attr : Option AttributeRef} {wanted : Except Fault StackAttributes}

theorem StackAttributes.Adds.filled (adds : a.Adds) : a.Filled rt ⟨rt,start,a.size + a.guard⟩ where
  runtime := rfl
  len := Checked.toNat_of_add (Checked.add_eq_ok_iff.mpr ⟨adds,rfl⟩)

/-- The call neither makes nor unmaps nor protects anything. -/
structure Exchange.Idle (e : Exchange) : Prop where
  made : e.made? = none
  unmapped : e.unmapped? = none
  protected_ : e.protected? = none
  live : ∀ before, e.live before = before

theorem Setting.asking_idle : (s.asking rt attr).Idle := by
  cases attr <;> exact ⟨rfl,rfl,rfl,fun _ => rfl⟩

theorem Setting.sizing_idle : (s.sizing rt).Idle := ⟨rfl,rfl,rfl,fun _ => rfl⟩

theorem Undone.cons {e : Exchange} (idle : e.Idle) (undone : Undone s rt wanted calls) : Undone s rt wanted (e :: calls) := by
  cases undone with
  | nothing made unmapped live =>
    apply Undone.nothing
    · rw [List.filterMap_cons_none idle.made,made]
    · rw [List.filterMap_cons_none idle.unmapped,unmapped]
    · simpa only [List.foldl_cons,idle.live] using live
  | mapping a m given filled made unmapped works fails =>
    apply Undone.mapping a m given filled
    · rw [List.filterMap_cons_none idle.made,made]
    · rw [List.filterMap_cons_none idle.unmapped,unmapped]
    · simpa only [List.foldl_cons,idle.live] using works
    · simpa only [List.foldl_cons,idle.live] using fails

namespace Kept

variable {m : Mapping}

theorem cons {e : Exchange} (idle : e.Idle) (kept : Kept rt a m calls) : Kept rt a m (e :: calls) where
  filled := kept.filled
  made := by rw [List.filterMap_cons_none idle.made,kept.made]
  unmapped := by rw [List.filterMap_cons_none idle.unmapped,kept.unmapped]
  live := by simpa only [List.foldl_cons,idle.live] using kept.live
  guarded := by rw [List.filterMap_cons_none idle.protected_,kept.guarded]

/-- The guard is asked for, whatever the reply is. -/
theorem guarding (adds : a.Adds) (mapped : s.map (a.size + a.guard) = .ok start) (guarded : a.guard ≠ 0) :
    Kept rt a ⟨rt,start,a.size + a.guard⟩ [s.mapping rt a,s.guarding rt a start] where
  filled := adds.filled
  made := by simp [Setting.mapping,Setting.guarding,mapped,Exchange.made?]
  unmapped := by simp [Setting.mapping,Setting.guarding,Exchange.unmapped?]
  live := by simp [Setting.mapping,Setting.guarding,mapped,Exchange.live]
  guarded := by
    rw [if_neg guarded]
    rfl

theorem guardless (adds : a.Adds) (mapped : s.map (a.size + a.guard) = .ok start) (guardless : a.guard = 0) :
    Kept rt a ⟨rt,start,a.size + a.guard⟩ [s.mapping rt a] where
  filled := adds.filled
  made := by simp [Setting.mapping,mapped,Exchange.made?]
  unmapped := by simp [Setting.mapping,Exchange.unmapped?]
  live := by simp [Setting.mapping,mapped,Exchange.live]
  guarded := by simp [Setting.mapping,Exchange.protected?,guardless]

/-- The mapping is asked to be unmapped after all. -/
theorem unmapping (kept : Kept rt a ⟨rt,start,a.size + a.guard⟩ calls) :
    Undone s rt (.ok a) (calls ++ [s.unmapping rt a start]) := by
  apply Undone.mapping a _ rfl kept.filled
  · simp [kept.made,Setting.unmapping,Exchange.made?]
  · simp [kept.unmapped,Setting.unmapping,Exchange.unmapped?]
  · intro works before
    simp [kept.live,Setting.unmapping,works,Exchange.live]
  · intro cause fails before
    simp [kept.live,Setting.unmapping,fails,Exchange.live]

end Kept

namespace Setting.Allocates

theorem steps {outcome : Except Fault Region} (allocates : s.Allocates rt a said outcome) : s.allocated a = outcome := by
  unfold allocated
  cases allocates with
  | overflow beyond =>
    rw [if_pos (Nat.not_lt.mp beyond)]
    rfl
  | unmapped adds fails =>
    rw [if_neg (Nat.not_le.mpr adds),fails]
    rfl
  | unprotected adds mapped guarded fails =>
    rw [if_neg (Nat.not_le.mpr adds),mapped]
    simp only [if_pos guarded]
    exact congrArg (· >>= fun _ => pure _) fails
  | guarded adds mapped guarded protects =>
    rw [if_neg (Nat.not_le.mpr adds),mapped]
    simp only [if_pos guarded]
    exact congrArg (· >>= fun _ => pure _) protects
  | guardless adds mapped guardless =>
    rw [if_neg (Nat.not_le.mpr adds),mapped]
    simp only [if_neg (not_not.mpr guardless)]
    rfl

theorem undone {cause : Fault} (allocates : s.Allocates rt a said (.error cause)) : Undone s rt (.ok a) said := by
  cases allocates with
  | overflow beyond => exact .nothing rfl rfl fun _ => rfl
  | unmapped adds fails =>
    apply Undone.nothing <;> simp [mapping,fails,Exchange.made?,Exchange.unmapped?,Exchange.live]
  | unprotected adds mapped guarded fails => exact Kept.unmapping (.guarding adds mapped guarded)

theorem kept (allocates : s.Allocates rt a said (.ok (a.region start))) :
    Kept rt a ⟨rt,start,a.size + a.guard⟩ said := by
  obtain ⟨adds,mapped,-,rfl⟩ := allocates.made
  split
  next guardless => exact .guardless adds mapped guardless
  next guarded => exact .guarding adds mapped guarded

theorem once {outcome : Except Fault Region} (allocates : s.Allocates rt a said outcome) : said.NodupKeys := by
  cases allocates <;> simp [List.NodupKeys,mapping,guarding,unmapping]

theorem settled {outcome : Except Fault Region} (allocates : s.Allocates rt a said outcome) :
    Settled s rt (.ok a) (s.allocated a) said outcome where
  cause cause := by rw [allocates.steps]
  undone cause fails := by
    subst fails
    exact allocates.undone
  kept r succeeds := by
    subst succeeds
    obtain ⟨start,rfl⟩ := allocates.region
    exact ⟨a,_,rfl,allocates.steps,allocates.kept⟩
  once := allocates.once

end Setting.Allocates

/-- The steps as they stand, once the attributes are accepted. -/
theorem Setting.prepared_of_valid (given : s.attributes attr = .ok a) (valid : a.validate s.page = .ok (.ok ())) :
    s.prepared attr = s.allocated a >>= fun r =>
      if a.size < Handoff.size then .error (.handoffOverflow a.size Handoff.size) else .ok r := by
  have accepted : s.validated a = .ok () := by rw [validated,valid]
  unfold prepared
  rw [given]
  exact congrArg (· >>= fun _ => _) accepted

namespace Setting.Prepares

variable {result : Except Stop (Except Fault UInt64)}

theorem once (prepares : s.Prepares rt attr said result) : said.NodupKeys := by
  obtain ⟨call,reply,asks⟩ : ∃ call reply, s.asking rt attr = ⟨.host rt call,reply⟩ := by
    cases attr <;> exact ⟨_,_,rfl⟩
  cases prepares with
  | unasked => simp [List.NodupKeys]
  | invalid => simp [List.NodupKeys,asks,sizing]
  | unmade _ _ fails => cases fails <;> simp [List.NodupKeys,asks,sizing,mapping,guarding,unmapping]
  | small _ _ made =>
    obtain ⟨-,-,-,rfl⟩ := made.made
    split <;> simp [List.NodupKeys,asks,sizing,mapping,guarding,unmapping]
  | misplaced _ _ made =>
    obtain ⟨-,-,-,rfl⟩ := made.made
    split <;> simp [List.NodupKeys,asks,sizing,mapping,guarding]
  | placed _ _ made =>
    obtain ⟨-,-,-,rfl⟩ := made.made
    split <;> simp [List.NodupKeys,asks,sizing,mapping,guarding]

theorem failed {cause : Fault} (prepares : s.Prepares rt attr said (.ok (.error cause))) :
    s.prepared attr = .error cause ∧ Undone s rt (s.attributes attr) said := by
  cases prepares with
  | unasked fails =>
    refine ⟨?_,.cons asking_idle (.nothing rfl rfl fun _ => rfl)⟩
    rw [prepared,fails]
    rfl
  | @invalid a _ given refused =>
    refine ⟨?_,.cons asking_idle (.cons sizing_idle (.nothing rfl rfl fun _ => rfl))⟩
    have refused : s.validated a = .error cause := by rw [validated,refused]
    rw [prepared,given]
    exact congrArg (· >>= fun _ => _) refused
  | unmade given valid fails =>
    refine ⟨?_,given ▸ .cons asking_idle (.cons sizing_idle fails.undone)⟩
    rw [prepared_of_valid given valid,fails.steps]
    rfl
  | small given valid made small =>
    refine ⟨?_,given ▸ .cons asking_idle (.cons sizing_idle made.kept.unmapping)⟩
    rw [prepared_of_valid given valid,made.steps]
    exact if_pos small

theorem stopped {reason : Stop} (prepares : s.Prepares rt attr said (.error reason)) :
    ∃ r, s.prepared attr = .ok r ∧ (r.top - Handoff.size) % Handoff.alignment ≠ 0 ∧
      reason = Handoff.misplaced (r.top - Handoff.size) := by
  cases prepares with
  | misplaced given valid made enough odd =>
    refine ⟨_,?_,odd,rfl⟩
    rw [prepared_of_valid given valid,made.steps]
    exact if_neg (UInt64.not_lt.mpr enough)

theorem succeeded {addr : UInt64} (prepares : s.Prepares rt attr said (.ok (.ok addr))) :
    ∃ a m, s.attributes attr = .ok a ∧ s.prepared attr = .ok (a.region m.addr) ∧ Kept rt a m said := by
  cases prepares with
  | placed given valid made enough even =>
    refine ⟨_,⟨rt,_,_⟩,given,?_,.cons asking_idle (.cons sizing_idle made.kept)⟩
    rw [prepared_of_valid given valid,made.steps]
    exact if_neg (UInt64.not_lt.mpr enough)

theorem settled {outcome : Except Fault UInt64} (prepares : s.Prepares rt attr said (.ok outcome)) :
    Settled s rt (s.attributes attr) (s.prepared attr) said outcome := by
  have once := prepares.once
  cases outcome with
  | error cause =>
    obtain ⟨steps,undone⟩ := prepares.failed
    exact ⟨by simp [steps],fun _ _ => undone,by simp,once⟩
  | ok addr =>
    obtain ⟨a,m,given,steps,kept⟩ := prepares.succeeded
    exact ⟨by simp [steps],by simp,fun _ _ => ⟨a,m,given,steps,kept⟩,once⟩

end Setting.Prepares

/-- How an operation ends that may stop at its record. -/
def Setting.Concludes (s : Setting) (rt : RuntimeId) (attr : Option AttributeRef) (calls : List Exchange) :
    Except Stop (Except Fault UInt64) → Prop
  | .ok outcome => Settled s rt (s.attributes attr) (s.prepared attr) calls outcome
  | .error reason => ∃ r, s.prepared attr = .ok r ∧ (r.top - Handoff.size) % Handoff.alignment ≠ 0 ∧
      reason = Handoff.misplaced (r.top - Handoff.size)

/-- With mappings that do not reach the end of the address space, an allocation never stops, and a preparation stops only if
all its steps have worked and its record is out of place. If one of the two fails, it does so as its first step to fail, and
has unmapped what it mapped. -/
theorem Setting.undoes (within : s.Within) :
    (Region.allocate rt a.size a.guard).run.caught.Follows (s.heard rt) (fun calls result =>
        ∃ outcome, result = .ok outcome ∧ Settled s rt (.ok a) (s.allocated a) calls outcome) [] ∧
      (s.page ≠ 0 → ∀ entry arg, (Spawn.prepare rt attr entry arg).run.caught.Follows (s.heard rt) (s.Concludes rt attr) []) := by
  constructor
  · refine Program.Follows.caught (Program.Follows.mono (Region.allocate_heard within) ?_) heard_lasts
    rintro y (cause | r) ends
    · obtain ⟨said,fails,rfl⟩ := ends
      exact ⟨_,rfl,fails.settled⟩
    · obtain ⟨said,start,made,-,-,rfl⟩ := ends
      exact ⟨_,rfl,made.settled⟩
  · intro large entry arg
    refine (Spawn.prepare_heard within large).mono ?_
    rintro y (reason | outcome) ⟨said,prepares,rfl⟩
    · exact prepares.stopped
    · exact prepares.settled

/-- Of two failures the first is told. -/
theorem Setting.undoes_cramped : ∃ calls, (Spawn.prepare ⟨0⟩ none ⟨5⟩ 0).run.caught.Yields (cramped.heard ⟨0⟩).next []
    (.ok (.error (.handoffOverflow 32 48))) calls ∧ calls.filterMap Exchange.made? = calls.filterMap Exchange.unmapped? := by
  have steps : cramped.prepared none = .error (.handoffOverflow 32 48) := rfl
  have ends : (Spawn.prepare ⟨0⟩ none ⟨5⟩ 0).run.caught.Follows (cramped.heard ⟨0⟩) (cramped.Concludes ⟨0⟩ none) [] :=
    (Setting.undoes (a := ⟨32,0x1000⟩) cramped_within).2 (by decide) ⟨5⟩ 0
  obtain ⟨calls,result,yields,ends⟩ := heard_ends ends
  cases result with
  | error reason =>
    obtain ⟨r,made,-⟩ := ends
    rw [steps] at made
    cases made
  | ok outcome =>
    obtain rfl := (ends.cause _).mpr steps
    refine ⟨calls,yields,?_⟩
    cases ends.undone _ rfl with
    | nothing made unmapped => rw [made,unmapped]
    | mapping a m _ _ made unmapped => rw [made,unmapped]

end GuardedStack
