import GuardedStack.Proofs.Transcript
import GuardedStack.Proofs.Asks

/-! Which threads are started. The primitive is asked for exactly those whose attributes are known and can be honoured, whose
mapping can be made and whose guard can be closed. Any other thread ends the process with the first of these conditions that
fails, and with nothing mapped that could be unmapped. -/
namespace GuardedStack

open Program Attempt

/-- The attributes can be honoured with pages of this size. -/
structure StackAttributes.Valid (a : StackAttributes) (page : UInt64) : Prop where
  nonempty : a.size ≠ 0
  size : 16 ∣ a.size.toNat
  guard : page.toNat ∣ a.guard.toNat

/-- The verdict on attributes: the first condition to fail. -/
inductive StackAttributes.Verdict (a : StackAttributes) (page : UInt64) : Except Fault Unit → Prop
  | zero : a.size = 0 → Verdict a page (.error .zeroStackSize)
  | size : ¬16 ∣ a.size.toNat → Verdict a page (.error (.misalignedStackSize a.size))
  | guard : a.size ≠ 0 → 16 ∣ a.size.toNat → ¬page.toNat ∣ a.guard.toNat →
      Verdict a page (.error (.misalignedGuardSize a.guard page))
  | valid : a.Valid page → Verdict a page (.ok ())

namespace Setting

/-- A thread with these attributes is to be started. -/
def Admits (s : Setting) (attr : Option AttributeRef) : Prop :=
  ∃ a start, s.attributes attr = .ok a ∧ 16 ∣ a.size.toNat ∧ 48 ≤ a.size.toNat ∧ s.page.toNat ∣ a.guard.toNat ∧
    a.size.toNat + a.guard.toNat < UInt64.size ∧ s.map (a.size + a.guard) = .ok start ∧
    (0 < a.guard → s.protect start a.guard = .ok ())

/-- Why a thread is not started, with all calls up to then. -/
inductive Refuses (s : Setting) (rt : RuntimeId) (attr : Option AttributeRef) : List Exchange → Fault → Prop
  | query {cause} : s.attributes attr = .error cause → Refuses s rt attr [s.asking rt attr] cause
  | zero {a} : s.attributes attr = .ok a → a.size = 0 → Refuses s rt attr [s.asking rt attr,s.sizing rt] .zeroStackSize
  | size {a} : s.attributes attr = .ok a → ¬16 ∣ a.size.toNat →
      Refuses s rt attr [s.asking rt attr,s.sizing rt] (.misalignedStackSize a.size)
  | guard {a} : s.attributes attr = .ok a → a.size ≠ 0 → 16 ∣ a.size.toNat → ¬s.page.toNat ∣ a.guard.toNat →
      Refuses s rt attr [s.asking rt attr,s.sizing rt] (.misalignedGuardSize a.guard s.page)
  | overflow {a} : s.attributes attr = .ok a → a.Valid s.page → UInt64.size ≤ a.size.toNat + a.guard.toNat →
      Refuses s rt attr [s.asking rt attr,s.sizing rt] (.sizeOverflow a.size a.guard)
  | map {a cause} : s.attributes attr = .ok a → a.Valid s.page → a.Adds → s.map (a.size + a.guard) = .error cause →
      Refuses s rt attr [s.asking rt attr,s.sizing rt,s.mapping rt a] cause
  | protect {a start cause} : s.attributes attr = .ok a → a.Valid s.page → a.Adds → s.map (a.size + a.guard) = .ok start →
      0 < a.guard → s.protect start a.guard = .error cause →
      Refuses s rt attr [s.asking rt attr,s.sizing rt,s.mapping rt a,s.guarding rt a start,s.unmapping rt a start] cause
  | small {a start} : s.attributes attr = .ok a → a.Valid s.page → a.Adds → s.map (a.size + a.guard) = .ok start →
      (0 < a.guard → s.protect start a.guard = .ok ()) → a.size = 16 ∨ a.size = 32 →
      Refuses s rt attr ([s.asking rt attr,s.sizing rt,s.mapping rt a] ++
        (if a.guard = 0 then [] else [s.guarding rt a start]) ++ [s.unmapping rt a start]) (.handoffOverflow a.size 48)

/-- The page size keeps stack pointers aligned, and mappings start at multiples of it. -/
structure Paged (s : Setting) : Prop where
  page : PageSize s.page
  starts : ∀ len rights addr, s.mapper (.map len rights) = .ok addr → s.page.toNat ∣ addr.toNat

end Setting

/-- What is decided about a thread, and how the operation ends. -/
structure Decided (s : Setting) (rt : RuntimeId) (attr : Option AttributeRef) (calls : List Exchange)
    (result : Except Stop Int32) : Prop where
  spawned : (∃ call code, (⟨.host rt (.spawn call),code⟩ : Exchange) ∈ calls) ↔ s.Admits attr
  refused : ¬s.Admits attr → ∃ cause, s.Refuses rt attr calls cause ∧
    result = .error (.aborted (.fault Diagnostics.Duty.preparing.text cause))
  /-- No record is ever out of place. -/
  placed : ∀ detail, result ≠ .error (.aborted (.check "addr % align_of::<ThreadHandoff>() == 0" detail))

variable {s : Setting} {rt : RuntimeId} {attr : Option AttributeRef} {a : StackAttributes} {calls said : List Exchange}
  {start page : UInt64}

theorem StackAttributes.verdict (paged : PageSize page) {verdict : Except Fault Unit} (told : a.validate page = .ok verdict) :
    a.Verdict page verdict := by
  have size : a.size &&& (stackAlign - 1) = 0 ↔ 16 ∣ a.size.toNat := mask_eq_zero_iff stackAlign_power
  have guard : a.guard &&& (page - 1) = 0 ↔ page.toNat ∣ a.guard.toNat := mask_eq_zero_iff paged.power
  have mask : Checked.subtract page 1 = .ok (page - 1) := by
    refine Checked.subtract_eq_ok_iff.mpr ⟨UInt64.le_iff_toNat_le.mpr ?_,rfl⟩
    exact Nat.le_trans (by decide) paged.large
  unfold validate at told
  split at told
  next zero =>
    cases told
    exact .zero zero
  next nonempty =>
    split at told
    next odd =>
      cases told
      exact .size (mt size.mpr odd)
    next even =>
      rw [mask] at told
      have even := size.mp (not_not.mp even)
      by_cases whole : a.guard &&& (page - 1) = 0
      · simp [Bind.bind,Except.bind,pure,Except.pure,whole] at told
        exact told ▸ .valid ⟨nonempty,even,guard.mp whole⟩
      · simp [Bind.bind,Except.bind,pure,Except.pure,whole] at told
        exact told ▸ .guard nonempty even (mt guard.mpr whole)

/-- A thread that is refused is not to be started. -/
theorem Setting.Refuses.not_admits {cause : Fault} (refuses : s.Refuses rt attr calls cause) : ¬s.Admits attr := by
  rintro ⟨a,start,given,size,enough,guard,adds,mapped,closed⟩
  cases refuses with
  | query fails =>
    rw [given] at fails
    cases fails
  | zero given' zero =>
    cases given.symm.trans given'
    simp [zero] at enough
  | size given' odd =>
    cases given.symm.trans given'
    exact odd size
  | guard given' _ _ odd =>
    cases given.symm.trans given'
    exact odd guard
  | overflow given' _ beyond =>
    cases given.symm.trans given'
    exact absurd adds (Nat.not_lt.mpr beyond)
  | map given' _ _ fails =>
    cases given.symm.trans given'
    cases mapped.symm.trans fails
  | protect given' _ _ mapped' guarded fails =>
    cases given.symm.trans given'
    cases mapped.symm.trans mapped'
    cases (closed guarded).symm.trans fails
  | small given' _ _ _ _ few =>
    cases given.symm.trans given'
    rcases few with few | few <;> simp [few] at enough

/-- With page-aligned mappings a stack that was accepted ends at a multiple of sixteen bytes. -/
theorem Setting.Paged.aligned (paged : s.Paged) (valid : a.Valid s.page) (fits : (a.region start).Fits)
    (mapped : s.map (a.size + a.guard) = .ok start) : (a.region start).Aligned := by
  refine fits.aligned paged.page ?_ ((mask_eq_zero_iff paged.page.power).mpr valid.guard)
    ((mask_eq_zero_iff stackAlign_power).mpr valid.size)
  rw [StackAttributes.start_region]
  exact paged.starts _ _ _ mapped

/-- A stack of whole sixteens that has no room for a record. -/
theorem StackAttributes.Valid.few (valid : a.Valid page) (small : a.size < Handoff.size) : a.size = 16 ∨ a.size = 32 := by
  have nonempty : a.size.toNat ≠ 0 := fun zero => valid.nonempty (UInt64.toNat_inj.mp zero)
  have size := valid.size
  have small : a.size.toNat < 48 := UInt64.lt_iff_toNat_lt.mp small
  rw [← UInt64.toNat_inj,← UInt64.toNat_inj]
  show a.size.toNat = 16 ∨ a.size.toNat = 32
  omega

namespace Setting.Allocates

theorem refused {cause : Fault} (allocates : s.Allocates rt a said (.error cause)) (given : s.attributes attr = .ok a)
    (valid : a.Valid s.page) : s.Refuses rt attr (s.asking rt attr :: s.sizing rt :: said) cause := by
  cases allocates with
  | overflow beyond => exact .overflow given valid (Nat.not_lt.mp beyond)
  | unmapped adds fails => exact .map given valid adds fails
  | unprotected adds mapped guarded fails => exact .protect given valid adds mapped (UInt64.pos_iff_ne_zero.mpr guarded) fails

end Setting.Allocates

namespace Setting.Prepares

theorem refused {cause : Fault} (paged : s.Paged) (prepares : s.Prepares rt attr said (.ok (.error cause))) :
    s.Refuses rt attr said cause := by
  cases prepares with
  | unasked fails => exact .query fails
  | invalid given told =>
    cases StackAttributes.verdict paged.page told with
    | zero zero => exact .zero given zero
    | size odd => exact .size given odd
    | guard nonempty even odd => exact .guard given nonempty even odd
  | unmade given told fails =>
    cases StackAttributes.verdict paged.page told with
    | valid valid => exact fails.refused given valid
  | small given told made small =>
    cases StackAttributes.verdict paged.page told with
    | valid valid =>
      obtain ⟨adds,mapped,closed,rfl⟩ := made.made
      exact .small given valid adds mapped (closed ∘ UInt64.pos_iff_ne_zero.mp) (valid.few small)

theorem admitted {addr : UInt64} (paged : s.Paged) (prepares : s.Prepares rt attr said (.ok (.ok addr))) : s.Admits attr := by
  cases prepares with
  | placed given told made enough even =>
    cases StackAttributes.verdict paged.page told with
    | valid valid =>
      obtain ⟨adds,mapped,closed,-⟩ := made.made
      exact ⟨_,_,given,valid.size,UInt64.le_iff_toNat_le.mp enough,valid.guard,adds,mapped,
        closed ∘ UInt64.pos_iff_ne_zero.mp⟩

/-- The record is never out of place. -/
theorem not_stopped {reason : Stop} (paged : s.Paged) (within : s.Within) : ¬s.Prepares rt attr said (.error reason) := by
  intro prepares
  cases prepares with
  | @misplaced a said start given told made enough odd =>
    cases StackAttributes.verdict paged.page told with
    | valid valid =>
      obtain ⟨adds,mapped,-,-⟩ := made.made
      have fits := StackAttributes.fits_region adds (within _ _ _ mapped)
      refine odd ((paged.aligned valid fits mapped).slot (UInt64.le_iff_toNat_le.mpr ?_))
      have enough := UInt64.le_iff_toNat_le.mp enough
      have top : (a.region start).top.toNat = _ + a.size.toNat := fits.top_toNat
      omega

end Setting.Prepares

/-- Whatever happens after the primitive was asked, the calls so far stand, and no record is placed any more. -/
theorem Program.Asks.heard {E : Stop → Prop} {p : Program α} (asks : p.Asks (fun _ => True) E) :
    p.caught.Follows (s.heard rt) (fun calls' result => calls <+: calls' ∧ ∀ reason, result = .error reason → E reason)
      calls := by
  induction p generalizing calls with
  | done a => exact ⟨List.prefix_rfl,fun _ never => nomatch never⟩
  | stop reason =>
    refine ⟨List.prefix_rfl,?_⟩
    rintro _ ⟨⟩
    exact asks
  | ask q next ih =>
    refine ⟨trivial,?_⟩
    rintro reply y ⟨-,rfl⟩
    refine (ih reply (asks.2 reply)).mono ?_
    rintro calls' result ⟨more,ends⟩
    exact ⟨(List.prefix_append ..).trans more,ends⟩

/-- A fault of an attempt ends the process with the duty it was made for. -/
theorem Attempt.orAbort_caught {σ : Type} {d : Discipline σ} {x : σ} {what : String} {attempt : Attempt α}
    {post : σ → Except Stop α → Prop} (silent : d.Silent) (first : attempt.run.caught.Follows d (fun y result => match result with
      | .ok (.ok a) => post y (.ok a)
      | .ok (.error cause) => post y (.error (.aborted (.fault what cause)))
      | .error reason => post y (.error reason)) x) : (attempt.orAbort what).caught.Follows d post x := by
  refine Program.Follows.bind_caught (first.mono ?_)
  rintro y (reason | cause | a) holds
  · exact holds
  · refine ⟨silent.emits _ _,fun reply z step => ?_⟩
    obtain rfl := silent.emitted _ _ _ _ step
    exact holds
  · exact holds

/-- A stop that is no failed check. -/
def Stop.Unchecked (reason : Stop) : Prop := ∀ condition detail, reason ≠ .aborted (.check condition detail)

theorem Handoff.take_unchecked {addr : UInt64} : (Handoff.take addr).Asks (fun _ => True) Stop.Unchecked :=
  take_asks (fun _ _ => trivial) fun _ _ => trivial

theorem Region.release_unchecked {r : Region} {what : String} :
    ((Region.release rt r).orAbort what).Asks (fun _ => True) Stop.Unchecked := by
  refine asks_orAbort (release_asks.mono (fun _ _ => trivial) ?_) (fun _ => trivial) ?_
  · rintro (operation | _ | _ | _) overflow condition detail same
    · cases same
    all_goals exact overflow.elim
  · rintro cause condition detail ⟨⟩

namespace Setting

/-- A thread that is refused is not asked for. -/
theorem Refuses.unspawned {cause : Fault} {call : SpawnCall} {code : Int32} (refuses : s.Refuses rt attr calls cause) :
    (⟨.host rt (.spawn call),code⟩ : Exchange) ∉ calls := by
  have asking : (⟨.host rt (.spawn call),code⟩ : Exchange) ≠ s.asking rt attr := by
    cases attr <;> simp [Setting.asking]
  cases refuses with
  | small =>
    split <;> simp [asking,sizing,mapping,guarding,unmapping]
  | _ => simp [asking,sizing,mapping,guarding,unmapping]

/-- A thread is started if and only if it is admitted. Otherwise the process ends with the first reason against it. -/
theorem decides {handle arg : UInt64} {entry : EntryPoint} (ready : s.phase = .ready) (paged : s.Paged) (within : s.Within) :
    (Spawn.intercept rt handle attr entry arg).caught.Follows (s.heard rt) (Decided s rt attr) [] := by
  refine Program.Follows.bind_caught (Program.Follows.caught (heard_state ?_) heard_lasts)
  intro phase told
  obtain rfl : phase = .ready := (told rfl).trans ready
  dsimp only
  rw [if_pos rfl]
  refine Program.Follows.bind_caught (Attempt.orAbort_caught heard_silent ((Spawn.prepare_heard within paged.page.ne_zero).mono ?_))
  rintro said result ⟨_,prepares,rfl⟩
  rcases result with reason | cause | addr
  · exact absurd prepares (Prepares.not_stopped paged within)
  · have refuses := prepares.refused paged
    refine ⟨iff_of_false ?_ refuses.not_admits,fun _ => ⟨cause,refuses,rfl⟩,by simp⟩
    rintro ⟨call,code,asked⟩
    exact refuses.unspawned asked
  · have admits := prepares.admitted paged
    have decided {calls' : List Exchange} {call : SpawnCall} {code : Int32} {result : Except Stop Int32}
        (more : said ++ [⟨.host rt (.spawn call),code⟩] <+: calls')
        (ends : ∀ reason, result = .error reason → reason.Unchecked) : Decided s rt attr calls' result :=
      ⟨iff_of_true ⟨call,code,more.subset (by simp)⟩ admits,fun refused => absurd admits refused,
        fun detail stopped => ends _ stopped _ _ rfl⟩
    refine Program.Follows.bind_caught (Program.Follows.caught (heard_host ?_) heard_lasts)
    rintro code -
    dsimp only
    split
    · exact decided List.prefix_rfl fun _ never => nomatch never
    · refine Program.Follows.mono (Program.Asks.heard (.bind Handoff.take_unchecked fun handoff =>
        .bind Region.release_unchecked fun _ => trivial)) ?_
      rintro calls' result ⟨more,ends⟩
      exact decided more ends

theorem cramped_paged : cramped.Paged where
  page := ⟨⟨12,rfl⟩,by decide⟩
  starts := by
    intro len rights addr mapped
    change (if len ≤ 0x10000000 then .ok 0x100000 else .error (.mapFailed len 12) : Except Fault UInt64) = .ok addr at mapped
    split at mapped
    · cases mapped
      decide
    · cases mapped

theorem cramped_refuses {cause : Fault} (refuses : cramped.Refuses rt none calls cause) :
    cause = .handoffOverflow 32 48 ∧
      (⟨.mapper rt (.unmap 0x100000 0x1020),.error (.unmapFailed 0x100000 0x1020 12)⟩ : Exchange) ∈ calls := by
  have mapped : cramped.map (32 + 0x1000) = .ok 0x100000 := rfl
  cases refuses with
  | query fails => cases fails
  | zero given zero =>
    cases given
    cases zero
  | size given odd =>
    cases given
    exact absurd (by decide) odd
  | guard given _ _ odd =>
    cases given
    exact absurd (by decide) odd
  | overflow given _ beyond =>
    cases given
    exact absurd beyond (by decide)
  | map given _ _ fails =>
    cases given
    cases mapped.symm.trans fails
  | protect given _ _ _ _ fails => cases fails
  | small given _ _ place =>
    cases given
    cases mapped.symm.trans place
    exact ⟨rfl,List.mem_append_right _ (List.mem_singleton_self _)⟩

/-- The mapping was made, and is asked to be unmapped in vain. -/
theorem decides_cramped : ∃ calls, (Spawn.intercept ⟨0⟩ 0 none ⟨5⟩ 0).caught.Yields (cramped.heard ⟨0⟩).next []
    (.error (.aborted (.fault Diagnostics.Duty.preparing.text (.handoffOverflow 32 48)))) calls ∧
      (⟨.mapper ⟨0⟩ (.unmap 0x100000 0x1020),.error (.unmapFailed 0x100000 0x1020 12)⟩ : Exchange) ∈ calls := by
  have decided : (Spawn.intercept ⟨0⟩ 0 none ⟨5⟩ 0).caught.Follows (cramped.heard ⟨0⟩) (Decided cramped ⟨0⟩ none) [] :=
    decides rfl cramped_paged cramped_within
  obtain ⟨calls,result,yields,decided⟩ := heard_ends decided
  have refused : ¬cramped.Admits none := by
    rintro ⟨a,start,⟨⟩,-,enough,-⟩
    exact absurd enough (by decide)
  obtain ⟨cause,refuses,rfl⟩ := decided.refused refused
  obtain ⟨rfl,unmapped⟩ := cramped_refuses refuses
  exact ⟨calls,yields,unmapped⟩

end Setting

end GuardedStack
