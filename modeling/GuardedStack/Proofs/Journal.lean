import GuardedStack.Proofs.Paging
import GuardedStack.Proofs.Replay

/-! The journal of a thread from its spawn to its end: the mapping, the guard if there is one, the key's first value, then
round by round the destructor's call with what it does, and with the region unmapped in the last round. A foreign key is
served after the cleanup key in each round in which it still has a value. -/
namespace GuardedStack

section
variable {σ : Type} {hooks : ExitHooks σ} {s s₁ s₂ s₃ : σ} {rounds : Nat} {v : KeyValues}

/-- One round with values, and the rounds after it. -/
theorem ExitHooks.round_gives (taken : hooks.takeValues s = (v,s₁)) (valued : v.own ≠ 0)
    (own : (hooks.callOwn v.own).Gives s₁ () s₂)
    (foreign : (if v.foreign ≠ 0 then hooks.callForeign v.foreign else pure ()).Gives s₂ () s₃)
    {s₄ : σ} (rest : (hooks.run rounds).Gives s₃ () s₄) : (hooks.run (rounds + 1)).Gives s () s₄ := by
  have some_ : v ≠ .none := by
    rintro rfl
    exact valued rfl
  have first : (modifyGet hooks.takeValues : Acting σ KeyValues).Gives s v s₁ := by
    rw [Acting.Gives]
    change (Except.ok (hooks.takeValues s).1,(hooks.takeValues s).2) = _
    rw [taken]
  refine .bind first ?_
  rw [if_neg some_]
  dsimp only
  rw [if_pos valued]
  refine .bind own ?_
  by_cases visited : v.foreign ≠ 0
  · rw [if_pos visited] at foreign ⊢
    exact .bind foreign rest
  · rw [if_neg visited] at foreign ⊢
    cases foreign
    exact rest

end

namespace Rehearsal

/-- The value that the foreign key has at the beginning of a round. -/
def foreignAt (rearms : Option UInt64) (round : Nat) : UInt64 :=
  match rearms with
  | none => 0
  | some rearms => .ofNat (rearms.toNat + 2 - round)

/-- In how many rounds the foreign key has a value. -/
def visits : Option UInt64 → Nat
  | none => 0
  | some rearms => min (rearms.toNat + 1) destructorRounds.toNat

/-- What the journal tells of a round of the exit. -/
def passNotes (start len : UInt64) (rearms : Option UInt64) (round : Nat) : List Observation :=
  .pass (.ofNat round) ::
    (if round < destructorRounds.toNat then .keySet (.ofNat (round + 1)) else .unmap start len) ::
      if round ≤ visits rearms then [.foreign (round < destructorRounds.toNat)] else []

section
variable {κ : Type}

/-- How an exit runs its rounds. -/
def exitHooks (nested : Answers κ) (t : ThreadId) (known : Bool) : ExitHooks (State κ) where
  takeValues s := (s.host.values t,{ s with host := s.host.setValues t .none })
  callOwn value := do
    note (.pass value)
    if known then (Cleanup.destructor value).run (nested t)
  callForeign value := do
    note (.foreign ((← get).image.threads t).holding.isSome)
    onHost fun h => ((),h.setValues t { h.values t with foreign := value - 1 })

theorem toNat_foreignAt {rearms : UInt64} {round : Nat} (fits : rearms.toNat + 1 < UInt64.size) (low : 1 ≤ round) :
    (foreignAt (some rearms) round).toNat = rearms.toNat + 2 - round :=
  UInt64.toNat_ofNat_of_lt' (by omega)

section
variable {rearms : Option UInt64} {round : Nat} (fits : ∀ r, rearms = some r → r.toNat + 1 < UInt64.size) (low : 1 ≤ round)
include fits low

theorem foreignAt_ne (high : round ≤ destructorRounds.toNat) : foreignAt rearms round ≠ 0 ↔ round ≤ visits rearms := by
  cases rearms with
  | none =>
    simp only [foreignAt,visits,ne_eq,not_true_eq_false,false_iff]
    omega
  | some rearms =>
    rw [ne_eq,← UInt64.toNat_inj,toNat_foreignAt (fits _ rfl) low]
    simp only [visits,UInt64.reduceToNat]
    omega

theorem foreignAt_succ :
    foreignAt rearms (round + 1) = if foreignAt rearms round ≠ 0 then foreignAt rearms round - 1 else 0 := by
  cases rearms with
  | none => rfl
  | some rearms =>
    have here := toNat_foreignAt (fits _ rfl) low
    have next := toNat_foreignAt (fits _ rfl) (Nat.le_add_left 1 round)
    rw [← UInt64.toNat_inj,next]
    split
    next some_ =>
      have positive : 1 ≤ foreignAt (some rearms) round := by
        rw [ne_eq,← UInt64.toNat_inj] at some_
        exact UInt64.le_iff_toNat_le.mpr (Nat.pos_of_ne_zero some_)
      rw [UInt64.toNat_sub_of_le _ _ positive,here]
      simp only [UInt64.reduceToNat]
      omega
    next none_ =>
      rw [not_not.mp none_] at here
      simp only [UInt64.reduceToNat] at here ⊢
      omega

end

/-- The foreign destructor's call sees whether there is a region. -/
theorem callForeign_gives {s : State κ} {t : ThreadId} {value : UInt64} {nested : Answers κ} {known : Bool} :
    ((exitHooks nested t known).callForeign value).Gives s () { s with
      journal := s.journal ++ [.foreign (s.image.threads t).holding.isSome]
      host := s.host.setValues t { s.host.values t with foreign := value - 1 } } :=
  .bind Acting.gives_get (.bind note_gives onHost_gives)

variable [PageMemory κ]

/-- The memory lets the mapping of a region go. -/
def Frees (k : κ) (r : Region) : Prop := (PageMemory.unmap k r.start (r.usable + r.guard)).1 = 0

/-- A thread at the beginning of a round. -/
structure State.Exiting (s : State κ) (t : ThreadId) (key : CleanupKey) (r : Region) (rearms : Option UInt64)
    (round : Nat) : Prop where
  ready : s.Ready key
  frees : Frees s.kernel r
  held : (s.image.threads t).holding = some ⟨r,runtime⟩
  values : s.host.values t = ⟨.ofNat round,foreignAt rearms round⟩

variable {s : State κ} {t : ThreadId} {key : CleanupKey} {r : Region} {rearms : Option UInt64} {round n : Nat}

/-- A region whose mapping starts as a mapper's do. -/
structure Based (r : Region) : Prop where
  sound : r.Sound
  even : 16 ∣ r.start.toNat

theorem Based.proper (based : Based r) : (r.mapping runtime).Proper :=
  ⟨based.sound.start_ne,by rw [based.sound.finish_mapping]; exact based.sound.fits⟩

theorem State.Ready.since (ready : s.Ready key) {s' : State κ} {x : Shift} (since : s.Since t s' x) : s'.Ready key where
  runtime := (congrFun since.runtimes _).trans ready.runtime
  paged := by
    rw [since.kernel,PageMemory.pageSize_foldl_carry]
    exact ready.paged

/-- What the destructor's call does: it sets the value again, or unmaps the region. -/
theorem destructor_gives (pass : UInt64) (ready : s.Ready key) (based : Based r)
    (frees : Frees s.kernel r) (held : (s.image.threads t).holding = some ⟨r,runtime⟩) :
    ∃ s', ((Cleanup.destructor pass).run (answer (n + 1) t)).Gives s () s' ∧ s'.Ready key ∧
      (s'.kernel = if pass < destructorRounds then s.kernel
        else (PageMemory.unmap s.kernel r.start (r.usable + r.guard)).2) ∧
      s'.journal = s.journal ++
        [if pass < destructorRounds then .keySet (pass + 1) else .unmap r.start (r.usable + r.guard)] ∧
      s'.host.values t = ⟨if pass < destructorRounds then pass + 1 else (s.host.values t).own,(s.host.values t).foreign⟩ ∧
      (s'.image.threads t).holding = if pass < destructorRounds then some ⟨r,runtime⟩ else none := by
  have granted : s.Grants (r.mapping runtime) [] ((State.site ready (r.mapping runtime) based.proper based.even).passing
      r pass).1 := by
    unfold Site.passing
    split
    · trivial
    · exact frees
  obtain ⟨⟨⟩,s',x,gives,since,rfl⟩ := State.gives (n := n) (Cleanup.destructor_works (x := s.shift t)
    held based.sound.length_eq granted)
  refine ⟨s',gives,ready.since since,?_⟩
  rw [since.kernel,since.journal,since.host,since.threads]
  simp only [StandIn.setValues,replace_same]
  unfold Shift.passed Site.passing
  split
  · exact ⟨rfl,rfl,rfl,held⟩
  · exact ⟨rfl,rfl,rfl,rfl⟩

/-- One round: the library's destructor, then the foreign one if it has a value. -/
theorem State.Exiting.round_gives (exiting : s.Exiting t key r rearms round) (based : Based r)
    (fits : ∀ r, rearms = some r → r.toNat + 1 < UInt64.size) (low : 1 ≤ round) (high : round ≤ destructorRounds.toNat) :
    ∃ s₁ s₂ s₃, (exitHooks (answer (n + 1)) t true).takeValues s = (⟨.ofNat round,foreignAt rearms round⟩,s₁) ∧
      ((exitHooks (answer (n + 1)) t true).callOwn (.ofNat round)).Gives s₁ () s₂ ∧
      (if foreignAt rearms round ≠ 0 then (exitHooks (answer (n + 1)) t true).callForeign (foreignAt rearms round)
        else pure ()).Gives s₂ () s₃ ∧
      s₃.journal = s.journal ++ passNotes r.start (r.usable + r.guard) rearms round ∧
      (round < destructorRounds.toNat → s₃.Exiting t key r rearms (round + 1)) := by
  let s₁ : State κ := { s with host := s.host.setValues t .none }
  let s₁' : State κ := { s₁ with journal := s.journal ++ [.pass (.ofNat round)] }
  have ready : s₁'.Ready key := ⟨exiting.ready.runtime,exiting.ready.paged⟩
  obtain ⟨s₂,gives,ready,kernel,told,values,held⟩ :=
    destructor_gives (n := n) (.ofNat round) ready based exiting.frees exiting.held
  have bare : s₁'.host.values t = .none := replace_same ..
  have early := ofNat_lt_rounds high
  have next : UInt64.ofNat round + 1 = .ofNat (round + 1) := (UInt64.ofNat_add round 1).symm
  have later : round < destructorRounds.toNat → Frees s₂.kernel r ∧ (s₂.image.threads t).holding = some ⟨r,runtime⟩ ∧
      s₂.host.values t = ⟨.ofNat (round + 1),0⟩ := by
    intro more
    rw [kernel,values,held,bare,if_pos (early.mpr more),if_pos (early.mpr more),if_pos (early.mpr more),next]
    exact ⟨exiting.frees,rfl,rfl⟩
  have taken : (exitHooks (answer (n + 1)) t true).takeValues s = (⟨.ofNat round,foreignAt rearms round⟩,s₁) :=
    congrArg (·,s₁) exiting.values
  have own : ((exitHooks (answer (n + 1)) t true).callOwn (.ofNat round)).Gives s₁ () s₂ := .bind note_gives gives
  simp only [early,next] at told held
  have flag : (s₂.image.threads t).holding.isSome = decide (round < destructorRounds.toNat) := by
    rw [held]
    split <;> simp [*]
  have succ := foreignAt_succ fits low
  by_cases visited : foreignAt rearms round ≠ 0
  · rw [if_pos visited] at succ ⊢
    refine ⟨s₁,s₂,_,taken,own,callForeign_gives,?_,fun more =>
      ⟨⟨ready.runtime,ready.paged⟩,(later more).1,(later more).2.1,?_⟩⟩
    · rw [passNotes,if_pos ((foreignAt_ne fits low high).mp visited),told,flag]
      simp [s₁']
    · simp [StandIn.setValues,(later more).2.2,succ]
  · rw [if_neg visited] at succ ⊢
    refine ⟨s₁,s₂,s₂,taken,own,Acting.gives_pure,?_,fun more => ⟨ready,(later more).1,(later more).2.1,?_⟩⟩
    · rw [passNotes,if_neg fun due => visited ((foreignAt_ne fits low high).mpr due),told]
      simp [s₁']
    · rw [(later more).2.2,succ]

/-- All rounds from one on. -/
theorem State.exits (based : Based r) (fits : ∀ r, rearms = some r → r.toNat + 1 < UInt64.size) {rounds : Nat} :
    ∀ {s : State κ} {round : Nat}, 1 ≤ round → round + rounds = destructorRounds.toNat + 1 →
      (0 < rounds → s.Exiting t key r rearms round) →
      ∃ s', ((exitHooks (answer (n + 1)) t true).run rounds).Gives s () s' ∧
        s'.journal = s.journal ++ (List.range' round rounds).flatMap (passNotes r.start (r.usable + r.guard) rearms) := by
  induction rounds with
  | zero => exact fun _ _ _ => ⟨_,Acting.gives_pure,by simp⟩
  | succ rounds ih =>
    intro s round low count exiting
    obtain ⟨s₁,s₂,s₃,taken,own,foreign,told,next⟩ :=
      (exiting (Nat.succ_pos _)).round_gives (n := n) based fits low (by omega)
    obtain ⟨s',rest,later⟩ := ih (Nat.le_succ_of_le low) (by omega) fun more => next (by omega)
    have valued : UInt64.ofNat round ≠ 0 := by
      have same : (UInt64.ofNat round).toNat = round := UInt64.toNat_ofNat_of_lt' (by
        simp only [UInt64.reduceToNat,destructorRounds] at count
        simp only [UInt64.size]
        omega)
      intro zero
      rw [zero] at same
      simp at same
      omega
    refine ⟨s',ExitHooks.round_gives taken valued own foreign rest,?_⟩
    rw [later,told,List.range'_succ,List.flatMap_cons,List.append_assoc]

/-- The exit of a thread whose key was just set. -/
theorem exitThread_gives (ready : s.Ready key) (known : s.host.destructorKnown = true) (based : Based r)
    (frees : Frees s.kernel r) (held : (s.image.threads t).holding = some ⟨r,runtime⟩) (values : s.host.values t = ⟨armed,0⟩)
    (fits : ∀ r, s.host.foreignRearms = some r → r.toNat + 1 < UInt64.size) :
    ∃ s', (exitThread (answer (n + 1)) t).Gives s () s' ∧ s'.journal = s.journal ++
      (List.range' 1 destructorRounds.toNat).flatMap (passNotes r.start (r.usable + r.guard) s.host.foreignRearms) := by
  unfold exitThread
  cases rearms : s.host.foreignRearms with
  | none =>
    have exiting : s.Exiting t key r none 1 := ⟨ready,frees,held,values⟩
    obtain ⟨s',gives,told⟩ := State.exits (n := n) based (by simp) (Nat.le_refl 1) (Nat.add_comm ..) fun _ => exiting
    refine ⟨s',.bind Acting.gives_get ?_,told⟩
    rw [rearms]
    refine .bind Acting.gives_get ?_
    rw [known]
    exact gives
  | some value =>
    have small := fits value rearms
    let s₁ : State κ := { s with host := s.host.setValues t { s.host.values t with foreign := value + 1 } }
    have counted : foreignAt (some value) 1 = value + 1 := by
      rw [← UInt64.toNat_inj,toNat_foreignAt small (Nat.le_refl 1)]
      have sum : Checked.add value 1 = .ok (value + 1) := Checked.add_eq_ok_iff.mpr ⟨small,rfl⟩
      exact (Checked.toNat_of_add sum).symm
    have exiting : s₁.Exiting t key r (some value) 1 :=
      ⟨⟨ready.runtime,ready.paged⟩,frees,held,by rw [counted]; simp [s₁,StandIn.setValues,values,armed]⟩
    obtain ⟨s',gives,told⟩ := State.exits (n := n) based (by simpa using small) (Nat.le_refl 1) (Nat.add_comm ..)
      fun _ => exiting
    refine ⟨s',.bind Acting.gives_get ?_,told⟩
    rw [rearms]
    have fitting : Acting.checked (σ := State κ) (foreignValue value) = pure (value + 1) := by
      rw [foreignValue,Checked.add_eq_ok_iff.mpr ⟨small,rfl⟩]
      rfl
    dsimp only
    rw [fitting]
    refine .bind Acting.gives_pure (.bind onHost_gives (.bind Acting.gives_get ?_))
    rw [show s₁.host.destructorKnown = true from known]
    exact gives

/-- Where a runtime is ready to start a thread that runs to its end. -/
structure State.Fit (s : State κ) (key : CleanupKey) : Prop extends s.Ready key where
  known : s.host.destructorKnown = true
  code : s.host.spawnCode = 0
  new : s.host.values s.nextThread = .none
  rearms : ∀ r, s.host.foreignRearms = some r → r.toNat + 1 < UInt64.size

/-- The memory once a geometry is mapped at the address and its guard is protected. -/
def housed (k : κ) (a : StackAttributes) (addr : UInt64) : κ :=
  let mapped := (PageMemory.map k (a.size + a.guard) .readWrite).2
  if a.guard = 0 then mapped else (PageMemory.protect mapped addr a.guard .none).2

/-- The geometry passes the check, and the memory below the mapper maps it at the address, where a stack may start,
protects its guard and lets the whole mapping go again. -/
structure State.Houses (s : State κ) (a : StackAttributes) (addr : UInt64) : Prop where
  valid : a.validate (PageMemory.pageSize s.kernel) = .ok (.ok ())
  large : Handoff.size ≤ a.size
  fits : Checked.add a.size a.guard = .ok (a.size + a.guard)
  maps : (PageMemory.map s.kernel (a.size + a.guard) .readWrite).1 = .ok addr
  proper : (⟨runtime,addr,a.size + a.guard⟩ : Mapping).Proper
  even : 16 ∣ addr.toNat
  protects : a.guard ≠ 0 →
    (PageMemory.protect (PageMemory.map s.kernel (a.size + a.guard) .readWrite).2 addr a.guard .none).1 = 0
  frees : (PageMemory.unmap (housed s.kernel a addr) addr (a.size + a.guard)).1 = 0

variable {a : StackAttributes} {addr : UInt64}

theorem State.Houses.based (houses : s.Houses a addr) : Based (a.region addr) where
  sound := (houses.proper.region houses.fits
    (Checked.add_ne_zero houses.fits (.inl (StackAttributes.of_validate houses.valid).1))).1
  even := by
    rw [StackAttributes.start_region]
    exact houses.even

theorem State.Houses.aligned (ready : s.Ready key) (houses : s.Houses a addr) : (a.region addr).Aligned :=
  let site := State.site ready _ houses.proper houses.even
  site.aligned_region houses.valid houses.fits (show site.offers [] _ from rfl)

/-- The record has its place above the start of the mapping. -/
theorem State.Houses.present (houses : s.Houses a addr) : (a.region addr).top - Handoff.size ≠ 0 := by
  obtain ⟨place,below,sits⟩ := Handoff.sits_of_slot (h := ⟨⟨0⟩,0,a.region addr,runtime⟩) houses.based.sound houses.large
  obtain ⟨-,rfl⟩ := Checked.subtract_eq_ok_iff.mp below
  exact sits.addr_ne

/-- The journal of a mapping with its guard. -/
def mapNotes (a : StackAttributes) (addr : UInt64) : List Observation :=
  .map addr (a.size + a.guard) :: if a.guard = 0 then [] else [.protect addr a.guard .none]

variable {attr : Option AttributeRef} {entry : EntryPoint} {arg record : UInt64}

/-- Up to the primitive, a spawn makes the mapping and puts the record at its top. -/
theorem prepare_gives (t : ThreadId) (what : String) (entry : EntryPoint) (arg : UInt64) (ready : s.Ready key)
    (houses : s.Houses (s.host.attributes attr) addr) :
    ∃ s', (((Spawn.prepare runtime attr entry arg).orAbort what).run (answer (n + 1) t)).Gives s
        (((s.host.attributes attr).region addr).top - Handoff.size) s' ∧ s'.Ready key ∧ s'.host = s.host ∧
      s'.nextThread = s.nextThread ∧ s'.kernel = housed s.kernel (s.host.attributes attr) addr ∧
      s'.journal = s.journal ++ mapNotes (s.host.attributes attr) addr ∧
      s'.image.memory.load (((s.host.attributes attr).region addr).top - Handoff.size) Handoff.size.toNat =
        (Handoff.mk entry arg ((s.host.attributes attr).region addr) runtime).encode := by
  let m : Mapping := ⟨runtime,addr,(s.host.attributes attr).size + (s.host.attributes attr).guard⟩
  let site := State.site ready m houses.proper houses.even
  have asked : (site.asking attr).foldl PageMemory.carry s.kernel = s.kernel := by cases attr <;> rfl
  have maps : (PageMemory.map ((site.asking attr).foldl PageMemory.carry s.kernel) m.len .readWrite).1 = .ok addr := by
    rw [asked]
    exact houses.maps
  have honours : site.Honours (site.attributes attr) := ⟨houses.valid,houses.fits,houses.large⟩
  have leave : site.Leave (s.Grants m) attr (s.shift t).calls := by
    refine ⟨by cases attr <;> exact ⟨trivial,trivial,trivial⟩,⟨rfl,maps⟩,?_⟩
    intro start live same
    obtain rfl : start = addr := congrArg Mapping.addr same
    refine ⟨⟨rfl,maps⟩,?_⟩
    split
    · trivial
    next guarded =>
      refine ⟨?_,trivial⟩
      change (PageMemory.protect (((site.asking attr) ++ [_]).foldl PageMemory.carry s.kernel) _ _ _).1 = 0
      rw [List.foldl_append,asked]
      exact houses.protects guarded
  have follows := @Spawn.prepare_works site (s.Grants m) False (s.shift t) attr entry arg leave
    fun dishonours => absurd honours dishonours
  obtain ⟨record,s',x,gives,since,start,prepared⟩ := State.gives (n := n) (works_orAbort what follows)
  obtain rfl : start = addr := congrArg Mapping.addr prepared.offered
  obtain ⟨-,-,rfl,rfl⟩ := prepared
  refine ⟨s',gives,ready.since since,?_,since.nextThread,?_,?_,?_⟩
  · exact since.host.trans (s.host.setValues_self t)
  · rw [since.kernel]
    change (site.asking attr ++ site.mapping (s.host.attributes attr) start).foldl PageMemory.carry s.kernel = _
    rw [List.foldl_append,asked,Site.mapping,housed]
    split <;> rfl
  · have silent : (site.asking attr).filterMap Observation.ofExchange = [] := by cases attr <;> rfl
    rw [since.journal]
    change _ ++ (site.asking attr ++ site.mapping (s.host.attributes attr) start).filterMap Observation.ofExchange = _
    rw [List.filterMap_append,silent,List.nil_append,Site.mapping,mapNotes]
    split <;> rfl
  · rw [since.memory,← Handoff.length_encode ⟨entry,arg,(s.host.attributes attr).region start,runtime⟩]
    exact s.image.memory.load_store _ (by simp [UInt64.size,Handoff.size])

/-- A new thread takes its record's region for its stack and sets the key. -/
theorem firstFrame_gives (ready : s.Ready key) (based : Based r) (aligned : r.Aligned) (present : record ≠ 0)
    (written : s.image.memory.load record Handoff.size.toNat = (Handoff.mk entry arg r runtime).encode) :
    ∃ result s', ((Spawn.firstFrame record).run (answer (n + 1) t)).Gives s result s' ∧ s'.Ready key ∧
      s'.host = s.host.setValues t ⟨armed,(s.host.values t).foreign⟩ ∧ s'.kernel = s.kernel ∧
      s'.journal = s.journal ++ [.keySet armed] ∧
      (s'.image.threads t).holding = some ⟨r,runtime⟩ := by
  obtain ⟨result,s',x,gives,since,-,rfl⟩ := State.gives (n := n) (Spawn.firstFrame_works (x := s.shift t)
    (h := State.site ready (r.mapping runtime) based.proper based.even) present written aligned ⟨trivial,trivial,trivial⟩)
  refine ⟨result,s',gives,ready.since since,since.host,since.kernel,since.journal,?_⟩
  rw [since.threads,replace_same]
  rfl

/-- The journal of a thread after its spawn. -/
def lifeNotes (start len : UInt64) (rearms : Option UInt64) : List Observation :=
  .keySet armed :: (List.range' 1 destructorRounds.toNat).flatMap (passNotes start len rearms)

/-- The new thread runs to its end before its creator goes on. -/
theorem answerSpawn_gives (handle : UInt64) (attr : Option AttributeRef) (fit : s.Fit key) (based : Based r)
    (frees : Frees s.kernel r) (aligned : r.Aligned) (present : record ≠ 0)
    (written : s.image.memory.load record Handoff.size.toNat = (Handoff.mk entry arg r runtime).encode) :
    ∃ s', (answerSpawn (answer (n + 1)) ⟨handle,attr,.fromRecord,record⟩).Gives s 0 s' ∧
      s'.journal = s.journal ++ lifeNotes r.start (r.usable + r.guard) s.host.foreignRearms := by
  let s₁ : State κ := { s with
    nextThread := s.nextThread + 1
    handle := s.host.nextHandle
    host := { s.host with nextHandle := s.host.nextHandle + 1 } }
  have ready : s₁.Ready key := ⟨fit.runtime,fit.paged⟩
  obtain ⟨result,s₂,began,ready,host,kernel,told,held⟩ :=
    firstFrame_gives (t := s.nextThread) (n := n) ready based aligned present written
  have values : s₂.host.values s.nextThread = ⟨armed,0⟩ := by
    simp [host,s₁,StandIn.setValues,fit.new,KeyValues.none]
  obtain ⟨s₃,ended,rest⟩ := exitThread_gives (n := n) ready (by rw [host]; exact fit.known) based (kernel ▸ frees) held values (by
    rw [host]
    exact fit.rearms)
  refine ⟨s₃,?_,?_⟩
  · refine .bind Acting.gives_get ?_
    dsimp only
    rw [if_neg (not_not_intro fit.code)]
    refine .bind Acting.gives_get (.bind Acting.gives_modify (.bind onHost_gives
      (.bind (a := ()) (.tryCatch ?_) Acting.gives_pure)))
    exact .bind began ended
  · rw [rest,told,host]
    simp [lifeNotes,s₁,StandIn.setValues]

def Observation.isForeign : Observation → Bool
  | .foreign _ => true
  | _ => false

/-- The entries of one spawn, from the mapping to the unmapping. -/
structure Complete (a : StackAttributes) (addr : UInt64) (rearms : Option UInt64) (added : List Observation) : Prop where
  /-- A foreign entry follows the library's entries of its round. -/
  whole : added = mapNotes a addr ++ .keySet 1 :: (List.range' 1 destructorRounds.toNat).flatMap
    (passNotes addr (a.size + a.guard) rearms)
  own : added.filter (!·.isForeign) = mapNotes a addr ++ .keySet 1 ::
    ((List.range' 1 (destructorRounds.toNat - 1)).flatMap fun n => [.pass (.ofNat n),.keySet (.ofNat (n + 1))]) ++
      [.pass destructorRounds,.unmap addr (a.size + a.guard)]
  foreign : added.filter (·.isForeign) =
    (List.range' 1 (visits rearms)).map fun n => .foreign (n < destructorRounds.toNat)

theorem own_passNotes {start len : UInt64} {rearms : Option UInt64} {round : Nat} :
    (passNotes start len rearms round).filter (!·.isForeign) = [.pass (.ofNat round),
      if round < destructorRounds.toNat then .keySet (.ofNat (round + 1)) else .unmap start len] := by
  unfold passNotes
  split <;> split <;> rfl

theorem foreign_passNotes {start len : UInt64} {rearms : Option UInt64} {round : Nat} :
    (passNotes start len rearms round).filter (·.isForeign) =
      if round ≤ visits rearms then [.foreign (round < destructorRounds.toNat)] else [] := by
  unfold passNotes
  split <;> split <;> rfl

theorem visits_le (rearms : Option UInt64) : visits rearms ≤ destructorRounds.toNat := by
  cases rearms with
  | none => exact Nat.zero_le _
  | some _ => exact Nat.min_le_right ..

/-- The rounds up to the last visit are the first ones. -/
theorem flatMap_visits (count visited : Nat) (f : Nat → Observation) :
    (List.range' 1 count).flatMap (fun n => if n ≤ visited then [f n] else []) =
      (List.range' 1 (min visited count)).map f := by
  induction count with
  | zero => simp
  | succ count ih =>
    rw [List.range'_concat,List.flatMap_append,ih]
    by_cases due : 1 + count ≤ visited
    · rw [show min visited (count + 1) = min visited count + 1 by omega,List.range'_concat,List.map_append]
      simp [due,show min visited count = count by omega]
    · rw [show min visited (count + 1) = min visited count by omega]
      simp [due]

theorem complete_whole {rearms : Option UInt64} :
    Complete a addr rearms (mapNotes a addr ++ lifeNotes addr (a.size + a.guard) rearms) where
  whole := rfl
  own := by
    have opening : (mapNotes a addr).filter (!·.isForeign) = mapNotes a addr := by
      unfold mapNotes
      split <;> rfl
    rw [List.filter_append,opening,lifeNotes,List.filter_cons_of_pos rfl,List.filter_flatMap]
    simp only [own_passNotes]
    rw [List.append_assoc]
    rfl
  foreign := by
    have opening : (mapNotes a addr).filter (·.isForeign) = [] := by
      unfold mapNotes
      split <;> rfl
    rw [List.filter_append,opening,lifeNotes,List.filter_cons_of_neg (by simp [Observation.isForeign]),List.filter_flatMap]
    simp only [foreign_passNotes,List.nil_append]
    rw [flatMap_visits,Nat.min_eq_left (visits_le rearms)]

/-- A spawn of a ready runtime is journaled whole: the mapping and its guard, the key's first value, each round of the exit
with the foreign destructor after the library's, and the unmapping in the last round. -/
theorem intercept_journal (t : ThreadId) (handle : UInt64) (entry : EntryPoint) (arg : UInt64) (fit : s.Fit key)
    (houses : s.Houses (s.host.attributes attr) addr) :
    ∃ s' added, (perform t (Spawn.intercept runtime handle attr entry arg)).run s = (.ok 0,s') ∧
      s'.journal = s.journal ++ added ∧ Complete (s.host.attributes attr) addr s.host.foreignRearms added := by
  obtain ⟨s₁,prepared,ready,host,thread,kernel,told,written⟩ := prepare_gives (n := 3) t
    Diagnostics.Duty.preparing.text entry arg fit.toReady houses
  have fit₁ : s₁.Fit key := ⟨ready,host ▸ fit.known,host ▸ fit.code,by rw [host,thread]; exact fit.new,host ▸ fit.rearms⟩
  have frees : Frees s₁.kernel ((s.host.attributes attr).region addr) := by
    rw [Frees,kernel,StackAttributes.start_region]
    exact houses.frees
  -- The new thread lives its whole life while the primitive is answered.
  obtain ⟨s₂,spawned,rest⟩ := answerSpawn_gives (n := 2) handle attr fit₁ houses.based frees
    (houses.aligned fit.toReady) houses.present written
  refine ⟨s₂,_,?_,?_,complete_whole⟩
  · have phase : ((Runtime.phase runtime).run (answer 4 t)).Gives s (s.image.runtimes runtime).phase s := rfl
    refine Program.bind_gives phase ?_
    rw [fit.runtime,if_pos rfl]
    refine Program.bind_gives prepared (Program.bind_gives (a := (0 : Int32)) (.bind spawned Acting.gives_pure) ?_)
    exact Acting.gives_pure
  · rw [rest,told,host,StackAttributes.start_region,List.append_assoc]
    rfl

end

/-- What the kernel has mapped begins with a page and can be unmapped. -/
theorem Kernel.houses {s : State} {a : StackAttributes} {addr : UInt64}
    (valid : a.validate s.kernel.pageSize = .ok (.ok ())) (large : Handoff.size ≤ a.size)
    (fits : Checked.add a.size a.guard = .ok (a.size + a.guard))
    (maps : (s.kernel.map (a.size + a.guard) .readWrite).1 = .ok addr)
    (proper : (⟨runtime,addr,a.size + a.guard⟩ : Mapping).Proper)
    (protects : a.guard ≠ 0 → ((s.kernel.map (a.size + a.guard) .readWrite).2.protect addr a.guard .none).1 = 0) :
    s.Houses a addr := by
  have whole : Kernel.pageBytes ∣ addr.toNat := by
    obtain ⟨-,rfl,-⟩ := Kernel.map_eq (Prod.ext maps rfl)
    have pages : Kernel.pageBytes ∣ UInt64.size := by decide
    rw [UInt64.toNat_ofNat']
    exact (Nat.dvd_mod_iff pages).mpr (Nat.dvd_mul_left ..)
  have aligned : Kernel.aligned addr = true := decide_eq_true (Nat.mod_eq_zero_of_dvd whole)
  have present : a.size + a.guard ≠ 0 := Checked.add_ne_zero fits (.inl (StackAttributes.of_validate valid).1)
  refine ⟨valid,large,fits,maps,proper,Nat.dvd_trans (by decide) whole,protects,?_⟩
  change (Kernel.unmap _ addr (a.size + a.guard)).1 = 0
  simp [Kernel.unmap,aligned,present]

/-- A fresh process whose runtime has come to be ready, with a foreign key that sets its value again once. -/
def opening : State := { State.fresh ((Image.fresh none .working).setRuntime runtime ⟨.ready,some ⟨7⟩⟩) with
  host := { StandIn.fresh with destructorKnown := true, foreignRearms := some 1 } }

theorem intercept_journal_twice_foreign : opening.Fit ⟨7⟩ ∧
    opening.Houses (opening.host.attributes (some ⟨0x7ffd1000⟩)) 0x10000000 ∧
      ∃ s', (perform 0 (Spawn.intercept runtime 0x7ffd2000 (some ⟨0x7ffd1000⟩) ⟨0x401000⟩ 5)).run opening = (.ok 0,s') ∧
        s'.journal = [.map 0x10000000 0x101000,.protect 0x10000000 0x1000 .none,.keySet 1,
          .pass 1,.keySet 2,.foreign true,.pass 2,.keySet 3,.foreign true,.pass 3,.keySet 4,
          .pass 4,.unmap 0x10000000 0x101000] := by
  have fit : opening.Fit ⟨7⟩ := by
    refine ⟨⟨rfl,⟨12,rfl⟩,by decide⟩,rfl,rfl,rfl,?_⟩
    rintro r ⟨⟩
    decide
  have mapped : Kernel.fresh.map (0x100000 + 0x1000) .readWrite =
      (.ok 0x10000000,(Kernel.fresh.map (0x100000 + 0x1000) .readWrite).2) := by rfl
  have houses : opening.Houses (opening.host.attributes (some ⟨0x7ffd1000⟩)) 0x10000000 := by
    refine Kernel.houses (by decide) (by decide) (by decide) (congrArg Prod.fst mapped) ⟨by decide,by decide⟩ fun _ => ?_
    exact GuardedStack.Kernel.protects Kernel.fresh_tidy (by decide +kernel) (by decide) mapped
  refine ⟨fit,houses,?_⟩
  obtain ⟨s',added,ran,told,complete⟩ := intercept_journal 0 0x7ffd2000 ⟨0x401000⟩ 5 fit houses
  refine ⟨s',ran,?_⟩
  rw [told,complete.whole]
  decide

end Rehearsal
end GuardedStack
