import GuardedStack.Proofs.FailedStart
import GuardedStack.Proofs.Trial
import GuardedStack.Proofs.Turns
import GuardedStack.Rehearsal
import Mathlib.Data.List.Sigma

/-! Initialization attempts made one after the other. Each one that fails blames its own first failure, and leaves so little
behind that the next attempt goes as a first one would. -/
namespace GuardedStack

open Program Attempt Startup

/-- The fault that a call is answered with. -/
def Exchange.fault? : Exchange → Option Fault
  | ⟨.mapper _ (.map _ _),.error cause⟩ => some cause
  | ⟨.mapper _ (.protect _ _ _),.error cause⟩ => some cause
  | ⟨.mapper _ (.unmap _ _),.error cause⟩ => some cause
  | ⟨.host _ .defaultAttributes,.error cause⟩ => some cause
  | ⟨.host _ (.requestedAttributes _),.error cause⟩ => some cause
  | ⟨.host _ .installInterception,.error cause⟩ => some cause
  | ⟨.host _ .createCleanupKey,.error cause⟩ => some cause
  | ⟨.host _ (.setCleanupValue _ _),.error cause⟩ => some cause
  | _ => none

/-- The call with addresses counted from `start`. -/
def Exchange.from (start : UInt64) : Exchange → Exchange
  | ⟨.mapper rt (.map len rights),.ok addr⟩ => ⟨.mapper rt (.map len rights),.ok (addr - start)⟩
  | ⟨.mapper rt (.protect addr len rights),reply⟩ => ⟨.mapper rt (.protect (addr - start) len rights),reply⟩
  | ⟨.mapper rt (.unmap addr len),reply⟩ => ⟨.mapper rt (.unmap (addr - start) len),reply⟩
  | e => e

/-- The world, with the calls so far. -/
structure Scene where
  world : World
  seams : List Exchange

/-- A request of the thread is answered. Unmap calls work. -/
def Scene.Answers (t : ThreadId) (x : Scene) (q : Request) (reply : q.Reply) (y : Scene) : Prop :=
  x.world.Answers t q reply y.world ∧ y.seams = x.seams ++ q.crossing reply ∧
    ∀ rt addr len cause, (⟨q,reply⟩ : Exchange) ≠ ⟨.mapper rt (.unmap addr len),.error cause⟩

/-- The thread goes on, and nothing else does. -/
def alone (t : ThreadId) : Discipline Scene where
  may _ _ := True
  next := Scene.Answers t
  ends _ := False

/-- An attempt: its calls, what came of it, and the world after it. -/
structure Attempted where
  seams : List Exchange
  result : Except Fault Region
  after : World

/-- All calls of an attempt are made, and none is answered with a fault. -/
def Attempted.Complete (a : Attempted) : Prop :=
  (∀ e ∈ a.seams, e.fault? = none) ∧ ∃ rt reply, ⟨.host rt .createCleanupKey,reply⟩ ∈ a.seams

/-- Attempts of a thread, one after the other. -/
inductive Tries (rt : RuntimeId) (t : ThreadId) : World → List Attempted → Prop
  | nil {w} : Tries rt t w []
  | cons {w a more} : (attempt rt).run.Yields (Scene.Answers t) ⟨w,[]⟩ a.result ⟨a.after,a.seams⟩ →
      Tries rt t a.after more → Tries rt t w (a :: more)

/-- The runtime is fresh, and the thread has no stack. -/
structure Unused (rt : RuntimeId) (t : ThreadId) (w : World) : Prop where
  runtime : w.image.runtimes rt = .fresh
  bare : (w.image.threads t).holding = none
  live : ∀ m ∈ w.live, m.runtime ≠ rt

/-- What is there after an attempt that succeeds. -/
structure Opened (rt : RuntimeId) (t : ThreadId) (limit : Option UInt64) (page start : UInt64) (key : CleanupKey)
    (a : Attempted) (w : World) : Prop where
  result : a.result = .ok (mainRegion limit page start)
  seams : a.seams = succeeding rt limit page start key
  aligned : (mainRegion limit page start).Aligned
  stack : a.after.image.threads t = ⟨(mainRegion limit page start).top,some ⟨mainRegion limit page start,rt⟩⟩
  runtimes : a.after.image.runtimes = replace w.image.runtimes rt ⟨.ready,some key⟩
  live : a.after.live = ⟨rt,start,stackSize limit + page⟩ :: w.live

/-- What is there after one that fails. -/
structure Failed (rt : RuntimeId) (t : ThreadId) (cause : Fault) (a : Attempted) (w : World) : Prop where
  result : a.result = .error cause
  fails : Fails rt a.seams cause
  bare : (a.after.image.threads t).holding = none
  runtimes : a.after.image.runtimes = w.image.runtimes
  live : a.after.live = w.live

/-- The world after the attempts. -/
def World.past (w : World) (tries : List Attempted) : World := tries.foldl (fun _ a => a.after) w

/-- Whatever is asked both times is answered alike, but for where a mapping is made. -/
def Agree (seams seams' : List Exchange) : Prop :=
  ∀ (q : Request) (reply reply' : q.Reply), ⟨q,reply⟩ ∈ seams → ⟨q,reply'⟩ ∈ seams' →
    (∀ rt len rights, q ≠ .mapper rt (.map len rights)) → reply = reply'

/-- Two attempts have succeeded in the same way, each with a mapping of its own. -/
structure Alike (rt : RuntimeId) (t t' : ThreadId) (w w' : World) (a a' : Attempted) (r r' : Region) : Prop where
  results : a.result = .ok r ∧ a'.result = .ok r'
  sizes : r.usable = r'.usable ∧ r.guard = r'.guard
  calls : a.seams.map (·.from r.start) = a'.seams.map (·.from r'.start)
  runtime : a.after.image.runtimes rt = a'.after.image.runtimes rt
  slot : (a.after.image.threads t).pointer - r.start = (a'.after.image.threads t').pointer - r'.start
  holdings : (a.after.image.threads t).holding = some ⟨r,rt⟩ ∧ (a'.after.image.threads t').holding = some ⟨r',rt⟩
  live : a.after.live = r.mapping rt :: w.live ∧ a'.after.live = r'.mapping rt :: w'.live

/-- A check of the attempt itself fails, after these calls. -/
inductive Refused (rt : RuntimeId) : List Exchange → Fault → Prop
  | overflow {limit page} : UInt64.size ≤ (stackSize limit).toNat + page.toNat →
      Refused rt (asking rt limit page) (.sizeOverflow (stackSize limit) page)
  | misaligned {limit page start} : ¬(mainRegion limit page start).Aligned →
      Refused rt (asking rt limit page ++ Region.making rt start (stackSize limit) page ++
        [⟨.mapper rt (.unmap start (stackSize limit + page)),.ok ()⟩]) (.misalignedStackPointer (mainRegion limit page start).top)

/-- The fault is the one that the first call to fail was answered with; where no call failed, a check did. -/
def Blames (rt : RuntimeId) (seams : List Exchange) (cause : Fault) : Prop :=
  seams.findSome? Exchange.fault? = some cause ∨ seams.findSome? Exchange.fault? = none ∧ Refused rt seams cause

/-- The host of the calls is the stand-in, and the mapper calls work. -/
def Heard (nested : Rehearsal.Answers) (t : ThreadId) : Rehearsal.State → List Exchange → Prop
  | _, [] => True
  | s, ⟨.host _ call,reply⟩ :: more =>
    ∃ s', (Rehearsal.answerHost nested t call).run.run s = (.ok reply,s') ∧ Heard nested t s' more
  | s, e :: more => e.fault? = none ∧ Heard nested t s more

/-- With the numbers of these calls no check of an attempt fails. -/
structure Even (limit : Option UInt64) (seams : List Exchange) : Prop where
  size : 16 ∣ (stackSize limit).toNat
  page : ∀ rt page, ⟨.mapper rt .pageSize,page⟩ ∈ seams → PageSize page ∧ (stackSize limit).toNat + page.toNat < UInt64.size
  start : ∀ rt len rights start, ⟨.mapper rt (.map len rights),.ok start⟩ ∈ seams → 16 ∣ start.toNat

variable {x y : Scene} {w w' : World} {t t' : ThreadId} {rt : RuntimeId}

/-- The trial of the thread's operation follows what happens to the world. -/
theorem Scene.Answers.trial {q : Request} {reply : q.Reply} (answers : x.Answers t q reply y) (asked : Bool) :
    ∃ asked', trying.next ⟨x.world.account t asked,x.seams⟩ q reply ⟨y.world.account t asked',y.seams⟩ := by
  obtain ⟨answers,seams,works⟩ := answers
  have works : (Event.answered 0 t q reply).unmapFails = false := by
    unfold Event.unmapFails
    split
    next same =>
      cases same
      exact absurd rfl (works _ _ _ _)
    · rfl
  obtain ⟨expects,after⟩ := answers.account asked works
  refine ⟨_,?_,by rw [Trial.after,Trial.tell,seams,after]⟩
  unfold Trial.Expects
  split
  next rt expected desired won =>
    obtain ⟨rfl,-⟩ := answers
    simp only [Image.answer,World.account]
    split <;> simp [*]
  · exact expects

theorem follows_alone {p : Program α} {post : Trial → α → Prop} {asked : Bool}
    (follows : p.Follows trying post ⟨x.world.account t asked,x.seams⟩) :
    p.Follows (alone t) (fun y a => ∃ asked, post ⟨y.world.account t asked,y.seams⟩ a) x := by
  let R (x : Scene) (y : Trial) : Prop := ∃ asked, y = ⟨x.world.account t asked,x.seams⟩
  have related : R x ⟨x.world.account t asked,x.seams⟩ := ⟨asked,rfl⟩
  refine (follows.simulate (e := alone t) related (fun _ never => never) (fun _ _ _ _ _ => trivial) ?_).mono ?_
  · rintro _ x q reply y ⟨asked,rfl⟩ - answers
    obtain ⟨asked',step⟩ := answers.trial asked
    exact ⟨_,step,asked',rfl⟩
  · rintro y a ⟨_,⟨asked,rfl⟩,holds⟩
    exact ⟨asked,holds⟩

theorem Unused.attempt_alone (unused : Unused rt t w) :
    (attempt rt).Follows (alone t)
      (fun y r => ∃ limit page start key, Opened rt t limit page start key ⟨y.seams,.ok r,y.world⟩ w)
      (fun y cause => Failed rt t cause ⟨y.seams,.error cause,y.world⟩ w) ⟨w,[]⟩ := by
  have idle : (Trial.mk (w.account t false) []).account.stack.holding = none := unused.bare
  refine (follows_alone (x := ⟨w,[]⟩) (attempt_trial idle unused.runtime)).mono ?_
  rintro ⟨world,seams⟩ (cause | r) ⟨asked,ends⟩
  · obtain ⟨said,stack,asked',fails,bare,same⟩ := ends
    simp only [World.account,Trial.tell,Trial.mk.injEq,Account.mk.injEq,List.nil_append] at same
    obtain ⟨⟨stack,runtimes,live,-⟩,rfl⟩ := same
    exact ⟨rfl,fails,stack ▸ bare,runtimes,live⟩
  · obtain ⟨limit,page,start,key,rfl,aligned,same⟩ := ends
    simp only [World.account,Trial.tell,opened,Trial.mk.injEq,Account.mk.injEq,List.nil_append,mainRegion_mapping] at same
    obtain ⟨⟨stack,runtimes,live,-⟩,rfl⟩ := same
    exact ⟨limit,page,start,key,rfl,rfl,aligned,stack,runtimes,live⟩

/-- An attempt of that kind ends with a region or with a fault of its own. -/
theorem Unused.outcome {a : Attempted} (unused : Unused rt t w)
    (yields : (attempt rt).run.Yields (Scene.Answers t) ⟨w,[]⟩ a.result ⟨a.after,a.seams⟩) :
    (∃ limit page start key, Opened rt t limit page start key a w) ∨ ∃ cause, Failed rt t cause a w := by
  obtain ⟨seams,result,after⟩ := a
  cases result with
  | ok r =>
    have opened := Yields.value (d := alone t) yields unused.attempt_alone
    exact .inl opened
  | error cause =>
    have failed := Yields.cause (d := alone t) yields unused.attempt_alone
    exact .inr ⟨cause,failed⟩

theorem Startup.Fails.blames {seams : List Exchange} {cause : Fault} (fails : Fails rt seams cause) : Blames rt seams cause := by
  cases fails with
  | @unmade limit page said cause why =>
    cases why with
    | overflow beyond =>
      have large : UInt64.size ≤ (stackSize limit).toNat + page.toNat := by
        by_contra small
        rw [Checked.add_eq_ok_iff.mpr ⟨Nat.lt_of_not_le small,rfl⟩] at beyond
        cases beyond
      rw [List.append_nil]
      exact .inr ⟨rfl,.overflow large⟩
    | map sum => exact .inl rfl
    | protect start sum => exact .inl rfl
  | @unattached limit page start said cause why =>
    cases why with
    | misaligned off =>
      rw [List.append_nil]
      exact .inr ⟨rfl,.misaligned off⟩
    | intercept aligned => exact .inl rfl
    | key aligned => exact .inl rfl

theorem Failed.unused {cause : Fault} {a : Attempted} (failed : Failed rt t cause a w) (unused : Unused rt t w) :
    Unused rt t a.after where
  runtime := by rw [failed.runtimes,unused.runtime]
  bare := failed.bare
  live := failed.live ▸ unused.live

/-- An attempt of which all calls are made and work succeeds. -/
theorem Failed.not_complete {cause : Fault} {a : Attempted} (failed : Failed rt t cause a w) : ¬a.Complete := by
  rintro ⟨work,rt',reply,made⟩
  have calm : a.seams.findSome? Exchange.fault? = none := List.findSome?_eq_none_iff.mpr work
  rcases failed.fails.blames with blamed | ⟨-,refused⟩
  · rw [calm] at blamed
    cases blamed
  · generalize a.seams = seams at made refused
    cases refused <;> simp [asking,Region.making] at made

theorem Unused.complete {a : Attempted} (unused : Unused rt t w) (complete : a.Complete)
    (yields : (attempt rt).run.Yields (Scene.Answers t) ⟨w,[]⟩ a.result ⟨a.after,a.seams⟩) :
    ∃ limit page start key, Opened rt t limit page start key a w := by
  rcases unused.outcome yields with opened | ⟨cause,failed⟩
  · exact opened
  · exact absurd complete failed.not_complete

/-- Where both times the surroundings agree, what was opened differs by the mapping only. -/
theorem Opened.alike {limit limit' : Option UInt64} {page page' start start' : UInt64} {key key' : CleanupKey} {a a' : Attempted}
    (opened : Opened rt t limit page start key a w) (opened' : Opened rt t' limit' page' start' key' a' w')
    (agree : Agree a.seams a'.seams) :
    Alike rt t t' w w' a a' (mainRegion limit page start) (mainRegion limit' page' start') := by
  rw [opened.seams,opened'.seams] at agree
  obtain rfl : limit = limit' := by
    apply agree (.host rt .stackLimit) <;> simp [succeeding,asking]
  obtain rfl : page = page' := by
    apply agree (.mapper rt .pageSize) <;> simp [succeeding,asking]
  obtain rfl : key = key' := by
    have same : (Except.ok key : Except Fault CleanupKey) = .ok key' := by
      apply agree (.host rt .createCleanupKey) <;> simp [succeeding,attaching]
    injection same
  constructor
  · exact ⟨opened.result,opened'.result⟩
  · exact ⟨rfl,rfl⟩
  · rw [opened.seams,opened'.seams,mainRegion_start,mainRegion_start]
    simp [succeeding,asking,Region.making,attaching,Exchange.from]
  · rw [opened.runtimes,opened'.runtimes,replace_same,replace_same]
  · rw [opened.stack,opened'.stack,mainRegion_start,mainRegion_start]
    have offset (start : UInt64) : (mainRegion limit page start).top - start = page + stackSize limit := by
      rw [Region.top,mainRegion,UInt64.add_assoc,UInt64.add_comm start,UInt64.add_sub_cancel]
    rw [offset,offset]
  · exact ⟨by rw [opened.stack],by rw [opened'.stack]⟩
  · rw [mainRegion_mapping,mainRegion_mapping]
    exact ⟨opened.live,opened'.live⟩

/-- Attempts that all fail leave everything for the next one as it was for the first. -/
theorem Tries.failed {fails more : List Attempted} (attempts : Tries rt t w (fails ++ more)) (unused : Unused rt t w)
    (failing : ∀ a ∈ fails, ∃ cause, a.result = .error cause) :
    (∀ a ∈ fails, a.after.live = w.live ∧ ∃ cause, a.result = .error cause ∧ Fails rt a.seams cause) ∧
      Unused rt t (w.past fails) ∧ ((w.past fails).live = w.live ∧ (w.past fails).image.runtimes = w.image.runtimes) ∧
      Tries rt t (w.past fails) more := by
  induction fails generalizing w with
  | nil => exact ⟨by simp,unused,⟨rfl,rfl⟩,attempts⟩
  | cons a fails ih =>
    cases attempts with
    | cons yields rest =>
      obtain ⟨here,later⟩ := List.forall_mem_cons.mp failing
      obtain ⟨cause,failed⟩ : ∃ cause, Failed rt t cause a w := by
        rcases unused.outcome yields with ⟨_,_,_,_,opened⟩ | failed
        · obtain ⟨cause,result⟩ := here
          rw [opened.result] at result
          cases result
        · exact failed
      obtain ⟨each,unused',⟨live,runtimes⟩,rest⟩ := ih rest (failed.unused unused) later
      refine ⟨?_,unused',⟨live.trans failed.live,runtimes.trans failed.runtimes⟩,rest⟩
      intro b member
      rcases List.mem_cons.mp member with rfl | member
      · exact ⟨failed.live,cause,failed.result,failed.fails⟩
      · obtain ⟨live,why⟩ := each b member
        exact ⟨live.trans failed.live,why⟩

theorem Even.mono {limit : Option UInt64} {seams more : List Exchange} (even : Even limit more)
    (within : ∀ e ∈ seams, e ∈ more) : Even limit seams where
  size := even.size
  page rt page asked := even.page rt page (within _ asked)
  start rt len rights start asked := even.start rt len rights start (within _ asked)

theorem mainRegion_aligned {limit : Option UInt64} {page start : UInt64} (paged : PageSize page)
    (size : 16 ∣ (stackSize limit).toNat) (place : 16 ∣ start.toNat) : (mainRegion limit page start).Aligned := by
  have place : 16 ∣ (mainRegion limit page start).start.toNat := by rwa [mainRegion_start]
  exact (Region.aligned_iff_usable place paged.dvd).mpr size

section
variable {nested : Rehearsal.Answers} {s : Rehearsal.State} {seams more : List Exchange}

theorem heard_mapper {call : MapperCall} {reply : call.Reply} : Heard nested t s (⟨.mapper rt call,reply⟩ :: more) ↔
    Exchange.fault? ⟨.mapper rt call,reply⟩ = none ∧ Heard nested t s more := Iff.rfl

theorem heard_asking {limit : Option UInt64} {page : UInt64} :
    Heard nested t s (asking rt limit page ++ more) ↔ limit = s.host.limit ∧ Heard nested t s more := by
  constructor
  · rintro ⟨s',answered,-,heard⟩
    cases answered
    exact ⟨rfl,heard⟩
  · rintro ⟨rfl,heard⟩
    exact ⟨s,rfl,rfl,heard⟩

theorem heard_making {start size guard : UInt64} :
    Heard nested t s (Region.making rt start size guard ++ more) ↔ Heard nested t s more := by
  simp [Region.making,heard_mapper,Exchange.fault?]

theorem heard_install {reply : Except Fault Unit} : Heard nested t s (⟨.host rt .installInterception,reply⟩ :: more) ↔
    reply = .ok () ∧ Heard nested t s more := by
  constructor
  · rintro ⟨s',answered,heard⟩
    cases answered
    exact ⟨rfl,heard⟩
  · rintro ⟨rfl,heard⟩
    exact ⟨s,rfl,heard⟩

theorem heard_createKey {reply : Except Fault CleanupKey} :
    Heard nested t s (⟨.host rt .createCleanupKey,reply⟩ :: more) ↔
      reply = s.host.createKey.1 ∧ Heard nested t { s with host := s.host.createKey.2 } more := by
  constructor
  · rintro ⟨s',answered,heard⟩
    cases answered
    exact ⟨rfl,heard⟩
  · rintro ⟨rfl,heard⟩
    exact ⟨_,rfl,heard⟩

/-- With the stand-in for a host, only the making of the key can fail. -/
theorem Heard.fails {cause : Fault} (heard : Heard nested t s (seams ++ more)) (fails : Fails rt seams cause)
    (even : Even s.host.limit seams) :
    s.host.keyFailures ≠ 0 ∧ cause = .keyCreateFailed 11 ∧ Heard nested t { s with host := s.host.createKey.2 } more := by
  cases fails with
  | @unmade limit page said cause why =>
    rw [List.append_assoc,heard_asking] at heard
    obtain ⟨rfl,heard⟩ := heard
    cases why with
    | overflow beyond =>
      have small := (even.page rt page (by simp [asking])).2
      rw [Checked.add_eq_ok_iff.mpr ⟨small,rfl⟩] at beyond
      cases beyond
    | map sum => cases heard.1
    | protect start sum => cases heard.2.1
  | @unattached limit page start said cause why =>
    simp only [List.append_assoc,heard_asking,heard_making] at heard
    obtain ⟨rfl,heard⟩ := heard
    cases why with
    | misaligned off =>
      have paged := (even.page rt page (by simp [asking])).1
      have place : 16 ∣ start.toNat := by
        apply even.start rt (stackSize s.host.limit + page) .readWrite
        simp [Region.making]
      exact absurd (mainRegion_aligned paged even.size place) off
    | intercept aligned =>
      have replied := (heard_install.mp heard).1
      cases replied
    | key aligned =>
      obtain ⟨replied,told⟩ := heard_createKey.mp (heard_install.mp heard).2
      have told : Heard nested t _ more := (heard_mapper.mp told).2
      by_cases failing : s.host.keyFailures = 0
      · simp [Rehearsal.StandIn.createKey,failing] at replied
      · have same : (Except.error cause : Except Fault CleanupKey) = .error (.keyCreateFailed 11) := by
          simpa [Rehearsal.StandIn.createKey,failing] using replied
        injection same with same
        exact ⟨failing,same,told⟩

theorem Heard.succeeds {limit : Option UInt64} {page start : UInt64} {key : CleanupKey}
    (heard : Heard nested t s (succeeding rt limit page start key ++ more)) : s.host.keyFailures = 0 := by
  simp only [succeeding,List.append_assoc,heard_asking,heard_making] at heard
  have replied := (heard_createKey.mp (heard_install.mp heard.2).2).1
  by_contra failing
  simp [Rehearsal.StandIn.createKey,failing] at replied

/-- A stand-in that fails a number of times to make the key fails so many attempts, and then one succeeds. -/
theorem Tries.heard {tries : List Attempted} (attempts : Tries rt t w tries) (unused : Unused rt t w)
    (heard : Heard nested t s (tries.flatMap (·.seams))) (even : Even s.host.limit (tries.flatMap (·.seams)))
    (count : tries.length = s.host.keyFailures.toNat + 1) :
    ∃ r, tries.map (·.result) = List.replicate s.host.keyFailures.toNat (.error (.keyCreateFailed 11)) ++ [.ok r] := by
  induction attempts generalizing s with
  | nil => cases count
  | @cons w a more yields attempts ih =>
    rw [List.flatMap_cons] at heard even
    rcases unused.outcome yields with ⟨limit,page,start,key,opened⟩ | ⟨cause,failed⟩
    · rw [opened.seams] at heard
      have last : s.host.keyFailures = 0 := heard.succeeds
      obtain rfl : more = [] := by simpa [last] using count
      exact ⟨mainRegion limit page start,by simp [last,opened.result]⟩
    · obtain ⟨failing,rfl,rest⟩ := heard.fails failed.fails (even.mono fun e made => List.mem_append_left _ made)
      have fewer : s.host.createKey.2 = { s.host with keyFailures := s.host.keyFailures - 1 } := by
        rw [Rehearsal.StandIn.createKey,if_neg failing]
      have some_ : 0 < s.host.keyFailures.toNat := Nat.pos_of_ne_zero fun zero => failing (UInt64.toNat_inj.mp zero)
      have left : (s.host.keyFailures - 1).toNat = s.host.keyFailures.toNat - 1 :=
        UInt64.toNat_sub_of_le _ _ (UInt64.le_iff_toNat_le.mpr some_)
      rw [fewer] at rest
      obtain ⟨r,results⟩ := ih (failed.unused unused) rest (even.mono fun e made => List.mem_append_right _ made)
        (by simp only [List.length_cons] at count; rw [left]; omega)
      refine ⟨r,?_⟩
      rw [List.map_cons,results,failed.result,left,← List.cons_append,← List.replicate_succ,Nat.sub_add_cancel some_]

end

/-- How attempts that fail and one that follows them are related. -/
structure Retry (rt : RuntimeId) (t : ThreadId) (w : World) (fails : List Attempted) (last : Attempted) : Prop where
  blamed : ∀ a ∈ fails, ∃ cause, a.result = .error cause ∧ Fails rt a.seams cause ∧ Blames rt a.seams cause
  /-- Only if a call was answered with them does an attempt give these faults. -/
  never : ∀ a ∈ fails, ∀ cause, a.result = .error cause →
    cause = .alreadyInitialized ∨ (∃ addr len errno, cause = .unmapFailed addr len errno) →
      a.seams.findSome? Exchange.fault? = some cause
  empty : ∀ a ∈ fails, (∀ m ∈ a.after.live, m.runtime ≠ rt) ∧ a.after.live = w.live
  restored : (w.past fails).live = w.live ∧ (w.past fails).image.runtimes = w.image.runtimes
  /-- Whatever replies it gets, the last attempt gives a region or a fault. -/
  ends : (attempt rt).Follows (alone t) (fun _ _ => True) (fun _ _ => True) ⟨w.past fails,[]⟩
  opens : last.Complete → ∃ limit page start key, Opened rt t limit page start key last (w.past fails)
  alike : ∀ {w' t' first}, Unused rt t' w' → Tries rt t' w' [first] → first.Complete → last.Complete →
    Agree last.seams first.seams → ∃ r r', Alike rt t t' (w.past fails) w' last first r r'
  counted : ∀ {nested s tries}, Tries rt t w tries → Heard nested t s (tries.flatMap (·.seams)) →
    Even s.host.limit (tries.flatMap (·.seams)) → tries.length = s.host.keyFailures.toNat + 1 →
      ∃ r, tries.map (·.result) = List.replicate s.host.keyFailures.toNat (.error (.keyCreateFailed 11)) ++ [.ok r]

/-- However many attempts have failed, each one gives the fault of its own first call or check that failed, with nothing left
mapped, and the attempt after them goes like a first one. -/
theorem Tries.retry {fails : List Attempted} {last : Attempted} (unused : Unused rt t w)
    (attempts : Tries rt t w (fails ++ [last])) (failing : ∀ a ∈ fails, ∃ cause, a.result = .error cause) :
    Retry rt t w fails last := by
  obtain ⟨each,unused',restored,rest⟩ := attempts.failed unused failing
  have yields : (attempt rt).run.Yields (Scene.Answers t) ⟨w.past fails,[]⟩ last.result ⟨last.after,last.seams⟩ := by
    cases rest with
    | cons yields _ => exact yields
  constructor
  · intro a member
    obtain ⟨-,cause,result,why⟩ := each a member
    exact ⟨cause,result,why,why.blames⟩
  · intro a member cause result odd
    obtain ⟨-,cause',result',why⟩ := each a member
    obtain rfl : cause' = cause := by
      rw [result] at result'
      injection result' with same
      exact same.symm
    rcases why.blames with blamed | ⟨-,refused⟩
    · exact blamed
    · generalize a.seams = seams at refused
      cases refused <;> simp at odd
  · intro a member
    have live := (each a member).1
    exact ⟨live ▸ unused.live,live⟩
  · exact restored
  · exact unused'.attempt_alone.mono (fun _ _ _ => trivial) fun _ _ _ => trivial
  · exact fun complete => unused'.complete complete yields
  · intro w' t' first fresh attempts complete complete' agree
    have yields' : (attempt rt).run.Yields (Scene.Answers t') ⟨w',[]⟩ first.result ⟨first.after,first.seams⟩ := by
      cases attempts with
      | cons yields _ => exact yields
    obtain ⟨limit,page,start,key,opened⟩ := unused'.complete complete' yields
    obtain ⟨limit',page',start',key',opened'⟩ := fresh.complete complete yields'
    exact ⟨_,_,opened.alike opened' agree⟩
  · exact fun attempts heard even count => attempts.heard unused heard even count

/-- Runs a program of the thread alone. -/
def World.carry (refuses : Request → Bool) (t : ThreadId) : Program α → Scene → Option (α × Scene)
  | .done a, x => some (a,x)
  | .stop _, _ => none
  | .ask q next, x =>
    World.carry refuses t (next (x.world.grant refuses t q).1)
      ⟨(x.world.grant refuses t q).2,x.seams ++ q.crossing (x.world.grant refuses t q).1⟩

theorem World.carry_yields {refuses : Request → Bool} {p : Program α} {a : α}
    (calm : ∀ rt addr len, refuses (.mapper rt (.unmap addr len)) = false)
    (ran : World.carry refuses t p x = some (a,y)) : p.Yields (Scene.Answers t) x a y := by
  induction p generalizing x with
  | done b =>
    cases ran
    exact .done
  | stop reason => cases ran
  | ask q next ih =>
    refine .ask ⟨x.world.grant_answers refuses t q,rfl,?_⟩ (ih _ ran)
    intro rt addr len cause same
    obtain rfl : q = .mapper rt (.unmap addr len) := congrArg Sigma.fst same
    simp [World.grant,calm] at same

/-- Only the making of the key is refused. -/
def keyless : Request → Bool
  | .host _ .createCleanupKey => true
  | _ => false

/-- An attempt on the first runtime, made by the main thread. -/
def tried (refuses : Request → Bool) (w : World) : Attempted :=
  match World.carry refuses 0 (attempt ⟨0⟩).run ⟨w,[]⟩ with
  | some (result,x) => ⟨x.seams,result,x.world⟩
  | none => ⟨[],.error .notReady,w⟩

theorem tried_yields {refuses : Request → Bool} (calm : ∀ rt addr len, refuses (.mapper rt (.unmap addr len)) = false)
    (ends : (World.carry refuses 0 (attempt ⟨0⟩).run ⟨w,[]⟩).isSome) :
    (attempt ⟨0⟩).run.Yields (Scene.Answers 0) ⟨w,[]⟩ (tried refuses w).result
      ⟨(tried refuses w).after,(tried refuses w).seams⟩ := by
  obtain ⟨⟨result,x⟩,ran⟩ := Option.isSome_iff_exists.mp ends
  rw [tried,ran]
  exact World.carry_yields calm ran

/-- The stand-in fails to make the key once. -/
def reluctant : Rehearsal.State :=
  { Rehearsal.State.fresh (.fresh none .working) with host := { Rehearsal.StandIn.fresh with limit := none, keyFailures := 1 } }

/-- The first attempt could not make the key. -/
def locked : Attempted := tried keyless World.first

def unlocked : Attempted := tried (fun _ => false) locked.after

theorem unlocked_seams : unlocked.seams = succeeding ⟨0⟩ none 0x1000 0x100000 ⟨7⟩ := rfl

theorem tried_seams : (tried (fun _ => false) World.first).seams = succeeding ⟨0⟩ none 0x1000 0x100000 ⟨7⟩ := rfl

theorem complete_of_succeeding {a : Attempted} {limit : Option UInt64} {page start : UInt64} {key : CleanupKey}
    (seams : a.seams = succeeding rt limit page start key) : a.Complete := by
  constructor
  · rw [seams]
    simp [succeeding,asking,Region.making,attaching,Exchange.fault?]
  · exact ⟨rt,.ok key,by simp [seams,succeeding,attaching]⟩

/-- An attempt that succeeds asks each thing once. -/
theorem succeeding_once {limit : Option UInt64} {page start : UInt64} {key : CleanupKey} :
    (succeeding rt limit page start key).NodupKeys := by
  simp [List.NodupKeys,succeeding,asking,Region.making,attaching]

theorem unlocked_retry :
    (∃ r r', Alike ⟨0⟩ 0 0 locked.after World.first unlocked (tried (fun _ => false) World.first) r r') ∧
      ∃ r, [locked,unlocked].map (·.result) = [.error (.keyCreateFailed 11),.ok r] := by
  have unused : Unused ⟨0⟩ 0 World.first := ⟨rfl,rfl,by simp [World.first]⟩
  have attempts : Tries ⟨0⟩ 0 World.first ([locked] ++ [unlocked]) :=
    .cons (tried_yields (fun _ _ _ => rfl) rfl) (.cons (tried_yields (fun _ _ _ => rfl) rfl) .nil)
  have direct : Tries ⟨0⟩ 0 World.first [tried (fun _ => false) World.first] :=
    .cons (tried_yields (fun _ _ _ => rfl) rfl) .nil
  have retry := attempts.retry unused (by simpa using ⟨_,rfl⟩)
  constructor
  · apply retry.alike unused direct (complete_of_succeeding tried_seams) (complete_of_succeeding unlocked_seams)
    rw [tried_seams,unlocked_seams]
    exact fun _ _ _ asked asked' _ => succeeding_once.eq_of_mk_mem asked asked'
  · have seams : [locked,unlocked].flatMap (·.seams) = asking ⟨0⟩ none 0x1000 ++ Region.making ⟨0⟩ 0x100000 defaultStackSize 0x1000 ++
        [⟨.host ⟨0⟩ .installInterception,.ok ()⟩,⟨.host ⟨0⟩ .createCleanupKey,.error (.keyCreateFailed 11)⟩,
          ⟨.mapper ⟨0⟩ (.unmap 0x100000 (defaultStackSize + 0x1000)),.ok ()⟩] ++ succeeding ⟨0⟩ none 0x1000 0x100000 ⟨7⟩ := rfl
    apply @Retry.counted _ _ _ _ _ retry (Rehearsal.answer 0) reluctant [locked,unlocked] attempts
    · rw [seams]
      exact ⟨_,rfl,rfl,rfl,rfl,_,rfl,_,rfl,rfl,_,rfl,rfl,rfl,rfl,_,rfl,_,rfl,trivial⟩
    · rw [seams]
      constructor
      · decide
      · intro rt page asked
        obtain rfl : page = 0x1000 := by
          simp [asking,Region.making,succeeding,attaching] at asked
          exact asked.2
        exact ⟨⟨⟨12,rfl⟩,by decide⟩,by decide⟩
      · intro rt len rights start asked
        obtain rfl : start = 0x100000 := by
          simp [asking,Region.making,succeeding,attaching] at asked
          rcases asked with asked | asked <;> exact asked.2
        decide
    · rfl

end GuardedStack
