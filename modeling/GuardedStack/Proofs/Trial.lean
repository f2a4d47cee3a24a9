import GuardedStack.Proofs.Account

/-! An attempt to initialize, call by call: what it asks of the mapper and of the host, what they reply, and what comes of
it. With unmap calls that work, an attempt always ends; it ends with the fault of the first call or check that fails, or with
a region. -/
namespace GuardedStack

/-- A call across a seam, with its reply. -/
abbrev Exchange := (q : Request) × q.Reply

/-- State requests cross no seam. -/
def Request.crossing : (q : Request) → q.Reply → List Exchange
  | .state _, _ => []
  | .mapper rt call, reply => [⟨.mapper rt call,reply⟩]
  | .host rt call, reply => [⟨.host rt call,reply⟩]
  | .enter entry arg, reply => [⟨.enter entry arg,reply⟩]

/-- An account, with the calls so far. -/
structure Trial where
  account : Account
  seams : List Exchange

namespace Trial

/-- The account is now another one, and these calls were made. -/
def tell (x : Trial) (account : Account) (said : List Exchange) : Trial := ⟨account,x.seams ++ said⟩

def after (x : Trial) (q : Request) (reply : q.Reply) : Trial := x.tell (x.account.after q reply) (q.crossing reply)

/-- Nobody else changes the phase. -/
def Expects (x : Trial) : (q : Request) → q.Reply → Prop
  | .state (.exchangePhase rt expected _), won => won = true ↔ (x.account.runtimes rt).phase = expected
  | q, reply => x.account.Expects q reply

variable {x : Trial} {a b : Account} {said more : List Exchange}

@[simp] theorem account_tell : (x.tell a said).account = a := rfl

@[simp] theorem tell_tell : (x.tell a said).tell b more = x.tell b (said ++ more) := by
  simp [tell]

@[simp] theorem tell_nil : x.tell x.account [] = x := by
  simp [tell]

end Trial

def trying : Discipline Trial where
  may _ _ := True
  next x q reply y := x.Expects q reply ∧ y = x.after q reply
  ends _ := False

open Program Attempt

theorem trying_silent : trying.Silent where
  emits _ _ := trivial
  emitted _ _ _ _ step := step.2.trans Trial.tell_nil
  asks _ := trivial
  asked _ _ _ step := step.2.trans Trial.tell_nil

variable {x : Trial} {rt : RuntimeId}

theorem trial_text {s : String} : (pure s : Program String).Follows trying (fun y _ => y = x) x := rfl

namespace Region

/-- Why a region was not made, with the calls up to then. -/
inductive Unmade (rt : RuntimeId) (size guard : UInt64) : List Exchange → Fault → Prop
  | overflow {operation} : Checked.add size guard = .error operation → Unmade rt size guard [] (.sizeOverflow size guard)
  | map {total cause} : Checked.add size guard = .ok total →
      Unmade rt size guard [⟨.mapper rt (.map (size + guard) .readWrite),.error cause⟩] cause
  | protect (start) {total cause} : Checked.add size guard = .ok total → Unmade rt size guard [⟨.mapper rt (.map (size + guard) .readWrite),.ok start⟩,
      ⟨.mapper rt (.protect start guard .none),.error cause⟩,⟨.mapper rt (.unmap start (size + guard)),.ok ()⟩] cause

/-- The calls that make a region. -/
def making (rt : RuntimeId) (start size guard : UInt64) : List Exchange :=
  [⟨.mapper rt (.map (size + guard) .readWrite),.ok start⟩,⟨.mapper rt (.protect start guard .none),.ok ()⟩]

theorem closeGuard_trial {start total guard : UInt64} :
    (closeGuard rt start total guard).Follows trying
      (fun y _ => y = x.tell x.account [⟨.mapper rt (.protect start guard .none),.ok ()⟩])
      (fun y cause => y = x.tell { x.account with live := x.account.live.filter (· ≠ ⟨rt,start,total⟩) }
        [⟨.mapper rt (.protect start guard .none),.error cause⟩,⟨.mapper rt (.unmap start total),.ok ()⟩]) x := by
  refine .bind (follows_outcome (follows_ofProgram (follows_request trivial ?_)))
  rintro (cause | _) y ⟨-,rfl⟩
  · refine .bind (follows_outcome (follows_ofProgram (follows_request trivial ?_)))
    rintro (leftover | _) y ⟨works,rfl⟩
    · exact works.elim
    · apply follows_throw
      simp [Trial.after,Account.after,Request.crossing]
  · exact follows_pure rfl

theorem allocate_trial {size guard : UInt64} (nonempty : guard ≠ 0) :
    (allocate rt size guard).Follows trying
      (fun y r => ∃ start, r = ⟨start + guard,size,guard⟩ ∧ r.Sound ∧ (∀ m ∈ x.account.live, (r.mapping rt).Apart m) ∧
        y = x.tell { x.account with live := r.mapping rt :: x.account.live } (making rt start size guard))
      (fun y cause => ∃ said, Unmade rt size guard said cause ∧ y = x.tell x.account said) x := by
  unfold allocate
  cases sum : Checked.add size guard with
  | error operation => exact follows_throw ⟨[],.overflow sum,by simp⟩
  | ok total =>
    have positive := Checked.add_ne_zero sum (.inr nonempty)
    obtain ⟨small,rfl⟩ := Checked.add_eq_ok_iff.mp sum
    refine .bind (follows_ofProgram (follows_request trivial ?_))
    rintro (cause | start) y ⟨proper,rfl⟩
    · exact ⟨_,.map sum,rfl⟩
    obtain ⟨proper,apart⟩ := proper
    obtain ⟨sound,whole⟩ := Mapping.Proper.region proper sum positive
    dsimp only
    rw [if_pos nonempty]
    refine .bind (closeGuard_trial.mono ?_ ?_)
    · rintro y ⟨⟩ rfl
      have top : Checked.add (start + guard) size = .ok (start + guard + size) := sound.top_eq
      refine .bind (follows_lift (follows_trace trying_silent ?_ ?_))
      · exact .bind (follows_checked top trial_text)
      · refine follows_pure ⟨start,rfl,sound,whole ▸ apart,?_⟩
        simp [Trial.after,Account.after,Request.crossing,making,whole]
    · rintro y cause rfl
      have back := Mapping.drop_new (Mapping.Apart.new apart (Mapping.positive positive))
      refine ⟨_,.protect start sum,?_⟩
      simp only [Trial.after,Trial.account_tell,Account.after,back,Trial.tell_tell]
      rfl

theorem release_trial {r : Region} (sound : r.Sound) :
    (release rt r).Follows trying
      (fun y _ => y = x.tell { x.account with live := x.account.live.filter (· ≠ r.mapping rt) }
        [⟨.mapper rt (.unmap r.start (r.usable + r.guard)),.ok ()⟩]) (fun _ _ => False) x := by
  refine .bind (follows_lift (follows_checked sound.length_eq ?_))
  refine .bind (follows_ofProgram (follows_request trivial ?_))
  rintro (cause | _) y ⟨works,rfl⟩
  · exact works.elim
  · exact follows_lift (follows_trace trying_silent trial_text rfl)

theorem discard_trial {r : Region} {reason : String} (sound : r.Sound) :
    (discard rt reason r).Follows trying
      (fun y _ => y = x.tell { x.account with live := x.account.live.filter (· ≠ r.mapping rt) }
        [⟨.mapper rt (.unmap r.start (r.usable + r.guard)),.ok ()⟩]) x := by
  refine .bind (Program.Follows.mono (release_trial sound) ?_)
  rintro y (leftover | _) done
  · exact done.elim
  · exact done

end Region

theorem Thread.install_trial {h : Holding} :
    (Thread.install h).Follows trying
      (fun y _ => h.region.Aligned ∧ y = x.tell { x.account with stack := ⟨h.region.top,some h⟩ } [])
      (fun y cause => ¬h.region.Aligned ∧ cause = .misalignedStackPointer h.region.top ∧ y = x) x := by
  refine .bind (follows_lift (follows_request trivial ?_))
  rintro s y ⟨-,same⟩
  obtain rfl : y = x := same.trans Trial.tell_nil
  unfold ThreadStack.install
  by_cases aligned : h.region.Aligned
  · rw [if_neg (not_not_intro aligned)]
    refine follows_lift (follows_request trivial ?_)
    rintro ⟨⟩ z ⟨-,rfl⟩
    exact ⟨aligned,rfl⟩
  · rw [if_pos aligned]
    exact follows_throw ⟨aligned,rfl,rfl⟩

namespace Startup

theorem detach_trial {region : Region} {owner : RuntimeId} {pointer : UInt64}
    (installed : x.account.stack = ⟨pointer,some ⟨region,owner⟩⟩) :
    (detach region).Follows trying (fun y _ => y = x.tell { x.account with stack := .empty } []) x := by
  refine .bind (follows_request trivial ?_)
  rintro s y ⟨rfl,same⟩
  obtain rfl : y = x := same.trans Trial.tell_nil
  simp only [ThreadStack.region,installed,Option.map_some,if_true]
  refine .bind (.bind (follows_request trivial ?_))
  rintro s z ⟨-,same⟩
  obtain rfl : z = y := same.trans Trial.tell_nil
  refine .bind (follows_request trivial ?_)
  rintro ⟨⟩ z' ⟨-,rfl⟩
  rfl

theorem detach_trial_other {region : Region} (other : x.account.stack.region ≠ some region) :
    (detach region).Follows trying (fun y _ => y = x) x := by
  refine .bind (follows_request trivial ?_)
  rintro s y ⟨rfl,same⟩
  obtain rfl : y = x := same.trans Trial.tell_nil
  rw [if_neg other]
  rfl

/-- Why a region was not attached, with the calls for it. -/
inductive Unattached (rt : RuntimeId) (r : Region) : List Exchange → Fault → Prop
  | misaligned : ¬r.Aligned → Unattached rt r [] (.misalignedStackPointer r.top)
  | intercept {cause} : r.Aligned → Unattached rt r [⟨.host rt .installInterception,.error cause⟩] cause
  | key {cause} : r.Aligned → Unattached rt r
      [⟨.host rt .installInterception,.ok ()⟩,⟨.host rt .createCleanupKey,.error cause⟩] cause

/-- The calls that attach a region. -/
def attaching (rt : RuntimeId) (key : CleanupKey) : List Exchange :=
  [⟨.host rt .installInterception,.ok ()⟩,⟨.host rt .createCleanupKey,.ok key⟩]

theorem attach_trial {region : Region} :
    (attach rt region).Follows trying
      (fun y _ => ∃ key, region.Aligned ∧ y = x.tell
        (Account.setRuntime { x.account with stack := ⟨region.top,some ⟨region,rt⟩⟩, asked := true } rt
          ((x.account.runtimes rt).keepKey key)) (attaching rt key))
      (fun y cause => ∃ said, Unattached rt region said cause ∧ y = x.tell
        (if said.isEmpty then x.account else { x.account with stack := ⟨region.top,some ⟨region,rt⟩⟩, asked := true }) said) x := by
  refine .bind (Thread.install_trial.mono ?_ ?_)
  · rintro y ⟨⟩ ⟨aligned,rfl⟩
    refine .bind (follows_ofProgram (follows_request trivial ?_))
    rintro (cause | _) y ⟨-,rfl⟩
    · exact ⟨_,.intercept aligned,by simp [Trial.after,Account.after,Request.crossing]⟩
    refine .bind (follows_ofProgram (follows_request trivial ?_))
    rintro (cause | key) y ⟨-,rfl⟩
    · exact ⟨_,.key aligned,by simp [Trial.after,Account.after,Request.crossing]⟩
    refine follows_lift (follows_request trivial ?_)
    rintro ⟨⟩ y ⟨-,rfl⟩
    exact ⟨key,aligned,by simp [Trial.after,Account.after,Request.crossing,attaching]⟩
  · rintro y cause ⟨off,rfl,rfl⟩
    exact ⟨[],.misaligned off,by simp⟩

/-- What the main stack is to be made of: its size and a page for the guard. -/
def stackSize (limit : Option UInt64) : UInt64 := limit.getD defaultStackSize

def asking (rt : RuntimeId) (limit : Option UInt64) (page : UInt64) : List Exchange :=
  [⟨.host rt .stackLimit,limit⟩,⟨.mapper rt .pageSize,page⟩]

/-- The main region of a mapping. -/
def mainRegion (limit : Option UInt64) (page start : UInt64) : Region := ⟨start + page,stackSize limit,page⟩

theorem mainRegion_start {limit : Option UInt64} {page start : UInt64} : (mainRegion limit page start).start = start := by
  simp [mainRegion,Region.start]

theorem mainRegion_mapping {limit : Option UInt64} {page start : UInt64} :
    (mainRegion limit page start).mapping rt = ⟨rt,start,stackSize limit + page⟩ := by
  rw [Region.mapping,mainRegion_start]
  rfl

/-- How an attempt fails, with all its calls. -/
inductive Fails (rt : RuntimeId) : List Exchange → Fault → Prop
  | unmade {limit page said cause} : Region.Unmade rt (stackSize limit) page said cause →
      Fails rt (asking rt limit page ++ said) cause
  | unattached {limit page start said cause} : Unattached rt (mainRegion limit page start) said cause →
      Fails rt (asking rt limit page ++ Region.making rt start (stackSize limit) page ++ said ++
        [⟨.mapper rt (.unmap start (stackSize limit + page)),.ok ()⟩]) cause

/-- All calls of an attempt that succeeds. -/
def succeeding (rt : RuntimeId) (limit : Option UInt64) (page start : UInt64) (key : CleanupKey) : List Exchange :=
  asking rt limit page ++ Region.making rt start (stackSize limit) page ++ attaching rt key

/-- What is left then: the region is mapped, and is the thread's stack. -/
def opened (x : Account) (rt : RuntimeId) (r : Region) (state : RuntimeState) : Account :=
  ⟨⟨r.top,some ⟨r,rt⟩⟩,replace x.runtimes rt state,r.mapping rt :: x.live,true⟩

/-- Whether or not the region was installed, the thread has no stack any more. -/
theorem undo_trial {r : Region} {a : Account} {said : List Exchange} (idle : a.stack.holding = none) (early : Bool) :
    (detach r).Follows trying (fun y _ => ∃ stack asked, stack.holding = none ∧
        y = x.tell { a with stack := stack, asked := asked } said)
      (x.tell (if early then a else { a with stack := ⟨r.top,some ⟨r,rt⟩⟩, asked := true }) said) := by
  cases early with
  | true =>
    refine (detach_trial_other ?_).mono ?_
    · simp [idle,ThreadStack.region]
    · rintro y ⟨⟩ rfl
      exact ⟨a.stack,a.asked,idle,rfl⟩
  | false =>
    refine (detach_trial rfl).mono ?_
    rintro y ⟨⟩ rfl
    exact ⟨.empty,true,rfl,by simp⟩

theorem bringUp_trial (idle : x.account.stack.holding = none) :
    (bringUp rt).Follows trying
      (fun y r => ∃ limit page start key, r = mainRegion limit page start ∧ r.Aligned ∧
        y = x.tell (opened x.account rt r ((x.account.runtimes rt).keepKey key)) (succeeding rt limit page start key))
      (fun y cause => ∃ said stack asked, Fails rt said cause ∧ stack.holding = none ∧
        y = x.tell { x.account with stack := stack, asked := asked } said) x := by
  refine .bind (follows_lift (follows_request trivial ?_))
  rintro limit y ⟨-,rfl⟩
  refine .bind (follows_lift (follows_request trivial ?_))
  rintro page y ⟨large,same⟩
  have large : page ≠ 0 := large
  obtain rfl : y = x.tell x.account (asking rt limit page) :=
    same.trans (by simp [Trial.after,Account.after,Request.crossing,asking])
  refine .bind ((Region.allocate_trial large).mono ?_ ?_)
  · rintro y r ⟨start,place,sound,apart,rfl⟩
    obtain rfl : r = mainRegion limit page start := place
    have dropped : ((mainRegion limit page start).mapping rt :: x.account.live).filter
        (· ≠ (mainRegion limit page start).mapping rt) = x.account.live :=
      Mapping.drop_new (Mapping.Apart.new apart (sound.mapping_nonempty rt))
    refine .bind (follows_outcome (Follows.mono attach_trial ?_ ?_))
    · rintro y ⟨⟩ ⟨key,aligned,rfl⟩
      refine follows_pure ⟨limit,page,start,key,rfl,aligned,?_⟩
      simp [Account.setRuntime,succeeding,opened,stackSize]
    · rintro y cause ⟨said,why,rfl⟩
      have bare : (Account.stack { x.account with live := (mainRegion limit page start).mapping rt :: x.account.live }).holding =
          none := idle
      simp only [Trial.account_tell,Trial.tell_tell]
      refine .bind (follows_lift ((undo_trial bare said.isEmpty).mono ?_))
      rintro y ⟨⟩ ⟨stack,asked,bare,rfl⟩
      refine .bind (follows_lift ((Region.discard_trial sound).mono ?_))
      rintro y ⟨⟩ rfl
      refine follows_throw ⟨_,stack,asked,.unattached why,bare,?_⟩
      simp only [Trial.account_tell,Trial.tell_tell,dropped,List.append_assoc]
      rw [mainRegion_start]
      rfl
  · rintro y cause ⟨said,why,rfl⟩
    exact ⟨_,x.account.stack,x.account.asked,.unmade why,idle,by simp⟩

/-- An attempt on a fresh runtime, made where there is no stack, ends. If it fails then the runtimes and the mappings are as
before, and there still is no stack. -/
theorem attempt_trial (idle : x.account.stack.holding = none) (fresh : x.account.runtimes rt = .fresh) :
    (attempt rt).Follows trying
      (fun y r => ∃ limit page start key, r = mainRegion limit page start ∧ r.Aligned ∧
        y = x.tell (opened x.account rt r ⟨.ready,some key⟩) (succeeding rt limit page start key))
      (fun y cause => ∃ said stack asked, Fails rt said cause ∧ stack.holding = none ∧
        y = x.tell { x.account with stack := stack, asked := asked } said) x := by
  have begun : (x.account.runtimes rt).phase = .uninitialized := by rw [fresh]; rfl
  refine .bind (follows_lift (follows_request trivial ?_))
  rintro won y ⟨free,same⟩
  obtain rfl : won = true := free.mpr begun
  obtain rfl : y = x.tell (x.account.setRuntime rt { x.account.runtimes rt with phase := .initializing }) [] := same
  refine .bind (follows_lift (follows_request trivial ?_))
  rintro setting y ⟨-,same⟩
  obtain rfl := same.trans Trial.tell_nil
  refine .bind (follows_lift (follows_request trivial ?_))
  rintro ⟨⟩ y ⟨-,same⟩
  obtain rfl := same.trans Trial.tell_nil
  refine .bind (follows_outcome (Follows.mono (bringUp_trial idle) ?_ ?_))
  · rintro y r ⟨limit,page,start,key,rfl,aligned,rfl⟩
    refine .bind (follows_lift (follows_request trivial ?_))
    rintro ⟨⟩ y ⟨-,rfl⟩
    refine .bind (follows_lift (follows_notice trying_silent trial_text (follows_pure ?_)))
    refine ⟨limit,page,start,key,rfl,aligned,?_⟩
    simp [Trial.after,Account.after,Request.crossing,Account.setRuntime,opened,fresh,RuntimeState.keepKey,RuntimeState.fresh]
  · rintro y cause ⟨said,stack,asked,why,bare,rfl⟩
    refine .bind (follows_lift (follows_request trivial ?_))
    rintro ⟨⟩ y ⟨-,rfl⟩
    refine follows_throw ⟨said,stack,asked,why,bare,?_⟩
    have restored := @Account.restored { x.account with stack := stack, asked := asked } rt _ .initializing begun
    simp only [Trial.after,Trial.account_tell,Trial.tell_tell]
    exact (congrArg (x.tell · _) restored).trans (by simp [Request.crossing])

end Startup
end GuardedStack
