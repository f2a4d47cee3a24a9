import GuardedStack.Proofs.Discipline
import GuardedStack.Proofs.World

/-! What an operation that runs alone does to its thread's stack, to the runtimes and to the mappings. Here every
request is allowed; the discipline only follows the account, for unmap calls that work. -/
namespace GuardedStack

structure Account where
  stack : ThreadStack
  runtimes : RuntimeId → RuntimeState
  live : List Mapping
  /-- A host was asked to intercept the creation of threads. -/
  asked : Bool

namespace Account

def setRuntime (x : Account) (rt : RuntimeId) (r : RuntimeState) : Account :=
  { x with runtimes := replace x.runtimes rt r }

def after (x : Account) : (q : Request) → q.Reply → Account
  | .mapper rt (.map len _), .ok addr => { x with live := ⟨rt,addr,len⟩ :: x.live }
  | .mapper rt (.unmap addr len), .ok () => { x with live := x.live.filter (· ≠ ⟨rt,addr,len⟩) }
  | .host _ .installInterception, _ => { x with asked := true }
  | .state (.setStack s), _ => { x with stack := s }
  | .state (.exchangePhase rt _ desired), won =>
    if won then x.setRuntime rt { x.runtimes rt with phase := desired } else x
  | .state (.setPhase rt phase), _ => x.setRuntime rt { x.runtimes rt with phase := phase }
  | .state (.keepKey rt key), _ => x.setRuntime rt ((x.runtimes rt).keepKey key)
  | _, _ => x

/-- A phase that was changed is set back. -/
theorem restored (x : Account) {rt : RuntimeId} {phase other : Phase} (before : (x.runtimes rt).phase = phase) :
    (x.setRuntime rt { x.runtimes rt with phase := other }).after (.state (.setPhase rt phase)) () = x := by
  subst before
  simp [after,setRuntime]

def Expects (x : Account) : (q : Request) → q.Reply → Prop
  | .mapper _ .pageSize, size => size ≠ 0
  | .mapper rt (.map len _), .ok addr =>
    (⟨rt,addr,len⟩ : Mapping).Proper ∧ ∀ m ∈ x.live, (⟨rt,addr,len⟩ : Mapping).Apart m
  | .mapper _ (.unmap _ _), .error _ => False
  | .state .stack, s => s = x.stack
  | .state (.exchangePhase rt expected _), won => won = true → (x.runtimes rt).phase = expected
  | _, _ => True

/-- A thread with a stack has it from a live mapping. -/
def Backed (x : Account) : Prop := ∀ h, x.stack.holding = some h → h.mapping ∈ x.live

end Account

def accounting : Discipline Account where
  may _ _ := True
  next x q reply y := x.Expects q reply ∧ y = x.after q reply
  ends _ := True

open Program Attempt

theorem accounting_silent : accounting.Silent where
  emits _ _ := trivial
  emitted _ _ _ _ step := step.2
  asks _ := trivial
  asked _ _ _ step := step.2

variable {x : Account} {rt : RuntimeId}

theorem account_text {s : String} : (pure s : Program String).Follows accounting (fun y _ => y = x) x := rfl

namespace Region

theorem closeGuard_account {start total guard : UInt64} :
    (closeGuard rt start total guard).Follows accounting (fun y _ => y = x)
      (fun y _ => y = { x with live := x.live.filter (· ≠ ⟨rt,start,total⟩) }) x := by
  refine .bind (follows_outcome (follows_ofProgram (follows_request trivial ?_)))
  rintro (cause | _) y ⟨-,rfl⟩
  · refine .bind (follows_outcome (follows_ofProgram (follows_request trivial ?_)))
    rintro (leftover | _) y ⟨works,rfl⟩
    · exact works.elim
    · rfl
  · rfl

theorem allocate_account {size guard : UInt64} (nonempty : guard ≠ 0) :
    (allocate rt size guard).Follows accounting
      (fun y r => r.Sound ∧ (∀ m ∈ x.live, (r.mapping rt).Apart m) ∧ y = { x with live := r.mapping rt :: x.live })
      (fun y _ => y = x) x := by
  unfold allocate
  cases sum : Checked.add size guard with
  | error _ => exact follows_throw rfl
  | ok total =>
    have positive := Checked.add_ne_zero sum (.inr nonempty)
    refine .bind (follows_ofProgram (follows_request trivial ?_))
    rintro (cause | start) y ⟨proper,rfl⟩
    · rfl
    obtain ⟨proper,apart⟩ := proper
    obtain ⟨sound,whole⟩ := Mapping.Proper.region proper sum positive
    dsimp only
    rw [if_pos nonempty]
    refine .bind (closeGuard_account.mono ?_ ?_)
    · rintro y ⟨⟩ rfl
      refine .bind (follows_lift (follows_trace accounting_silent ?_ ?_))
      · cases Checked.add (start + guard) size with
        | error _ => trivial
        | ok top => exact account_text
      · exact follows_pure ⟨sound,whole ▸ apart,by rw [whole]; rfl⟩
    · rintro y cause rfl
      simp only [Account.after]
      rw [Mapping.drop_new (Mapping.Apart.new apart (Mapping.positive positive))]

theorem release_account {r : Region} (sound : r.Sound) :
    (release rt r).Follows accounting (fun y _ => y = { x with live := x.live.filter (· ≠ r.mapping rt) })
      (fun _ _ => False) x := by
  refine .bind (follows_lift (follows_checked sound.length_eq ?_))
  refine .bind (follows_ofProgram (follows_request trivial ?_))
  rintro (cause | _) y ⟨works,rfl⟩
  · exact works.elim
  · exact follows_lift (follows_trace accounting_silent account_text rfl)

theorem discard_account {r : Region} {reason : String} (sound : r.Sound) :
    (discard rt reason r).Follows accounting (fun y _ => y = { x with live := x.live.filter (· ≠ r.mapping rt) })
      x := by
  refine .bind (Program.Follows.mono (release_account sound) ?_)
  rintro y (leftover | _) done
  · exact done.elim
  · exact done

end Region

theorem Thread.install_account {h : Holding} :
    (Thread.install h).Follows accounting (fun y _ => y = { x with stack := ⟨h.region.top,some h⟩ })
      (fun y _ => y = x) x := by
  refine .bind (follows_lift (follows_request trivial ?_))
  rintro s y ⟨-,rfl⟩
  unfold ThreadStack.install
  split
  next done s' made =>
    split at made
    · simp at made
    · obtain rfl : _ = s' := (Prod.ext_iff.mp made).2
      refine follows_lift (follows_request trivial ?_)
      rintro ⟨⟩ y ⟨-,rfl⟩
      rfl
  next cause s' made => exact follows_throw rfl

namespace Startup

/-- Only the stack that the attempt itself has installed is detached. -/
theorem detach_account {region : Region} :
    (detach region).Follows accounting
      (fun y _ => y = if x.stack.region = some region then { x with stack := .empty } else x) x := by
  refine .bind (follows_request trivial ?_)
  rintro s y ⟨rfl,same⟩
  obtain rfl : x = y := same.symm
  by_cases here : x.stack.region = some region
  · simp only [here,if_true]
    refine .bind (.bind (follows_request trivial ?_))
    rintro s y ⟨-,same⟩
    obtain rfl : x = y := same.symm
    refine .bind (follows_request trivial ?_)
    rintro ⟨⟩ y ⟨-,rfl⟩
    rfl
  · simp only [here,if_false]
    rfl

/-- An attachment fails before it has installed the region, or after a host was asked for more. -/
theorem attach_account {region : Region} :
    (attach rt region).Follows accounting (fun _ _ => True)
      (fun y _ => y = x ∨ y = { x with stack := ⟨region.top,some ⟨region,rt⟩⟩, asked := true }) x := by
  refine .bind (Thread.install_account.mono ?_ ?_)
  · rintro y ⟨⟩ rfl
    refine .bind (follows_ofProgram (follows_request trivial ?_))
    rintro (cause | _) y ⟨-,rfl⟩
    · exact .inr rfl
    refine .bind (follows_ofProgram (follows_request trivial ?_))
    rintro (cause | key) y ⟨-,rfl⟩
    · exact .inr rfl
    refine follows_lift (follows_request trivial ?_)
    exact fun _ _ _ => trivial
  · rintro y cause rfl
    exact .inl rfl

theorem bringUp_account (backed : x.Backed) :
    (bringUp rt).Follows accounting (fun _ _ => True)
      (fun y _ => y = x ∨ y = { x with stack := .empty, asked := true }) x := by
  refine .bind (follows_lift (follows_request trivial ?_))
  rintro limit y ⟨-,same⟩
  obtain rfl : x = y := same.symm
  refine .bind (follows_lift (follows_request trivial ?_))
  rintro guard y ⟨large,same⟩
  obtain rfl : x = y := same.symm
  refine .bind ((Region.allocate_account large).mono ?_ ?_)
  · rintro y r ⟨sound,apart,rfl⟩
    have dropped : (r.mapping rt :: x.live).filter (· ≠ r.mapping rt) = x.live :=
      Mapping.drop_new (Mapping.Apart.new apart (sound.mapping_nonempty rt))
    refine .bind (follows_outcome (Follows.mono attach_account ?_ ?_))
    · exact fun _ _ _ => trivial
    · rintro y cause failed
      refine .bind (follows_lift (detach_account.mono ?_))
      rintro z ⟨⟩ detached
      refine .bind (follows_lift ((Region.discard_account sound).mono ?_))
      rintro z' ⟨⟩ rfl
      apply follows_throw
      rcases failed with rfl | rfl
      · have other : x.stack.region ≠ some r := by
          intro here
          obtain ⟨h,holding,rfl⟩ := Option.map_eq_some_iff.mp here
          have clash := apart h.mapping (backed h holding)
          exact clash.addr_ne (sound.mapping_nonempty rt) (sound.mapping_nonempty h.owner) rfl
        simp only [other,if_false] at detached
        subst detached
        exact .inl (by rw [dropped])
      · simp only [ThreadStack.region,Option.map_some,if_true] at detached
        subst detached
        exact .inr (by rw [dropped])
  · rintro y cause rfl
    exact .inl rfl

/-- A failed attempt gives back what it has taken, but for the stack that its thread had before. -/
theorem attempt_account (backed : x.Backed) :
    (attempt rt).Follows accounting (fun _ _ => True)
      (fun y _ => y = x ∨ y = { x with stack := .empty, asked := true }) x := by
  refine .bind (follows_lift (follows_request trivial ?_))
  rintro won y ⟨free,rfl⟩
  cases won with
  | false => exact follows_throw (.inl rfl)
  | true =>
    have free : (x.runtimes rt).phase = .uninitialized := free rfl
    refine .bind (follows_lift (follows_request trivial ?_))
    rintro setting y ⟨-,rfl⟩
    refine .bind (follows_lift (follows_request trivial ?_))
    rintro ⟨⟩ y ⟨-,rfl⟩
    refine .bind (follows_outcome (Follows.mono
      (bringUp_account (x := x.setRuntime rt { x.runtimes rt with phase := .initializing }) backed) ?_ ?_))
    · intro y region _
      refine .bind (follows_lift (follows_request trivial ?_))
      rintro ⟨⟩ z ⟨-,rfl⟩
      exact .bind (follows_lift (follows_notice accounting_silent account_text (follows_pure trivial)))
    · intro y cause failed
      refine .bind (follows_lift (follows_request trivial ?_))
      rintro ⟨⟩ z ⟨-,rfl⟩
      apply follows_throw
      rcases failed with rfl | rfl
      · exact .inl (x.restored free)
      · exact .inr (Account.restored { x with stack := .empty, asked := true } free)

end Startup
end GuardedStack
