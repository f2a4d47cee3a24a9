import GuardedStack.Proofs.Deeds

/-! Runtimes and what operations know of them: one operation at a time initializes a runtime, a runtime is ready
only with its key, and what was ready stays so. -/
namespace GuardedStack.World

variable {trace : Trace} {w w' : World} {t : ThreadId}

section
variable {n : Nat} {c : Custody}

theorem Phased.congr (phased : w.Phased trace) (same : w'.image.runtimes = w.image.runtimes) :
    w'.Phased trace := by
  constructor
  · rw [same]; exact phased.starting
  · exact phased.starter
  · rw [same]; exact phased.learned
  · rw [same]; exact phased.keyed
  · rw [same]; exact phased.keyless
  · rw [same]; exact phased.lookup
  · exact phased.installer

/-- The runtimes stay as they are, and one operation learns at most what is so. -/
theorem Phased.learn {e : Event} (phased : w.Phased trace)
    (taken : e.custodies trace.custodies = replace trace.custodies n c)
    (runtimes : w'.image.runtimes = w.image.runtimes)
    (starting : ∀ {rt kept}, c.role = .starting rt kept → (trace.custodies n).role = .starting rt kept)
    (learned : ∀ {rt}, rt ∈ c.ready → w.Ready rt)
    (lookup : ∀ {rt key}, c.key = some (rt,key) → (w.image.runtimes rt).key = some key)
    (installer : ∀ {h}, c.hand = .installed h → ∃ kept, c.role = .starting h.owner kept) :
    w'.Phased (e :: trace) := by
  have mine : Trace.custodies (e :: trace) n = c := by simp [Trace.custodies,taken]
  have others {k} (other : k ≠ n) : Trace.custodies (e :: trace) k = trace.custodies k := by
    simp [Trace.custodies,taken,other]
  have before {k rt kept} (role : (Trace.custodies (e :: trace) k).role = .starting rt kept) :
      (trace.custodies k).role = .starting rt kept := by
    by_cases same : k = n
    · subst same
      exact starting (mine ▸ role)
    · exact others same ▸ role
  refine ⟨?_,?_,?_,?_,?_,?_,?_⟩
  · intro k rt kept role
    rw [runtimes]
    exact phased.starting (before role)
  · exact fun role role' => phased.starter (before role) (before role')
  · intro k rt member
    rw [runtimes]
    by_cases same : k = n
    · subst same
      exact learned (mine ▸ member)
    · exact phased.learned (others same ▸ member)
  · rw [runtimes]
    exact phased.keyed
  · rw [runtimes]
    exact phased.keyless
  · intro k rt key found
    rw [runtimes]
    by_cases same : k = n
    · subst same
      exact lookup (mine ▸ found)
    · exact phased.lookup (others same ▸ found)
  · intro k h installed
    by_cases same : k = n
    · subst same
      rw [mine] at installed ⊢
      exact installer installed
    · rw [others same] at installed ⊢
      exact phased.installer installed

/-- The one operation that may, moves its runtime on. -/
theorem Phased.advance {e : Event} {r : RuntimeState} (phased : w.Phased trace) (rt : RuntimeId)
    (taken : e.custodies trace.custodies = replace trace.custodies n c)
    (runtimes : w'.image.runtimes = replace w.image.runtimes rt r)
    (unready : ¬w.Ready rt) (only : ∀ {k kept}, (trace.custodies k).role = .starting rt kept → k = n)
    (starting : ∀ {rt' kept}, c.role = .starting rt' kept → rt' = rt ∧ r.phase = .initializing ∧ kept = r.key.isSome)
    (keyed : r.phase = .ready → r.key ≠ none) (keyless : r.phase = .uninitialized → r.key = none)
    (keys : ∀ {key}, (w.image.runtimes rt).key = some key → r.key = some key)
    (ready : c.ready = (trace.custodies n).ready) (key : c.key = (trace.custodies n).key)
    (installer : ∀ {h}, c.hand = .installed h → ∃ kept, c.role = .starting h.owner kept) :
    w'.Phased (e :: trace) := by
  have mine : Trace.custodies (e :: trace) n = c := by simp [Trace.custodies,taken]
  have others {k} (other : k ≠ n) : Trace.custodies (e :: trace) k = trace.custodies k := by
    simp [Trace.custodies,taken,other]
  have here : w'.image.runtimes rt = r := by simp [runtimes]
  have there {rt'} (other : rt' ≠ rt) : w'.image.runtimes rt' = w.image.runtimes rt' := by
    simp [runtimes,other]
  refine ⟨?_,?_,?_,?_,?_,?_,?_⟩
  · intro k rt' kept role
    by_cases same : k = n
    · subst same
      obtain ⟨rfl,phase,isSome⟩ := starting (mine ▸ role)
      rw [here]
      exact ⟨phase,isSome⟩
    · rw [others same] at role
      have other : rt' ≠ rt := by
        rintro rfl
        exact same (only role)
      rw [there other]
      exact phased.starting role
  · intro k k' rt' kept kept' role role'
    by_cases same : k = n
    · by_cases same' : k' = n
      · rw [same,same']
      · rw [others same'] at role'
        rw [same,mine] at role
        obtain ⟨rfl,-⟩ := starting role
        exact absurd (only role') same'
    · rw [others same] at role
      by_cases same' : k' = n
      · rw [same',mine] at role'
        obtain ⟨rfl,-⟩ := starting role'
        exact absurd (only role) same
      · exact phased.starter role (others same' ▸ role')
  · intro k rt' member
    have old : rt' ∈ (trace.custodies k).ready := by
      by_cases same : k = n
      · rw [same,mine,ready] at member
        rwa [same]
      · exact others same ▸ member
    have known := phased.learned old
    have other : rt' ≠ rt := by
      rintro rfl
      exact unready known
    rwa [there other]
  · intro rt' phase
    by_cases same : rt' = rt
    · subst same
      rw [here] at phase ⊢
      exact keyed phase
    · rw [there same] at phase ⊢
      exact phased.keyed phase
  · intro rt' phase
    by_cases same : rt' = rt
    · subst same
      rw [here] at phase ⊢
      exact keyless phase
    · rw [there same] at phase ⊢
      exact phased.keyless phase
  · intro k rt' key' found
    have old : (trace.custodies k).key = some (rt',key') := by
      by_cases same : k = n
      · rw [same,mine,key] at found
        rwa [same]
      · exact others same ▸ found
    have known := phased.lookup old
    by_cases same : rt' = rt
    · subst same
      rw [here]
      exact keys known
    · rwa [there same]
  · intro k h installed
    by_cases same : k = n
    · subst same
      rw [mine] at installed ⊢
      exact installer installed
    · rw [others same] at installed ⊢
      exact phased.installer installed

end


section
variable {n : Nat} {op : Operation} {q : Request} {next : q.Reply → Program op.Result} {below : List Frame}
  {reply : q.Reply} (inv : w.Inv trace)
include inv

/-- At most the hand has changed, and what is installed was installed before. -/
theorem Inv.phased_quiet (runtimes : w'.image.runtimes = w.image.runtimes)
    (role : ((trace.custodies n).after q reply).role = (trace.custodies n).role)
    (ready : ((trace.custodies n).after q reply).ready = (trace.custodies n).ready)
    (key : ((trace.custodies n).after q reply).key = (trace.custodies n).key)
    (hand : ∀ {h}, ((trace.custodies n).after q reply).hand = .installed h → (trace.custodies n).hand = .installed h) :
    w'.Phased (.answered n t q reply :: trace) := by
  refine inv.phased.learn rfl runtimes ?_ ?_ ?_ ?_
  · intro rt kept starting
    rwa [role] at starting
  · intro rt member
    rw [ready] at member
    exact inv.phased.learned member
  · intro rt k found
    rw [key] at found
    exact inv.phased.lookup found
  · intro h installed
    rw [role]
    exact inv.phased.installer (hand installed)

end

section
variable {n : Nat} (inv : w.Inv trace)
include inv

/-- Only a thread that starts changes its part by writing its stack. -/
theorem Inv.phased_setStack {s : ThreadStack} (may : (trace.custodies n).May (.state (.setStack s)))
    (runtimes : w'.image.runtimes = w.image.runtimes) : w'.Phased (.answered n t (.state (.setStack s)) () :: trace) := by
  cases may.2 with
  | @main h seen held role _ shape =>
    subst shape
    have same : (trace.custodies n).after (.state (.setStack ⟨h.region.top,some h⟩)) () =
        { trace.custodies n with hand := .installed h, seen := some ⟨h.region.top,some h⟩ } := by
      simp [Custody.after,Custody.write,held,role]
    refine inv.phased.learn (c := (trace.custodies n).after _ _) rfl runtimes ?_ ?_ ?_ ?_
    all_goals rw [same]
    · exact id
    · exact inv.phased.learned
    · exact inv.phased.lookup
    · rintro _ ⟨⟩
      exact ⟨false,role⟩
  | @arrival h seen held role learned saw none shape =>
    subst shape
    have same : (trace.custodies n).after (.state (.setStack ⟨h.region.top,some h⟩)) () =
        { trace.custodies n with hand := .empty, role := .arming, seen := some ⟨h.region.top,some h⟩ } := by
      simp [Custody.after,Custody.write,held,role]
    refine inv.phased.learn (c := (trace.custodies n).after _ _) rfl runtimes ?_ ?_ ?_ ?_
    all_goals rw [same]
    · simp
    · exact inv.phased.learned
    · exact inv.phased.lookup
    · simp
  | @detach h seen installed _ _ shape =>
    subst shape
    have same : (trace.custodies n).after (.state (.setStack .empty)) () =
        { trace.custodies n with hand := .held h.mapping, seen := some .empty } := by
      simp [Custody.after,Custody.write,installed]
    refine inv.phased_quiet runtimes ?_ ?_ ?_ ?_
    all_goals rw [same]
    simp
  | @pass value seen empty role late saw shape =>
    subst shape
    refine inv.phased.learn (c := (trace.custodies n).after _ _) rfl runtimes ?_ ?_ ?_ ?_
    all_goals simp only [Custody.after,Custody.write,empty,role]
    · simp
    · exact inv.phased.learned
    · exact inv.phased.lookup
    · intro h
      split <;> simp

theorem Inv.phased_setPhase {rt : RuntimeId} {phase : Phase}
    (may : (trace.custodies n).May (.state (.setPhase rt phase))) :
    World.Phased (.answered n t (.state (.setPhase rt phase)) () :: trace)
      { w with image := (w.image.answer t (.setPhase rt phase)).2 } := by
  rcases may with ⟨role,empty,rfl⟩ | ⟨role,rfl,h,installed⟩
  · obtain ⟨busy,key⟩ := inv.phased.starting role
    refine inv.phased.advance rt rfl rfl ?_ (fun role' => inv.phased.starter role' role) ?_ ?_ ?_
      (fun found => found) rfl rfl ?_
    · simp [Ready,busy]
    · simp [Custody.after,Custody.setPhase]
    · simp
    · intro _
      simpa using key
    · simp [Custody.after,Custody.setPhase,empty]
  · obtain ⟨busy,key⟩ := inv.phased.starting role
    have same : (trace.custodies n).after (.state (.setPhase rt .ready)) () =
        { trace.custodies n with hand := .empty, role := .started h } := by
      simp [Custody.after,Custody.setPhase,installed]
    refine inv.phased.advance (c := (trace.custodies n).after _ _) rt rfl rfl ?_
      (fun role' => inv.phased.starter role' role) ?_ ?_ ?_ (fun found => found) ?_ ?_ ?_
    · simp [Ready,busy]
    · simp [same]
    · intro _ missing
      dsimp only at missing
      simp [missing] at key
    · simp
    · rw [same]
    · rw [same]
    · simp [same]

theorem Inv.phased_keepKey {rt : RuntimeId} {key : CleanupKey}
    (may : (trace.custodies n).May (.state (.keepKey rt key))) :
    World.Phased (.answered n t (.state (.keepKey rt key)) () :: trace)
      { w with image := (w.image.answer t (.keepKey rt key)).2 } := by
  obtain ⟨role,h,installed⟩ := may
  obtain ⟨busy,missing⟩ := inv.phased.starting role
  have none : (w.image.runtimes rt).key = none := by simpa using missing
  obtain ⟨kept,role'⟩ := inv.phased.installer installed
  refine inv.phased.advance rt rfl rfl ?_ (fun role' => inv.phased.starter role' role) ?_ ?_ ?_ ?_ rfl rfl ?_
  · simp [Ready,busy]
  · intro rt' kept' starting
    obtain ⟨rfl,rfl⟩ : rt = rt' ∧ true = kept' := by simpa [Custody.after] using starting
    exact ⟨rfl,busy,by simp [RuntimeState.keepKey,none]⟩
  · simp [RuntimeState.keepKey,busy]
  · simp [RuntimeState.keepKey,busy]
  · simp [none]
  · intro h' installed'
    have old : (trace.custodies n).hand = .installed h' := installed'
    obtain rfl : h = h' := by simpa [installed] using old
    obtain ⟨rfl,-⟩ : rt = h.owner ∧ _ := by simpa [role] using role'
    exact ⟨true,rfl⟩

/-- Whoever wins the exchange, wins alone. -/
theorem Inv.phased_exchangePhase {rt : RuntimeId} {expected desired : Phase}
    (may : (trace.custodies n).May (.state (.exchangePhase rt expected desired))) :
    World.Phased
      (.answered n t (.state (.exchangePhase rt expected desired))
        (w.image.answer t (.exchangePhase rt expected desired)).1 :: trace)
      { w with image := (w.image.answer t (.exchangePhase rt expected desired)).2 } := by
  obtain ⟨role,empty,rfl,rfl⟩ := may
  by_cases won : (w.image.runtimes rt).phase = .uninitialized
  · simp only [Image.answer,won,if_true]
    refine inv.phased.advance rt rfl rfl ?_ ?_ ?_ ?_ ?_ (fun found => found) rfl rfl ?_
    · simp [Ready,won]
    · intro k kept starting
      have busy := (inv.phased.starting starting).1
      simp [won] at busy
    · intro rt' kept starting
      obtain ⟨rfl,rfl⟩ : rt = rt' ∧ false = kept := by simpa [Custody.after] using starting
      exact ⟨rfl,rfl,by simp [inv.phased.keyless won]⟩
    · simp
    · simp
    · simp [Custody.after,empty]
  · simp only [Image.answer,won,if_false]
    exact inv.phased_quiet rfl rfl rfl rfl id

end

section
variable {n : Nat} {op : Operation} {call : StateCall} {next : call.Reply → Program op.Result} {below : List Frame}
  (inv : w.Inv trace) (here : w.frames t = ⟨n,op,.ask (.state call) next⟩ :: below)
include inv here

theorem Inv.phased_state :
    World.Phased (.answered n t (.state call) (w.image.answer t call).1 :: trace)
      { w with image := (w.image.answer t call).2 } := by
  have may := inv.may here
  cases call with
  | stack =>
    refine inv.phased_quiet rfl rfl rfl rfl ?_
    intro h installed
    simp only [Custody.after,Custody.read] at installed
    split at installed
    next h' was =>
      split at installed
      · simp only [Hand.installed.injEq] at installed
        rw [was,installed]
      · cases installed
    · exact installed
  | setStack s => exact inv.phased_setStack may rfl
  | setPhase rt phase => exact inv.phased_setPhase may
  | keepKey rt key => exact inv.phased_keepKey may
  | exchangePhase rt expected desired => exact inv.phased_exchangePhase may
  | phase rt =>
    by_cases found : (w.image.runtimes rt).phase = .ready
    · have same : (trace.custodies n).after (.state (.phase rt)) (w.image.runtimes rt).phase =
          { trace.custodies n with ready := rt :: (trace.custodies n).ready } := by
        simp [Custody.after,found]
      refine inv.phased.learn (c := (trace.custodies n).after _ _) rfl rfl ?_ ?_ ?_ ?_
      all_goals simp only [Image.answer,same]
      · exact id
      · intro rt' member
        rcases List.mem_cons.mp member with rfl | old
        · exact found
        · exact inv.phased.learned old
      · exact inv.phased.lookup
      · exact inv.phased.installer
    · refine inv.phased_quiet rfl ?_ ?_ ?_ ?_
      all_goals simp [Custody.after,Image.answer,found]
  | key rt =>
    refine inv.phased.learn rfl rfl ?_ inv.phased.learned ?_ inv.phased.installer
    · exact id
    · intro rt' key found
      simp only [Image.answer,Custody.after,Option.map_eq_some_iff] at found
      obtain ⟨key',known,same⟩ := found
      cases same
      exact known
  | store addr bytes =>
    have same : ∃ hand, (trace.custodies n).after (.state (.store addr bytes)) () =
        { trace.custodies n with hand := hand } ∧ ∀ h, hand = .installed h → (trace.custodies n).hand = .installed h := by
      simp only [Custody.after,Custody.store]
      split
      · exact ⟨_,rfl,by simp⟩
      · exact ⟨_,rfl,by simp⟩
      · exact ⟨_,rfl,fun _ => id⟩
    obtain ⟨hand,same,installed⟩ := same
    refine inv.phased_quiet rfl ?_ ?_ ?_ ?_
    all_goals simp only [Image.answer,same]
    exact installed _
  | load | verbosity | setVerbosity | environment | emit => exact inv.phased_quiet rfl rfl rfl rfl id

end

section
variable {n : Nat} {op : Operation} {q : Request} {next : q.Reply → Program op.Result} {below : List Frame}
  {reply : q.Reply} (inv : w.Inv trace) (here : w.frames t = ⟨n,op,.ask q next⟩ :: below)
include inv here

theorem Inv.phased_answer (answers : w.Answers t q reply w') : w'.Phased (.answered n t q reply :: trace) := by
  have may := inv.may here
  cases answers.change with
  | state call => exact inv.phased_state here
  | map | unmap | stuck | accept => exact inv.phased_quiet rfl rfl rfl rfl (by simp [Custody.after])
  | set =>
    refine inv.phased.learn rfl rfl ?_ inv.phased.learned inv.phased.lookup ?_
    · simp [Custody.after]
    · simp [Custody.after,Custody.forget,may.1]
  | nothing inert =>
    refine inv.phased_quiet rfl ?_ ?_ ?_ ?_
    all_goals rw [Custody.after_inert inert]
    · rfl
    · rfl
    · rfl
    · exact id

end

end GuardedStack.World
