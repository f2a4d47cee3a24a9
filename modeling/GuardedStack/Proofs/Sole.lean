import GuardedStack.Proofs.Acts
import GuardedStack.Proofs.Thrift

/-! Runs with one runtime in which every unmap works. No other runtime ever leaves its first state, and every
live mapping has a holder. -/
namespace GuardedStack.World

structure Sole (rt : RuntimeId) (trace : Trace) : Prop where
  calls : ∀ {n t op}, .called n t op ∈ trace → op.runtime? = some rt
  unmaps : ∀ {n t rt' addr len cause}, .answered n t (.mapper rt' (.unmap addr len)) (.error cause) ∉ trace

theorem Sole.mono {rt : RuntimeId} {trace trace' : Trace} (sole : Sole rt trace) (part : trace' ⊆ trace) :
    Sole rt trace' where
  calls member := sole.calls (part member)
  unmaps member := sole.unmaps (part member)

theorem Sole.earlier {rt : RuntimeId} {trace : Trace} {e : Event} (sole : Sole rt (e :: trace)) : Sole rt trace :=
  sole.mono (List.subset_cons_self e trace)

theorem Sole.cons {rt : RuntimeId} {trace : Trace} {e : Event} (sole : Sole rt trace)
    (calls : ∀ n t op, e = .called n t op → op.runtime? = some rt)
    (unmaps : ∀ n t rt' addr len cause, e ≠ .answered n t (.mapper rt' (.unmap addr len)) (.error cause)) :
    Sole rt (e :: trace) where
  calls member := by
    rcases List.mem_cons.mp member with same | earlier
    · exact calls _ _ _ same.symm
    · exact sole.calls earlier
  unmaps member := by
    rcases List.mem_cons.mp member with same | earlier
    · exact unmaps _ _ _ _ _ _ same.symm
    · exact sole.unmaps earlier

theorem Sole.turns {rt : RuntimeId} {t : ThreadId} {k : Nat} {s : Trace × World} (sole : Sole rt s.1) :
    Sole rt (turns (fun _ => false) t k s).1 := by
  apply turns_keep (P := fun later => Sole rt later.1) sole
  intro later e w sole took
  obtain ⟨n,op,q,next,below,-,-,rfl,-⟩ | ⟨n,op,result,below,-,rfl,-⟩ := turn_cases took
  · apply sole.cons (by simp)
    intro n' t' rt' addr len cause same
    cases q with
    | mapper rt call => cases call <;> cases same
    | state | host | enter => cases same
  · exact sole.cons (by simp) (by simp)

structure Alone (rt : RuntimeId) (trace : Trace) (w : World) : Prop where
  others : ∀ {rt'}, rt' ≠ rt → w.image.runtimes rt' = .fresh
  asking : ∀ {n rt'}, (trace.custodies n).role = .asking rt' → rt' = rt
  live : w.live = trace.untouched
  tight : (w.estate trace).Tight

variable {rt : RuntimeId} {trace : Trace} {w w' : World} {t : ThreadId}

theorem Alone.of_ready (alone : w.Alone rt trace) {rt' : RuntimeId} (ready : w.Ready rt') : rt' = rt := by
  by_contra other
  unfold Ready at ready
  rw [alone.others other] at ready
  cases ready

theorem Alone.of_starting (alone : w.Alone rt trace) (inv : w.Inv trace) {n : Nat} {rt' : RuntimeId} {kept : Bool}
    (role : (trace.custodies n).role = .starting rt' kept) : rt' = rt := by
  by_contra other
  have busy := (inv.phased.starting role).1
  rw [alone.others other] at busy
  cases busy

theorem Alone.of_key (alone : w.Alone rt trace) {rt' : RuntimeId} {key : CleanupKey}
    (found : (w.image.runtimes rt').key = some key) : rt' = rt := by
  by_contra other
  rw [alone.others other] at found
  cases found

/-- During an initialization no runtime is ready. -/
theorem Alone.unready (alone : w.Alone rt trace) (inv : w.Inv trace) {n : Nat} {rt' rt₀ : RuntimeId} {kept : Bool}
    (role : (trace.custodies n).role = .starting rt' kept) : ¬w.Ready rt₀ := by
  intro ready
  obtain rfl := alone.of_starting inv role
  obtain rfl := alone.of_ready ready
  have busy := (inv.phased.starting role).1
  rw [ready] at busy
  cases busy

/-- Before the runtime is ready, a thread has no stack but the one that its initialization installs. -/
theorem Alone.vacant (alone : w.Alone rt trace) (inv : w.Inv trace) {n : Nat} {rt' : RuntimeId} {m : Mapping}
    (role : (trace.custodies n).role = .starting rt' false) (held : (trace.custodies n).hand = .held m) :
    (w.image.threads t).holding = none := by
  obtain rfl := alone.of_starting inv role
  cases stack : (w.image.threads t).holding with
  | none => rfl
  | some h =>
    by_cases free : ∀ k, (trace.custodies k).hand ≠ .installed h
    · have ready : w.Ready h.owner := inv.pledged.stack (.stack (e := w.estate trace) stack free)
      exact absurd ready (alone.unready inv role)
    · obtain ⟨k,installed⟩ := not_forall_not.mp free
      obtain ⟨kept,role'⟩ := inv.phased.installer installed
      obtain rfl := alone.of_starting inv role'
      obtain rfl := inv.phased.starter role' role
      rw [held] at installed
      cases installed

theorem Alone.live_answer (alone : w.Alone rt trace) {n : Nat} {q : Request} {reply : q.Reply}
    (answers : w.Answers t q reply w') (sole : Sole rt (.answered n t q reply :: trace)) :
    w'.live = Trace.untouched (.answered n t q reply :: trace) := by
  have live := alone.live
  cases answers.change with
  | state | set | accept => exact live
  | map | unmap => exact congrArg _ live
  | stuck => exact absurd List.mem_cons_self sole.unmaps
  | nothing inert =>
    rw [Trace.untouched,untouched_inert inert]
    exact live

/-- No answer makes an operation ask for the initialization of a runtime. -/
theorem asking_of_after {c : Custody} {q : Request} {r : q.Reply} {rt : RuntimeId}
    (asking : (c.after q r).role = .asking rt) : c.role = .asking rt := by
  cases q with
  | enter entry arg => exact asking
  | mapper rt call =>
    cases call with
    | map len rights => cases r <;> exact asking
    | pageSize | protect | unmap => exact asking
  | host rt call =>
    cases call with
    | setCleanupValue key value => cases r <;> first | exact asking | cases asking
    | spawn call =>
      simp only [Custody.after] at asking
      split at asking <;> exact asking
    | stackLimit | defaultAttributes | requestedAttributes | installInterception | createCleanupKey => exact asking
  | state call =>
    cases call with
    | setStack s =>
      simp only [Custody.after,Custody.write] at asking
      split at asking <;> first | exact asking | cases asking
    | setPhase rt phase =>
      cases phase <;> simp only [Custody.after,Custody.setPhase] at asking
      · cases asking
      · cases asking
      · split at asking <;> first | exact asking | cases asking
    | store addr bytes =>
      simp only [Custody.after,Custody.store] at asking
      split at asking <;> exact asking
    | phase rt =>
      simp only [Custody.after] at asking
      split at asking <;> exact asking
    | exchangePhase rt expected desired =>
      simp only [Custody.after] at asking
      split at asking <;> first | exact asking | cases asking
    | keepKey => cases asking
    | stack | key | load | verbosity | setVerbosity | environment | emit => exact asking

theorem estate_move {h : Holding} {pointer : UInt64} (stack : (w.image.threads t).holding = some h) :
    (w.setStack t ⟨pointer,some h⟩).estate (.moved t pointer :: trace) = w.estate trace := by
  have stacked : (fun t' => ((w.setStack t ⟨pointer,some h⟩).image.threads t').holding) =
      fun t' => (w.image.threads t').holding := by
    funext t'
    by_cases mine : t' = t <;> simp [setStack,mine,stack]
  simp only [estate,stacked]
  rfl

section
variable {e : Event} {c : Custody} (inv : w.Inv trace)
  (taken : e.custodies trace.custodies = replace trace.custodies w.count c)
  (at_ : e.homes trace.homes = replace trace.homes w.count t) (untouched : e.untouched trace.untouched = trace.untouched)
  (empty : c.hand = .empty) (image : w'.image = w.image) (accepted : w'.accepted = w.accepted)
include inv taken at_ untouched empty image accepted

theorem Inv.tight_enter (tight : (w.estate trace).Tight) : (w'.estate (e :: trace)).Tight := by
  rw [inv.estate_enter taken at_ untouched empty image accepted]
  exact tight.enter inv.bare

theorem Inv.holds_enter {o : Holder} {m : Mapping} (holds : (w'.estate (e :: trace)).Holds o m) :
    (w.estate trace).Holds o m := by
  rw [inv.estate_enter taken at_ untouched empty image accepted] at holds
  exact holds.congr rfl rfl rfl rfl

end

theorem Alone.begin (alone : w.Alone rt trace) {e : Event} {n : Nat} {c : Custody}
    (taken : e.custodies trace.custodies = replace trace.custodies n c)
    (asking : ∀ {rt'}, c.role = .asking rt' → rt' = rt) (untouched : e.untouched trace.untouched = trace.untouched)
    (runtimes : w'.image.runtimes = w.image.runtimes) (live : w'.live = w.live)
    (tight : (w'.estate (e :: trace)).Tight) : w'.Alone rt (e :: trace) where
  others other := by rw [runtimes]; exact alone.others other
  asking {k rt'} role := by
    by_cases same : k = n
    · subst same
      exact asking (by simpa [Trace.custodies,taken] using role)
    · exact alone.asking (n := k) (by simpa [Trace.custodies,taken,same] using role)
  live := by rw [live,Trace.untouched,untouched,alone.live]
  tight := tight

section
variable {n : Nat} {op : Operation} {q : Request} {next : q.Reply → Program op.Result} {below : List Frame}
  {reply : q.Reply} (alone : w.Alone rt trace) (inv : w.Inv trace)
  (here : w.frames t = ⟨n,op,.ask q next⟩ :: below) (answers : w.Answers t q reply w')
include alone inv here answers

theorem Alone.others_answer {rt' : RuntimeId} (other : rt' ≠ rt) : w'.image.runtimes rt' = .fresh := by
  have may := inv.may here
  have before := alone.others other
  cases q with
  | mapper rt call | host rt call | enter entry arg => rwa [answers.foreign (by trivial)]
  | state call =>
    obtain ⟨-,rfl⟩ := answers
    cases call with
    | exchangePhase rt₀ expected desired =>
      obtain rfl := alone.asking may.1
      simp only [Image.answer]
      split
      · simpa [Image.setRuntime,other] using before
      · exact before
    | setPhase rt₀ phase =>
      have mine : rt₀ = rt := by
        rcases may with ⟨role,-⟩ | ⟨role,-⟩
        · exact alone.of_starting inv role
        · exact alone.of_starting inv role
      subst mine
      simpa [Image.answer,Image.setRuntime,other] using before
    | keepKey rt₀ key =>
      obtain rfl := alone.of_starting inv may.1
      simpa [Image.answer,Image.setRuntime,other] using before
    | _ => exact before

theorem Alone.answer (sole : Sole rt (.answered n t q reply :: trace)) :
    (w'.setFrames t (⟨n,op,next reply⟩ :: below)).Alone rt (.answered n t q reply :: trace) where
  others := alone.others_answer inv here answers
  asking {k rt'} role := by
    by_cases same : k = n
    · subst same
      refine alone.asking (n := k) (asking_of_after (q := q) (r := reply) ?_)
      simpa [Trace.custodies,Event.custodies] using role
    · exact alone.asking (n := k) (by simpa [Trace.custodies,Event.custodies,same] using role)
  live := by
    show w'.live = Trace.untouched (.answered n t q reply :: trace)
    exact alone.live_answer answers sole
  tight := by
    refine (inv.deed here answers).tight inv.exact_ alone.tight ?_
    intro rt' m role held
    exact alone.vacant inv role held

end
end GuardedStack.World
