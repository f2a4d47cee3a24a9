import GuardedStack.Proofs.Ownership

/-! What an answered request changes on its own thread: the part that the operation plays, the thread's stack and its
values of cleanup keys. -/
namespace GuardedStack.World

inductive Act (c c' : Custody) (t : ThreadId) (w w' : World) : Prop
  | quiet : (c'.role = c.role ∨ ¬c.role.Base ∧ ¬c'.role.Base) → w'.image.threads = w.image.threads →
      w'.values = w.values → Act c c' t w w'
  /-- The initialization of a runtime installs its region or takes it back. -/
  | stack {rt : RuntimeId} {kept : Bool} {s : ThreadStack} : c.role = .starting rt kept → c'.role = c.role →
      w'.image.threads = replace w.image.threads t s → w'.values = w.values → Act c c' t w w'
  | settle {h : Holding} {s : ThreadStack} : c.role = .arriving h → c'.role = .arming → s.holding = some h →
      w'.image.threads = replace w.image.threads t s → w'.values = w.values → Act c c' t w w'
  | arm {rt : RuntimeId} {key : CleanupKey} : c.role = .arming → c'.role = .settled → c.key = some (rt,key) →
      w'.image.threads = w.image.threads → w'.values = (w.setValue t (.cleanup rt key) armed).values → Act c c' t w w'
  | rearm {rt : RuntimeId} {key : CleanupKey} {value : UInt64} : c.role = .passing value →
      value < destructorRounds → c'.role = .settled → c.key = some (rt,key) → w'.image.threads = w.image.threads →
      w'.values = (w.setValue t (.cleanup rt key) (value + 1)).values → Act c c' t w w'
  | take {value : UInt64} : c.role = .passing value → destructorRounds ≤ value → c'.role = .settled →
      w'.image.threads = replace w.image.threads t .empty → w'.values = w.values → Act c c' t w w'

variable {trace : Trace} {w w' : World} {t : ThreadId} {n : Nat} {op : Operation} {below : List Frame}
  (inv : w.Inv trace)
include inv

section
variable {call : StateCall} {next : call.Reply → Program op.Result}
  (here : w.frames t = ⟨n,op,.ask (.state call) next⟩ :: below)
include here

theorem Inv.act_state :
    Act (trace.custodies n) ((trace.custodies n).after (.state call) (w.image.answer t call).1) t w
      { w with image := (w.image.answer t call).2 } := by
  have may := inv.may here
  cases call with
  | setStack s =>
    cases may.2 with
    | @main h seen held role _ shape =>
      refine .stack role ?_ rfl rfl
      simp [Custody.after,Custody.write,held,role,shape]
    | @arrival h seen held role _ _ _ shape =>
      refine .settle (s := s) role ?_ (by rw [shape]) rfl rfl
      simp [Custody.after,Custody.write,held,role]
    | @detach h seen installed _ _ shape =>
      obtain ⟨kept,role⟩ := inv.phased.installer installed
      refine .stack role ?_ rfl rfl
      simp [Custody.after,Custody.write,installed,shape,role]
    | @pass value seen empty role late _ shape =>
      refine .take role late ?_ (by rw [shape]; rfl) rfl
      simp [Custody.after,Custody.write,empty,role]
  | setPhase rt phase =>
    rcases may with ⟨role,empty,rfl⟩ | ⟨role,rfl,h,installed⟩
    · refine .quiet (.inr ⟨?_,?_⟩) rfl rfl
      · simp [role,Role.Base]
      · simp [Custody.after,Custody.setPhase,Role.Base]
    · refine .quiet (.inr ⟨?_,?_⟩) rfl rfl
      · simp [role,Role.Base]
      · simp [Custody.after,Custody.setPhase,installed,Role.Base]
  | keepKey rt key =>
    obtain ⟨role,-⟩ := may
    refine .quiet (.inr ⟨?_,?_⟩) rfl rfl
    · simp [role,Role.Base]
    · simp [Custody.after,Role.Base]
  | exchangePhase rt expected desired =>
    obtain ⟨role,-⟩ := may
    refine .quiet (.inr ⟨?_,?_⟩) ?_ rfl
    · simp [role,Role.Base]
    · simp only [Custody.after]
      split <;> simp [role,Role.Base]
    · simp only [Image.answer]
      split <;> rfl
  | stack => exact .quiet (.inl rfl) rfl rfl
  | store addr bytes =>
    refine .quiet (.inl ?_) rfl rfl
    simp only [Custody.after,Custody.store]
    split <;> rfl
  | phase rt =>
    refine .quiet (.inl ?_) rfl rfl
    simp only [Custody.after]
    split <;> rfl
  | key | load | verbosity | setVerbosity | environment | emit => exact .quiet (.inl rfl) rfl rfl

end

theorem Inv.act {q : Request} {next : q.Reply → Program op.Result} {reply : q.Reply}
    (here : w.frames t = ⟨n,op,.ask q next⟩ :: below) (answers : w.Answers t q reply w') :
    Act (trace.custodies n) ((trace.custodies n).after q reply) t w w' := by
  have may := inv.may here
  cases answers.change with
  | state call => exact inv.act_state here
  | map | unmap | stuck | accept => exact .quiet (.inl rfl) rfl rfl
  | set =>
    obtain ⟨-,found,⟨role,rfl⟩ | ⟨pass,role,early,rfl⟩⟩ := may
    · exact .arm role rfl found rfl rfl
    · exact .rearm role early rfl found rfl rfl
  | nothing inert =>
    rw [Custody.after_inert inert]
    exact .quiet (.inl rfl) rfl rfl

end GuardedStack.World
