import GuardedStack.Proofs.Order

/-! What an answered request means for the estate. The world keeps every promise that the discipline of custody
relies on, and what an operation does with the answer is one of a few deeds. -/
namespace GuardedStack.World

variable {trace : Trace} {w w' : World} {t : ThreadId}

theorem Inv.home (inv : w.Inv trace) {n : Nat} {op : Operation} {rest : Program op.Result} {below : List Frame}
    (here : w.frames t = ⟨n,op,rest⟩ :: below) : trace.homes n = t :=
  inv.orderly.home (f := ⟨n,op,rest⟩) (by simp [here])

section
variable {n : Nat} {op : Operation} {q : Request} {next : q.Reply → Program op.Result} {below : List Frame}
  {reply : q.Reply} (inv : w.Inv trace) (here : w.frames t = ⟨n,op,.ask q next⟩ :: below)
include inv here

theorem Inv.may : (trace.custodies n).May q := by
  have tidy := inv.orderly.tidy t
  rw [here] at tidy
  exact tidy.1.1

/-- A thread's stack, as its innermost operation sees it, is not what that operation holds. -/
theorem Inv.expects (answers : w.Answers t q reply w') : (trace.custodies n).Expects q reply := by
  cases q with
  | enter entry arg => trivial
  | host rt call => trivial
  | mapper rt call =>
    cases call with
    | pageSize => exact answers.1
    | map len rights =>
      cases reply with
      | ok addr => exact answers.1
      | error cause => trivial
    | protect | unmap => trivial
  | state call =>
    obtain ⟨rfl,-⟩ := answers
    cases call with
    | stack =>
      refine ⟨inv.orderly.sound t,fun s seen => inv.orderly.seen here id seen,?_⟩
      intro m h held stack
      exact inv.exact_.stack_addr_ne (e := w.estate trace) held stack
    | key rt => exact fun ready => inv.phased.keyed (inv.phased.learned ready)
    | load addr count =>
      rintro h placed rfl
      exact (inv.exact_.placed (e := w.estate trace) placed).bytes
    | setStack | phase | exchangePhase | setPhase | keepKey | store | verbosity | setVerbosity | environment
      | emit => trivial

end

theorem estate_answered {n : Nat} {q : Request} {reply : q.Reply} :
    w'.estate (.answered n t q reply :: trace) = { w'.estate trace with
      live := Event.untouched (.answered n t q reply) trace.untouched
      hands := replace (w'.estate trace).hands n ((trace.custodies n).after q reply).hand } := by
  simp only [estate,Trace.untouched,Trace.homes,Trace.custodies,Event.homes,Event.custodies]
  congr
  funext k
  simp only [replace]
  split <;> rfl


section
variable {ready : RuntimeId → Prop} {n : Nat} {q : Request} {reply : q.Reply}

theorem deed_rest (same : w'.estate trace = w.estate trace)
    (untouched : Event.untouched (.answered n t q reply) trace.untouched = trace.untouched)
    (hand : ((trace.custodies n).after q reply).hand = (trace.custodies n).hand) :
    Estate.Deed ready (trace.custodies n) n t (w.estate trace) (w'.estate (.answered n t q reply :: trace)) := by
  have unmoved : replace (w.estate trace).hands n ((trace.custodies n).after q reply).hand =
      (w.estate trace).hands := by
    funext k
    by_cases other : k = n <;> simp [other,estate,hand]
  rw [estate_answered,same,untouched,unmoved]
  exact .rest

end

section
variable {n : Nat} {op : Operation} {below : List Frame} (inv : w.Inv trace)
include inv

/-- Beneath what a thread runs for its own sake nothing is installed. -/
theorem Inv.base_free {rest : Program op.Result} (here : w.frames t = ⟨n,op,rest⟩ :: below)
    (base : (trace.custodies n).role.Base) (empty : (trace.custodies n).hand = .empty) {k : Nat} {h : Holding}
    (stack : (w.image.threads t).holding = some h) : (trace.custodies k).hand ≠ .installed h := by
  intro installed
  have home : trace.homes k = t := inv.exact_.installed (e := w.estate trace) installed stack
  obtain ⟨f,member,number⟩ := inv.orderly.busy (n := k) (by simp [installed])
  have tidy := inv.orderly.tidy t
  rw [here] at tidy
  rw [home,here,tidy.2.2.1 base,List.mem_singleton] at member
  subst member number
  simp [empty] at installed

variable {call : StateCall} {next : call.Reply → Program op.Result}
  (here : w.frames t = ⟨n,op,.ask (.state call) next⟩ :: below)
include here

theorem Inv.deed_state :
    Estate.Deed (World.Ready { w with image := (w.image.answer t call).2 }) (trace.custodies n) n t (w.estate trace)
      (World.estate (.answered n t (.state call) (w.image.answer t call).1 :: trace)
        { w with image := (w.image.answer t call).2 }) := by
  have may := inv.may here
  have home : trace.homes n = t := inv.home here
  have known {s} (seen : (trace.custodies n).seen = some s) : w.image.threads t = s :=
    inv.orderly.seen here id seen
  cases call with
  | stack =>
    by_cases lost : ∃ h, (trace.custodies n).hand = .installed h ∧ (w.image.threads t).region ≠ some h.region
    · obtain ⟨h,installed,replaced⟩ := lost
      have hand : ((trace.custodies n).after (.state .stack) (w.image.threads t)).hand = .held h.mapping := by
        simp [Custody.after,Custody.read,installed,replaced]
      rw [estate_answered]
      simp only [Image.answer,hand]
      refine .lose installed ?_
      show (w.image.threads (trace.homes n)).holding ≠ some h
      rw [home]
      intro stack
      exact replaced (by simp [ThreadStack.region,stack])
    · refine deed_rest rfl rfl ?_
      show ((trace.custodies n).read (w.image.threads t)).hand = _
      unfold Custody.read
      split
      next h installed =>
        have same : (w.image.threads t).region = some h.region := by
          by_contra replaced
          exact lost ⟨h,installed,replaced⟩
        simp [same,installed]
      · rfl
  | setStack s =>
    have threads (s : ThreadStack) : (fun t' => (replace w.image.threads t s t').holding) =
        replace (fun t' => (w.image.threads t').holding) t s.holding := by
      funext t'
      simp only [replace]
      split <;> rfl
    have written : World.estate (.answered n t (.state (.setStack s)) () :: trace)
        { w with image := (w.image.answer t (.setStack s)).2 } =
        ((w.estate trace).setHand n ((trace.custodies n).write s).hand).setStack t s.holding := by
      rw [estate_answered]
      simp only [Image.answer,estate,threads]
      rfl
    rw [written]
    cases may.2 with
    | @main h seen held role _ shape =>
      subst shape
      simp only [Custody.write,held,role]
      exact .install role held home
    | @arrival h seen held role learned saw none shape =>
      subst shape
      simp only [Custody.write,held,role]
      refine .settle role (inv.phased.learned learned) ?_ held
      show (w.image.threads t).holding = _
      rwa [known saw]
    | @detach h seen installed _ _ shape =>
      subst shape
      simp only [Custody.write,installed]
      exact .detach installed home
    | @pass value seen empty role late saw shape =>
      subst shape
      have hand : ((trace.custodies n).write .empty).hand = Estate.taken ((w.estate trace).stacked t) := by
        simp only [Custody.write,empty,role,saw,estate,known saw]
        rfl
      rw [hand]
      exact .take role late (fun k h stack => inv.base_free here (by simp [role,Role.Base]) empty stack) empty
  | setPhase rt phase =>
    rcases may with ⟨role,empty,rfl⟩ | ⟨role,rfl,h,installed⟩
    · exact deed_rest rfl rfl rfl
    · obtain ⟨kept,role'⟩ := inv.phased.installer installed
      obtain ⟨rfl,rfl⟩ : rt = h.owner ∧ true = kept := by simpa [role] using role'
      rw [estate_answered]
      simp only [Custody.after,Custody.setPhase,installed]
      exact .keep role (by simp [Ready,Image.answer,Image.setRuntime]) installed
  | store addr bytes =>
    rw [estate_answered]
    cases may with
    | @place h held learned sits shape =>
      subst shape
      simp only [Custody.after,Custody.store,held,Handoff.decode_encode]
      exact .place (inv.phased.learned learned) held sits
    | @blank h placed shape =>
      subst shape
      simp only [Custody.after,Custody.store,placed]
      exact .blank placed
  | phase rt =>
    refine deed_rest rfl rfl ?_
    simp only [Custody.after]
    split <;> rfl
  | exchangePhase rt expected desired =>
    refine deed_rest ?_ rfl ?_
    · simp only [Image.answer]
      split <;> rfl
    · simp only [Custody.after]
      split <;> rfl
  | keepKey | key | load | verbosity | setVerbosity | environment | emit => exact deed_rest rfl rfl rfl

end

section
variable {n : Nat} {q : Request} {reply : q.Reply} {op : Operation} {next : q.Reply → Program op.Result} {below : List Frame}
  (inv : w.Inv trace) (here : w.frames t = ⟨n,op,.ask q next⟩ :: below)
include inv here

/-- What one answered request does to the estate. -/
theorem Inv.deed (answers : w.Answers t q reply w') :
    Estate.Deed w'.Ready (trace.custodies n) n t (w.estate trace) (w'.estate (.answered n t q reply :: trace)) := by
  have may := inv.may here
  cases answers.change with
  | state call => exact inv.deed_state here
  | map proper apart =>
    rw [estate_answered]
    exact .map may.1 (fun m member => apart m (inv.mapped member)) may.2.1
  | @unmap rt addr len | @stuck rt addr len =>
    rw [estate_answered]
    exact .unmap (m := ⟨rt,addr,len⟩) may
  | set => exact deed_rest rfl rfl rfl
  | accept =>
    obtain ⟨-,h,placed⟩ := may
    rw [estate_answered]
    exact .accept placed
  | nothing inert =>
    refine deed_rest rfl (untouched_inert inert) ?_
    rw [Custody.after_inert inert]
    rfl

end

end GuardedStack.World
