import GuardedStack.Proofs.Account
import GuardedStack.Proofs.Ownership

/-! An initialization that fails. If its unmap call works, everything is as it was before, with one exception: once the
new region was installed, the thread ends without any stack, whatever it had before. -/
namespace GuardedStack

/-- A host was asked to intercept the creation of threads. -/
def Event.intercepts : Event → Bool
  | answered _ _ (.host _ .installInterception) _ => true
  | _ => false

def Event.unmapFails : Event → Bool
  | answered _ _ (.mapper _ (.unmap _ _)) (.error _) => true
  | _ => false

namespace World

variable {trace log : Trace} {w w' : World} {t : ThreadId} {n : Nat} {rt : RuntimeId}

/-- The operation `n` goes on, and nothing else does. -/
inductive Solo (n : Nat) (t : ThreadId) (w : World) : Trace → World → Prop
  | nil : Solo n t w [] w
  | step {log w' q reply w''} : Solo n t w log w' → Step w' (.answered n t q reply) w'' →
      Solo n t w (.answered n t q reply :: log) w''

def account (w : World) (t : ThreadId) (asked : Bool) : Account :=
  ⟨w.image.threads t,w.image.runtimes,w.live,asked⟩

/-- The account follows what happens to the world. -/
theorem Answers.account {q : Request} {reply : q.Reply} (answers : w.Answers t q reply w') (asked : Bool)
    (works : (Event.answered n t q reply).unmapFails = false) :
    (w.account t asked).Expects q reply ∧
      w'.account t ((Event.answered n t q reply).intercepts || asked) = (w.account t asked).after q reply := by
  cases q with
  | enter entry arg =>
    obtain rfl : w' = w := answers
    exact ⟨trivial,rfl⟩
  | mapper rt call =>
    cases call with
    | pageSize =>
      obtain ⟨large,rfl⟩ := answers
      exact ⟨large,rfl⟩
    | protect addr len rights =>
      obtain rfl : w' = w := answers
      exact ⟨trivial,rfl⟩
    | map len rights =>
      cases reply with
      | ok addr =>
        obtain ⟨proper,apart,rfl⟩ := answers
        exact ⟨⟨proper,apart⟩,rfl⟩
      | error cause =>
        obtain rfl : w' = w := answers
        exact ⟨trivial,rfl⟩
    | unmap addr len =>
      cases reply with
      | ok done =>
        obtain rfl : w' = { w with live := w.live.filter (· ≠ ⟨rt,addr,len⟩) } := answers
        exact ⟨trivial,rfl⟩
      | error cause => cases works
  | host rt call =>
    refine ⟨by trivial,?_⟩
    cases call with
    | setCleanupValue key value =>
      cases reply with
      | ok done => rw [show w' = _ from answers]; rfl
      | error cause => rw [show w' = w from answers]; rfl
    | spawn call =>
      rw [show w' = _ from answers]
      split <;> rfl
    | _ => rw [show w' = w from answers]; rfl
  | state call =>
    obtain ⟨rfl,rfl⟩ := answers
    cases call with
    | setStack s => simp [World.account,Account.after,Account.Expects,Image.answer,Event.intercepts]
    | exchangePhase rt expected desired =>
      simp only [World.account,Account.after,Account.Expects,Image.answer,Event.intercepts]
      split <;> simp_all [Account.setRuntime,Image.setRuntime]
    | stack => exact ⟨rfl,rfl⟩
    | _ => exact ⟨trivial,rfl⟩

/-- What an operation that goes on alone has come to, and what is left of it. -/
theorem Solo.account {op : Operation} {p : Program op.Result} {below : List Frame} {post : Account → op.Result → Prop}
    (solo : Solo n t w log w') (here : w.frames t = ⟨n,op,p⟩ :: below)
    (follows : p.Follows accounting post (w.account t false)) (works : log.any Event.unmapFails = false) :
    ∃ p' : Program op.Result, w'.frames t = ⟨n,op,p'⟩ :: below ∧
      p'.Follows accounting post (w'.account t (log.any Event.intercepts)) ∧
      ∀ t', t' ≠ t → w'.image.threads t' = w.image.threads t' := by
  induction solo with
  | nil => exact ⟨p,here,follows,fun _ _ => rfl⟩
  | @step log w' q reply w'' solo step ih =>
    obtain ⟨now,earlier⟩ := Bool.or_eq_false_iff.mp works
    obtain ⟨p',here',follows',others⟩ := ih earlier
    cases step with
    | @answer _ _ op' _ next rest _ w₁ there answers =>
      rw [here'] at there
      injection there with same below'
      cases same
      subst below'
      obtain ⟨expects,after⟩ := answers.account (log.any Event.intercepts) now
      refine ⟨next reply,by simp [setFrames],?_,?_⟩
      · exact follows'.2 reply _ ⟨expects,after⟩
      · intro t' other
        rw [← others t' other]
        rcases answers.threads with same | ⟨s,rfl,same⟩
        · simp [setFrames,same]
        · simp [setFrames,same,other]

theorem Inv.backed (inv : w.Inv trace) {h : Holding} (stack : (w.image.threads t).holding = some h) :
    h.mapping ∈ w.live := by
  obtain ⟨o,holds,-⟩ := Estate.Holds.of_stack (e := w.estate trace) stack
  exact inv.mapped (inv.exact_.held holds)

/-- If an initialization that nothing else interrupts fails and its unmap calls work, then the runtimes, all mappings
and the other threads are as before. The thread's own stack is as before if no host was asked to intercept the creation
of threads, and is empty if one was. -/
theorem Run.failed_start {cause : Fault} (run : Run trace w) (solo : Solo w.count t (w.push t (.start rt)) log w')
    (failed : w'.frames t = ⟨w.count,.start rt,.done (.error cause)⟩ :: w.frames t)
    (works : log.any Event.unmapFails = false) :
    w'.image.runtimes = w.image.runtimes ∧ w'.live = w.live ∧
      (∀ t', t' ≠ t → w'.image.threads t' = w.image.threads t') ∧
      (w'.image.threads t = if log.any Event.intercepts then .empty else w.image.threads t) ∧
      (w'.image.threads t = w.image.threads t ↔ log.any Event.intercepts = false ∨ w.image.threads t = .empty) := by
  have backed : (w.account t false).Backed := fun h => run.inv.backed
  have here : (w.push t (.start rt)).frames t = ⟨w.count,.start rt,Operation.program (.start rt)⟩ :: w.frames t := by
    simp [push,setFrames]
  obtain ⟨p,there,ends,others⟩ := solo.account here (Startup.attempt_account backed) works
  rw [failed] at there
  injection there with same
  cases same
  have ends : w'.account t (log.any Event.intercepts) = w.account t false ∨
      w'.account t (log.any Event.intercepts) = { w.account t false with stack := .empty, asked := true } := ends
  rcases ends with same | same
  · injection same with stack runtimes live asked
    exact ⟨runtimes,live,others,by simp [asked,stack],by simp [asked,stack]⟩
  · injection same with stack runtimes live asked
    exact ⟨runtimes,live,others,by simp [asked,stack],by simp [asked,stack,eq_comm]⟩

/-- The thread's innermost operation gets its answers until it ends. -/
def answered (refuses : Request → Bool) (t : ThreadId) : Nat → Trace × World → Trace × World
  | 0, s => s
  | k + 1, s =>
    match s.2.frames t with
    | ⟨n,op,.ask q next⟩ :: below =>
      answered refuses t k (.answered n t q (s.2.grant refuses t q).1 :: s.1,
        (s.2.grant refuses t q).2.setFrames t (⟨n,op,next (s.2.grant refuses t q).1⟩ :: below))
    | _ => s

theorem Solo.answered {refuses : Request → Bool} {k : Nat} {s : Trace × World} (solo : Solo n t w s.1 s.2)
    (here : ∀ f below, s.2.frames t = f :: below → f.number = n) :
    Solo n t w (World.answered refuses t k s).1 (World.answered refuses t k s).2 := by
  induction k generalizing s with
  | zero => exact solo
  | succ k ih =>
    unfold World.answered
    split
    next n' op q next below asks =>
      obtain rfl : n' = n := here _ _ asks
      apply ih
      · exact solo.step (.answer asks (s.2.grant_answers refuses t q))
      · intro f below' first
        have first : ⟨n',op,next (s.2.grant refuses t q).1⟩ :: below = f :: below' := by
          simpa [setFrames] using first
        cases first
        rfl
    · exact solo

/-- The main thread has initialized one runtime and asks for another, whose host does not intercept. -/
def settled : Trace × World := perform (fun _ => false) 0 (.start ⟨1⟩) ([],first)

def unsettled : Trace × World :=
  answered (fun q => match q with
    | .host _ .installInterception => true
    | _ => false) 0 40 ([],settled.2.push 0 (.start ⟨2⟩))

theorem settled_going : Going settled := first_going.perform (by simp [first]) trivial rfl

theorem settled_run : Run settled.1 settled.2 := settled_going.run

theorem unsettled_failed_start : unsettled.2.live = settled.2.live ∧ unsettled.2.image.threads 0 = .empty ∧
    settled.2.image.threads 0 ≠ .empty := by
  have solo : Solo settled.2.count 0 (settled.2.push 0 (.start ⟨2⟩)) unsettled.1 unsettled.2 := by
    apply Solo.answered .nil
    intro f below first
    cases first
    rfl
  have ended : unsettled.2.frames 0 =
      ⟨settled.2.count,.start ⟨2⟩,.done (.error .interceptionFailed)⟩ :: settled.2.frames 0 := rfl
  obtain ⟨-,live,-,emptied,-⟩ := settled_run.failed_start solo ended rfl
  exact ⟨live,emptied,by decide⟩

end World
end GuardedStack
