import GuardedStack.Proofs.Conduct
import GuardedStack.Proofs.Estate

/-! What a run has come to: the custody and the thread of each operation, the mappings that no unmap call was made
for, and the estate that these make up together with the world. The books are in order if threads, runtimes and
the estate agree with what each operation may still do. -/
namespace GuardedStack

/-- Of an operation that has not begun. -/
def Custody.idle : Custody := ⟨.empty,.plain,none,[],none⟩

namespace Event

def custodies (e : Event) (before : Nat → Custody) : Nat → Custody :=
  match e with
  | called n _ op => replace before n (.ofOperation op)
  | began n _ call record => replace before n (.ofRecord call.arg record)
  | answered n _ q reply => replace before n ((before n).after q reply)
  | fired n _ _ _ value s => replace before n (.ofValue value s)
  | _ => before

def homes (e : Event) (before : Nat → ThreadId) : Nat → ThreadId :=
  match e with
  | called n t _ | began n t _ _ | fired n t _ _ _ _ => replace before n t
  | _ => before

def untouched (e : Event) (before : List Mapping) : List Mapping :=
  match e with
  | answered _ _ (.mapper rt (.map len _)) (.ok addr) => ⟨rt,addr,len⟩ :: before
  | answered _ _ (.mapper rt (.unmap addr len)) _ => before.filter (· ≠ ⟨rt,addr,len⟩)
  | _ => before

end Event

namespace World

namespace Trace

def custodies : Trace → Nat → Custody
  | [] => fun _ => .idle
  | e :: earlier => e.custodies (custodies earlier)

def homes : Trace → Nat → ThreadId
  | [] => fun _ => 0
  | e :: earlier => e.homes (homes earlier)

def untouched : Trace → List Mapping
  | [] => []
  | e :: earlier => e.untouched (untouched earlier)

theorem untouched_of_mem {m : Mapping} {trace : Trace} (member : m ∈ trace.untouched) : Untouched m trace := by
  induction trace with
  | nil => simp [untouched] at member
  | cons e earlier ih =>
    simp only [untouched,Event.untouched] at member
    split at member
    · rcases List.mem_cons.mp member with rfl | old
      · exact .inl rfl
      · exact .inr ⟨by simp [Event.Unmaps],ih old⟩
    · obtain ⟨old,other⟩ := List.mem_filter.mp member
      exact .inr ⟨by simpa [Event.Unmaps] using other,ih old⟩
    next maps unmaps =>
      refine .inr ⟨?_,ih member⟩
      unfold Event.Unmaps
      split
      · exact absurd rfl (unmaps _ _ _ _ _ _)
      · exact id

end Trace

def estate (trace : Trace) (w : World) : Estate where
  live := trace.untouched
  memory := w.image.memory
  records := w.accepted
  stacked t := (w.image.threads t).holding
  hands n := (trace.custodies n).hand
  homes := trace.homes

/-- A thread's operations, the innermost first. Those beneath wait, and what a thread runs for its own sake has
nothing beneath. -/
def Tidy (custodies : Nat → Custody) : List Frame → Prop
  | [] => True
  | f :: below => f.rest.Follows custody f.operation.Ends (custodies f.number) ∧
      (∀ g ∈ below, g.Waits ∧ g.number ≠ f.number) ∧ ((custodies f.number).role.Base → below = []) ∧
      Tidy custodies below

structure Orderly (trace : Trace) (w : World) : Prop where
  fresh : ∀ n, w.count ≤ n → trace.custodies n = .idle
  old : ∀ {t f}, f ∈ w.frames t → f.number < w.count
  home : ∀ {t f}, f ∈ w.frames t → trace.homes f.number = t
  tidy : ∀ t, Tidy trace.custodies (w.frames t)
  seen : ∀ {t f below s}, w.frames t = f :: below → ¬f.Waits → (trace.custodies f.number).seen = some s →
    w.image.threads t = s
  /-- Only an operation in progress has anything in its hand. -/
  busy : ∀ {n}, (trace.custodies n).hand ≠ .empty → ∃ f ∈ w.frames (trace.homes n), f.number = n
  sound : ∀ t, (w.image.threads t).Sound
  unborn : ∀ {t}, w.lives t = .unborn → w.image.threads t = .empty ∧ w.frames t = []
  routine : ∀ call ∈ w.accepted, call.start = .fromRecord

structure Phased (trace : Trace) (w : World) : Prop where
  starting : ∀ {n rt kept}, (trace.custodies n).role = .starting rt kept →
    (w.image.runtimes rt).phase = .initializing ∧ kept = (w.image.runtimes rt).key.isSome
  starter : ∀ {n n' rt kept kept'}, (trace.custodies n).role = .starting rt kept →
    (trace.custodies n').role = .starting rt kept' → n = n'
  learned : ∀ {n rt}, rt ∈ (trace.custodies n).ready → (w.image.runtimes rt).phase = .ready
  keyed : ∀ {rt}, (w.image.runtimes rt).phase = .ready → (w.image.runtimes rt).key ≠ none
  keyless : ∀ {rt}, (w.image.runtimes rt).phase = .uninitialized → (w.image.runtimes rt).key = none
  lookup : ∀ {n rt key}, (trace.custodies n).key = some (rt,key) → (w.image.runtimes rt).key = some key
  installer : ∀ {n h}, (trace.custodies n).hand = .installed h →
    ∃ kept, (trace.custodies n).role = .starting h.owner kept

def Ready (w : World) (rt : RuntimeId) : Prop := (w.image.runtimes rt).phase = .ready

structure Inv (trace : Trace) (w : World) : Prop where
  orderly : w.Orderly trace
  phased : w.Phased trace
  exact_ : (w.estate trace).Exact
  pledged : (w.estate trace).Pledged w.Ready
  mapped : trace.untouched ⊆ w.live

end World
end GuardedStack
