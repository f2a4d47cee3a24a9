import GuardedStack.Proofs.Retry
import GuardedStack.Proofs.Shift

/-! Threads that spawn threads, in any order of their steps. A step is a whole operation: a spawn, all that a new thread does
in the library, or one call of the destructor. Each thread makes its steps in its own order, no call fails, and what the
mapper gives is not determined. A log keeps what each thread does and sees, with addresses counted from the start of the
mapping concerned. -/
namespace GuardedStack

open Program Attempt

/-- A thread's place in the tree: the numbers of the spawns that lead to it, the last one first. -/
abbrev Place := List Nat

/-- A thread that is to be spawned. -/
structure Job where
  handle : UInt64
  attr : Option AttributeRef
  entry : EntryPoint
  arg : UInt64

/-- The call of the primitive on a record at the address. -/
def Job.call (o : Job) (addr : UInt64) : SpawnCall := ⟨o.handle,o.attr,.fromRecord,addr⟩

/-- What is fixed beforehand: a runtime that is ready, what its surroundings reply, and what each thread spawns. -/
structure Plan where
  runtime : RuntimeId
  key : CleanupKey
  page : UInt64
  attributes : Option AttributeRef → StackAttributes
  results : EntryPoint → UInt64 → UInt64
  /-- What each thread spawns, in order. -/
  jobs : Place → List Job
  paged : PageSize page

namespace Plan

/-- What a place's thread is spawned for; nobody spawns the first one. -/
def job (plan : Plan) : Place → Option Job
  | [] => none
  | i :: p => (plan.jobs p)[i]?

/-- No call fails, and mappings start at page boundaries. -/
def Fair (plan : Plan) : (q : Request) → q.Reply → Prop
  | .mapper _ .pageSize, size => size = plan.page
  | .mapper _ (.map _ _), reply => ∃ start, reply = .ok start ∧ plan.page.toNat ∣ start.toNat
  | .mapper _ (.protect _ _ _), reply => reply = .ok ()
  | .mapper _ (.unmap _ _), reply => reply = .ok ()
  | .host _ .defaultAttributes, reply => reply = .ok (plan.attributes none)
  | .host _ (.requestedAttributes attr), reply => reply = .ok (plan.attributes (some attr))
  | .host _ (.setCleanupValue _ _), reply => reply = .ok ()
  | .host _ (.spawn _), code => code = 0
  | .enter entry arg, result => result = plan.results entry arg
  | _, _ => True

/-- A request of the thread is answered, and nothing fails. -/
def Answers (plan : Plan) (t : ThreadId) (x : Scene) (q : Request) (reply : q.Reply) (y : Scene) : Prop :=
  x.world.Answers t q reply y.world ∧ y.seams = x.seams ++ q.crossing reply ∧ plan.Fair q reply

/-- The thread goes on, and nothing else does. It may stop if that is allowed. -/
def alone (plan : Plan) (t : ThreadId) (stops : Prop) : Discipline Scene where
  may _ _ := True
  next := plan.Answers t
  ends _ := stops

end Plan

/-- What there is to see of a stack but for where it lies. The pointer counts from the start of the mapping. -/
structure View where
  usable : UInt64
  guard : UInt64
  owner : RuntimeId
  pointer : UInt64
  deriving DecidableEq

def ThreadStack.view (s : ThreadStack) : Option View :=
  s.holding.map fun h => ⟨h.region.usable,h.region.guard,h.owner,s.pointer - h.region.start⟩

/-- The call with addresses counted from `start`, those of records too. -/
def Exchange.relative (start : UInt64) : Exchange → Exchange
  | ⟨.host rt (.spawn call),code⟩ => ⟨.host rt (.spawn { call with arg := call.arg - start }),code⟩
  | e => e.from start

def Exchange.mapped? : Exchange → Option UInt64
  | ⟨.mapper _ (.map _ _),.ok start⟩ => some start
  | _ => none

def Exchange.spawned? : Exchange → Option SpawnCall
  | ⟨.host _ (.spawn call),_⟩ => some call
  | _ => none

/-- What is kept of a step: the value that the destructor was called with, the calls, and the thread's stack after it. -/
structure Entry where
  passed : Option UInt64
  calls : List Exchange
  view : Option View

def Operation.passed : Operation → Option UInt64
  | .destroy value => some value
  | _ => none

/-- Addresses count from the start of a new mapping, or else of the thread's own. -/
def Entry.ofStep (op : Operation) (said : List Exchange) (before after : ThreadStack) : Entry where
  passed := op.passed
  calls := said.map (Exchange.relative ((said.findSome? Exchange.mapped?).getD ((before.region.map Region.start).getD 0)))
  view := after.view

/-- A thread that was spawned has to start before it does anything else. -/
def Place.lead (p : Place) : Nat := if p = [] then 0 else 1

structure Crew where
  world : World
  /-- The calls that hosts have agreed to. -/
  posted : Place → Option SpawnCall
  /-- What each thread has done, the oldest first. -/
  log : Place → List Entry

namespace Crew

/-- The number of a thread's next spawn. -/
def spawned (c : Crew) (p : Place) : Nat := (c.log p).length - Place.lead p

/-- What a thread does next. It exits after its spawns, which goes on as long as its key has a value. -/
def due (plan : Plan) (thread : Place → ThreadId) (c : Crew) (p : Place) : Option Operation :=
  if p ≠ [] ∧ c.log p = [] then (c.posted p).map fun call => .body call.start call.arg
  else match (plan.jobs p)[c.spawned p]? with
    | some o => some (.spawn plan.runtime o.handle o.attr o.entry o.arg)
    | none =>
      let value := c.world.values (thread p) (.cleanup plan.runtime plan.key)
      if value = 0 then none else some (.destroy value)

/-- The world in which an operation begins: the value that a destructor is called with is taken away. -/
def begins (plan : Plan) (w : World) (t : ThreadId) : Operation → World
  | .destroy _ => w.setValue t (.cleanup plan.runtime plan.key) 0
  | _ => w

/-- The crew after a step, in which a thread may have been posted. -/
def advance (c : Crew) (p : Place) (t : ThreadId) (op : Operation) (said : List Exchange) (w : World) : Crew where
  world := w
  posted := (said.findSome? Exchange.spawned?).elim c.posted fun call => replace c.posted (c.spawned p :: p) (some call)
  log := replace c.log p (c.log p ++ [.ofStep op said (c.world.image.threads t) (w.image.threads t)])

inductive Step (plan : Plan) (thread : Place → ThreadId) (c : Crew) (p : Place) : Crew → Prop
  | mk {op result said w} : c.due plan thread p = some op →
      op.program.Yields (plan.Answers (thread p)) ⟨begins plan c.world (thread p) op,[]⟩ result ⟨w,said⟩ →
      Step plan thread c p (c.advance p (thread p) op said w)

def first (w : World) : Crew := ⟨w,fun _ => none,fun _ => []⟩

/-- A schedule names who makes the steps, the last one first. -/
inductive Run (plan : Plan) (thread : Place → ThreadId) (w : World) : List Place → Crew → Prop
  | nil : Run plan thread w [] (first w)
  | step {ps c p c'} : Run plan thread w ps c → Step plan thread c p c' → Run plan thread w (p :: ps) c'

end Crew

/-- The runtime is ready, and the first thread's key has no value. -/
structure Plan.Ready (plan : Plan) (w : World) (root : ThreadId) : Prop where
  runtime : w.image.runtimes plan.runtime = ⟨.ready,some plan.key⟩
  unset : w.values root (.cleanup plan.runtime plan.key) = 0

namespace Plan

/-- What the plan says of a thread's surroundings. -/
def site (plan : Plan) : Site where
  runtime := plan.runtime
  key := plan.key
  page := plan.page
  attributes := plan.attributes
  results := plan.results
  offers live m := m.Proper ∧ (∀ m' ∈ live, m.Apart m') ∧ plan.page.toNat ∣ m.addr.toNat
  paged := plan.paged
  proper offered := offered.1
  even offered := Nat.dvd_trans plan.paged.dvd offered.2.2

/-- A world since a step began, as the step's own account has it; nothing of the other threads has changed. -/
structure Synced (plan : Plan) (t : ThreadId) (w : World) (x : Scene) (y : Shift) : Prop where
  threads : x.world.image.threads = replace w.image.threads t y.stack
  value : x.world.values t (.cleanup plan.runtime plan.key) = y.value
  values : ∀ t', t' ≠ t → x.world.values t' = w.values t'
  memory : x.world.image.memory = y.memory
  runtimes : x.world.image.runtimes = w.image.runtimes
  live : x.world.live = y.live
  seams : x.seams = y.calls

/-- What a thread begins a step with. -/
def shift (plan : Plan) (w : World) (t : ThreadId) : Shift where
  stack := w.image.threads t
  value := w.values t (.cleanup plan.runtime plan.key)
  memory := w.image.memory
  live := w.live
  calls := []

variable {plan : Plan} {t : ThreadId} {w : World} {x x' : Scene} {y : Shift} {stops : Prop}

theorem synced_shift : plan.Synced t w ⟨w,[]⟩ (plan.shift w t) :=
  ⟨(replace_self _ _).symm,rfl,fun _ _ => rfl,rfl,rfl,rfl,rfl⟩

/-- Only what concerns the thread counts in the library's state. -/
theorem Synced.image (synced : plan.Synced t w x y) {image : Image} {stack : ThreadStack} {memory : Memory}
    (threads : image.threads = replace w.image.threads t stack) (bytes : image.memory = memory)
    (runtimes : image.runtimes = x.world.image.runtimes) :
    plan.Synced t w ⟨{ x.world with image := image },x.seams ++ []⟩ { y with stack := stack, memory := memory } :=
  { synced with
    threads := threads
    memory := bytes
    runtimes := runtimes.trans synced.runtimes
    seams := (List.append_nil _).trans synced.seams }

/-- A call after which at most the mappings are other ones. -/
theorem Synced.call (synced : plan.Synced t w x y) (e : Exchange) {world : World} {live : List Mapping}
    (image : world.image = x.world.image) (values : world.values = x.world.values) (after : world.live = live) :
    plan.Synced t w ⟨world,x.seams ++ [e]⟩ (Shift.tell { y with live := live } [e]) where
  threads := image ▸ synced.threads
  value := values ▸ synced.value
  values := values ▸ synced.values
  memory := image ▸ synced.memory
  runtimes := image ▸ synced.runtimes
  live := after
  seams := congrArg (· ++ [e]) synced.seams

theorem Synced.next {grants : List Exchange → Request → Prop} {q : Request} {reply : q.Reply}
    (ready : w.image.runtimes plan.runtime = ⟨.ready,some plan.key⟩) (synced : plan.Synced t w x y)
    (may : plan.site.May grants y q) (answers : plan.Answers t x q reply x') :
    plan.site.Expects y q reply ∧ plan.Synced t w x' (y.after q reply) := by
  have runtimes := (congrFun synced.runtimes plan.runtime).trans ready
  have stack : x.world.image.threads t = y.stack := (congrFun synced.threads t).trans (replace_same ..)
  obtain ⟨v,said⟩ := x'
  obtain ⟨answers,rfl,fair⟩ := answers
  cases q with
  | state call =>
    obtain ⟨rfl,rfl⟩ := answers
    rw [Shift.after_state]
    cases call with
    | stack => exact ⟨stack,synced.image synced.threads synced.memory rfl⟩
    | setStack stack => exact ⟨trivial,synced.image (by simp [Image.answer,synced.threads]) synced.memory rfl⟩
    | phase rt =>
      exact ⟨fun own => by subst own; exact congrArg RuntimeState.phase runtimes,
        synced.image synced.threads synced.memory rfl⟩
    | key rt =>
      exact ⟨fun own => by subst own; exact congrArg RuntimeState.key runtimes,
        synced.image synced.threads synced.memory rfl⟩
    | load addr count =>
      exact ⟨congrArg (Memory.load · addr count) synced.memory,synced.image synced.threads synced.memory rfl⟩
    | store addr bytes =>
      exact ⟨trivial,synced.image synced.threads (by simp [Image.answer,synced.memory]) rfl⟩
    | verbosity => exact ⟨trivial,synced.image synced.threads synced.memory rfl⟩
    | emit line => exact ⟨trivial,synced.image synced.threads synced.memory rfl⟩
    -- A runtime that is ready is not set up again.
    | exchangePhase rt expected desired => exact may.elim
    | setPhase rt phase => exact may.elim
    | keepKey rt key => exact may.elim
    | setVerbosity level => exact may.elim
    | environment => exact may.elim
  | mapper rt call =>
    cases call with
    | pageSize =>
      obtain ⟨-,rfl⟩ := answers
      exact ⟨fair,synced.call _ rfl rfl synced.live⟩
    | map len rights =>
      obtain ⟨start,rfl,whole⟩ := fair
      obtain ⟨proper,apart,rfl⟩ := answers
      rw [synced.live] at apart
      exact ⟨⟨start,rfl,proper,apart,whole⟩,synced.call _ rfl rfl (by rw [synced.live])⟩
    | protect addr len rights =>
      obtain rfl := answers
      exact ⟨fair,synced.call _ rfl rfl synced.live⟩
    | unmap addr len =>
      obtain rfl : reply = .ok () := fair
      obtain rfl := answers
      exact ⟨rfl,synced.call _ rfl rfl (by rw [synced.live])⟩
  | host rt call =>
    cases call with
    | stackLimit =>
      obtain rfl := answers
      exact ⟨trivial,synced.call _ rfl rfl synced.live⟩
    | defaultAttributes =>
      obtain rfl := answers
      exact ⟨fair,synced.call _ rfl rfl synced.live⟩
    | requestedAttributes attr =>
      obtain rfl := answers
      exact ⟨fair,synced.call _ rfl rfl synced.live⟩
    | installInterception =>
      obtain rfl := answers
      exact ⟨trivial,synced.call _ rfl rfl synced.live⟩
    | createCleanupKey =>
      obtain rfl := answers
      exact ⟨trivial,synced.call _ rfl rfl synced.live⟩
    | setCleanupValue key value =>
      obtain ⟨rfl,rfl,-⟩ := may
      obtain rfl : reply = .ok () := fair
      obtain rfl := answers
      refine ⟨rfl,{ synced with value := ?_, values := fun t' other => ?_, seams := congrArg (· ++ _) synced.seams }⟩
      · simp [World.setValue,site,Shift.after,Shift.act,Shift.tell]
      · exact (replace_other _ _ other).trans (synced.values t' other)
    | spawn call =>
      obtain rfl : reply = 0 := fair
      obtain rfl := answers
      exact ⟨rfl,synced.call _ rfl rfl synced.live⟩
  | enter entry arg =>
    obtain rfl := answers
    exact ⟨fair,synced.call _ rfl rfl synced.live⟩

/-- A step comes to what its closed form says, whatever the mapper gives. -/
theorem follows_alone {α : Type} {p : Program α} {grants : List Exchange → Request → Prop} {post : Shift → α → Prop}
    (ready : w.image.runtimes plan.runtime = ⟨.ready,some plan.key⟩)
    (follows : p.Follows (working plan.site grants stops) post (plan.shift w t)) :
    p.Follows (plan.alone t stops) (fun x a => ∃ y, plan.Synced t w x y ∧ post y a) ⟨w,[]⟩ := by
  refine follows.simulate synced_shift (fun _ => And.left) (fun _ _ _ _ _ => trivial) ?_
  intro y x q reply x' synced may answers
  obtain ⟨expected,synced'⟩ := synced.next ready may answers
  exact ⟨_,⟨expected,rfl⟩,synced'⟩

end Plan
end GuardedStack
