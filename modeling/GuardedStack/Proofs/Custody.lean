import GuardedStack.Proofs.Discipline
import GuardedStack.Proofs.World

/-! What an operation in progress answers for. Its custody follows from its requests and their replies alone: the
mapping that is in its hand, its part in the initialization of a runtime or in a thread's exit, and what
it has learned. The discipline of custody says what an operation may ask for with this in its hand. -/
namespace GuardedStack

/-- The request for the phase, with which every attempt begins. -/
abbrev Request.claim (rt : RuntimeId) : Request := .state (.exchangePhase rt .uninitialized .initializing)

/-- Without a stack the pointer is zero; with one it is inside. -/
structure ThreadStack.Sound (s : ThreadStack) : Prop where
  none : s.holding = none → s.pointer = 0
  some : ∀ h, s.holding = some h → h.region.Sound ∧ h.region.base ≤ s.pointer ∧ s.pointer ≤ h.region.top

/-- The one mapping that an operation answers for. -/
inductive Hand where
  | empty
  | held (m : Mapping)
  /-- Also installed on the operation's thread, if nothing else was installed since. -/
  | installed (h : Holding)
  /-- With a record in it. -/
  | placed (addr : UInt64) (h : Handoff)

def Hand.mapping : Hand → Option Mapping
  | empty => none
  | held m => some m
  | installed h => some h.mapping
  | placed _ h => some h.mapping

inductive Role where
  | plain
  /-- About to ask for the initialization of a runtime. -/
  | asking (rt : RuntimeId)
  /-- The one initialization in progress; the key is kept or not yet. -/
  | starting (rt : RuntimeId) (kept : Bool)
  | started (h : Holding)
  /-- A new thread, before its region is installed. -/
  | arriving (h : Holding)
  /-- A new thread, before its key is armed. -/
  | arming
  /-- A destructor call with this value, before it has acted. -/
  | passing (value : UInt64)
  /-- A thread's own operation that has done its part. -/
  | settled

/-- A thread runs such an operation before all others and beneath them. -/
def Role.Base : Role → Prop
  | arriving _ | arming | passing _ | settled => True
  | plain | asking _ | starting _ _ | started _ => False

structure Custody where
  hand : Hand
  role : Role
  /-- The thread's stack, since it was last read or written. -/
  seen : Option ThreadStack
  /-- Runtimes that were found ready. -/
  ready : List RuntimeId
  /-- The cleanup key that was looked up. -/
  key : Option (RuntimeId × CleanupKey)

namespace Custody

def ofOperation : Operation → Custody
  | .start rt => ⟨.empty,.asking rt,none,[],none⟩
  | .spawn _ _ _ _ _ | .body _ _ | .destroy _ => ⟨.empty,.plain,none,[],none⟩

def ofRecord (addr : UInt64) (h : Handoff) : Custody :=
  ⟨.placed addr h,.arriving h.holding,some .empty,[h.runtime],none⟩

def ofValue (value : UInt64) (s : ThreadStack) : Custody := ⟨.empty,.passing value,some s,s.owner.toList,none⟩

/-- Reading a stack that is not the installed one shows that nothing is installed any more. -/
def read (c : Custody) (s : ThreadStack) : Custody :=
  { c with
    seen := some s
    hand := match c.hand with
      | .installed h => if s.region = some h.region then .installed h else .held h.mapping
      | hand => hand }

def write (c : Custody) (s : ThreadStack) : Custody :=
  match c.hand, c.role, s.holding with
  | .held _, .arriving _, _ => { c with seen := some s, hand := .empty, role := .arming }
  | .held _, _, some h => { c with seen := some s, hand := .installed h }
  | .installed h, _, _ => { c with seen := some s, hand := .held h.mapping }
  | .empty, .passing _, _ =>
    { c with
      seen := some s
      hand := match c.seen.bind ThreadStack.holding with
        | some h => .held h.mapping
        | none => .empty
      role := .settled }
  | _, _, _ => { c with seen := some s }

def store (c : Custody) (addr : UInt64) (bytes : List UInt8) : Custody :=
  match c.hand with
  | .held _ => { c with hand := .placed addr (.decode bytes) }
  | .placed _ h => { c with hand := .held h.mapping }
  | _ => c

def setPhase (c : Custody) : Phase → Custody
  | .ready =>
    match c.hand with
    | .installed h => { c with hand := .empty, role := .started h }
    | _ => c
  | _ => { c with role := .plain }

/-- Behind a seam anything may happen to the thread's stack. -/
def forget (c : Custody) : Custody := { c with seen := none }

def after (c : Custody) : (q : Request) → q.Reply → Custody
  | .mapper rt (.map len _), .ok addr => { c.forget with hand := .held ⟨rt,addr,len⟩ }
  | .mapper _ (.unmap _ _), _ => { c.forget with hand := .empty }
  | .host _ (.spawn _), code => if code = 0 then { c.forget with hand := .empty } else c.forget
  | .host _ (.setCleanupValue _ _), .ok () => { c.forget with role := .settled }
  | .mapper _ _, _ => c.forget
  | .host _ _, _ => c.forget
  | .enter _ _, _ => c.forget
  | .state .stack, s => c.read s
  | .state (.setStack s), _ => c.write s
  | .state (.phase rt), phase => if phase = .ready then { c with ready := rt :: c.ready } else c
  | .state (.exchangePhase rt _ _), won => if won then { c with role := .starting rt false } else c
  | .state (.setPhase _ phase), _ => c.setPhase phase
  | .state (.key rt), key => { c with key := key.map fun key => (rt,key) }
  | .state (.keepKey rt _), _ => { c with role := .starting rt true }
  | .state (.store addr bytes), _ => c.store addr bytes
  | .state _, _ => c

/-- A refused spawn leaves the record with whoever asked for it. -/
theorem after_refused (c : Custody) {rt : RuntimeId} {call : SpawnCall} {code : Int32} (refused : code ≠ 0) :
    c.after (.host rt (.spawn call)) code = c.forget := by
  simp [after,refused]

/-- Writing the thread's stack installs what is in the hand or detaches what is installed. -/
inductive Writes (c : Custody) (s : ThreadStack) : Prop
  | main {h : Holding} {seen : ThreadStack} : c.hand = .held h.mapping → c.role = .starting h.owner false →
      c.seen = some seen → s = ⟨h.region.top,some h⟩ → Writes c s
  | arrival {h : Holding} {seen : ThreadStack} : c.hand = .held h.mapping → c.role = .arriving h →
      h.owner ∈ c.ready → c.seen = some seen → seen.holding = none → s = ⟨h.region.top,some h⟩ → Writes c s
  | detach {h : Holding} {seen : ThreadStack} : c.hand = .installed h → c.seen = some seen →
      seen.region = some h.region → s = .empty → Writes c s
  | pass {value : UInt64} {seen : ThreadStack} : c.hand = .empty → c.role = .passing value → destructorRounds ≤ value →
      c.seen = some seen → s = .empty → Writes c s

inductive Stores (c : Custody) (addr : UInt64) (bytes : List UInt8) : Prop
  | place {h : Handoff} : c.hand = .held h.mapping → h.runtime ∈ c.ready → h.Sits addr → bytes = h.encode →
      Stores c addr bytes
  | blank {h : Handoff} : c.hand = .placed addr h → bytes = Handoff.blank → Stores c addr bytes

def May (c : Custody) : Request → Prop
  | .mapper _ (.map len _) => c.hand = .empty ∧ len ≠ 0 ∧ ¬c.role.Base
  | .mapper rt (.unmap addr len) => c.hand = .held ⟨rt,addr,len⟩
  | .host _ (.spawn call) => call.start = .fromRecord ∧ ∃ h, c.hand = .placed call.arg h
  | .host rt (.setCleanupValue key value) => c.hand = .empty ∧ c.key = some (rt,key) ∧
      (c.role = .arming ∧ value = armed ∨ ∃ pass, c.role = .passing pass ∧ pass < destructorRounds ∧ value = pass + 1)
  | .enter _ _ => c.hand = .empty ∧ c.role = .settled
  | .state (.setStack s) => s.Sound ∧ c.Writes s
  | .state (.exchangePhase rt expected desired) =>
      c.role = .asking rt ∧ c.hand = .empty ∧ expected = .uninitialized ∧ desired = .initializing
  | .state (.setPhase rt phase) => c.role = .starting rt false ∧ c.hand = .empty ∧ phase = .uninitialized ∨
      c.role = .starting rt true ∧ phase = .ready ∧ ∃ h, c.hand = .installed h
  | .state (.keepKey rt _) => c.role = .starting rt false ∧ ∃ h, c.hand = .installed h
  | .state (.store addr bytes) => c.Stores addr bytes
  | _ => True

/-- What the world promises of a reply. -/
def Expects (c : Custody) : (q : Request) → q.Reply → Prop
  | .mapper _ .pageSize, size => size ≠ 0
  | .mapper rt (.map len _), .ok addr => (⟨rt,addr,len⟩ : Mapping).Proper
  | .state .stack, s => s.Sound ∧ (∀ seen, c.seen = some seen → s = seen) ∧
      ∀ m h, c.hand = .held m → s.holding = some h → h.region.start ≠ m.addr
  | .state (.key rt), key => rt ∈ c.ready → key ≠ none
  | .state (.load addr count), bytes => ∀ h, c.hand = .placed addr h → count = Handoff.size.toNat → bytes = h.encode
  | _, _ => True

end Custody

/-- Only a reported abort may end an operation, and never for want of the cleanup key. -/
def custody : Discipline Custody where
  may := Custody.May
  next c q reply c' := c.Expects q reply ∧ c' = c.after q reply
  ends
    | .aborted cause => cause ≠ .noKey
    | _ => False

namespace Operation

/-- How an operation ends: nothing is in its hand. -/
def Ends : (op : Operation) → Custody → op.Result → Prop
  | start _, c, .ok region => c.hand = .empty ∧ ∃ rt, c.role = .started ⟨region,rt⟩
  | start rt, c, .error _ => c.hand = .empty ∧ (c.role = .plain ∨ c.role = .asking rt)
  | spawn _ _ _ _ _, c, _ => c.hand = .empty ∧ c.role = .plain
  | body _ _, c, _ => c.hand = .empty ∧ c.role = .settled
  | destroy _, c, _ => c.hand = .empty ∧
      (c.role = .settled ∨ ∃ value seen, c.role = .passing value ∧ c.seen = some seen ∧ seen.holding = none)

end Operation
end GuardedStack
