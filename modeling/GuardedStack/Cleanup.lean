import GuardedStack.Allocation

/-! Giving a thread's stack back at its exit. Destructors of other keys may still run code on the stack, so the
region has to outlive as many of them as possible. A thread exit makes a limited number of rounds, and in
each it calls the destructor of every key with a value. The library's destructor therefore counts the
rounds in its own value and sets the value again until the last round, in which it unmaps the region:

    start        value 1
    round n < K  value n + 1
    round K      unmap, no value

A foreign destructor that sets its value again through all K rounds may still run after that. -/
namespace GuardedStack.Cleanup

/-- What the destructor does in one round. -/
inductive Action where
  | rearm (next : UInt64)
  | release
  deriving DecidableEq, Repr

/-- The action of the round that finds the value `pass`, where `ceiling` rounds are certain. -/
def action (pass ceiling : UInt64) : Checked Action :=
  if pass < ceiling then do return .rearm (← Checked.add pass 1) else return .release

/-- The actions of a key that is driven from `value` on for at most `passes` rounds. A round happens only
while there is a value, and takes it away. -/
def drive (ceiling : UInt64) : (passes : Nat) → (value : UInt64) → Checked (List Action)
  | 0, _ => .ok []
  | passes + 1, value =>
    if value = 0 then .ok [] else do
      match ← action value ceiling with
      | .rearm next => return .rearm next :: (← drive ceiling passes next)
      | .release => return .release :: (← drive ceiling passes 0)

/-- Unmaps the calling thread's region and forgets it. -/
def releaseCurrent : Program Unit := do
  match ← Thread.take with
  | none => pure ()
  | some held => (Region.release held.owner held.region).orAbort Diagnostics.Duty.releasing.text

/-- One round of the destructor on the calling thread. Without a stack there is nothing to do. -/
def round (pass ceiling : UInt64) : Program Unit := do
  match (← Thread.stack).owner with
  | none => pure ()
  | some owner =>
    match ← Program.checked (action pass ceiling) with
    | .rearm next =>
      let key ← Runtime.cleanupKey owner
      (Host.setCleanupValue owner key next).orAbort Diagnostics.Duty.rearming.text
    | .release => releaseCurrent

/-- The destructor of the cleanup key, which the C library calls. -/
def destructor (value : UInt64) : Program Unit := (round value destructorRounds).callback

end GuardedStack.Cleanup
