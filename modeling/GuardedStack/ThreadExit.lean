import GuardedStack.Image

/-! Thread exit as a C library performs it: up to a fixed number of rounds, each of which takes the values of
all keys and calls the destructors of those that had one. Two keys matter here, the library's cleanup key
and one foreign key that was made after it and is called after it. -/
namespace GuardedStack

/-- The values of the two keys on one thread. Zero is no value. -/
structure KeyValues where
  own : UInt64
  foreign : UInt64
  deriving DecidableEq, Repr

def KeyValues.none : KeyValues := ⟨0,0⟩

/-- The value of a foreign key whose destructor is to set it again `rearms` times. -/
def foreignValue (rearms : UInt64) : Checked UInt64 := Checked.add rearms 1

/-- How a host takes the values of the exiting thread and calls the destructors. -/
structure ExitHooks (σ : Type) where
  /-- Gives the values and leaves none. -/
  takeValues : σ → KeyValues × σ
  callOwn : UInt64 → Acting σ Unit
  callForeign : UInt64 → Acting σ Unit

/-- At most `rounds` rounds. A round without values ends the exit. -/
def ExitHooks.run {σ : Type} (hooks : ExitHooks σ) : (rounds : Nat) → Acting σ Unit
  | 0 => pure ()
  | rounds + 1 => do
    let values ← modifyGet hooks.takeValues
    if values = .none then pure ()
    else
      if values.own ≠ 0 then hooks.callOwn values.own
      if values.foreign ≠ 0 then hooks.callForeign values.foreign
      hooks.run rounds

end GuardedStack
