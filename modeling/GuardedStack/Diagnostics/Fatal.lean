import GuardedStack.Diagnostics.Line
import GuardedStack.Fault

/-! Conditions that end the process. There is no degraded mode: a thread without a guarded stack would lose
its protection silently, so a fault that reaches an outermost operation is reported and the process ends. -/
namespace GuardedStack.Diagnostics

/-- What was being done when a fault ended the process. -/
inductive Duty where
  | starting
  | preparing
  | releasingUnused
  | installing
  | arming
  | rearming
  | releasing
  deriving DecidableEq, Repr

def Duty.text : Duty → String
  | .starting => "initializing unsafe stacks"
  | .preparing => "preparing thread unsafe stack"
  | .releasingUnused => "releasing unused unsafe stack"
  | .installing => "installing thread unsafe stack"
  | .arming => "arming unsafe stack cleanup"
  | .rearming => "re-arming unsafe stack cleanup"
  | .releasing => "releasing unsafe stack"

/-- Why the process ends. -/
inductive Fatal where
  | fault (what : String) (cause : Fault)
  /-- The cleanup key was needed before it was made. -/
  | noKey
  /-- A thread was started on a null record. -/
  | noRecord
  /-- Threads were started through a library whose primitive had not been looked up. -/
  | notInstalled
  /-- An integrity check failed; the text of its condition is part of the report. -/
  | check (condition : String) (detail : Message)
  | other (detail : Message)
  deriving DecidableEq, Repr

namespace Fatal

def message : Fatal → Message
  | fault what cause => [.text what,.text ": ",.text cause.message]
  | noKey => [.text Fault.notReady.message]
  | noRecord => [.text "thread started without a handoff record"]
  | notInstalled => [.text "pthread_create called before interception was installed"]
  | check condition detail => [.text "<source>: check `",.text condition,.text "` failed: "] ++ detail
  | other detail => detail

/-- The report's line. -/
def line (cause : Fatal) : String := render (tagged (.text "FATAL: " :: cause.message))

end Fatal

/-- What is written where the C library is the caller and arithmetic does not fit. -/
def trapLine : String := "thread caused non-unwinding panic. aborting.\n"

end GuardedStack.Diagnostics
