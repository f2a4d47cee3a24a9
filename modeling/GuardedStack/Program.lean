import GuardedStack.Request

/-! Operations as programs. A program ends with a value, stops for good, or makes one request and goes on with
the reply. It does not say who answers: the same program runs against scripted doubles, against a
model of the kernel, or one request at a time between the requests of other threads. -/
namespace GuardedStack

/-- Why a program does not go on. -/
inductive Stop where
  /-- Arithmetic that does not fit. It ends what was being done, and the process lives on. -/
  | overflow (operation : Overflow)
  /-- Arithmetic that does not fit, where the caller is the C library: the process ends. -/
  | trapped (operation : Overflow)
  /-- A thread that was waited for ended by an overflow. -/
  | threadLost
  | aborted (cause : Diagnostics.Fatal)
  deriving DecidableEq, Repr

namespace Stop

/-- What is reported of a stop that the process survives. -/
def message? : Stop → Option String
  | overflow operation => some operation.message
  | threadLost => some "mock thread panicked: Any \x7b .. \x7d"
  | trapped _ | aborted _ => none

end Stop

inductive Program (α : Type) where
  | done (value : α)
  | stop (reason : Stop)
  | ask (request : Request) (next : request.Reply → Program α)

namespace Program

def bind : Program α → (α → Program β) → Program β
  | done a, f => f a
  | stop reason, _ => stop reason
  | ask request next, f => ask request fun reply => (next reply).bind f

instance : Monad Program where
  pure := done
  bind := bind

@[simp] theorem pure_eq (a : α) : (pure a : Program α) = done a := rfl
@[simp] theorem done_bind (a : α) (f : α → Program β) : done a >>= f = f a := rfl
@[simp] theorem stop_bind (r : Stop) (f : α → Program β) : stop r >>= f = stop r := rfl
@[simp] theorem ask_bind (q : Request) (next : q.Reply → Program α) (f : α → Program β) :
    ask q next >>= f = ask q fun reply => next reply >>= f := rfl

theorem bind_done (p : Program α) : p >>= done = p := by
  induction p with
  | done _ => rfl
  | stop _ => rfl
  | ask q next ih => rw [ask_bind]; congr; funext reply; exact ih reply

theorem bind_assoc (p : Program α) (f : α → Program β) (g : β → Program γ) :
    p >>= f >>= g = p >>= fun a => f a >>= g := by
  induction p with
  | done _ => rfl
  | stop _ => rfl
  | ask q next ih => rw [ask_bind,ask_bind,ask_bind]; congr; funext reply; exact ih reply

instance : LawfulMonad Program := LawfulMonad.mk' Program bind_done (fun _ _ => rfl) bind_assoc

/-- One request and its reply. -/
def request (q : Request) : Program q.Reply := ask q done

/-- The value of a checked computation, or the stop that it amounts to. -/
def checked : Checked α → Program α
  | .ok a => done a
  | .error operation => stop (.overflow operation)

/-- Reports the cause and ends the process. -/
def abort (cause : Diagnostics.Fatal) : Program α := do
  request (.state (.emit cause.line))
  stop (.aborted cause)

/-- A program that the C library calls. It has nowhere to report an overflow to, so an overflow ends the
process with a line of its own. -/
def callback : Program α → Program α
  | done a => done a
  | stop (.overflow operation) => do
    request (.state (.emit Diagnostics.trapLine))
    stop (.trapped operation)
  | stop reason => stop reason
  | ask q next => ask q fun reply => (next reply).callback

/-- Writes a message as one line. -/
def emit (m : Diagnostics.Message) : Program Unit := request (.state (.emit (Diagnostics.render m)))

/-- Writes a message of the library if the verbosity shows its level. The message is made only then. -/
def report (level : Verbosity) (m : Program Diagnostics.Message) : Program Unit := do
  let verbosity ← request (.state .verbosity)
  if verbosity.shows level then emit (Diagnostics.tagged (← m)) else done ()

def notice (text : Program String) : Program Unit := report .notice (do return [.text (← text)])

def trace (text : Program String) : Program Unit := report .trace (do return [.text (← text)])

end Program

/-- A program that may end with a fault. -/
abbrev Attempt (α : Type) := ExceptT Fault Program α

namespace Attempt

/-- The value of an attempt; a fault is reported with what was being done and ends the process. -/
def orAbort (what : String) (attempt : Attempt α) : Program α := do
  match ← attempt.run with
  | .ok a => pure a
  | .error cause => Program.abort (.fault what cause)

/-- A request that may be answered with a fault. -/
def ofProgram (p : Program (Except Fault α)) : Attempt α := ExceptT.mk p

/-- A checked computation, which either has a value or stops. -/
def checked (c : Checked α) : Attempt α := ExceptT.lift (Program.checked c)

/-- Makes the attempt and goes on with its value or its fault. -/
def outcome (attempt : Attempt α) : Attempt (Except Fault α) := ExceptT.lift attempt.run

end Attempt
end GuardedStack
