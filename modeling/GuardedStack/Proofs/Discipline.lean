import GuardedStack.Calls

/-! What a program does, whoever answers it. A discipline says which requests are allowed in a state and which
replies lead to which next states; the states are ghosts, the program does not see them. A program follows a
discipline if every request that it can come to make is allowed. -/
namespace GuardedStack

structure Discipline (σ : Type) where
  may : σ → Request → Prop
  next : σ → (q : Request) → q.Reply → σ → Prop
  /-- The ways in which a program may stop for good. -/
  ends : Stop → Prop

/-- Reporting is always allowed and changes nothing. -/
structure Discipline.Silent (d : Discipline σ) : Prop where
  emits : ∀ x line, d.may x (.state (.emit line))
  emitted : ∀ x line r y, d.next x (.state (.emit line)) r y → y = x
  asks : ∀ x, d.may x (.state .verbosity)
  asked : ∀ x r y, d.next x (.state .verbosity) r y → y = x

/-- A fault may be reported and end everything. -/
structure Discipline.Frank (d : Discipline σ) : Prop extends d.Silent where
  aborts : ∀ cause, cause ≠ .noKey → d.ends (.aborted cause)

section
variable {σ : Type} {d : Discipline σ} {x : σ}

namespace Program

def Follows (d : Discipline σ) (post : σ → α → Prop) : Program α → σ → Prop
  | done a, x => post x a
  | stop reason, _ => d.ends reason
  | ask q next, x => d.may x q ∧ ∀ r y, d.next x q r y → (next r).Follows d post y

theorem Follows.bind {p : Program α} {f : α → Program β} {post : σ → β → Prop}
    (first : p.Follows d (fun y a => (f a).Follows d post y) x) : (p >>= f).Follows d post x := by
  induction p generalizing x with
  | done a => exact first
  | stop reason => exact first
  | ask q next ih => exact ⟨first.1,fun r y step => ih r (first.2 r y step)⟩

theorem Follows.mono {p : Program α} {post post' : σ → α → Prop} (follows : p.Follows d post x)
    (weaker : ∀ y a, post y a → post' y a) : p.Follows d post' x := by
  induction p generalizing x with
  | done a => exact weaker _ _ follows
  | stop reason => exact follows
  | ask q next ih => exact ⟨follows.1,fun r y step => ih r (follows.2 r y step)⟩

theorem follows_request {q : Request} {post : σ → q.Reply → Prop} (allowed : d.may x q)
    (after : ∀ r y, d.next x q r y → post y r) : (request q).Follows d post x :=
  ⟨allowed,after⟩

theorem follows_checked {c : Checked α} {a : α} {post : σ → α → Prop} (fits : c = .ok a)
    (after : post x a) : (checked c).Follows d post x := by
  subst fits
  exact after

/-- Where nothing overflows, a callback does what the program does. -/
theorem Follows.callback {p : Program α} {post : σ → α → Prop} (follows : p.Follows d post x)
    (fits : ∀ operation, ¬d.ends (.overflow operation)) : p.callback.Follows d post x := by
  induction p generalizing x with
  | done a => exact follows
  | stop reason =>
    cases reason with
    | overflow operation => exact absurd follows (fits operation)
    | trapped operation => exact follows
    | threadLost => exact follows
    | aborted cause => exact follows
  | ask q next ih => exact ⟨follows.1,fun r y step => ih r (follows.2 r y step)⟩

theorem follows_abort (frank : d.Frank) {cause : Diagnostics.Fatal} (known : cause ≠ .noKey)
    {post : σ → α → Prop} : (abort cause : Program α).Follows d post x :=
  .bind (follows_request (frank.emits _ _) fun _ _ _ => frank.aborts cause known)

/-- A report may compute its text, and leaves everything as it was. -/
theorem follows_report (silent : d.Silent) {level : Verbosity} {m : Program Diagnostics.Message}
    {post : σ → Unit → Prop} (text : m.Follows d (fun y _ => y = x) x) (after : post x ()) :
    (report level m).Follows d post x := by
  refine .bind (follows_request (silent.asks x) fun verbosity y step => ?_)
  obtain rfl := silent.asked _ _ _ step
  split
  · refine .bind (text.mono fun z message same => ?_)
    subst same
    refine follows_request (silent.emits _ _) fun _ z emitted => ?_
    obtain rfl := silent.emitted _ _ _ _ emitted
    exact after
  · exact after

theorem follows_trace (silent : d.Silent) {text : Program String} {post : σ → Unit → Prop}
    (made : text.Follows d (fun y _ => y = x) x) (after : post x ()) : (trace text).Follows d post x :=
  follows_report silent (.bind made) after

theorem follows_notice (silent : d.Silent) {text : Program String} {post : σ → Unit → Prop}
    (made : text.Follows d (fun y _ => y = x) x) (after : post x ()) : (notice text).Follows d post x :=
  follows_report silent (.bind made) after

end Program

namespace Attempt

def Follows (d : Discipline σ) (ok : σ → α → Prop) (fault : σ → Fault → Prop) (attempt : Attempt α)
    (x : σ) : Prop :=
  attempt.run.Follows d (fun y result => match result with
    | .ok a => ok y a
    | .error cause => fault y cause) x

theorem Follows.bind {attempt : Attempt α} {f : α → Attempt β} {ok : σ → β → Prop} {fault : σ → Fault → Prop}
    (first : attempt.Follows d (fun y a => (f a).Follows d ok fault y) fault x) :
    (attempt >>= f).Follows d ok fault x := by
  refine Program.Follows.bind (first.mono fun y result holds => ?_)
  cases result with
  | ok a => exact holds
  | error cause => exact holds

theorem Follows.mono {attempt : Attempt α} {ok ok' : σ → α → Prop} {fault fault' : σ → Fault → Prop}
    (follows : attempt.Follows d ok fault x) (succeeds : ∀ y a, ok y a → ok' y a)
    (fails : ∀ y cause, fault y cause → fault' y cause) : attempt.Follows d ok' fault' x := by
  refine Program.Follows.mono follows fun y result holds => ?_
  cases result with
  | ok a => exact succeeds y a holds
  | error cause => exact fails y cause holds

theorem follows_pure {a : α} {ok : σ → α → Prop} {fault : σ → Fault → Prop} (after : ok x a) :
    (pure a : Attempt α).Follows d ok fault x :=
  after

theorem follows_throw {cause : Fault} {ok : σ → α → Prop} {fault : σ → Fault → Prop} (after : fault x cause) :
    (throw cause : Attempt α).Follows d ok fault x :=
  after

theorem follows_lift {p : Program α} {ok : σ → α → Prop} {fault : σ → Fault → Prop}
    (follows : p.Follows d ok x) : (liftM p : Attempt α).Follows d ok fault x :=
  Program.Follows.bind follows

theorem follows_ofProgram {p : Program (Except Fault α)} {ok : σ → α → Prop} {fault : σ → Fault → Prop}
    (follows : p.Follows d (fun y result => match result with
      | .ok a => ok y a
      | .error cause => fault y cause) x) : (Attempt.ofProgram p).Follows d ok fault x :=
  follows

theorem follows_outcome {attempt : Attempt α} {ok : σ → Except Fault α → Prop} {fault : σ → Fault → Prop}
    (follows : attempt.Follows d (fun y a => ok y (.ok a)) (fun y cause => ok y (.error cause)) x) :
    attempt.outcome.Follows d ok fault x := by
  refine Program.Follows.bind (Program.Follows.mono follows fun y result holds => ?_)
  cases result with
  | ok a => exact holds
  | error cause => exact holds

/-- A fault that may be reported and may end everything does so. -/
theorem follows_orAbort_reports {what : String} {attempt : Attempt α} {post : σ → α → Prop}
    (follows : attempt.Follows d post (fun y cause => (∀ line, d.may y (.state (.emit line))) ∧
      d.ends (.aborted (.fault what cause))) x) : (attempt.orAbort what).Follows d post x := by
  refine Program.Follows.bind (Program.Follows.mono follows fun y result holds => ?_)
  cases result with
  | ok a => exact holds
  | error cause => exact .bind (Program.follows_request (holds.1 _) fun _ _ _ => holds.2)

/-- A fault ends everything where it may be reported. -/
theorem follows_orAbort_ends {what : String} {attempt : Attempt α} {post : σ → α → Prop}
    (follows : attempt.Follows d post (fun y _ => ∀ line, d.may y (.state (.emit line))) x)
    (ends : ∀ cause, d.ends (.aborted (.fault what cause))) : (attempt.orAbort what).Follows d post x :=
  follows_orAbort_reports (follows.mono (fun _ _ => id) fun _ cause emits => ⟨emits,ends cause⟩)

theorem follows_orAbort (frank : d.Frank) {what : String} {attempt : Attempt α} {post : σ → α → Prop}
    (follows : attempt.Follows d post (fun _ _ => True) x) : (attempt.orAbort what).Follows d post x :=
  follows_orAbort_ends (follows.mono (fun _ _ => id) fun y _ _ => frank.emits y) fun _ => frank.aborts _ (by simp)

/-- Where there is no fault, nothing is aborted. -/
theorem follows_orAbort_ok {what : String} {attempt : Attempt α} {post : σ → α → Prop}
    (follows : attempt.Follows d post (fun _ _ => False) x) : (attempt.orAbort what).Follows d post x := by
  refine Program.Follows.bind (Program.Follows.mono follows fun y result holds => ?_)
  cases result with
  | ok a => exact holds
  | error cause => exact holds.elim

end Attempt
end

namespace Program

variable {σ τ α : Type}

/-- What follows one discipline follows another one whose replies it can match. -/
theorem Follows.simulate {d : Discipline σ} {e : Discipline τ} {R : τ → σ → Prop} {p : Program α} {post : σ → α → Prop}
    {x : σ} {y : τ} (follows : p.Follows d post x) (related : R y x) (ends : ∀ reason, d.ends reason → e.ends reason)
    (may : ∀ x y q, R y x → d.may x q → e.may y q)
    (next : ∀ x y q r y', R y x → d.may x q → e.next y q r y' → ∃ x', d.next x q r x' ∧ R y' x') :
    p.Follows e (fun y' a => ∃ x', R y' x' ∧ post x' a) y := by
  induction p generalizing x y with
  | done a => exact ⟨x,related,follows⟩
  | stop reason => exact ends reason follows
  | ask q rest ih =>
    refine ⟨may x y q related follows.1,fun r y' step => ?_⟩
    obtain ⟨x',step,related'⟩ := next x y q r y' related follows.1 step
    exact ih r (follows.2 r x' step) related'

/-- The program may end with the value, if its requests may be answered so. -/
inductive Yields (answers : σ → (q : Request) → q.Reply → σ → Prop) : Program α → σ → α → σ → Prop
  | done {a x} : Yields answers (.done a) x a x
  | ask {q next x r y a z} : answers x q r y → Yields answers (next r) y a z → Yields answers (.ask q next) x a z

theorem Yields.post {d : Discipline σ} {p : Program α} {post : σ → α → Prop} {x y : σ} {a : α}
    (yields : p.Yields d.next x a y) (follows : p.Follows d post x) : post y a := by
  induction yields with
  | done => exact follows
  | ask answer _ ih => exact ih (follows.2 _ _ answer)

theorem Yields.bind {β : Type} {answers : σ → (q : Request) → q.Reply → σ → Prop} {p : Program α} {f : α → Program β}
    {x y z : σ} {a : α} {b : β} (first : p.Yields answers x a y) (rest : (f a).Yields answers y b z) :
    (p >>= f).Yields answers x b z := by
  induction first with
  | done => exact rest
  | ask answer _ ih => exact .ask answer (ih rest)

section
variable {d : Discipline σ} {attempt : Attempt α} {ok : σ → α → Prop} {fault : σ → Fault → Prop} {x y : σ}

theorem Yields.value {a : α} (yields : attempt.run.Yields d.next x (.ok a) y) (follows : attempt.Follows d ok fault x) : ok y a := by
  have post := yields.post follows
  exact post

theorem Yields.cause {cause : Fault} (yields : attempt.run.Yields d.next x (.error cause) y)
    (follows : attempt.Follows d ok fault x) : fault y cause := by
  have post := yields.post follows
  exact post

end

end Program

end GuardedStack
