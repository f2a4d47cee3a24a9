import GuardedStack.Proofs.World

/-! A program without its reports. A program is discreet if it goes on in the same way however its reports are
answered: whatever the verbosity is, whatever the environment says and whatever becomes of the lines that are
written. All operations are. -/
namespace GuardedStack

/-- The reply that keeps a report silent. Other requests are no reports. -/
def Request.hush : (q : Request) → Option q.Reply
  | .state .verbosity => some .quiet
  | .state (.setVerbosity _) => some ()
  | .state .environment => some none
  | .state (.emit _) => some ()
  | _ => none

/-- What a mapper promises of a new mapping, wherever the others lie. -/
def Request.Proper : (q : Request) → q.Reply → Prop
  | .mapper rt (.map len _), .ok addr => (⟨rt,addr,len⟩ : Mapping).Proper
  | _, _ => True

/-- What has been mapped ends where its trace says. -/
theorem Mapping.Proper.traced {rt : RuntimeId} {addr size guard total : UInt64}
    (proper : (⟨rt,addr,total⟩ : Mapping).Proper) (sum : Checked.add size guard = .ok total) :
    Checked.add (addr + guard) size = .ok (addr + guard + size) := by
  have exact_ := Checked.toNat_of_add sum
  have fits := proper.2
  simp only [Mapping.finish] at fits
  refine Checked.add_eq_ok_iff.mpr ⟨?_,rfl⟩
  rw [UInt64.toNat_add]
  exact Nat.lt_of_le_of_lt (Nat.add_le_add_right (Nat.mod_le _ _) _) (by omega)

namespace Program

/-- The program without its reports. -/
def hushed : Program α → Program α
  | done a => done a
  | stop reason => stop reason
  | ask q next =>
    match q.hush with
    | some quiet => (next quiet).hushed
    | none => ask q fun reply => (next reply).hushed

/-- However its reports are answered, the program does the same. -/
def Discreet : Program α → Prop
  | done _ | stop _ => True
  | ask q next =>
    match q.hush with
    | some quiet => ∀ reply, (next reply).Discreet ∧ (next reply).hushed = (next quiet).hushed
    | none => ∀ reply, q.Proper reply → (next reply).Discreet

section
variable {p : Program α} {q : Request} {next : q.Reply → Program α}

theorem hushed_ask (plain : q.hush = none) : (ask q next).hushed = ask q fun reply => (next reply).hushed := by
  simp only [hushed,plain]

theorem hushed_report {quiet : q.Reply} (report : q.hush = some quiet) :
    (ask q next).hushed = (next quiet).hushed := by
  simp only [hushed,report]

theorem discreet_ask_iff (plain : q.hush = none) :
    (ask q next).Discreet ↔ ∀ reply, q.Proper reply → (next reply).Discreet := by
  simp only [Discreet,plain]

theorem discreet_tell_iff {quiet : q.Reply} (report : q.hush = some quiet) :
    (ask q next).Discreet ↔ ∀ reply, (next reply).Discreet ∧ (next reply).hushed = (next quiet).hushed := by
  simp only [Discreet,report]

theorem discreet_ask (plain : q.hush = none) (rest : ∀ reply, q.Proper reply → (next reply).Discreet) :
    (ask q next).Discreet :=
  (discreet_ask_iff plain).mpr rest

theorem discreet_tell {quiet : q.Reply} (report : q.hush = some quiet)
    (rest : ∀ reply, (next reply).Discreet ∧ (next reply).hushed = (next quiet).hushed) : (ask q next).Discreet :=
  (discreet_tell_iff report).mpr rest

theorem Discreet.after (discreet : (ask q next).Discreet) (plain : q.hush = none) {reply : q.Reply}
    (proper : q.Proper reply) : (next reply).Discreet :=
  (discreet_ask_iff plain).mp discreet reply proper

theorem Discreet.report {quiet : q.Reply} (discreet : (ask q next).Discreet) (report : q.hush = some quiet)
    (reply : q.Reply) : (next reply).Discreet ∧ (next reply).hushed = (ask q next).hushed := by
  rw [hushed_report report]
  exact (discreet_tell_iff report).mp discreet reply

@[simp] theorem hushed_hushed : p.hushed.hushed = p.hushed := by
  induction p with
  | done | stop => rfl
  | ask q next ih =>
    cases report : q.hush with
    | some quiet => rw [hushed_report report,ih]
    | none => simp only [hushed_ask report,ih]

theorem hushed_bind {f : α → Program β} : (p >>= f).hushed = p.hushed >>= fun a => (f a).hushed := by
  induction p with
  | done | stop => rfl
  | ask q next ih =>
    cases report : q.hush with
    | some quiet => rw [ask_bind,hushed_report report,hushed_report report,ih]
    | none => simp only [ask_bind,hushed_ask report,ih]

theorem Discreet.bind {f : α → Program β} (first : p.Discreet) (rest : ∀ a, (f a).Discreet) : (p >>= f).Discreet := by
  induction p with
  | done a => exact rest a
  | stop reason => trivial
  | ask q next ih =>
    cases report : q.hush with
    | some quiet =>
      show (ask q fun reply => next reply >>= f).Discreet
      refine discreet_tell report fun reply => ?_
      obtain ⟨discreet,same⟩ := first.report report reply
      rw [hushed_report report] at same
      exact ⟨ih reply discreet,by rw [hushed_bind,hushed_bind,same]⟩
    | none => exact discreet_ask report fun reply proper => ih reply (first.after report proper)

/-- What a callback does without its reports depends only on what the program does without its own. -/
theorem hushed_callback : p.callback.hushed = p.hushed.callback.hushed := by
  induction p with
  | done => rfl
  | stop reason => rfl
  | ask q next ih =>
    cases report : q.hush with
    | some quiet => rw [callback,hushed_report report,hushed_report report,ih]
    | none => simp only [callback,hushed_ask report,ih]

theorem discreet_abort {cause : Diagnostics.Fatal} : (abort cause : Program α).Discreet :=
  discreet_tell rfl fun _ => ⟨trivial,rfl⟩

theorem Discreet.callback (discreet : p.Discreet) : p.callback.Discreet := by
  induction p with
  | done a => trivial
  | stop reason =>
    cases reason with
    | overflow => exact discreet_tell rfl fun _ => ⟨trivial,rfl⟩
    | trapped | threadLost | aborted => trivial
  | ask q next ih =>
    cases report : q.hush with
    | some quiet =>
      refine discreet_tell report fun reply => ?_
      obtain ⟨rest,same⟩ := discreet.report report reply
      rw [hushed_report report] at same
      exact ⟨ih reply rest,by rw [hushed_callback,hushed_callback (p := next quiet),same]⟩
    | none => exact discreet_ask report fun reply proper => ih reply (discreet.after report proper)

end

theorem discreet_request {q : Request} (plain : q.hush = none) : (request q).Discreet :=
  discreet_ask plain fun _ _ => trivial

theorem discreet_checked (c : Checked α) : (checked c).Discreet := by
  cases c <;> trivial

/-- A report whose text can be made is discreet. -/
theorem discreet_report {level : Verbosity} {m : Program Diagnostics.Message} {a : Diagnostics.Message}
    (text : m = done a) : (report level m).Discreet := by
  subst text
  have silent (verbosity : Verbosity) : (if verbosity.shows level then
      (done a >>= fun m => emit (Diagnostics.tagged m)) else done ()).hushed = done () := by
    split <;> rfl
  refine discreet_tell rfl fun verbosity => ⟨?_,(silent _).trans (silent _).symm⟩
  show (if verbosity.shows level then _ else _ : Program Unit).Discreet
  split
  · exact discreet_tell rfl fun _ => ⟨trivial,rfl⟩
  · trivial

theorem discreet_trace {text : Program String} {s : String} (made : text = done s) : (trace text).Discreet :=
  discreet_report (a := [.text s]) (by rw [made]; rfl)

theorem discreet_notice {text : Program String} {s : String} (made : text = done s) : (notice text).Discreet :=
  discreet_report (a := [.text s]) (by rw [made]; rfl)

end Program

namespace Attempt

def Discreet (attempt : Attempt α) : Prop := attempt.run.Discreet

theorem Discreet.bind {attempt : Attempt α} {f : α → Attempt β} (first : attempt.Discreet)
    (rest : ∀ a, (f a).Discreet) : (attempt >>= f).Discreet := by
  refine Program.Discreet.bind first ?_
  rintro (cause | a)
  · trivial
  · exact rest a

theorem discreet_lift {p : Program α} (discreet : p.Discreet) : (liftM p : Attempt α).Discreet :=
  Program.Discreet.bind discreet fun _ => trivial

theorem discreet_outcome {attempt : Attempt α} (discreet : attempt.Discreet) : attempt.outcome.Discreet :=
  Program.Discreet.bind discreet fun _ => trivial

theorem discreet_orAbort {what : String} {attempt : Attempt α} (discreet : attempt.Discreet) :
    (attempt.orAbort what).Discreet := by
  refine Program.Discreet.bind discreet ?_
  rintro (cause | a)
  · exact Program.discreet_abort
  · trivial

end Attempt

open Program Attempt

namespace Region

theorem closeGuard_discreet {rt : RuntimeId} {start total guard : UInt64} :
    (closeGuard rt start total guard).Discreet := by
  refine .bind (discreet_outcome (discreet_request rfl)) ?_
  rintro (cause | _)
  · refine .bind (discreet_outcome (discreet_request rfl)) ?_
    rintro (leftover | _)
    · exact .bind (discreet_lift (discreet_trace rfl)) fun _ => trivial
    · trivial
  · trivial

theorem map_discreet {rt : RuntimeId} {len : UInt64} {rights : Rights} {f : UInt64 → Attempt α}
    (rest : ∀ addr, (⟨rt,addr,len⟩ : Mapping).Proper → (f addr).Discreet) : (Mapper.map rt len rights >>= f).Discreet := by
  refine discreet_ask rfl ?_
  rintro (cause | addr) proper
  · trivial
  · exact rest addr proper

/-- The end of a new region is computed for its trace only. It fits wherever the mapping was made properly. -/
theorem allocate_discreet {rt : RuntimeId} {size guard : UInt64} : (allocate rt size guard).Discreet := by
  unfold allocate
  cases sum : Checked.add size guard with
  | error => trivial
  | ok total =>
    refine map_discreet fun start proper => ?_
    have traced : (trace (Program.checked (Checked.add (start + guard) size) >>= fun top =>
        pure s!"mapped unsafe stack {hex (start + guard)}..{hex top} (guard {hex guard})")).Discreet := by
      refine discreet_trace (s := s!"mapped unsafe stack {hex (start + guard)}..{hex (start + guard + size)} (guard {hex guard})") ?_
      rw [Mapping.Proper.traced proper sum]
      rfl
    dsimp only
    split
    · exact .bind closeGuard_discreet fun _ => .bind (discreet_lift traced) fun _ => trivial
    · exact .bind (discreet_lift traced) fun _ => trivial

theorem release_discreet {rt : RuntimeId} {r : Region} : (release rt r).Discreet :=
  .bind (discreet_lift (discreet_checked _)) fun _ =>
    .bind (discreet_request rfl) fun _ => discreet_lift (discreet_trace rfl)

theorem discard_discreet {rt : RuntimeId} {reason : String} {r : Region} : (discard rt reason r).Discreet := by
  refine .bind release_discreet ?_
  rintro (leftover | _)
  · exact discreet_trace rfl
  · trivial

end Region

theorem Thread.install_discreet {h : Holding} : (Thread.install h).Discreet := by
  refine .bind (discreet_lift (discreet_request rfl)) fun s => ?_
  split
  · exact discreet_lift (discreet_request rfl)
  · trivial

theorem Thread.take_discreet : Thread.take.Discreet :=
  .bind (discreet_request rfl) fun _ => .bind (discreet_request rfl) fun _ => trivial

theorem Runtime.cleanupKey_discreet {rt : RuntimeId} : (cleanupKey rt).Discreet := by
  refine .bind (discreet_request rfl) fun key => ?_
  cases key with
  | none => exact discreet_abort
  | some key => trivial

theorem Host.attributes_discreet {rt : RuntimeId} {attr : Option AttributeRef} : (attributes rt attr).Discreet := by
  cases attr with
  | none => exact discreet_request rfl
  | some attr => exact discreet_request rfl

namespace Startup

theorem attach_discreet {rt : RuntimeId} {region : Region} : (attach rt region).Discreet :=
  .bind Thread.install_discreet fun _ => .bind (discreet_request rfl) fun _ =>
    .bind (discreet_request rfl) fun _ => discreet_lift (discreet_request rfl)

theorem detach_discreet {region : Region} : (detach region).Discreet := by
  refine .bind (discreet_request rfl) fun s => ?_
  split
  · exact .bind Thread.take_discreet fun _ => trivial
  · trivial

theorem bringUp_discreet {rt : RuntimeId} : (bringUp rt).Discreet := by
  refine .bind (discreet_lift (discreet_request rfl)) fun limit => ?_
  refine .bind (discreet_lift (discreet_request rfl)) fun guard => ?_
  refine .bind Region.allocate_discreet fun region => ?_
  refine .bind (discreet_outcome attach_discreet) ?_
  rintro (cause | _)
  · exact .bind (discreet_lift detach_discreet) fun _ =>
      .bind (discreet_lift Region.discard_discreet) fun _ => trivial
  · trivial

/-- The environment's variable is read into the verbosity and nowhere else. -/
theorem attempt_discreet {rt : RuntimeId} : (attempt rt).Discreet := by
  refine .bind (discreet_lift (discreet_request rfl)) fun won => ?_
  split
  · refine discreet_tell rfl fun setting => ⟨?_,rfl⟩
    refine discreet_tell rfl fun _ => ⟨?_,rfl⟩
    change ((bringUp rt).outcome >>= _ : Attempt Region).Discreet
    refine .bind (discreet_outcome bringUp_discreet) ?_
    rintro (cause | region)
    · exact .bind (discreet_lift (discreet_request rfl)) fun _ => trivial
    · exact .bind (discreet_lift (discreet_request rfl)) fun _ =>
        .bind (discreet_lift (discreet_notice rfl)) fun _ => trivial
  · trivial

end Startup

namespace Handoff

theorem slot_discreet {r : Region} : (slot r).Discreet := by
  unfold slot
  split
  · trivial
  · refine .bind (discreet_lift (discreet_checked _)) fun addr => ?_
    split
    · trivial
    · exact discreet_lift discreet_abort

theorem place_discreet {h : Handoff} : (place h).Discreet :=
  .bind slot_discreet fun _ => .bind (discreet_lift (discreet_request rfl)) fun _ => trivial

theorem take_discreet {addr : UInt64} : (take addr).Discreet :=
  .bind (discreet_request rfl) fun _ => .bind (discreet_request rfl) fun _ => trivial

end Handoff

namespace Spawn

variable {rt : RuntimeId} {handle arg : UInt64} {attr : Option AttributeRef} {start : EntryPoint}

theorem prepare_discreet : (prepare rt attr start arg).Discreet := by
  refine .bind Host.attributes_discreet fun attributes => ?_
  refine .bind (discreet_lift (discreet_request rfl)) fun pageSize => ?_
  refine .bind (discreet_lift (discreet_checked _)) ?_
  rintro (cause | _)
  · trivial
  refine .bind Region.allocate_discreet fun region => ?_
  refine .bind (discreet_outcome Handoff.place_discreet) ?_
  rintro (cause | record)
  · exact .bind (discreet_lift Region.discard_discreet) fun _ => trivial
  · exact .bind (discreet_lift (discreet_trace rfl)) fun _ => trivial

theorem intercept_discreet : (intercept rt handle attr start arg).Discreet := by
  refine .bind (discreet_request rfl) fun phase => ?_
  split
  · refine .bind (discreet_orAbort prepare_discreet) fun record => ?_
    refine .bind (discreet_request rfl) fun code => ?_
    split
    · trivial
    · exact .bind Handoff.take_discreet fun _ =>
        .bind (discreet_orAbort Region.release_discreet) fun _ => trivial
  · exact discreet_abort

theorem firstFrame_discreet {record : UInt64} : (firstFrame record).Discreet := by
  unfold firstFrame
  split
  · exact discreet_abort
  · exact .bind Handoff.take_discreet fun _ => .bind (discreet_orAbort Thread.install_discreet) fun _ =>
      .bind Runtime.cleanupKey_discreet fun _ => .bind (discreet_orAbort (discreet_request rfl)) fun _ =>
        discreet_request rfl

end Spawn

namespace Cleanup

theorem releaseCurrent_discreet : releaseCurrent.Discreet := by
  refine .bind Thread.take_discreet fun held => ?_
  cases held with
  | none => trivial
  | some held => exact discreet_orAbort Region.release_discreet

theorem round_discreet {pass ceiling : UInt64} : (round pass ceiling).Discreet := by
  refine .bind (discreet_request rfl) fun s => ?_
  split
  · trivial
  · refine .bind (discreet_checked _) fun action => ?_
    cases action with
    | rearm next => exact .bind Runtime.cleanupKey_discreet fun _ => discreet_orAbort (discreet_request rfl)
    | release => exact releaseCurrent_discreet

end Cleanup

/-- All operations go on in the same way however their reports are answered. -/
theorem Operation.discreet (op : Operation) : op.program.Discreet := by
  cases op with
  | start rt => exact Startup.attempt_discreet
  | spawn => exact Spawn.intercept_discreet
  | body routine arg =>
    cases routine with
    | fromRecord => exact Spawn.firstFrame_discreet
    | function entry => exact discreet_request rfl
  | destroy value => exact Cleanup.round_discreet.callback

end GuardedStack
