import GuardedStack.Proofs.Bids
import GuardedStack.Proofs.Measures
import GuardedStack.Proofs.Wording

/-! The report of a fault that ends the process. Texts that fit are written as they are, and no report is longer than a
line; what was being done ends at the colon, so that a report tells it and the fault. -/
namespace GuardedStack

namespace Diagnostics

/-- Texts for which there is room are all shown. -/
theorem render_text {strings : List String} (fits : byteLength (strings.flatMap String.toList) ≤ capacity) :
    render (strings.map .text) = .ofList (strings.flatMap String.toList) := by
  have calm : .failure ∉ strings.map Piece.text := by simp
  have chars : Message.chars (strings.map .text) = strings.flatMap String.toList := List.flatMap_map ..
  rw [render,(LineBuffer.writeAll_empty calm (chars ▸ fits)).1,chars]
  rfl

namespace Duty

theorem text_inj {d d' : Duty} (same : d.text = d'.text) : d = d' := by
  cases d <;> cases d' <;> first | rfl | exact absurd same (by decide)

theorem text_size (d : Duty) : d.text.utf8ByteSize ≤ 30 := by
  cases d <;> decide

theorem text_plain (d : Duty) : ':' ∉ d.text.toList := by
  cases d <;> decide

/-- The report of a fault. -/
def report (d : Duty) (cause : Fault) : String := "[twin_stacks] FATAL: " ++ d.text ++ ": " ++ cause.message ++ "\n"

variable {d d' : Duty} {cause cause' : Fault}

theorem report_eq : d.report cause = "[twin_stacks] FATAL: " ++ d.text ++ ": " ++ cause.message ++ "\n" := rfl

theorem report_size : (d.report cause).utf8ByteSize ≤ capacity := by
  have duty := d.text_size
  have message := cause.message_size
  have fixed : "[twin_stacks] FATAL: ".utf8ByteSize = 21 ∧ ": ".utf8ByteSize = 2 ∧ "\n".utf8ByteSize = 1 := ⟨rfl,rfl,rfl⟩
  have line : capacity = 256 := rfl
  rw [report_eq,String.utf8ByteSize_append,String.utf8ByteSize_append,String.utf8ByteSize_append,
    String.utf8ByteSize_append]
  omega

/-- A report is written in full. -/
theorem line_eq : (Fatal.fault d.text cause).line = d.report cause := by
  have joined : ["[twin_stacks] ","FATAL: ",d.text,": ",cause.message,"\n"].flatMap String.toList =
      (d.report cause).toList := by
    simp [report_eq]
  have written : (Fatal.fault d.text cause).line =
      render (["[twin_stacks] ","FATAL: ",d.text,": ",cause.message,"\n"].map .text) := rfl
  rw [written,render_text,joined,String.ofList_toList]
  rw [joined,byteLength_toList]
  exact report_size

/-- A report tells what was being done, and the fault with its values. -/
theorem report_inj (same : d.report cause = d'.report cause') : d = d' ∧ cause = cause' := by
  have fields (d : Duty) (rest : String) : (d.text ++ (": " ++ rest)).toList.splitOn ':' =
      d.text.toList :: (' ' :: rest.toList).splitOn ':' := by
    rw [String.toList_append,String.toList_append]
    exact List.splitOn_append_cons_self_of_not_mem d.text_plain _
  have rows : d.text ++ (": " ++ (cause.message ++ "\n")) = d'.text ++ (": " ++ (cause'.message ++ "\n")) := by
    simpa only [report_eq,String.append_right_inj,String.append_assoc] using same
  have heads := congrArg (fun row : String => row.toList.splitOn ':') rows
  simp only [fields,List.cons.injEq,String.toList_inj] at heads
  obtain rfl := text_inj heads.1
  constructor
  · rfl
  · apply Fault.message_inj
    simpa only [String.append_right_inj,String.append_left_inj] using rows

end Duty
end Diagnostics

open Diagnostics

/-- Where a fault ends the program, the request before was to write its report. -/
inductive Program.Reported : Program α → Prop
  | done (a : α) : Reported (.done a)
  | stop {reason : Stop} (unfaulted : reason.Unfaulted) : Reported (.stop reason)
  | report (d : Duty) (cause : Fault) :
      Reported (.ask (.state (.emit (d.report cause))) fun _ => .stop (.aborted (.fault d.text cause)))
  | ask {q : Request} {next : q.Reply → Program α} (rest : ∀ reply, Reported (next reply)) : Reported (.ask q next)

section
variable {S : Request → Prop} {d : Duty} {rt : RuntimeId}

namespace Program

theorem Reported.bind {p : Program α} {f : α → Program β} (first : p.Reported) (rest : ∀ a, (f a).Reported) :
    (p >>= f).Reported := by
  induction first with
  | done a => exact rest a
  | stop unfaulted => exact .stop unfaulted
  | report d cause => exact .report d cause
  | ask _ ih => exact .ask ih

theorem Reported.callback {p : Program α} (reported : p.Reported) : p.callback.Reported := by
  induction reported with
  | done a => exact .done a
  | @stop reason unfaulted =>
    cases reason with
    | overflow operation => exact .ask fun _ => .stop trivial
    | trapped | threadLost | aborted => exact .stop unfaulted
  | report d cause => exact .report d cause
  | ask _ ih => exact .ask ih

theorem Asks.reported {p : Program α} (asks : p.Asks S Stop.Unfaulted) : p.Reported := by
  induction p with
  | done a => exact .done a
  | stop reason => exact .stop asks
  | ask q next ih => exact .ask fun reply => ih reply (asks.2 reply)

theorem reported_request {q : Request} : (request q).Reported := .ask fun _ => .done _

end Program

/-- An attempt that must succeed goes on with its value, or its fault is written as a report and ends the process. -/
theorem Attempt.orAbort_eq (attempt : Attempt α) : attempt.orAbort d.text = attempt.run >>= fun result =>
    match result with
    | .ok a => .done a
    | .error cause => .ask (.state (.emit (d.report cause))) fun _ => .stop (.aborted (.fault d.text cause)) := by
  have abort (cause : Fault) : (Program.abort (.fault d.text cause) : Program α) =
      .ask (.state (.emit (d.report cause))) fun _ => .stop (.aborted (.fault d.text cause)) := by
    rw [← Duty.line_eq]
    rfl
  unfold Attempt.orAbort
  congr 1
  funext result
  cases result with
  | ok a => rfl
  | error cause => exact abort cause

theorem Attempt.reported_orAbort {attempt : Attempt α} (asks : attempt.Asks S Stop.Unfaulted) :
    (attempt.orAbort d.text).Reported := by
  rw [Attempt.orAbort_eq]
  apply Program.Reported.bind (Program.Asks.reported asks)
  intro result
  cases result with
  | ok a => exact .done a
  | error cause => exact .report d cause

open Program Attempt

theorem Runtime.reported_cleanupKey : (cleanupKey rt).Reported := by
  apply Reported.bind reported_request
  intro key
  cases key with
  | some key => exact .done key
  | none => exact .ask fun _ => .stop trivial

theorem Host.reported_setCleanupValue {key : CleanupKey} {value : UInt64} :
    ((setCleanupValue rt key value).orAbort d.text).Reported :=
  reported_orAbort (S := fun _ => True) (asks_request (q := .host _ _) trivial)

theorem Region.reported_release {r : Region} : ((release rt r).orAbort d.text).Reported :=
  reported_orAbort (release_asks.mono (fun _ => id) fun _ => Stop.Overflow.unfaulted)

namespace Startup

theorem attempt_asks : (attempt rt).Asks (fun _ => True) Stop.Unfaulted := by
  have attach {region : Region} : (attach rt region).Asks (fun _ => True) Stop.Unfaulted := by
    refine .bind (Thread.install_asks trivial fun _ => trivial) fun _ => ?_
    refine .bind (asks_request (q := .host _ _) trivial) fun _ => ?_
    exact .bind (asks_request (q := .host _ _) trivial) fun _ => asks_lift (asks_request trivial)
  have bringUp : (bringUp rt).Asks (fun _ => True) Stop.Unfaulted := by
    apply Attempt.Asks.bind (asks_lift (asks_request trivial))
    intro limit
    apply Attempt.Asks.bind (asks_lift (asks_request trivial))
    intro guard
    apply Attempt.Asks.bind (Region.allocate_asks.mono (fun _ _ => trivial) fun _ => Stop.Overflow.unfaulted)
    intro region
    apply Attempt.Asks.bind (asks_outcome attach)
    intro result
    cases result with
    | ok a => trivial
    | error cause =>
      apply Attempt.Asks.bind (asks_lift (detach_asks.mono (fun _ _ => trivial) fun _ => id))
      intro _
      apply Attempt.Asks.bind (asks_lift (Region.discard_asks.mono (fun _ _ => trivial) fun _ => Stop.Overflow.unfaulted))
      intro _
      trivial
  apply Attempt.Asks.bind (asks_lift (asks_request trivial))
  intro won
  cases won with
  | false => trivial
  | true =>
    apply Attempt.Asks.bind (asks_lift (asks_request trivial))
    intro setting
    apply Attempt.Asks.bind (asks_lift (asks_request trivial))
    intro _
    apply Attempt.Asks.bind (asks_outcome bringUp)
    intro result
    cases result with
    | error cause => exact .bind (asks_lift (asks_request trivial)) fun _ => trivial
    | ok region =>
      apply Attempt.Asks.bind (asks_lift (asks_request trivial))
      intro _
      exact .bind (asks_lift (asks_notice trivial (fun _ => trivial) asks_text)) fun _ => trivial

theorem reported_run : (run rt).Reported := reported_orAbort (d := .starting) attempt_asks

end Startup

namespace Spawn

theorem reported_intercept {handle : UInt64} {attr : Option AttributeRef} {start : EntryPoint} {arg : UInt64} :
    (intercept rt handle attr start arg).Reported := by
  apply Reported.bind reported_request
  intro phase
  split
  · apply Reported.bind (reported_orAbort (d := .preparing) prepare_asks)
    intro record
    apply Reported.bind reported_request
    intro code
    split
    · exact .done code
    · apply Reported.bind (Handoff.take_asks (S := fun _ => True) (fun _ _ => trivial) fun _ _ => trivial).reported
      intro handoff
      exact .bind (Region.reported_release (d := .releasingUnused)) fun _ => .done code
  · exact .ask fun _ => .stop trivial

theorem reported_firstFrame {record : UInt64} : (firstFrame record).Reported := by
  unfold firstFrame
  split
  · exact .ask fun _ => .stop trivial
  · apply Reported.bind (Handoff.take_asks (S := fun _ => True) (fun _ _ => trivial) fun _ _ => trivial).reported
    intro handoff
    apply Reported.bind
    · exact reported_orAbort (d := .installing) (S := fun _ => True) (Thread.install_asks trivial fun _ => trivial)
    intro _
    apply Reported.bind Runtime.reported_cleanupKey
    intro key
    exact .bind (Host.reported_setCleanupValue (d := .arming)) fun _ => reported_request

end Spawn

theorem Cleanup.reported_round {value ceiling : UInt64} : (round value ceiling).Reported := by
  apply Reported.bind reported_request
  intro s
  split
  · exact .done ()
  · apply Reported.bind ((asks_checked (S := fun _ => True) _).mono (fun _ => id) fun _ => Stop.Overflow.unfaulted).reported
    intro action
    cases action with
    | rearm next => exact .bind Runtime.reported_cleanupKey fun _ => Host.reported_setCleanupValue (d := .rearming)
    | release =>
      apply Reported.bind (Thread.take_asks (S := fun _ => True) trivial trivial).reported
      intro held
      cases held with
      | none => exact .done ()
      | some held => exact Region.reported_release (d := .releasing)

theorem Operation.reported (op : Operation) : op.program.Reported := by
  cases op with
  | start rt => exact Program.Asks.reported Startup.attempt_asks
  | spawn => exact Spawn.reported_intercept
  | body routine arg =>
    cases routine with
    | fromRecord => exact Spawn.reported_firstFrame
    | function entry => exact reported_request
  | destroy value => exact Cleanup.reported_round.callback

end

/-- A fault that ends the process is reported in full, with what was being done; no two reports read the same, and no
operation ends with a fault in any other way. -/
theorem reports_complete :
    (∀ (α : Type) d cause, (throw cause : Attempt α).orAbort (Duty.text d) =
      .ask (.state (.emit (d.report cause))) fun _ => .stop (.aborted (.fault d.text cause))) ∧
    (∀ d cause, (Duty.report d cause).utf8ByteSize ≤ capacity) ∧
    (∀ d d' cause cause', Duty.report d cause = Duty.report d' cause' ↔ d = d' ∧ cause = cause') ∧
    (∀ op : Operation, op.program.Reported) ∧ ∀ rt, (Startup.run rt).Reported := by
  refine ⟨?_,fun _ _ => Duty.report_size,?_,Operation.reported,fun _ => Startup.reported_run⟩
  · intro α d cause
    exact Attempt.orAbort_eq (throw cause)
  · intro d d' cause cause'
    constructor
    · exact Duty.report_inj
    · rintro ⟨rfl,rfl⟩
      rfl

end GuardedStack
