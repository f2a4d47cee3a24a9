import GuardedStack.Proofs.Asks
import GuardedStack.Proofs.Lines
import GuardedStack.Proofs.Volume

/-! Arithmetic that always fits. What an operation computes is bounded by what the mapper promises of a mapping and by what
was checked before, so that no operation ever stops by an overflow; and every region that comes up describes a mapping, so
that whatever is asked of it can be computed. -/
namespace GuardedStack

/-- Whatever is asked of the region can be computed. The guard is told from wrapping differences alone. -/
structure Region.Computes (r : Region) : Prop where
  length : ∃ len, r.length = .ok len
  contains : ∀ addr, ∃ inside, r.contains addr = .ok inside
  slot : (Handoff.slot r).Asks (fun _ => True) fun reason => ∃ cause, reason = .aborted cause

namespace Region.Sound

variable {r s : Region}

theorem overlaps_eq (sound : r.Sound) (other : s.Sound) : ∃ shared, r.overlaps s = .ok shared :=
  ⟨_,Fits.overlaps_eq sound.fits other.fits⟩

theorem slot_asks (sound : r.Sound) :
    (Handoff.slot r).Asks (fun _ => True) fun reason => ∃ cause, reason = .aborted cause := by
  unfold Handoff.slot
  split
  · trivial
  next large =>
    have enough := UInt64.le_iff_toNat_le.mp (UInt64.not_lt.mp large)
    have below : Handoff.size ≤ r.top := UInt64.le_iff_toNat_le.mpr (by rw [sound.top_toNat]; omega)
    refine .bind (Attempt.asks_lift ?_) fun addr => ?_
    · rw [Checked.subtract_eq_ok_iff.mpr ⟨below,rfl⟩]
      trivial
    · split
      · trivial
      · exact Attempt.asks_lift (Program.asks_abort (fun _ => trivial) ⟨_,rfl⟩)

theorem computes (sound : r.Sound) : r.Computes :=
  ⟨⟨_,sound.length_eq⟩,fun addr => ⟨_,sound.contains_eq addr⟩,sound.slot_asks⟩

end Region.Sound

/-- A region comes up: as what a mapping may be split into, on a thread, in a record or as a result. -/
inductive Event.Brings : Event → Region → Prop
  | mapped {n t rt rights addr size guard total} : Checked.add size guard = .ok total →
      Brings (.answered n t (.mapper rt (.map total rights)) (.ok addr)) ⟨addr + guard,size,guard⟩
  | installed {n t s h} : s.holding = some h → Brings (.answered n t (.state (.setStack s)) ()) h.region
  | begun {n t call record} : Brings (.began n t call record) record.region
  | returned {n t rt r} : Brings (.returned n t (.start rt) (.ok r)) r

namespace Custody

/-- What an initialization has installed, or has come to, is a sound region. -/
def Firm (c : Custody) : Prop :=
  (∀ h, c.hand = .installed h → h.region.Sound) ∧ ∀ h, c.role = .started h → h.region.Sound

variable {c : Custody} {q : Request} {reply : q.Reply}

theorem Firm.write {s : ThreadStack} (firm : c.Firm) (sound : s.Sound) : (c.write s).Firm := by
  unfold Custody.write
  split
  · exact ⟨by simp,by simp⟩
  next h _ stack _ =>
    refine ⟨?_,firm.2⟩
    rintro h' ⟨⟩
    exact (sound.some h stack).1
  · exact ⟨by simp,firm.2⟩
  · refine ⟨?_,by simp⟩
    dsimp only
    split <;> simp
  · exact firm

theorem Firm.after (firm : c.Firm) (may : c.May q) : (c.after q reply).Firm := by
  cases q with
  | enter => exact firm
  | mapper rt call =>
    cases call with
    | map len rights =>
      cases reply with
      | ok addr => exact ⟨by simp [Custody.after],firm.2⟩
      | error cause => exact firm
    | unmap => exact ⟨by simp [Custody.after],firm.2⟩
    | pageSize | protect => exact firm
  | host rt call =>
    cases call with
    | setCleanupValue key value =>
      cases reply with
      | ok done => exact ⟨firm.1,by simp [Custody.after]⟩
      | error cause => exact firm
    | spawn call =>
      simp only [Custody.after]
      split
      · exact ⟨by simp,firm.2⟩
      · exact firm
    | stackLimit | defaultAttributes | requestedAttributes | installInterception | createCleanupKey => exact firm
  | state call =>
    cases call with
    | setStack s => exact firm.write may.1
    | stack =>
      refine ⟨?_,firm.2⟩
      intro h installed
      simp only [Custody.after,Custody.read] at installed
      split at installed
      next held =>
        split at installed
        · cases installed
          exact firm.1 _ held
        · cases installed
      next => exact firm.1 h installed
    | setPhase rt phase =>
      cases phase with
      | ready =>
        simp only [Custody.after,Custody.setPhase]
        split
        next h held => exact ⟨by simp,by rintro h' ⟨⟩; exact firm.1 h held⟩
        next => exact firm
      | uninitialized | initializing => exact ⟨firm.1,by simp [Custody.after,Custody.setPhase]⟩
    | store addr bytes =>
      simp only [Custody.after,Custody.store]
      split
      · exact ⟨by simp,firm.2⟩
      · exact ⟨by simp,firm.2⟩
      · exact firm
    | exchangePhase rt expected desired =>
      simp only [Custody.after]
      split
      · exact ⟨firm.1,by simp⟩
      · exact firm
    | phase rt =>
      simp only [Custody.after]
      split <;> exact firm
    | keepKey => exact ⟨firm.1,by simp [Custody.after]⟩
    | key | load | verbosity | setVerbosity | environment | emit => exact firm

end Custody

namespace World

/-- A run in which the diagnostics are set anew at any time. -/
inductive Retuned : Trace → World → Prop
  | nil {w} : w.Initial → Retuned [] w
  | step {trace w e w'} : Retuned trace w → ¬w.Ended → w.Step e w' → Retuned (e :: trace) w'
  | tune {trace w} (verbosity environment stderr) : Retuned trace w → Retuned trace (w.tune verbosity environment stderr)

variable {trace : Trace} {w w' : World} {e : Event}

theorem Inv.tune (inv : w.Inv trace) (verbosity environment stderr) : (w.tune verbosity environment stderr).Inv trace := by
  obtain ⟨orderly,phased,exact_,pledged,mapped⟩ := inv
  exact ⟨⟨orderly.fresh,orderly.old,orderly.home,orderly.tidy,orderly.seen,orderly.busy,orderly.sound,orderly.unborn,
      orderly.routine⟩,
    ⟨phased.starting,phased.starter,phased.learned,phased.keyed,phased.keyless,phased.lookup,phased.installer⟩,
    exact_,pledged,mapped⟩

theorem Step.firm (inv : w.Inv trace) (step : w.Step e w') (firm : ∀ n, (trace.custodies n).Firm) (n : Nat) :
    (Trace.custodies (e :: trace) n).Firm := by
  have other {k : Nat} {c : Custody} (new : c.Firm) : (replace trace.custodies k c n).Firm := by
    by_cases same : n = k
    · simpa [same] using new
    · simpa [same] using firm n
  cases step with
  | @call t op => exact other (by cases op <;> simp [Custody.Firm,Custody.ofOperation])
  | begin => exact other (by simp [Custody.Firm,Custody.ofRecord])
  | fire => exact other (by simp [Custody.Firm,Custody.ofValue])
  | answer here => exact other ((firm _).after (inv.may here))
  | ret | move | key | exit | round | skip | foreign => exact firm n

/-- A region that comes up in a step describes a mapping. -/
theorem Step.brings {r : Region} (inv : w.Inv trace) (firm : ∀ n, (trace.custodies n).Firm) (step : w.Step e w')
    (brings : e.Brings r) : r.Sound := by
  cases brings with
  | mapped sum =>
    cases step with
    | answer here answers => exact (Mapping.Proper.region answers.1 sum (inv.may here).2.1).1
  | installed held =>
    cases step with
    | answer here answers => exact ((inv.may here).1.some _ held).1
  | begun =>
    cases step with
    | begin unborn member =>
      obtain ⟨h,rests,record⟩ := inv.record member
      rw [record]
      exact rests.sits.sound
  | returned =>
    cases step with
    | ret here =>
      obtain ⟨-,rt,started⟩ := (inv.orderly.tidy _).follows (here ▸ List.mem_cons_self)
      exact (firm _).2 _ started

structure Fitting (trace : Trace) (w : World) : Prop where
  inv : w.Inv trace
  firm : ∀ n, (trace.custodies n).Firm
  sound : ∀ e ∈ trace, ∀ r, e.Brings r → r.Sound

theorem Retuned.fitting (run : Retuned trace w) : Fitting trace w := by
  induction run with
  | nil initial => exact ⟨initial.inv,fun n => by simp [Trace.custodies,Custody.idle,Custody.Firm],by simp⟩
  | step _ _ step ih =>
    refine ⟨ih.inv.step step,step.firm ih.inv ih.firm,fun e member r brings => ?_⟩
    rcases List.mem_cons.mp member with rfl | earlier
    · exact step.brings ih.inv ih.firm brings
    · exact ih.sound e earlier r brings
  | tune verbosity environment stderr _ ih => exact ⟨ih.inv.tune verbosity environment stderr,ih.firm,ih.sound⟩

/-- No arithmetic overflows, at any verbosity: not in an operation, which stops for good only by a reported abort; not where a
region that has come up is asked for its length, for an address, for an overlap with another one or for the place of a
record; and not while a line is made. Of the mappers this takes that a new mapping has an address other than zero, ends
below the end of the address space and is fresh memory, apart from what is live: a record keeps its bytes until it is
read. -/
theorem Retuned.fits (run : Retuned trace w) :
    (∀ t, ∀ f ∈ w.frames t, ∀ reason, f.Stopped reason → ∃ cause, reason = .aborted cause) ∧
      (∀ e ∈ trace, ∀ r, e.Brings r → r.Computes ∧
        ∀ e' ∈ trace, ∀ s, e'.Brings s → ∃ shared, r.overlaps s = .ok shared) ∧
      ∀ m, Diagnostics.renderChecked m = .ok (Diagnostics.render m) := by
  obtain ⟨inv,-,sound⟩ := run.fitting
  refine ⟨fun t f member reason stopped => ?_,fun e member r brings => ?_,Diagnostics.render_checked⟩
  -- An operation that has stopped has done so in a way that its discipline allows.
  · have follows := (inv.orderly.tidy t).follows member
    rw [show f.rest = .stop reason from stopped] at follows
    cases reason with
    | aborted cause => exact ⟨cause,rfl⟩
    | overflow | trapped | threadLost => exact follows.elim
  · have here := sound e member r brings
    exact ⟨here.computes,fun e' member' s brings' => here.overlaps_eq (sound e' member' s brings')⟩

theorem Run.retuned (run : Run trace w) : Retuned trace w := by
  induction run with
  | nil initial => exact .nil initial
  | step _ going step ih => exact .step ih going step

/-- The main thread initializes a runtime. -/
def launch : Trace × World := perform (fun _ => false) 0 (.start ⟨0⟩) ([],first)

theorem launch_run : Run launch.1 launch.2 := by
  have ongoing : Going launch := first_going.perform (by simp [first]) trivial rfl
  exact ongoing.run

theorem fits_launch : ∃ e ∈ launch.1, e.Brings ⟨0x101000,0x2800000,0x1000⟩ ∧
    (⟨0x101000,0x2800000,0x1000⟩ : Region).Computes ∧
    ∃ shared, Region.overlaps ⟨0x101000,0x2800000,0x1000⟩ ⟨0x101000,0x2800000,0x1000⟩ = .ok shared := by
  have fits := Retuned.fits (.tune .trace none .broken launch_run.retuned)
  have returned : .returned 0 0 (.start ⟨0⟩) (.ok ⟨0x101000,0x2800000,0x1000⟩) ∈ launch.1 := .head _
  obtain ⟨computes,overlaps⟩ := fits.2.1 _ returned _ .returned
  exact ⟨_,returned,.returned,computes,overlaps _ returned _ .returned⟩

end World
end GuardedStack
