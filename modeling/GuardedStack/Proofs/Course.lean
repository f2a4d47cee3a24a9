import GuardedStack.Proofs.Sole
import GuardedStack.Proofs.Tenure

/-! With one runtime, every thread that started from a record keeps to its course, whatever else happens on it and on
other threads: a runtime that is ready is never initialized again. -/
namespace GuardedStack.World

structure Course (rt : RuntimeId) (trace : Trace) (w : World) : Prop where
  base : ∀ {k}, (trace.custodies k).role.Base → trace.begun (trace.homes k) ≠ none
  acting : ∀ {k}, (trace.custodies k).role.Acting → ∃ f ∈ w.frames (trace.homes k), f.number = k
  values : ∀ {t rt' key}, w.values t (.cleanup rt' key) ≠ 0 →
    trace.begun t ≠ none ∧ (w.image.runtimes rt').key = some key
  born : ∀ {t}, trace.begun t ≠ none → w.lives t ≠ .unborn
  released : ∀ {t}, Released trace t → trace.begun t ≠ none
  ready : ∀ {t record}, trace.begun t = some record → w.Ready record.runtime
  staged : ∀ {t record key}, trace.begun t = some record → (w.image.runtimes rt).key = some key →
    Stage record.holding (.cleanup rt key) (w.lives t) (trace.acting t) (Released trace t)
      (w.image.threads t).holding (w.values t (.cleanup rt key))

variable {rt : RuntimeId} {trace : Trace} {w w' : World} {t : ThreadId} {e : Event}

section
variable (course : w.Course rt trace)
include course

/-- On a thread without operations nobody acts. -/
theorem Course.idle (idle : w.frames t = []) (k : Nat) (r : Role) : ¬trace.acting t k r := by
  rintro ⟨home,rfl,acts⟩
  obtain ⟨f,member,-⟩ := course.acting acts
  simp [home,idle] at member

theorem Course.entered (inv : w.Inv trace) (entered : ∀ f ∈ w.frames t, f.Entered) (k : Nat) (r : Role) :
    ¬trace.acting t k r := by
  rintro ⟨home,rfl,acts⟩
  obtain ⟨f,member,rfl⟩ := course.acting acts
  rw [home] at member
  have settled := (inv.entered member (entered f member)).2
  rw [settled] at acts
  exact acts

end

theorem Initial.alone (initial : w.Initial) : w.Alone rt [] where
  others _ := initial.runtimes _
  asking role := by cases role
  live := initial.live
  tight := by
    refine ⟨?_,?_⟩
    all_goals simp [estate,Trace.untouched,Trace.custodies,Custody.idle]

theorem Alone.step (alone : w.Alone rt trace) (inv : w.Inv trace) (sole : Sole rt (e :: trace)) (step : w.Step e w') :
    w'.Alone rt (e :: trace) := by
  cases step with
  | @call t op _ _ named =>
    have mine := sole.calls List.mem_cons_self
    refine alone.begin (n := w.count) (c := .ofOperation op) rfl ?_ rfl rfl rfl ?_
    · intro rt' asking
      cases op with
      | start rt₀ =>
        obtain rfl : rt₀ = rt := by simpa [Operation.runtime?] using mine
        simpa [Custody.ofOperation] using asking.symm
      | spawn | body | destroy => cases asking
    · exact inv.tight_enter (c := .ofOperation op) rfl rfl rfl (by cases op <;> rfl) rfl rfl alone.tight
  | @begin t call unborn member =>
    obtain ⟨h,rests,record⟩ := inv.record member
    rw [record]
    refine alone.begin (n := w.count) (c := .ofRecord call.arg h) rfl ?_ rfl rfl rfl ?_
    · intro rt' asking
      cases asking
    · rw [estate_begin]
      exact alone.tight.begin inv.bare rests
  | answer here answers => exact alone.answer inv here answers sole
  | ret => exact ⟨alone.others,alone.asking,alone.live,alone.tight⟩
  | @move t h pointer _ _ stack =>
    exact ⟨alone.others,alone.asking,alone.live,estate_move stack ▸ alone.tight⟩
  | key => exact ⟨alone.others,alone.asking,alone.live,alone.tight⟩
  | exit => exact ⟨alone.others,alone.asking,alone.live,alone.tight⟩
  | @fire t rounds rt' key todo =>
    refine alone.begin (n := w.count) (c := .ofValue _ _) rfl ?_ rfl rfl rfl ?_
    · intro rt' asking
      cases asking
    · exact inv.tight_enter (c := .ofValue _ _) rfl rfl rfl rfl rfl rfl alone.tight
  | round | skip | foreign => exact ⟨alone.others,alone.asking,alone.live,alone.tight⟩

/-- In a run with one runtime, in which every unmap works, every live mapping has a holder. -/
theorem Run.alone (run : Run trace w) (sole : Sole rt trace) : w.Alone rt trace := by
  induction run with
  | nil initial => exact initial.alone
  | step run going step ih => exact (ih sole.earlier).step run.inv sole step

/-- On a thread that started from a record the one runtime is ready, so that no phase is won. -/
theorem Run.unclaimed {n : Nat} {rt' : RuntimeId} (run : Run trace w) (sole : Sole rt trace)
    (native : trace.begun t ≠ none) : .answered n t (.claim rt') true ∉ trace := by
  induction run with
  | nil => simp
  | @step trace w e w' run going step ih =>
    have alone := run.alone sole.earlier
    obtain ⟨record,begun⟩ := Option.ne_none_iff_exists'.mp native
    intro member
    rcases List.mem_cons.mp member with rfl | earlier
    · cases step with
      | answer here answers =>
        have ready := run.lineage.ready begun
        obtain rfl := alone.of_ready ready
        obtain rfl := alone.asking (run.inv.may here).1
        have won := answers.1
        unfold Ready at ready
        simp [Image.answer,ready] at won
    · rcases run.lineage.began step begun with old | ⟨unborn,-,-⟩
      · exact ih sole.earlier (by simp [old]) earlier
      · exact run.answered_born earlier unborn

/-- In a run with one runtime, in which every unmap works, all threads keep to their courses. -/
theorem Run.course (run : Run trace w) (sole : Sole rt trace) : w.Alone rt trace ∧ w.Course rt trace := by
  have alone := run.alone sole
  have lineage := run.lineage
  have tenure {t} (native : trace.begun t ≠ none) : w.Tenure trace t :=
    run.tenure fun won _ => run.unclaimed sole native won
  refine ⟨alone,lineage.base,?_,?_,lineage.born,lineage.released,lineage.ready,?_⟩
  · intro k acts
    exact (tenure (lineage.base acts.base)).acting ⟨rfl,rfl,acts⟩
  · intro t rt' key present
    have native := lineage.armed present
    obtain ⟨record,-,-,found⟩ := (tenure native).values present
    exact ⟨native,found⟩
  · intro t record key begun found
    obtain rfl := alone.of_ready (lineage.ready begun)
    exact (tenure (by simp [begun])).staged begun found

end GuardedStack.World
