import GuardedStack.Proofs.Tenure

/-! Between the acceptance of a thread and its beginning. A host begins the threads that it has accepted and no others, each
once and where nothing has run before, and until then the record lies where it was placed. -/
namespace GuardedStack

namespace Event

/-- A host agrees to start a thread. -/
def Accepts (call : SpawnCall) : Event → Prop
  | answered _ _ (.host _ (.spawn call')) code => call' = call ∧ code = 0
  | _ => False

def Begins (call : SpawnCall) : Event → Prop
  | began _ _ call' _ => call' = call
  | _ => False

end Event

/-- The thread was accepted, and has not begun since then. -/
def Awaited (call : SpawnCall) : World.Trace → Prop
  | [] => False
  | e :: earlier => e.Accepts call ∨ ¬e.Begins call ∧ Awaited call earlier

/-- A thread that has begun begins again only if it is accepted again. -/
theorem Awaited.again {call : SpawnCall} {e : Event} {earlier before : World.Trace} (awaited : Awaited call (earlier ++ e :: before))
    (begins : e.Begins call) : ∃ e' ∈ earlier, e'.Accepts call := by
  induction earlier with
  | nil =>
    rcases awaited with accepts | ⟨other,-⟩
    · cases e with
      | began => exact accepts.elim
      | _ => exact begins.elim
    · exact absurd begins other
  | cons e' earlier ih =>
    rcases awaited with accepts | ⟨-,awaited⟩
    · exact ⟨e',.head _,accepts⟩
    · obtain ⟨e'',member,accepts⟩ := ih awaited
      exact ⟨e'',List.mem_cons_of_mem _ member,accepts⟩

/-- Nothing is written over the record of an accepted thread. -/
theorem Estate.Deed.rests {ready : RuntimeId → Prop} {c : Custody} {n : Nat} {t : ThreadId} {e e' : Estate}
    (deed : Deed ready c n t e e') (exact_ : e.Exact) {call : SpawnCall} {h : Handoff} (member : call ∈ e.records)
    (rests : h.Rests e.memory call.arg) : h.Rests e'.memory call.arg := by
  have holds : e.Holds (.record call) h.mapping := .record member rests
  cases deed with
  | place _ held sits => exact exact_.rests_store (by rw [held]; rfl) sits (Handoff.length_encode _) holds (by simp) rests
  | blank placed =>
    exact exact_.rests_store (by rw [placed]; rfl) (exact_.placed placed).sits (by simp [Handoff.blank]) holds (by simp) rests
  | rest | map | unmap | install | settle | detach | lose | take | keep | accept => exact rests

namespace World

/-- A host may start the thread at any time, and it will find the record. -/
structure Due (w : World) (call : SpawnCall) (h : Handoff) : Prop where
  accepted : call ∈ w.accepted
  rests : h.Rests w.image.memory call.arg

variable {trace after before : Trace} {w w' : World} {e : Event} {t : ThreadId} {n : Nat} {call : SpawnCall} {h : Handoff}

theorem Answers.accepted {q : Request} {reply : q.Reply} (answers : w.Answers t q reply w') :
    call ∈ w'.accepted ↔ (Event.answered n t q reply).Accepts call ∨ call ∈ w.accepted := by
  cases answers.change with
  | accept => simp [Event.Accepts,eq_comm]
  | nothing inert =>
    have refused : ¬(Event.answered n t q reply).Accepts call := by
      intro accepts
      unfold Event.Accepts at accepts
      split at accepts
      next same =>
        cases same
        exact inert accepts.2
      · exact accepts
    simp [refused]
  | state | map | unmap | stuck | set => simp [Event.Accepts,setValue]

theorem Inv.awaits (inv : w.Inv trace) (step : w.Step e w') :
    call ∈ w'.accepted ↔ e.Accepts call ∨ ¬e.Begins call ∧ call ∈ w.accepted := by
  cases step with
  | @answer t n op q next rest reply w' here answers =>
    exact (answers.accepted (n := n)).trans (by simp [Event.Begins])
  | @begin t call' =>
    have distinct : w.accepted.Nodup := inv.exact_.distinct
    simp [Event.Accepts,Event.Begins,distinct.mem_erase_iff,eq_comm]
  | call | ret | move | key | exit | round | skip | fire | foreign =>
    simp [Event.Accepts,Event.Begins,push,setFrames,setLife,setValue,setStack]

theorem Run.awaited (run : Run trace w) : call ∈ w.accepted ↔ Awaited call trace := by
  induction run with
  | nil initial => simp [initial.accepted,Awaited]
  | step run going step ih => rw [run.inv.awaits step,ih,Awaited]

/-- Each thread that begins was accepted for this. -/
theorem Run.origin {record : Handoff} (run : Run (after ++ .began n t call record :: before) w) : Awaited call before := by
  obtain ⟨w₀,run₀,-⟩ := run.earlier
  cases run₀ with
  | step earlier going step =>
    cases step with
    | begin unborn member => exact earlier.awaited.mp member

/-- A placed record is found by the thread that is accepted for it. -/
theorem Inv.due {rt : RuntimeId} (inv : w.Inv trace) (placed : (trace.custodies n).hand = .placed call.arg h)
    (step : w.Step (.answered n t (.host rt (.spawn call)) (0 : Int32)) w') : w'.Due call h := by
  have rests : h.Rests w.image.memory call.arg := inv.exact_.placed placed
  cases step with
  | answer here answers =>
    have result : _ = if (0 : Int32) = 0 then { w with accepted := call :: w.accepted } else w := answers
    subst result
    exact ⟨List.mem_cons_self,rests⟩

/-- An accepted thread stays accepted until it begins, and begins with its record on an unused thread. -/
theorem Inv.hand (inv : w.Inv trace) (due : w.Due call h) (step : w.Step e w') :
    ¬e.Begins call ∧ w'.Due call h ∨ ∃ k t, w.lives t = .unborn ∧ e = .began k t call h := by
  have stays (other : ¬e.Begins call) (rests : h.Rests w'.image.memory call.arg) : ¬e.Begins call ∧ w'.Due call h :=
    ⟨other,(inv.awaits step).mpr (.inr ⟨other,due.accepted⟩),rests⟩
  have rests := due.rests
  cases step with
  | answer here answers => exact .inl (stays id ((inv.deed here answers).rests inv.exact_ due.accepted rests))
  | @begin t call' unborn member =>
    by_cases same : call' = call
    · subst same
      have bytes : w.image.memory.load call'.arg Handoff.size.toNat = h.encode := rests.bytes
      exact .inr ⟨_,t,unborn,by rw [bytes,Handoff.decode_encode]⟩
    · exact .inl (stays same rests)
  | call | ret | move | key | exit | round | skip | fire | foreign => exact .inl (stays id rests)

/-- An accepted thread is still to begin, or it has begun once with its record and on a thread where nothing had run. -/
theorem Run.handed (run : Run (after ++ before) w) (due : ∀ {w₀}, Run before w₀ → w₀.Due call h) :
    (∀ e ∈ after, ¬e.Begins call) ∧ w.Due call h ∨
      ∃ later k thread middle, after = later ++ .began k thread call h :: middle ∧ (∀ e ∈ middle, ¬e.Begins call) ∧
        ∀ {n q reply}, .answered n thread q reply ∉ before := by
  induction after generalizing w with
  | nil => exact .inl ⟨by simp,due run⟩
  | cons e after ih =>
    cases run with
    | step run going step =>
      rcases ih run with ⟨none,waits⟩ | ⟨later,k,thread,middle,rfl,first,fresh⟩
      · rcases run.inv.hand waits step with ⟨other,waits'⟩ | ⟨k,thread,unborn,rfl⟩
        · exact .inl ⟨List.forall_mem_cons.mpr ⟨other,none⟩,waits'⟩
        · refine .inr ⟨[],k,thread,after,rfl,none,?_⟩
          exact fun answered => run.answered_born (List.mem_append_right after answered) unborn
      · exact .inr ⟨e :: later,k,thread,middle,rfl,first,fresh⟩

end World
end GuardedStack
