import GuardedStack.Proofs.Interception

/-! What still leads into a mapping: the stack that a thread has, the top that was written for it, and a record that
has not been read. When a mapping is about to be unmapped nothing of this is left, in whatever operation and between whatever
steps of others; so whatever a thread stands on is mapped. -/
namespace GuardedStack

namespace Event

/-- What the library writes as a thread's stack. -/
def wrote : Event → Option (ThreadId × ThreadStack)
  | answered _ t (.state (.setStack s)) _ => some (t,s)
  | _ => none

/-- What the library writes into memory, and where. -/
def stored : Event → Option (UInt64 × List UInt8)
  | answered _ _ (.state (.store addr bytes)) _ => some (addr,bytes)
  | _ => none

/-- The holding becomes the thread's stack, with the pointer at its top. -/
def Installs (t : ThreadId) (h : Holding) (e : Event) : Prop := e.wrote = some (t,⟨h.region.top,some h⟩)

/-- A stack is installed on the thread or detached. -/
def Rewrites (t : ThreadId) (e : Event) : Prop := e.wrote.map Prod.fst = some t

def Places (addr : UInt64) (h : Handoff) (e : Event) : Prop :=
  e.stored = some (addr,h.encode) ∧ h.encode ≠ Handoff.blank

def Blanks (addr : UInt64) (e : Event) : Prop := e.stored = some (addr,Handoff.blank)

instance {addr : UInt64} {h : Handoff} {e : Event} : Decidable (e.Places addr h) :=
  inferInstanceAs (Decidable (e.stored = _ ∧ _))

instance {addr : UInt64} {e : Event} : Decidable (e.Blanks addr) := inferInstanceAs (Decidable (e.stored = _))

end Event

/-- The thread's stack was installed, and since then the library has written no other pointer there. -/
def Stands (t : ThreadId) (h : Holding) : World.Trace → Prop
  | [] => False
  | e :: earlier => e.Installs t h ∨ ¬e.Rewrites t ∧ Stands t h earlier

/-- The record was written and not blanked since. Whoever reads a record blanks it right after. -/
def Unread (addr : UInt64) (h : Handoff) : World.Trace → Prop
  | [] => False
  | e :: earlier => e.Places addr h ∨ ¬e.Blanks addr ∧ Unread addr h earlier

instance Unread.decide {addr : UInt64} {h : Handoff} : (trace : World.Trace) → Decidable (Unread addr h trace)
  | [] => inferInstanceAs (Decidable False)
  | _ :: earlier =>
    have := @Unread.decide addr h earlier
    inferInstanceAs (Decidable (_ ∨ _ ∧ _))

/-- What is written for a thread is a whole stack or none. -/
theorem Custody.Writes.holding {c : Custody} {s : ThreadStack} {h : Holding} (writes : c.Writes s) :
    s.holding = some h ↔ s = ⟨h.region.top,some h⟩ := by
  have shape : s = .empty ∨ ∃ h', s = ⟨h'.region.top,some h'⟩ := by
    cases writes with
    | main _ _ _ shape | arrival _ _ _ _ _ shape => exact .inr ⟨_,shape⟩
    | detach _ _ _ shape | pass _ _ _ _ shape => exact .inl shape
  rcases shape with rfl | ⟨h',rfl⟩
  · simp [ThreadStack.empty]
  · simp only [ThreadStack.mk.injEq,Option.some.injEq]
    constructor
    · rintro rfl
      exact ⟨rfl,rfl⟩
    · exact And.right

/-- An operation keeps the record that it has placed until it is blanked or a thread is accepted for it. -/
theorem Custody.May.placed {c : Custody} {q : Request} {reply : q.Reply} {n : Nat} {t : ThreadId} {addr : UInt64} {h : Handoff}
    (may : c.May q) (placed : c.hand = .placed addr h) (kept : ¬(Event.answered n t q reply).Blanks addr) :
    (c.after q reply).hand = .placed addr h ∨
      ∃ rt call, q = .host rt (.spawn call) ∧ call.arg = addr ∧ (Event.answered n t q reply).Accepts call := by
  cases q with
  | enter entry arg => exact .inl placed
  | mapper rt call =>
    cases call with
    | map | unmap => simp [Custody.May,placed] at may
    | pageSize | protect => exact .inl placed
  | host rt call =>
    cases call with
    | setCleanupValue key value => simp [Custody.May,placed] at may
    | spawn call =>
      obtain ⟨-,h',placed'⟩ := may
      obtain ⟨rfl,rfl⟩ := Hand.placed.inj (placed.symm.trans placed')
      by_cases started : reply = 0
      · exact .inr ⟨rt,call,rfl,rfl,rfl,started⟩
      · exact .inl (by simpa [Custody.after_refused,Custody.forget,started] using placed)
    | stackLimit | defaultAttributes | requestedAttributes | installInterception | createCleanupKey => exact .inl placed
  | state call =>
    cases call with
    | setStack s => cases may.2 <;> simp_all
    | setPhase | keepKey | exchangePhase => simp [Custody.May,placed] at may
    | store addr' bytes =>
      cases may with
      | place held => simp [placed] at held
      | blank placed' blanks =>
        obtain ⟨rfl,-⟩ := Hand.placed.inj (placed.symm.trans placed')
        exact absurd (by rw [Event.Blanks,Event.stored,blanks]) kept
    | stack => simp [Custody.after,Custody.read,placed]
    | phase rt =>
      refine .inl ?_
      simp only [Custody.after]
      split <;> exact placed
    | key | load | verbosity | setVerbosity | environment | emit => exact .inl placed

namespace World

/-- Where an unread record is: with the operation that has placed it, or waiting for a thread to start. -/
inductive Lies (trace : Trace) (w : World) (addr : UInt64) (h : Handoff) : Prop
  | placed {n : Nat} : (trace.custodies n).hand = .placed addr h → Lies trace w addr h
  | due {call : SpawnCall} : call.arg = addr → w.Due call h → Lies trace w addr h

variable {trace : Trace} {w w' : World} {e : Event} {t : ThreadId} {h : Holding} {addr : UInt64} {record : Handoff}

section
variable (inv : w.Inv trace)
include inv

theorem Inv.stands_step (step : w.Step e w') :
    (w'.image.threads t).holding = some h ↔ e.Installs t h ∨ ¬e.Rewrites t ∧ (w.image.threads t).holding = some h := by
  cases step with
  | @answer t' n op q next below reply w' here answers =>
    by_cases writes : ∃ s, q = .state (.setStack s)
    · obtain ⟨s,rfl⟩ := writes
      have written : s.holding = some h ↔ s = ⟨h.region.top,some h⟩ := (inv.may here).2.holding
      obtain ⟨-,rfl⟩ := answers
      by_cases mine : t' = t
      · subst mine
        simpa [Event.Installs,Event.Rewrites,Event.wrote,Image.answer,setFrames] using written
      · simp [Event.Installs,Event.Rewrites,Event.wrote,Image.answer,setFrames,mine,Ne.symm mine]
    · have silent : (Event.answered n t' q reply).wrote = none := by
        unfold Event.wrote
        split
        next same => cases same; exact absurd ⟨_,rfl⟩ writes
        · rfl
      rcases answers.threads with same | ⟨s,rfl,-⟩
      · simp [Event.Installs,Event.Rewrites,silent,setFrames,same]
      · exact absurd ⟨s,rfl⟩ writes
  | @move t' h' pointer outside alive stack =>
    by_cases mine : t' = t
    · subst mine
      simp [Event.Installs,Event.Rewrites,Event.wrote,setStack,stack]
    · simp [Event.Installs,Event.Rewrites,Event.wrote,setStack,Ne.symm mine]
  | call | begin | ret | key | exit | round | skip | fire | foreign =>
    simp [Event.Installs,Event.Rewrites,Event.wrote,push,setFrames,setLife,setValue]

/-- A record that is written is in the hand of the operation that writes it. -/
theorem Inv.places_step (step : w.Step e w') (places : e.Places addr record) : Lies (e :: trace) w' addr record := by
  cases step with
  | @answer t n op q next below reply w' here answers =>
    obtain ⟨stores,written⟩ := places
    unfold Event.stored at stores
    split at stores
    next same =>
      cases same
      obtain ⟨rfl,rfl⟩ : _ ∧ _ := by simpa using stores
      cases inv.may here with
      | @place g held learned sits same =>
        obtain rfl : record = g := by rw [← record.decode_encode,same,g.decode_encode]
        refine .placed (n := n) ?_
        simp [Trace.custodies,Event.custodies,Custody.after,Custody.store,held,record.decode_encode]
      | blank placed blanks => exact absurd blanks written
    · cases stores
  | call | begin | ret | move | key | exit | round | skip | fire | foreign => cases places.1

/-- An unread record stays where it is, or is handed on to the host and then to the new thread. -/
theorem Inv.lies_step (step : w.Step e w') (lies : Lies trace w addr record) (kept : ¬e.Blanks addr) :
    Lies (e :: trace) w' addr record := by
  cases lies with
  | @due call same due =>
    rcases inv.hand due step with ⟨-,due'⟩ | ⟨k,t,-,rfl⟩
    · exact .due same due'
    · subst same
      exact .placed (n := k) (by simp [Trace.custodies,Event.custodies,Custody.ofRecord])
  | @placed n placed =>
    have old : n ≠ w.count := by
      rintro rfl
      have bare : (trace.custodies w.count).hand = .empty := inv.bare
      simp [bare] at placed
    cases step with
    | @answer t k op q next below reply w' here answers =>
      by_cases mine : n = k
      · subst mine
        rcases (inv.may here).placed placed kept with stays | ⟨rt,call,rfl,rfl,accepts⟩
        · exact .placed (n := n) (by simpa [Trace.custodies,Event.custodies] using stays)
        · obtain ⟨-,rfl⟩ := accepts
          exact .due rfl (inv.due placed (.answer here answers))
      · exact .placed (n := n) (by simpa [Trace.custodies,Event.custodies,mine] using placed)
    | call | begin | fire => exact .placed (n := n) (by simpa [Trace.custodies,Event.custodies,old] using placed)
    | ret | move | key | exit | round | skip | foreign => exact .placed (n := n) placed

end

theorem Run.stands (run : Run trace w) : Stands t h trace ↔ (w.image.threads t).holding = some h := by
  induction run with
  | nil initial => simp [Stands,initial.threads,ThreadStack.empty]
  | step run going step ih => rw [run.inv.stands_step step,← ih,Stands]

theorem Run.lies (run : Run trace w) (unread : Unread addr record trace) : Lies trace w addr record := by
  induction run with
  | nil => exact unread.elim
  | step run going step ih =>
    rcases unread with places | ⟨kept,unread⟩
    · exact run.inv.places_step step places
    · exact run.inv.lies_step step (ih unread) kept

/-- An unread record lies in a mapping that its holder keeps for it. -/
theorem Inv.resting (inv : w.Inv trace) (lies : Lies trace w addr record) :
    record.Rests w.image.memory addr ∧ ∃ o, (w.estate trace).Holds o record.mapping ∧
      ((∃ call, o = .record call) ∨ ∃ n, o = .call n ∧ (trace.custodies n).hand = .placed addr record) := by
  cases lies with
  | @placed n placed =>
    exact ⟨inv.exact_.placed (e := w.estate trace) placed,_,.call (congrArg Hand.mapping placed),.inr ⟨n,rfl,placed⟩⟩
  | @due call same due =>
    subst same
    exact ⟨due.rests,_,.record (e := w.estate trace) due.accepted due.rests,.inl ⟨call,rfl⟩⟩

/-- Nothing leads into the mapping any more. -/
structure Forsaken (trace : Trace) (w : World) (m : Mapping) : Prop where
  /-- No thread's bookkeeping names a region there. -/
  named : ∀ {t h}, (w.image.threads t).holding = some h → h.mapping.Apart m
  /-- No thread's pointer is still the one that was written for a region there, or has moved on from it. -/
  standing : ∀ {t h}, Stands t h trace → h.mapping.Apart m
  /-- A thread's pointer is zero or in the thread's own stack, which lies elsewhere. -/
  pointer : ∀ t, (w.image.threads t).pointer = 0 ∨ ∃ h, (w.image.threads t).holding = some h ∧ h.mapping.Apart m ∧
    h.region.base ≤ (w.image.threads t).pointer ∧ (w.image.threads t).pointer ≤ h.region.top
  /-- A pointer with the same number as the end of the mapping is in a stack that begins right there, has no guard and is
  used up. -/
  next : ∀ {t}, (w.image.threads t).pointer.toNat = m.finish → ∃ h, (w.image.threads t).holding = some h ∧
    h.mapping.Apart m ∧ h.region.guard = 0 ∧ (w.image.threads t).pointer = h.region.base
  unread : ∀ {addr record}, Unread addr record trace → record.mapping.Apart m

/-- What threads stand on, at any moment of a run. -/
structure Footing (trace : Trace) (w : World) : Prop where
  /-- From when an operation asks to unmap something until it has its answer, nothing leads there. -/
  unmapping : ∀ {t f rt addr len}, f ∈ w.frames t → f.Asks (.mapper rt (.unmap addr len)) →
    Forsaken trace w ⟨rt,addr,len⟩
  stack : ∀ {t h}, (w.image.threads t).holding = some h →
    h.region.Sound ∧ h.mapping ∈ w.live ∧ Untouched h.mapping trace
  record : ∀ {addr record}, Unread addr record trace →
    record.Rests w.image.memory addr ∧ record.mapping ∈ w.live ∧ Untouched record.mapping trace

theorem Inv.forsaken (inv : w.Inv trace) (run : Run trace w) {n : Nat} {m : Mapping}
    (held : (trace.custodies n).hand = .held m) : Forsaken trace w m := by
  have named {t h} (stack : (w.image.threads t).holding = some h) : h.mapping.Apart m :=
    inv.exact_.stack_apart (e := w.estate trace) held stack
  have mine : (w.estate trace).Holds (.call n) m := .call (congrArg Hand.mapping held)
  have positive := inv.exact_.positive (inv.exact_.held mine)
  have within (t) : (w.image.threads t).pointer = 0 ∨ ∃ h, (w.image.threads t).holding = some h ∧ h.mapping.Apart m ∧
      h.region.base ≤ (w.image.threads t).pointer ∧ (w.image.threads t).pointer ≤ h.region.top := by
    cases stack : (w.image.threads t).holding with
    | none => exact .inl ((inv.orderly.sound t).none stack)
    | some h => exact .inr ⟨h,rfl,named stack,((inv.orderly.sound t).some h stack).2⟩
  refine ⟨named,fun standing => named (run.stands.mp standing),within,?_,?_⟩
  · intro t same
    rcases within t with zero | ⟨h,stack,apart,low,high⟩
    · rw [zero] at same
      simp only [Mapping.finish,UInt64.toNat_zero] at same
      omega
    · have sound := ((inv.orderly.sound t).some h stack).1
      have sides := apart.sides (sound.mapping_nonempty _) positive
      have base := sound.base_toNat
      have top := sound.top_toNat
      rw [UInt64.le_iff_toNat_le] at low high
      rw [sound.finish_mapping] at sides
      simp only [Mapping.finish,Region.mapping] at same sides
      refine ⟨h,stack,apart,UInt64.toNat_inj.mp ?_,UInt64.toNat_inj.mp ?_⟩
      · rw [UInt64.toNat_zero]
        omega
      · omega
  · intro addr record unread
    obtain ⟨-,o,holds,holder⟩ := inv.resting (run.lies unread)
    refine inv.exact_.apart_of_holders holds mine ?_
    rcases holder with ⟨call,rfl⟩ | ⟨k,rfl,placed⟩
    · simp
    · rintro ⟨⟩
      simp [held] at placed

/-- No thread is ever left standing on memory that is being unmapped, whatever the surroundings do and however the operations
of all threads interleave. -/
theorem Run.footing (run : Run trace w) : Footing trace w where
  unmapping member asks := run.inv.forsaken run (run.inv.asks_may member asks)
  stack {t h} stack := by
    obtain ⟨o,holds,-⟩ := Estate.Holds.of_stack (e := w.estate trace) stack
    have kept := run.inv.exact_.held holds
    exact ⟨((run.inv.orderly.sound t).some h stack).1,run.inv.mapped kept,Trace.untouched_of_mem kept⟩
  record unread := by
    obtain ⟨rests,o,holds,-⟩ := run.inv.resting (run.lies unread)
    have kept := run.inv.exact_.held holds
    exact ⟨rests,run.inv.mapped kept,Trace.untouched_of_mem kept⟩

/-- The main thread has a stack, and has spawned a thread that has not begun. -/
def posted : Trace × World := perform (fun _ => false) 0 vacancy.operation settled

/-- It has asked for one more thread, which the primitive has not started, and is about to unmap that thread's region. -/
def recalled : Trace × World :=
  turns (fun q => match q with
    | .host _ (.spawn _) => true
    | _ => false) 0 11 (.called posted.2.count 0 vacancy.operation :: posted.1,posted.2.push 0 vacancy.operation)

theorem posted_going : Going posted := settled_going.perform (by decide +kernel) settled_outside rfl

theorem posted_outside : posted.2.Outside 0 := by
  have idle : posted.2.frames 0 = [] := by rfl
  simp [Outside,idle]

theorem recalled_run : Run recalled.1 recalled.2 :=
  (posted_going.call (by decide +kernel) posted_outside rfl).turns.run

theorem recalled_footing :
    (∃ f ∈ recalled.2.frames 0, f.Asks (.mapper ⟨1⟩ (.unmap 43016192 20480))) ∧
      (∃ h, (recalled.2.image.threads 0).holding = some h ∧ h.mapping ∈ recalled.2.live ∧
        h.mapping.Apart ⟨⟨1⟩,43016192,20480⟩) ∧
      ∃ record, Unread 43016144 record recalled.1 ∧ record.mapping ∈ recalled.2.live ∧
        record.mapping.Apart ⟨⟨1⟩,43016192,20480⟩ := by
  have footing := recalled_run.footing
  have pending : ∃ f ∈ recalled.2.frames 0, f.Asks (.mapper ⟨1⟩ (.unmap 43016192 20480)) := ⟨_,.head _,_,rfl⟩
  obtain ⟨f,member,asks⟩ := pending
  have forsaken := footing.unmapping member asks
  have stack : (recalled.2.image.threads 0).holding = some ⟨⟨1052672,41943040,4096⟩,⟨1⟩⟩ := by rfl
  have unread : Unread 43016144 ⟨⟨5⟩,6,⟨42999808,16384,4096⟩,⟨1⟩⟩ recalled.1 := by decide +kernel
  exact ⟨⟨f,member,asks⟩,⟨_,stack,(footing.stack stack).2.1,forsaken.named stack⟩,_,unread,
    (footing.record unread).2.1,forsaken.unread unread⟩

end World
end GuardedStack
