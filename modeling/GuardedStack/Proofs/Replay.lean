import GuardedStack.Proofs.Shift
import GuardedStack.Rehearsal

/-! A rehearsal answers as a site does where everything works: what a program comes to there is what its closed form says,
and the journal holds its calls. -/
namespace GuardedStack

/-- The act comes to its end with the value. -/
def Acting.Gives {σ α : Type} (act : Acting σ α) (s : σ) (a : α) (s' : σ) : Prop := act.run s = (.ok a,s')

namespace Acting

variable {σ α β : Type} {act : Acting σ α} {s s' s'' : σ} {a : α} {b : β}

theorem gives_pure : (pure a : Acting σ α).Gives s a s := rfl

theorem gives_get : (get : Acting σ σ).Gives s s s := rfl

theorem gives_modify {f : σ → σ} : (modify f : Acting σ PUnit).Gives s ⟨⟩ (f s) := rfl

theorem gives_modifyGet {f : σ → α × σ} : (modifyGet f : Acting σ α).Gives s (f s).1 (f s).2 := rfl

theorem bind_gives {f : α → Acting σ β} : (act >>= f).Gives s b s'' ↔ ∃ a s', act.Gives s a s' ∧ (f a).Gives s' b s'' := by
  have whole : (act >>= f).run s = match act.run s with
      | (.ok a,s') => (f a).run s'
      | (.error stop,s') => (.error stop,s') := by
    change (act.run >>= fun result => ExceptT.bindCont f result) s = _
    change (match act.run s with | (result,s') => ExceptT.bindCont f result s') = _
    rcases act.run s with ⟨(stop | a),s'⟩ <;> rfl
  rw [Gives,whole]
  constructor
  · intro gives
    rcases first : act.run s with ⟨(stop | a),s'⟩
    · rw [first] at gives
      cases gives
    · rw [first] at gives
      exact ⟨a,s',first,gives⟩
  · rintro ⟨a,s',first,rest⟩
    rw [Gives] at first
    rw [first]
    exact rest

theorem Gives.bind {f : α → Acting σ β} (first : act.Gives s a s') (rest : (f a).Gives s' b s'') :
    (act >>= f).Gives s b s'' :=
  bind_gives.mpr ⟨a,s',first,rest⟩

/-- Where nothing is thrown there is nothing to catch. -/
theorem Gives.tryCatch {handler : Stop → Acting σ α} (gives : act.Gives s a s') :
    (tryCatch act handler : Acting σ α).Gives s a s' := by
  have whole : (MonadExcept.tryCatch act handler : Acting σ α).run s = match act.run s with
      | (.ok a,s') => (.ok a,s')
      | (.error stop,s') => (handler stop).run s' := by
    simp only [MonadExcept.tryCatch,tryCatchThe,MonadExceptOf.tryCatch,ExceptT.tryCatch,ExceptT.run_mk]
    change StateT.bind (m := Id) act.run _ s = _
    simp only [StateT.bind]
    rcases act.run s with ⟨(stop | a),s'⟩ <;> rfl
  rw [Gives] at gives
  rw [Gives,whole,gives]

end Acting

namespace Program

variable {σ τ α β : Type} {answer : (q : Request) → Acting σ q.Reply} {s s' s'' : σ}

theorem bind_gives {p : Program α} {f : α → Program β} {a : α} {b : β} (first : (p.run answer).Gives s a s')
    (rest : ((f a).run answer).Gives s' b s'') : ((p >>= f).run answer).Gives s b s'' := by
  induction p generalizing s with
  | done a' =>
    cases first
    exact rest
  | stop reason => cases first
  | ask q next ih =>
    obtain ⟨reply,s₁,answered,later⟩ := Acting.bind_gives.mp first
    exact .bind answered (ih reply later)

/-- A program that follows a discipline comes to its end, if whatever the discipline allows is answered as it says. -/
theorem Follows.gives {d : Discipline τ} {R : σ → τ → Prop} {p : Program α} {post : τ → α → Prop} {x : τ}
    (follows : p.Follows d post x) (related : R s x) (never : ∀ reason, ¬d.ends reason)
    (answers : ∀ s x q, R s x → d.may x q → ∃ reply s' x', (answer q).Gives s reply s' ∧ d.next x q reply x' ∧ R s' x') :
    ∃ a s' x', (p.run answer).Gives s a s' ∧ R s' x' ∧ post x' a := by
  induction p generalizing s x with
  | done a => exact ⟨a,s,x,Acting.gives_pure,related,follows⟩
  | stop reason => exact absurd follows (never reason)
  | ask q next ih =>
    obtain ⟨reply,s₁,x₁,answered,step,related⟩ := answers s x q related follows.1
    obtain ⟨a,s',x',later,related,holds⟩ := ih reply (follows.2 reply x₁ step) related
    exact ⟨a,s',x',.bind answered later,related,holds⟩

end Program

namespace Rehearsal

/-- What the journal says of a call that works. -/
def Observation.ofExchange : Exchange → Option Observation
  | ⟨.mapper _ (.map len _),.ok addr⟩ => some (map addr len)
  | ⟨.mapper _ (.protect addr len rights),_⟩ => some (protect addr len rights)
  | ⟨.mapper _ (.unmap addr len),_⟩ => some (unmap addr len)
  | ⟨.host _ (.setCleanupValue _ value),_⟩ => some (keySet value)
  | _ => none

end Rehearsal

namespace PageMemory

variable {κ : Type} [PageMemory κ]

/-- The memory after a call. -/
def carry (k : κ) : Exchange → κ
  | ⟨.mapper _ (.map len rights),_⟩ => (map k len rights).2
  | ⟨.mapper _ (.protect addr len rights),_⟩ => (protect k addr len rights).2
  | ⟨.mapper _ (.unmap addr len),_⟩ => (unmap k addr len).2
  | _ => k

theorem pageSize_carry (k : κ) (e : Exchange) : pageSize (carry k e) = pageSize k := by
  unfold carry
  split
  · exact pageSize_map ..
  · exact pageSize_protect ..
  · exact pageSize_unmap ..
  · rfl

theorem pageSize_foldl_carry (k : κ) (said : List Exchange) : pageSize (said.foldl carry k) = pageSize k := by
  induction said generalizing k with
  | nil => rfl
  | cons e rest ih => exact (ih _).trans (pageSize_carry k e)

end PageMemory

namespace Rehearsal

/-- The host's geometry for an attribute object or for none. -/
def StandIn.attributes (h : StandIn) : Option AttributeRef → StackAttributes
  | none => h.defaults
  | some _ => h.requested

theorem StandIn.setValues_self (h : StandIn) (t : ThreadId) : h.setValues t (h.values t) = h :=
  congrArg (fun values => { h with values := values }) (replace_self _ _)

section
variable {κ : Type}

section
variable {s : State κ} {t : ThreadId}

theorem answerState_gives {call : StateCall} : (answerState t call).Gives s (s.image.answer t call).1
    { s with image := (s.image.answer t call).2 } := rfl

theorem note_gives {o : Observation} : (note o).Gives s () { s with journal := s.journal ++ [o] } := rfl

theorem onKernel_gives {f : κ → β × κ} :
    (onKernel f).Gives s (f s.kernel).1 { s with kernel := (f s.kernel).2 } := rfl

theorem onHost_gives {f : StandIn → β × StandIn} :
    (onHost f).Gives s (f s.host).1 { s with host := (f s.host).2 } := rfl

end

variable [PageMemory κ]

/-- The runtime is ready, and its host has made the key. -/
structure State.Ready (s : State κ) (key : CleanupKey) : Prop where
  runtime : s.image.runtimes runtime = ⟨.ready,some key⟩
  paged : PageSize (PageMemory.pageSize s.kernel)

/-- The site of a rehearsal, with the one place that its mapper is to give. -/
def State.site {s : State κ} {key : CleanupKey} (ready : s.Ready key) (m : Mapping) (proper : m.Proper)
    (even : 16 ∣ m.addr.toNat) : Site where
  runtime := runtime
  key := key
  page := PageMemory.pageSize s.kernel
  attributes := s.host.attributes
  results := s.functions
  offers _ m' := m' = m
  paged := ready.paged
  proper same := same ▸ proper
  even same := same ▸ even

/-- Calls that the memory answers well, after those before them. A new thread would do something of its own. -/
def State.Grants (s : State κ) (m : Mapping) (before : List Exchange) : Request → Prop
  | .mapper rt (.map len rights) =>
    m = ⟨rt,m.addr,len⟩ ∧ (PageMemory.map (before.foldl PageMemory.carry s.kernel) len rights).1 = .ok m.addr
  | .mapper _ (.protect addr len rights) => (PageMemory.protect (before.foldl PageMemory.carry s.kernel) addr len rights).1 = 0
  | .mapper _ (.unmap addr len) => (PageMemory.unmap (before.foldl PageMemory.carry s.kernel) addr len).1 = 0
  | .mapper _ .pageSize | .host _ .defaultAttributes | .host _ (.requestedAttributes _) => True
  | .host _ (.setCleanupValue _ _) | .enter _ _ => True
  | _ => False

/-- The state of a rehearsal in which a thread has worked since another state. -/
structure State.Since (s₀ : State κ) (t : ThreadId) (s : State κ) (x : Shift) : Prop where
  threads : s.image.threads = replace s₀.image.threads t x.stack
  memory : s.image.memory = x.memory
  runtimes : s.image.runtimes = s₀.image.runtimes
  kernel : s.kernel = x.calls.foldl PageMemory.carry s₀.kernel
  journal : s.journal = s₀.journal ++ x.calls.filterMap Observation.ofExchange
  host : s.host = s₀.host.setValues t ⟨x.value,(s₀.host.values t).foreign⟩
  functions : s.functions = s₀.functions
  nextThread : s.nextThread = s₀.nextThread

/-- What a thread begins with. -/
def State.shift (s : State κ) (t : ThreadId) : Shift := ⟨s.image.threads t,(s.host.values t).own,s.image.memory,[],[]⟩

variable {s s₀ s' : State κ} {t : ThreadId} {key : CleanupKey} {m : Mapping} {x : Shift}

theorem since_shift : s.Since t s (s.shift t) where
  threads := (replace_self _ _).symm
  memory := rfl
  runtimes := rfl
  kernel := rfl
  journal := by simp [State.shift]
  host := (s.host.setValues_self t).symm
  functions := rfl
  nextThread := rfl

theorem map_gives {addr len : UInt64} {rights : Rights} (given : (PageMemory.map s.kernel len rights).1 = .ok addr) :
    (answerMapper (.map len rights)).Gives s (.ok addr)
      { s with kernel := (PageMemory.map s.kernel len rights).2, journal := s.journal ++ [.map addr len] } := by
  refine .bind onKernel_gives ?_
  rw [given]
  exact .bind note_gives Acting.gives_pure

theorem protect_gives {addr len : UInt64} {rights : Rights} (given : (PageMemory.protect s.kernel addr len rights).1 = 0) :
    (answerMapper (.protect addr len rights)).Gives s (.ok ())
      { s with kernel := (PageMemory.protect s.kernel addr len rights).2, journal := s.journal ++ [.protect addr len rights] } := by
  refine .bind onKernel_gives ?_
  rw [given]
  exact .bind note_gives Acting.gives_pure

theorem unmap_gives {addr len : UInt64} (given : (PageMemory.unmap s.kernel addr len).1 = 0) :
    (answerMapper (.unmap addr len)).Gives s (.ok ())
      { s with kernel := (PageMemory.unmap s.kernel addr len).2, journal := s.journal ++ [.unmap addr len] } := by
  refine .bind onKernel_gives ?_
  rw [given]
  exact .bind note_gives Acting.gives_pure

/-- Only what concerns the thread counts in the library's state. -/
theorem State.Since.image (since : s₀.Since t s x) {image : Image} {stack : ThreadStack} {memory : Memory}
    (threads : image.threads = replace s₀.image.threads t stack) (bytes : image.memory = memory)
    (runtimes : image.runtimes = s.image.runtimes) :
    s₀.Since t { s with image := image } { x with stack := stack, memory := memory } :=
  { since with threads := threads, memory := bytes, runtimes := runtimes.trans since.runtimes }

/-- A call of the mapper changes the kernel, and the journal tells it. -/
theorem State.Since.mapper (since : s₀.Since t s x) {k : κ} {said : List Observation} {e : Exchange}
    (live : List Mapping) (after : PageMemory.carry s.kernel e = k) (told : (Observation.ofExchange e).toList = said) :
    s₀.Since t { s with kernel := k, journal := s.journal ++ said } (Shift.tell { x with live := live } [e]) := by
  refine { since with kernel := by simp [← after,since.kernel], journal := ?_ }
  cases seen : Observation.ofExchange e <;> simp [← told,since.journal,seen]

/-- A question changes nothing, and the journal does not tell it. -/
theorem State.Since.question (since : s₀.Since t s x) {e : Exchange} (after : PageMemory.carry s.kernel e = s.kernel)
    (told : Observation.ofExchange e = none) : s₀.Since t s (x.tell [e]) := by
  have silent : (Observation.ofExchange e).toList = [] := by rw [told]; rfl
  have since' := since.mapper x.live after silent
  rwa [List.append_nil] at since'

/-- What a site may be asked for, a rehearsal answers as the site does. -/
theorem State.Since.answers {ready : s₀.Ready key} {proper : m.Proper} {even : 16 ∣ m.addr.toNat} {q : Request} {n : Nat}
    (since : s₀.Since t s x) (may : (State.site ready m proper even).May (s₀.Grants m) x q) :
    ∃ reply s', (answer (n + 1) t q).Gives s reply s' ∧ (State.site ready m proper even).Expects x q reply ∧
      s₀.Since t s' (x.after q reply) := by
  have stack : s.image.threads t = x.stack := (congrFun since.threads t).trans (replace_same ..)
  have runtimes : s.image.runtimes runtime = ⟨.ready,some key⟩ := (congrFun since.runtimes _).trans ready.runtime
  cases q with
  | state call =>
    refine ⟨_,_,answerState_gives,?_⟩
    rw [Shift.after_state]
    cases call with
    | stack => exact ⟨stack,since⟩
    | setStack stack => exact ⟨trivial,since.image (by simp [Image.answer,since.threads]) since.memory rfl⟩
    | phase rt => exact ⟨fun own => by subst own; exact congrArg RuntimeState.phase runtimes,since⟩
    | key rt => exact ⟨fun own => by subst own; exact congrArg RuntimeState.key runtimes,since⟩
    | load addr count => exact ⟨congrArg (Memory.load · addr count) since.memory,since⟩
    | store addr bytes => exact ⟨trivial,since.image since.threads (by simp [Image.answer,since.memory]) rfl⟩
    | verbosity => exact ⟨trivial,since⟩
    | emit line => exact ⟨trivial,since.image since.threads since.memory rfl⟩
    | exchangePhase rt expected desired => exact may.elim
    | setPhase rt phase => exact may.elim
    | keepKey rt key => exact may.elim
    | setVerbosity level => exact may.elim
    | environment => exact may.elim
  | mapper rt call =>
    cases call with
    | pageSize =>
      refine ⟨_,_,.bind Acting.gives_get Acting.gives_pure,?_,since.question rfl rfl⟩
      exact (congrArg PageMemory.pageSize since.kernel).trans (PageMemory.pageSize_foldl_carry _ _)
    | map len rights =>
      obtain ⟨same,given⟩ := may
      rw [← since.kernel] at given
      exact ⟨_,_,map_gives given,⟨_,rfl,same.symm⟩,since.mapper _ rfl rfl⟩
    | protect addr len rights =>
      have given : (PageMemory.protect (x.calls.foldl PageMemory.carry s₀.kernel) addr len rights).1 = 0 := may
      rw [← since.kernel] at given
      exact ⟨_,_,protect_gives given,rfl,since.mapper _ rfl rfl⟩
    | unmap addr len =>
      have given : (PageMemory.unmap (x.calls.foldl PageMemory.carry s₀.kernel) addr len).1 = 0 := may
      rw [← since.kernel] at given
      exact ⟨_,_,unmap_gives given,rfl,since.mapper _ rfl rfl⟩
  | host rt call =>
    cases call with
    | defaultAttributes =>
      refine ⟨_,_,.bind Acting.gives_get Acting.gives_pure,?_,since.question rfl rfl⟩
      rw [since.host]
      rfl
    | requestedAttributes attr =>
      refine ⟨_,_,.bind Acting.gives_get Acting.gives_pure,?_,since.question rfl rfl⟩
      rw [since.host]
      rfl
    | setCleanupValue key value =>
      refine ⟨_,_,.bind onHost_gives (.bind note_gives Acting.gives_pure),rfl,?_⟩
      exact { since with
        kernel := by simp [since.kernel,Shift.after,Shift.act,Request.crossing,PageMemory.carry]
        journal := by simp [since.journal,Shift.after,Shift.act,Request.crossing,Observation.ofExchange]
        host := by simp [since.host,StandIn.setValues,Shift.after,Shift.act,Shift.tell] }
    | stackLimit => exact may.elim
    | installInterception => exact may.elim
    | createCleanupKey => exact may.elim
    | spawn call => exact may.elim
  | enter entry arg =>
    refine ⟨_,_,Acting.gives_modifyGet,congrFun (congrFun since.functions entry) arg,?_⟩
    exact { since with
      kernel := by simp [since.kernel,Shift.after,Shift.act,Request.crossing,PageMemory.carry]
      journal := by simp [since.journal,Shift.after,Shift.act,Request.crossing,Observation.ofExchange] }

/-- A program of a thread comes to what its closed form says. -/
theorem State.gives {ready : s.Ready key} {proper : m.Proper} {even : 16 ∣ m.addr.toNat} {α : Type} {p : Program α}
    {n : Nat} {post : Shift → α → Prop}
    (follows : p.Follows (working (State.site ready m proper even) (s.Grants m) False) post (s.shift t)) :
    ∃ a s' x, (p.run (answer (n + 1) t)).Gives s a s' ∧ s.Since t s' x ∧ post x a := by
  refine follows.gives since_shift (fun _ ends => ends.1) fun s' x q since may => ?_
  obtain ⟨reply,s'',answered,expected,since⟩ := since.answers may
  exact ⟨reply,s'',_,answered,⟨expected,rfl⟩,since⟩

end
end Rehearsal
end GuardedStack
