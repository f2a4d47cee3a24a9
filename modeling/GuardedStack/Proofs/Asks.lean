import GuardedStack.Proofs.Watch

/-! Which requests a program makes at all. A program that makes only requests that a watch does not count keeps to the
rules of the watch and leaves its state as it is. -/
namespace GuardedStack

/-- Requests that read, write memory or report, or that ask for attributes or access. -/
def Request.Quiet : Request → Prop
  | .mapper _ .pageSize | .mapper _ (.protect _ _ _) => True
  | .host _ .stackLimit | .host _ .defaultAttributes | .host _ (.requestedAttributes _) => True
  | .state .stack | .state (.phase _) | .state (.load _ _) | .state (.store _ _) => True
  | .state .verbosity | .state (.setVerbosity _) | .state .environment | .state (.emit _) => True
  | _ => False

/-- These, and those that make and unmap mappings. -/
def Request.Plain : Request → Prop
  | .mapper _ _ => True
  | q => q.Quiet

theorem Request.Quiet.plain {q : Request} (quiet : q.Quiet) : q.Plain := by
  cases q with
  | mapper => trivial
  | host | state | enter => exact quiet

/-- Requests for the thread's own stack and for memory, and reports. -/
def Request.Inner : Request → Prop
  | .state .stack | .state (.setStack _) | .state (.load _ _) | .state (.store _ _) => True
  | .state .verbosity | .state (.emit _) => True
  | _ => False

def Stop.Overflow : Stop → Prop
  | .overflow _ => True
  | _ => False

/-- Any stop but that for a fault. -/
def Stop.Unfaulted : Stop → Prop
  | .aborted (.fault _ _) => False
  | _ => True

theorem Stop.Overflow.unfaulted {reason : Stop} (overflow : reason.Overflow) : reason.Unfaulted := by
  cases reason with
  | overflow => trivial
  | trapped | threadLost | aborted => exact overflow.elim

section
variable {S S' : Request → Prop} {E E' : Stop → Prop}

/-- Requests only from `S`, and only the stops `E`. -/
def Program.Asks (S : Request → Prop) (E : Stop → Prop) : Program α → Prop
  | done _ => True
  | stop reason => E reason
  | ask q next => S q ∧ ∀ reply, (next reply).Asks S E

def Attempt.Asks (S : Request → Prop) (E : Stop → Prop) (attempt : Attempt α) : Prop := attempt.run.Asks S E

namespace Program

theorem Asks.bind {p : Program α} {f : α → Program β} (first : p.Asks S E) (rest : ∀ a, (f a).Asks S E) :
    (p >>= f).Asks S E := by
  induction p with
  | done a => exact rest a
  | stop reason => exact first
  | ask q next ih => exact ⟨first.1,fun reply => ih reply (first.2 reply)⟩

theorem Asks.mono {p : Program α} (asks : p.Asks S E) (part : ∀ q, S q → S' q) (ends : ∀ reason, E reason → E' reason) :
    p.Asks S' E' := by
  induction p with
  | done a => trivial
  | stop reason => exact ends reason asks
  | ask q next ih => exact ⟨part q asks.1,fun reply => ih reply (asks.2 reply)⟩

theorem asks_request {q : Request} (allowed : S q) : (request q).Asks S E := ⟨allowed,fun _ => trivial⟩

theorem asks_checked (c : Checked α) : (checked c).Asks S Stop.Overflow := by
  cases c <;> trivial

theorem asks_abort {cause : Diagnostics.Fatal} (report : ∀ line, S (.state (.emit line))) (ends : E (.aborted cause)) :
    (abort cause : Program α).Asks S E :=
  .bind (asks_request (report _)) fun _ => ends

section
variable (asks : S (.state .verbosity)) (emits : ∀ line, S (.state (.emit line)))
include asks emits

theorem asks_report {level : Verbosity} {m : Program Diagnostics.Message} (text : m.Asks S E) :
    (report level m).Asks S E := by
  refine .bind (asks_request asks) fun verbosity => ?_
  split
  · exact .bind text fun _ => asks_request (emits _)
  · trivial

theorem asks_trace {text : Program String} (made : text.Asks S E) : (trace text).Asks S E :=
  asks_report asks emits (.bind made fun _ => trivial)

theorem asks_notice {text : Program String} (made : text.Asks S E) : (notice text).Asks S E :=
  asks_report asks emits (.bind made fun _ => trivial)

end

/-- A program that makes only requests that are allowed in certain states of a watch and lead from these to these. -/
theorem Asks.within {τ : Type} {v : Watch τ} {op : Operation} {P : τ → Prop} {p : Program α} {c : Custody} {x : τ}
    (allowed : ∀ c x q, P x → S q → v.may op c x q) (keeps : ∀ x q reply, P x → S q → P (v.after x q reply))
    (asks : p.Asks S E) (stops : ∀ reason, E reason → v.stops op reason) (holds : P x) :
    p.Follows (v.rules op) (fun y _ => P y.2) (c,x) := by
  induction p generalizing c x with
  | done a => exact holds
  | stop reason => exact stops reason asks
  | ask q next ih =>
    refine ⟨allowed c x q holds asks.1,?_⟩
    rintro reply y ⟨-,-,rfl⟩
    exact ih reply (asks.2 reply) (keeps x q reply holds asks.1)

section
variable {τ : Type} {v : Watch τ} {op : Operation} {x : τ} (allowed : ∀ c q, S q → v.may op c x q)
  (calm : ∀ q reply, S q → v.after x q reply = x)
include allowed calm

/-- A program that makes only requests that leave the state of a watch as it is. -/
theorem Asks.stays {p : Program α} {c : Custody} (asks : p.Asks S E) (stops : ∀ reason, E reason → v.stops op reason) :
    p.Follows (v.rules op) (fun y _ => y.2 = x) (c,x) := by
  refine Asks.within (P := (· = x)) ?_ ?_ asks stops rfl
  · rintro c _ q rfl asked
    exact allowed c q asked
  · rintro _ q reply rfl asked
    exact calm q reply asked

/-- What is known of its custody stays known. -/
theorem Asks.follows {p : Program α} {post : Custody → α → Prop} {c : Custody} (asks : p.Asks S E)
    (follows : p.Follows custody post c) (stops : ∀ reason, E reason → custody.ends reason → v.stops op reason) :
    p.Follows (v.rules op) (fun y a => y.2 = x ∧ post y.1 a) (c,x) := by
  induction p generalizing c with
  | done a => exact ⟨rfl,follows⟩
  | stop reason => exact stops reason asks follows
  | ask q next ih =>
    refine ⟨allowed c q asks.1,?_⟩
    rintro reply y ⟨expected,-,rfl⟩
    have next := ih reply (asks.2 reply) (follows.2 reply _ ⟨expected,rfl⟩)
    rwa [calm q reply asks.1]

end
end Program

namespace Attempt

theorem Asks.bind {attempt : Attempt α} {f : α → Attempt β} (first : attempt.Asks S E) (rest : ∀ a, (f a).Asks S E) :
    (attempt >>= f).Asks S E := by
  refine Program.Asks.bind first ?_
  rintro (cause | a)
  · trivial
  · exact rest a

theorem Asks.mono {attempt : Attempt α} (asks : attempt.Asks S E) (part : ∀ q, S q → S' q)
    (ends : ∀ reason, E reason → E' reason) : attempt.Asks S' E' :=
  Program.Asks.mono asks part ends

theorem asks_lift {p : Program α} (asks : p.Asks S E) : (liftM p : Attempt α).Asks S E :=
  Program.Asks.bind asks fun _ => trivial

theorem asks_outcome {attempt : Attempt α} (asks : attempt.Asks S E) : attempt.outcome.Asks S E :=
  Program.Asks.bind asks fun _ => trivial

theorem asks_orAbort {what : String} {attempt : Attempt α} (asks : attempt.Asks S E)
    (report : ∀ line, S (.state (.emit line))) (ends : ∀ cause, E (.aborted (.fault what cause))) :
    (attempt.orAbort what).Asks S E := by
  refine Program.Asks.bind asks ?_
  rintro (cause | a)
  · exact Program.asks_abort report (ends _)
  · trivial

end Attempt

open Program Attempt

/-! The parts that operations are made of. -/

theorem asks_text {s : String} : (pure s : Program String).Asks S E := trivial

namespace Region

theorem closeGuard_asks {rt : RuntimeId} {start total guard : UInt64} :
    (closeGuard rt start total guard).Asks Request.Plain E := by
  refine .bind (asks_outcome (asks_request (q := .mapper _ _) trivial)) ?_
  rintro (cause | _)
  · refine .bind (asks_outcome (asks_request (q := .mapper _ _) trivial)) ?_
    rintro (leftover | _)
    · exact .bind (asks_lift (asks_trace trivial (fun _ => trivial) asks_text)) fun _ => trivial
    · trivial
  · trivial

theorem allocate_asks {rt : RuntimeId} {size guard : UInt64} :
    (allocate rt size guard).Asks Request.Plain Stop.Overflow := by
  unfold allocate
  split
  · trivial
  · refine .bind (asks_request (q := .mapper _ _) trivial) fun start => ?_
    have traced : (trace (Program.checked (Checked.add (start + guard) size) >>= fun top =>
        pure s!"mapped unsafe stack {hex (start + guard)}..{hex top} (guard {hex guard})")).Asks Request.Plain
          Stop.Overflow :=
      asks_trace trivial (fun _ => trivial) (.bind (asks_checked _) fun _ => asks_text)
    dsimp only
    split
    · exact .bind closeGuard_asks fun _ => .bind (asks_lift traced) fun _ => trivial
    · exact .bind (asks_lift traced) fun _ => trivial

theorem release_asks {rt : RuntimeId} {r : Region} : (release rt r).Asks Request.Plain Stop.Overflow := by
  refine .bind (asks_lift (asks_checked _)) fun length => ?_
  refine .bind (asks_request (q := .mapper _ _) trivial) fun _ => ?_
  exact asks_lift (asks_trace trivial (fun _ => trivial) asks_text)

/-- The length of a sound region does not overflow. -/
theorem release_asks_sound {rt : RuntimeId} {r : Region} (sound : r.Sound) : (release rt r).Asks Request.Plain E := by
  refine .bind (asks_lift ?_) fun length => ?_
  · rw [sound.length_eq]
    trivial
  refine .bind (asks_request (q := .mapper _ _) trivial) fun _ => ?_
  exact asks_lift (asks_trace trivial (fun _ => trivial) asks_text)

theorem discard_asks {rt : RuntimeId} {reason : String} {r : Region} :
    (discard rt reason r).Asks Request.Plain Stop.Overflow := by
  refine .bind release_asks ?_
  rintro (leftover | _)
  · exact asks_trace trivial (fun _ => trivial) asks_text
  · trivial

end Region

theorem Host.attributes_asks {rt : RuntimeId} {attr : Option AttributeRef} :
    (Host.attributes rt attr).Asks Request.Quiet E := by
  cases attr with
  | none => exact asks_request (q := .host _ _) trivial
  | some attr => exact asks_request (q := .host _ _) trivial

theorem Thread.install_asks {h : Holding} (reads : S (.state .stack)) (writes : ∀ s, S (.state (.setStack s))) :
    (Thread.install h).Asks S E := by
  refine .bind (asks_lift (asks_request reads)) fun s => ?_
  split
  · exact asks_lift (asks_request (writes _))
  · trivial

theorem Thread.take_asks (reads : S (.state .stack)) (writes : S (.state (.setStack .empty))) : take.Asks S E :=
  .bind (asks_request reads) fun _ => .bind (asks_request writes) fun _ => trivial

namespace Handoff

theorem take_asks {addr : UInt64} (reads : ∀ addr count, S (.state (.load addr count)))
    (writes : ∀ addr bytes, S (.state (.store addr bytes))) : (take addr).Asks S E :=
  .bind (asks_request (reads _ _)) fun _ => .bind (asks_request (writes _ _)) fun _ => trivial

theorem place_asks {h : Handoff} : (place h).Asks Request.Quiet Stop.Unfaulted := by
  have slot : (slot h.region).Asks Request.Quiet Stop.Unfaulted := by
    unfold slot
    split
    · trivial
    · refine .bind (asks_lift ((asks_checked _).mono (fun _ => id) fun _ => Stop.Overflow.unfaulted)) fun addr => ?_
      split
      · trivial
      · exact asks_lift (asks_abort (fun _ => trivial) trivial)
  exact .bind slot fun _ => .bind (asks_lift (asks_request trivial)) fun _ => trivial

end Handoff

end

/-! What a thread runs for its own sake, up to where it acts. -/

/-- A watch that does not count what a thread does to its own stack. -/
structure Watch.Calm {τ : Type} (v : Watch τ) (op : Operation) (x : τ) : Prop where
  may : ∀ c q, q.Inner → v.may op c x q
  after : ∀ q reply, q.Inner → v.after x q reply = x
  stops : ∀ reason, custody.ends reason → v.stops op reason

section
variable {τ : Type} {v : Watch τ} {op : Operation} {x : τ} {c : Custody}

open Program Attempt

/-- A request that the watch does not count. -/
theorem Watch.follows_uncounted {q : Request} {post : Custody × τ → q.Reply → Prop} (allowed : v.may op c x q)
    (same : ∀ reply, v.after x q reply = x) (after : ∀ reply, c.Expects q reply → post (c.after q reply,x) reply) :
    (request q).Follows (v.rules op) post (c,x) := by
  refine Program.follows_request allowed ?_
  rintro reply y ⟨expected,-,rfl⟩
  have after := after reply expected
  rwa [← same reply] at after

/-- The key of a runtime that was found ready is there. -/
theorem Runtime.cleanupKey_follows_uncounted {rt : RuntimeId} {post : Custody × τ → CleanupKey → Prop}
    (allowed : v.may op c x (.state (.key rt))) (same : ∀ key, v.after x (.state (.key rt)) key = x)
    (ready : rt ∈ c.ready) (after : ∀ key, post (c.after (.state (.key rt)) (some key),x) key) :
    (cleanupKey rt).Follows (v.rules op) post (c,x) := by
  refine .bind (Watch.follows_uncounted allowed same ?_)
  rintro (_ | key) kept
  · exact absurd rfl (kept ready)
  · exact after key

variable (calm : v.Calm op x)
include calm

theorem Watch.Calm.follows {p : Program α} {post : Custody → α → Prop} (asks : p.Asks Request.Inner fun _ => True)
    (follows : p.Follows custody post c) : p.Follows (v.rules op) (fun y a => y.2 = x ∧ post y.1 a) (c,x) :=
  Program.Asks.follows calm.may calm.after asks follows fun reason _ => calm.stops reason

theorem Watch.Calm.request {q : Request} {post : Custody × τ → q.Reply → Prop} (inner : q.Inner)
    (after : ∀ reply, c.Expects q reply → post (c.after q reply,x) reply) :
    (request q).Follows (v.rules op) post (c,x) :=
  Watch.follows_uncounted (calm.may c q inner) (calm.after q · inner) after

/-- The first frame of a thread acts once its stack is installed and its key is found. -/
theorem Spawn.firstFrame_calm {h : Handoff} {addr : UInt64} {post : Custody × τ → UInt64 → Prop}
    (sound : h.region.Sound) (looks : ∀ c : Custody, h.runtime ∈ c.ready → v.may op c x (.state (.key h.runtime)))
    (found : ∀ key, v.after x (.state (.key h.runtime)) key = x)
    (rest : ∀ (c : Custody) key, c.hand = .empty → c.role = .arming → c.key = some (h.runtime,key) →
      ((Host.setCleanupValue h.runtime key armed).orAbort Diagnostics.Duty.arming.text >>= fun _ =>
        Program.request (.enter h.start h.arg)).Follows (v.rules op) post (c,x)) :
    (firstFrame addr).Follows (v.rules op) post (.ofRecord addr h,x) := by
  unfold firstFrame
  split
  · exact .bind (calm.request trivial fun _ _ => calm.stops _ (by simp [custody]))
  refine .bind ((calm.follows (Handoff.take_asks (fun _ _ => trivial) fun _ _ => trivial)
    (Handoff.take_follows rfl)).mono ?_)
  rintro ⟨c,x'⟩ handoff ⟨same,rfl,rfl⟩
  obtain rfl : x' = x := same
  refine .bind ((calm.follows (asks_orAbort (Thread.install_asks trivial fun _ => trivial) (fun _ => trivial)
    fun _ => trivial) (follows_orAbort custody_frank ((Thread.install_follows (h := handoff.holding) sound rfl
      fun s expected => ?_).mono (fun _ _ => id) fun _ _ _ => trivial))).mono ?_)
  · obtain rfl := expected.2.1 _ rfl
    exact .arrival rfl rfl (List.mem_singleton_self _) rfl rfl rfl
  rintro ⟨c,x''⟩ ⟨⟩ ⟨same,rfl⟩
  obtain rfl : x'' = x' := same
  have ready : handoff.runtime ∈ [handoff.runtime] := List.mem_singleton_self _
  exact .bind (Runtime.cleanupKey_follows_uncounted (looks _ ready) found ready fun key => rest _ key rfl rfl rfl)

/-- A destructor call acts for the owner of the stack that it finds. -/
theorem Cleanup.round_calm {value : UInt64} {s : ThreadStack} {post : Custody × τ → Unit → Prop} (whole : s.Sound)
    (looks : ∀ (c : Custody) rt, s.owner = some rt → rt ∈ c.ready → v.may op c x (.state (.key rt)))
    (found : ∀ rt key, v.after x (.state (.key rt)) key = x) (vacant : ∀ c, s.holding = none → post (c,x) ())
    (early : ∀ (h : Holding) (c : Custody) key, s.holding = some h → value < destructorRounds → c.key = some (h.owner,key) →
      ((Host.setCleanupValue h.owner key (value + 1)).orAbort Diagnostics.Duty.rearming.text).Follows (v.rules op)
        post (c,x))
    (late : ∀ (h : Holding) (c : Custody), s.holding = some h → destructorRounds ≤ value → c.hand = .held h.mapping →
      ((Region.release h.owner h.region).orAbort Diagnostics.Duty.releasing.text).Follows (v.rules op) post (c,x)) :
    (round value destructorRounds).Follows (v.rules op) post (.ofValue value s,x) := by
  refine .bind (calm.request trivial fun s' expected => ?_)
  obtain rfl := expected.2.1 s rfl
  obtain ⟨pointer,holding⟩ := s'
  cases holding with
  | none => exact vacant _ rfl
  | some h =>
    dsimp only [ThreadStack.owner,Option.map]
    rw [action_eq]
    refine .bind (Program.follows_checked rfl ?_)
    by_cases soon : value < destructorRounds
    · rw [if_pos soon]
      have ready : h.owner ∈ [h.owner] := List.mem_singleton_self _
      exact .bind (Runtime.cleanupKey_follows_uncounted (looks _ h.owner rfl ready) (found h.owner) ready fun key =>
        early h _ key rfl soon rfl)
    · rw [if_neg soon]
      refine .bind (.bind (calm.request trivial fun s' expected => ?_))
      obtain rfl := expected.2.1 _ rfl
      exact .bind (calm.request trivial fun _ _ => late h _ rfl (UInt64.not_lt.mp soon) rfl)

end
end GuardedStack
