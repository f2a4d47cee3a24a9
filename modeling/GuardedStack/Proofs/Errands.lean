import GuardedStack.Proofs.Asks

/-! What a thread runs for its own sake. Its first frame arms one key, that of the runtime in its record. A call of the
destructor acts for the owner of the stack that it finds, whichever key was fired: it counts the round in the owner's
key, or it unmaps the owner's region, and it does nothing else. -/
namespace GuardedStack

/-- An operation that a thread runs for its own sake, by what it begins with. -/
inductive Errand where
  /-- None; the operation was called. -/
  | outer
  | arrival (record : Handoff)
  /-- A call of the destructor, which has counted the round or unmapped the region or is still to do so. -/
  | departure (value : UInt64) (s : ThreadStack) (acted : Bool)

namespace Errand

def start : Event → Option Errand
  | .called _ _ _ => some outer
  | .began _ _ _ record => some (arrival record)
  | .fired _ _ _ _ value s => some (departure value s false)
  | _ => none

/-- The runtime that the operation acts for. -/
def client : Errand → Option RuntimeId
  | outer => none
  | arrival record => some record.runtime
  | departure _ s _ => s.owner

def after : Errand → (q : Request) → q.Reply → Errand
  | departure value s _, .host _ (.setCleanupValue _ _), .ok () => departure value s true
  | departure value s _, .mapper _ (.unmap _ _), .ok () => departure value s true
  | x, _, _ => x

def May : Errand → Request → Prop
  | outer, _ => True
  | arrival record, .state (.key rt) => record.runtime = rt
  | departure _ s _, .state (.key rt) => s.owner = some rt
  | _, .state _ => True
  | arrival record, .host rt (.setCleanupValue _ value) => record.runtime = rt ∧ value = armed
  | arrival _, .enter _ _ => True
  | departure pass s acted, .host rt (.setCleanupValue _ value) =>
      acted = false ∧ s.owner = some rt ∧ pass < destructorRounds ∧ value = pass + 1
  | departure pass s acted, .mapper rt (.unmap addr len) =>
      acted = false ∧ destructorRounds ≤ pass ∧ ∃ h, s.holding = some h ∧ h.mapping = ⟨rt,addr,len⟩
  | _, _ => False

theorem after_departure (pass : UInt64) (s : ThreadStack) (acted : Bool) (q : Request) (reply : q.Reply) :
    ∃ acted', (departure pass s acted).after q reply = departure pass s acted' := by
  unfold after
  split
  next same => cases same; exact ⟨_,rfl⟩
  next same => cases same; exact ⟨_,rfl⟩
  · exact ⟨_,rfl⟩

/-- A destructor call acts when a key is set or a mapping is unmapped. -/
theorem acts {pass : UInt64} {s : ThreadStack} {q : Request} {reply : q.Reply}
    (now : (departure pass s false).after q reply = departure pass s true) :
    (∃ rt key value, (⟨q,reply⟩ : (q : Request) × q.Reply) = ⟨.host rt (.setCleanupValue key value),.ok ()⟩) ∨
      ∃ rt addr len, (⟨q,reply⟩ : (q : Request) × q.Reply) = ⟨.mapper rt (.unmap addr len),.ok ()⟩ := by
  unfold after at now
  split at now
  · exact .inl ⟨_,_,_,rfl⟩
  · exact .inr ⟨_,_,_,rfl⟩
  · cases now

theorem May.unacted {pass : UInt64} {s : ThreadStack} {acted : Bool} {q : Request}
    (may : (departure pass s acted).May q) : (departure pass s false).May q := by
  cases q with
  | state call => cases call <;> exact may
  | enter => exact may.elim
  | host rt call =>
    cases call with
    | setCleanupValue key value => exact ⟨rfl,may.2⟩
    | _ => exact may.elim
  | mapper rt call =>
    cases call with
    | unmap addr len => exact ⟨rfl,may.2⟩
    | _ => exact may.elim

/-- A destructor call that finds a stack acts before it ends. -/
def Ends : Errand → Prop
  | departure _ s acted => s.holding = none ∨ acted = true
  | _ => True

end Errand

def errands : Watch Errand where
  start := Errand.start
  after := Errand.after
  may _ _ := Errand.May
  grants _ _ := True
  ends _ x _ := x.Ends
  stops _ := custody.ends

open Program Attempt

section
variable {op : Operation} {c : Custody}

theorem errands_frank : (errands.rules op).Frank where
  emits := by
    rintro ⟨c,x⟩ line
    cases x <;> trivial
  emitted := by
    rintro ⟨c,x⟩ line reply y ⟨-,-,rfl⟩
    cases x <;> rfl
  asks := by
    rintro ⟨c,x⟩
    cases x <;> trivial
  asked := by
    rintro ⟨c,x⟩ reply y ⟨-,-,rfl⟩
    cases x <;> rfl
  aborts _ known := known

theorem errands_calm {x : Errand} : errands.Calm op x where
  may c q inner := by
    cases q with
    | state call =>
      cases x <;> cases call <;> trivial
    | mapper | host | enter => exact inner.elim
  after q reply inner := by
    cases q with
    | state call => cases x <;> rfl
    | mapper | host | enter => exact inner.elim
  stops _ := id

/-- An operation without an errand is only held to its custody. -/
theorem Program.Follows.outer {p : Program α} {post : Custody → α → Prop} (follows : p.Follows custody post c) :
    p.Follows (errands.rules op) (fun y _ => y.2 = .outer) (c,.outer) := by
  induction p generalizing c with
  | done a => rfl
  | stop reason => exact follows
  | ask q next ih =>
    refine ⟨trivial,?_⟩
    rintro reply y ⟨expected,-,rfl⟩
    exact ih reply (follows.2 reply _ ⟨expected,rfl⟩)

theorem Spawn.firstFrame_runs {h : Handoff} {addr arg : UInt64} {routine : StartRoutine} (sound : h.region.Sound) :
    (firstFrame addr).Follows (errands.rules (.body routine arg)) (fun y _ => y.2.Ends) (.ofRecord addr h,.arrival h) := by
  refine Spawn.firstFrame_calm errands_calm sound (fun _ _ => rfl) (fun _ => rfl) fun c key empty role known => ?_
  refine .bind (follows_orAbort errands_frank (follows_ofProgram (follows_request ⟨rfl,rfl⟩ ?_)))
  rintro (cause | _) y ⟨-,-,rfl⟩
  · trivial
  · refine follows_request trivial ?_
    rintro result y ⟨-,-,rfl⟩
    trivial

theorem Cleanup.round_runs {value : UInt64} {s : ThreadStack} (whole : s.Sound) :
    (round value destructorRounds).Follows (errands.rules op) (fun y _ => y.2.Ends)
      (.ofValue value s,.departure value s false) := by
  refine Cleanup.round_calm errands_calm whole (fun c rt owner _ => owner) (fun _ _ => rfl) (fun _ bare => .inl bare) ?_ ?_
  · intro h c key holds early known
    have owner : s.owner = some h.owner := by simp [ThreadStack.owner,holds]
    refine follows_orAbort errands_frank (follows_ofProgram (follows_request ⟨rfl,owner,early,rfl⟩ ?_))
    rintro (cause | _) y ⟨-,-,rfl⟩
    · trivial
    · exact .inr rfl
  · intro h c holds late held
    obtain ⟨sound,-,-⟩ := whole.some h holds
    refine follows_orAbort errands_frank (.bind (follows_lift (follows_checked sound.length_eq ?_)))
    refine .bind (follows_ofProgram (follows_request ⟨rfl,late,h,holds,rfl⟩ ?_))
    rintro (cause | _) y ⟨-,-,rfl⟩
    · trivial
    · exact follows_lift (follows_trace errands_frank.toSilent rfl (.inr rfl))

theorem errands_covers : errands.Covers where
  call {n t op x} named starts := by
    obtain rfl : .outer = x := Option.some.inj starts
    refine (Operation.named_follows named).outer.mono ?_
    rintro y result same
    show y.2.Ends
    rw [same]
    trivial
  body {n t call record x} sound starts := by
    obtain rfl : .arrival record = x := Option.some.inj starts
    exact Spawn.firstFrame_runs sound
  destroy {n t rt key value s x} whole starts := by
    obtain rfl : .departure value s false = x := Option.some.inj starts
    exact (Cleanup.round_runs whole).callback fun _ overflow => overflow

end

/-- A key is known only from its look-up. -/
theorem Custody.key_after (c : Custody) (q : Request) (reply : q.Reply) :
    (c.after q reply).key = c.key ∨ ∃ rt, q = .state (.key rt) ∧ ∀ rt' key, (c.after q reply).key = some (rt',key) → rt' = rt := by
  cases q with
  | enter => exact .inl rfl
  | mapper rt call =>
    cases call with
    | map => cases reply <;> exact .inl rfl
    | pageSize | protect | unmap => exact .inl rfl
  | host rt call =>
    cases call with
    | setCleanupValue => cases reply <;> exact .inl rfl
    | spawn call =>
      refine .inl ?_
      simp only [after]
      split <;> rfl
    | _ => exact .inl rfl
  | state call =>
    cases call with
    | key rt =>
      refine .inr ⟨rt,rfl,fun rt' key found => ?_⟩
      obtain ⟨key',-,same⟩ := Option.map_eq_some_iff.mp found
      cases same
      rfl
    | setStack s =>
      refine .inl ?_
      simp only [after,write]
      split <;> rfl
    | setPhase rt phase =>
      refine .inl ?_
      cases phase <;> simp only [after,setPhase]
      split <;> rfl
    | store addr bytes =>
      refine .inl ?_
      simp only [after,store]
      split <;> rfl
    | phase | exchangePhase =>
      refine .inl ?_
      simp only [after]
      split <;> rfl
    | _ => exact .inl rfl

namespace World

variable {trace : Trace} {w w' : World} {e : Event} {t : ThreadId} {n : Nat}

/-- What the history says of an operation with its errand. -/
structure Known (trace : Trace) (n : Nat) (t : ThreadId) (x : Errand) : Prop where
  outer : x = .outer → ¬(trace.custodies n).role.Base
  arrival : ∀ {record}, x = .arrival record → ∃ call, .began n t call record ∈ trace
  departure : ∀ {value s acted}, x = .departure value s acted → ∃ rt key, .fired n t rt key value s ∈ trace
  client : ∀ {rt key}, (trace.custodies n).key = some (rt,key) → x = .outer ∨ x.client = some rt
  asked : ∀ {value s acted}, x = .departure value s acted → ∀ {t' q reply}, .answered n t' q reply ∈ trace →
    Errand.May (.departure value s false) q
  acted : ∀ {value s}, x = .departure value s true → ∃ t' h, s.holding = some h ∧
    (value < destructorRounds ∧ (∃ key, .answered n t' (.host h.owner (.setCleanupValue key (value + 1))) (.ok ()) ∈ trace) ∨
      destructorRounds ≤ value ∧ .answered n t' (.mapper h.owner (.unmap h.mapping.addr h.mapping.len)) (.ok ()) ∈ trace)

theorem Known.kept {x : Errand} (known : Known trace n t x) (other : ¬e.Concerns n) : Known (e :: trace) n t x := by
  obtain ⟨-,custodies,-⟩ := unconcerned errands trace other
  refine ⟨?_,?_,?_,?_,?_,?_⟩
  · rw [custodies]
    exact known.outer
  · intro record arrives
    obtain ⟨call,began⟩ := known.arrival arrives
    exact ⟨call,List.mem_cons_of_mem _ began⟩
  · intro value s acted departs
    obtain ⟨rt,key,fired⟩ := known.departure departs
    exact ⟨rt,key,List.mem_cons_of_mem _ fired⟩
  · rw [custodies]
    exact known.client
  · intro value s acted departs t' q reply member
    rcases List.mem_cons.mp member with rfl | earlier
    · exact absurd rfl other
    · exact known.asked departs earlier
  · intro value s departs
    obtain ⟨t',h,holds,done⟩ := known.acted departs
    refine ⟨t',h,holds,done.imp (And.imp_right ?_) (And.imp_right (List.mem_cons_of_mem _))⟩
    rintro ⟨key,set⟩
    exact ⟨key,List.mem_cons_of_mem _ set⟩

theorem Known.opened {x : Errand} (fresh : ∀ e' ∈ trace, ¬e'.Concerns n) (opens : e.Opens n)
    (starts : Errand.start e = some x) : Known (e :: trace) n (Trace.homes (e :: trace) n) x := by
  have silent {t' q reply} : .answered n t' q reply ∉ e :: trace := by
    intro member
    rcases List.mem_cons.mp member with rfl | earlier
    · exact opens
    · exact fresh _ earlier rfl
  cases e with
  | called k t op =>
    cases opens
    cases starts
    refine ⟨fun _ base => ?_,by simp,by simp,fun _ => .inl rfl,by simp,by simp⟩
    have base : (Custody.ofOperation op).role.Base := by simpa [Trace.custodies,Event.custodies] using base
    cases op <;> exact base
  | began k t call record =>
    cases opens
    cases starts
    refine ⟨by simp,?_,by simp,?_,by simp,by simp⟩
    · rintro _ ⟨⟩
      exact ⟨call,by simp [Trace.homes,Event.homes]⟩
    · simp [Trace.custodies,Event.custodies,Custody.ofRecord]
  | fired k t rt key value s =>
    cases opens
    cases starts
    refine ⟨by simp,by simp,?_,?_,fun _ _ _ _ member => absurd member silent,by simp⟩
    · rintro _ _ _ ⟨⟩
      exact ⟨rt,key,by simp [Trace.homes,Event.homes]⟩
    · simp [Trace.custodies,Event.custodies,Custody.ofValue]
  | _ => exact opens.elim

/-- Whoever looks a key up is told to, and then acts for its owner. -/
theorem Known.client_answered {x : Errand} {q : Request} {reply : q.Reply} (known : Known trace n t x) (may : x.May q)
    {rt : RuntimeId} {key : CleanupKey}
    (found : (Trace.custodies (.answered n t q reply :: trace) n).key = some (rt,key)) : x = .outer ∨ x.client = some rt := by
  have found : ((trace.custodies n).after q reply).key = some (rt,key) := by
    simpa [Trace.custodies,Event.custodies] using found
  rcases (trace.custodies n).key_after q reply with same | ⟨rt',rfl,only⟩
  · exact known.client (same ▸ found)
  · obtain rfl := only _ _ found
    cases x with
    | outer => exact .inl rfl
    | arrival record => exact .inr (congrArg some may)
    | departure value s acted => exact .inr may

theorem Known.answered {x : Errand} {q : Request} {reply : q.Reply} (known : Known trace n t x)
    (owns : (trace.custodies n).May q) (may : x.May q) : Known (.answered n t q reply :: trace) n t (x.after q reply) := by
  have client {rt key} (found : (Trace.custodies (.answered n t q reply :: trace) n).key = some (rt,key)) :=
    known.client_answered may found
  cases x with
  | outer =>
    rw [show Errand.outer.after q reply = .outer from rfl]
    refine ⟨fun _ base => known.outer rfl ?_,by simp,by simp,fun _ => .inl rfl,by simp,by simp⟩
    exact Custody.base_of_after owns (by simpa [Trace.custodies,Event.custodies] using base)
  | arrival record =>
    rw [show (Errand.arrival record).after q reply = .arrival record from rfl]
    refine ⟨by simp,?_,by simp,client,by simp,by simp⟩
    rintro _ ⟨⟩
    obtain ⟨call,began⟩ := known.arrival rfl
    exact ⟨call,List.mem_cons_of_mem _ began⟩
  | departure value s acted =>
    obtain ⟨acted',shape⟩ := Errand.after_departure value s acted q reply
    have allowed : Errand.May (.departure value s false) q := may.unacted
    rw [shape]
    refine ⟨by simp,by simp,?_,fun found => .inr ((client found).resolve_left (by simp)),?_,?_⟩
    · rintro _ _ _ ⟨⟩
      obtain ⟨rt,key,fired⟩ := known.departure rfl
      exact ⟨rt,key,List.mem_cons_of_mem _ fired⟩
    · rintro _ _ _ ⟨⟩ t' q' reply' member
      rcases List.mem_cons.mp member with same | earlier
      · cases same
        exact allowed
      · exact known.asked rfl earlier
    · rintro _ _ ⟨⟩
      cases acted with
      | true =>
        obtain ⟨t',h,holds,done⟩ := known.acted rfl
        refine ⟨t',h,holds,done.imp (And.imp_right ?_) (And.imp_right (List.mem_cons_of_mem _))⟩
        rintro ⟨key,set⟩
        exact ⟨key,List.mem_cons_of_mem _ set⟩
      | false =>
        rcases Errand.acts shape with ⟨rt,key,v,same⟩ | ⟨rt,addr,len,same⟩
        · cases same
          obtain ⟨-,owner,early,rfl⟩ := allowed
          obtain ⟨h,holds,rfl⟩ := Option.map_eq_some_iff.mp owner
          exact ⟨t,h,holds,.inl ⟨early,key,.head _⟩⟩
        · cases same
          obtain ⟨-,late,h,holds,same⟩ := allowed
          refine ⟨t,h,holds,.inr ⟨late,?_⟩⟩
          rw [same,show h.owner = rt from congrArg Mapping.runtime same]
          exact .head _

theorem Run.known {x : Errand} (run : Run trace w) (track : errands.track trace n = some x) :
    Known trace n (trace.homes n) x :=
  run.tracked (I := Known) errands_covers (fun _ _ _ _ _ => trivial)
    (fun run step opens starts => .opened (run.fresh step opens) opens starts)
    (fun owns may _ known => known.answered owns may) (fun other known => known.kept other) track

end World
end GuardedStack
