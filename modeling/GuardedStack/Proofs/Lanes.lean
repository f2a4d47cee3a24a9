import GuardedStack.Proofs.Crew
import Mathlib.Algebra.Order.Group.Multiset

/-! What each step of each thread leaves in its log is known from the plan alone. The invariant behind it says how far each
thread is, that its mapping is its own, and how long all mappings are together; a start, a spawn and a round of an exit keep
it, whoever makes them. -/
namespace GuardedStack

namespace Exchange

variable {site : Site} {attr : Option AttributeRef} {a : StackAttributes} {start pass : UInt64}

theorem relative_asking : (site.asking attr).map (relative start) = site.asking attr := by
  cases attr <;> rfl

theorem relative_mapping : (site.mapping a start).map (relative start) = site.mapping a 0 := by
  unfold Site.mapping
  split <;> simp [relative,Exchange.from]

theorem relative_preparing : (site.preparing attr start).map (relative start) = site.preparing attr 0 := by
  rw [Site.preparing,List.map_append,relative_asking,relative_mapping]
  rfl

theorem relative_passing : relative start (site.passing (a.region start) pass) = site.passing (a.region 0) pass := by
  unfold Site.passing
  split
  · rfl
  · have same : (a.region start).start - start = (a.region 0).start := by simp
    exact congrArg (fun addr => (⟨.mapper site.runtime (.unmap addr (a.size + a.guard)),.ok ()⟩ : Exchange)) same

theorem mapped_passing {r : Region} : [site.passing r pass].findSome? mapped? = none := by
  unfold Site.passing
  split <;> rfl

theorem spawned_passing {r : Region} : [site.passing r pass].findSome? spawned? = none := by
  unfold Site.passing
  split <;> rfl

variable {call : SpawnCall} {code : Int32}

theorem mapped_preparing {more : List Exchange} :
    (site.preparing attr start ++ more).findSome? mapped? = some start := by
  cases attr <;> rfl

theorem spawned_preparing :
    (site.preparing attr start ++ [(⟨.host site.runtime (.spawn call),code⟩ : Exchange)]).findSome? spawned? =
      some call := by
  unfold Site.preparing Site.mapping
  cases attr <;> split <;> rfl

end Exchange

namespace Plan

/-- The stack that a thread is spawned with. -/
def housing (plan : Plan) (o : Job) : View :=
  ⟨(plan.attributes o.attr).size,(plan.attributes o.attr).guard,plan.runtime,
    (plan.attributes o.attr).guard + (plan.attributes o.attr).size⟩

/-- The entry of a spawn. -/
def spawnEntry (plan : Plan) (view : Option View) (o : Job) : Entry :=
  ⟨none,plan.site.preparing o.attr 0 ++ [⟨.host plan.runtime (.spawn (o.call ((plan.attributes o.attr).guard +
    (plan.attributes o.attr).size - Handoff.size))),(0 : Int32)⟩],view⟩

/-- The entry of a new thread. -/
def startEntry (plan : Plan) (o : Job) : Entry :=
  ⟨none,plan.site.arriving o.entry o.arg,some (plan.housing o)⟩

/-- The entry of a destructor round. -/
def passEntry (plan : Plan) (o : Job) (round : Nat) : Entry :=
  ⟨some (.ofNat round),[plan.site.passing ((plan.attributes o.attr).region 0) (.ofNat round)],
    if round < destructorRounds.toNat then some (plan.housing o) else none⟩

/-- What a thread's step leaves in its log. The first thread only spawns, with the stack that it has; any other one starts,
then spawns, and then makes the rounds of its exit. -/
def entry (plan : Plan) (root : Option View) (p : Place) (k : Nat) : Option Entry :=
  match plan.job p, k with
  | none, k => (plan.jobs p)[k]?.map (plan.spawnEntry root)
  | some own, 0 => some (plan.startEntry own)
  | some own, k + 1 => match (plan.jobs p)[k]? with
    | some o => some (plan.spawnEntry (some (plan.housing own)) o)
    | none => some (plan.passEntry own (k + 1 - (plan.jobs p).length))

section
variable {plan : Plan} {root : Option View} {p : Place} {own o : Job} {k : Nat}

theorem entry_first (above : plan.job p = none) (next : (plan.jobs p)[k]? = some o) :
    plan.entry root p k = some (plan.spawnEntry root o) := by
  simp [entry,above,next]

theorem entry_start (job : plan.job p = some own) : plan.entry root p 0 = some (plan.startEntry own) := by
  simp [entry,job]

theorem entry_spawn (job : plan.job p = some own) (next : (plan.jobs p)[k]? = some o) :
    plan.entry root p (k + 1) = some (plan.spawnEntry (some (plan.housing own)) o) := by
  simp [entry,job,next]

theorem entry_pass (job : plan.job p = some own) (last : (plan.jobs p).length ≤ k) :
    plan.entry root p (k + 1) = some (plan.passEntry own (k + 1 - (plan.jobs p).length)) := by
  simp [entry,job,List.getElem?_eq_none last]

end

/-- The region that is made for a thread. -/
def region (plan : Plan) (o : Job) (start : UInt64) : Region := (plan.attributes o.attr).region start

/-- Its record, and where it is. -/
def handoff (plan : Plan) (o : Job) (start : UInt64) : Handoff := ⟨o.entry,o.arg,plan.region o start,plan.runtime⟩

def slot (plan : Plan) (o : Job) (start : UInt64) : UInt64 := (plan.region o start).top - Handoff.size

/-- The thread at the place has a region that starts there, with room for its record at the top. -/
structure Housed (plan : Plan) (p : Place) (o : Job) (start : UInt64) : Prop where
  job : plan.job p = some o
  aligned : (plan.region o start).Aligned
  sits : (plan.handoff o start).Sits (plan.slot o start)

section
variable {plan : Plan} {p : Place} {o : Job} {start : UInt64}

theorem mapping_handoff : (plan.handoff o start).mapping =
    ⟨plan.runtime,start,(plan.attributes o.attr).size + (plan.attributes o.attr).guard⟩ :=
  StackAttributes.mapping_region

theorem Housed.below (housed : plan.Housed p o start) : p ≠ [] := by
  rintro rfl
  cases housed.job

theorem Housed.of_offered {live : List Mapping} (job : plan.job p = some o)
    (honours : plan.site.Honours (plan.attributes o.attr))
    (offered : plan.site.offers live (plan.handoff o start).mapping) : plan.Housed p o start := by
  rw [mapping_handoff] at offered
  have sound := plan.site.sound_region (StackAttributes.of_validate honours.valid).1 honours.fits offered
  obtain ⟨place,below,sits⟩ := Handoff.sits_of_slot (h := plan.handoff o start) sound honours.large
  obtain ⟨-,rfl⟩ := Checked.subtract_eq_ok_iff.mp below
  exact ⟨job,plan.site.aligned_region honours.valid honours.fits offered,sits⟩

end

end Plan

namespace Crew

/-- How many rounds of its exit a thread has made. -/
def rounds (plan : Plan) (c : Crew) (p : Place) : Nat := c.spawned p - (plan.jobs p).length

/-- How many threads a thread has spawned. -/
def children (plan : Plan) (c : Crew) (p : Place) : Nat := min (c.spawned p) (plan.jobs p).length

/-- How far a thread is, with the mapping that is there for it. The first one only spawns; any other one is not there yet, or
has its record waiting, or is at work, or has made its last round. -/
inductive Lane (plan : Plan) (thread : Place → ThreadId) (w : World) (c : Crew) : Place → Option Mapping → Prop
  | first : c.world.image.threads (thread []) = w.image.threads (thread []) →
      c.world.values (thread []) (.cleanup plan.runtime plan.key) = 0 → Lane plan thread w c [] none
  | absent {p} : p ≠ [] → c.posted p = none → c.log p = [] → Lane plan thread w c p none
  | due {p o start} : plan.Housed p o start → c.posted p = some (o.call (plan.slot o start)) → c.log p = [] →
      (plan.handoff o start).Rests c.world.image.memory (plan.slot o start) →
      Lane plan thread w c p (some (plan.handoff o start).mapping)
  | busy {p o start} : plan.Housed p o start → c.posted p ≠ none → c.log p ≠ [] →
      c.rounds plan p < destructorRounds.toNat →
      c.world.image.threads (thread p) = ⟨(plan.region o start).top,some ⟨plan.region o start,plan.runtime⟩⟩ →
      c.world.values (thread p) (.cleanup plan.runtime plan.key) = .ofNat (c.rounds plan p + 1) →
      Lane plan thread w c p (some (plan.handoff o start).mapping)
  | gone {p} : p ≠ [] → c.posted p ≠ none → c.log p ≠ [] →
      c.spawned p = (plan.jobs p).length + destructorRounds.toNat →
      c.world.values (thread p) (.cleanup plan.runtime plan.key) = 0 → Lane plan thread w c p none

end Crew

/-- What a step maps and what it unmaps. -/
def Entry.mapped (e : Entry) : Multiset UInt64 :=
  e.calls.filterMap fun
    | ⟨.mapper _ (.map len _),.ok _⟩ => some len
    | _ => none

def Entry.unmapped (e : Entry) : Multiset UInt64 :=
  e.calls.filterMap fun
    | ⟨.mapper _ (.unmap _ len),_⟩ => some len
    | _ => none

/-- What all the steps of a schedule come to, each of them by its number among those of its thread. -/
def tally (part : Place → Nat → Multiset UInt64) : List Place → Multiset UInt64
  | [] => 0
  | p :: ps => part p (ps.count p) + tally part ps

/-- The order of a schedule does not count. -/
theorem tally_perm (part : Place → Nat → Multiset UInt64) {ps ps' : List Place} (same : ps.Perm ps') :
    tally part ps = tally part ps' := by
  induction same with
  | nil => rfl
  | cons p same ih => rw [tally,tally,ih,same.count_eq]
  | swap p q ps =>
    by_cases one : p = q
    · rw [one]
    · simp only [tally,List.count_cons_of_ne one,List.count_cons_of_ne (Ne.symm one)]
      exact add_left_comm ..
  | trans _ _ ih ih' => exact ih.trans ih'

/-- A part of what the plan has for a step. -/
def Plan.share (plan : Plan) (root : Option View) (part : Entry → Multiset UInt64) (p : Place) (k : Nat) : Multiset UInt64 :=
  ((plan.entry root p k).map part).getD 0

/-- How long the mappings are. -/
def lengths (live : List Mapping) : Multiset UInt64 := live.map Mapping.len

/-- The mappings that are there for threads are apart, and each of them is live once. -/
structure Keeping (live : List Mapping) (held : Place → Option Mapping) : Prop where
  once {p m} : held p = some m → live.count m = 1
  apart {p q m m'} : p ≠ q → held p = some m → held q = some m' → m.Apart m'

namespace Keeping

variable {live : List Mapping} {held : Place → Option Mapping} {p q : Place} {m m' : Mapping}

theorem mem (keeping : Keeping live held) (here : held p = some m) : m ∈ live :=
  List.count_pos_iff.mp (by rw [keeping.once here]; decide)

/-- A new mapping is apart from all of them. -/
theorem put (keeping : Keeping live held) (apart : ∀ m' ∈ live, m.Apart m') (new : m ∉ live) :
    Keeping (m :: live) (replace held p (some m)) where
  once {q m'} here := by
    by_cases own : q = p
    · obtain rfl : m = m' := by simpa [own] using here
      rw [List.count_cons_self,List.count_eq_zero.mpr new]
    · rw [replace_other _ _ own] at here
      rw [List.count_cons_of_ne fun same : m = m' => new (same ▸ keeping.mem here)]
      exact keeping.once here
  apart {q r m₁ m₂} other here here' := by
    by_cases own : q = p
    · obtain rfl : m = m₁ := by simpa [own] using here
      rw [replace_other _ _ fun same => other (own.trans same.symm)] at here'
      exact apart _ (keeping.mem here')
    · rw [replace_other _ _ own] at here
      by_cases own' : r = p
      · obtain rfl : m = m₂ := by simpa [own'] using here'
        exact (apart _ (keeping.mem here)).symm
      · rw [replace_other _ _ own'] at here'
        exact keeping.apart other here here'

/-- When one is unmapped, the others stay. -/
theorem drop (keeping : Keeping live held) (here : held p = some m) (nonempty : 0 < m.len.toNat) :
    Keeping (live.filter (· ≠ m)) (replace held p none) where
  once {q m'} there := by
    by_cases own : q = p
    · simp [own] at there
    · rw [replace_other _ _ own] at there
      -- A mapping that is not empty is not apart from itself.
      have other : m' ≠ m := by
        rintro rfl
        exact keeping.apart own there here m'.addr.toNat ⟨⟨Nat.le_refl _,Nat.lt_add_of_pos_right nonempty⟩,
          ⟨Nat.le_refl _,Nat.lt_add_of_pos_right nonempty⟩⟩
      rw [List.count_filter (by simpa using other)]
      exact keeping.once there
  apart {q r m₁ m₂} other there there' := by
    by_cases own : q = p
    · simp [own] at there
    · by_cases own' : r = p
      · simp [own'] at there'
      · rw [replace_other _ _ own] at there
        rw [replace_other _ _ own'] at there'
        exact keeping.apart other there there'

/-- A mapping that was live once is missing afterwards. -/
theorem lengths_drop (once : live.count m = 1) : lengths (live.filter (· ≠ m)) + {m.len} = lengths live := by
  have rest : live.filter (fun m' => !decide (m' ≠ m)) = [m] := by
    simp [List.filter_eq,once]
  have parts := (List.filter_append_perm (fun m' => decide (m' ≠ m)) live).map Mapping.len
  rw [rest,List.map_append] at parts
  exact Multiset.coe_eq_coe.mpr parts

end Keeping

namespace Crew

/-- What holds after every step: the logs are as the plan has them, each thread is somewhere in its lane with a mapping of its
own, and nothing is mapped but what the steps have mapped and not unmapped. -/
structure Inv (plan : Plan) (thread : Place → ThreadId) (w : World) (ps : List Place) (c : Crew)
    (held : Place → Option Mapping) : Prop where
  ready : c.world.image.runtimes plan.runtime = ⟨.ready,some plan.key⟩
  counts : ∀ p, (c.log p).length = ps.count p
  logs : ∀ p k, k < (c.log p).length → (c.log p)[k]? = plan.entry (w.image.threads (thread [])).view p k
  lanes : ∀ p, Lane plan thread w c p (held p)
  nobody : ∀ p i, c.posted (i :: p) = none ↔ c.children plan p ≤ i
  keeping : Keeping c.world.live held
  lens : lengths c.world.live + tally (plan.share (w.image.threads (thread [])).view Entry.unmapped) ps =
    lengths w.live + tally (plan.share (w.image.threads (thread [])).view Entry.mapped) ps

variable {plan : Plan} {thread : Place → ThreadId} {w : World} {c c' : Crew} {ps : List Place} {p : Place}
  {held : Place → Option Mapping}

theorem first_inv (ready : plan.Ready w (thread [])) : Inv plan thread w [] (first w) (fun _ => none) where
  ready := ready.runtime
  counts _ := rfl
  logs _ _ short := (Nat.not_lt_zero _ short).elim
  lanes p := by
    cases p with
    | nil => exact .first rfl ready.unset
    | cons i q => exact .absent (by simp) rfl rfl
  nobody _ i := by simp [children,Crew.spawned,first]
  keeping := ⟨by simp,by simp⟩
  lens := rfl

/-- A lane stays as it is while others move, if its record is left alone. -/
theorem Lane.frame {m : Option Mapping} (lane : Lane plan thread w c p m) (log : c'.log p = c.log p)
    (posted : c'.posted p = c.posted p) (stack : c'.world.image.threads (thread p) = c.world.image.threads (thread p))
    (values : c'.world.values (thread p) = c.world.values (thread p))
    (rests : ∀ (h : Handoff) addr, m = some h.mapping → h.Rests c.world.image.memory addr →
      h.Rests c'.world.image.memory addr) :
    Lane plan thread w c' p m := by
  have spawned : c'.spawned p = c.spawned p := by rw [Crew.spawned,Crew.spawned,log]
  have rounds : c'.rounds plan p = c.rounds plan p := by rw [Crew.rounds,Crew.rounds,spawned]
  cases lane with
  | first kept unset => exact .first (stack.trans kept) (by rw [values]; exact unset)
  | absent below none_ empty => exact .absent below (posted.trans none_) (log.trans empty)
  | due housed call empty rest =>
    exact .due housed (posted.trans call) (log.trans empty) (rests _ _ rfl rest)
  | busy housed some_ begun early held value =>
    refine .busy housed (posted ▸ some_) (log ▸ begun) (rounds ▸ early) (stack.trans held) ?_
    rw [values,rounds]
    exact value
  | gone below some_ begun late value =>
    exact .gone below (posted ▸ some_) (log ▸ begun) (spawned.trans late) (by rw [values]; exact value)

/-- What a step of a thread comes to, by the account of the step, and what it leaves of the others. -/
structure Alters (plan : Plan) (thread : Place → ThreadId) (c : Crew) (p : Place) (op : Operation) (y : Shift) (c' : Crew) :
    Prop where
  log : c'.log = replace c.log p (c.log p ++ [.ofStep op y.calls (c.world.image.threads (thread p)) y.stack])
  posted : c'.posted = (y.calls.findSome? Exchange.spawned?).elim c.posted
    fun call => replace c.posted (c.spawned p :: p) (some call)
  runtimes : c'.world.image.runtimes = c.world.image.runtimes
  stack : c'.world.image.threads (thread p) = y.stack
  value : c'.world.values (thread p) (.cleanup plan.runtime plan.key) = y.value
  memory : c'.world.image.memory = y.memory
  live : c'.world.live = y.live
  threads : ∀ q, q ≠ p → c'.world.image.threads (thread q) = c.world.image.threads (thread q)
  values : ∀ q, q ≠ p → c'.world.values (thread q) = c.world.values (thread q)

variable (plan w) in
theorem begins_image (op : Operation) (t : ThreadId) : (begins plan w t op).image = w.image := by
  cases op <;> rfl

theorem begins_values (op : Operation) {t t' : ThreadId} (other : t' ≠ t) : (begins plan w t op).values t' = w.values t' := by
  cases op with
  | destroy value => exact replace_other _ _ other
  | _ => rfl

theorem advance_alters (names : thread.Injective) (op : Operation) {x : Scene} {y : Shift}
    (synced : plan.Synced (thread p) (begins plan c.world (thread p) op) x y) :
    Alters plan thread c p op y (c.advance p (thread p) op x.seams x.world) := by
  have own : x.world.image.threads (thread p) = y.stack := by simp [synced.threads]
  have image := begins_image plan c.world op (thread p)
  exact {
    log := by simp only [advance,synced.seams,own]
    posted := by simp only [advance,synced.seams]
    runtimes := synced.runtimes.trans (congrArg Image.runtimes image)
    stack := own
    value := synced.value
    memory := synced.memory
    live := synced.live
    threads := fun q other => by
      have apart : thread q ≠ thread p := fun same => other (names same)
      rw [← image]
      exact (congrFun synced.threads _).trans (replace_other _ _ apart)
    values := fun q other => by
      have apart : thread q ≠ thread p := fun same => other (names same)
      exact (synced.values _ apart).trans (begins_values op apart) }

namespace Alters

variable {op : Operation} {y : Shift}

theorem log_self (alters : Alters plan thread c p op y c') :
    c'.log p = c.log p ++ [.ofStep op y.calls (c.world.image.threads (thread p)) y.stack] := by
  rw [alters.log,replace_same]

theorem log_ne (alters : Alters plan thread c p op y c') : c'.log p ≠ [] := by
  rw [alters.log_self]
  simp

theorem log_other (alters : Alters plan thread c p op y c') {q : Place} (other : q ≠ p) : c'.log q = c.log q := by
  rw [alters.log,replace_other _ _ other]

theorem children_other (alters : Alters plan thread c p op y c') {q : Place} (other : q ≠ p) :
    c'.children plan q = c.children plan q := by
  rw [children,children,Crew.spawned,Crew.spawned,alters.log_other other]

/-- Where nobody is spawned, the same threads are posted as before. -/
theorem nobody (alters : Alters plan thread c p op y c') (nobody : ∀ q i, c.posted (i :: q) = none ↔ c.children plan q ≤ i)
    (posted : c'.posted = c.posted) (own : c'.children plan p = c.children plan p) (q : Place) (i : Nat) :
    c'.posted (i :: q) = none ↔ c'.children plan q ≤ i := by
  have same : c'.children plan q = c.children plan q := by
    by_cases mine : q = p
    · rw [mine,own]
    · exact alters.children_other mine
  rw [posted,same]
  exact nobody q i

/-- A step after the start is counted. -/
theorem spawned_self (alters : Alters plan thread c p op y c') (begun : p.lead ≤ (c.log p).length) :
    c'.spawned p = c.spawned p + 1 := by
  simp only [Crew.spawned,alters.log_self,List.length_append,List.length_singleton]
  omega

/-- The lane of another thread, whose record is left alone. -/
theorem lane (alters : Alters plan thread c p op y c') {q : Place} {m : Option Mapping} (other : q ≠ p)
    (posted : c'.posted q = c.posted q)
    (rests : ∀ (h : Handoff) addr, m = some h.mapping → h.Rests c.world.image.memory addr → h.Rests y.memory addr)
    (lane : Lane plan thread w c q m) : Lane plan thread w c' q m :=
  lane.frame (alters.log_other other) posted (alters.threads q other) (alters.values q other) (alters.memory ▸ rests)

end Alters

theorem Inv.after (inv : Inv plan thread w ps c held) {op : Operation} {y : Shift} {held' : Place → Option Mapping}
    (alters : Alters plan thread c p op y c') {e : Entry}
    (entry : plan.entry (w.image.threads (thread [])).view p (c.log p).length = some e)
    (said : Entry.ofStep op y.calls (c.world.image.threads (thread p)) y.stack = e)
    (lanes : ∀ q, Lane plan thread w c' q (held' q)) (nobody : ∀ q i, c'.posted (i :: q) = none ↔ c'.children plan q ≤ i)
    (keeping : Keeping y.live held') (lens : lengths y.live + e.unmapped = lengths c.world.live + e.mapped) :
    Inv plan thread w (p :: ps) c' held' where
  ready := alters.runtimes ▸ inv.ready
  counts q := by
    by_cases own : q = p
    · subst own
      simp [alters.log_self,inv.counts]
    · simp [alters.log_other own,inv.counts,List.count_cons_of_ne (Ne.symm own)]
  logs q k short := by
    by_cases own : q = p
    · subst own
      rw [alters.log_self,said] at short ⊢
      rw [List.length_append,List.length_singleton] at short
      by_cases last : k = (c.log q).length
      · subst last
        simp [entry]
      · rw [List.getElem?_append_left (by omega)]
        exact inv.logs q k (by omega)
    · rw [alters.log_other own] at short ⊢
      exact inv.logs q k short
  lanes := lanes
  nobody := nobody
  keeping := alters.live ▸ keeping
  lens := by
    have share (part : Entry → Multiset UInt64) :
        plan.share (w.image.threads (thread [])).view part p (ps.count p) = part e := by
      rw [Plan.share,← inv.counts,entry,Option.map_some,Option.getD_some]
    rw [alters.live,tally,tally,share,share,← add_assoc,lens,add_right_comm,inv.lens,add_right_comm,add_assoc]

theorem view_housing (o : Job) (start : UInt64) :
    ThreadStack.view ⟨(plan.region o start).top,some ⟨plan.region o start,plan.runtime⟩⟩ = some (plan.housing o) := by
  have pointer : (plan.region o start).top - (plan.region o start).start =
      (plan.attributes o.attr).guard + (plan.attributes o.attr).size := by
    rw [Plan.region,StackAttributes.start_region,Region.top,StackAttributes.region]
    grind
  simp only [ThreadStack.view,Option.map_some,pointer]
  rfl

/-- A new thread finds its record as it was written, whoever has made steps since then. -/
theorem Inv.started (inv : Inv plan thread w ps c held) {o : Job} {start : UInt64} {op : Operation} (first : op.passed = none)
    (below : p ≠ []) (empty : c.log p = []) (posted : c.posted p ≠ none)
    (here : held p = some (plan.handoff o start).mapping) (housed : plan.Housed p o start)
    (rests : (plan.handoff o start).Rests c.world.image.memory (plan.slot o start))
    (alters : Alters plan thread c p op (Shift.tell { plan.shift c.world (thread p) with
      stack := ⟨(plan.region o start).top,some ⟨plan.region o start,plan.runtime⟩⟩
      value := armed
      memory := c.world.image.memory.store (plan.slot o start) Handoff.blank } (plan.site.arriving o.entry o.arg)) c') :
    Inv plan thread w (p :: ps) c' held := by
  have still : c'.posted = c.posted := alters.posted
  have none_yet : c'.spawned p = 0 := by
    rw [Crew.spawned,alters.log_self,empty,Place.lead,if_neg below]
    rfl
  have rounds : c'.rounds plan p = 0 := by rw [Crew.rounds,none_yet,Nat.zero_sub]
  have children : c'.children plan p = c.children plan p := by
    rw [Crew.children,Crew.children,none_yet,Crew.spawned,empty]
    simp
  refine inv.after alters (e := plan.startEntry o) ?_ ?_ ?_ (alters.nobody inv.nobody still children) inv.keeping rfl
  · rw [empty]
    exact Plan.entry_start housed.job
  · rw [Entry.ofStep,first]
    exact congrArg (Entry.mk none (plan.site.arriving o.entry o.arg)) (view_housing o start)
  · intro q
    by_cases own : q = p
    · subst own
      rw [here]
      exact .busy housed (still ▸ posted) alters.log_ne (rounds ▸ by decide) alters.stack (rounds ▸ alters.value)
    -- A record that still waits lies in another mapping than the one that is blanked.
    · refine alters.lane own (by rw [still]) ?_ (inv.lanes q)
      intro h addr held' rests'
      exact rests'.store rests.sits rfl (inv.keeping.apart own held' here)

/-- Where nobody was posted, nobody has done anything. -/
theorem Inv.unposted (inv : Inv plan thread w ps c held) (below : p ≠ []) (posted : c.posted p = none) :
    held p = none ∧ c.log p = [] := by
  have lane := inv.lanes p
  generalize held p = m at lane
  cases lane with
  | first => exact absurd rfl below
  | absent _ _ empty => exact ⟨rfl,empty⟩
  | due _ call => rw [posted] at call; cases call
  | busy _ some_ => exact absurd posted some_
  | gone _ some_ => exact absurd posted some_

theorem ofStep_spawn (o : Job) {start : UInt64} {op : Operation} (first : op.passed = none) {before after : ThreadStack} :
    Entry.ofStep op (plan.site.preparing o.attr start ++
      [⟨.host plan.runtime (.spawn (o.call (plan.slot o start))),(0 : Int32)⟩]) before after =
      plan.spawnEntry after.view o := by
  have offset : plan.slot o start - start =
      (plan.attributes o.attr).guard + (plan.attributes o.attr).size - Handoff.size := by
    rw [Plan.slot,Plan.region,Region.top,StackAttributes.region]
    grind
  rw [Entry.ofStep,first,Exchange.mapped_preparing,Option.getD_some,List.map_append,Exchange.relative_preparing,
    Plan.spawnEntry,← offset]
  rfl

variable (plan) in
theorem spawnEntry_lengths (o : Job) (view : Option View) :
    (plan.spawnEntry view o).unmapped = 0 ∧
      (plan.spawnEntry view o).mapped = {(plan.attributes o.attr).size + (plan.attributes o.attr).guard} := by
  unfold Entry.unmapped Entry.mapped Plan.spawnEntry Site.preparing Site.mapping Site.asking
  cases o.attr <;> dsimp only <;> split <;> exact ⟨rfl,rfl⟩

/-- A thread below the first one has begun with its start. -/
theorem lead_below (below : p ≠ []) : Place.lead p = 1 := if_neg below

theorem lead_le (below : p ≠ []) (full : c.log p ≠ []) : p.lead ≤ (c.log p).length := by
  rw [lead_below below]
  exact List.length_pos_iff.mpr full

theorem log_ne_of_begun (below : p ≠ []) (begun : p.lead ≤ (c.log p).length) : c.log p ≠ [] := by
  rintro empty
  simp [lead_below below,empty] at begun

theorem length_log (begun : p.lead ≤ (c.log p).length) : (c.log p).length = c.spawned p + p.lead :=
  (Nat.sub_add_cancel begun).symm

/-- A thread that has begun spawns with the stack that it has. -/
theorem Inv.entry_posts (inv : Inv plan thread w ps c held) {o : Job} (begun : p.lead ≤ (c.log p).length)
    (next : (plan.jobs p)[c.spawned p]? = some o) :
    plan.entry (w.image.threads (thread [])).view p (c.log p).length =
      some (plan.spawnEntry (c.world.image.threads (thread p)).view o) := by
  have short : c.spawned p < (plan.jobs p).length := (List.getElem?_eq_some_iff.mp next).1
  have lane := inv.lanes p
  generalize held p = m at lane
  rw [length_log begun]
  cases lane with
  | first kept =>
    rw [kept]
    exact Plan.entry_first rfl next
  | absent below _ empty => exact absurd empty (log_ne_of_begun below begun)
  | due housed _ empty => exact absurd empty (log_ne_of_begun housed.below begun)
  | busy housed _ _ _ stack =>
    rw [lead_below housed.below,stack,view_housing]
    exact Plan.entry_spawn housed.job next
  | gone _ _ _ spent => omega

/-- What a spawn leaves of the lane that it is made in. -/
theorem Inv.lane_posts (inv : Inv plan thread w ps c held) {o : Job} {op : Operation} {y : Shift}
    (begun : p.lead ≤ (c.log p).length) (next : (plan.jobs p)[c.spawned p]? = some o)
    (alters : Alters plan thread c p op y c') (posted : c'.posted p = c.posted p)
    (stack : y.stack = c.world.image.threads (thread p))
    (value : y.value = c.world.values (thread p) (.cleanup plan.runtime plan.key)) :
    Lane plan thread w c' p (held p) := by
  have short : c.spawned p < (plan.jobs p).length := (List.getElem?_eq_some_iff.mp next).1
  have counted := alters.spawned_self begun
  have lane := inv.lanes p
  generalize held p = m at lane ⊢
  cases lane with
  | first kept unset => exact .first (alters.stack.trans (stack.trans kept)) (alters.value.trans (value.trans unset))
  | absent below _ empty => exact absurd empty (log_ne_of_begun below begun)
  | due housed _ empty => exact absurd empty (log_ne_of_begun housed.below begun)
  | busy housed some_ begun early held valued =>
    have rounds : c'.rounds plan p = c.rounds plan p := by
      rw [Crew.rounds,Crew.rounds]
      omega
    refine .busy housed (posted ▸ some_) alters.log_ne (rounds ▸ early) (alters.stack.trans (stack.trans held)) ?_
    rw [rounds]
    exact alters.value.trans (value.trans valued)
  | gone _ _ _ spent => omega

/-- After a spawn one more thread is posted, the one with the spawn's number. -/
theorem Inv.nobody_posts (inv : Inv plan thread w ps c held) {call : SpawnCall} {op : Operation} {y : Shift}
    (begun : p.lead ≤ (c.log p).length) (short : c.spawned p < (plan.jobs p).length)
    (alters : Alters plan thread c p op y c') (posted : c'.posted = replace c.posted (c.spawned p :: p) (some call))
    (q : Place) (i : Nat) : c'.posted (i :: q) = none ↔ c'.children plan q ≤ i := by
  rw [posted]
  by_cases own : q = p
  · subst own
    have one : c'.children plan q = c.spawned q + 1 := by
      rw [children,alters.spawned_self begun]
      exact Nat.min_eq_left short
    rw [one]
    by_cases last : i = c.spawned q
    · simp [last]
    · rw [replace_other _ _ (by simpa using last),inv.nobody,children,Nat.min_eq_left (Nat.le_of_lt short)]
      omega
  · rw [replace_other _ _ (by simp [own]),alters.children_other own]
    exact inv.nobody q i

/-- A new thread is posted with a mapping of its own. -/
theorem Inv.posts (inv : Inv plan thread w ps c held) {o : Job} {start addr : UInt64} {op : Operation} {y : Shift}
    (first : op.passed = none) (begun : p.lead ≤ (c.log p).length) (next : (plan.jobs p)[c.spawned p]? = some o)
    (prepared : plan.site.Prepared o.attr o.entry o.arg (plan.shift c.world (thread p)) start addr y)
    (alters : Alters plan thread c p op (y.tell [⟨.host plan.runtime (.spawn (o.call addr)),(0 : Int32)⟩]) c') :
    Inv plan thread w (p :: ps) c' (replace held (c.spawned p :: p) (some (plan.handoff o start).mapping)) := by
  obtain ⟨honours,offered,rfl,rfl⟩ := prepared
  have offered : plan.site.offers c.world.live (plan.handoff o start).mapping := Plan.mapping_handoff ▸ offered
  have housed : plan.Housed (c.spawned p :: p) o start := .of_offered next honours offered
  have apart := offered.2.1
  have new := Mapping.Apart.new apart (housed.sits.sound.mapping_nonempty _)
  have posted : c'.posted = replace c.posted (c.spawned p :: p) (some (o.call (plan.slot o start))) :=
    alters.posted.trans (congrArg (Option.elim · _ _) Exchange.spawned_preparing)
  have absent := inv.unposted (by simp) ((inv.nobody p (c.spawned p)).mpr (Nat.min_le_left ..))
  have below : c.spawned p :: p ≠ p := fun same => absurd (congrArg List.length same) (by simp)
  refine inv.after alters (inv.entry_posts begun next) (ofStep_spawn o first) ?_ ?_ ?_ ?_
  · intro q
    by_cases child : q = c.spawned p :: p
    · subst child
      rw [replace_same]
      refine .due housed (by rw [posted,replace_same]) ((alters.log_other below).trans absent.2) ?_
      rw [alters.memory]
      exact housed.sits.rests c.world.image.memory
    · rw [replace_other _ _ child]
      have kept : c'.posted q = c.posted q := by rw [posted,replace_other _ _ child]
      by_cases own : q = p
      · subst own
        exact inv.lane_posts begun next alters kept rfl rfl
      -- The new record is written into the new mapping, and those that wait lie in older ones.
      · refine alters.lane own kept ?_ (inv.lanes q)
        intro h at_ held' rests
        exact rests.store housed.sits (plan.handoff o start).length_encode (apart _ (inv.keeping.mem held')).symm
  · exact inv.nobody_posts begun (List.getElem?_eq_some_iff.mp next).1 alters posted
  · have put := inv.keeping.put (p := c.spawned p :: p) apart new
    rw [Plan.mapping_handoff] at put ⊢
    exact put
  · obtain ⟨no,one⟩ := spawnEntry_lengths plan o (c.world.image.threads (thread p)).view
    rw [no,one,add_zero,add_comm (lengths _)]
    rfl

section
variable {o : Job} {start : UInt64} {round : Nat}

theorem ofStep_pass {before after : ThreadStack} (held : before.region = some (plan.region o start))
    (view : after.view = if round < destructorRounds.toNat then some (plan.housing o) else none) :
    Entry.ofStep (.destroy (.ofNat round)) [plan.site.passing (plan.region o start) (.ofNat round)] before after =
      plan.passEntry o round := by
  have own : (plan.region o start).start = start := StackAttributes.start_region ..
  rw [Entry.ofStep,Exchange.mapped_passing,held,Option.getD_none,Option.map_some,Option.getD_some,own,List.map_singleton,Plan.region,
    Exchange.relative_passing,view]
  rfl

theorem passEntry_lengths (high : round ≤ destructorRounds.toNat) :
    (plan.passEntry o round).mapped = 0 ∧ (plan.passEntry o round).unmapped =
      if round < destructorRounds.toNat then 0 else {(plan.attributes o.attr).size + (plan.attributes o.attr).guard} := by
  unfold Entry.unmapped Entry.mapped Plan.passEntry Site.passing
  simp only [ofNat_lt_rounds high]
  split <;> exact ⟨rfl,rfl⟩

end

/-- Nobody is posted by a round of an exit. -/
theorem Alters.posted_pass {op : Operation} {r : Region} {pass : UInt64} {y : Shift}
    (alters : Alters plan thread c p op (y.tell [plan.site.passing r pass]) c') (calls : y.calls = []) :
    c'.posted = c.posted := by
  rw [alters.posted,Shift.tell_calls,calls,List.nil_append,Exchange.spawned_passing]
  rfl

/-- A round of an exit, with what it makes of the thread's lane and of its mapping. -/
theorem Inv.turn (inv : Inv plan thread w ps c held) {o : Job} {start : UInt64} {round : Nat} {y : Shift}
    {held' : Place → Option Mapping} (last : (plan.jobs p).length ≤ c.spawned p) (housed : plan.Housed p o start)
    (begun : c.log p ≠ []) (count : c.rounds plan p + 1 = round) (high : round ≤ destructorRounds.toNat)
    (stack : (c.world.image.threads (thread p)).region = some (plan.region o start))
    (alters : Alters plan thread c p (.destroy (.ofNat round))
      (y.tell [plan.site.passing (plan.region o start) (.ofNat round)]) c')
    (calls : y.calls = []) (memory : y.memory = c.world.image.memory)
    (view : y.stack.view = if round < destructorRounds.toNat then some (plan.housing o) else none)
    (others : ∀ q, q ≠ p → held' q = held q) (own : Lane plan thread w c' p (held' p)) (keeping : Keeping y.live held')
    (lens : lengths y.live + (plan.passEntry o round).unmapped = lengths c.world.live) :
    Inv plan thread w (p :: ps) c' held' := by
  have said : (y.tell [plan.site.passing (plan.region o start) (.ofNat round)]).calls =
      [plan.site.passing (plan.region o start) (.ofNat round)] := by
    rw [Shift.tell_calls,calls,List.nil_append]
  have still := alters.posted_pass calls
  have led := lead_le housed.below begun
  have children : c'.children plan p = c.children plan p := by
    rw [Crew.children,Crew.children,alters.spawned_self led,Nat.min_eq_right last,Nat.min_eq_right (Nat.le_succ_of_le last)]
  refine inv.after alters (e := plan.passEntry o round) ?_ ?_ ?_ (alters.nobody inv.nobody still children) keeping ?_
  · rw [length_log led,lead_below housed.below,Plan.entry_pass housed.job last,← count,Crew.rounds,Nat.sub_add_comm last]
  · rw [said]
    exact ofStep_pass stack view
  · intro q
    by_cases mine : q = p
    · exact mine ▸ own
    · rw [others q mine]
      exact alters.lane mine (by rw [still]) (fun _ _ _ rests => memory ▸ rests) (inv.lanes q)
  · rw [(passEntry_lengths high).1,add_zero]
    exact lens

/-- A round of an exit counts on, and the last one gives the mapping back. -/
theorem Inv.passed (inv : Inv plan thread w ps c held) {o : Job} {start : UInt64} {round : Nat}
    (last : (plan.jobs p).length ≤ c.spawned p) (housed : plan.Housed p o start) (posted : c.posted p ≠ none)
    (begun : c.log p ≠ []) (count : c.rounds plan p + 1 = round) (high : round ≤ destructorRounds.toNat)
    (here : held p = some (plan.handoff o start).mapping)
    (stack : c.world.image.threads (thread p) = ⟨(plan.region o start).top,some ⟨plan.region o start,plan.runtime⟩⟩)
    (alters : Alters plan thread c p (.destroy (.ofNat round)) (Shift.passed plan.site (plan.region o start) (.ofNat round)
      (plan.shift (begins plan c.world (thread p) (.destroy (.ofNat round))) (thread p))) c') :
    ∃ held', Inv plan thread w (p :: ps) c' held' := by
  have region : (c.world.image.threads (thread p)).region = some (plan.region o start) := by
    rw [stack]
    rfl
  have led := lead_le housed.below begun
  have counted := alters.spawned_self led
  rw [Crew.rounds] at count
  rw [Shift.passed] at alters
  by_cases early : round < destructorRounds.toNat
  · have rounds : c'.rounds plan p = round := by
      rw [Crew.rounds]
      omega
    rw [if_pos ((ofNat_lt_rounds high).mpr early)] at alters
    refine ⟨held,inv.turn last housed begun count high region alters rfl rfl ?_ (fun _ _ => rfl) ?_ inv.keeping ?_⟩
    · rw [if_pos early]
      exact (congrArg ThreadStack.view stack).trans (view_housing o start)
    · rw [here]
      refine .busy housed (alters.posted_pass rfl ▸ posted) alters.log_ne (rounds ▸ early) (alters.stack.trans stack) ?_
      rw [rounds,UInt64.ofNat_add]
      exact alters.value
    · rw [(passEntry_lengths high).2,if_pos early,add_zero]
      rfl
  · rw [if_neg fun low => early ((ofNat_lt_rounds high).mp low)] at alters
    refine ⟨replace held p none,inv.turn last housed begun count high region alters rfl rfl ?_
      (fun q other => replace_other _ _ other) ?_ (inv.keeping.drop here (housed.sits.sound.mapping_nonempty _)) ?_⟩
    · rw [if_neg early]
      rfl
    · rw [replace_same]
      refine .gone housed.below (alters.posted_pass rfl ▸ posted) alters.log_ne (by omega) ?_
      exact alters.value.trans (by simp [Plan.shift,begins,World.setValue,Shift.tell])
    · rw [(passEntry_lengths high).2,if_neg early]
      exact Keeping.lengths_drop (inv.keeping.once here)

end Crew
end GuardedStack
