import GuardedStack.Proofs.Lanes
import Mathlib.Logic.Equiv.List

/-! A thread's life does not depend on the order in which threads make their steps: whatever is due works, two schedules of
the same steps leave the same logs, and their mappings differ in where they lie and in nothing else. -/
namespace GuardedStack

namespace Crew

variable {plan : Plan} {thread : Place → ThreadId} {w : World} {c c' : Crew} {ps : List Place} {p : Place}
  {held : Place → Option Mapping}

section
variable {stops : Prop}

theorem Inv.start_works (inv : Inv plan thread w ps c held) (names : thread.Injective) {call : SpawnCall} (below : p ≠ [])
    (empty : c.log p = []) (posted : c.posted p = some call) :
    (Operation.body call.start call.arg).program.Follows (plan.alone (thread p) stops) (fun x _ => ∃ held',
      Inv plan thread w (p :: ps) (c.advance p (thread p) (.body call.start call.arg) x.seams x.world) held')
      ⟨c.world,[]⟩ := by
  have lane := inv.lanes p
  generalize here : held p = m at lane
  cases lane with
  | first => exact absurd rfl below
  | absent _ nobody => rw [nobody] at posted; cases posted
  | busy _ _ begun => exact absurd empty begun
  | gone _ _ begun => exact absurd empty begun
  | @due _ o start housed posted' _ rests =>
    obtain rfl : o.call (plan.slot o start) = call := Option.some.inj (posted'.symm.trans posted)
    refine (Plan.follows_alone inv.ready (Spawn.firstFrame_works (h := plan.site)
      (x := plan.shift c.world (thread p)) rests.sits.addr_ne rests.bytes housed.aligned (granted_all _ _))).mono ?_
    rintro x result ⟨y,synced,-,rfl⟩
    exact ⟨held,inv.started rfl below empty (by simp [posted]) here housed rests (advance_alters names _ synced)⟩

theorem Inv.spawn_works (inv : Inv plan thread w ps c held) (names : thread.Injective) {o : Job}
    (begun : p.lead ≤ (c.log p).length) (next : (plan.jobs p)[c.spawned p]? = some o)
    (lax : ¬plan.site.Honours (plan.attributes o.attr) → stops) :
    (Operation.spawn plan.runtime o.handle o.attr o.entry o.arg).program.Follows (plan.alone (thread p) stops)
      (fun x _ => ∃ held', Inv plan thread w (p :: ps)
        (c.advance p (thread p) (.spawn plan.runtime o.handle o.attr o.entry o.arg) x.seams x.world) held')
      ⟨c.world,[]⟩ := by
  refine (Plan.follows_alone inv.ready (Spawn.intercept_works (h := plan.site) (x := plan.shift c.world (thread p))
    lax)).mono ?_
  rintro x code ⟨y,synced,start,addr,z,prepared,-,rfl⟩
  exact ⟨_,inv.posts rfl begun next prepared (advance_alters names _ synced)⟩

theorem Inv.pass_works (inv : Inv plan thread w ps c held) (names : thread.Injective) {value : UInt64}
    (begun : p.lead ≤ (c.log p).length) (last : (plan.jobs p).length ≤ c.spawned p)
    (valued : c.world.values (thread p) (.cleanup plan.runtime plan.key) = value) (set : value ≠ 0) :
    (Operation.destroy value).program.Follows (plan.alone (thread p) stops) (fun x _ => ∃ held',
      Inv plan thread w (p :: ps) (c.advance p (thread p) (.destroy value) x.seams x.world) held')
      ⟨begins plan c.world (thread p) (.destroy value),[]⟩ := by
  have lane := inv.lanes p
  generalize here : held p = m at lane
  cases lane with
  | first _ unset => exact absurd (valued.symm.trans unset) set
  | absent below _ empty => exact absurd empty (log_ne_of_begun below begun)
  | due housed _ empty => exact absurd empty (log_ne_of_begun housed.below begun)
  | gone _ _ _ _ unset => exact absurd (valued.symm.trans unset) set
  | @busy _ o start housed posted full early stack count =>
    obtain rfl : UInt64.ofNat (c.rounds plan p + 1) = value := count.symm.trans valued
    let v := UInt64.ofNat (c.rounds plan p + 1)
    let x := plan.shift (begins plan c.world (thread p) (.destroy v)) (thread p)
    have passes : (Cleanup.destructor v).Follows (working plan.site (fun _ _ => True) stops)
        (fun y _ => y = x.passed plan.site (plan.region o start) v) x :=
      Cleanup.destructor_works (congrArg ThreadStack.holding stack) housed.sits.sound.length_eq trivial
    refine (Plan.follows_alone (w := begins plan c.world (thread p) (.destroy v)) inv.ready passes).mono ?_
    rintro x result ⟨y,synced,rfl⟩
    exact inv.passed last housed posted full rfl early here stack (advance_alters names _ synced)

/-- Whatever is due works, if its geometry can be given. -/
theorem Inv.works (inv : Inv plan thread w ps c held) (names : thread.Injective) {op : Operation}
    (due : c.due plan thread p = some op) (lax : ∀ o ∈ plan.jobs p, ¬plan.site.Honours (plan.attributes o.attr) → stops) :
    op.program.Follows (plan.alone (thread p) stops) (fun x _ => ∃ held',
      Inv plan thread w (p :: ps) (c.advance p (thread p) op x.seams x.world) held') ⟨begins plan c.world (thread p) op,[]⟩ := by
  unfold Crew.due at due
  split at due
  next waits =>
    obtain ⟨call,posted,rfl⟩ := Option.map_eq_some_iff.mp due
    exact inv.start_works names waits.1 waits.2 posted
  next begun =>
    have begun : p.lead ≤ (c.log p).length := by
      rw [Place.lead]
      split
      · exact Nat.zero_le _
      next below => exact List.length_pos_iff.mpr fun empty => begun ⟨below,empty⟩
    split at due
    next o next_ =>
      cases due
      exact inv.spawn_works names begun next_ (lax o (List.mem_of_getElem? next_))
    next last =>
      dsimp only at due
      split at due
      · cases due
      next set =>
        cases due
        exact inv.pass_works names begun (List.getElem?_eq_none_iff.mp last) rfl set

end

theorem Step.inv {c'' : Crew} (step : Step plan thread c p c'') (names : thread.Injective)
    (inv : Inv plan thread w ps c held) : ∃ held', Inv plan thread w (p :: ps) c'' held' := by
  obtain ⟨due,yields⟩ := step
  exact yields.post (inv.works names due fun _ _ _ => trivial)

theorem Run.inv (run : Run plan thread w ps c) (names : thread.Injective) (ready : plan.Ready w (thread [])) :
    ∃ held, Inv plan thread w ps c held := by
  induction run with
  | nil => exact ⟨_,first_inv ready⟩
  | step _ step ih =>
    obtain ⟨held,inv⟩ := ih
    exact step.inv names inv

/-- A step of a geometry that can be given does not stop, whatever the others have done before. -/
theorem Run.steady (run : Run plan thread w ps c) (names : thread.Injective) (ready : plan.Ready w (thread []))
    {op : Operation} (due : c.due plan thread p = some op)
    (honours : ∀ o ∈ plan.jobs p, plan.site.Honours (plan.attributes o.attr)) :
    op.program.Follows (plan.alone (thread p) False) (fun _ _ => True) ⟨begins plan c.world (thread p) op,[]⟩ := by
  obtain ⟨held,inv⟩ := run.inv names ready
  exact (inv.works names due fun o member off => off (honours o member)).mono fun _ _ _ => trivial

/-- Nobody has anything left to do. -/
def Finished (plan : Plan) (thread : Place → ThreadId) (c : Crew) : Prop := ∀ p, c.due plan thread p = none

theorem idle_iff (full : p ≠ [] → c.log p ≠ []) : c.due plan thread p = none ↔
    (plan.jobs p).length ≤ c.spawned p ∧ c.world.values (thread p) (.cleanup plan.runtime plan.key) = 0 := by
  have begun : ¬(p ≠ [] ∧ c.log p = []) := fun waits => full waits.1 waits.2
  rw [due,if_neg begun,← List.getElem?_eq_none_iff]
  cases (plan.jobs p)[c.spawned p]? with
  | none => simp
  | some o => simp

/-- In the end the first thread has made its spawns. Any other one that was posted has started, spawned and left. -/
theorem Inv.finished (inv : Inv plan thread w ps c held) (finished : c.Finished plan thread) :
    (c.log p).length = if p = [] then (plan.jobs p).length
      else if c.posted p = none then 0 else (plan.jobs p).length + destructorRounds.toNat + 1 := by
  have idle := finished p
  have lane := inv.lanes p
  generalize held p = m at lane
  cases lane with
  | absent below nobody empty => simp [below,nobody,empty]
  | due housed call empty => simp [Crew.due,housed.below,call,empty] at idle
  | first =>
    have enough : (plan.jobs []).length ≤ (c.log []).length := (idle_iff (by simp)).mp idle |>.1
    rw [if_pos rfl]
    refine Nat.le_antisymm (Nat.le_of_not_lt fun more => ?_) enough
    -- The plan has no entry for it after its last spawn.
    have logged := inv.logs [] _ more
    have beyond : plan.entry (w.image.threads (thread [])).view [] (plan.jobs []).length = none := by
      simp [Plan.entry,Plan.job]
    rw [beyond,List.getElem?_eq_none_iff] at logged
    omega
  | busy housed posted full early _ value =>
    have unset := ((idle_iff fun _ => full).mp idle).2
    have few : c.rounds plan p + 1 < UInt64.size := Nat.lt_of_le_of_lt early (by decide)
    have some_ := congrArg UInt64.toNat (value.symm.trans unset)
    rw [UInt64.toNat_ofNat_of_lt' few] at some_
    cases some_
  | gone below posted full spent =>
    rw [if_neg below,if_neg posted,length_log (lead_le below full),lead_below below,spent]

/-- At the end of any schedule the same steps were made. -/
theorem Run.perm_of_finished {thread' : Place → ThreadId} {ps' : List Place} (names : thread.Injective)
    (names' : thread'.Injective) (root : thread' [] = thread []) (ready : plan.Ready w (thread []))
    (run : Run plan thread w ps c) (run' : Run plan thread' w ps' c') (finished : c.Finished plan thread)
    (finished' : c'.Finished plan thread') : ps.Perm ps' := by
  obtain ⟨held,inv⟩ := run.inv names ready
  obtain ⟨held',inv'⟩ := run'.inv names' (root ▸ ready)
  rw [List.perm_iff_count]
  intro p
  rw [← inv.counts,← inv'.counts]
  -- Who is posted depends on what the thread above has done.
  induction p with
  | nil => rw [inv.finished finished,inv'.finished finished',if_pos rfl,if_pos rfl]
  | cons i q ih =>
    have children : c.children plan q = c'.children plan q := by rw [Crew.children,Crew.children,Crew.spawned,Crew.spawned,ih]
    have posted : c.posted (i :: q) = none ↔ c'.posted (i :: q) = none := by rw [inv.nobody,inv'.nobody,children]
    rw [inv.finished finished,inv'.finished finished']
    simp only [posted]

/-- Two schedules of the same steps let each thread do and see the same, and leave as much mapped. -/
theorem schedules_alike {thread' : Place → ThreadId} {ps' : List Place} (names : thread.Injective)
    (names' : thread'.Injective) (root : thread' [] = thread []) (ready : plan.Ready w (thread []))
    (run : Run plan thread w ps c) (run' : Run plan thread' w ps' c') (same : ps.Perm ps') :
    (∀ p, c.log p = c'.log p) ∧ (c.world.live.map Mapping.len).Perm (c'.world.live.map Mapping.len) := by
  obtain ⟨held,inv⟩ := run.inv names ready
  obtain ⟨held',inv'⟩ := run'.inv names' (root ▸ ready)
  -- Both logs of a thread are as long, and each entry is the one that the plan has there.
  have counts (p : Place) : (c.log p).length = (c'.log p).length := by rw [inv.counts,inv'.counts,same.count_eq]
  constructor
  · intro p
    refine List.ext_getElem? fun k => ?_
    by_cases short : k < (c.log p).length
    · rw [inv.logs p k short,inv'.logs p k (counts p ▸ short),root]
    · rw [List.getElem?_eq_none (Nat.le_of_not_lt short),List.getElem?_eq_none (counts p ▸ Nat.le_of_not_lt short)]
  · have lens := inv.lens
    rw [tally_perm _ same,tally_perm _ same,← root,← inv'.lens] at lens
    exact Multiset.coe_eq_coe.mp (add_right_cancel lens)

/-- The first thread spawns two threads, and the older one of them spawns another. -/
def family : Plan where
  runtime := ⟨0⟩
  key := ⟨7⟩
  page := 0x1000
  attributes _ := ⟨0x4000,0x1000⟩
  results _ arg := arg
  jobs
    | [] => [⟨1,none,⟨0x400000⟩,5⟩,⟨2,some ⟨9⟩,⟨0x400100⟩,6⟩]
    | [0] => [⟨3,none,⟨0x400200⟩,7⟩]
    | _ => []
  paged := ⟨⟨12,rfl⟩,by decide⟩

/-- A new mapping starts at a page boundary. -/
def even : Exchange → Bool
  | ⟨.mapper _ (.map _ _),.ok start⟩ => start.toNat % 0x1000 == 0
  | ⟨.mapper _ (.map _ _),.error _⟩ => false
  | _ => true

/-- The steps of a schedule, each of them granted. -/
def performs (thread : Place → ThreadId) (w : World) : List Place → Option Crew
  | [] => some (first w)
  | p :: ps => do
    let c ← performs thread w ps
    let op ← c.due family thread p
    let (_,x) ← World.carry (fun _ => false) (thread p) op.program ⟨begins family c.world (thread p) op,[]⟩
    if x.seams.all even then some (c.advance p (thread p) op x.seams x.world) else none

theorem fair_grant {t : ThreadId} {q : Request}
    (whole : ∀ e ∈ q.crossing (w.grant (fun _ => false) t q).1, even e = true) :
    family.Fair q (w.grant (fun _ => false) t q).1 := by
  cases q with
  | state call => trivial
  | enter entry arg => rfl
  | mapper rt call =>
    cases call with
    | map len rights =>
      generalize (w.grant (fun _ => false) t (.mapper rt (.map len rights))).1 = reply at whole ⊢
      have whole := whole ⟨.mapper rt (.map len rights),reply⟩ (List.mem_singleton.mpr rfl)
      cases reply with
      | error cause => cases whole
      | ok start =>
        have start_whole : start.toNat % 0x1000 = 0 := by simpa [even] using whole
        exact ⟨start,rfl,Nat.dvd_of_mod_eq_zero start_whole⟩
    | pageSize | protect | unmap => rfl
  | host rt call =>
    cases call with
    | stackLimit | installInterception | createCleanupKey => trivial
    | defaultAttributes | requestedAttributes | setCleanupValue | spawn => rfl

theorem carry_fair {α : Type} {p : Program α} {t : ThreadId} {x y : Scene} {a : α}
    (ran : World.carry (fun _ => false) t p x = some (a,y)) (whole : ∀ e ∈ y.seams, even e = true) :
    (∀ e ∈ x.seams, e ∈ y.seams) ∧ p.Yields (family.Answers t) x a y := by
  induction p generalizing x with
  | done b =>
    cases ran
    exact ⟨fun _ member => member,.done⟩
  | stop reason => cases ran
  | ask q next ih =>
    obtain ⟨kept,yields⟩ := ih _ ran
    refine ⟨fun e member => kept e (List.mem_append_left _ member),.ask ⟨x.world.grant_answers _ t q,rfl,?_⟩ yields⟩
    exact fair_grant fun e made => whole e (kept e (List.mem_append_right _ made))

theorem performs_run (done : performs thread w ps = some c) : Run family thread w ps c := by
  induction ps generalizing c with
  | nil =>
    cases done
    exact .nil
  | cons p ps ih =>
    simp only [performs,Option.bind_eq_bind,Option.bind_eq_some_iff] at done
    obtain ⟨b,before,op,due,⟨result,x⟩,ran,done⟩ := done
    split at done
    next whole =>
      cases done
      exact .step (ih before) (.mk due (carry_fair ran (List.all_eq_true.mp whole)).2)
    · cases done

/-- The runtime has been set up. -/
def opened : World := { World.first with image := World.first.image.setRuntime ⟨0⟩ ⟨.ready,some ⟨7⟩⟩ }

/-- One thread after the other, where the last steps come first. -/
def inTurn : List Place :=
  List.replicate 5 [0,0] ++ List.replicate 6 [0] ++ List.replicate 5 [1] ++ [[],[]]

/-- All at once. -/
def atOnce : List Place :=
  [[0,0],[1],[0,0],[1],[0],[0,0],[1],[0],[0,0],[1],[0],[0,0],[0],[0],[0],[1],[],[]]

/-- The youngest thread has another address in each of the schedules, and lives the same life. -/
theorem schedules_alike_elsewhere : ∃ c c' : Crew, Run family Encodable.encode opened inTurn c ∧
    Run family (fun p => 2 * Encodable.encode p) opened atOnce c' ∧ c.posted [0,0] ≠ c'.posted [0,0] ∧
      (∀ p, c.log p = c'.log p) ∧ (c.world.live.map Mapping.len).Perm (c'.world.live.map Mapping.len) := by
  have names' : Function.Injective fun p : Place => 2 * Encodable.encode p := fun p q same =>
    Encodable.encode_injective (Nat.eq_of_mul_eq_mul_left (by decide) same)
  have apart : ((performs Encodable.encode opened inTurn).bind fun c => (c.posted [0,0]).map SpawnCall.arg) = some 0x109fd0 ∧
      ((performs (fun p => 2 * Encodable.encode p) opened atOnce).bind fun c => (c.posted [0,0]).map SpawnCall.arg) =
        some 0x10efd0 := by decide +kernel
  obtain ⟨⟨c,ran,here⟩,c',ran',there⟩ := And.imp Option.bind_eq_some_iff.mp Option.bind_eq_some_iff.mp apart
  have run := performs_run ran
  have run' := performs_run ran'
  refine ⟨c,c',run,run',fun same => ?_,
    schedules_alike Encodable.encode_injective names' rfl ⟨rfl,rfl⟩ run run' (by decide)⟩
  rw [same,there] at here
  cases here

end Crew
end GuardedStack
