import GuardedStack.Proofs.Bounds
import GuardedStack.Proofs.Entry
import GuardedStack.Proofs.Measures

/-! The geometries of stacks. The main thread gets its stack exactly where the check of attributes would have let a spawned
thread have it, but for the empty stack of a host whose limit is zero; and so no thread ever stands on any other region. -/
namespace GuardedStack

open Program Attempt Startup

/-- A main region has an aligned top exactly if the check would have passed it or it is empty. -/
theorem Startup.mainRegion_aligned_iff {limit : Option UInt64} {page start : UInt64} (paged : PageSize page)
    (whole : page.toNat ∣ start.toNat) :
    (mainRegion limit page start).Aligned ↔ StackAttributes.Passes ⟨stackSize limit,page⟩ page ∨ limit = some 0 := by
  have place : 16 ∣ (mainRegion limit page start).start.toNat := by
    rw [mainRegion_start]
    exact Nat.dvd_trans paged.dvd whole
  rw [Region.aligned_iff_usable place paged.dvd,StackAttributes.passes_iff paged]
  constructor
  · intro size
    by_cases empty : stackSize limit = 0
    · cases limit with
      | none => cases empty
      | some limit => exact .inr (congrArg some empty)
    · exact .inl ⟨empty,size,Nat.dvd_refl _⟩
  · rintro (valid | rfl)
    · exact valid.size
    · exact Nat.dvd_zero 16

namespace Setting

/-- What the main stack is to be made of. -/
def main (s : Setting) : StackAttributes := ⟨stackSize (s.host .stackLimit),s.page⟩

/-- The mapper keeps to the page size. -/
structure Even (s : Setting) (page : UInt64) : Prop where
  size : s.page = page
  starts : ∀ len rights addr, s.mapper (.map len rights) = .ok addr → page.toNat ∣ addr.toNat

/-- Every call that an attempt makes succeeds. -/
structure Works (s : Setting) : Prop where
  maps : s.main.Adds → ∃ start, s.map (s.main.size + s.main.guard) = .ok start
  protects : ∀ start, s.map (s.main.size + s.main.guard) = .ok start → s.protect start s.main.guard = .ok ()
  intercepts : s.host .installInterception = .ok ()
  creates : ∃ key, s.host .createCleanupKey = .ok key

/-- The main stack has a length, and a spawned thread could have it or it is empty. -/
def Stacks (s : Setting) : Prop := s.main.Adds ∧ (s.main.Passes s.page ∨ s.host .stackLimit = some 0)

end Setting

section
variable {s : Setting} {rt : RuntimeId} {calls said : List Exchange}

/-- Only a stack without a length is not made. -/
theorem Setting.Works.unmade {cause : Fault} (works : s.Works) (fails : s.Allocates rt s.main said (.error cause)) :
    ¬s.main.Adds := by
  cases fails with
  | overflow beyond => exact beyond
  | unmapped adds fails =>
    obtain ⟨start,mapped⟩ := works.maps adds
    cases mapped.symm.trans fails
  | unprotected _ mapped _ fails => cases (works.protects _ mapped).symm.trans fails

namespace Startup

theorem attach_heard {r : Region} (works : s.Works) :
    (attach rt r).Follows (s.heard rt) (fun _ _ => r.Aligned) (fun _ _ => ¬r.Aligned) calls := by
  refine .bind (.bind (follows_lift (Setting.heard_state fun stack _ => ?_)))
  unfold ThreadStack.install
  by_cases aligned : r.Aligned
  · rw [if_neg (not_not_intro aligned)]
    refine follows_lift (Setting.heard_state fun _ _ => ?_)
    refine .bind (follows_ofProgram (Setting.heard_host fun intercepted told => ?_))
    obtain rfl := told.symm.trans works.intercepts
    obtain ⟨key,created⟩ := works.creates
    refine .bind (follows_ofProgram (Setting.heard_host fun made told => ?_))
    obtain rfl := told.symm.trans created
    exact follows_lift (Setting.heard_state fun _ _ => aligned)
  · rw [if_pos aligned]
    exact follows_throw aligned

theorem detach_heard {r : Region} : (detach r).Follows (s.heard rt) (fun _ _ => True) calls := by
  refine .bind (Setting.heard_state fun stack _ => ?_)
  split
  · exact .bind (.bind (Setting.heard_state fun _ _ => .bind (Setting.heard_state fun _ _ => trivial)))
  · trivial

theorem bringUp_heard (paged : s.Paged) (within : s.Within) (works : s.Works) :
    (bringUp rt).Follows (s.heard rt) (fun _ _ => s.Stacks) (fun _ _ => ¬s.Stacks) calls := by
  refine .bind (follows_lift (Setting.heard_host ?_))
  rintro _ rfl
  refine .bind (follows_lift (Setting.heard_mapper ?_))
  rintro _ rfl
  refine .bind ((Region.allocate_heard (a := s.main) within).mono ?_ ?_)
  · rintro y r ⟨said,start,made,rfl,fits,rfl⟩
    obtain ⟨adds,mapped,-,-⟩ := made.made
    have aligned : (s.main.region start).Aligned ↔ s.main.Passes s.page ∨ s.host .stackLimit = some 0 :=
      mainRegion_aligned_iff paged.page (paged.starts _ _ _ mapped)
    refine .bind (follows_outcome ((attach_heard works).mono ?_ ?_))
    · rintro y ⟨⟩ even
      exact follows_pure ⟨adds,aligned.mp even⟩
    · rintro y cause odd
      refine .bind (follows_lift (detach_heard.mono fun y _ _ => ?_))
      refine .bind (follows_lift ((Region.discard_heard fits).mono fun y _ _ => ?_))
      exact follows_throw fun had => odd (aligned.mpr had.2)
  · rintro y cause ⟨said,fails,-⟩
    exact fun had => works.unmade fails had.1

/-- Where everything works, an attempt comes to an end, and is right to fail. -/
theorem attempt_heard (fresh : s.phase = .uninitialized) (paged : s.Paged) (within : s.Within) (works : s.Works) :
    (attempt rt).Follows (s.heard rt) (fun _ _ => s.Stacks) (fun _ _ => ¬s.Stacks) calls := by
  refine .bind (follows_lift (Setting.heard_state fun won told => ?_))
  obtain rfl : won = true := (told rfl).mpr fresh
  refine .bind (follows_lift (Setting.heard_state fun setting _ => ?_))
  refine .bind (follows_lift (Setting.heard_state fun _ _ => ?_))
  refine .bind (follows_outcome ((bringUp_heard paged within works).mono ?_ ?_))
  · rintro y r had
    refine .bind (follows_lift (Setting.heard_state fun _ _ => ?_))
    exact .bind (follows_lift (follows_notice Setting.heard_silent Setting.heard_text (follows_pure had)))
  · rintro y cause fails
    exact .bind (follows_lift (Setting.heard_state fun _ _ => follows_throw fails))

end Startup
end

/-- What a thread stands on was installed there. -/
theorem Stands.installed {trace : World.Trace} {t : ThreadId} {h : Holding} (stands : Stands t h trace) :
    ∃ n, .answered n t (.state (.setStack ⟨h.region.top,some h⟩)) () ∈ trace := by
  induction trace with
  | nil => exact stands.elim
  | cons e earlier ih =>
    rcases stands with installs | ⟨-,stands⟩
    · unfold Event.Installs Event.wrote at installs
      split at installs
      · cases installs
        exact ⟨_,.head _⟩
      · cases installs
    · obtain ⟨n,member⟩ := ih stands
      exact ⟨n,List.mem_cons_of_mem _ member⟩

namespace World

variable {page : UInt64} {trace : Trace} {w w' : World} {e : Event} {t : ThreadId} {n : Nat} {rt : RuntimeId}
  {op : Operation} {below : List Frame} {h : Holding} {call : SpawnCall} {record : Handoff}

/-- Whoever initializes a runtime is an attempt for it. -/
theorem Run.starter {q : Request} {next : q.Reply → Program op.Result} {kept : Bool} (run : Run trace w)
    (here : w.frames t = ⟨n,op,.ask q next⟩ :: below) (starting : (trace.custodies n).role = .starting rt kept) :
    op = .start rt := by
  have won : .exchanged rt true ∈ trace.milestones n := mem_milestones.mpr ⟨_,_,_,run.claimed starting,rfl⟩
  obtain ⟨rt',track,standing,-⟩ := run.attempt won (by simp)
  obtain rfl := standing.of_won won
  have keeps := run.bids t ⟨n,op,.ask q next⟩ _ (by simp [here]) track
  exact keeps.1.1

section
variable (run : Run trace w) (granted : Trace.Grants (measuring rt page) trace)
include run granted

/-- Whatever an operation asks for is measured. -/
theorem Run.measured {q : Request} {next : q.Reply → Program op.Result} (here : w.frames t = ⟨n,op,.ask q next⟩ :: below) :
    ∃ told, (measuring rt page).track trace n = some told ∧ Measuring.May rt page op (trace.custodies n) told q := by
  have member : ⟨n,op,.ask q next⟩ ∈ w.frames t := by simp [here]
  have total {e : Event} {k : Nat} (opens : e.Opens k) : ((measuring rt page).start e).isSome := by
    cases e with
    | called | began | fired => rfl
    | _ => exact opens.elim
  obtain ⟨told,track⟩ := run.tracked_some total (run.inv.orderly.old member)
  exact ⟨told,track,(run.watched measuring_covers granted t _ told member track).1⟩

theorem Run.limited {rt' : RuntimeId} {limit : Option UInt64} (track : (measuring rt page).track trace n = some (some (rt',limit))) :
    .answered n (trace.homes n) (.host rt' .stackLimit) limit ∈ trace := by
  refine run.tracked (I := fun trace n t told => ∀ rt limit, told = some (rt,limit) →
    .answered n t (.host rt .stackLimit) limit ∈ trace) measuring_covers granted ?_ ?_ ?_ track rt' limit rfl
  · intro trace w e w' n told _ step opens starts rt limit known
    cases step with
    | call | begin | fire => cases starts; cases known
    | _ => exact opens.elim
  · intro trace n t op q reply told _ _ _ before rt limit known
    replace known : Measuring.after told q reply = some (rt,limit) := known
    cases told with
    | some first =>
      rw [Measuring.after_told] at known
      exact List.mem_cons_of_mem _ (before rt limit known)
    | none =>
      unfold Measuring.after at known
      split at known
      · cases known
        exact .head _
      · cases known
  · exact fun _ before rt limit known => List.mem_cons_of_mem _ (before rt limit known)

end

/-- A thread is accepted only for a region that has passed the check. -/
theorem Run.due_passes (run : Run trace w) (granted : Trace.Grants (measuring record.runtime page) trace)
    (due : w.Due call record) : record.region.attributes.Passes page := by
  induction run with
  | nil initial =>
    have accepted := due.accepted
    simp [initial.accepted] at accepted
  | @step trace w e w' run going step ih =>
    have inv := run.inv
    rcases (inv.awaits step).mp due.accepted with accepts | ⟨other,waits⟩
    · cases step with
      | @answer t n op q next below reply w' here answers =>
        unfold Event.Accepts at accepts
        split at accepts
        next same =>
          cases same
          obtain ⟨rfl,rfl⟩ := accepts
          obtain ⟨-,record',placed⟩ := inv.may here
          obtain rfl := due.rests.unique (inv.due placed (.answer here answers)).rests
          obtain ⟨told,-,may⟩ := run.measured granted.earlier here
          exact may record placed rfl
        · exact accepts.elim
      | _ => exact accepts.elim
    · -- The step leaves the record where it is, and no two records lie there.
      obtain ⟨record',rests,-⟩ := inv.record waits
      rcases inv.hand ⟨waits,rests⟩ step with ⟨-,due'⟩ | ⟨_,_,-,rfl⟩
      · obtain rfl := due.rests.unique due'.rests
        exact ih granted.earlier ⟨waits,rests⟩
      · exact absurd rfl other

/-- And so it begins with such a region. -/
theorem Run.arriving_passes (run : Run trace w) (granted : Trace.Grants (measuring h.owner page) trace)
    (arriving : (trace.custodies n).role = .arriving h) : h.region.attributes.Passes page := by
  induction run with
  | nil => cases arriving
  | @step trace w e w' run going step ih =>
    by_cases concerned : e.Concerns n
    · cases step with
      | @call t op =>
        obtain rfl := concerned
        have arriving : (Custody.ofOperation op).role = .arriving h := by
          simpa [Trace.custodies,Event.custodies] using arriving
        cases op <;> cases arriving
      | @begin t call unborn member =>
        obtain rfl := concerned
        obtain ⟨record,rests,same⟩ := run.inv.record member
        rw [same] at arriving
        obtain rfl : record.holding = h := by simpa [Trace.custodies,Event.custodies,Custody.ofRecord] using arriving
        exact run.due_passes granted.earlier ⟨member,rests⟩
      | @answer t k op q next below reply w' here answers =>
        obtain rfl : k = n := concerned
        have arriving : ((trace.custodies k).after q reply).role = .arriving h := by
          simpa [Trace.custodies,Event.custodies] using arriving
        -- No answer makes an operation one that arrives.
        refine ih granted.earlier ?_
        cases run.inv.act here answers with
        | quiet kept =>
          rcases kept with same | ⟨-,other⟩
          · exact same ▸ arriving
          · exact absurd (by simp [arriving,Role.Base]) other
        | stack _ same => exact same ▸ arriving
        | settle _ now | arm _ now | rearm _ _ now | take _ _ now => cases now.symm.trans arriving
      | fire =>
        obtain rfl := concerned
        simp [Trace.custodies,Event.custodies,Custody.ofValue] at arriving
      | _ => exact concerned.elim
    · obtain ⟨-,custodies,-⟩ := unconcerned errands trace concerned
      exact ih granted.earlier (custodies ▸ arriving)

/-- A region is installed by a thread that has begun with it, or by an attempt that has made it. -/
theorem Run.installs (run : Run trace w) (granted : Trace.Grants (measuring h.owner page) trace)
    (installed : .answered n t (.state (.setStack ⟨h.region.top,some h⟩)) () ∈ trace) :
    h.region.attributes.Passes page ∨ ∃ limit start, .answered n t (.host h.owner .stackLimit) limit ∈ trace ∧
      h.region = mainRegion limit page start ∧ h.region.Aligned := by
  obtain ⟨later,earlier,rfl⟩ := List.append_of_mem installed
  obtain ⟨w₀,run₀,-⟩ := run.earlier
  have granted : Trace.Grants (measuring h.owner page) earlier := fun k t q reply member =>
    granted k t q reply (List.mem_append_right _ (List.mem_cons_of_mem _ member))
  cases run₀ with
  | step run₀ going step =>
    cases step with
    | answer here answers =>
      -- Of the ways to write a thread's stack two write a region.
      cases (run₀.inv.may here).2 with
      | main held starting _ shape =>
        obtain rfl := Option.some.inj (congrArg ThreadStack.holding shape)
        obtain rfl := run₀.starter here starting
        obtain ⟨told,track,may⟩ := run₀.measured granted here
        obtain ⟨limit,start,rfl,same,aligned⟩ := may rfl _ rfl
        have limited := run₀.limited granted track
        rw [run₀.inv.home here] at limited
        exact .inr ⟨limit,start,List.mem_append_right _ (List.mem_cons_of_mem _ limited),congrArg Holding.region same,aligned⟩
      | arrival _ arriving _ _ _ shape =>
        obtain rfl := Option.some.inj (congrArg ThreadStack.holding shape)
        exact .inl (run₀.arriving_passes granted arriving)
      | detach _ _ _ shape | pass _ _ _ _ shape => cases congrArg ThreadStack.holding shape

/-- Whatever a thread stands on has passed the check of attributes, or would pass it, or is the empty main stack of a host that
told a limit of zero. -/
theorem Run.stack_passes (run : Run trace w) (paged : PageSize page) (even : trace.all (·.even h.owner page))
    (held : (w.image.threads t).holding = some h) :
    h.region.attributes.Passes page ∨ h.region.usable = 0 ∧
      ∃ n, .answered n t (.host h.owner .stackLimit) (some 0) ∈ trace ∧
        .answered n t (.state (.setStack ⟨h.region.top,some h⟩)) () ∈ trace := by
  have granted : Trace.Grants (measuring h.owner page) trace := fun n t q reply member => List.all_eq_true.mp even _ member
  obtain ⟨n,installed⟩ := (run.stands.mpr held).installed
  rcases run.installs granted installed with passes | ⟨limit,start,limited,place,aligned⟩
  · exact .inl passes
  obtain ⟨-,-,untouched⟩ := run.footing.stack held
  obtain ⟨e,member,maps⟩ := untouched.made
  have whole : page.toNat ∣ start.toNat := by
    have even := List.all_eq_true.mp even e member
    unfold Event.Maps at maps
    split at maps
    next =>
      rw [Holding.mapping,place,mainRegion_mapping] at maps
      cases maps
      simpa [Event.even,Request.even] using even
    · exact maps.elim
  rw [place] at aligned
  rcases (mainRegion_aligned_iff paged whole).mp aligned with passes | rfl
  · rw [place]
    exact .inl passes
  · rw [place]
    exact .inr ⟨rfl,n,limited,place ▸ installed⟩

end World

/-- The main thread and spawned threads accept the same geometries, but for the empty stack of a host that tells a limit of zero.
Where everything works an attempt succeeds for these geometries and no others; and whatever the surroundings do besides keeping
to a page size, no thread ever has another one. -/
theorem geometries_agree {page : UInt64} (paged : PageSize page) :
    (∀ {s : Setting} {rt : RuntimeId}, s.phase = .uninitialized → s.Even page → s.Within → s.Works →
      (attempt rt).run.Follows (s.heard rt) (fun _ result => (∃ r, result = .ok r) ↔
        s.main.Adds ∧ (s.main.Passes page ∨ s.host .stackLimit = some 0)) []) ∧
    ∀ {trace : World.Trace} {w : World} {t : ThreadId} {h : Holding}, World.Run trace w →
      trace.all (·.even h.owner page) → (w.image.threads t).holding = some h →
        h.region.attributes.Passes page ∨ h.region.usable = 0 ∧
          ∃ n, .answered n t (.host h.owner .stackLimit) (some 0) ∈ trace ∧
            .answered n t (.state (.setStack ⟨h.region.top,some h⟩)) () ∈ trace := by
  refine ⟨fun fresh even within works => ?_,fun run even held => run.stack_passes paged even held⟩
  obtain ⟨rfl,starts⟩ := even
  refine Program.Follows.mono (attempt_heard fresh ⟨paged,starts⟩ within works) ?_
  rintro calls (cause | r) decided
  · exact iff_of_false (fun made => nomatch made) decided
  · exact iff_of_true ⟨r,rfl⟩ decided

/-- A fresh runtime, whose host tells a limit of zero. -/
def Setting.vacant : Setting :=
  { cramped with
    phase := .uninitialized
    host
      | .stackLimit => some 0
      | call => cramped.host call }

theorem Setting.vacant_works : vacant.Works where
  maps _ := ⟨0x100000,rfl⟩
  protects _ _ := rfl
  intercepts := rfl
  creates := ⟨⟨7⟩,rfl⟩

/-- The empty main stack is had although the check rejects it; another main stack passes the check. -/
theorem geometries_agree_empty :
    (∃ calls r, (attempt ⟨0⟩).run.Yields (Setting.vacant.heard ⟨0⟩).next [] (.ok r) calls) ∧
      Setting.vacant.main.validate Setting.vacant.page = .ok (.error .zeroStackSize) ∧
      StackAttributes.Passes ⟨0x2800000,0x1000⟩ 0x1000 := by
  have paged : PageSize 0x1000 := ⟨⟨12,rfl⟩,by decide⟩
  obtain ⟨same,stands⟩ := geometries_agree paged
  refine ⟨?_,rfl,?_⟩
  · have even : Setting.vacant.Even 0x1000 := ⟨rfl,Setting.cramped_paged.starts⟩
    have within : Setting.vacant.Within := Setting.cramped_within
    have agrees := @same Setting.vacant ⟨0⟩ rfl even within Setting.vacant_works
    obtain ⟨calls,result,yields,decided⟩ := Setting.heard_ends agrees
    have adds : Setting.vacant.main.Adds := show 0 + 0x1000 < UInt64.size by decide
    obtain ⟨r,rfl⟩ := decided.mpr ⟨adds,.inr rfl⟩
    exact ⟨calls,r,yields⟩
  · have held : (World.launch.2.image.threads 0).holding = some ⟨⟨0x101000,0x2800000,0x1000⟩,⟨0⟩⟩ := by rfl
    rcases stands World.launch_run (by decide +kernel) held with passes | ⟨empty,-⟩
    · exact passes
    · cases empty

end GuardedStack
