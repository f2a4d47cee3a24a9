import GuardedStack.Proofs.Custody
import GuardedStack.Proofs.Rearming

/-! Every operation of the library keeps to the discipline of custody: it unmaps only what is in its hand, puts
nothing into its hand twice, and ends with an empty hand. Arithmetic never overflows on the way. -/
namespace GuardedStack

open Program Attempt

theorem custody_silent : custody.Silent where
  emits _ _ := trivial
  emitted _ _ _ _ step := step.2
  asks _ := trivial
  asked _ _ _ step := step.2

theorem custody_frank : custody.Frank where
  toSilent := custody_silent
  aborts _ known := known

theorem follows_text {s : String} {c : Custody} : (pure s : Program String).Follows custody (fun y _ => y = c) c :=
  rfl

namespace Region

theorem closeGuard_follows {rt : RuntimeId} {start total guard : UInt64} {c : Custody}
    (held : c.hand = .held ⟨rt,start,total⟩) :
    (closeGuard rt start total guard).Follows custody (fun y _ => y = c.forget)
      (fun y _ => y = { c.forget with hand := .empty }) c := by
  refine .bind (follows_outcome (follows_ofProgram (follows_request trivial ?_)))
  rintro (cause | _) y ⟨-,rfl⟩
  · refine .bind (follows_outcome (follows_ofProgram (follows_request held ?_)))
    rintro (leftover | _) y ⟨-,rfl⟩
    · exact .bind (follows_lift (follows_trace custody_silent follows_text rfl))
    · rfl
  · rfl

/-- The report of a new region computes its top, which does not overflow. -/
theorem made_text {r : Region} {c : Custody} (sound : r.Sound) :
    (Program.checked (Checked.add r.base r.usable) >>= fun top =>
      pure s!"mapped unsafe stack {hex r.base}..{hex top} (guard {hex r.guard})").Follows custody (fun y _ => y = c) c :=
  .bind (follows_checked sound.top_eq rfl)

theorem allocate_follows {rt : RuntimeId} {size guard : UInt64} {c : Custody} (empty : c.hand = .empty)
    (free : ¬c.role.Base) (nonempty : size ≠ 0 ∨ guard ≠ 0) :
    (allocate rt size guard).Follows custody
      (fun y r => r.Sound ∧ r.usable = size ∧ r.guard = guard ∧
        y = { c with hand := .held (r.mapping rt), seen := none })
      (fun y _ => ∃ seen, y = { c with seen := seen }) c := by
  unfold allocate
  cases sum : Checked.add size guard with
  | error _ => exact ⟨c.seen,rfl⟩
  | ok total =>
    have positive := Checked.add_ne_zero sum nonempty
    refine .bind (follows_ofProgram (follows_request ⟨empty,positive,free⟩ ?_))
    rintro (cause | start) y ⟨proper,rfl⟩
    · exact ⟨none,rfl⟩
    obtain ⟨sound,whole⟩ := Mapping.Proper.region proper sum positive
    have traced (z : Custody) := made_text (c := z) sound
    have made : ({ c.forget with hand := .held ⟨rt,start,total⟩ } : Custody) =
        { c with hand := .held ((⟨start + guard,size,guard⟩ : Region).mapping rt), seen := none } := by
      rw [whole]
      rfl
    dsimp only
    split
    · refine .bind ((closeGuard_follows rfl).mono ?_ ?_)
      · rintro y ⟨⟩ rfl
        refine .bind (follows_lift (follows_trace custody_silent (traced _) ?_))
        exact follows_pure ⟨sound,rfl,rfl,made⟩
      · rintro y cause rfl
        exact ⟨none,by simp [Custody.forget,Custody.after,empty]⟩
    · refine .bind (follows_lift (follows_trace custody_silent (traced _) ?_))
      exact follows_pure ⟨sound,rfl,rfl,made⟩

theorem release_follows {rt : RuntimeId} {r : Region} {c : Custody} (sound : r.Sound)
    (held : c.hand = .held (r.mapping rt)) :
    (release rt r).Follows custody (fun y _ => y = { c.forget with hand := .empty })
      (fun y _ => y = { c.forget with hand := .empty }) c := by
  refine .bind (follows_lift (follows_checked sound.length_eq ?_))
  refine .bind (follows_ofProgram (follows_request held ?_))
  rintro (cause | _) y ⟨-,rfl⟩
  · rfl
  · exact follows_lift (follows_trace custody_silent follows_text rfl)

theorem discard_follows {rt : RuntimeId} {reason : String} {r : Region} {c : Custody} (sound : r.Sound)
    (held : c.hand = .held (r.mapping rt)) :
    (discard rt reason r).Follows custody (fun y _ => y = { c.forget with hand := .empty }) c := by
  refine .bind (Program.Follows.mono (release_follows sound held) ?_)
  rintro y (leftover | _) rfl
  · exact follows_trace custody_silent follows_text rfl
  · rfl

end Region

theorem ThreadStack.empty_sound : ThreadStack.empty.Sound where
  none _ := rfl
  some _ held := nomatch held

namespace Thread

/-- Reading the installed stack again tells nothing new. -/
theorem read_installed {c : Custody} {s : ThreadStack} {h : Holding} (installed : c.hand = .installed h)
    (seen : c.seen = some s) (here : s.region = some h.region) : c.read s = c := by
  cases c
  simp_all [Custody.read]

theorem take_installed {c : Custody} {s : ThreadStack} {h : Holding} (installed : c.hand = .installed h)
    (seen : c.seen = some s) (here : s.region = some h.region) :
    take.Follows custody (fun y _ => y = { c with hand := .held h.mapping, seen := some .empty }) c := by
  refine .bind (follows_request trivial ?_)
  rintro s' y ⟨⟨-,again,-⟩,rfl⟩
  obtain rfl := again s seen
  have same : c.after (.state .stack) s' = c := read_installed installed seen here
  rw [same]
  refine .bind (follows_request ⟨ThreadStack.empty_sound,.detach installed seen here rfl⟩ ?_)
  rintro ⟨⟩ y ⟨-,rfl⟩
  show c.write .empty = _
  unfold Custody.write
  rw [installed]

theorem install_follows {h : Holding} {c : Custody} (sound : h.region.Sound) (held : c.hand = .held h.mapping)
    (allowed : ∀ s, c.Expects (.state .stack) s →
      Custody.Writes { c with seen := some s } ⟨h.region.top,some h⟩) :
    (install h).Follows custody (fun y _ => y = c.write ⟨h.region.top,some h⟩)
      (fun y _ => ∃ s, y = { c with seen := some s }) c := by
  refine .bind (follows_lift (follows_request trivial ?_))
  rintro s y ⟨expected,rfl⟩
  have seen : c.after (.state .stack) s = { c with seen := some s } := by
    simp [Custody.after,Custody.read,held]
  have whole : ThreadStack.Sound ⟨h.region.top,some h⟩ := by
    refine ⟨by simp,?_⟩
    rintro _ ⟨⟩
    exact ⟨sound,sound.base_le_top,UInt64.le_refl _⟩
  rw [seen]
  unfold ThreadStack.install
  split
  next done s' made =>
    split at made
    · simp at made
    · obtain rfl : _ = s' := (Prod.ext_iff.mp made).2
      refine follows_lift (follows_request ⟨whole,allowed s expected⟩ ?_)
      rintro ⟨⟩ y ⟨-,rfl⟩
      simp only [Custody.after,Custody.write,held]
      split <;> simp_all
  next cause s' made =>
    exact follows_throw ⟨s,rfl⟩

end Thread

namespace Startup

theorem detach_follows {h : Holding} {c : Custody} (mine : c.hand = .held h.mapping ∨ c.hand = .installed h) :
    (detach h.region).Follows custody
      (fun y _ => ∃ seen, y = { c with hand := .held h.mapping, seen := seen }) c := by
  refine .bind (follows_request trivial ?_)
  rintro s y ⟨⟨-,-,elsewhere⟩,rfl⟩
  split
  next here =>
    obtain ⟨other,holding,same⟩ := Option.map_eq_some_iff.mp here
    rcases mine with held | installed
    · exact absurd (congrArg Region.start same) (elsewhere _ _ held holding)
    · have kept : c.after (.state .stack) s = { c with seen := some s } := by
        simp [Custody.after,Custody.read,installed,here]
      rw [kept]
      refine .bind ((Thread.take_installed (c := { c with seen := some s }) installed rfl here).mono ?_)
      rintro y held rfl
      exact ⟨_,rfl⟩
  next other =>
    refine ⟨some s,?_⟩
    rcases mine with held | installed
    · simp [Custody.after,Custody.read,held]
    · simp [Custody.after,Custody.read,installed,other]

/-- A failed attachment leaves the region held, or installed as far as nothing else was. -/
theorem attach_follows {h : Holding} {c : Custody} (sound : h.region.Sound) (held : c.hand = .held h.mapping)
    (starting : c.role = .starting h.owner false) :
    (attach h.owner h.region).Follows custody
      (fun y _ => ∃ seen, y = { c with hand := .installed h, role := .starting h.owner true, seen := seen })
      (fun y _ => ∃ seen, y = { c with seen := seen } ∨ y = { c with hand := .installed h, seen := seen }) c := by
  refine .bind ((Thread.install_follows sound held fun s _ => .main held starting rfl rfl).mono ?_ ?_)
  · rintro y ⟨⟩ rfl
    have installed : c.write ⟨h.region.top,some h⟩ =
        { c with hand := .installed h, seen := some ⟨h.region.top,some h⟩ } := by
      simp [Custody.write,held,starting]
    rw [installed]
    refine .bind (follows_ofProgram (follows_request trivial ?_))
    rintro (cause | _) y ⟨-,rfl⟩
    · exact ⟨none,.inr rfl⟩
    refine .bind (follows_ofProgram (follows_request trivial ?_))
    rintro (cause | key) y ⟨-,rfl⟩
    · exact ⟨none,.inr rfl⟩
    refine follows_lift (follows_request ⟨starting,h,rfl⟩ ?_)
    rintro ⟨⟩ y ⟨-,rfl⟩
    exact ⟨none,rfl⟩
  · rintro y cause ⟨s,rfl⟩
    exact ⟨_,.inl rfl⟩

theorem bringUp_follows {rt : RuntimeId} {c : Custody} (empty : c.hand = .empty)
    (starting : c.role = .starting rt false) :
    (bringUp rt).Follows custody
      (fun y r => ∃ seen, y = { c with hand := .installed ⟨r,rt⟩, role := .starting rt true, seen := seen })
      (fun y _ => ∃ seen, y = { c with seen := seen }) c := by
  refine .bind (follows_lift (follows_request trivial ?_))
  rintro limit y ⟨-,rfl⟩
  refine .bind (follows_lift (follows_request trivial ?_))
  rintro guard y ⟨large,rfl⟩
  have based : ¬c.forget.role.Base := by simp [Custody.forget,starting,Role.Base]
  refine .bind ((Region.allocate_follows (c := c.forget) empty based (.inr large)).mono ?_ ?_)
  · rintro y r ⟨sound,-,-,rfl⟩
    refine .bind (follows_outcome (Follows.mono (attach_follows (h := ⟨r,rt⟩) sound rfl starting) ?_ ?_))
    · rintro y ⟨⟩ ⟨seen,rfl⟩
      exact ⟨seen,rfl⟩
    · rintro y cause failed
      obtain ⟨seen,hand,mine,rfl⟩ : ∃ seen hand, (hand = .held (r.mapping rt) ∨ hand = .installed ⟨r,rt⟩) ∧
          y = { c with hand := hand, seen := seen } := by
        obtain ⟨seen,rfl | rfl⟩ := failed
        · exact ⟨seen,_,.inl rfl,rfl⟩
        · exact ⟨seen,_,.inr rfl,rfl⟩
      refine .bind (follows_lift ((detach_follows (h := ⟨r,rt⟩) mine).mono ?_))
      rintro y ⟨⟩ ⟨seen,rfl⟩
      refine .bind (follows_lift ((Region.discard_follows sound rfl).mono ?_))
      rintro y ⟨⟩ rfl
      exact follows_throw ⟨none,by simp [Custody.forget,empty]⟩
  · rintro y cause ⟨seen,rfl⟩
    exact ⟨seen,rfl⟩

theorem attempt_follows {rt : RuntimeId} {c : Custody} (empty : c.hand = .empty) (asking : c.role = .asking rt) :
    (attempt rt).Follows custody (fun y r => y.hand = .empty ∧ y.role = .started ⟨r,rt⟩)
      (fun y _ => y.hand = .empty ∧ (y.role = .plain ∨ y.role = .asking rt)) c := by
  refine .bind (follows_lift (follows_request ⟨asking,empty,rfl,rfl⟩ ?_))
  rintro won y ⟨-,rfl⟩
  cases won with
  | false => exact follows_throw ⟨empty,.inr asking⟩
  | true =>
    refine .bind (follows_lift (follows_request trivial ?_))
    rintro setting y ⟨-,rfl⟩
    refine .bind (follows_lift (follows_request trivial ?_))
    rintro ⟨⟩ y ⟨-,rfl⟩
    refine .bind (follows_outcome ((bringUp_follows (c := { c with role := .starting rt false }) empty rfl).mono
      ?_ ?_))
    · rintro y region ⟨seen,rfl⟩
      refine .bind (follows_lift (follows_request (.inr ⟨rfl,rfl,_,rfl⟩) ?_))
      rintro ⟨⟩ y ⟨-,rfl⟩
      exact .bind (follows_lift (follows_notice custody_silent follows_text (follows_pure ⟨rfl,rfl⟩)))
    · rintro y cause ⟨seen,rfl⟩
      refine .bind (follows_lift (follows_request (.inl ⟨rfl,empty,rfl⟩) ?_))
      rintro ⟨⟩ y ⟨-,rfl⟩
      exact follows_throw ⟨empty,.inl rfl⟩

end Startup
/-- A runtime that was found ready has its key. -/
theorem Runtime.cleanupKey_follows {rt : RuntimeId} {post : Custody → CleanupKey → Prop} {c : Custody}
    (ready : rt ∈ c.ready) (after : ∀ key, post { c with key := some (rt,key) } key) :
    (cleanupKey rt).Follows custody post c := by
  refine .bind (follows_request trivial ?_)
  rintro (_ | key) y ⟨kept,rfl⟩
  · exact absurd rfl (kept ready)
  · exact after key

namespace Handoff

theorem slot_follows {h : Handoff} {c : Custody} (sound : h.region.Sound) :
    (slot h.region).Follows custody (fun y addr => y = c ∧ h.Sits addr) (fun y _ => y = c) c := by
  unfold slot
  split
  · exact follows_throw rfl
  next large =>
    obtain ⟨addr,place,sits⟩ := sits_of_slot sound (UInt64.not_lt.mp large)
    refine .bind (follows_lift (follows_checked place ?_))
    split
    · exact follows_pure ⟨rfl,sits⟩
    · exact follows_lift (follows_abort custody_frank (by simp))

/-- In an aligned region the place is found without any request. -/
theorem slot_aligned {σ : Type} {d : Discipline σ} {x : σ} {r : Region} (sound : r.Sound) (aligned : r.Aligned) :
    (slot r).Follows d (fun y addr => y = x ∧ addr = r.top - size) (fun y _ => y = x) x := by
  unfold slot
  split
  · exact follows_throw rfl
  next large =>
    obtain ⟨addr,below,-⟩ := sits_of_slot (h := ⟨⟨0⟩,0,r,⟨0⟩⟩) sound (UInt64.not_lt.mp large)
    obtain ⟨inside,rfl⟩ := Checked.subtract_eq_ok_iff.mp below
    refine .bind (follows_lift (follows_checked below ?_))
    rw [if_pos (aligned.slot inside)]
    exact follows_pure ⟨rfl,rfl⟩

theorem place_follows {h : Handoff} {c : Custody} (sound : h.region.Sound) (held : c.hand = .held h.mapping)
    (ready : h.runtime ∈ c.ready) :
    (place h).Follows custody (fun y addr => y = { c with hand := .placed addr h }) (fun y _ => y = c) c := by
  refine .bind ((slot_follows sound).mono ?_ ?_)
  · rintro y addr ⟨rfl,sits⟩
    refine .bind (follows_lift (follows_request (.place held ready sits rfl) ?_))
    rintro ⟨⟩ z ⟨-,rfl⟩
    refine follows_pure ?_
    simp only [Custody.after,Custody.store,held,decode_encode]
  · rintro y cause rfl
    rfl

/-- The record that is in the hand is read as it was written. -/
theorem take_follows {h : Handoff} {addr : UInt64} {c : Custody} (placed : c.hand = .placed addr h) :
    (take addr).Follows custody (fun y a => a = h ∧ y = { c with hand := .held h.mapping }) c := by
  refine .bind (follows_request trivial ?_)
  rintro bytes y ⟨written,rfl⟩
  obtain rfl := written h placed rfl
  refine .bind (follows_request (.blank placed rfl) ?_)
  rintro ⟨⟩ y ⟨-,rfl⟩
  refine ⟨decode_encode h,?_⟩
  simp only [Custody.after,Custody.store,placed]

end Handoff

/-- Against a page size that is not zero the check gives a verdict, and accepts no empty stack. -/
theorem StackAttributes.validate_verdict (a : StackAttributes) {pageSize : UInt64} (large : pageSize ≠ 0) :
    ∃ verdict, a.validate pageSize = .ok verdict ∧ (verdict = .ok () → a.size ≠ 0) := by
  have mask : Checked.subtract pageSize 1 = .ok (pageSize - 1) := by
    refine Checked.subtract_eq_ok_iff.mpr ⟨UInt64.le_iff_toNat_le.mpr ?_,rfl⟩
    have positive : pageSize.toNat ≠ 0 := fun zero => large (UInt64.toNat_inj.mp zero)
    show 1 ≤ pageSize.toNat
    omega
  unfold validate
  split
  · exact ⟨_,rfl,by simp⟩
  next size_ne =>
    split
    · exact ⟨_,rfl,by simp⟩
    · rw [mask]
      by_cases whole : a.guard &&& (pageSize - 1) = 0
      · exact ⟨.ok (),by simp [Bind.bind,Except.bind,pure,Except.pure,whole],fun _ => size_ne⟩
      · exact ⟨.error (.misalignedGuardSize a.guard pageSize),
          by simp [Bind.bind,Except.bind,pure,Except.pure,whole],by simp⟩

theorem Host.attributes_follows {rt : RuntimeId} {attr : Option AttributeRef} {c : Custody} :
    (Host.attributes rt attr).Follows custody (fun y _ => y = c.forget) (fun _ _ => True) c := by
  cases attr with
  | none =>
    refine follows_ofProgram (follows_request trivial ?_)
    rintro (cause | attributes) y ⟨-,rfl⟩
    · trivial
    · rfl
  | some attr =>
    refine follows_ofProgram (follows_request trivial ?_)
    rintro (cause | attributes) y ⟨-,rfl⟩
    · trivial
    · rfl

namespace Spawn

theorem prepare_follows {rt : RuntimeId} {attr : Option AttributeRef} {start : EntryPoint} {arg : UInt64}
    {c : Custody} (empty : c.hand = .empty) (free : ¬c.role.Base) (ready : rt ∈ c.ready) :
    (prepare rt attr start arg).Follows custody
      (fun y addr => ∃ h : Handoff, h.region.Sound ∧ h.runtime = rt ∧
        y = { c with hand := .placed addr h, seen := none })
      (fun _ _ => True) c := by
  refine .bind (Host.attributes_follows.mono ?_ fun _ _ fails => fails)
  rintro y attributes rfl
  refine .bind (follows_lift (follows_request trivial ?_))
  rintro pageSize y ⟨large,rfl⟩
  obtain ⟨verdict,checked_,accepted⟩ := attributes.validate_verdict large
  refine .bind (follows_lift (follows_checked checked_ ?_))
  cases verdict with
  | error cause => exact follows_throw trivial
  | ok done =>
    refine .bind ((Region.allocate_follows (c := c.forget) empty free (.inl (accepted rfl))).mono ?_
      fun _ _ _ => trivial)
    rintro y region ⟨sound,-,-,rfl⟩
    have placing := Handoff.place_follows (h := ⟨start,arg,region,rt⟩) (c := { c with
      hand := .held (region.mapping rt), seen := none }) sound rfl ready
    refine .bind (follows_outcome (placing.mono ?_ ?_))
    · rintro y record rfl
      exact .bind (follows_lift (follows_trace custody_silent follows_text (follows_pure ⟨_,sound,rfl,rfl⟩)))
    · rintro y cause rfl
      refine .bind (follows_lift ((Region.discard_follows sound rfl).mono ?_))
      rintro y ⟨⟩ rfl
      exact follows_throw trivial

theorem intercept_follows {rt : RuntimeId} {handle : UInt64} {attr : Option AttributeRef} {start : EntryPoint}
    {arg : UInt64} {c : Custody} (empty : c.hand = .empty) (free : ¬c.role.Base) :
    (intercept rt handle attr start arg).Follows custody (fun y _ => y.hand = .empty ∧ y.role = c.role) c := by
  refine .bind (follows_request trivial ?_)
  rintro phase y ⟨-,rfl⟩
  split
  next ready =>
    subst ready
    refine .bind (follows_orAbort custody_frank ((prepare_follows (c := c.after (.state (.phase rt)) .ready) empty
      free (by simp [Custody.after])).mono ?_ fun _ _ _ => trivial))
    rintro y record ⟨h,sound,rfl,rfl⟩
    refine .bind (follows_request ⟨rfl,h,rfl⟩ ?_)
    rintro code y ⟨-,rfl⟩
    split
    next accepted =>
      subst accepted
      exact ⟨rfl,rfl⟩
    next refused =>
      refine .bind ((Handoff.take_follows (h := h) ?_).mono ?_)
      · simp [Custody.after_refused,refused,Custody.forget]
      · rintro y _ ⟨rfl,rfl⟩
        refine .bind (follows_orAbort custody_frank ((Region.release_follows sound rfl).mono ?_
          fun _ _ _ => trivial))
        rintro y ⟨⟩ rfl
        exact ⟨rfl,by simp [Custody.after,refused,Custody.forget]⟩
  next => exact follows_abort custody_frank (by simp)

theorem firstFrame_follows {h : Handoff} {addr : UInt64} (sound : h.region.Sound) :
    (firstFrame addr).Follows custody (fun y _ => y.hand = .empty ∧ y.role = .settled) (.ofRecord addr h) := by
  unfold firstFrame
  split
  · exact follows_abort custody_frank (by simp)
  refine .bind ((Handoff.take_follows rfl).mono ?_)
  rintro y handoff ⟨rfl,rfl⟩
  refine .bind (follows_orAbort custody_frank ((Thread.install_follows (h := handoff.holding) sound rfl
    fun s expected => ?_).mono ?_ fun _ _ _ => trivial))
  · obtain rfl := expected.2.1 _ rfl
    exact .arrival rfl rfl (List.mem_singleton_self _) rfl rfl rfl
  rintro y ⟨⟩ rfl
  refine .bind (Runtime.cleanupKey_follows (List.mem_singleton_self _) ?_)
  intro key
  refine .bind (follows_orAbort custody_frank (follows_ofProgram (follows_request
    ⟨rfl,rfl,.inl ⟨rfl,rfl⟩⟩ ?_)))
  rintro (cause | _) y ⟨-,rfl⟩
  · trivial
  · refine follows_request ⟨rfl,rfl⟩ ?_
    rintro result y ⟨-,rfl⟩
    exact ⟨rfl,rfl⟩

end Spawn

namespace Cleanup

theorem round_follows {value : UInt64} {s : ThreadStack} (whole : s.Sound) :
    (round value destructorRounds).Follows custody (fun y _ => y.hand = .empty ∧
      (y.role = .settled ∨ ∃ value seen, y.role = .passing value ∧ y.seen = some seen ∧ seen.holding = none))
      (.ofValue value s) := by
  refine .bind (follows_request trivial ?_)
  rintro s' y ⟨⟨-,again,-⟩,rfl⟩
  obtain rfl := again s rfl
  obtain ⟨pointer,holding⟩ := s'
  cases holding with
  | none => exact ⟨rfl,.inr ⟨_,_,rfl,rfl,rfl⟩⟩
  | some h =>
    obtain ⟨sound,-,-⟩ := whole.some h rfl
    dsimp only [ThreadStack.owner,Option.map]
    rw [action_eq]
    refine .bind (follows_checked rfl ?_)
    by_cases early : value < destructorRounds
    · rw [if_pos early]
      refine .bind (Runtime.cleanupKey_follows (List.mem_singleton_self _) ?_)
      intro key
      refine follows_orAbort custody_frank (follows_ofProgram (follows_request
        ⟨rfl,rfl,.inr ⟨value,rfl,early,rfl⟩⟩ ?_))
      rintro (cause | _) y ⟨-,rfl⟩
      · trivial
      · exact ⟨rfl,.inl rfl⟩
    · rw [if_neg early]
      refine .bind (.bind (follows_request trivial ?_))
      rintro s' y ⟨⟨-,again,-⟩,rfl⟩
      obtain rfl := again _ rfl
      refine .bind (follows_request ⟨ThreadStack.empty_sound,
        .pass rfl rfl (UInt64.not_lt.mp early) rfl rfl⟩ ?_)
      rintro ⟨⟩ y ⟨-,rfl⟩
      refine follows_orAbort custody_frank ((Region.release_follows sound rfl).mono ?_ fun _ _ _ => trivial)
      rintro y ⟨⟩ rfl
      exact ⟨rfl,.inl rfl⟩

end Cleanup

/-! Each operation from its beginning. -/

namespace Operation

theorem start_follows (rt : RuntimeId) :
    (start rt).program.Follows custody (start rt).Ends (.ofOperation (.start rt)) := by
  refine Program.Follows.mono (Startup.attempt_follows rfl rfl) ?_
  rintro y (cause | region) ends
  · exact ends
  · exact ⟨ends.1,rt,ends.2⟩

theorem spawn_follows (rt : RuntimeId) (handle : UInt64) (attr : Option AttributeRef) (entry : EntryPoint)
    (arg : UInt64) : (spawn rt handle attr entry arg).program.Follows custody (spawn rt handle attr entry arg).Ends
      (.ofOperation (.spawn rt handle attr entry arg)) :=
  Spawn.intercept_follows rfl (by simp [Custody.ofOperation,Role.Base])

/-- What outside code calls. -/
theorem named_follows {op : Operation} (named : op.runtime?.isSome) :
    op.program.Follows custody op.Ends (.ofOperation op) := by
  cases op with
  | start rt => exact start_follows rt
  | spawn rt handle attr entry arg => exact spawn_follows rt handle attr entry arg
  | body | destroy => simp [runtime?] at named

theorem body_follows {h : Handoff} (sound : h.region.Sound) (addr : UInt64) :
    (body .fromRecord addr).program.Follows custody (body .fromRecord addr).Ends (.ofRecord addr h) :=
  Spawn.firstFrame_follows sound

theorem destroy_follows {s : ThreadStack} (whole : s.Sound) (value : UInt64) :
    (destroy value).program.Follows custody (destroy value).Ends (.ofValue value s) :=
  (Cleanup.round_follows whole).callback fun _ overflow => overflow

end Operation
end GuardedStack
