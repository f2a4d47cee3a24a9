import GuardedStack.Proofs.Estate

/-! Nothing is lost: with one runtime and an unmap that works, each deed leaves every mapping with a holder. -/
namespace GuardedStack.Estate

structure Tight (e : Estate) : Prop where
  covered : ∀ {m}, m ∈ e.live → ∃ o, e.Holds o m
  /-- What an operation has installed is still on its thread's stack. -/
  kept : ∀ {n h}, e.hands n = .installed h → e.stacked (e.homes n) = some h

variable {e e' : Estate} {n : Nat} {t : ThreadId} {o : Holder} {m : Mapping}

theorem Holds.setHand {x : Hand} (holds : e.Holds o m) (other : o ≠ .call n)
    (loose : ∀ h, x = .installed h → ∀ t, e.stacked t ≠ some h) : (e.setHand n x).Holds o m := by
  cases holds with
  | @call k m hand =>
    have ne : k ≠ n := by simpa using other
    exact .call (by simpa [Estate.setHand,ne] using hand)
  | @stack t h stack free =>
    refine .stack stack fun k hand => ?_
    rcases of_setHand hand with ⟨-,same⟩ | ⟨-,hand⟩
    · exact loose h same t stack
    · exact free k hand
  | record member rests => exact .record member rests

theorem Holds.setStack {s : Option Holding} (holds : e.Holds o m) (other : o ≠ .stack t) :
    (e.setStack t s).Holds o m := by
  cases holds with
  | call hand => exact .call hand
  | @stack t' h stack free =>
    have ne : t' ≠ t := by simpa using other
    exact .stack (by simpa [Estate.setStack,ne] using stack) free
  | record member rests => exact .record member rests

theorem Holds.of_hand (e : Estate) (n : Nat) {x : Hand} (hand : x.mapping = some m) :
    (e.setHand n x).Holds (.call n) m :=
  .call (by simpa [Estate.setHand] using hand)

theorem Holds.ne_call (holds : e.Holds o m) (other : (e.hands n).mapping ≠ some m) : o ≠ .call n := by
  rintro rfl
  exact other holds.hand

section
variable (tight : e.Tight)
include tight

theorem Tight.kept_setHand {x : Hand} (plain : ∀ h, x ≠ .installed h) {k : Nat} {h : Holding}
    (hand : (e.setHand n x).hands k = .installed h) : e.stacked (e.homes k) = some h :=
  tight.kept (installed_of plain hand)

/-- If the hand keeps what it has, so does everybody else. -/
theorem Tight.covered_setHand {x : Hand} (loose : ∀ h, x = .installed h → ∀ t, e.stacked t ≠ some h)
    (keeps : ∀ m, (e.hands n).mapping = some m → x.mapping = some m) (member : m ∈ e.live) :
    ∃ o, (e.setHand n x).Holds o m := by
  by_cases mine : (e.hands n).mapping = some m
  · exact ⟨_,.of_hand e n (keeps m mine)⟩
  · obtain ⟨o,holds⟩ := tight.covered member
    exact ⟨o,holds.setHand (holds.ne_call mine) loose⟩

end

theorem Exact.one_installed (exact_ : e.Exact) {k : Nat} {h : Holding} (hand : e.hands k = .installed h)
    (hand' : e.hands n = .installed h) : k = n := by
  have same := exact_.exclusive (.call (by rw [hand]; rfl)) (.call (m := h.mapping) (by rw [hand']; rfl))
  simpa using same

/-- Writing into what is in the hand leaves all records with their threads to be. -/
theorem Tight.write (tight : e.Tight) (exact_ : e.Exact) {g : Handoff} {addr : UInt64} {bytes : List UInt8} {x : Hand}
    (hand : (e.hands n).mapping = some g.mapping) (same : x.mapping = some g.mapping)
    (sits : g.Sits addr) (fits : bytes.length = Handoff.size.toNat) (loose : ∀ h, x ≠ .installed h) :
    { e.setHand n x with memory := e.memory.store addr bytes : Estate }.Tight := by
  refine ⟨?_,fun hand => tight.kept_setHand loose hand⟩
  intro m member
  obtain ⟨o,holds⟩ := tight.covered_setHand (n := n) (x := x) (fun h installed => absurd installed (loose h))
    (fun m mine => same.trans (hand.symm.trans mine)) member
  refine ⟨o,?_⟩
  cases holds with
  | call mine => exact .call mine
  | stack stack free => exact .stack stack free
  | record old rests =>
    exact .record old (exact_.rests_store hand sits fits (.record old rests) (by simp) rests)

theorem Tight.begin (tight : e.Tight) {call : SpawnCall} {h : Handoff}
    (empty : e.hands n = .empty) (rests : h.Rests e.memory call.arg) :
    { e.setHand n (.placed call.arg h) with
      records := e.records.erase call, homes := replace e.homes n t : Estate }.Tight := by
  refine ⟨?_,?_⟩
  · intro m member
    obtain ⟨o,holds⟩ := tight.covered_setHand (n := n) (x := .placed call.arg h) (by simp) (by simp [empty,Hand.mapping])
      member
    cases holds with
    | call mine => exact ⟨_,.call mine⟩
    | stack stack free => exact ⟨_,.stack stack free⟩
    | @record call' h' old rests' =>
      by_cases same : call' = call
      · subst same
        obtain rfl := rests.unique rests'
        exact ⟨.call n,.call (by simp [Estate.setHand,Hand.mapping])⟩
      · exact ⟨_,.record ((List.mem_erase_of_ne same).mpr old) rests'⟩
  · intro k h' hand
    have before : e.hands k = .installed h' := installed_of (e := e) (by simp) hand
    have other : k ≠ n := by
      rintro rfl
      simp [empty] at before
    simpa [Estate.setHand,other] using tight.kept before

theorem Tight.enter (tight : e.Tight) (empty : e.hands n = .empty) :
    { e with homes := replace e.homes n t : Estate }.Tight := by
  refine ⟨?_,?_⟩
  · intro m member
    obtain ⟨o,holds⟩ := tight.covered member
    exact ⟨o,holds.congr rfl rfl rfl rfl⟩
  · intro k h hand
    have other : k ≠ n := by
      rintro rfl
      simp [empty] at hand
    simpa [other] using tight.kept hand

section
variable (tight : e.Tight) (exact_ : e.Exact)
include tight

theorem Tight.map (empty : e.hands n = .empty) : { e.setHand n (.held m) with live := m :: e.live : Estate }.Tight := by
  refine ⟨?_,fun hand => tight.kept_setHand (by simp) hand⟩
  intro m' member
  rcases List.mem_cons.mp member with rfl | old
  · exact ⟨_,(Holds.of_hand e n rfl).congr rfl rfl rfl rfl⟩
  · obtain ⟨o,holds⟩ := tight.covered_setHand (n := n) (x := .held m) (by simp) (by simp [empty,Hand.mapping]) old
    exact ⟨o,holds.congr rfl rfl rfl rfl⟩

theorem Tight.unmap (held : e.hands n = .held m) :
    { e.setHand n .empty with live := e.live.filter (· ≠ m) : Estate }.Tight := by
  refine ⟨?_,fun hand => tight.kept_setHand (by simp) hand⟩
  intro m' member
  obtain ⟨old,other⟩ := List.mem_filter.mp member
  obtain ⟨o,holds⟩ := tight.covered old
  have elsewhere : (e.hands n).mapping ≠ some m' := by
    rw [held]
    rintro ⟨⟩
    simp at other
  exact ⟨o,(holds.setHand (holds.ne_call elsewhere) (by simp)).congr rfl rfl rfl rfl⟩

theorem Tight.take (free : ∀ k h, e.stacked t = some h → e.hands k ≠ .installed h) (empty : e.hands n = .empty) :
    ((e.setHand n (taken (e.stacked t))).setStack t none).Tight := by
  have plain (h : Holding) : taken (e.stacked t) ≠ .installed h := by
    intro same
    cases stack : e.stacked t <;> simp [stack,taken] at same
  refine ⟨?_,?_⟩
  · intro m member
    obtain ⟨o,holds⟩ := tight.covered member
    by_cases mine : o = .stack t
    · subst mine
      cases holds with
      | stack stack => exact ⟨.call n,.call (by simp [Estate.setStack,Estate.setHand,stack,taken,Hand.mapping])⟩
    · refine ⟨o,(holds.setHand (holds.ne_call (by simp [empty,Hand.mapping])) ?_).setStack mine⟩
      exact fun h same => absurd same (plain h)
  · intro k h hand
    have hand : e.hands k = .installed h := installed_of plain hand
    have stack := tight.kept hand
    have other : e.homes k ≠ t := by
      intro same
      exact free k h (same ▸ stack) hand
    simpa [Estate.setStack,Estate.setHand,other] using stack

include exact_

theorem Tight.install {h : Holding} (bare : e.stacked t = none) (held : e.hands n = .held h.mapping)
    (home : e.homes n = t) : ((e.setHand n (.installed h)).setStack t (some h)).Tight := by
  refine ⟨?_,?_⟩
  · intro m member
    have loose : ∀ h', Hand.installed h = .installed h' → ∀ t, e.stacked t ≠ some h' := by
      rintro _ ⟨⟩
      exact exact_.not_stacked held
    obtain ⟨o,holds⟩ := tight.covered_setHand loose (by rw [held]; exact fun _ => id) member
    refine ⟨o,holds.setStack ?_⟩
    rintro rfl
    cases holds with
    | stack stack => simp [Estate.setHand,bare] at stack
  · intro k h' hand
    rcases of_setHand hand with ⟨rfl,same⟩ | ⟨-,hand⟩
    · cases same
      simp [Estate.setStack,Estate.setHand,home]
    · have stack := tight.kept hand
      have other : e.homes k ≠ t := by
        rintro rfl
        simp [bare] at stack
      simpa [Estate.setStack,Estate.setHand,other] using stack

theorem Tight.settle {h : Holding} (bare : e.stacked t = none) (held : e.hands n = .held h.mapping) :
    ((e.setHand n .empty).setStack t (some h)).Tight := by
  refine ⟨?_,?_⟩
  · intro m member
    by_cases mine : (e.hands n).mapping = some m
    · rw [held] at mine
      cases mine
      refine ⟨.stack t,.stack (by simp [Estate.setStack]) fun k hand => ?_⟩
      exact exact_.not_installed held k (installed_of (by simp) hand)
    · obtain ⟨o,holds⟩ := tight.covered member
      refine ⟨o,(holds.setHand (holds.ne_call mine) (by simp)).setStack ?_⟩
      rintro rfl
      cases holds with
      | stack stack => simp [bare] at stack
  · intro k h' hand
    have stack := tight.kept (installed_of (by simp) hand)
    have other : e.homes k ≠ t := by
      intro same
      simp [same,bare] at stack
    simpa [Estate.setStack,Estate.setHand,other] using stack

theorem Tight.detach {h : Holding} (installed : e.hands n = .installed h) (home : e.homes n = t) :
    ((e.setHand n (.held h.mapping)).setStack t none).Tight := by
  have here : e.stacked t = some h := home ▸ tight.kept installed
  refine ⟨?_,?_⟩
  · intro m member
    obtain ⟨o,holds⟩ := tight.covered member
    by_cases mine : (e.hands n).mapping = some m
    · rw [installed] at mine
      exact ⟨_,(Holds.of_hand e n (x := .held h.mapping) mine).setStack (by simp)⟩
    · refine ⟨o,(holds.setHand (holds.ne_call mine) (by simp)).setStack ?_⟩
      rintro rfl
      cases holds with
      | stack stack free =>
        rw [here] at stack
        cases stack
        exact free n installed
  · intro k h' hand
    rcases of_setHand hand with ⟨-,clash⟩ | ⟨ne,hand⟩
    · cases clash
    · have stack := tight.kept hand
      have other : e.homes k ≠ t := by
        intro same
        rw [same,here] at stack
        cases stack
        exact ne (exact_.one_installed hand installed)
      simpa [Estate.setStack,Estate.setHand,other] using stack

theorem Tight.keep {h : Holding} (installed : e.hands n = .installed h) : (e.setHand n .empty).Tight := by
  refine ⟨?_,fun hand => tight.kept_setHand (by simp) hand⟩
  intro m member
  by_cases mine : (e.hands n).mapping = some m
  · rw [installed] at mine
    cases mine
    refine ⟨.stack (e.homes n),.stack (tight.kept installed) fun k hand => ?_⟩
    rcases of_setHand hand with ⟨-,clash⟩ | ⟨ne,hand⟩
    · cases clash
    · exact ne (exact_.one_installed hand installed)
  · obtain ⟨o,holds⟩ := tight.covered member
    exact ⟨o,holds.setHand (holds.ne_call mine) (by simp)⟩

theorem Tight.accept {call : SpawnCall} {h : Handoff} (placed : e.hands n = .placed call.arg h) :
    { e.setHand n .empty with records := call :: e.records : Estate }.Tight := by
  refine ⟨?_,fun hand => tight.kept_setHand (by simp) hand⟩
  intro m member
  by_cases mine : (e.hands n).mapping = some m
  · rw [placed] at mine
    cases mine
    exact ⟨_,.record List.mem_cons_self (exact_.placed placed)⟩
  · obtain ⟨o,holds⟩ := tight.covered member
    have before := holds.setHand (x := .empty) (holds.ne_call mine) (by simp)
    cases before with
    | call hand => exact ⟨_,.call hand⟩
    | stack stack free => exact ⟨_,.stack stack free⟩
    | record old rests => exact ⟨_,.record (List.mem_cons_of_mem _ old) rests⟩

end

/-- A deed loses nothing, provided that a runtime in its initialization puts its region on a bare thread. -/
theorem Deed.tight {ready : RuntimeId → Prop} {c : Custody} (deed : Deed ready c n t e e') (exact_ : e.Exact)
    (tight : e.Tight) (vacant : ∀ {rt m}, c.role = .starting rt false → e.hands n = .held m → e.stacked t = none) :
    e'.Tight := by
  cases deed with
  | rest => exact tight
  | map empty => exact tight.map empty
  | unmap held => exact tight.unmap held
  | install role held home => exact tight.install exact_ (vacant role held) held home
  | settle _ _ bare held => exact tight.settle exact_ bare held
  | detach installed home => exact tight.detach exact_ installed home
  | lose installed replaced => exact absurd (tight.kept installed) replaced
  | take _ _ free empty => exact tight.take free empty
  | keep _ _ installed => exact tight.keep exact_ installed
  | place _ held sits =>
    exact tight.write exact_ (by rw [held]; rfl) rfl sits (Handoff.length_encode _) (by simp)
  | blank placed =>
    exact tight.write exact_ (by rw [placed]; rfl) rfl (exact_.placed placed).sits (by simp [Handoff.blank]) (by simp)
  | accept placed => exact tight.accept exact_ placed

end GuardedStack.Estate
