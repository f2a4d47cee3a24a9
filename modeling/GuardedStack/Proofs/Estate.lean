import GuardedStack.Proofs.Custody
import Mathlib.Data.List.Pairwise

/-! Who answers for which mapping. A mapping that the library answers for has one holder: an operation in
progress, a thread with a stack, or the record of a thread that is still to start. What the library does moves
mappings from one holder to another, and no mapping ever has two. -/
namespace GuardedStack

inductive Holder where
  | call (n : Nat)
  | stack (t : ThreadId)
  | record (call : SpawnCall)
  deriving DecidableEq, Repr

structure Estate where
  /-- Mappings for which no unmap call was made. -/
  live : List Mapping
  memory : Memory
  records : List SpawnCall
  stacked : ThreadId → Option Holding
  hands : Nat → Hand
  /-- The thread of each operation. -/
  homes : Nat → ThreadId

theorem Handoff.Rests.unique {h h' : Handoff} {memory : Memory} {addr : UInt64} (rests : h.Rests memory addr)
    (rests' : h'.Rests memory addr) : h = h' := by
  rw [← decode_encode h,← decode_encode h',← rests.bytes,← rests'.bytes]

namespace Estate

inductive Holds (e : Estate) : Holder → Mapping → Prop
  | call {n m} : (e.hands n).mapping = some m → e.Holds (.call n) m
  /-- What an operation has installed stays the operation's own until it lets go. -/
  | stack {t h} : e.stacked t = some h → (∀ n, e.hands n ≠ .installed h) → e.Holds (.stack t) h.mapping
  | record {call} {h : Handoff} : call ∈ e.records → h.Rests e.memory call.arg → e.Holds (.record call) h.mapping

structure Exact (e : Estate) : Prop where
  apart : e.live.Pairwise Mapping.Apart
  nonempty : ∀ m ∈ e.live, m.len ≠ 0
  held : ∀ {o m}, e.Holds o m → m ∈ e.live
  exclusive : ∀ {o o' m}, e.Holds o m → e.Holds o' m → o = o'
  installed : ∀ {n t h}, e.hands n = .installed h → e.stacked t = some h → e.homes n = t
  distinct : e.records.Nodup
  rests : ∀ {call}, call ∈ e.records → ∃ h : Handoff, h.Rests e.memory call.arg
  placed : ∀ {n addr h}, e.hands n = .placed addr h → h.Rests e.memory addr

/-- What is live and whose operations they are does not say who holds what. -/
theorem Holds.congr {e e' : Estate} {o : Holder} {m : Mapping} (holds : e.Holds o m) (memory : e'.memory = e.memory)
    (records : e'.records = e.records) (stacked : e'.stacked = e.stacked) (hands : e'.hands = e.hands) :
    e'.Holds o m := by
  cases holds with
  | call hand => exact .call (hands ▸ hand)
  | stack stack free => exact .stack (stacked ▸ stack) (hands ▸ free)
  | record member rests => exact .record (records ▸ member) (memory ▸ rests)

/-- A stack has a holder: the thread, or the operation that has just installed it. -/
theorem Holds.of_installed {e : Estate} {t : ThreadId} {h : Holding} (stack : e.stacked t = some h) :
    ∃ o, e.Holds o h.mapping ∧ (o = .stack t ∨ ∃ n, o = .call n ∧ e.hands n = .installed h) := by
  by_cases free : ∀ k, e.hands k ≠ .installed h
  · exact ⟨_,.stack stack free,.inl rfl⟩
  · obtain ⟨k,installed⟩ := not_forall_not.mp free
    exact ⟨.call k,.call (by rw [installed]; rfl),.inr ⟨k,rfl,installed⟩⟩

theorem Holds.of_stack {e : Estate} {t : ThreadId} {h : Holding} (stack : e.stacked t = some h) :
    ∃ o, e.Holds o h.mapping ∧ ∀ {n m}, e.hands n = .held m → o ≠ .call n := by
  obtain ⟨o,holds,rfl | ⟨k,rfl,installed⟩⟩ := Holds.of_installed stack
  · exact ⟨_,holds,by simp⟩
  · refine ⟨_,holds,?_⟩
    rintro n m held ⟨⟩
    simp [held] at installed

theorem Holds.hand {e : Estate} {n : Nat} {m : Mapping} (holds : e.Holds (.call n) m) :
    (e.hands n).mapping = some m := by
  cases holds with
  | call hand => exact hand

def setHand (e : Estate) (n : Nat) (x : Hand) : Estate := { e with hands := replace e.hands n x }

def setStack (e : Estate) (t : ThreadId) (s : Option Holding) : Estate :=
  { e with stacked := replace e.stacked t s }

namespace Exact

variable {e : Estate} (exact_ : e.Exact) {o o' : Holder} {m m' : Mapping}
include exact_

theorem apart_of_ne (here : m ∈ e.live) (there : m' ∈ e.live) (ne : m ≠ m') : m.Apart m' :=
  exact_.apart.forall here there ne

theorem positive (here : m ∈ e.live) : 0 < m.len.toNat :=
  Mapping.positive (exact_.nonempty m here)

theorem apart_of_holders (holds : e.Holds o m) (holds' : e.Holds o' m') (ne : o ≠ o') : m.Apart m' := by
  refine exact_.apart_of_ne (exact_.held holds) (exact_.held holds') ?_
  rintro rfl
  exact ne (exact_.exclusive holds holds')

/-- What is in an operation's hand alone lies apart from every stack. -/
theorem stack_apart {n : Nat} {t : ThreadId} {h : Holding} (held : e.hands n = .held m)
    (stack : e.stacked t = some h) : h.mapping.Apart m := by
  obtain ⟨o,holds,other⟩ := Holds.of_stack stack
  exact exact_.apart_of_holders holds (.call (by rw [held]; rfl)) (other held)

theorem stack_addr_ne {n : Nat} {t : ThreadId} {h : Holding} (held : e.hands n = .held m)
    (stack : e.stacked t = some h) : h.mapping.addr ≠ m.addr := by
  have mine : e.Holds (.call n) m := .call (by rw [held]; rfl)
  obtain ⟨o,holds,-⟩ := Holds.of_stack stack
  exact (exact_.stack_apart held stack).addr_ne (exact_.positive (exact_.held holds))
    (exact_.positive (exact_.held mine))

end Exact

/-- After the change, who holds what held it before, but for one mapping that may have gone from `source`
to `target`. -/
def Moves (e e' : Estate) (source target : Holder) : Prop :=
  ∀ o m, e'.Holds o m → o = target ∧ e.Holds source m ∨ o ≠ source ∧ e.Holds o m

theorem Moves.before {e e' : Estate} {source target o : Holder} {m : Mapping} (moves : e.Moves e' source target)
    (holds : e'.Holds o m) : ∃ o, e.Holds o m := by
  rcases moves o m holds with ⟨-,before⟩ | ⟨-,before⟩
  · exact ⟨_,before⟩
  · exact ⟨_,before⟩

theorem Moves.exclusive {e e' : Estate} {source target o o' : Holder} {m : Mapping}
    (moves : e.Moves e' source target) (exact_ : e.Exact) (holds : e'.Holds o m) (holds' : e'.Holds o' m) :
    o = o' := by
  rcases moves o m holds with ⟨rfl,before⟩ | ⟨other,before⟩
  · rcases moves o' m holds' with ⟨rfl,-⟩ | ⟨other,before'⟩
    · rfl
    · exact absurd (exact_.exclusive before' before) other
  · rcases moves o' m holds' with ⟨rfl,before'⟩ | ⟨-,before'⟩
    · exact absurd (exact_.exclusive before before') other
    · exact exact_.exclusive before before'

variable {e : Estate} {n : Nat} {t : ThreadId} {o : Holder} {m : Mapping}

theorem of_setHand {k : Nat} {x y : Hand} (hand : (e.setHand n x).hands k = y) :
    k = n ∧ x = y ∨ k ≠ n ∧ e.hands k = y := by
  by_cases same : k = n
  · exact .inl ⟨same,by simpa [setHand,same] using hand⟩
  · exact .inr ⟨same,by simpa [setHand,same] using hand⟩

theorem installed_of {k : Nat} {x : Hand} {h : Holding} (plain : ∀ h, x ≠ .installed h)
    (hand : (e.setHand n x).hands k = .installed h) : e.hands k = .installed h := by
  rcases of_setHand hand with ⟨-,clash⟩ | ⟨-,hand⟩
  · exact absurd clash (plain h)
  · exact hand

theorem placed_of {k : Nat} {x : Hand} {addr : UInt64} {h : Handoff} (plain : ∀ a h, x ≠ .placed a h)
    (hand : (e.setHand n x).hands k = .placed addr h) : e.hands k = .placed addr h := by
  rcases of_setHand hand with ⟨-,clash⟩ | ⟨-,hand⟩
  · exact absurd clash (plain addr h)
  · exact hand

theorem of_setStack {t' : ThreadId} {s s' : Option Holding} (stack : (e.setStack t s).stacked t' = s') :
    t' = t ∧ s = s' ∨ t' ≠ t ∧ e.stacked t' = s' := by
  by_cases same : t' = t
  · exact .inl ⟨same,by simpa [setStack,same] using stack⟩
  · exact .inr ⟨same,by simpa [setStack,same] using stack⟩

/-- Who holds what after one hand has changed. -/
theorem holds_setHand {x : Hand} (holds : (e.setHand n x).Holds o m) :
    o = .call n ∧ x.mapping = some m ∨ o ≠ .call n ∧ e.Holds o m ∨
      ∃ t h, o = .stack t ∧ m = h.mapping ∧ e.hands n = .installed h ∧ e.stacked t = some h := by
  cases holds with
  | @call k m hand =>
    by_cases same : k = n
    · subst same
      exact .inl ⟨rfl,by simpa [setHand] using hand⟩
    · exact .inr (.inl ⟨by simpa using same,.call (by simpa [setHand,same] using hand)⟩)
  | @stack t h stack free =>
    by_cases mine : e.hands n = .installed h
    · exact .inr (.inr ⟨t,h,rfl,rfl,mine,stack⟩)
    · refine .inr (.inl ⟨by simp,.stack stack fun k => ?_⟩)
      by_cases same : k = n
      · exact same ▸ mine
      · simpa [setHand,same] using free k
  | record member rests => exact .inr (.inl ⟨by simp,.record member rests⟩)

theorem holds_setStack {s : Option Holding} (holds : (e.setStack t s).Holds o m) :
    (∃ h, o = .stack t ∧ m = h.mapping ∧ s = some h ∧ ∀ n, e.hands n ≠ .installed h) ∨
      o ≠ .stack t ∧ e.Holds o m := by
  cases holds with
  | call hand => exact .inr ⟨by simp,.call hand⟩
  | @stack t' h stack free =>
    rcases of_setStack stack with ⟨rfl,same⟩ | ⟨other,stack⟩
    · exact .inl ⟨h,rfl,rfl,same,free⟩
    · exact .inr ⟨by simpa using other,.stack stack free⟩
  | record member rests => exact .inr ⟨by simp,.record member rests⟩

theorem holds_map {live : List Mapping} {m' : Mapping} (empty : e.hands n = .empty)
    (holds : { e.setHand n (.held m) with live := live : Estate }.Holds o m') :
    o = .call n ∧ m' = m ∨ o ≠ .call n ∧ e.Holds o m' := by
  have now : (e.setHand n (.held m)).Holds o m' := holds.congr rfl rfl rfl rfl
  rcases holds_setHand now with ⟨rfl,hand⟩ | before | ⟨_,_,_,_,mine,_⟩
  · exact .inl ⟨rfl,by simpa [Hand.mapping] using hand.symm⟩
  · exact .inr before
  · simp [empty] at mine

theorem holds_unmap {live : List Mapping} {m' : Mapping} (held : e.hands n = .held m)
    (holds : { e.setHand n .empty with live := live : Estate }.Holds o m') : o ≠ .call n ∧ e.Holds o m' := by
  have now : (e.setHand n .empty).Holds o m' := holds.congr rfl rfl rfl rfl
  rcases holds_setHand now with ⟨-,hand⟩ | before | ⟨_,_,_,_,mine,_⟩
  · cases hand
  · exact before
  · simp [held] at mine

/-- An operation installs what is in its hand and goes on answering for it; what was installed before is lost. -/
theorem moves_install {h : Holding} (held : e.hands n = .held h.mapping) :
    e.Moves ((e.setHand n (.installed h)).setStack t (some h)) (.call n) (.call n) := by
  intro o m holds
  rcases holds_setStack holds with ⟨h',-,-,same,free⟩ | ⟨-,before⟩
  · cases same
    exact absurd (by simp [setHand]) (free n)
  · rcases holds_setHand before with ⟨rfl,hand⟩ | before | ⟨_,_,_,_,mine,_⟩
    · exact .inl ⟨rfl,.call (by rw [held]; exact hand)⟩
    · exact .inr before
    · simp [held] at mine

/-- What is in an operation's hand becomes its thread's. -/
theorem moves_settle {h : Holding} (held : e.hands n = .held h.mapping) :
    e.Moves ((e.setHand n .empty).setStack t (some h)) (.call n) (.stack t) := by
  intro o m holds
  rcases holds_setStack holds with ⟨h',rfl,rfl,same,-⟩ | ⟨-,before⟩
  · cases same
    exact .inl ⟨rfl,.call (by rw [held]; rfl)⟩
  · rcases holds_setHand before with ⟨-,hand⟩ | before | ⟨_,_,_,_,mine,_⟩
    · cases hand
    · exact .inr before
    · simp [held] at mine

/-- The hand after the stack was taken. -/
def taken : Option Holding → Hand
  | some h => .held h.mapping
  | none => .empty

/-- An operation takes the stack of its thread. -/
theorem moves_take (free : ∀ k h, e.stacked t = some h → e.hands k ≠ .installed h)
    (empty : e.hands n = .empty) :
    e.Moves ((e.setHand n (taken (e.stacked t))).setStack t none) (.stack t) (.call n) := by
  intro o m holds
  rcases holds_setStack holds with ⟨_,-,-,clash,-⟩ | ⟨other,before⟩
  · cases clash
  · rcases holds_setHand before with ⟨rfl,hand⟩ | ⟨-,before⟩ | ⟨_,_,_,_,mine,_⟩
    · refine .inl ⟨rfl,?_⟩
      cases stack : e.stacked t with
      | none => simp [stack,taken,Hand.mapping] at hand
      | some h =>
        obtain rfl : h.mapping = m := by simpa [stack,taken,Hand.mapping] using hand
        exact .stack stack fun k => free k h stack
    · exact .inr ⟨other,before⟩
    · simp [empty] at mine

section
variable {e' : Estate} (exact_ : e.Exact)
include exact_

/-- Moving a mapping from one holder to another keeps everything in order. -/
theorem Exact.moved {source target : Holder} (moves : e.Moves e' source target) (live : e'.live = e.live)
    (installed : ∀ {n t h}, e'.hands n = .installed h → e'.stacked t = some h → e'.homes n = t)
    (distinct : e'.records.Nodup)
    (rests : ∀ {call}, call ∈ e'.records → ∃ h : Handoff, h.Rests e'.memory call.arg)
    (placed : ∀ {n addr h}, e'.hands n = .placed addr h → h.Rests e'.memory addr) : e'.Exact where
  apart := live ▸ exact_.apart
  nonempty := live ▸ exact_.nonempty
  held holds := by
    obtain ⟨o,before⟩ := moves.before holds
    exact live ▸ exact_.held before
  exclusive := moves.exclusive exact_
  installed := installed
  distinct := distinct
  rests := rests
  placed := placed

/-- A new mapping comes into an empty hand. -/
theorem Exact.map {m : Mapping} (empty : e.hands n = .empty) (apart : ∀ m' ∈ e.live, m.Apart m')
    (nonempty : m.len ≠ 0) : { e.setHand n (.held m) with live := m :: e.live : Estate }.Exact := by
  have fresh : m ∉ e.live := Mapping.Apart.new apart (Mapping.positive nonempty)
  refine ⟨List.pairwise_cons.mpr ⟨apart,exact_.apart⟩,?_,?_,?_,?_,exact_.distinct,exact_.rests,?_⟩
  · exact List.forall_mem_cons.mpr ⟨nonempty,exact_.nonempty⟩
  · intro o m' holds
    rcases holds_map empty holds with ⟨-,rfl⟩ | ⟨-,before⟩
    · exact List.mem_cons_self
    · exact List.mem_cons_of_mem _ (exact_.held before)
  · intro o o' m' holds holds'
    rcases holds_map empty holds with ⟨rfl,rfl⟩ | ⟨-,before⟩
    · rcases holds_map empty holds' with ⟨rfl,-⟩ | ⟨-,before'⟩
      · rfl
      · exact absurd (exact_.held before') fresh
    · rcases holds_map empty holds' with ⟨-,rfl⟩ | ⟨-,before'⟩
      · exact absurd (exact_.held before) fresh
      · exact exact_.exclusive before before'
  · exact fun hand stack => exact_.installed (installed_of (by simp) hand) stack
  · exact fun hand => exact_.placed (placed_of (by simp) hand)

/-- What is unmapped is in one hand and nowhere else. -/
theorem Exact.unmap {m : Mapping} (held : e.hands n = .held m) :
    { e.setHand n .empty with live := e.live.filter (· ≠ m) : Estate }.Exact := by
  refine ⟨exact_.apart.filter _,?_,?_,?_,?_,exact_.distinct,exact_.rests,?_⟩
  · exact fun m' member => exact_.nonempty m' (List.mem_filter.mp member).1
  · intro o m' holds
    obtain ⟨other,before⟩ := holds_unmap held holds
    refine List.mem_filter.mpr ⟨exact_.held before,?_⟩
    -- The call that unmaps is the only holder of what it unmaps.
    rw [decide_eq_true_eq]
    rintro rfl
    exact other (exact_.exclusive before (.call (by rw [held]; rfl)))
  · exact fun holds holds' => exact_.exclusive (holds_unmap held holds).2 (holds_unmap held holds').2
  · exact fun hand stack => exact_.installed (installed_of (by simp) hand) stack
  · exact fun hand => exact_.placed (placed_of (by simp) hand)

section
variable {h : Holding} (held : e.hands n = .held h.mapping)
include held

theorem Exact.not_installed (k : Nat) : e.hands k ≠ .installed h := by
  intro installed
  have same := exact_.exclusive (.call (by rw [held]; rfl)) (.call (m := h.mapping) (by rw [installed]; rfl))
  simp only [Holder.call.injEq] at same
  subst same
  simp [held] at installed

theorem Exact.not_stacked (t : ThreadId) : e.stacked t ≠ some h := by
  intro stack
  have same := exact_.exclusive (.stack stack (exact_.not_installed held)) (.call (by rw [held]; rfl))
  cases same

theorem Exact.install (home : e.homes n = t) :
    ((e.setHand n (.installed h)).setStack t (some h)).Exact := by
  refine exact_.moved (moves_install held) rfl ?_ exact_.distinct exact_.rests ?_
  · intro k t' h' hand stack
    rcases of_setHand (e := e) hand with ⟨rfl,same⟩ | ⟨-,hand⟩
    · cases same
      rcases of_setStack stack with ⟨rfl,-⟩ | ⟨-,stack⟩
      · exact home
      · exact absurd stack (exact_.not_stacked held t')
    · rcases of_setStack stack with ⟨-,same⟩ | ⟨-,stack⟩
      · cases same
        exact absurd hand (exact_.not_installed held k)
      · exact exact_.installed hand stack
  · exact fun hand => exact_.placed (placed_of (by simp) hand)

theorem Exact.settle : ((e.setHand n .empty).setStack t (some h)).Exact := by
  refine exact_.moved (moves_settle held) rfl ?_ exact_.distinct exact_.rests ?_
  · intro k t' h' hand stack
    rcases of_setHand (e := e) hand with ⟨-,clash⟩ | ⟨-,hand⟩
    · cases clash
    · rcases of_setStack stack with ⟨-,same⟩ | ⟨-,stack⟩
      · cases same
        exact absurd hand (exact_.not_installed held k)
      · exact exact_.installed hand stack
  · exact fun hand => exact_.placed (placed_of (by simp) hand)

end

section
variable {h : Holding} (installed : e.hands n = .installed h)
include installed

/-- An operation takes back what it has installed. -/
theorem Exact.moves_detach (home : e.homes n = t) :
    e.Moves ((e.setHand n (.held h.mapping)).setStack t none) (.call n) (.call n) := by
  intro o m holds
  rcases holds_setStack holds with ⟨h',-,-,clash,-⟩ | ⟨other,before⟩
  · cases clash
  · rcases holds_setHand before with ⟨rfl,hand⟩ | before | ⟨t',h',rfl,rfl,mine,stack⟩
    · exact .inl ⟨rfl,.call (by rw [installed]; exact hand)⟩
    · exact .inr before
    · exact absurd (congrArg Holder.stack ((exact_.installed mine stack).symm.trans home)) other

theorem Exact.detach (home : e.homes n = t) : ((e.setHand n (.held h.mapping)).setStack t none).Exact := by
  refine exact_.moved (exact_.moves_detach installed home) rfl ?_ exact_.distinct exact_.rests ?_
  · intro k t' h' hand stack
    rcases of_setHand (e := e) hand with ⟨-,clash⟩ | ⟨-,hand⟩
    · cases clash
    · rcases of_setStack stack with ⟨-,clash⟩ | ⟨-,stack⟩
      · cases clash
      · exact exact_.installed hand stack
  · exact fun hand => exact_.placed (placed_of (by simp) hand)

/-- An operation finds that what it had installed was replaced. -/
theorem Exact.moves_lose (replaced : e.stacked (e.homes n) ≠ some h) :
    e.Moves (e.setHand n (.held h.mapping)) (.call n) (.call n) := by
  intro o m holds
  rcases holds_setHand holds with ⟨rfl,hand⟩ | before | ⟨t',h',rfl,rfl,mine,stack⟩
  · exact .inl ⟨rfl,.call (by rw [installed]; exact hand)⟩
  · exact .inr before
  · obtain rfl := exact_.installed mine stack
    rw [installed] at mine
    cases mine
    exact absurd stack replaced

theorem Exact.lose (replaced : e.stacked (e.homes n) ≠ some h) : (e.setHand n (.held h.mapping)).Exact := by
  refine exact_.moved (exact_.moves_lose installed replaced) rfl ?_ exact_.distinct exact_.rests ?_
  · exact fun hand stack => exact_.installed (installed_of (by simp) hand) stack
  · exact fun hand => exact_.placed (placed_of (by simp) hand)

end

/-- An operation leaves what it has installed to its thread. -/
theorem Exact.moves_keep : e.Moves (e.setHand n .empty) (.call n) (.stack (e.homes n)) := by
  intro o m holds
  rcases holds_setHand holds with ⟨-,hand⟩ | before | ⟨t',h',rfl,rfl,mine,stack⟩
  · cases hand
  · exact .inr before
  · obtain rfl := exact_.installed mine stack
    exact .inl ⟨rfl,.call (by rw [mine]; rfl)⟩

theorem Exact.keep : (e.setHand n .empty).Exact := by
  refine exact_.moved exact_.moves_keep rfl ?_ exact_.distinct exact_.rests ?_
  · exact fun hand stack => exact_.installed (installed_of (by simp) hand) stack
  · exact fun hand => exact_.placed (placed_of (by simp) hand)

theorem Exact.take (free : ∀ k h, e.stacked t = some h → e.hands k ≠ .installed h) (empty : e.hands n = .empty) :
    ((e.setHand n (taken (e.stacked t))).setStack t none).Exact := by
  refine exact_.moved (moves_take free empty) rfl ?_ exact_.distinct exact_.rests ?_
  · intro k t' h hand stack
    rcases of_setHand (e := e) hand with ⟨-,clash⟩ | ⟨-,hand⟩
    · cases held : e.stacked t <;> simp [held,taken] at clash
    · rcases of_setStack stack with ⟨-,clash⟩ | ⟨-,stack⟩
      · cases clash
      · exact exact_.installed hand stack
  · intro k addr h hand
    rcases of_setHand (e := e) hand with ⟨-,clash⟩ | ⟨-,hand⟩
    · cases held : e.stacked t <;> simp [held,taken] at clash
    · exact exact_.placed hand

section
variable {g : Handoff} {addr : UInt64} {bytes : List UInt8} {x : Hand}

/-- An operation writes into what is in its hand, where no record of another holder lies. -/
theorem Exact.rests_store (hand : (e.hands n).mapping = some g.mapping) (sits : g.Sits addr)
    (fits : bytes.length = Handoff.size.toNat) {other : UInt64} {h : Handoff} (holds : e.Holds o h.mapping)
    (ne : o ≠ .call n) (rests : h.Rests e.memory other) : h.Rests (e.memory.store addr bytes) other :=
  rests.store sits fits (exact_.apart_of_holders holds (.call hand) ne)

theorem Exact.moves_write (hand : (e.hands n).mapping = some g.mapping) (same : x.mapping = some g.mapping)
    (free : ∀ h, e.hands n ≠ .installed h) (sits : g.Sits addr) (fits : bytes.length = Handoff.size.toNat) :
    e.Moves { e.setHand n x with memory := e.memory.store addr bytes } (.call n) (.call n) := by
  intro o m holds
  have hands {o m} (holds : (e.setHand n x).Holds o m) :
      o = .call n ∧ e.Holds (.call n) m ∨ o ≠ .call n ∧ e.Holds o m := by
    rcases holds_setHand holds with ⟨rfl,mine⟩ | before | ⟨_,h,_,_,mine,_⟩
    · exact .inl ⟨rfl,.call (hand.trans (same.symm.trans mine))⟩
    · exact .inr before
    · exact absurd mine (free h)
  cases holds with
  | call mine => exact hands (.call mine)
  | stack stack free => exact hands (.stack stack free)
  | @record call h member rests =>
    obtain ⟨h',before⟩ := exact_.rests member
    obtain rfl := rests.unique (exact_.rests_store hand sits fits (.record member before) (by simp) before)
    exact .inr ⟨by simp,.record member before⟩

theorem Exact.write (hand : (e.hands n).mapping = some g.mapping) (same : x.mapping = some g.mapping)
    (free : ∀ h, e.hands n ≠ .installed h) (sits : g.Sits addr) (fits : bytes.length = Handoff.size.toNat)
    (loose : ∀ h, x ≠ .installed h)
    (written : ∀ a h, x = .placed a h → h.Rests (e.memory.store addr bytes) a) :
    { e.setHand n x with memory := e.memory.store addr bytes : Estate }.Exact := by
  refine exact_.moved (exact_.moves_write hand same free sits fits) rfl ?_ exact_.distinct ?_ ?_
  · intro k t' h mine stack
    rcases of_setHand (e := e) mine with ⟨-,clash⟩ | ⟨-,mine⟩
    · exact absurd clash (loose h)
    · exact exact_.installed mine stack
  · intro call member
    obtain ⟨h,before⟩ := exact_.rests member
    exact ⟨h,exact_.rests_store hand sits fits (.record member before) (by simp) before⟩
  · intro k a h mine
    rcases of_setHand (e := e) mine with ⟨-,new⟩ | ⟨other,mine⟩
    · exact written a h new
    · exact exact_.rests_store hand sits fits (.call (n := k) (by rw [mine]; rfl)) (by simpa using other)
        (exact_.placed mine)

end

section
variable {call : SpawnCall} {h : Handoff}

/-- The host accepts a record, which from then on stands for itself. -/
theorem Exact.moves_accept (placed : e.hands n = .placed call.arg h) :
    e.Moves { e.setHand n .empty with records := call :: e.records } (.call n) (.record call) := by
  intro o m holds
  have hands {o m} (holds : (e.setHand n .empty).Holds o m) : o ≠ .call n ∧ e.Holds o m := by
    rcases holds_setHand holds with ⟨-,hand⟩ | before | ⟨_,_,_,_,mine,_⟩
    · cases hand
    · exact before
    · simp [placed] at mine
  cases holds with
  | call mine => exact .inr (hands (.call mine))
  | stack stack free => exact .inr (hands (.stack stack free))
  | @record call' h' member rests =>
    rcases List.mem_cons.mp member with rfl | old
    · obtain rfl := rests.unique (exact_.placed placed)
      exact .inl ⟨rfl,.call (by rw [placed]; rfl)⟩
    · exact .inr ⟨by simp,.record old rests⟩

theorem Exact.accept (placed : e.hands n = .placed call.arg h) :
    { e.setHand n .empty with records := call :: e.records : Estate }.Exact := by
  have fresh : call ∉ e.records := fun old => by
    have same := exact_.exclusive (.record old (exact_.placed placed)) (.call (n := n) (by rw [placed]; rfl))
    cases same
  refine exact_.moved (exact_.moves_accept placed) rfl ?_ (List.nodup_cons.mpr ⟨fresh,exact_.distinct⟩) ?_ ?_
  · exact fun hand stack => exact_.installed (installed_of (by simp) hand) stack
  · intro call' member
    rcases List.mem_cons.mp member with rfl | old
    · exact ⟨h,exact_.placed placed⟩
    · exact exact_.rests old
  · exact fun hand => exact_.placed (placed_of (by simp) hand)

/-- A new thread begins with the record that it was accepted for. -/
theorem Exact.moves_begin (empty : e.hands n = .empty) (rests : h.Rests e.memory call.arg)
    (member : call ∈ e.records) :
    e.Moves { e.setHand n (.placed call.arg h) with
      records := e.records.erase call, homes := replace e.homes n t } (.record call) (.call n) := by
  intro o m holds
  have hands {o m} (holds : (e.setHand n (.placed call.arg h)).Holds o m) :
      o = .call n ∧ m = h.mapping ∨ o ≠ .call n ∧ e.Holds o m := by
    rcases holds_setHand holds with ⟨rfl,hand⟩ | before | ⟨_,_,_,_,mine,_⟩
    · exact .inl ⟨rfl,by simpa [Hand.mapping] using hand.symm⟩
    · exact .inr before
    · simp [empty] at mine
  cases holds with
  | call mine =>
    rcases hands (.call mine) with ⟨same,rfl⟩ | ⟨-,before⟩
    · exact .inl ⟨same,.record member rests⟩
    · exact .inr ⟨by simp,before⟩
  | stack stack free =>
    rcases hands (.stack stack free) with ⟨clash,-⟩ | ⟨-,before⟩
    · cases clash
    · exact .inr ⟨by simp,before⟩
  | record left rests' =>
    obtain ⟨other,old⟩ := exact_.distinct.mem_erase_iff.mp left
    exact .inr ⟨by simpa using other,.record old rests'⟩

theorem Exact.begin (empty : e.hands n = .empty) (rests : h.Rests e.memory call.arg) (member : call ∈ e.records) :
    { e.setHand n (.placed call.arg h) with
      records := e.records.erase call, homes := replace e.homes n t : Estate }.Exact := by
  refine exact_.moved (exact_.moves_begin empty rests member) rfl ?_ (exact_.distinct.erase _) ?_ ?_
  · intro k t' h' hand stack
    rcases of_setHand (e := e) hand with ⟨-,clash⟩ | ⟨other,hand⟩
    · cases clash
    · simpa [other] using exact_.installed hand stack
  · exact fun left => exact_.rests (List.mem_of_mem_erase left)
  · intro k addr h' hand
    rcases of_setHand (e := e) hand with ⟨rfl,same⟩ | ⟨-,hand⟩
    · cases same
      exact rests
    · exact exact_.placed hand

end

/-- An operation that has nothing begins. -/
theorem Exact.enter (empty : e.hands n = .empty) : { e with homes := replace e.homes n t : Estate }.Exact := by
  have moves : e.Moves { e with homes := replace e.homes n t } (.call n) (.call n) := by
    intro o m holds
    by_cases mine : o = .call n
    · exact .inl ⟨mine,mine ▸ holds.congr rfl rfl rfl rfl⟩
    · exact .inr ⟨mine,holds.congr rfl rfl rfl rfl⟩
  refine exact_.moved moves rfl ?_ exact_.distinct exact_.rests exact_.placed
  · intro k t' h hand stack
    have other : k ≠ n := by
      rintro rfl
      simp [empty] at hand
    simpa [other] using exact_.installed hand stack

end

/-- All that one answered request of the operation `n` on the thread `t` can do to an estate. Runtimes in `ready`
are ready by then. -/
inductive Deed (ready : RuntimeId → Prop) (c : Custody) (n : Nat) (t : ThreadId) (e : Estate) : Estate → Prop
  | rest : Deed ready c n t e e
  | map {m : Mapping} : e.hands n = .empty → (∀ m' ∈ e.live, m.Apart m') → m.len ≠ 0 →
      Deed ready c n t e { e.setHand n (.held m) with live := m :: e.live }
  | unmap {m : Mapping} : e.hands n = .held m →
      Deed ready c n t e { e.setHand n .empty with live := e.live.filter (· ≠ m) }
  | install {h : Holding} : c.role = .starting h.owner false → e.hands n = .held h.mapping → e.homes n = t →
      Deed ready c n t e ((e.setHand n (.installed h)).setStack t (some h))
  | settle {h : Holding} : c.role = .arriving h → ready h.owner → e.stacked t = none → e.hands n = .held h.mapping →
      Deed ready c n t e ((e.setHand n .empty).setStack t (some h))
  | detach {h : Holding} : e.hands n = .installed h → e.homes n = t →
      Deed ready c n t e ((e.setHand n (.held h.mapping)).setStack t none)
  | lose {h : Holding} : e.hands n = .installed h → e.stacked (e.homes n) ≠ some h →
      Deed ready c n t e (e.setHand n (.held h.mapping))
  | take {value : UInt64} : c.role = .passing value → destructorRounds ≤ value →
      (∀ k h, e.stacked t = some h → e.hands k ≠ .installed h) → e.hands n = .empty →
      Deed ready c n t e ((e.setHand n (taken (e.stacked t))).setStack t none)
  | keep {h : Holding} : c.role = .starting h.owner true → ready h.owner → e.hands n = .installed h →
      Deed ready c n t e (e.setHand n .empty)
  | place {addr : UInt64} {h : Handoff} : ready h.runtime → e.hands n = .held h.mapping → h.Sits addr →
      Deed ready c n t e { e.setHand n (.placed addr h) with memory := e.memory.store addr h.encode }
  | blank {addr : UInt64} {h : Handoff} : e.hands n = .placed addr h →
      Deed ready c n t e { e.setHand n (.held h.mapping) with memory := e.memory.store addr Handoff.blank }
  | accept {call : SpawnCall} {h : Handoff} : e.hands n = .placed call.arg h →
      Deed ready c n t e { e.setHand n .empty with records := call :: e.records }

/-- A thread or a record comes to hold what was in the operation's hand. -/
inductive Gain (ready : RuntimeId → Prop) (c : Custody) (n : Nat) (t : ThreadId) (e e' : Estate) :
    Holder → Mapping → Prop
  | settle {h : Holding} : c.role = .arriving h → ready h.owner → Gain ready c n t e e' (.stack t) h.mapping
  | keep {h : Holding} : c.role = .starting h.owner true → ready h.owner → e.hands n = .installed h →
      e'.hands n = .empty → Gain ready c n t e e' (.stack (e.homes n)) h.mapping
  | accept {call : SpawnCall} {h : Handoff} : e.hands n = .placed call.arg h →
      Gain ready c n t e e' (.record call) h.mapping

/-- Every runtime that a stack or a record names is ready. -/
structure Pledged (e : Estate) (ready : RuntimeId → Prop) : Prop where
  stack : ∀ {t m}, e.Holds (.stack t) m → ready m.runtime
  record : ∀ {call m}, e.Holds (.record call) m → ready m.runtime
  placed : ∀ {n addr h}, e.hands n = .placed addr h → ready h.runtime

theorem Pledged.mono {ready ready' : RuntimeId → Prop} (pledged : e.Pledged ready)
    (weaker : ∀ rt, ready rt → ready' rt) : e.Pledged ready' where
  stack holds := weaker _ (pledged.stack holds)
  record holds := weaker _ (pledged.record holds)
  placed hand := weaker _ (pledged.placed hand)

namespace Deed

variable {ready : RuntimeId → Prop} {c : Custody} {e' : Estate} (deed : Deed ready c n t e e')
include deed

theorem exact (exact_ : e.Exact) : e'.Exact := by
  cases deed with
  | rest => exact exact_
  | map empty apart nonempty => exact exact_.map empty apart nonempty
  | unmap held => exact exact_.unmap held
  | install _ held home => exact exact_.install held home
  | settle _ _ _ held => exact exact_.settle held
  | detach installed home => exact exact_.detach installed home
  | lose installed replaced => exact exact_.lose installed replaced
  | take _ _ free empty => exact exact_.take free empty
  | keep => exact exact_.keep
  | place _ held sits =>
    exact exact_.write (by rw [held]; rfl) rfl (by simp [held]) sits (Handoff.length_encode _) (by simp)
      (by rintro _ _ ⟨⟩; exact sits.rests _)
  | blank placed =>
    exact exact_.write (by rw [placed]; rfl) rfl (by simp [placed]) (exact_.placed placed).sits (by simp [Handoff.blank])
      (by simp) (by simp)
  | accept placed => exact exact_.accept placed

/-- What comes to a thread or a record came from the operation. -/
theorem holds (exact_ : e.Exact) (holds : e'.Holds o m) :
    o = .call n ∨ e.Holds o m ∨ Gain ready c n t e e' o m := by
  have kept {source : Holder} (moves : e.Moves e' source (.call n)) :
      o = .call n ∨ e.Holds o m ∨ Gain ready c n t e e' o m := by
    rcases moves o m holds with ⟨same,-⟩ | ⟨-,before⟩
    · exact .inl same
    · exact .inr (.inl before)
  cases deed with
  | rest => exact .inr (.inl holds)
  | map empty => exact (holds_map empty holds).imp And.left fun before => .inl before.2
  | unmap held => exact .inr (.inl (holds_unmap held holds).2)
  | install _ held => exact kept (moves_install held)
  | detach installed home => exact kept (exact_.moves_detach installed home)
  | lose installed replaced => exact kept (exact_.moves_lose installed replaced)
  | take _ _ free empty => exact kept (moves_take free empty)
  | place _ held sits =>
    exact kept (exact_.moves_write (by rw [held]; rfl) rfl (by simp [held]) sits (Handoff.length_encode _))
  | blank placed =>
    exact kept (exact_.moves_write (by rw [placed]; rfl) rfl (by simp [placed]) (exact_.placed placed).sits
      (by simp [Handoff.blank]))
  | settle role ready _ held =>
    rcases moves_settle held o m holds with ⟨rfl,before⟩ | ⟨-,before⟩
    · have hand := before.hand
      rw [held] at hand
      cases hand
      exact .inr (.inr (.settle role ready))
    · exact .inr (.inl before)
  | keep role ready installed =>
    rcases exact_.moves_keep o m holds with ⟨rfl,before⟩ | ⟨-,before⟩
    · have hand := before.hand
      rw [installed] at hand
      cases hand
      exact .inr (.inr (.keep role ready installed (by simp [setHand])))
    · exact .inr (.inl before)
  | accept placed =>
    rcases exact_.moves_accept placed o m holds with ⟨rfl,before⟩ | ⟨-,before⟩
    · have hand := before.hand
      rw [placed] at hand
      cases hand
      exact .inr (.inr (.accept placed))
    · exact .inr (.inl before)

theorem pledged (exact_ : e.Exact) (pledged : e.Pledged ready) : e'.Pledged ready where
  stack holds := by
    rcases deed.holds exact_ holds with clash | before | gain
    · cases clash
    · exact pledged.stack before
    · cases gain with
      | settle _ ready | keep _ ready => exact ready
  record holds := by
    rcases deed.holds exact_ holds with clash | before | gain
    · cases clash
    · exact pledged.record before
    · cases gain with
      | accept placed => exact pledged.placed placed
  placed {k addr h} hand := by
    cases deed with
    | rest => exact pledged.placed hand
    | @place addr' h' ready =>
      rcases of_setHand (e := e) hand with ⟨-,new⟩ | ⟨-,hand⟩
      · cases new
        exact ready
      · exact pledged.placed hand
    | take =>
      refine pledged.placed (placed_of (e := e) ?_ hand)
      intro _ _
      unfold taken
      split <;> simp
    | _ => exact pledged.placed (placed_of (e := e) (by simp) hand)

end Deed
end Estate
end GuardedStack
