import GuardedStack.Image
import GuardedStack.Proofs.Layout
import GuardedStack.Spawn

/-! Many records on their way at once. Each is placed into its own region and taken from there later, one request at a
time and in any order among the others. Every record arrives as it was sent, and nothing else in memory changes. -/
namespace GuardedStack

namespace Handoff

/-- The record's region has room for it, and its place is aligned. -/
structure Roomy (h : Handoff) : Prop where
  fits : h.region.Fits
  large : size ≤ h.region.usable
  aligned : h.region.top % alignment = 0

/-- Where the record goes. -/
def spot (h : Handoff) : UInt64 := h.region.top - size

/-- The bytes right below the top of the region, as many as a record has. -/
def Occupies (h : Handoff) (a : UInt64) : Prop :=
  h.region.top.toNat - size.toNat ≤ a.toNat ∧ a.toNat < h.region.top.toNat

@[simp] theorem size_toNat : size.toNat = 48 := rfl

namespace Roomy

variable {h g : Handoff} {a : UInt64} (roomy : h.Roomy)
include roomy

theorem room : h.region.start.toNat + h.region.guard.toNat + 48 ≤ h.region.top.toNat := by
  have large := UInt64.le_iff_toNat_le.mp roomy.large
  have top := roomy.fits.top_toNat
  simp only [size_toNat] at large
  omega

theorem size_le_top : size ≤ h.region.top := by
  have room := roomy.room
  exact UInt64.le_iff_toNat_le.mpr (by simp only [size_toNat]; omega)

theorem spot_toNat : h.spot.toNat + 48 = h.region.top.toNat := by
  have room := roomy.room
  rw [spot,UInt64.toNat_sub_of_le _ _ roomy.size_le_top,size_toNat]
  omega

/-- The record's bytes are those from its spot on. -/
theorem occupies_iff : h.Occupies a ↔ (a - h.spot).toNat < 48 := by
  have spot := roomy.spot_toNat
  have top := h.region.top.toNat_lt
  have bound := a.toNat_lt
  have offset := UInt64.toNat_sub a h.spot
  simp only [Occupies,size_toNat]
  omega

theorem usable (occupies : h.Occupies a) : h.region.contains a = .ok true := by
  have room := roomy.room
  have base := roomy.fits.base_toNat
  obtain ⟨low,high⟩ := occupies
  have above : h.region.base ≤ a := UInt64.le_iff_toNat_le.mpr (by simp only [size_toNat] at low; omega)
  rw [roomy.fits.contains_eq]
  simp [above,UInt64.lt_iff_toNat_lt.mpr high]

/-- The record's bytes are in the mapping of its own region. -/
theorem covered (occupies : h.Occupies a) : h.mapping.Covers a.toNat := by
  have room := roomy.room
  have top := roomy.fits.top_toNat
  obtain ⟨low,high⟩ := occupies
  refine ⟨?_,?_⟩
  · simp only [Region.mapping]
    simp only [size_toNat] at low
    omega
  · rw [roomy.fits.finish_mapping]
    omega

theorem guard_covered (guarded : h.region.inGuard a = true) : h.mapping.Covers a.toNat := by
  have base := roomy.fits.base_toNat
  obtain ⟨low,high⟩ : h.region.start ≤ a ∧ a < h.region.base := by simpa [Region.inGuard] using guarded
  have low := UInt64.le_iff_toNat_le.mp low
  have high := UInt64.lt_iff_toNat_lt.mp high
  refine ⟨low,?_⟩
  rw [roomy.fits.finish_mapping]
  omega

theorem outside_guard (occupies : h.Occupies a) : h.region.inGuard a = false := by
  have room := roomy.room
  have base := roomy.fits.base_toNat
  have low := occupies.1
  have above : ¬a < h.region.base := by
    intro below
    have below := UInt64.lt_iff_toNat_lt.mp below
    simp only [size_toNat] at low
    omega
  simp [Region.inGuard,above]

/-- There is one request to place a record. -/
theorem place_run : (place h).run = .ask (.state (.store h.spot h.encode)) fun _ => .done (.ok h.spot) := by
  have large : ¬h.region.usable < size := UInt64.not_lt.mpr roomy.large
  have inside : Checked.subtract h.region.top size = .ok h.spot :=
    Checked.subtract_eq_ok_iff.mpr ⟨roomy.size_le_top,rfl⟩
  have aligned : h.spot % alignment = 0 := by
    apply UInt64.toNat_inj.mp
    have spot := roomy.spot_toNat
    have top := congrArg UInt64.toNat roomy.aligned
    simp only [UInt64.toNat_mod,show alignment.toNat = 8 from rfl,UInt64.toNat_zero] at top ⊢
    omega
  unfold place slot
  rw [if_neg large,inside]
  show (if h.spot % alignment = 0 then _ else _ : Attempt UInt64) >>= _ = _
  rw [if_pos aligned]
  rfl

end Roomy

/-- Other records' bytes are none of this record's. -/
theorem Occupies.apart {h g : Handoff} {a : UInt64} (mine : h.Occupies a) (roomy : h.Roomy) (other : g.Roomy)
    (apart : h.mapping.Apart g.mapping) : ¬g.Occupies a :=
  fun theirs => apart a.toNat ⟨roomy.covered mine,other.covered theirs⟩

end Handoff

/-- Bytes that did not change are loaded as before. -/
theorem Memory.load_congr {m m' : Memory} {addr : UInt64} {count : Nat}
    (same : ∀ a, (a - addr).toNat < count → m' a = m a) (fits : count ≤ UInt64.size) :
    m'.load addr count = m.load addr count := by
  simp only [load,List.map_inj_left,List.mem_range]
  intro i inside
  refine same _ ?_
  rwa [UInt64.add_comm,UInt64.add_sub_cancel,UInt64.toNat_ofNat_of_lt' (by omega)]

/-- A byte of a run that is blank. -/
theorem Memory.eq_zero_of_load_blank {m : Memory} {addr a : UInt64} (blank : m.load addr 48 = Handoff.blank)
    (inside : (a - addr).toNat < 48) : m a = 0 := by
  have place : addr + (a - addr) = a := by rw [UInt64.add_comm,UInt64.sub_add_cancel]
  have byte : (m.load addr 48)[(a - addr).toNat]? = some (m a) := by
    simp [load,List.getElem?_range inside,place]
  rw [blank,Handoff.blank,List.getElem?_replicate] at byte
  simpa [inside] using byte.symm

/-- How far a record is on its way. -/
inductive Parcel where
  | waiting
  | placing (rest : Program (Except Fault UInt64))
  | placed (addr : UInt64)
  | taking (rest : Program Handoff)
  | taken (result : Handoff)

structure Post (ι : Type) where
  image : Image
  parcels : ι → Parcel

namespace Post

variable {ι : Type} [DecidableEq ι]

def put (p : Post ι) (i : ι) (parcel : Parcel) : Post ι := { p with parcels := replace p.parcels i parcel }

/-- One thread does the next step of one record's way. What cannot go on, stays. -/
def advance (records : ι → Handoff) (turn : ι × ThreadId) (p : Post ι) : Post ι :=
  let (i,t) := turn
  match p.parcels i with
  | .waiting => p.put i (.placing (records i).place.run)
  | .placing (.ask (.state call) next) =>
    { p with image := (p.image.answer t call).2 }.put i (.placing (next (p.image.answer t call).1))
  | .placing (.done (.ok addr)) => p.put i (.placed addr)
  | .placed addr => p.put i (.taking (Handoff.take addr))
  | .taking (.ask (.state call) next) =>
    { p with image := (p.image.answer t call).2 }.put i (.taking (next (p.image.answer t call).1))
  | .taking (.done result) => p.put i (.taken result)
  | _ => p

def execute (records : ι → Handoff) : List (ι × ThreadId) → Post ι → Post ι
  | [], p => p
  | turn :: schedule, p => execute records schedule (p.advance records turn)

/-- Nothing has been placed. -/
def initial (image : Image) : Post ι := ⟨image,fun _ => .waiting⟩

/-- What a record's bytes are at each stage of its way, by the steps that it has made. -/
inductive Fate (h : Handoff) (before now : Memory) : Nat → Parcel → Prop
  | waiting : (∀ a, h.Occupies a → now a = before a) → Fate h before now 0 .waiting
  | writing : (∀ a, h.Occupies a → now a = before a) → Fate h before now 1 (.placing (Handoff.place h).run)
  | written : now.load h.spot 48 = h.encode → Fate h before now 2 (.placing (.done (.ok h.spot)))
  | placed : now.load h.spot 48 = h.encode → Fate h before now 3 (.placed h.spot)
  | reading : now.load h.spot 48 = h.encode → Fate h before now 4 (.taking (Handoff.take h.spot))
  | blanking : now.load h.spot 48 = h.encode →
      Fate h before now 5 (.taking (.ask (.state (.store h.spot Handoff.blank)) fun _ => .done h))
  | blank : now.load h.spot 48 = Handoff.blank → Fate h before now 6 (.taking (.done h))
  | taken : now.load h.spot 48 = Handoff.blank → Fate h before now 7 (.taken h)

theorem Fate.congr {h : Handoff} {before now now' : Memory} {steps : Nat} {parcel : Parcel}
    (fate : Fate h before now steps parcel) (roomy : h.Roomy) (same : ∀ a, h.Occupies a → now' a = now a) :
    Fate h before now' steps parcel := by
  have loads : now'.load h.spot 48 = now.load h.spot 48 :=
    Memory.load_congr (fun a inside => same a (roomy.occupies_iff.mpr inside)) (by decide)
  cases fate with
  | waiting still => exact .waiting fun a mine => (same a mine).trans (still a mine)
  | writing still => exact .writing fun a mine => (same a mine).trans (still a mine)
  | written bytes => exact .written (loads.trans bytes)
  | placed bytes => exact .placed (loads.trans bytes)
  | reading bytes => exact .reading (loads.trans bytes)
  | blanking bytes => exact .blanking (loads.trans bytes)
  | blank bytes => exact .blank (loads.trans bytes)
  | taken bytes => exact .taken (loads.trans bytes)

/-- After as many steps of each record as `turns` says. -/
structure Invariant (records : ι → Handoff) (before : Memory) (turns : ι → Nat) (p : Post ι) : Prop where
  fates : ∀ i, Fate (records i) before p.image.memory (min (turns i) 7) (p.parcels i)
  frame : ∀ a, (∀ i, ¬(records i).Occupies a) → p.image.memory a = before a

omit [DecidableEq ι] in
theorem initial_invariant (records : ι → Handoff) (image : Image) :
    Invariant records image.memory (fun _ => 0) (initial image) where
  fates _ := .waiting fun _ _ => rfl
  frame _ _ := rfl

variable {records : ι → Handoff} {before : Memory} {turns : ι → Nat} {p : Post ι} {i : ι} {steps : Nat}
  {parcel : Parcel}

/-- A step that leaves memory alone. -/
theorem Invariant.put (invariant : Invariant records before turns p) (count : min (turns i + 1) 7 = steps)
    (fate : Fate (records i) before p.image.memory steps parcel) :
    Invariant records before (replace turns i (turns i + 1)) (p.put i parcel) where
  fates j := by
    by_cases same : j = i
    · subst same
      simpa [Post.put,count] using fate
    · simpa [Post.put,same] using invariant.fates j
  frame := invariant.frame

section
variable (roomy : ∀ i, (records i).Roomy) (apart : ∀ i j, i ≠ j → (records i).mapping.Apart (records j).mapping)
include roomy apart

/-- A step that writes the bytes of its own record. -/
theorem Invariant.store (invariant : Invariant records before turns p) {t : ThreadId} {bytes : List UInt8}
    (whole : bytes.length = 48) (count : min (turns i + 1) 7 = steps)
    (fate : ∀ now : Memory, now.load (records i).spot 48 = bytes → Fate (records i) before now steps parcel) :
    Invariant records before (replace turns i (turns i + 1))
      ({ p with image := (p.image.answer t (.store (records i).spot bytes)).2 }.put i parcel) := by
  have elsewhere {a} (other : ¬(records i).Occupies a) :
      p.image.memory.store (records i).spot bytes a = p.image.memory a := by
    refine p.image.memory.store_outside ?_
    rw [whole]
    exact Nat.le_of_not_lt (mt (roomy i).occupies_iff.mpr other)
  constructor
  · intro j
    by_cases same : j = i
    · subst same
      have stored : (p.image.memory.store (records j).spot bytes).load (records j).spot bytes.length = bytes :=
        p.image.memory.load_store _ (by rw [whole]; decide)
      rw [whole] at stored
      simpa [Post.put,Image.answer,count] using fate _ stored
    · have kept := (invariant.fates j).congr (roomy j) fun a mine =>
        elsewhere (mine.apart (roomy j) (roomy i) (apart j i same))
      simpa [Post.put,Image.answer,same] using kept
  · intro a none
    exact (elsewhere (none i)).trans (invariant.frame a none)

theorem Invariant.advance (invariant : Invariant records before turns p) (turn : ι × ThreadId) :
    Invariant records before (replace turns turn.1 (turns turn.1 + 1)) (p.advance records turn) := by
  obtain ⟨i,t⟩ := turn
  have fate := invariant.fates i
  unfold Post.advance
  dsimp only
  generalize stage : p.parcels i = parcel at fate ⊢
  generalize count : min (turns i) 7 = steps at fate
  cases fate with
  | waiting still => exact invariant.put (by omega) (.writing still)
  | writing still =>
    rw [(roomy i).place_run]
    exact invariant.store roomy apart ((records i).length_encode) (by omega) fun _ bytes => .written bytes
  | written bytes => exact invariant.put (by omega) (.placed bytes)
  | placed bytes => exact invariant.put (by omega) (.reading bytes)
  | reading bytes =>
    have read : Handoff.decode (p.image.memory.load (records i).spot 48) = records i := by
      rw [bytes,Handoff.decode_encode]
    have counted : min (turns i + 1) 7 = 5 := by omega
    refine invariant.put counted ?_
    show Fate _ _ _ _ (.taking (.ask _ fun _ => .done (Handoff.decode (p.image.memory.load (records i).spot 48))))
    rw [read]
    exact .blanking bytes
  | blanking bytes => exact invariant.store roomy apart rfl (by omega) fun _ bytes => .blank bytes
  | blank bytes => exact invariant.put (by omega) (.taken bytes)
  | taken bytes =>
    have same : p.put i (.taken (records i)) = p := by
      rw [← stage]
      simp [Post.put]
    have kept := invariant.put (by omega) (Fate.taken bytes)
    rwa [same] at kept

theorem Invariant.execute (invariant : Invariant records before turns p) (schedule : List (ι × ThreadId)) :
    Invariant records before (fun i => turns i + (schedule.map Prod.fst).count i) (p.execute records schedule) := by
  induction schedule generalizing p turns with
  | nil => exact invariant
  | cons turn schedule ih =>
    rw [List.map_cons,← replace_count]
    exact ih (invariant.advance roomy apart turn)

end

/-- Where the records lie, and what has become of each after so many steps of its own. -/
structure Delivers (records : ι → Handoff) (before : Memory) (turns : ι → Nat) (p : Post ι) : Prop where
  /-- The bytes are those right below the top. -/
  spot : ∀ i, (records i).spot.toNat + 48 = (records i).region.top.toNat
  inside : ∀ {i a}, (records i).Occupies a →
    (records i).region.contains a = .ok true ∧ ∀ j, (records j).region.inGuard a = false
  placed : ∀ {i}, turns i = 3 → p.parcels i = .placed (records i).spot
  /-- From the write on until the record has been read. -/
  written : ∀ {i}, 2 ≤ turns i → turns i < 6 → p.image.memory.load (records i).spot 48 = (records i).encode
  taken : ∀ {i}, 7 ≤ turns i → p.parcels i = .taken (records i)
  blank : ∀ {i a}, 6 ≤ turns i → (records i).Occupies a → p.image.memory a = 0
  frame : ∀ {a}, (∀ i, ¬(records i).Occupies a) → p.image.memory a = before a

section
variable (roomy : ∀ i, (records i).Roomy) (apart : ∀ i j, i ≠ j → (records i).mapping.Apart (records j).mapping)
include roomy apart

/-- No record's bytes are in a guard, its own or another's. -/
theorem outside_guards {a : UInt64} (occupies : (records i).Occupies a) (j : ι) :
    (records j).region.inGuard a = false := by
  by_cases same : j = i
  · subst same
    exact (roomy j).outside_guard occupies
  · refine Bool.eq_false_iff.mpr fun guarded => ?_
    exact apart j i same a.toNat ⟨(roomy j).guard_covered guarded,(roomy i).covered occupies⟩

/-- Whatever the order in which the steps of placing and taking are made, and whoever makes them, every record comes out
of its region as it went in, its bytes are blank from then on, and no other byte ever changes. -/
theorem execute_delivers (image : Image) (schedule : List (ι × ThreadId)) :
    Delivers records image.memory (schedule.map Prod.fst).count ((initial image).execute records schedule) := by
  have invariant := (initial_invariant records image).execute roomy apart schedule
  simp only [Nat.zero_add] at invariant
  refine ⟨fun i => (roomy i).spot_toNat,fun occupies => ⟨(roomy _).usable occupies,outside_guards roomy apart occupies⟩,
    ?_,?_,?_,?_,fun none => invariant.frame _ none⟩
  all_goals
    intro i
    have fate := invariant.fates i
    generalize (schedule.map Prod.fst).count i = turns at fate ⊢
    generalize count : min turns 7 = steps at fate
    generalize ((initial image).execute records schedule).parcels i = parcel at fate ⊢
  · intro three
    cases fate with
    | placed => rfl
    | _ => omega
  · intro low high
    cases fate with
    | written bytes | placed bytes | reading bytes | blanking bytes => exact bytes
    | _ => omega
  · intro seven
    cases fate with
    | taken => rfl
    | _ => omega
  · intro a six occupies
    have offset := (roomy i).occupies_iff.mp occupies
    cases fate with
    | blank bytes | taken bytes => exact Memory.eq_zero_of_load_blank bytes offset
    | _ => omega

end

/-- Records of two regions that share a border. -/
def neighbours (upper : Bool) : Handoff :=
  if upper then ⟨⟨0x88⟩,9,⟨0x1050,48,16⟩,⟨2⟩⟩ else ⟨⟨0x77⟩,5,⟨0x1010,48,16⟩,⟨1⟩⟩

/-- Step by step in turns, on two threads. -/
theorem neighbours_delivered :
    Delivers neighbours (Image.fresh none .working).memory (fun _ => 7)
      ((initial (.fresh none .working)).execute neighbours (List.replicate 7 [(false,0),(true,1)]).flatten) := by
  have roomy : ∀ i, (neighbours i).Roomy := by
    intro i
    cases i <;> exact ⟨by decide,by decide,by decide⟩
  have apart : ∀ i j, i ≠ j → (neighbours i).mapping.Apart (neighbours j).mapping := by
    intro i j other place
    simp only [Mapping.Covers,Mapping.finish]
    cases i <;> cases j <;> simp [neighbours,Region.mapping,Region.start] at other ⊢ <;> omega
  have counts : ((List.replicate 7 [(false,0),(true,1)]).flatten.map Prod.fst).count = fun _ => 7 := by
    funext i
    cases i <;> rfl
  have delivers := execute_delivers roomy apart (.fresh none .working) (List.replicate 7 [(false,0),(true,1)]).flatten
  rwa [counts] at delivers

end Post
end GuardedStack
