import GuardedStack.Proofs.Order

/-! A world that goes on by itself. The surroundings grant every request that is not refused, and a thread takes one
turn after another until it waits for good. With this, runs can be computed. -/
namespace GuardedStack.World

/-- The lowest address above all live mappings. -/
def room (w : World) : Nat := (w.live.map Mapping.finish).foldr max 0x100000

theorem finish_le_room {w : World} {m : Mapping} (live : m ∈ w.live) : m.finish ≤ w.room := by
  have bound (ms : List Mapping) (member : m ∈ ms) : m.finish ≤ (ms.map Mapping.finish).foldr max 0x100000 := by
    induction ms with
    | nil => cases member
    | cons first rest ih =>
      simp only [List.map_cons,List.foldr_cons]
      rcases List.mem_cons.mp member with rfl | later
      · exact Nat.le_max_left _ _
      · exact Nat.le_trans (ih later) (Nat.le_max_right _ _)
  exact bound _ live

theorem room_pos (w : World) : 0 < w.room := by
  unfold room
  induction w.live.map Mapping.finish with
  | nil => decide
  | cons first rest ih => exact Nat.lt_of_lt_of_le ih (Nat.le_max_right _ _)

def grant (refuses : Request → Bool) (w : World) (t : ThreadId) : (q : Request) → q.Reply × World
  | .state call => ((w.image.answer t call).1,{ w with image := (w.image.answer t call).2 })
  | .mapper _ .pageSize => (0x1000,w)
  | .mapper rt (.map len rights) =>
    if ¬refuses (.mapper rt (.map len rights)) ∧ w.room + len.toNat < UInt64.size then
      (.ok (.ofNat w.room),{ w with live := ⟨rt,.ofNat w.room,len⟩ :: w.live })
    else (.error (.mapFailed len 12),w)
  | .mapper rt (.protect addr len rights) =>
    (if refuses (.mapper rt (.protect addr len rights)) then .error (.protectFailed addr len 12) else .ok (),w)
  | .mapper rt (.unmap addr len) =>
    if refuses (.mapper rt (.unmap addr len)) then (.error (.unmapFailed addr len 22),w)
    else (.ok (),{ w with live := w.live.filter (· ≠ ⟨rt,addr,len⟩) })
  | .host _ .stackLimit => (none,w)
  | .host _ .defaultAttributes => (.ok ⟨0x4000,0x1000⟩,w)
  | .host _ (.requestedAttributes _) => (.ok ⟨0x4000,0x1000⟩,w)
  | .host rt .installInterception =>
    (if refuses (.host rt .installInterception) then .error .interceptionFailed else .ok (),w)
  | .host rt .createCleanupKey =>
    (if refuses (.host rt .createCleanupKey) then .error (.keyCreateFailed 11) else .ok ⟨7⟩,w)
  | .host rt (.setCleanupValue key value) =>
    if refuses (.host rt (.setCleanupValue key value)) then (.error (.keySetFailed 22),w)
    else (.ok (),w.setValue t (.cleanup rt key) value)
  | .host rt (.spawn call) =>
    if refuses (.host rt (.spawn call)) then (11,w) else (0,{ w with accepted := call :: w.accepted })
  | .enter _ arg => (arg,w)

theorem grant_answers (refuses : Request → Bool) (w : World) (t : ThreadId) (q : Request) :
    w.Answers t q (w.grant refuses t q).1 (w.grant refuses t q).2 := by
  cases q with
  | state call => exact ⟨rfl,rfl⟩
  | enter entry arg => rfl
  | mapper rt call =>
    cases call with
    | pageSize => exact ⟨by simp [grant],rfl⟩
    | protect addr len rights => rfl
    | unmap addr len =>
      simp only [grant]
      split <;> rfl
    | map len rights =>
      simp only [grant]
      split
      next granted =>
        have fits := granted.2
        have place : (UInt64.ofNat w.room).toNat = w.room := UInt64.toNat_ofNat_of_lt' (by omega)
        refine ⟨⟨?_,?_⟩,?_,rfl⟩
        · intro zero
          have room := w.room_pos
          have zero : UInt64.ofNat w.room = 0 := zero
          rw [zero] at place
          simp [← place] at room
        · simpa [Mapping.finish,place] using granted.2
        · intro m live place' both
          have above := finish_le_room live
          have first := both.1.1
          have second := both.2.2
          dsimp only at first
          omega
      · rfl
  | host rt call =>
    cases call with
    | setCleanupValue key value =>
      simp only [grant]
      split <;> rfl
    | spawn call =>
      simp only [grant]
      split <;> rfl
    | stackLimit | defaultAttributes | requestedAttributes | installInterception | createCleanupKey => rfl

/-- The thread's innermost operation gets one answer or ends, unless it stops. -/
def turn (refuses : Request → Bool) (t : ThreadId) (w : World) : Option (Event × World) :=
  match w.frames t with
  | ⟨n,op,.ask q next⟩ :: below =>
    match next (w.grant refuses t q).1 with
    | .stop _ => none
    | rest => some (.answered n t q (w.grant refuses t q).1,
        (w.grant refuses t q).2.setFrames t (⟨n,op,rest⟩ :: below))
  | ⟨n,op,.done result⟩ :: below => some (.returned n t op result,w.setFrames t below)
  | _ => none

def turns (refuses : Request → Bool) (t : ThreadId) : Nat → Trace × World → Trace × World
  | 0, s => s
  | k + 1, s =>
    match s.2.turn refuses t with
    | some (e,w) => turns refuses t k (e :: s.1,w)
    | none => s

/-- A run that may go on. -/
structure Going (s : Trace × World) : Prop where
  run : Run s.1 s.2
  going : ¬s.2.Ended

theorem turn_cases {refuses : Request → Bool} {t : ThreadId} {w w' : World} {e : Event}
    (took : w.turn refuses t = some (e,w')) :
    (∃ n op q next below, w.frames t = ⟨n,op,.ask q next⟩ :: below ∧
      (∀ reason, next (w.grant refuses t q).1 ≠ .stop reason) ∧ e = .answered n t q (w.grant refuses t q).1 ∧
      w' = (w.grant refuses t q).2.setFrames t (⟨n,op,next (w.grant refuses t q).1⟩ :: below)) ∨
    ∃ n op result below, w.frames t = ⟨n,op,.done result⟩ :: below ∧ e = .returned n t op result ∧
      w' = w.setFrames t below := by
  unfold turn at took
  split at took
  next n op q next below here =>
    split at took
    · cases took
    next goes =>
      obtain ⟨rfl,rfl⟩ := Prod.mk.inj (Option.some.inj took)
      exact .inl ⟨n,op,q,next,below,here,goes,rfl,rfl⟩
  next n op result below here =>
    obtain ⟨rfl,rfl⟩ := Prod.mk.inj (Option.some.inj took)
    exact .inr ⟨n,op,result,below,here,rfl,rfl⟩
  · cases took

theorem turn_step {refuses : Request → Bool} {t : ThreadId} {w w' : World} {e : Event}
    (took : w.turn refuses t = some (e,w')) : w.Step e w' := by
  obtain ⟨n,op,q,next,below,here,-,rfl,rfl⟩ | ⟨n,op,result,below,here,rfl,rfl⟩ := turn_cases took
  · exact .answer here (w.grant_answers refuses t q)
  · exact .ret here

/-- No operation of a thread has stopped. -/
def Open (fs : List Frame) : Prop := ∀ f ∈ fs, ∀ reason, f.rest ≠ .stop reason

theorem not_ended {w : World} : ¬w.Ended ↔ ∀ t, Open (w.frames t) := by
  simp [Ended,Open]

theorem open_setFrames {w w' : World} {t : ThreadId} (fs : List Frame) (going : ¬w.Ended)
    (frames : w'.frames = (w.setFrames t fs).frames) (stays : Open fs) : ¬w'.Ended := by
  rw [not_ended] at going ⊢
  intro t'
  rw [frames]
  by_cases same : t' = t
  · simpa [setFrames,same] using stays
  · simpa [setFrames,same] using going t'

theorem turn_going {refuses : Request → Bool} {t : ThreadId} {w w' : World} {e : Event}
    (took : w.turn refuses t = some (e,w')) (going : ¬w.Ended) : ¬w'.Ended := by
  have before := not_ended.mp going t
  obtain ⟨n,op,q,next,below,here,goes,-,rfl⟩ | ⟨n,op,result,below,here,-,rfl⟩ := turn_cases took
  · rw [here] at before
    have later : Open below := fun f member => before f (List.mem_cons_of_mem _ member)
    refine open_setFrames (t := t) (⟨n,op,next (w.grant refuses t q).1⟩ :: below) going ?_
      (List.forall_mem_cons.mpr ⟨goes,later⟩)
    simp [setFrames,(w.grant_answers refuses t q).kept]
  · rw [here] at before
    exact open_setFrames below going rfl fun f member => before f (List.mem_cons_of_mem _ member)

/-- What every turn keeps, all turns keep. -/
theorem turns_keep {refuses : Request → Bool} {t : ThreadId} {k : Nat} {P : Trace × World → Prop} {s : Trace × World}
    (before : P s) (keeps : ∀ s e w, P s → s.2.turn refuses t = some (e,w) → P (e :: s.1,w)) :
    P (turns refuses t k s) := by
  induction k generalizing s with
  | zero => exact before
  | succ k ih =>
    unfold turns
    split
    next e w took => exact ih (keeps s e w before took)
    · exact before

theorem Going.turns {refuses : Request → Bool} {t : ThreadId} {k : Nat} {s : Trace × World} (ongoing : Going s) :
    Going (turns refuses t k s) := by
  apply turns_keep ongoing
  intro s e w ongoing took
  exact ⟨.step ongoing.run ongoing.going (turn_step took),turn_going took ongoing.going⟩

/-- Operations stay where they are. -/
theorem Going.still {trace : Trace} {w w' : World} {e : Event} (ongoing : Going (trace,w)) (step : w.Step e w')
    (frames : w'.frames = w.frames) : Going (e :: trace,w') := by
  refine ⟨.step ongoing.run ongoing.going step,not_ended.mpr ?_⟩
  rw [frames]
  exact not_ended.mp ongoing.going

theorem Going.step {trace : Trace} {w w' : World} {e : Event} {t : ThreadId} {fs : List Frame}
    (ongoing : Going (trace,w)) (step : w.Step e w') (frames : w'.frames = (w.setFrames t fs).frames)
    (stays : Open fs) : Going (e :: trace,w') :=
  ⟨.step ongoing.run ongoing.going step,open_setFrames fs ongoing.going frames stays⟩

/-- Other threads' operations stay as they are. -/
theorem frames_turns {refuses : Request → Bool} {t t' : ThreadId} {k : Nat} {s : Trace × World} (other : t' ≠ t) :
    (turns refuses t k s).2.frames t' = s.2.frames t' := by
  apply turns_keep (P := fun later => later.2.frames t' = s.2.frames t') rfl
  intro later e w same took
  rw [← same]
  obtain ⟨n,op,q,next,below,-,-,-,rfl⟩ | ⟨n,op,result,below,-,-,rfl⟩ := turn_cases took
  · simp [setFrames,other,(later.2.grant_answers refuses t q).kept]
  · simp [setFrames,other]

/-- Values of other keys stay as they are. -/
theorem foreign_turns {refuses : Request → Bool} {t t' : ThreadId} {k number : Nat} {s : Trace × World} :
    (turns refuses t k s).2.values t' (.foreign number) = s.2.values t' (.foreign number) := by
  apply turns_keep (P := fun later => later.2.values t' (.foreign number) = s.2.values t' (.foreign number)) rfl
  intro later e w same took
  rw [← same]
  obtain ⟨n,op,q,next,below,-,-,-,rfl⟩ | ⟨n,op,result,below,-,-,rfl⟩ := turn_cases took
  · rcases (later.2.grant_answers refuses t q).values with kept | ⟨rt,key,value,-,kept⟩
    · simp [setFrames,kept]
    · by_cases mine : t' = t <;> simp [setFrames,kept,setValue,mine]
  · rfl

/-- What has happened stays. -/
theorem mem_turns {refuses : Request → Bool} {t : ThreadId} {k : Nat} {s : Trace × World} {e : Event}
    (member : e ∈ s.1) : e ∈ (turns refuses t k s).1 := by
  apply turns_keep (P := fun later => e ∈ later.1) member
  intro later e' w member took
  exact List.mem_cons_of_mem _ member

/-- What outside code calls begins with a request. -/
theorem named_asks {op : Operation} (named : op.runtime?.isSome) : ∃ q next, op.program = .ask q next := by
  cases op with
  | start rt => exact ⟨_,_,rfl⟩
  | spawn rt handle attr entry arg => exact ⟨_,_,rfl⟩
  | body | destroy => simp [Operation.runtime?] at named

theorem Going.call {trace : Trace} {w : World} {t : ThreadId} {op : Operation} (ongoing : Going (trace,w))
    (born : w.lives t ≠ .unborn) (outside : w.Outside t) (named : op.runtime?.isSome) :
    Going (.called w.count t op :: trace,w.push t op) := by
  refine ongoing.step (.call born outside named) rfl (List.forall_mem_cons.mpr ⟨?_,not_ended.mp ongoing.going t⟩)
  intro reason stops
  obtain ⟨q,next,asks⟩ := named_asks named
  rw [asks] at stops
  cases stops

theorem Going.fire {trace : Trace} {w : World} {t : ThreadId} {rounds : Nat} {rt : RuntimeId} {key : CleanupKey}
    {todo : List Key} (ongoing : Going (trace,w)) (exiting : w.lives t = .exiting rounds (.cleanup rt key :: todo))
    (idle : w.frames t = []) (present : w.values t (.cleanup rt key) ≠ 0) :
    Going (.fired w.count t rt key (w.values t (.cleanup rt key)) (w.image.threads t) :: trace,
      ((w.setValue t (.cleanup rt key) 0).push t (.destroy (w.values t (.cleanup rt key)))).setLife t
        (.exiting rounds todo)) := by
  refine ongoing.step (.fire exiting idle present) rfl ?_
  intro f member reason stops
  rw [show (w.setValue t (.cleanup rt key) 0).frames t = [] from idle] at member
  obtain rfl := List.mem_singleton.mp member
  cases stops

/-- A thread runs an operation as far as it goes. -/
def perform (refuses : Request → Bool) (t : ThreadId) (op : Operation) (s : Trace × World) : Trace × World :=
  turns refuses t 200 (.called s.2.count t op :: s.1,s.2.push t op)

theorem Going.perform {refuses : Request → Bool} {t : ThreadId} {op : Operation} {s : Trace × World}
    (ongoing : Going s) (born : s.2.lives t ≠ .unborn) (outside : s.2.Outside t) (named : op.runtime?.isSome) :
    Going (perform refuses t op s) :=
  (ongoing.call born outside named).turns

/-- A new thread runs as far as it goes. -/
def arrive (refuses : Request → Bool) (t : ThreadId) (call : SpawnCall) (s : Trace × World) : Trace × World :=
  turns refuses t 200
    (.began s.2.count t call (.decode (s.2.image.memory.load call.arg Handoff.size.toNat)) :: s.1,
      { (s.2.push t (.body call.start call.arg)).setLife t .alive with accepted := s.2.accepted.erase call })

theorem begin_going {w : World} {t : ThreadId} {call : SpawnCall} (going : ¬w.Ended) (idle : w.frames t = [])
    (asks : ∃ q next, (Operation.body call.start call.arg).program = .ask q next) :
    ¬World.Ended { (w.push t (.body call.start call.arg)).setLife t .alive with accepted := w.accepted.erase call } := by
  have running : Open [⟨w.count,.body call.start call.arg,(Operation.body call.start call.arg).program⟩] := by
    intro f running reason stops
    obtain rfl := List.mem_singleton.mp running
    obtain ⟨q,next,asks⟩ := asks
    rw [asks] at stops
    cases stops
  have frames : (w.push t (.body call.start call.arg)).frames =
      (w.setFrames t [⟨w.count,.body call.start call.arg,Operation.program _⟩]).frames := by
    simp [push,setFrames,idle]
  exact open_setFrames _ going frames running

theorem Going.arrive {refuses : Request → Bool} {t : ThreadId} {call : SpawnCall} {s : Trace × World}
    (ongoing : Going s) (unborn : s.2.lives t = .unborn) (idle : s.2.frames t = []) (member : call ∈ s.2.accepted)
    (asks : ∃ q next, (Operation.body call.start call.arg).program = .ask q next) : Going (arrive refuses t call s) :=
  Going.turns ⟨.step ongoing.run ongoing.going (.begin unborn member),begin_going ongoing.going idle asks⟩

/-- One thread is alive, and nothing has run. -/
def first : World where
  image := .fresh none .working
  live := []
  frames _ := []
  count := 0
  accepted := []
  lives t := if t = 0 then .alive else .unborn
  values _ _ := 0

theorem first_initial : first.Initial := by
  refine ⟨fun _ => rfl,fun _ => rfl,rfl,fun _ => rfl,rfl,rfl,fun t => ?_,fun _ _ => rfl⟩
  by_cases main : t = 0 <;> simp [first,main]

theorem first_going : Going ([],first) :=
  ⟨.nil first_initial,by simp [not_ended,first,Open]⟩

end GuardedStack.World
