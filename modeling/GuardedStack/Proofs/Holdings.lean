import GuardedStack.Image
import GuardedStack.Proofs.Moves

/-! What threads hold, whatever they do and however their steps fall between each other. Every thread makes its moves one after
the other, one request at a time. No thread has a part in what another one holds, so each finds what its own moves have
left. -/
namespace GuardedStack

/-- The reply to a request and the process after it. Calls of a mapper or a host succeed. -/
def Image.serve (p : Image) (t : ThreadId) : (q : Request) → Option (q.Reply × Image)
  | .state call => some (p.answer t call)
  | .mapper _ (.unmap _ _) => some (.ok (),p)
  | .host _ (.setCleanupValue _ _) => some (.ok (),p)
  | _ => none

/-- A move in progress, with its calls so far. -/
structure Doing where
  move : Move
  rest : Program move.Result
  calls : List Exchange

/-- A move that has come to its end. -/
structure Done where
  move : Move
  result : move.Result
  calls : List Exchange

/-- A process with its threads' moves, those that go on and those that have ended. -/
structure Hall where
  image : Image
  doing : ThreadId → Option Doing
  done : ThreadId → List Done

namespace Hall

/-- One thread begins its next move, goes on with one, or ends it. What cannot go on, stays. -/
def advance (moves : ThreadId → Nat → Move) (t : ThreadId) (p : Hall) : Hall :=
  match p.doing t with
  | none =>
    let move := moves t (p.done t).length
    { p with doing := replace p.doing t (some ⟨move,move.program,[]⟩) }
  | some ⟨move,.done result,calls⟩ =>
    { p with doing := replace p.doing t none, done := replace p.done t (p.done t ++ [⟨move,result,calls⟩]) }
  | some ⟨_,.stop _,_⟩ => p
  | some ⟨move,.ask q next,calls⟩ =>
    match p.image.serve t q with
    | some (reply,image) =>
      { p with image := image, doing := replace p.doing t (some ⟨move,next reply,calls ++ q.crossing reply⟩) }
    | none => p

def execute (moves : ThreadId → Nat → Move) : List ThreadId → Hall → Hall
  | [], p => p
  | t :: schedule, p => execute moves schedule (p.advance moves t)

/-- Nobody has moved. -/
def initial (image : Image) : Hall := ⟨image,fun _ => none,fun _ => []⟩

end Hall

/-- A thread's move as it has to come out. -/
def Done.due (moves : Nat → Move) (key : RuntimeId → CleanupKey) (n : Nat) : Done where
  move := moves n
  result := (moves n).answers (standing moves n)
  calls := (moves n).calls key (standing moves n)

/-- Where a thread is after so many turns: between two moves, or in the middle of one. -/
inductive Progress (moves : Nat → Move) (key : RuntimeId → CleanupKey) (keys : RuntimeId → Option CleanupKey) (s : ThreadStack)
    (turns n : Nat) : Option Doing → Prop
  | idle : s = .of (standing moves n) → turns ≤ 9 * n → Progress moves key keys s turns n none
  | busy {rest : Program (moves n).Result} {calls : List Exchange} {left : Nat} :
      s = .of (standing moves n) ∨ s = .of (standing moves (n + 1)) →
      rest.Follows (moving keys (.of (standing moves (n + 1))))
        (fun y result => result = (moves n).answers (standing moves n) ∧
          y = ⟨.of (standing moves (n + 1)),(moves n).calls key (standing moves n)⟩) ⟨s,calls⟩ →
      rest.AtMost left → turns + left ≤ 9 * n + 8 → Progress moves key keys s turns n (some ⟨moves n,rest,calls⟩)

/-- What a thread asks for in the course of a move, it gets. Nothing changes for other threads, and for itself at most its
stack does. -/
structure Served (p : Image) (t : ThreadId) (keys : RuntimeId → Option CleanupKey) (due : ThreadStack) (calls : List Exchange)
    (q : Request) (reply : q.Reply) (image : Image) : Prop where
  serves : p.serve t q = some (reply,image)
  next : (moving keys due).next ⟨p.threads t,calls⟩ q reply ⟨image.threads t,calls ++ q.crossing reply⟩
  runtimes : image.runtimes = p.runtimes
  others : ∀ t', t' ≠ t → image.threads t' = p.threads t'
  own : image.threads t = p.threads t ∨ image.threads t = due

theorem Image.served {p : Image} {keys : RuntimeId → Option CleanupKey} {due : ThreadStack} {x : Seat} {q : Request}
    (t : ThreadId) (calls : List Exchange) (may : (moving keys due).may x q)
    (known : keys = fun rt => (p.runtimes rt).key) : ∃ reply image, Served p t keys due calls q reply image := by
  cases q with
  | enter entry arg => exact may.elim
  | mapper rt call =>
    cases call with
    | unmap addr len => exact ⟨.ok (),p,rfl,⟨rfl,rfl⟩,rfl,fun _ _ => rfl,.inl rfl⟩
    | pageSize | map | protect => exact may.elim
  | host rt call =>
    cases call with
    | setCleanupValue k value => exact ⟨.ok (),p,rfl,⟨rfl,rfl⟩,rfl,fun _ _ => rfl,.inl rfl⟩
    | _ => exact may.elim
  | state call =>
    cases call with
    | stack => exact ⟨p.threads t,p,rfl,⟨rfl,rfl⟩,rfl,fun _ _ => rfl,.inl rfl⟩
    | key rt => exact ⟨(p.runtimes rt).key,p,rfl,⟨rfl,by rw [known]⟩,rfl,fun _ _ => rfl,.inl rfl⟩
    | verbosity => exact ⟨p.verbosity,p,rfl,⟨rfl,trivial⟩,rfl,fun _ _ => rfl,.inl rfl⟩
    | emit line => exact ⟨(),_,rfl,⟨rfl,trivial⟩,rfl,fun _ _ => rfl,.inl rfl⟩
    | setStack s =>
      obtain rfl : s = due := may
      have set_ : replace p.threads t s t = s := replace_same ..
      refine ⟨(),_,rfl,⟨?_,trivial⟩,rfl,fun t' other => replace_other _ _ other,.inr set_⟩
      exact congrArg (fun s => (⟨s,calls ++ []⟩ : Seat)) set_
    | _ => exact may.elim

namespace Hall

/-- After as many turns of each thread as `turns` says. -/
structure Invariant (moves : ThreadId → Nat → Move) (key : RuntimeId → CleanupKey) (runtimes : RuntimeId → RuntimeState)
    (turns : ThreadId → Nat) (p : Hall) : Prop where
  kept : p.image.runtimes = runtimes
  threads : ∀ t, ∃ n, p.done t = (List.range n).map (Done.due (moves t) key) ∧
    Progress (moves t) key (fun rt => (runtimes rt).key) (p.image.threads t) (turns t) n (p.doing t)

variable {moves : ThreadId → Nat → Move} {key : RuntimeId → CleanupKey} {runtimes : RuntimeId → RuntimeState}
  {turns : ThreadId → Nat} {p : Hall} {t : ThreadId}

theorem initial_invariant {image : Image} (empty : ∀ t, image.threads t = .empty) :
    Invariant moves key image.runtimes (fun _ => 0) (initial image) where
  kept := rfl
  threads t := ⟨0,rfl,.idle (empty t) (Nat.zero_le _)⟩

/-- Whatever has been installed can be given back. -/
def Tenable (moves : ThreadId → Nat → Move) (key : RuntimeId → CleanupKey) (runtimes : RuntimeId → RuntimeState) : Prop :=
  ∀ t n h, moves t n = .install h → h.Tenable runtimes key

theorem Tenable.standing {n : Nat} {h : Holding} (tenable : Tenable moves key runtimes)
    (stands : standing (moves t) n = some h) : h.Tenable runtimes key := by
  obtain ⟨i,-,installed,-⟩ := standing_iff.mp stands
  exact tenable t i h installed

/-- A turn of one thread, which changes nothing for the others. -/
theorem Invariant.turn (invariant : Invariant moves key runtimes turns p) {p' : Hall} {n : Nat}
    (kept : p'.image.runtimes = p.image.runtimes) (elsewhere : ∀ t', t' ≠ t → p'.image.threads t' = p.image.threads t')
    (doing : ∀ t', t' ≠ t → p'.doing t' = p.doing t') (done : ∀ t', t' ≠ t → p'.done t' = p.done t')
    (made : p'.done t = (List.range n).map (Done.due (moves t) key))
    (progress : Progress (moves t) key (fun rt => (runtimes rt).key) (p'.image.threads t) (turns t + 1) n (p'.doing t)) :
    Invariant moves key runtimes (replace turns t (turns t + 1)) p' where
  kept := kept.trans invariant.kept
  threads t' := by
    by_cases same : t' = t
    · subst same
      rw [replace_same]
      exact ⟨n,made,progress⟩
    · rw [replace_other _ _ same,elsewhere t' same,doing t' same,done t' same]
      exact invariant.threads t'

section
variable {move : Move} {calls : List Exchange}

theorem advance_idle (now : p.doing t = none) : p.advance moves t = { p with
    doing := replace p.doing t (some ⟨moves t (p.done t).length,(moves t (p.done t).length).program,[]⟩) } := by
  simp only [advance,now]

theorem advance_done {result : move.Result} (now : p.doing t = some ⟨move,.done result,calls⟩) : p.advance moves t = { p with
    doing := replace p.doing t none, done := replace p.done t (p.done t ++ [⟨move,result,calls⟩]) } := by
  simp only [advance,now]

theorem advance_ask {q : Request} {next : q.Reply → Program move.Result} {reply : q.Reply} {image : Image}
    (now : p.doing t = some ⟨move,.ask q next,calls⟩) (serves : p.image.serve t q = some (reply,image)) :
    p.advance moves t = { p with
      image := image, doing := replace p.doing t (some ⟨move,next reply,calls ++ q.crossing reply⟩) } := by
  simp only [advance,now,serves]

end

/-- A move in progress asks only for what it gets, so that it goes on; at its end it has come to what is due. -/
theorem Invariant.advance (tenable : Tenable moves key runtimes) (invariant : Invariant moves key runtimes turns p)
    (t : ThreadId) : Invariant moves key runtimes (replace turns t (turns t + 1)) (p.advance moves t) := by
  obtain ⟨n,made,progress⟩ := invariant.threads t
  have length : (p.done t).length = n := by simp [made]
  generalize now : p.doing t = doing at progress
  cases progress with
  | idle stands within =>
    rw [advance_idle now,length]
    refine invariant.turn rfl (fun _ _ => rfl) (fun _ other => replace_other _ _ other) (fun _ _ => rfl) made ?_
    simp only [replace_same]
    refine .busy (.inl stands) ?_ (moves t n).program_atMost (by omega)
    rw [stands]
    apply (moves t n).program_moves
    · exact fun h stands => (tenable.standing stands).fits
    · exact fun h stands => by rw [(tenable.standing stands).ready]
  | @busy rest calls left stands follows short within =>
    cases rest with
    | stop reason => exact follows.elim
    | done result =>
      obtain ⟨rfl,ended⟩ := follows
      obtain ⟨after,rfl⟩ := Seat.mk.inj ended
      rw [advance_done now]
      refine invariant.turn (n := n + 1) rfl (fun _ _ => rfl) (fun _ other => replace_other _ _ other)
        (fun _ other => replace_other _ _ other) ?_ ?_
      · simp only [replace_same,made,List.range_succ,List.map_append]
        rfl
      · simp only [replace_same]
        exact .idle after (by omega)
    | ask q next =>
      obtain ⟨reply,image,served⟩ := Image.served t calls follows.1 (by rw [← invariant.kept])
      cases left with
      | zero => exact short.elim
      | succ left =>
        rw [advance_ask now served.serves]
        refine invariant.turn served.runtimes served.others (fun _ other => replace_other _ _ other) (fun _ _ => rfl) made ?_
        simp only [replace_same]
        refine .busy ?_ (follows.2 reply _ served.next) (short reply) (by omega)
        rcases served.own with same | due
        · rwa [same]
        · exact .inr due

theorem Invariant.execute (tenable : Tenable moves key runtimes) (invariant : Invariant moves key runtimes turns p)
    (schedule : List ThreadId) :
    Invariant moves key runtimes (fun t => turns t + schedule.count t) (p.execute moves schedule) := by
  induction schedule generalizing p turns with
  | nil => exact invariant
  | cons t schedule ih =>
    rw [← replace_count]
    exact ih (invariant.advance tenable t)

/-- What one thread's moves have come to after so many turns of its own. -/
structure Told (moves : Nat → Move) (key : RuntimeId → CleanupKey) (turns : Nat) (s : ThreadStack) (doing : Option Doing)
    (past : List Done) : Prop where
  /-- Every move that has ended came out by what the thread held before it. -/
  made : ∀ n (inside : n < past.length), past[n] = .due moves key n
  held : ∀ n h, standing moves n = some h ↔ Installed moves n h
  /-- The stack is what the moves have left. While one is in progress, it may be what that one leaves. -/
  stack : s.Shows (standing moves past.length) ∨ doing ≠ none ∧ s.Shows (standing moves (past.length + 1))
  rounds : ∀ i m h passes, moves i = .install h → 16 ∣ h.region.top.toNat →
    (∀ j < m, moves (i + 1 + j) = .round (passes j).1 (passes j).2) →
    ∀ j < m, ∀ inside : i + 1 + j < past.length, past[i + 1 + j].calls = roundCalls key h passes j
  /-- No move takes more than nine turns. -/
  bound : turns < 9 * (past.length + 1)

/-- Every thread finds the stack that its own moves have left, at any moment and whatever the others do: what was installed
last and not refused, until it is taken or given back. Installs are refused exactly for their alignment and then change
nothing, and of the destructor rounds the first one that has reached its ceiling unmaps. -/
theorem execute_told {image : Image} (empty : ∀ t, image.threads t = .empty) (tenable : Tenable moves key image.runtimes)
    (schedule : List ThreadId) (t : ThreadId) : Told (moves t) key (schedule.count t)
      (((initial image).execute moves schedule).image.threads t) (((initial image).execute moves schedule).doing t)
      (((initial image).execute moves schedule).done t) := by
  have start : Invariant moves key image.runtimes (fun _ => 0) (initial image) := initial_invariant empty
  have invariant := start.execute tenable schedule
  obtain ⟨n,made,progress⟩ := invariant.threads t
  simp only [Nat.zero_add] at progress
  generalize (initial image).execute moves schedule = p at made progress ⊢
  have length : (p.done t).length = n := by simp [made]
  have ended (k : Nat) (inside : k < (p.done t).length) : (p.done t)[k] = .due (moves t) key k := by simp [made]
  generalize p.doing t = doing at progress ⊢
  refine ⟨ended,fun _ _ => standing_iff,?_,?_,?_⟩
  · rw [length]
    cases progress with
    | idle stands => exact .inl (stands ▸ ThreadStack.of_shows _)
    | busy stands =>
      rcases stands with before | after
      · exact .inl (before ▸ ThreadStack.of_shows _)
      · exact .inr ⟨by simp,after ▸ ThreadStack.of_shows _⟩
  · intro i m h rounds installed aligned follow j within inside
    rw [ended _ inside]
    exact calls_rounds installed aligned follow within
  · rw [length]
    cases progress with
    | idle _ within => omega
    | busy _ _ _ within => omega

/-- One thread goes through its destructor rounds with a refused install in between, the other one takes what it has installed. -/
def visits : ThreadId → Nat → Move
  | 0,0 => .install ⟨⟨0x2000,0x1000,0x1000⟩,⟨1⟩⟩
  | 0,1 => .round 1 4
  | 0,2 => .install ⟨⟨0x8000,0x18,0x1000⟩,⟨2⟩⟩
  | 0,3 => .round 4 4
  | 1,0 => .install ⟨⟨0x6000,0x1000,0⟩,⟨2⟩⟩
  | _,_ => .take

/-- So many turns are enough for a move to come to its end. -/
theorem Told.ended {moves : Nat → Move} {turns n : Nat} {s : ThreadStack} {doing : Option Doing} {past : List Done}
    (told : Told moves key turns s doing past) (enough : 9 * (n + 1) ≤ turns) : past[n]? = some (.due moves key n) := by
  have bound := told.bound
  have inside : n < past.length := by omega
  rw [List.getElem?_eq_getElem inside,told.made n inside]

/-- Two runtimes, one for each thread. -/
def twoReady : Image := { Image.fresh none .working with runtimes := fun rt => ⟨.ready,some ⟨rt.word.toUInt32⟩⟩ }

theorem visits_told : let p := (initial twoReady).execute visits (List.replicate 45 [0,1]).flatten
    (p.done 0)[2]? = some ⟨.install ⟨⟨0x8000,0x18,0x1000⟩,⟨2⟩⟩,.error (.misalignedStackPointer 0x8018),[]⟩ ∧
    (p.done 0)[3]? = some ⟨.round 4 4,(),[⟨.mapper ⟨1⟩ (.unmap 0x1000 0x2000),.ok ()⟩]⟩ ∧
    (p.done 0)[4]? = some ⟨.take,none,[]⟩ ∧ (p.done 1)[1]? = some ⟨.take,some ⟨⟨0x6000,0x1000,0⟩,⟨2⟩⟩,[]⟩ := by
  have tenable : Tenable visits (fun rt => ⟨rt.word.toUInt32⟩) twoReady.runtimes := by
    intro t n h installed
    unfold visits at installed
    split at installed
    all_goals first | cases installed; exact ⟨by decide,rfl⟩ | cases installed
  have told := execute_told (fun _ => rfl) tenable (List.replicate 45 [0,1]).flatten
  have turns : ∀ t < 2, (List.replicate 45 [0,1]).flatten.count t = 45 := by decide
  have lower {n : Nat} (early : n < 5) := (told 0).ended (n := n) (by rw [turns 0 (by decide)]; omega)
  have upper {n : Nat} (early : n < 5) := (told 1).ended (n := n) (by rw [turns 1 (by decide)]; omega)
  dsimp only
  rw [lower (n := 2) (by decide),lower (n := 3) (by decide),lower (n := 4) (by decide),upper (n := 1) (by decide)]
  exact ⟨rfl,rfl,rfl,rfl⟩

end Hall
end GuardedStack
