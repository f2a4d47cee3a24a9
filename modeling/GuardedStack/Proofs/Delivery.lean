import GuardedStack.Diagnostics.Delivery
import Mathlib.Data.Nat.Count
import Mathlib.Data.Set.Card

/-! The loop that writes a line, against every sequence of outcomes. Each call offers what the calls before it have left, so
that nothing is lost and nothing is written twice. The loop ends with the whole line or at a failure, and nothing but
interruptions without end can keep it from ending. -/
namespace GuardedStack.Diagnostics

/-- The write took at least one byte and no more than it was offered, or it took nothing and says so. -/
def WriteCall.Lawful (call : WriteCall) : Prop :=
  match call.outcome with
  | .accepted count => 0 < count ∧ count ≤ call.offered.length
  | .interrupted | .failed => True

instance : DecidablePred WriteCall.Lawful
  | ⟨offered,.accepted count⟩ => inferInstanceAs (Decidable (0 < count ∧ count ≤ offered.length))
  | ⟨_,.interrupted⟩ | ⟨_,.failed⟩ => isTrue trivial

/-- The first outcomes of a sequence. -/
def initially (outcomes : Nat → WriteOutcome) (n : Nat) : List WriteOutcome := (List.range n).map outcomes

def outcomesOf (calls : List WriteCall) : List WriteOutcome := calls.map WriteCall.outcome

/-- What the calls leave of the line. -/
def unwritten (bytes : List UInt8) (calls : List WriteCall) : List UInt8 := bytes.drop (received calls).length

/-- Whatever comes after these outcomes, no further call is made. -/
def Ended (bytes : List UInt8) (outcomes : List WriteOutcome) : Prop :=
  ∀ more, deliver bytes (outcomes ++ more) = deliver bytes outcomes

/-- Calls that write a line piece by piece. -/
structure Consecutive (bytes : List UInt8) (calls : List WriteCall) : Prop where
  begins : received calls <+: bytes
  /-- A call offers exactly what the calls before it have left. -/
  offers : ∀ i (inside : i < calls.length), received (calls.take i) ++ calls[i].offered = bytes
  busy : ∀ call ∈ calls, call.offered ≠ []
  /-- What a call took is in no later offer. -/
  anew : calls.Pairwise fun earlier later => later.offered <:+ earlier.offered.drop earlier.taken.length
  /-- No call comes after a failure. -/
  last : ∀ i (inside : i < calls.length), calls[i].outcome = .failed → i + 1 = calls.length

section
variable {bytes : List UInt8} {calls : List WriteCall} {outcomes : List WriteOutcome} {call : WriteCall}

@[simp] theorem received_nil : received [] = [] := rfl

@[simp] theorem received_cons : received (call :: calls) = call.taken ++ received calls := rfl

@[simp] theorem received_append {later : List WriteCall} : received (calls ++ later) = received calls ++ received later :=
  List.flatMap_append

theorem received_begins {later : List WriteCall} (earlier : calls <+: later) : received calls <+: received later := by
  obtain ⟨more,rfl⟩ := earlier
  rw [received_append]
  exact List.prefix_append _ _

theorem WriteCall.taken_of_failed (failed : call.outcome = .failed) : call.taken = [] := by
  rw [taken,failed]

theorem WriteCall.taken_begins (call : WriteCall) : call.taken <+: call.offered := by
  unfold taken
  split
  · exact List.take_prefix _ _
  · exact List.nil_prefix
  · exact List.nil_prefix

/-- The bytes that a call takes and those that it leaves are what it was offered. -/
theorem WriteCall.taken_append_drop (call : WriteCall) : call.taken ++ call.offered.drop call.taken.length = call.offered :=
  List.prefix_iff_eq_append.mp call.taken_begins

theorem WriteCall.Lawful.taken_pos (lawful : call.Lawful) (busy : call.offered ≠ []) (through : call.outcome ≠ .failed)
    (uninterrupted : call.outcome ≠ .interrupted) : 0 < call.taken.length := by
  obtain ⟨offered,outcome⟩ := call
  cases outcome with
  | accepted count =>
    have some := List.length_pos_iff.mpr busy
    simp only [taken,List.length_take]
    exact Nat.lt_min.mpr ⟨lawful.1,some⟩
  | interrupted => exact absurd rfl uninterrupted
  | failed => exact absurd rfl through

@[simp] theorem deliver_nil : deliver [] outcomes = [] := by
  cases outcomes <;> rfl

@[simp] theorem deliver_none : deliver bytes [] = [] := by
  cases bytes <;> rfl

/-- One step: all that is left is offered, and after a write that did not fail the loop goes on with what that write left. -/
theorem deliver_cons (busy : bytes ≠ []) (o : WriteOutcome) (rest : List WriteOutcome) :
    deliver bytes (o :: rest) =
      ⟨bytes,o⟩ :: if o = .failed then [] else deliver (bytes.drop (WriteCall.mk bytes o).taken.length) rest := by
  obtain ⟨b,bs,rfl⟩ := List.exists_cons_of_ne_nil busy
  cases o with
  | accepted count =>
    have same : (b :: bs).drop (min count (b :: bs).length) = (b :: bs).drop count := by
      rcases Nat.le_total count (b :: bs).length with fits | beyond
      · rw [Nat.min_eq_left fits]
      · rw [Nat.min_eq_right beyond,List.drop_of_length_le (Nat.le_refl _),List.drop_of_length_le beyond]
    simp only [deliver,WriteCall.taken,List.length_take,same]
    rfl
  | interrupted => rfl
  | failed => rfl

namespace Consecutive

theorem nil (bytes : List UInt8) : Consecutive bytes [] where
  begins := List.nil_prefix
  offers := by simp
  busy := by simp
  anew := .nil
  last := by simp

/-- A later call offers a tail of the line. -/
theorem offered_suffix (consecutive : Consecutive bytes calls) (member : call ∈ calls) : call.offered <:+ bytes := by
  obtain ⟨i,inside,rfl⟩ := List.mem_iff_getElem.mp member
  exact ⟨_,consecutive.offers i inside⟩

/-- A call comes before those that write what it has left. -/
theorem cons (call : WriteCall) (busy : call.offered ≠ []) (rest : Consecutive (call.offered.drop call.taken.length) calls)
    (proceeds : call.outcome = .failed → calls = []) : Consecutive call.offered (call :: calls) where
  begins := by
    obtain ⟨left,whole⟩ := rest.begins
    refine ⟨left,?_⟩
    rw [received_cons,List.append_assoc,whole,call.taken_append_drop]
  offers i inside := by
    cases i with
    | zero => rfl
    | succ i =>
      have offers := rest.offers i (Nat.lt_of_succ_lt_succ inside)
      simp only [List.take_succ_cons,List.getElem_cons_succ,received_cons,List.append_assoc,offers]
      exact call.taken_append_drop
  busy := by
    simp only [List.mem_cons,forall_eq_or_imp]
    exact ⟨busy,rest.busy⟩
  anew := List.pairwise_cons.mpr ⟨fun _ => rest.offered_suffix,rest.anew⟩
  last i inside failed := by
    cases i with
    | zero => rw [proceeds failed,List.length_singleton]
    | succ i => rw [rest.last i (Nat.lt_of_succ_lt_succ inside) failed,List.length_cons]

/-- At a failure something is left. -/
theorem short (consecutive : Consecutive bytes calls) (failed : .failed ∈ outcomesOf calls) : received calls ≠ bytes := by
  obtain ⟨call,member,fails⟩ := List.mem_map.mp failed
  obtain ⟨i,inside,rfl⟩ := List.mem_iff_getElem.mp member
  have upto : received calls = received (calls.take i) := by
    have split := List.take_append_getElem inside
    rw [consecutive.last i inside fails,List.take_length] at split
    have taken := congrArg received split
    rw [received_append,received_cons,WriteCall.taken_of_failed fails,received_nil,List.append_nil,List.append_nil] at taken
    exact taken.symm
  intro whole
  have offers := consecutive.offers i inside
  rw [← upto,whole] at offers
  exact consecutive.busy _ member (List.append_right_eq_self.mp offers)

end Consecutive

/-- The loop writes the line piece by piece, whatever the outcomes. -/
theorem consecutive_deliver (bytes : List UInt8) (outcomes : List WriteOutcome) : Consecutive bytes (deliver bytes outcomes) := by
  induction outcomes generalizing bytes with
  | nil =>
    rw [deliver_none]
    exact .nil bytes
  | cons o rest ih =>
    by_cases done : bytes = []
    · rw [done,deliver_nil]
      exact .nil []
    · rw [deliver_cons done]
      refine .cons ⟨bytes,o⟩ done ?_ fun failed => if_pos failed
      split
      · exact .nil _
      · exact ih _

/-- The loop is resumed with what it has left, unless a write has failed. -/
theorem deliver_append (bytes : List UInt8) (first more : List WriteOutcome) :
    deliver bytes (first ++ more) = deliver bytes first ++
      if .failed ∈ outcomesOf (deliver bytes first) then [] else deliver (unwritten bytes (deliver bytes first)) more := by
  induction first generalizing bytes with
  | nil => simp [outcomesOf,unwritten]
  | cons o rest ih =>
    by_cases done : bytes = []
    · simp [done,outcomesOf,unwritten]
    · rw [List.cons_append,deliver_cons done,deliver_cons done]
      by_cases failed : o = .failed
      · simp [failed,outcomesOf]
      · simp only [if_neg failed,ih,List.cons_append,outcomesOf,unwritten,List.map_cons,List.mem_cons,Ne.symm failed,false_or,
          received_cons,List.length_append,List.drop_drop]

/-- What was taken and what is left are the line. -/
theorem received_append_unwritten (bytes : List UInt8) (outcomes : List WriteOutcome) :
    received (deliver bytes outcomes) ++ unwritten bytes (deliver bytes outcomes) = bytes :=
  List.prefix_iff_eq_append.mp (consecutive_deliver bytes outcomes).begins

theorem unwritten_eq_nil_iff :
    unwritten bytes (deliver bytes outcomes) = [] ↔ received (deliver bytes outcomes) = bytes := by
  constructor
  · intro nothing
    have whole := received_append_unwritten bytes outcomes
    rwa [nothing,List.append_nil] at whole
  · intro whole
    rw [unwritten,whole,List.drop_length]

/-- The loop ends where nothing is left and where a write fails. -/
theorem ended_iff : Ended bytes outcomes ↔
    unwritten bytes (deliver bytes outcomes) = [] ∨ .failed ∈ outcomesOf (deliver bytes outcomes) := by
  constructor
  · intro ended
    by_contra going
    obtain ⟨busy,through⟩ := not_or.mp going
    have further := ended [.failed]
    rw [deliver_append,if_neg through,deliver_cons busy] at further
    exact List.cons_ne_nil _ _ (List.append_right_eq_self.mp further)
  · intro stopped more
    rw [deliver_append]
    split
    next => exact List.append_nil _
    next through => rw [stopped.resolve_right through,deliver_nil,List.append_nil]

theorem not_ended_iff : ¬Ended bytes outcomes ↔
    unwritten bytes (deliver bytes outcomes) ≠ [] ∧ .failed ∉ outcomesOf (deliver bytes outcomes) := by
  rw [ended_iff,not_or]

/-- As long as the loop goes on, the next outcome is that of one more call, which offers what is left. -/
theorem deliver_concat (going : ¬Ended bytes outcomes) (o : WriteOutcome) :
    deliver bytes (outcomes ++ [o]) = deliver bytes outcomes ++ [⟨unwritten bytes (deliver bytes outcomes),o⟩] := by
  obtain ⟨busy,through⟩ := not_ended_iff.mp going
  rw [deliver_append,if_neg through,deliver_cons busy,deliver_none,ite_self]

theorem Ended.append (ended : Ended bytes outcomes) (more : List WriteOutcome) : Ended bytes (outcomes ++ more) := by
  intro later
  rw [List.append_assoc,ended,ended]

/-- A loop that has ended has written the whole line exactly if no write failed. -/
theorem Ended.whole_iff (ended : Ended bytes outcomes) :
    received (deliver bytes outcomes) = bytes ↔ .failed ∉ outcomesOf (deliver bytes outcomes) := by
  constructor
  · intro whole failed
    exact (consecutive_deliver bytes outcomes).short failed whole
  · intro through
    exact unwritten_eq_nil_iff.mp ((ended_iff.mp ended).resolve_right through)

/-- The calls get the outcomes in their order. -/
theorem outcomesOf_deliver (bytes : List UInt8) (outcomes : List WriteOutcome) :
    outcomesOf (deliver bytes outcomes) <+: outcomes := by
  induction outcomes generalizing bytes with
  | nil =>
    rw [deliver_none]
    exact List.nil_prefix
  | cons o rest ih =>
    by_cases done : bytes = []
    · rw [done,deliver_nil]
      exact List.nil_prefix
    · rw [deliver_cons done]
      refine List.cons_prefix_cons.mpr ⟨rfl,?_⟩
      split
      · exact List.nil_prefix
      · exact ih _

/-- As long as the loop goes on, every outcome is that of a call. -/
theorem outcomesOf_eq (going : ¬Ended bytes outcomes) : outcomesOf (deliver bytes outcomes) = outcomes := by
  -- From the end, since a loop that goes on has gone on all the time.
  induction outcomes using List.reverseRecOn with
  | nil => rw [deliver_none,outcomesOf,List.map_nil]
  | append_singleton before o ih =>
    have earlier : ¬Ended bytes before := fun ended => going (ended.append [o])
    have same := ih earlier
    rw [deliver_concat earlier]
    simpa only [outcomesOf,List.map_append,List.map_singleton,List.append_left_inj] using same

/-- The calls made stay made. -/
theorem deliver_begins (bytes : List UInt8) (first more : List WriteOutcome) :
    deliver bytes first <+: deliver bytes (first ++ more) := by
  rw [deliver_append]
  exact List.prefix_append _ _

/-- A call that is not interrupted takes a byte if the loop goes on after it. -/
theorem received_lt_concat {o : WriteOutcome} (going : ¬Ended bytes (outcomes ++ [o]))
    (lawful : ∀ call ∈ deliver bytes (outcomes ++ [o]), call.Lawful) (uninterrupted : o ≠ .interrupted) :
    (received (deliver bytes outcomes)).length < (received (deliver bytes (outcomes ++ [o]))).length := by
  have earlier : ¬Ended bytes outcomes := fun ended => going (ended.append [o])
  have busy := (not_ended_iff.mp earlier).1
  have through := (not_ended_iff.mp going).2
  rw [deliver_concat earlier] at through lawful ⊢
  have new : WriteCall.mk (unwritten bytes (deliver bytes outcomes)) o ∈
      deliver bytes outcomes ++ [⟨unwritten bytes (deliver bytes outcomes),o⟩] := List.mem_append_right _ (.head _)
  have unfailed : o ≠ .failed := fun failed => through (List.mem_map.mpr ⟨_,new,failed⟩)
  have taken := (lawful _ new).taken_pos busy unfailed uninterrupted
  rw [received_append,received_cons,received_nil,List.append_nil,List.length_append]
  exact Nat.lt_add_of_pos_right taken

/-- A write of all the rest is the last. -/
theorem ended_concat (bytes : List UInt8) (outcomes : List WriteOutcome) :
    Ended bytes (outcomes ++ [.accepted bytes.length]) := by
  by_cases ended : Ended bytes outcomes
  · exact ended.append _
  · have all : (WriteCall.mk (unwritten bytes (deliver bytes outcomes)) (.accepted bytes.length)).taken =
        unwritten bytes (deliver bytes outcomes) := List.take_of_length_le (by simp [unwritten])
    rw [ended_iff,unwritten_eq_nil_iff,deliver_concat ended]
    left
    rw [received_append,received_cons,received_nil,List.append_nil,all]
    exact received_append_unwritten bytes outcomes

/-- A call takes a byte, is interrupted or fails. -/
theorem WriteCall.Lawful.accounted (lawful : call.Lawful) (busy : call.offered ≠ []) :
    1 ≤ call.taken.length + [call.outcome].count .interrupted + [call.outcome].count .failed := by
  by_cases failed : call.outcome = .failed
  · simp [failed]
  · by_cases interrupted : call.outcome = .interrupted
    · simp [interrupted]
    · have taken := lawful.taken_pos busy failed interrupted
      omega

theorem length_le_received (lawful : ∀ call ∈ calls, call.Lawful) (busy : ∀ call ∈ calls, call.offered ≠ []) :
    calls.length ≤ (received calls).length + (outcomesOf calls).count .interrupted + (outcomesOf calls).count .failed := by
  induction calls with
  | nil => exact Nat.zero_le _
  | cons call calls ih =>
    have rest := ih (fun later member => lawful later (.tail _ member)) fun later member => busy later (.tail _ member)
    have first := (lawful call (.head _)).accounted (busy call (.head _))
    have counts (o : WriteOutcome) :
        (outcomesOf (call :: calls)).count o = [call.outcome].count o + (outcomesOf calls).count o := by
      rw [← List.count_append]
      rfl
    rw [counts,counts,received_cons,List.length_append,List.length_cons]
    omega

/-- A loop that goes on has made fewer calls than the line has bytes and interruptions came. -/
theorem length_lt_of_going (lawful : ∀ call ∈ deliver bytes outcomes, call.Lawful) (going : ¬Ended bytes outcomes) :
    outcomes.length < bytes.length + outcomes.count .interrupted := by
  obtain ⟨busy,through⟩ := not_ended_iff.mp going
  have answered := outcomesOf_eq going
  have bound := length_le_received lawful (consecutive_deliver bytes outcomes).busy
  rw [List.count_eq_zero.mpr through,answered] at bound
  have calls := congrArg List.length answered
  rw [outcomesOf,List.length_map] at calls
  have whole := congrArg List.length (received_append_unwritten bytes outcomes)
  rw [List.length_append] at whole
  have some := List.length_pos_iff.mpr busy
  omega

end

section
variable {bytes : List UInt8} {outcomes : Nat → WriteOutcome}

theorem initially_succ (outcomes : Nat → WriteOutcome) (n : Nat) :
    initially outcomes (n + 1) = initially outcomes n ++ [outcomes n] := by
  simp [initially,List.range_succ]

theorem initially_add (outcomes : Nat → WriteOutcome) (n k : Nat) :
    initially outcomes (n + k) = initially outcomes n ++ initially (fun i => outcomes (n + i)) k := by
  simp [initially,List.range_add,Function.comp_def]

/-- The calls of a loop that has ended are all that there ever are. -/
theorem Ended.covers {m : Nat} (ended : Ended bytes (initially outcomes m)) (n : Nat) :
    deliver bytes (initially outcomes n) <+: deliver bytes (initially outcomes m) := by
  have later := deliver_begins bytes (initially outcomes n) (initially (fun i => outcomes (n + i)) m)
  rwa [← initially_add,Nat.add_comm n m,initially_add,ended] at later

theorem length_initially (outcomes : Nat → WriteOutcome) (n : Nat) : (initially outcomes n).length = n := by
  simp [initially]

theorem count_initially_le (finite : {k | outcomes k = .interrupted}.Finite) (n : Nat) :
    (initially outcomes n).count .interrupted ≤ {k | outcomes k = .interrupted}.ncard := by
  have counted : (initially outcomes n).count .interrupted = Nat.count (outcomes · = .interrupted) n := by
    rw [initially,List.count,List.countP_map,Nat.count]
    rfl
  rw [counted,Nat.count_eq_card_filter_range,← Set.ncard_coe_finset]
  apply Set.ncard_le_ncard _ finite
  intro k member
  exact (Finset.mem_filter.mp member).2

/-- A loop without end is interrupted without end, since every other outcome takes a byte of the line. -/
theorem interrupted_forever (lawful : ∀ n, ∀ call ∈ deliver bytes (initially outcomes n), call.Lawful)
    (going : ∀ n, ¬Ended bytes (initially outcomes n)) : ∃ n, ∀ k, outcomes (n + k) = .interrupted := by
  by_contra! always
  -- The line would have any number of bytes.
  have grows (size : Nat) : ∃ n, size ≤ (received (deliver bytes (initially outcomes n))).length := by
    induction size with
    | zero => exact ⟨0,Nat.zero_le _⟩
    | succ size ih =>
      obtain ⟨n,reached⟩ := ih
      obtain ⟨k,uninterrupted⟩ := always n
      have next := going (n + k + 1)
      have law := lawful (n + k + 1)
      have earlier := deliver_begins bytes (initially outcomes n) (initially (fun i => outcomes (n + i)) k)
      rw [initially_succ] at next law
      rw [← initially_add] at earlier
      have kept := (received_begins earlier).length_le
      have taken := received_lt_concat next law uninterrupted
      refine ⟨n + k + 1,?_⟩
      rw [initially_succ]
      omega
  obtain ⟨n,more⟩ := grows (bytes.length + 1)
  have fits := (consecutive_deliver bytes (initially outcomes n)).begins.length_le
  omega

end

/-- What comes of a line that is written against a sequence of outcomes. -/
structure Conveyed (bytes : List UInt8) (outcomes : Nat → WriteOutcome) : Prop where
  /-- At every moment the calls have taken an initial part of the line, and none of it twice. -/
  consecutive : ∀ n, Consecutive bytes (deliver bytes (initially outcomes n))
  onward : ∀ n k, deliver bytes (initially outcomes n) <+: deliver bytes (initially outcomes (n + k))
  whole : ∀ n, Ended bytes (initially outcomes n) → (received (deliver bytes (initially outcomes n)) = bytes ↔
    .failed ∉ outcomesOf (deliver bytes (initially outcomes n)))
  endless : (∀ n, ¬Ended bytes (initially outcomes n)) → ∃ n, ∀ k, outcomes (n + k) = .interrupted
  /-- There are no more calls than the line has bytes and interruptions come. -/
  bound : {k | outcomes k = .interrupted}.Finite → ∃ n, Ended bytes (initially outcomes n) ∧
    (deliver bytes (initially outcomes n)).length ≤ bytes.length + {k | outcomes k = .interrupted}.ncard

/-- Writing a line loses nothing and repeats nothing, in whatever order short writes, interruptions and failures come. -/
theorem line_conveyed {bytes : List UInt8} {outcomes : Nat → WriteOutcome}
    (lawful : ∀ n, ∀ call ∈ deliver bytes (initially outcomes n), call.Lawful) : Conveyed bytes outcomes where
  consecutive n := consecutive_deliver bytes (initially outcomes n)
  onward n k := by
    rw [initially_add]
    exact deliver_begins bytes _ _
  whole _ ended := ended.whole_iff
  endless := interrupted_forever lawful
  bound finite := by
    refine ⟨bytes.length + {k | outcomes k = .interrupted}.ncard,?_,?_⟩
    · by_contra going
      have few := length_lt_of_going (lawful _) going
      have interruptions := count_initially_le finite (bytes.length + {k | outcomes k = .interrupted}.ncard)
      rw [length_initially] at few
      omega
    · have answered := outcomesOf_deliver bytes (initially outcomes (bytes.length + {k | outcomes k = .interrupted}.ncard))
      have calls := answered.length_le
      rwa [outcomesOf,List.length_map,length_initially] at calls

/-- Taken in two parts, with an interruption between them. -/
def resumed : Nat → WriteOutcome
  | 0 => .accepted 2
  | 1 => .interrupted
  | _ => .accepted 1

theorem line_conveyed_resumed : (∀ n, ∀ call ∈ deliver [104,105,10] (initially resumed n), call.Lawful) ∧
    {k | resumed k = .interrupted}.Finite ∧ ∃ n, Ended [104,105,10] (initially resumed n) ∧
      (deliver [104,105,10] (initially resumed n)).length ≤ 4 ∧
      received (deliver [104,105,10] (initially resumed n)) = [104,105,10] := by
  have ended : Ended [104,105,10] (initially resumed 3) := ended_iff.mpr (.inl (by decide))
  have lawful : ∀ n, ∀ call ∈ deliver [104,105,10] (initially resumed n), call.Lawful := by
    intro n call member
    have shown : ∀ call ∈ deliver [104,105,10] (initially resumed 3), call.Lawful := by decide
    exact shown call ((ended.covers n).mem member)
  have single : {k | resumed k = .interrupted} = {1} := by
    ext k
    match k with
    | 0 | 1 | k + 2 => simp [resumed]
  have finite : {k | resumed k = .interrupted}.Finite := by
    rw [single]
    exact Set.finite_singleton 1
  have conveyed := line_conveyed lawful
  obtain ⟨n,stopped,calls⟩ := conveyed.bound finite
  rw [single,Set.ncard_singleton] at calls
  refine ⟨lawful,finite,n,stopped,calls,(conveyed.whole n stopped).mpr fun failed => ?_⟩
  obtain ⟨k,-,fails⟩ := List.mem_map.mp ((outcomesOf_deliver _ _).mem failed)
  match k with
  | 0 | 1 | k + 2 => cases fails

/-- A descriptor gets an initial part of every line, and the whole line where no failure is in store for it. -/
theorem Descriptor.emit_received (d : Descriptor) (line : String) : ∃ written,
    (d.emit line).received = d.received ++ written ∧ written <+: line.toUTF8.toList ∧
      (.failed ∉ d.outcomes d.lines → written = line.toUTF8.toList) := by
  refine ⟨_,rfl,(consecutive_deliver _ _).begins,?_⟩
  intro unfailing
  have stopped := ended_concat line.toUTF8.toList (d.outcomes d.lines)
  apply stopped.whole_iff.mpr
  intro failed
  have given := (outcomesOf_deliver _ _).mem failed
  rcases List.mem_append.mp given with inStore | rest
  · exact unfailing inStore
  · cases List.mem_singleton.mp rest

-- The interrupted write takes nothing, and the next one is offered the whole line.
example : (Descriptor.interruptedOnce.emit "on\n").received = [0x6f,0x6e,0x0a] := by cbv

end GuardedStack.Diagnostics
