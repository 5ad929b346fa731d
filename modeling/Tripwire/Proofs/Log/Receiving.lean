import Mathlib.Algebra.GroupWithZero.Nat
import Tripwire.Log.Bus

/-!
What a receiver of a bus is told, one answer at a time and when it drains.

`Drains` is the loop of draining as it is meant: one receives until an answer is
neither a record nor a loss.  It has no bound; `drain` has one, and `drains_drain`
says that the bound is never what ends it.
-/

namespace Tripwire.Bus

abbrev Answer := Except LogError (Option Record)

/-- Whether draining goes on after an answer. -/
def Answer.goesOn : Answer → Bool
  | .ok (some _) | .error (.lagged _) => true
  | _ => false

theorem Answer.cases_of_goesOn {answer : Answer} (goesOn : answer.goesOn = true) :
    (∃ record, answer = .ok (some record)) ∨ ∃ count, answer = .error (.lagged count) := by
  unfold Answer.goesOn at goesOn
  split at goesOn
  next record => exact .inl ⟨record, rfl⟩
  next count => exact .inr ⟨count, rfl⟩
  next => cases goesOn

def recordsOf (answers : List Answer) : List Record :=
  answers.filterMap fun
    | .ok record => record
    | .error _ => none

/-- How many records the answers tell to be lost. -/
def lossOf (answers : List Answer) : Nat :=
  (answers.map fun
    | .error (.lagged count) => count
    | _ => 0).sum

theorem recordsOf_of_stop {answer : Answer} (stops : answer.goesOn = false) :
    recordsOf [answer] = [] := by
  match answer with
  | .ok none | .error (.send _) | .error (.receive _) | .error (.lagged _) => rfl
  | .ok (some record) => cases stops

theorem lossOf_of_stop {answer : Answer} (stops : answer.goesOn = false) : lossOf [answer] = 0 := by
  match answer with
  | .ok _ | .error (.send _) | .error (.receive _) => rfl
  | .error (.lagged count) => cases stops

@[simp] theorem recordsOf_append (first second : List Answer) :
    recordsOf (first ++ second) = recordsOf first ++ recordsOf second :=
  List.filterMap_append

@[simp] theorem lossOf_append (first second : List Answer) :
    lossOf (first ++ second) = lossOf first + lossOf second := by
  simp only [lossOf, List.map_append, List.sum_append]

/-- One receives until an answer is neither a record nor a loss. -/
inductive Drains (receiver : Nat) : Bus → List Answer → Bus → Prop
  | stop {bus last : Bus} {answer : Answer} :
      bus.receive receiver = (answer, last) → answer.goesOn = false →
      Drains receiver bus [answer] last
  | again {bus next last : Bus} {answer : Answer} {answers : List Answer} :
      bus.receive receiver = (answer, next) → answer.goesOn = true →
      Drains receiver next answers last → Drains receiver bus (answer :: answers) last

/-- How many answers a receiver gets before it is told that there is nothing more. -/
def ahead (bus : Bus) (receiver : Nat) : Nat :=
  match bus.receivers.lookup receiver with
  | none => 0
  | some position =>
    (if position < bus.oldest then 1 else 0) + (bus.kept.length - (position - bus.oldest))

section
variable {bus next last : Bus} {receiver other position place : Nat} {answer : Answer}
  {answers : List Answer}

@[simp] theorem oldest_moveTo : (bus.moveTo receiver place).oldest = bus.oldest := rfl

@[simp] theorem kept_moveTo : (bus.moveTo receiver place).kept = bus.kept := rfl

theorem lookup_moveTo_self (known : bus.receivers.lookup receiver = some position) :
    (bus.moveTo receiver place).receivers.lookup receiver = some place := by
  simp only [moveTo]
  generalize bus.receivers = receivers at known ⊢
  induction receivers with
  | nil => simp at known
  | cons entry rest ih =>
    obtain ⟨id, old⟩ := entry
    by_cases same : receiver = id
    · subst same
      simp
    · have differs : (receiver == id) = false := beq_false_of_ne same
      rw [List.lookup_cons, differs] at known
      rw [List.map_cons, if_neg (Ne.symm same), List.lookup_cons, differs]
      exact ih known

theorem lookup_moveTo_of_ne (apart : other ≠ receiver) :
    (bus.moveTo receiver place).receivers.lookup other = bus.receivers.lookup other := by
  simp only [moveTo]
  induction bus.receivers with
  | nil => rfl
  | cons entry rest ih =>
    obtain ⟨id, old⟩ := entry
    by_cases same : id = receiver
    · subst same
      have differs : (other == id) = false := beq_false_of_ne apart
      rw [List.map_cons, if_pos rfl, List.lookup_cons, List.lookup_cons, differs]
      exact ih
    · rw [List.map_cons, if_neg same, List.lookup_cons, List.lookup_cons, ih]

/-- All that receiving can come to, for a receiver at a position. -/
theorem receive_cases (known : bus.receivers.lookup receiver = some position) :
    (position < bus.oldest ∧ bus.receive receiver =
      (.error (.lagged (bus.oldest - position)), bus.moveTo receiver bus.oldest)) ∨
    (∃ record, bus.oldest ≤ position ∧ bus.kept[position - bus.oldest]? = some record ∧
      bus.receive receiver = (.ok (some record), bus.moveTo receiver (position + 1))) ∨
    (bus.oldest ≤ position ∧ bus.kept.length ≤ position - bus.oldest ∧ bus.receive receiver =
      (if bus.senders = 0 then .error (.receive closedText) else .ok none, bus)) := by
  simp only [receive, known]
  by_cases behind : position < bus.oldest
  · exact .inl ⟨behind, by simp only [behind, if_true]⟩
  · have reached : bus.oldest ≤ position := Nat.le_of_not_lt behind
    simp only [behind, if_false]
    cases found : bus.kept[position - bus.oldest]? with
    | some record => exact .inr (.inl ⟨record, reached, rfl, rfl⟩)
    | none => exact .inr (.inr ⟨reached, List.getElem?_eq_none_iff.mp found, rfl⟩)

theorem receive_of_unknown (unknown : bus.receivers.lookup receiver = none) :
    bus.receive receiver = (.error (.receive closedText), bus) := by
  simp only [receive, unknown]

theorem ahead_of_known (known : bus.receivers.lookup receiver = some position) :
    bus.ahead receiver =
      (if position < bus.oldest then 1 else 0) + (bus.kept.length - (position - bus.oldest)) := by
  simp only [ahead, known]

theorem ahead_le (bus : Bus) (receiver : Nat) : bus.ahead receiver ≤ bus.kept.length + 1 := by
  cases known : bus.receivers.lookup receiver with
  | none => simp only [ahead, known, Nat.zero_le]
  | some position =>
    rw [ahead_of_known known]
    split <;> omega

/-- Every answer after which draining goes on leaves fewer answers ahead. -/
theorem ahead_receive (received : bus.receive receiver = (answer, next))
    (goesOn : answer.goesOn = true) : next.ahead receiver < bus.ahead receiver := by
  cases known : bus.receivers.lookup receiver with
  | none =>
    cases (receive_of_unknown known).symm.trans received
    cases goesOn
  | some position =>
    rw [ahead_of_known known]
    rcases receive_cases known with ⟨behind, told⟩ | ⟨record, reached, found, told⟩ |
      ⟨_, _, told⟩
    · cases told.symm.trans received
      rw [ahead_of_known (lookup_moveTo_self known)]
      simp only [oldest_moveTo, kept_moveTo, Nat.lt_irrefl, behind, if_false, if_true]
      omega
    · have inside := (List.getElem?_eq_some_iff.mp found).1
      cases told.symm.trans received
      rw [ahead_of_known (lookup_moveTo_self known)]
      have next : ¬position + 1 < bus.oldest := by omega
      simp only [oldest_moveTo, kept_moveTo, Nat.not_lt_of_le reached, next, if_false]
      omega
    · cases told.symm.trans received
      split at goesOn <;> cases goesOn

theorem drainUpTo_of_goesOn (fuel : Nat) (received : bus.receive receiver = (answer, next))
    (goesOn : answer.goesOn = true) :
    drainUpTo (fuel + 1) bus receiver =
      (recordsOf [answer] ++ (drainUpTo fuel next receiver).1,
        (drainUpTo fuel next receiver).2) := by
  rcases Answer.cases_of_goesOn goesOn with ⟨record, rfl⟩ | ⟨count, rfl⟩
  · simp only [drainUpTo, received]
    rfl
  · simp only [drainUpTo, received]
    rfl

theorem drainUpTo_of_stop (fuel : Nat) (received : bus.receive receiver = (answer, next))
    (stops : answer.goesOn = false) : drainUpTo (fuel + 1) bus receiver = ([], next) := by
  simp only [drainUpTo, received]
  split
  next same => cases same; cases stops
  next same => cases same; cases stops
  next same => cases same; rfl

/-- Enough fuel for the answers ahead is never what ends draining. -/
theorem drains_drainUpTo (fuel : Nat) :
    ∀ bus : Bus, bus.ahead receiver < fuel →
      ∃ answers, Drains receiver bus answers (drainUpTo fuel bus receiver).2 ∧
        recordsOf answers = (drainUpTo fuel bus receiver).1 := by
  induction fuel with
  | zero => exact fun _ enough => absurd enough (Nat.not_lt_zero _)
  | succ fuel ih =>
    intro bus enough
    rcases received : bus.receive receiver with ⟨answer, next⟩
    cases goes : Answer.goesOn answer with
    | false =>
      rw [drainUpTo_of_stop fuel received goes]
      exact ⟨[answer], .stop received goes, recordsOf_of_stop goes⟩
    | true =>
      have fewer := ahead_receive received goes
      obtain ⟨answers, drains, records⟩ := ih next (by omega)
      rw [drainUpTo_of_goesOn fuel received goes]
      refine ⟨answer :: answers, .again received goes drains, ?_⟩
      rw [← records]
      exact recordsOf_append [answer] answers

theorem drains_drain (bus : Bus) (receiver : Nat) :
    ∃ answers, Drains receiver bus answers (bus.drain receiver).2 ∧
      recordsOf answers = (bus.drain receiver).1 :=
  drains_drainUpTo _ bus (Nat.lt_succ_of_le (ahead_le bus receiver))

/-- What draining an open bus tells: the records of the ring from the receiver's position on, the
loss of those before, and last that there is nothing more. -/
theorem Drains.told (drains : Drains receiver bus answers last) (sending : bus.senders ≠ 0)
    (known : bus.receivers.lookup receiver = some position) :
    recordsOf answers = bus.kept.drop (position - bus.oldest) ∧
      lossOf answers = bus.oldest - position ∧ answers.getLast? = some (.ok none) := by
  induction drains generalizing position with
  | @stop bus last answer received stops =>
    rcases receive_cases known with ⟨_, told⟩ | ⟨record, _, _, told⟩ | ⟨reached, ended, told⟩
    · cases told.symm.trans received
      cases stops
    · cases told.symm.trans received
      cases stops
    · rw [if_neg sending] at told
      cases told.symm.trans received
      exact ⟨(List.drop_eq_nil_of_le ended).symm, (Nat.sub_eq_zero_of_le reached).symm, rfl⟩
  | @again bus next last answer answers received goesOn drains ih =>
    have further : answers ≠ [] := by
      cases drains <;> exact List.cons_ne_nil _ _
    rcases receive_cases known with ⟨behind, told⟩ | ⟨record, reached, found, told⟩ | ⟨_, _, told⟩
    · cases told.symm.trans received
      obtain ⟨records, loss, final⟩ := ih sending (lookup_moveTo_self known)
      refine ⟨?_, ?_, ?_⟩
      · simp only [oldest_moveTo, kept_moveTo, Nat.sub_self] at records
        rw [Nat.sub_eq_zero_of_le (Nat.le_of_lt behind), ← records]
        rfl
      · simp only [oldest_moveTo, Nat.sub_self] at loss
        show bus.oldest - position + lossOf answers = _
        rw [loss, Nat.add_zero]
      · rw [List.getLast?_cons_of_ne_nil further]
        exact final
    · cases told.symm.trans received
      obtain ⟨records, loss, final⟩ := ih sending (lookup_moveTo_self known)
      obtain ⟨inside, here⟩ := List.getElem?_eq_some_iff.mp found
      refine ⟨?_, ?_, ?_⟩
      · simp only [oldest_moveTo, kept_moveTo, Nat.succ_sub reached] at records
        rw [List.drop_eq_getElem_cons inside, here, ← records]
        rfl
      · simp only [oldest_moveTo] at loss
        show 0 + lossOf answers = _
        omega
      · rw [List.getLast?_cons_of_ne_nil further]
        exact final
    · rw [if_neg sending] at told
      cases told.symm.trans received
      cases goesOn

end
end Tripwire.Bus
