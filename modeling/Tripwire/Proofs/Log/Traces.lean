import Tripwire.Proofs.Log.Journal
import Tripwire.Proofs.Log.Receiving

/-!
Calls on a bus and what its callers see of them.

A run is any sequence of calls on a new bus, with a notice for everything that
callers see.  `Placed` places a receiver by its notices alone: since it subscribed
it has passed as many records as it received and was told to have lost.
-/

namespace Tripwire.Bus

inductive Call
  | subscribe
  | publish (record : Record)
  | receive (receiver : Nat)
  | drain (receiver : Nat)

def serve (bus : Bus) : Call → Bus
  | .subscribe => bus.subscribe.2
  | .publish record => (bus.publish record).2
  | .receive receiver => (bus.receive receiver).2
  | .drain receiver => (bus.drain receiver).2

/-- What callers see: a new receiver, a record that is published, an answer to a receiver. -/
inductive Notice
  | subscribed (receiver : Nat)
  | published (record : Record)
  | answered (receiver : Nat) (answer : Answer)

/-- Calls on a new bus and what callers see of them, both with the latest first.  A drain is seen
by its answers. -/
inductive Run (capacity : Nat) : List Call → List Notice → Bus → Prop
  | start : Run capacity [] [] (new capacity)
  | subscribe {calls : List Call} {trace : List Notice} {bus : Bus} :
      Run capacity calls trace bus →
      Run capacity (.subscribe :: calls) (.subscribed bus.subscribe.1 :: trace)
        (bus.serve .subscribe)
  | publish {calls : List Call} {trace : List Notice} {bus : Bus} (record : Record) :
      Run capacity calls trace bus →
      Run capacity (.publish record :: calls) (.published record :: trace)
        (bus.serve (.publish record))
  | receive {calls : List Call} {trace : List Notice} {bus : Bus} (receiver : Nat) :
      Run capacity calls trace bus →
      Run capacity (.receive receiver :: calls)
        (.answered receiver (bus.receive receiver).1 :: trace) (bus.serve (.receive receiver))
  | drain {calls : List Call} {trace : List Notice} {bus : Bus} {answers : List Answer}
      (receiver : Nat) :
      Run capacity calls trace bus → Drains receiver bus answers (bus.serve (.drain receiver)) →
      Run capacity (.drain receiver :: calls)
        (answers.reverse.map (.answered receiver) ++ trace) (bus.serve (.drain receiver))

/-- Whether one of some receivers has subscribed. -/
def joined (who : Nat → Bool) (trace : List Notice) : Bool :=
  trace.any fun
    | .subscribed receiver => who receiver
    | _ => false

/-- The records that were published since one of some receivers subscribed. -/
def publishedSince (who : Nat → Bool) : List Notice → List Record
  | [] => []
  | .published record :: earlier =>
    publishedSince who earlier ++ if joined who earlier then [record] else []
  | _ :: earlier => publishedSince who earlier

/-- The answers to a receiver, in order. -/
def told (receiver : Nat) : List Notice → List Answer
  | [] => []
  | .answered other answer :: earlier =>
    told receiver earlier ++ if other = receiver then [answer] else []
  | _ :: earlier => told receiver earlier

/-- The records that were published while anyone had subscribed. -/
def heard (trace : List Notice) : List Record := publishedSince (fun _ => true) trace

def since (receiver : Nat) (trace : List Notice) : List Record :=
  publishedSince (fun other => other = receiver) trace

def received (receiver : Nat) (trace : List Notice) : List Record :=
  recordsOf (told receiver trace)

def lost (receiver : Nat) (trace : List Notice) : Nat := lossOf (told receiver trace)

/-- How many records a receiver got or was told to have lost. -/
def passed (receiver : Nat) (trace : List Notice) : Nat :=
  (received receiver trace).length + lost receiver trace

def unread (receiver : Nat) (trace : List Notice) : List Record :=
  (since receiver trace).drop (passed receiver trace)

/-- What an answer to a receiver says of what happened before. -/
def Fits (capacity receiver : Nat) (earlier : List Notice) : Answer → Prop
  | .ok none => passed receiver earlier = (since receiver earlier).length
  | .error (.lagged _) => max capacity 1 < (unread receiver earlier).length
  | _ => True

section
variable {trace : List Notice} {receiver other start position : Nat} {record : Record}
  {answer : Answer}

@[simp] theorem joined_subscribed (who : Nat → Bool) :
    joined who (.subscribed receiver :: trace) = (who receiver || joined who trace) := rfl

theorem joined_of_all {who : Nat → Bool} (subscribed : joined who trace = true) :
    joined (fun _ => true) trace = true := by
  obtain ⟨notice, member, tells⟩ := List.any_eq_true.mp subscribed
  refine List.any_eq_true.mpr ⟨notice, member, ?_⟩
  cases notice with
  | subscribed receiver => rfl
  | published record => cases tells
  | answered receiver answer => cases tells

theorem publishedSince_of_not_joined {who : Nat → Bool} (absent : joined who trace = false) :
    publishedSince who trace = [] := by
  induction trace with
  | nil => rfl
  | cons notice earlier ih =>
    have before : joined who earlier = false := (Bool.or_eq_false_iff.mp absent).2
    cases notice with
    | subscribed receiver => exact ih before
    | published record =>
      simp only [publishedSince]
      rw [ih before, before]
      rfl
    | answered receiver answer => exact ih before

theorem told_answered_self :
    told receiver (.answered receiver answer :: trace) = told receiver trace ++ [answer] := by
  simp only [told, if_true]

theorem told_answered_of_ne (apart : other ≠ receiver) :
    told receiver (.answered other answer :: trace) = told receiver trace := by
  simp only [told, apart, if_false, List.append_nil]

theorem received_answered_self :
    received receiver (.answered receiver answer :: trace) =
      received receiver trace ++ recordsOf [answer] := by
  rw [received, told_answered_self, recordsOf_append]
  rfl

theorem passed_answered_self :
    passed receiver (.answered receiver answer :: trace) =
      passed receiver trace + (recordsOf [answer]).length + lossOf [answer] := by
  simp only [passed, received_answered_self, lost, told_answered_self, lossOf_append,
    List.length_append]
  omega

theorem received_answered_of_ne (apart : other ≠ receiver) (answer : Answer) :
    received receiver (.answered other answer :: trace) = received receiver trace := by
  rw [received, told_answered_of_ne apart]
  rfl

theorem passed_answered_of_ne (apart : other ≠ receiver) (answer : Answer) :
    passed receiver (.answered other answer :: trace) = passed receiver trace := by
  simp only [passed, received, lost, told_answered_of_ne apart]

/-- An answer that tells neither a record nor a loss moves nobody. -/
theorem passed_of_stop (stops : answer.goesOn = false) (other : Nat) :
    received other (.answered receiver answer :: trace) = received other trace ∧
      passed other (.answered receiver answer :: trace) = passed other trace := by
  by_cases same : receiver = other
  · subst same
    have records := recordsOf_of_stop stops
    have loss := lossOf_of_stop stops
    constructor
    · rw [received_answered_self, records, List.append_nil]
    · rw [passed_answered_self, records, loss]
      rfl
  · exact ⟨received_answered_of_ne same answer, passed_answered_of_ne same answer⟩

/-- A receiver at a position in what was published while anyone listened, having subscribed when a
first part of it was published. -/
structure Placed (trace : List Notice) (receiver start position : Nat) : Prop where
  suffix : since receiver trace = (heard trace).drop start
  moved : position = start + passed receiver trace
  within : position ≤ (heard trace).length
  order : (received receiver trace).Sublist
    ((since receiver trace).take (passed receiver trace))

namespace Placed

theorem le_since (placed : Placed trace receiver start position) :
    passed receiver trace ≤ (since receiver trace).length := by
  have moved := placed.moved
  have within := placed.within
  rw [placed.suffix, List.length_drop]
  omega

theorem unread_eq (placed : Placed trace receiver start position) :
    unread receiver trace = (heard trace).drop position := by
  rw [unread, placed.suffix, List.drop_drop, ← placed.moved]

theorem published (placed : Placed trace receiver start position)
    (subscribed : joined (fun other => other = receiver) trace = true) (record : Record) :
    Placed (.published record :: trace) receiver start position := by
  have anyone := joined_of_all subscribed
  have longer : since receiver (.published record :: trace) =
      since receiver trace ++ [record] := by
    simp only [since, publishedSince, subscribed, if_true]
  have louder : heard (.published record :: trace) = heard trace ++ [record] := by
    simp only [heard, publishedSince, anyone, if_true]
  have within := placed.within
  have moved := placed.moved
  have bounded := placed.le_since
  exact {
    suffix := by
      rw [longer, louder, placed.suffix, List.drop_append_of_le_length (by omega)]
    moved := moved
    within := by
      rw [louder, List.length_append]
      omega
    order := by
      rw [longer]
      refine placed.order.trans ?_
      rw [← List.take_append_of_le_length bounded]
      exact List.Sublist.refl _ }

theorem unmoved (placed : Placed trace receiver start position)
    (sameRecords : received receiver (.answered other answer :: trace) = received receiver trace)
    (samePassed : passed receiver (.answered other answer :: trace) = passed receiver trace) :
    Placed (.answered other answer :: trace) receiver start position where
  suffix := placed.suffix
  moved := by
    rw [samePassed]
    exact placed.moved
  within := placed.within
  order := by
    rw [samePassed, sameRecords]
    exact placed.order

/-- A receiver that is told that records are lost has passed them. -/
theorem lagged (placed : Placed trace receiver start position) {count : Nat}
    (within : position + count ≤ (heard trace).length) :
    Placed (.answered receiver (.error (.lagged count)) :: trace) receiver start
      (position + count) := by
  have passedMore : passed receiver (.answered receiver (.error (.lagged count)) :: trace) =
      passed receiver trace + count := passed_answered_self
  exact {
    suffix := placed.suffix
    moved := by
      have moved := placed.moved
      omega
    within := within
    order := by
      rw [passedMore, received_answered_self]
      show (received receiver trace ++ []).Sublist
        ((since receiver trace).take (passed receiver trace + count))
      rw [List.append_nil]
      exact placed.order.trans (List.take_sublist_take_left (Nat.le_add_right _ _)) }

theorem took (placed : Placed trace receiver start position)
    (found : (heard trace)[position]? = some record) :
    Placed (.answered receiver (.ok (some record)) :: trace) receiver start (position + 1) := by
  have passedMore : passed receiver (.answered receiver (.ok (some record)) :: trace) =
      passed receiver trace + 1 := passed_answered_self
  have moved := placed.moved
  have next : (since receiver trace)[passed receiver trace]? = some record := by
    rw [placed.suffix, List.getElem?_drop, ← moved]
    exact found
  exact {
    suffix := placed.suffix
    moved := by omega
    within := (List.getElem?_eq_some_iff.mp found).1
    order := by
      rw [passedMore, received_answered_self]
      show (received receiver trace ++ [record]).Sublist
        ((since receiver trace).take (passed receiver trace + 1))
      rw [List.take_add_one, next]
      exact placed.order.append_right _ }

end Placed

end
end Tripwire.Bus
