import Tripwire.Log.Record

/-!
A log bus: a ring of the newest records that any number of receivers read, each
at its own pace.  A receiver that falls behind is told once how many records it
missed and goes on with the oldest record that is left.
-/

namespace Tripwire

inductive LogError
  | send (message : String)
  | receive (message : String)
  | lagged (count : Nat)
  deriving DecidableEq

namespace LogError

def message : LogError → String
  | send message => s!"Log record send failed: {message}"
  | receive message => s!"Log record receive failed: {message}"
  | lagged count => s!"Log receiver lagged: {count}"

end LogError

structure Bus where
  /-- The capacity that was asked for. -/
  capacity : Nat
  sent : Nat
  /-- The newest records, oldest first. -/
  kept : List Record
  /-- The receivers, each with the count of records that it has passed. -/
  receivers : List (Nat × Nat)
  fresh : Nat
  /-- How many handles can still send. -/
  senders : Nat
  deriving DecidableEq

namespace Bus

def closedText : String := "channel closed"

def new (capacity : Nat) : Bus := ⟨max capacity 1, 0, [], [], 0, 1⟩

/-- How many records the ring holds: the least power of two that is no less than the capacity. -/
def ringSize (bus : Bus) : Nat :=
  if bus.capacity ≤ 1 then 1 else 1 <<< ((bus.capacity - 1).log2 + 1)

/-- The count of records that were sent before the oldest one kept. -/
def oldest (bus : Bus) : Nat := bus.sent - bus.kept.length

def receiverCount (bus : Bus) : Nat := bus.receivers.length

/-- The newest records of a list that fit in a ring. -/
def newest (size : Nat) (records : List Record) : List Record :=
  records.drop (records.length - size)

/-- Adds a receiver, which sees what is sent from now on. -/
def subscribe (bus : Bus) : Nat × Bus :=
  (bus.fresh,
    { bus with
      receivers := bus.receivers ++ [(bus.fresh, bus.sent)]
      fresh := bus.fresh + 1 })

def unsubscribe (bus : Bus) (receiver : Nat) : Bus :=
  { bus with receivers := bus.receivers.filter fun entry => entry.1 ≠ receiver }

/-- Sends a record to all receivers; without a receiver nothing is stored. -/
def publish (bus : Bus) (record : Record) : Except LogError Nat × Bus :=
  if bus.receivers = [] ∨ bus.senders = 0 then (.error (.send closedText), bus)
  else
    (.ok bus.receiverCount,
      { bus with
        sent := bus.sent + 1
        kept := newest bus.ringSize (bus.kept ++ [record]) })

def moveTo (bus : Bus) (receiver position : Nat) : Bus :=
  { bus with
    receivers := bus.receivers.map fun entry =>
      if entry.1 = receiver then (receiver, position) else entry }

/-- The next record for a receiver; none if there is none yet. -/
def receive (bus : Bus) (receiver : Nat) : Except LogError (Option Record) × Bus :=
  match bus.receivers.lookup receiver with
  | none => (.error (.receive closedText), bus)
  | some position =>
    if position < bus.oldest then
      (.error (.lagged (bus.oldest - position)), bus.moveTo receiver bus.oldest)
    else
      match bus.kept[position - bus.oldest]? with
      | some record => (.ok (some record), bus.moveTo receiver (position + 1))
      | none => (if bus.senders = 0 then .error (.receive closedText) else .ok none, bus)

/-- Receives at most a number of times, passing over what was missed. -/
def drainUpTo : Nat → Bus → Nat → List Record × Bus
  | 0, bus, _ => ([], bus)
  | fuel + 1, bus, receiver =>
    match bus.receive receiver with
    | (.ok (some record), bus) =>
      let (records, bus) := drainUpTo fuel bus receiver
      (record :: records, bus)
    | (.error (.lagged _), bus) => drainUpTo fuel bus receiver
    | (_, bus) => ([], bus)

def drain (bus : Bus) (receiver : Nat) : List Record × Bus :=
  drainUpTo (bus.kept.length + 2) bus receiver

/-- How many kept records some receiver has still to read. -/
def backlog (bus : Bus) : Nat :=
  bus.receivers.foldl (fun most entry => max most (bus.sent - max entry.2 bus.oldest)) 0

def openSender (bus : Bus) : Bus := { bus with senders := bus.senders + 1 }

/-- One handle fewer; without any, the bus is closed. -/
def closeSender (bus : Bus) : Bus := { bus with senders := bus.senders - 1 }

def isClosed (bus : Bus) : Bool := bus.senders = 0

end Bus

end Tripwire
