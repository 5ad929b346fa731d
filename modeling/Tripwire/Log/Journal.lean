import Tripwire.Log.Bus

/-!
Journals: entries get numbers in order and go to a bus, or nowhere.
-/

namespace Tripwire

structure Journal where
  next : Nat
  /-- Where records go; without a bus they are dropped. -/
  bus : Option Bus
  deriving DecidableEq

namespace Journal

def number (journal : Journal) (entry : Entry) : Record × Journal :=
  (⟨journal.next, entry⟩, { journal with next := journal.next + 1 })

/-- Numbers an entry and sends it; tells how many receivers there are. -/
def publish (journal : Journal) (entry : Entry) : Except LogError Nat × Journal :=
  let (record, journal) := journal.number entry
  match journal.bus with
  | some bus =>
    let (outcome, bus) := bus.publish record
    (outcome, { journal with bus := some bus })
  | none => (.ok 0, journal)

/-- Numbers an entry and sends it; tells whether anyone receives it. -/
def write (journal : Journal) (entry : Entry) : Bool × Journal :=
  match journal.bus with
  | some _ =>
    let (outcome, journal) := journal.publish entry
    (outcome.isOk, journal)
  | none => (false, (journal.number entry).2)

def writeAll (journal : Journal) (entries : List Entry) : Journal :=
  entries.foldl (fun journal entry => (journal.write entry).2) journal

/-- Everything that is left for a receiver; a journal without a bus has nothing. -/
def drain (journal : Journal) (receiver : Nat) : List Record × Journal :=
  match journal.bus with
  | none => ([], journal)
  | some bus =>
    let (records, bus) := bus.drain receiver
    (records, { journal with bus := some bus })

end Journal

end Tripwire
