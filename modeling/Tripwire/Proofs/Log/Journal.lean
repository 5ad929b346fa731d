import Tripwire.Log.Journal

/-!
What writing entries does to a journal.

Every entry takes the next number, whether or not anyone listens.  On a bus that
is heard, the entries are sent in order and the ring keeps the newest records.
-/

namespace Tripwire

namespace Bus

theorem newest_of_length_le {size : Nat} {records : List Record} (fits : records.length ≤ size) :
    newest size records = records := by
  rw [newest, Nat.sub_eq_zero_of_le fits, List.drop_zero]

theorem length_newest_le (size : Nat) (records : List Record) :
    (newest size records).length ≤ size := by
  rw [newest, List.length_drop]
  omega

theorem newest_append (size : Nat) (first second : List Record) :
    newest size (newest size first ++ second) = newest size (first ++ second) := by
  by_cases fits : first.length ≤ size
  · rw [newest_of_length_le fits]
  · have cut : first.length - (first.length - size) = size := by omega
    have split : (first ++ second).length - size =
        first.length - size + (size + second.length - size) := by
      rw [List.length_append]
      omega
    simp only [newest]
    rw [split, ← List.drop_drop, List.drop_append_of_le_length (Nat.sub_le _ _), List.length_append,
      List.length_drop, cut]

/-- A bus that someone can send on and someone listens to, with no more in its ring than the ring
holds. -/
structure Heard (bus : Bus) : Prop where
  receivers : bus.receivers ≠ []
  senders : bus.senders ≠ 0
  fits : bus.kept.length ≤ bus.ringSize

/-- The bus after some records were sent on it. -/
def sentAll (bus : Bus) (records : List Record) : Bus :=
  { bus with
    sent := bus.sent + records.length
    kept := newest bus.ringSize (bus.kept ++ records) }

theorem publish_of_heard {bus : Bus} (heard : bus.Heard) (record : Record) :
    bus.publish record = (.ok bus.receiverCount, bus.sentAll [record]) := by
  simp only [publish, heard.receivers, heard.senders, or_self, if_false]
  rfl

theorem Heard.sentAll {bus : Bus} (heard : bus.Heard) (records : List Record) :
    (bus.sentAll records).Heard :=
  ⟨heard.receivers, heard.senders, length_newest_le _ _⟩

theorem Heard.sentAll_nil {bus : Bus} (heard : bus.Heard) : bus.sentAll [] = bus := by
  simp only [Bus.sentAll, List.append_nil, newest_of_length_le heard.fits]
  rfl

theorem sentAll_append (bus : Bus) (first second : List Record) :
    (bus.sentAll first).sentAll second = bus.sentAll (first ++ second) := by
  calc (bus.sentAll first).sentAll second
    _ = { bus with
          sent := bus.sent + first.length + second.length
          kept := newest bus.ringSize (newest bus.ringSize (bus.kept ++ first) ++ second) } := rfl
    _ = bus.sentAll (first ++ second) := by
      rw [newest_append, List.append_assoc, Nat.add_assoc, ← List.length_append]
      rfl

end Bus

namespace Journal

/-- Entries as records, numbered from a first number on. -/
def numbered (first : Nat) : List Entry → List Record
  | [] => []
  | entry :: rest => ⟨first, entry⟩ :: numbered (first + 1) rest

theorem writeAll_append (journal : Journal) (first second : List Entry) :
    journal.writeAll (first ++ second) = (journal.writeAll first).writeAll second :=
  List.foldl_append

theorem next_write (journal : Journal) (entry : Entry) :
    (journal.write entry).2.next = journal.next + 1 := by
  obtain ⟨next, bus⟩ := journal
  cases bus <;> rfl

theorem next_writeAll (journal : Journal) (entries : List Entry) :
    (journal.writeAll entries).next = journal.next + entries.length := by
  induction entries generalizing journal with
  | nil => rfl
  | cons entry rest ih =>
    have step : (journal.writeAll (entry :: rest)) = (journal.write entry).2.writeAll rest := rfl
    rw [step, ih, next_write, List.length_cons]
    omega

theorem write_of_heard {journal : Journal} {bus : Bus} (on : journal.bus = some bus)
    (heard : bus.Heard) (entry : Entry) :
    (journal.write entry).2 =
      ⟨journal.next + 1, some (bus.sentAll [⟨journal.next, entry⟩])⟩ := by
  obtain ⟨next, _⟩ := journal
  subst on
  simp only [write, publish, number, Bus.publish_of_heard heard]

/-- Entries that are written to a bus that is heard are sent in order. -/
theorem bus_writeAll {journal : Journal} {bus : Bus} (on : journal.bus = some bus)
    (heard : bus.Heard) (entries : List Entry) :
    (journal.writeAll entries).bus = some (bus.sentAll (numbered journal.next entries)) := by
  induction entries generalizing journal bus with
  | nil =>
    rw [numbered, heard.sentAll_nil]
    exact on
  | cons entry rest ih =>
    have step : (journal.writeAll (entry :: rest)) = (journal.write entry).2.writeAll rest := rfl
    rw [step, write_of_heard on heard, ih rfl (heard.sentAll _), Bus.sentAll_append]
    rfl

end Journal
end Tripwire
