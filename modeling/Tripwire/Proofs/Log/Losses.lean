import Tripwire.Proofs.Log.Traces

/-!
What becomes of the records that are published on a bus, for each of its receivers.

The ring keeps the newest of the records that were published while anyone
listened, and every receiver is placed among these.  Each call keeps this, and
every answer fits what came before it.
-/

namespace Tripwire.Bus

section
variable {trace : List Notice} {receiver other start position : Nat} {record : Record}
  {answer : Answer}

/-- How a bus stands after what its callers saw. -/
structure Accounts (capacity : Nat) (trace : List Notice) (bus : Bus) : Prop where
  width : bus.capacity = max capacity 1
  sending : bus.senders ≠ 0
  sent : bus.sent = (heard trace).length
  kept : bus.kept = newest bus.ringSize (heard trace)
  fresh : ∀ receiver, bus.fresh ≤ receiver → bus.receivers.lookup receiver = none
  unheard : bus.receivers = [] → joined (fun _ => true) trace = false
  unknown : ∀ receiver, bus.receivers.lookup receiver = none →
    joined (fun other => other = receiver) trace = false ∧ passed receiver trace = 0
  known : ∀ receiver position, bus.receivers.lookup receiver = some position →
    joined (fun other => other = receiver) trace = true ∧
      ∃ start, Placed trace receiver start position
  fits : ∀ later receiver answer earlier,
    trace = later ++ .answered receiver answer :: earlier → Fits capacity receiver earlier answer

theorem fits_cons {capacity : Nat} {notice : Notice}
    (fits : ∀ later receiver answer earlier,
      trace = later ++ .answered receiver answer :: earlier → Fits capacity receiver earlier answer)
    (now : ∀ receiver answer, notice = .answered receiver answer →
      Fits capacity receiver trace answer) :
    ∀ later receiver answer earlier,
      notice :: trace = later ++ .answered receiver answer :: earlier →
        Fits capacity receiver earlier answer := by
  intro later receiver answer earlier same
  cases later with
  | nil =>
    cases same
    exact now receiver answer rfl
  | cons first later =>
    cases same
    exact fits later receiver answer earlier rfl

theorem accounts_new (capacity : Nat) : Accounts capacity [] (new capacity) where
  width := rfl
  sending := Nat.one_ne_zero
  sent := rfl
  kept := List.drop_nil.symm
  fresh := fun _ _ => rfl
  unheard := fun _ => rfl
  unknown := fun _ _ => ⟨rfl, rfl⟩
  known := fun _ _ found => by cases found
  fits := fun later _ _ _ same => by cases later <;> cases same

namespace Accounts

variable {capacity : Nat} {bus : Bus}

theorem oldest (accounts : Accounts capacity trace bus) :
    bus.oldest = (heard trace).length - bus.ringSize := by
  rw [Bus.oldest, accounts.sent, accounts.kept, newest, List.length_drop]
  omega

theorem lookup_subscribe_of_ne (apart : receiver ≠ bus.fresh) :
    bus.subscribe.2.receivers.lookup receiver = bus.receivers.lookup receiver := by
  have differs : (receiver == bus.fresh) = false := beq_false_of_ne apart
  simp only [Bus.subscribe, List.lookup_append, List.lookup_cons, List.lookup_nil, differs,
    Option.or_none]

theorem subscribe (accounts : Accounts capacity trace bus) :
    Accounts capacity (.subscribed bus.subscribe.1 :: trace) (bus.serve .subscribe) := by
  have absent := accounts.fresh bus.fresh (Nat.le_refl _)
  have present : bus.subscribe.2.receivers.lookup bus.fresh = some bus.sent := by
    simp only [Bus.subscribe, List.lookup_append, absent, List.lookup_cons, beq_self_eq_true,
      Option.none_or]
  exact {
    width := accounts.width
    sending := accounts.sending
    sent := accounts.sent
    kept := accounts.kept
    fresh := by
      intro receiver later
      have apart : receiver ≠ bus.fresh := Nat.ne_of_gt later
      have unknown := accounts.fresh receiver (Nat.le_of_succ_le later)
      exact (lookup_subscribe_of_ne apart).trans unknown
    unheard := fun none => absurd none (List.append_ne_nil_of_right_ne_nil _ (List.cons_ne_nil _ _))
    unknown := by
      intro receiver unknown
      by_cases new : receiver = bus.fresh
      · subst new
        cases present.symm.trans unknown
      · obtain ⟨before, none⟩ :=
          accounts.unknown receiver ((lookup_subscribe_of_ne new).symm.trans unknown)
        refine ⟨?_, none⟩
        simp only [Bus.subscribe, joined_subscribed, before, Ne.symm new, decide_false,
          Bool.or_false]
    known := by
      intro receiver position known
      by_cases new : receiver = bus.fresh
      · subst new
        cases present.symm.trans known
        obtain ⟨before, none⟩ := accounts.unknown bus.fresh absent
        have nothing : received bus.fresh trace = [] :=
          List.eq_nil_of_length_eq_zero (Nat.add_eq_zero_iff.mp none).1
        refine ⟨?_, (heard trace).length, ?_⟩
        · simp only [Bus.subscribe, joined_subscribed, decide_true, Bool.true_or]
        · exact {
            suffix := (publishedSince_of_not_joined before).trans List.drop_length.symm
            moved := by
              show bus.sent = (heard trace).length + passed bus.fresh trace
              rw [none, accounts.sent, Nat.add_zero]
            within := Nat.le_of_eq accounts.sent
            order := by
              show (received bus.fresh trace).Sublist _
              rw [nothing]
              exact List.nil_sublist _ }
      · obtain ⟨before, start, placed⟩ :=
          accounts.known receiver position ((lookup_subscribe_of_ne new).symm.trans known)
        refine ⟨?_, start, ⟨placed.suffix, placed.moved, placed.within, placed.order⟩⟩
        simp only [joined_subscribed, before, Bool.or_true]
    fits := fits_cons accounts.fits fun _ _ same => by cases same }

theorem joined_of_receivers (accounts : Accounts capacity trace bus)
    (someone : bus.receivers ≠ []) : joined (fun _ => true) trace = true := by
  obtain ⟨⟨id, position⟩, rest, listed⟩ := List.exists_cons_of_ne_nil someone
  have known : bus.receivers.lookup id = some position := by
    rw [listed, List.lookup_cons_self]
  exact joined_of_all (accounts.known id position known).1

theorem publish (accounts : Accounts capacity trace bus) (record : Record) :
    Accounts capacity (.published record :: trace) (bus.serve (.publish record)) := by
  have fits := fits_cons accounts.fits fun receiver answer
    (same : Notice.published record = .answered receiver answer) => by cases same
  by_cases empty : bus.receivers = []
  · have same : bus.serve (.publish record) = bus := by
      simp only [serve, Bus.publish, empty, true_or, if_true]
    have quiet : heard (.published record :: trace) = heard trace := by
      simp only [heard, publishedSince, accounts.unheard empty]
      exact List.append_nil _
    rw [same]
    exact {
      width := accounts.width
      sending := accounts.sending
      sent := quiet.symm ▸ accounts.sent
      kept := quiet.symm ▸ accounts.kept
      fresh := accounts.fresh
      unheard := accounts.unheard
      unknown := accounts.unknown
      known := fun receiver position known => by
        rw [empty] at known
        cases known
      fits := fits }
  · have room : bus.kept.length ≤ bus.ringSize := accounts.kept ▸ length_newest_le _ _
    have listened : bus.Heard := ⟨empty, accounts.sending, room⟩
    have next : bus.serve (.publish record) = bus.sentAll [record] := by
      simp only [serve, publish_of_heard listened]
    have louder : heard (.published record :: trace) = heard trace ++ [record] := by
      simp only [heard, publishedSince, accounts.joined_of_receivers empty, if_true]
    rw [next]
    exact {
      width := accounts.width
      sending := accounts.sending
      sent := by
        rw [louder, List.length_append, ← accounts.sent]
        rfl
      kept := by
        show newest bus.ringSize (bus.kept ++ [record]) = newest bus.ringSize _
        rw [accounts.kept, newest_append, louder]
      fresh := accounts.fresh
      unheard := fun none => absurd none empty
      unknown := accounts.unknown
      known := by
        intro receiver position known
        obtain ⟨before, start, placed⟩ := accounts.known receiver position known
        exact ⟨before, start, placed.published before record⟩
      fits := fits }

/-- An answer that leaves the bus alone but for the position of its receiver. -/
theorem answered (accounts : Accounts capacity trace bus) {place start : Nat}
    (known : bus.receivers.lookup receiver = some position)
    (placed : Placed (.answered receiver answer :: trace) receiver start place)
    (fits : Fits capacity receiver trace answer) :
    Accounts capacity (.answered receiver answer :: trace) (bus.moveTo receiver place) := by
  have apart {other : Nat} (unknown : bus.receivers.lookup other = none) : receiver ≠ other := by
    rintro rfl
    cases known.symm.trans unknown
  have here : (bus.moveTo receiver place).receivers.lookup receiver = some place :=
    lookup_moveTo_self known
  exact {
    width := accounts.width
    sending := accounts.sending
    sent := accounts.sent
    kept := accounts.kept
    fresh := by
      intro other later
      have unknown := accounts.fresh other later
      rw [lookup_moveTo_of_ne (apart unknown).symm, unknown]
    unheard := by
      intro none
      rw [none] at here
      cases here
    unknown := by
      intro other unknown
      by_cases same : other = receiver
      · subst same
        cases here.symm.trans unknown
      · rw [lookup_moveTo_of_ne same] at unknown
        rw [passed_answered_of_ne (Ne.symm same) answer]
        exact accounts.unknown other unknown
    known := by
      intro other found moved
      by_cases same : other = receiver
      · subst same
        cases here.symm.trans moved
        exact ⟨(accounts.known other position known).1, start, placed⟩
      · rw [lookup_moveTo_of_ne same] at moved
        obtain ⟨before, first, earlier⟩ := accounts.known other found moved
        exact ⟨before, first, earlier.unmoved
          (received_answered_of_ne (Ne.symm same) answer)
          (passed_answered_of_ne (Ne.symm same) answer)⟩
    fits := fits_cons accounts.fits fun _ _ same => by
      cases same
      exact fits }

/-- An answer that tells neither a record nor a loss leaves everything as it is. -/
theorem stopped (accounts : Accounts capacity trace bus) (stops : answer.goesOn = false)
    (fits : Fits capacity receiver trace answer) :
    Accounts capacity (.answered receiver answer :: trace) bus where
  width := accounts.width
  sending := accounts.sending
  sent := accounts.sent
  kept := accounts.kept
  fresh := accounts.fresh
  unheard := accounts.unheard
  unknown := by
    intro other unknown
    rw [(passed_of_stop stops other).2]
    exact accounts.unknown other unknown
  known := by
    intro other position known
    obtain ⟨before, start, placed⟩ := accounts.known other position known
    obtain ⟨sameRecords, samePassed⟩ := passed_of_stop stops other
    exact ⟨before, start, placed.unmoved sameRecords samePassed⟩
  fits := fits_cons accounts.fits fun _ _ same => by
    cases same
    exact fits

theorem capacity_le_ringSize (bus : Bus) : bus.capacity ≤ bus.ringSize := by
  rw [ringSize]
  split
  next small => exact small
  next =>
    rw [Nat.one_shiftLeft]
    exact Nat.le_of_pred_lt Nat.lt_log2_self

theorem receive (accounts : Accounts capacity trace bus) (receiver : Nat) :
    Accounts capacity (.answered receiver (bus.receive receiver).1 :: trace)
      (bus.serve (.receive receiver)) := by
  simp only [serve]
  cases known : bus.receivers.lookup receiver with
  | none =>
    rw [receive_of_unknown known]
    exact accounts.stopped rfl trivial
  | some position =>
    obtain ⟨_, start, placed⟩ := accounts.known receiver position known
    have oldest := accounts.oldest
    have within := placed.within
    rcases receive_cases known with ⟨behind, told⟩ | ⟨record, reached, found, told⟩ |
      ⟨reached, ended, told⟩
    · have passedBy : position + (bus.oldest - position) = bus.oldest :=
        Nat.add_sub_cancel' (Nat.le_of_lt behind)
      have inside : position + (bus.oldest - position) ≤ (heard trace).length := by omega
      have moved := placed.lagged inside
      rw [passedBy] at moved
      rw [told]
      refine accounts.answered known moved ?_
      show max capacity 1 < (unread receiver trace).length
      have width := accounts.width
      have ring := capacity_le_ringSize bus
      rw [placed.unread_eq, List.length_drop]
      omega
    · have here : (heard trace)[position]? = some record := by
        rw [accounts.kept, newest, List.getElem?_drop, ← oldest,
          Nat.add_sub_cancel' reached] at found
        exact found
      rw [told]
      exact accounts.answered known (placed.took here) trivial
    · rw [told, if_neg accounts.sending]
      refine accounts.stopped rfl ?_
      show passed receiver trace = (since receiver trace).length
      have moved := placed.moved
      have all : bus.oldest + bus.kept.length = (heard trace).length := by
        rw [accounts.kept, newest, List.length_drop, oldest]
        omega
      rw [placed.suffix, List.length_drop]
      omega

theorem drain (accounts : Accounts capacity trace bus) {answers : List Answer} {last : Bus}
    (drains : Drains receiver bus answers last) :
    Accounts capacity (answers.reverse.map (.answered receiver) ++ trace) last := by
  induction drains generalizing trace with
  | stop answered _ =>
    have after := accounts.receive receiver
    simp only [serve, answered] at after
    exact after
  | again answered _ _ ih =>
    have after := accounts.receive receiver
    simp only [serve, answered] at after
    have rest := ih after
    simp only [List.reverse_cons, List.map_append, List.append_assoc]
    exact rest

end Accounts

variable {capacity : Nat} {calls : List Call} {bus : Bus}

theorem Run.accounts (run : Run capacity calls trace bus) : Accounts capacity trace bus := by
  induction run with
  | start => exact accounts_new capacity
  | subscribe _ ih => exact ih.subscribe
  | publish record _ ih => exact ih.publish record
  | receive receiver _ ih => exact ih.receive receiver
  | drain receiver _ drains ih => exact ih.drain drains

/-- Every call comes to an end, so that any calls make a run. -/
theorem run_of_calls (capacity : Nat) (calls : List Call) :
    ∃ trace,
      Run capacity calls trace (calls.foldr (fun call bus => bus.serve call) (new capacity)) := by
  induction calls with
  | nil => exact ⟨[], .start⟩
  | cons call calls ih =>
    obtain ⟨trace, run⟩ := ih
    cases call with
    | subscribe => exact ⟨_, .subscribe run⟩
    | publish record => exact ⟨_, .publish record run⟩
    | receive receiver => exact ⟨_, .receive receiver run⟩
    | drain receiver =>
      obtain ⟨answers, drains, -⟩ := drains_drain
        (calls.foldr (fun call bus => bus.serve call) (new capacity)) receiver
      exact ⟨_, .drain receiver run drains⟩

theorem Accounts.received_le (accounts : Accounts capacity trace bus) (receiver : Nat) :
    (received receiver trace).Sublist (since receiver trace) ∧
      passed receiver trace ≤ (since receiver trace).length := by
  cases known : bus.receivers.lookup receiver with
  | none =>
    have nonePassed := (accounts.unknown receiver known).2
    have nothing : received receiver trace = [] :=
      List.eq_nil_of_length_eq_zero (Nat.add_eq_zero_iff.mp nonePassed).1
    rw [nothing, nonePassed]
    exact ⟨List.nil_sublist _, Nat.zero_le _⟩
  | some position =>
    obtain ⟨-, start, placed⟩ := accounts.known receiver position known
    exact ⟨placed.order.trans (List.take_sublist _ _), placed.le_since⟩

theorem joined_of_subscribed (subscribed : Notice.subscribed receiver ∈ trace) :
    joined (fun other => other = receiver) trace = true :=
  List.any_eq_true.mpr ⟨_, subscribed, decide_eq_true rfl⟩

/-- What draining gives a receiver that subscribed: what the ring holds of the records that it has
not passed, after which it has passed all. -/
theorem Accounts.drained (accounts : Accounts capacity trace bus)
    (subscribed : Notice.subscribed receiver ∈ trace) :
    ∃ answers, Drains receiver bus answers (bus.drain receiver).2 ∧
      recordsOf answers = (bus.drain receiver).1 ∧ answers.getLast? = some (.ok none) ∧
      (bus.drain receiver).1 = newest bus.ringSize (unread receiver trace) ∧
      passed receiver trace + (recordsOf answers).length + lossOf answers =
        (since receiver trace).length := by
  cases known : bus.receivers.lookup receiver with
  | none =>
    have absent := (accounts.unknown receiver known).1
    rw [joined_of_subscribed subscribed] at absent
    cases absent
  | some position =>
    obtain ⟨-, start, placed⟩ := accounts.known receiver position known
    obtain ⟨answers, drains, records⟩ := drains_drain bus receiver
    obtain ⟨held, loss, final⟩ := drains.told accounts.sending known
    have oldest := accounts.oldest
    have within := placed.within
    have moved := placed.moved
    refine ⟨answers, drains, records, final, ?_, ?_⟩
    · rw [← records, held, accounts.kept, placed.unread_eq]
      simp only [newest, List.drop_drop, List.length_drop]
      congr 1
      omega
    · rw [held, loss, accounts.kept, placed.suffix]
      simp only [newest, List.length_drop]
      omega

/-- Whatever is called on a bus, each receiver gets records that were published since it subscribed,
in their order.  With the losses that it is told they are never more than these, and as many when
it is told that there is nothing more.  Losses are told only when more records are unread than the
capacity.  Draining ends, with all that the ring holds of the unread records. -/
theorem losses_accounted (capacity : Nat) (calls : List Call) :
    (∃ trace,
      Run capacity calls trace (calls.foldr (fun call bus => bus.serve call) (new capacity))) ∧
    ∀ trace bus, Run capacity calls trace bus → ∀ receiver,
      (received receiver trace).Sublist (since receiver trace) ∧
      (received receiver trace).length + lost receiver trace ≤ (since receiver trace).length ∧
      (∀ later earlier, trace = later ++ .answered receiver (.ok none) :: earlier →
        (received receiver earlier).length + lost receiver earlier =
          (since receiver earlier).length) ∧
      (∀ later count earlier,
        trace = later ++ .answered receiver (.error (.lagged count)) :: earlier →
          max capacity 1 < (unread receiver earlier).length) ∧
      (Notice.subscribed receiver ∈ trace →
        ∃ answers, Drains receiver bus answers (bus.drain receiver).2 ∧
          recordsOf answers = (bus.drain receiver).1 ∧ answers.getLast? = some (.ok none) ∧
          (bus.drain receiver).1 = newest bus.ringSize (unread receiver trace) ∧
          passed receiver trace + (recordsOf answers).length + lossOf answers =
            (since receiver trace).length) := by
  refine ⟨run_of_calls capacity calls, fun trace bus run receiver => ?_⟩
  have accounts := run.accounts
  obtain ⟨order, bounded⟩ := accounts.received_le receiver
  refine ⟨order, bounded, ?all, ?lag, accounts.drained⟩
  case all => exact fun later earlier => accounts.fits later receiver (.ok none) earlier
  case lag =>
    exact fun later count earlier => accounts.fits later receiver (.error (.lagged count)) earlier

/-- Three records on a bus that keeps two: the last two are received and one is lost. -/
theorem losses_accounted_of_three :
    let record (number : Nat) : Record :=
      ⟨number, "test", "a", true, 10, .info, .empty⟩
    let calls : List Call :=
      [.publish (record 2), .publish (record 1), .publish (record 0), .subscribe]
    let trace : List Notice :=
      [.published (record 2), .published (record 1), .published (record 0), .subscribed 0]
    let bus := calls.foldr (fun call bus => bus.serve call) (new 2)
    Run 2 calls trace bus ∧ Notice.subscribed 0 ∈ trace ∧
      (bus.drain 0).1 = [record 1, record 2] ∧
      ∃ answers, Drains 0 bus answers (bus.drain 0).2 ∧ lossOf answers = 1 := by
  intro record calls trace bus
  have run : Run 2 calls trace bus :=
    .publish _ (.publish _ (.publish _ (.subscribe .start)))
  have subscribed : Notice.subscribed 0 ∈ trace := by simp [trace]
  obtain ⟨-, -, -, -, drained⟩ := (losses_accounted 2 calls).2 trace bus run 0
  obtain ⟨answers, drains, records, -, held, all⟩ := drained subscribed
  have two : (bus.drain 0).1 = [record 1, record 2] := held.trans rfl
  refine ⟨run, subscribed, two, answers, drains, ?_⟩
  rw [records, two] at all
  exact Nat.add_left_cancel (n := 2) all

end
end Tripwire.Bus
