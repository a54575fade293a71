import BlobExchange.Proofs.HandleAgreement
/-! # Claims follow handles

The registry counts the open handles of each blob, and the blob ends when the last of them finishes
(`claims_follow_handles`). -/

namespace BlobExchange.Session

def holders (s : Session) (id : BlobId) : Nat :=
  (s.writers.countP fun w => w.isOpen && decide (w.id = id)) + openReaders s.readers id

/-- The registry holds a blob while it has an open handle, with the claims of its open handles. A
blob without an open handle has been disposed once, one with an open handle not yet. -/
structure RegistryAgrees (s : Session) : Prop where
  entered : ∀ w ∈ s.writers, (s.exchange.registry.claims.get? w.id).isSome = true ↔
    w.isOpen = true ∨ ∃ r ∈ s.readers, r.id = w.id ∧ r.isOpen = true
  counted : ∀ w ∈ s.writers, ∀ c, s.exchange.registry.claims.get? w.id = some c →
    c.producerOpen = w.isOpen ∧ c.consumers = openReaders s.readers w.id
  ended : ∀ w ∈ s.writers, s.exchange.ended.count w.id =
    if (s.exchange.registry.claims.get? w.id).isSome then 0 else 1
  stranger : ∀ id, (∀ w ∈ s.writers, w.id ≠ id) → s.exchange.registry.claims.get? id = none

/-- The end of a blob's last claim disposes of the blob, and the end of another claim of none. -/
structure EndsWithLastClaim (s : Session) : Prop where
  writer : ∀ place w others, s.writer? place = some w →
    (s.step others (.finishWriter place)).2.exchange.ended =
      s.exchange.ended ++ if w.isOpen = true ∧ s.holders w.id = 1 then [w.id] else []
  reader : ∀ place r others, s.reader? place = some r →
    (s.step others (.finishReader place)).2.exchange.ended =
      s.exchange.ended ++ if r.isOpen = true ∧ s.holders r.id = 1 then [r.id] else []

/-- A finished handle refuses every command, and nothing else comes of it. -/
structure RefusesTheFinished (s : Session) : Prop where
  writer : ∀ place w others command, s.writer? place = some w → w.isOpen = false →
    s.step others (.toWriter place command) =
      (.ofWriter (command.refused (.useAfterFinish w.id command.operation)), s)
  reader : ∀ place r others command, s.reader? place = some r → r.isOpen = false →
    s.step others (.toReader place command) =
      (.ofReader (command.refused (.useAfterFinish r.id command.operation)), s)
  writerAgain : ∀ place w others, s.writer? place = some w → w.isOpen = false →
    s.step others (.finishWriter place) = (.done, s)
  readerAgain : ∀ place r others, s.reader? place = some r → r.isOpen = false →
    s.step others (.finishReader place) = (.done, s)

/-- An open handle is not refused as if it had finished. -/
structure AdmitsTheOpen (s : Session) : Prop where
  writer : ∀ place w others command, s.writer? place = some w → w.isOpen = true →
    ∃ reply, (s.step others (.toWriter place command)).1 = .ofWriter reply ∧
      ∀ id operation, reply.failure? ≠ some (.useAfterFinish id operation)
  reader : ∀ place r others command, s.reader? place = some r → r.isOpen = true →
    ∃ reply, (s.step others (.toReader place command)).1 = .ofReader reply ∧
      ∀ id operation, reply.failure? ≠ some (.useAfterFinish id operation)

section Handles

variable {s : Session} {w : Writer} {r : Reader}

theorem countP_writers {writers : List Writer} (distinct : (writers.map Writer.id).Nodup)
    (hw : w ∈ writers) :
    (writers.countP fun v => v.isOpen && decide (v.id = w.id)) = if w.isOpen then 1 else 0 := by
  induction writers with
  | nil => cases hw
  | cons a rest ih =>
    rw [List.map_cons, List.nodup_cons] at distinct
    rw [List.countP_cons]
    rcases List.mem_cons.1 hw with rfl | hw
    · have hrest : rest.countP (fun v => v.isOpen && decide (v.id = w.id)) = 0 := by
        rw [List.countP_eq_zero]
        intro v hv
        have hne : v.id ≠ w.id := fun heq => distinct.1 (heq ▸ List.mem_map_of_mem hv)
        simp [hne]
      rw [hrest]
      simp
    · have hne : a.id ≠ w.id := fun heq => distinct.1 (heq ▸ List.mem_map_of_mem hw)
      rw [ih distinct.2 hw]
      simp [hne]

theorem holders_eq (hs : s.Consistent) (hw : w ∈ s.writers) :
    s.holders w.id = (if w.isOpen then 1 else 0) + openReaders s.readers w.id := by
  unfold holders
  rw [countP_writers hs.distinct hw]

theorem openReaders_pos_iff (readers : List Reader) (id : BlobId) :
    0 < openReaders readers id ↔ ∃ r ∈ readers, r.id = id ∧ r.isOpen = true := by
  unfold openReaders
  rw [List.countP_pos_iff]
  simp [and_comm]

theorem released_claimsOf (w : Writer) (readers : List Reader) :
    (claimsOf w readers).released = true ↔ w.isOpen = false ∧ openReaders readers w.id = 0 := by
  simp [claimsOf, Claims.released]

end Handles

namespace Consistent

variable {s : Session} {w : Writer} {r : Reader}

/-- The registry's claims to a blob are those of its handles, and while there are any the blob has
not ended. -/
theorem registered (hs : s.Consistent) (hw : w ∈ s.writers) :
    s.exchange.registry.claims.get? w.id =
        (if (claimsOf w s.readers).released then none else some (claimsOf w s.readers)) ∧
      s.exchange.ended.count w.id = if (claimsOf w s.readers).released then 1 else 0 := by
  have hstands := hs.stands w.id
  rw [standing_of_mem hs.distinct hw, Standing.of] at hstands
  by_cases hreleased : (claimsOf w s.readers).released = true
  · rw [if_pos hreleased] at hstands
    obtain ⟨hclaims, -, hended⟩ := hstands
    rw [if_pos hreleased, if_pos hreleased]
    exact ⟨hclaims, hended⟩
  · rw [if_neg hreleased] at hstands
    obtain ⟨-, hclaims, -, hended⟩ := hstands
    rw [if_neg hreleased, if_neg hreleased]
    exact ⟨hclaims, hended⟩

theorem registryAgrees (hs : s.Consistent) : s.RegistryAgrees := by
  refine ⟨?_, ?_, ?_, ?_⟩
  · intro w hw
    rw [(hs.registered hw).1, ← openReaders_pos_iff, Nat.pos_iff_ne_zero]
    have hiff := released_claimsOf w s.readers
    by_cases hreleased : (claimsOf w s.readers).released = true
    · obtain ⟨hclosed, hnone⟩ := hiff.1 hreleased
      simp [hreleased, hclosed, hnone]
    · have hheld := mt hiff.2 hreleased
      rw [not_and_or, Bool.not_eq_false] at hheld
      simp [hreleased, hheld]
  · intro w hw c hc
    rw [(hs.registered hw).1] at hc
    split at hc
    · cases hc
    · cases hc
      exact ⟨rfl, rfl⟩
  · intro w hw
    rw [(hs.registered hw).1, (hs.registered hw).2]
    by_cases hreleased : (claimsOf w s.readers).released = true
    · simp [hreleased]
    · simp [hreleased]
  · intro id hid
    have hstands := hs.stands id
    rw [standing_of_not_mem hid] at hstands
    exact hstands.1

theorem ended_finishWriter (hs : s.Consistent) {place : Nat} (hplace : s.writer? place = some w)
    (others : Interference) :
    (s.finishWriter place others).2.exchange.ended =
      s.exchange.ended ++ if w.isOpen = true ∧ s.holders w.id = 1 then [w.id] else [] := by
  have hw := List.mem_of_getElem? (writer?_eq_some.1 hplace).1
  rw [holders_eq hs hw]
  simp only [Session.finishWriter, hplace, Producer.finish]
  cases hfinished : w.producer.finished with
  | true => simp [Writer.isOpen, hfinished]
  | false =>
    have hopen : w.isOpen = true := by simp [Writer.isOpen, hfinished]
    obtain ⟨-, -, -, hended⟩ :=
      Exchange.stands_endProducer (hs.active_of_writer hw hopen) others
    simp only [Bool.false_eq_true, if_false, hopen, if_true, true_and]
    apply hended.trans
    congr 1
    simp [claimsOf, Claims.released]

theorem ended_finishReader (hs : s.Consistent) {place : Nat} (hplace : s.reader? place = some r)
    (others : Interference) :
    (s.finishReader place others).2.exchange.ended =
      s.exchange.ended ++ if r.isOpen = true ∧ s.holders r.id = 1 then [r.id] else [] := by
  have hr := List.mem_of_getElem? (reader?_eq_some.1 hplace).1
  obtain ⟨w, hw, hwr⟩ := hs.issued r hr
  rw [← hwr, holders_eq hs hw]
  simp only [Session.finishReader, hplace, Consumer.finish]
  cases hfinished : r.consumer.finished with
  | true => simp [Reader.isOpen, hfinished]
  | false =>
    have hopen : r.isOpen = true := by simp [Reader.isOpen, hfinished]
    obtain ⟨-, -, -, hended⟩ :=
      Exchange.stands_endConsumer (hs.active_of_reader hr hopen hw hwr) others
    have hpos : 0 < openReaders s.readers w.id :=
      (openReaders_pos_iff _ _).2 ⟨r, hr, hwr.symm, hopen⟩
    have hrw : r.consumer.id = w.id := hwr.symm
    simp only [Bool.false_eq_true, if_false, hopen, true_and, hrw]
    apply hended.trans
    congr 1
    -- nobody is left just if this reader was the only one and the writer is closed
    have hlast : (claimsOf w s.readers).consumers - 1 = 0 ↔ openReaders s.readers w.id = 1 := by
      show openReaders s.readers w.id - 1 = 0 ↔ _
      omega
    simp only [Claims.released, beq_iff_eq, Bool.and_eq_true, Bool.not_eq_true', hlast]
    show (if w.isOpen = false ∧ openReaders s.readers w.id = 1 then [w.id] else []) = _
    by_cases hwriter : w.isOpen = true
    · simp [hwriter, Nat.ne_of_gt hpos]
    · simp [hwriter]

theorem endsWithLastClaim (hs : s.Consistent) : s.EndsWithLastClaim := by
  constructor
  · intro place w others hplace
    exact hs.ended_finishWriter hplace others
  · intro place r others hplace
    exact hs.ended_finishReader hplace others

theorem refusesTheFinished (s : Session) : s.RefusesTheFinished := by
  refine ⟨?_, ?_, ?_, ?_⟩
  · intro place w others command hplace hclosed
    have hfinished : w.producer.finished = true := by simpa [Writer.isOpen] using hclosed
    have hnothing := command.appended_refused w.producer.id command.operation
    have hsame := set_same (writer?_eq_some.1 hplace).1
    simp only [step, Session.toWriter, hplace, Producer.perform_of_finished hfinished, hnothing,
      List.append_nil, hsame]
    rfl
  · intro place r others command hplace hclosed
    have hfinished : r.consumer.finished = true := by simpa [Reader.isOpen] using hclosed
    have hsame := set_same (reader?_eq_some.1 hplace).1
    simp only [step, Session.toReader, hplace, Consumer.perform_of_finished hfinished,
      ReadCommand.delivered_refused, ReadCommand.keepsFair_refused, hsame]
    rfl
  · intro place w others hplace hclosed
    have hfinished : w.producer.finished = true := by simpa [Writer.isOpen] using hclosed
    have hsame := set_same (writer?_eq_some.1 hplace).1
    simp only [step, Session.finishWriter, hplace, Producer.finish, hfinished, if_true, hsame]
  · intro place r others hplace hclosed
    have hfinished : r.consumer.finished = true := by simpa [Reader.isOpen] using hclosed
    have hsame := set_same (reader?_eq_some.1 hplace).1
    simp only [step, Session.finishReader, hplace, Consumer.finish, hfinished, if_true, hsame]

theorem admitsTheOpen (hs : s.Consistent) : s.AdmitsTheOpen := by
  refine ⟨?_, ?_⟩
  · intro place w others command hplace hopen
    have hw := List.mem_of_getElem? (writer?_eq_some.1 hplace).1
    have hfinished : w.producer.finished = false := by simpa [Writer.isOpen] using hopen
    have hdone := Producer.perform_of_open hfinished (hs.active_of_writer hw hopen) command
    refine ⟨(w.producer.perform s.exchange command).1, ?_, ?_⟩
    · simp only [step, Session.toWriter, hplace]
    · intro id operation hlate
      cases hdone.admitted _ hlate
  · intro place r others command hplace hopen
    have hr := List.mem_of_getElem? (reader?_eq_some.1 hplace).1
    have hfinished : r.consumer.finished = false := by simpa [Reader.isOpen] using hopen
    obtain ⟨w, hw, hwr⟩ := hs.issued r hr
    have hactive := hs.active_of_reader hr hopen hw hwr
    rw [hwr] at hactive
    have hdone := Consumer.perform_of_open hfinished hactive r.log r.fair command
    refine ⟨(r.consumer.perform s.exchange command).1, ?_, ?_⟩
    · simp only [step, Session.toReader, hplace]
    · intro id operation hlate
      cases hdone.admitted _ hlate

end Consistent

/-- Claims follow handles in every session, whatever clients asked and others did. -/
theorem claims_follow_handles (settings : Settings) (supplier : Supplier) (moves : List Move) :
    let s := (start settings supplier).run moves
    s.RegistryAgrees ∧ s.EndsWithLastClaim ∧ s.RefusesTheFinished ∧ s.AdmitsTheOpen := by
  intro s
  have hs : s.Consistent := consistent_run settings supplier moves
  exact ⟨hs.registryAgrees, hs.endsWithLastClaim, Consistent.refusesTheFinished s,
    hs.admitsTheOpen⟩

end BlobExchange.Session
