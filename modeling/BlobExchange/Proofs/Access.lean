import BlobExchange.Proofs.BlobStanding
import BlobExchange.Proofs.Content
/-! # What a handle answers

A finished handle refuses whatever is asked of it and changes nothing. An open handle of an active
blob is never refused in this way. -/

namespace BlobExchange

variable {x : Exchange} {claims : Claims} {content : Bytes}

/-- An answer that the handle was used after it had finished. -/
def BlobError.isLateUse : BlobError → Bool
  | useAfterFinish _ _ => true
  | _ => false

theorem blobOutcome_not_lateUse {α : Type} {r : Except (Halt BufferError) α} {e : BlobError}
    (h : blobOutcome r = .error (.failed e)) : e.isLateUse = false := by
  match r with
  | .error (.failed _) =>
    cases h
    rfl

/-! ## Producers -/

namespace WriteReply

variable {source : Source} {notes : List Note} {e : BlobError}

theorem failure?_filled {outcome : Except (Halt BlobError) Nat} :
    (filled source outcome).failure? = some e ↔ outcome = .error (.failed e) := by
  match outcome with
  | .ok _ => simp [failure?]
  | .error .overflow => simp [failure?]
  | .error (.failed _) => simp [failure?]

theorem failure?_ran {outcome : Except (Halt BlobError) Unit} :
    (ran notes outcome).failure? = some e ↔ outcome = .error (.failed e) := by
  match outcome with
  | .ok _ => simp [failure?]
  | .error .overflow => simp [failure?]
  | .error (.failed _) => simp [failure?]

end WriteReply

namespace WriteCommand

theorem appended_refused (command : WriteCommand) (id : BlobId) (operation : Operation) :
    command.appended (command.refused (.useAfterFinish id operation)) = [] := by
  cases command with
  | fill source budget => exact Source.spent_of_data [] rfl
  | run script =>
    show scriptAppended script [] = []
    unfold scriptAppended
    rw [List.zipWith_nil_right]
    rfl
  | held => rfl
  | capacity => rfl
  | fits additional => rfl
  | announce message => rfl

end WriteCommand

namespace Producer

variable {p : Producer}

theorem access_of_finished (hp : p.finished = true) (operation : Operation) :
    p.access x operation = .error (.useAfterFinish p.id operation) := by
  unfold access
  rw [if_pos hp]

/-- A finished producer refuses every command and leaves the exchange as it is. -/
theorem perform_of_finished (hp : p.finished = true) (command : WriteCommand) :
    p.perform x command = (command.refused (.useAfterFinish p.id command.operation), x) := by
  cases command with
  | fill source budget =>
    simp only [perform, fill, access_of_finished hp]
    rfl
  | run script =>
    simp only [perform, run, access_of_finished hp]
    rfl
  | held =>
    simp only [perform, held, access_of_finished hp]
    rfl
  | capacity =>
    simp only [perform, capacity, access_of_finished hp]
    rfl
  | fits additional =>
    simp only [perform, fits, access_of_finished hp]
    rfl
  | announce message =>
    simp only [perform, announce, hp, Bool.true_or, if_true]
    rfl

theorem access_of_cell {id : BlobId} {b : Buffer}
    (hcell : x.registry.cells.get? id = some ⟨some b, false⟩) (operation : Operation) :
    access ⟨id, false⟩ x operation = .ok b := by
  simp only [access, Registry.access, hcell, Bool.false_eq_true, if_false]

theorem access_of_open (hp : p.finished = false) (hx : x.Stands p.id (.active claims content))
    (operation : Operation) :
    ∃ b, p.access x operation = .ok b ∧ b.content = content := by
  obtain ⟨b, hb, hcontent⟩ := Exchange.access_of_stands hx operation
  refine ⟨b, ?_, hcontent⟩
  unfold access
  rw [hp]
  exact hb

/-- What an open producer leaves behind, and that it did not take itself for finished. -/
structure Performs (p : Producer) (x : Exchange) (claims : Claims) (content : Bytes)
    (result : WriteReply × Exchange) (appended : Bytes) : Prop where
  stands : result.2.Stands p.id (.active claims (content ++ appended))
  same : Exchange.SameBut x result.2 p.id
  blobIds : result.2.blobIds = x.blobIds
  ended : result.2.ended = x.ended
  admitted : ∀ e, result.1.failure? = some e → e.isLateUse = false

/-- A question leaves everything as it is. -/
theorem performs_nothing {reply : WriteReply} (hx : x.Stands p.id (.active claims content))
    (admitted : ∀ e, reply.failure? = some e → e.isLateUse = false) :
    p.Performs x claims content (reply, x) [] where
  stands := by
    rw [List.append_nil]
    exact hx
  same := .refl x p.id
  blobIds := rfl
  ended := rfl
  admitted := admitted

/-- An open producer of an active blob appends what its answer tells. -/
theorem perform_of_open (hp : p.finished = false) (hx : x.Stands p.id (.active claims content))
    (command : WriteCommand) :
    p.Performs x claims content (p.perform x command)
      (command.appended (p.perform x command).1) := by
  obtain ⟨b, hb, hcontent⟩ := access_of_open hp hx command.operation
  cases command with
  | fill source budget =>
    change p.access x .fill = .ok b at hb
    obtain ⟨hset, hsame⟩ := Exchange.stands_setBuffer hx (b.fill source budget).buffer
    rw [Buffer.fill_content, hcontent] at hset
    simp only [perform, fill, hb]
    refine ⟨hset, hsame, rfl, rfl, fun e he => ?_⟩
    exact blobOutcome_not_lateUse (WriteReply.failure?_filled.1 he)
  | run script =>
    change p.access x .produce = .ok b at hb
    obtain ⟨hset, hsame⟩ := Exchange.stands_setBuffer hx (b.run script).buffer
    rw [Buffer.run_content, hcontent] at hset
    simp only [perform, run, hb]
    refine ⟨hset, hsame, rfl, rfl, fun e he => ?_⟩
    exact blobOutcome_not_lateUse (WriteReply.failure?_ran.1 he)
  | held =>
    change p.access x .held = .ok b at hb
    apply performs_nothing hx
    intro e he
    simp only [held, hb] at he
    cases he
  | capacity =>
    change p.access x .capacity = .ok b at hb
    apply performs_nothing hx
    intro e he
    simp only [capacity, hb] at he
    cases he
  | fits additional =>
    change p.access x .accept = .ok b at hb
    apply performs_nothing hx
    intro e he
    simp only [fits, hb] at he
    cases he
  | announce message =>
    have hgranted : p.announce x message = .ok (message ++ p.id.encode) := by
      unfold announce
      rw [hp, Exchange.isDisposed_of_stands hx]
      rfl
    simp only [perform, hgranted]
    exact performs_nothing hx fun e he => by cases he

end Producer

/-! ## Consumers -/

namespace ReadCommand

theorem delivered_refused (command : ReadCommand) (log : Bytes) (e : BlobError) :
    command.delivered log (command.refused e) = log := by
  cases command with
  | drain sink limit =>
    show log ++ sink.stored.drop sink.stored.length = log
    rw [List.drop_length, List.append_nil]
  | readAll => rfl
  | ahead => rfl
  | rewind => rfl

/-- A refused command leaves a sink as it is. -/
theorem keepsFair_refused (command : ReadCommand) (fair : Bool) (e : BlobError) :
    command.keepsFair fair (command.refused e) = fair := by
  cases command with
  | drain sink limit =>
    show (fair && sink.isFairTo sink) = fair
    have hunused : sink.isFairTo sink = [].all SinkStep.isFair := Sink.isFairTo_of_append rfl
    rw [hunused]
    exact Bool.and_true fair
  | readAll => rfl
  | ahead => rfl
  | rewind => rfl

end ReadCommand

namespace Consumer

variable {c : Consumer}

theorem access_of_finished (hc : c.finished = true) (operation : Operation) :
    c.access x operation = .error (.useAfterFinish c.id operation) := by
  unfold access
  rw [if_pos hc]

/-- A finished consumer refuses every command and stays as it is. -/
theorem perform_of_finished (hc : c.finished = true) (command : ReadCommand) :
    c.perform x command = (command.refused (.useAfterFinish c.id command.operation), c) := by
  cases command with
  | drain sink limit =>
    simp only [perform, drain, access_of_finished hc]
    rfl
  | readAll =>
    simp only [perform, readAll, access_of_finished hc]
    rfl
  | ahead =>
    simp only [perform, ahead, access_of_finished hc]
    rfl
  | rewind =>
    simp only [perform, rewind, hc, Bool.true_or, if_true]
    rfl

theorem access_of_open (hc : c.finished = false) (hx : x.Stands c.id (.active claims content))
    (operation : Operation) :
    ∃ b, c.access x operation = .ok b ∧ b.content = content := by
  obtain ⟨b, hb, hcontent⟩ := Exchange.access_of_stands hx operation
  refine ⟨b, ?_, hcontent⟩
  unfold access
  rw [hc]
  exact hb

/-- What an open consumer is after a command, what has been delivered to it then, and that it did
not take itself for finished. Its place in the content can be relied on while its sinks are fair. -/
structure Performs (c : Consumer) (content log : Bytes) (fair : Bool) (command : ReadCommand)
    (result : ReadReply × Consumer) : Prop where
  id : result.2.id = c.id
  finished : result.2.finished = c.finished
  admitted : ∀ e, result.1.failure? = some e → e.isLateUse = false
  reads : (fair = true → c.cursor.position ≤ content.length ∧ log = content.take c.cursor.position) →
    command.keepsFair fair result.1 = true →
      result.2.cursor.position ≤ content.length ∧
        command.delivered log result.1 = content.take result.2.cursor.position

/-- An open consumer of an active blob reads the content in order. -/
theorem perform_of_open (hc : c.finished = false) (hx : x.Stands c.id (.active claims content))
    (log : Bytes) (fair : Bool) (command : ReadCommand) :
    c.Performs content log fair command (c.perform x command) := by
  obtain ⟨b, hb, hcontent⟩ := access_of_open hc hx command.operation
  subst hcontent
  cases command with
  | drain sink limit =>
    change c.access x .drain = .ok b at hb
    simp only [perform, drain, hb]
    refine ⟨rfl, rfl, fun e he => ?_, fun hreads hfair => ?_⟩
    · cases hd : (c.cursor.drain b sink limit).outcome with
      | ok count =>
        rw [hd] at he
        cases he
      | error f =>
        rw [hd] at he
        cases he
        rfl
    · change (fair && sink.isFairTo (c.cursor.drain b sink limit).sink) = true at hfair
      rw [Bool.and_eq_true] at hfair
      obtain ⟨hposition, hlog⟩ := hreads hfair.1
      obtain ⟨honward, hwithin, hstored⟩ :=
        Cursor.drain_delivers c.cursor b sink limit hposition hfair.2
      refine ⟨hwithin, ?_⟩
      -- what is new in the sink continues the log where the cursor was
      show log ++ (c.cursor.drain b sink limit).sink.stored.drop sink.stored.length =
        b.content.take (c.cursor.drain b sink limit).cursor.position
      rw [hstored, List.drop_left, hlog, ← List.take_add, Nat.add_sub_cancel' honward]
  | readAll =>
    change c.access x .consume = .ok b at hb
    simp only [perform, readAll, hb]
    refine ⟨rfl, rfl, fun e he => (by cases he), fun hreads hfair => ?_⟩
    obtain ⟨hposition, hlog⟩ := hreads hfair
    have hend : c.cursor.position + (b.content.drop c.cursor.position).length = b.content.length := by
      rw [List.length_drop]
      omega
    refine ⟨Nat.le_of_eq hend, ?_⟩
    show log ++ b.content.drop c.cursor.position =
      b.content.take (c.cursor.position + (b.content.drop c.cursor.position).length)
    rw [hend, List.take_length, hlog, List.take_append_drop]
  | ahead =>
    change c.access x .length = .ok b at hb
    simp only [perform, ahead, hb]
    exact ⟨rfl, rfl, fun e he => (by cases he), fun hreads hfair => hreads hfair⟩
  | rewind =>
    have hgranted : c.rewind x = (.ok (), { c with cursor := Cursor.start }) := by
      unfold rewind
      rw [hc, Exchange.isDisposed_of_stands hx]
      rfl
    simp only [perform, hgranted]
    exact ⟨rfl, rfl, fun e he => (by cases he), fun _ _ => ⟨Nat.zero_le _, rfl⟩⟩

end Consumer

end BlobExchange
