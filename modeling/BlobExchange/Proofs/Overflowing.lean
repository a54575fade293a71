import BlobExchange.Proofs.Numbering
import BlobExchange.Proofs.Reuse
/-! # What an overflow leaves

A script that writes a whole blob runs when the blob is registered and no client has a handle of
it. -/

namespace BlobExchange

/-- A construction that fails is behind the scenes. -/
theorem Exchange.backstage_of_failed {x : Exchange} {size : Nat} {others : Interference}
    {halt : Halt BlobError} (h : (x.construct size others).1 = .error halt) :
    Backstage x (x.construct size others).2 x.pool.reports := by
  obtain ⟨y, hy, ⟨halt, heq⟩ | ⟨b, reused, heq⟩⟩ := construct_cases x size others
  · rw [heq]
    exact hy
  · rw [heq] at h ⊢
    cases hspent : y.blobIds.isSpent with
    | true =>
      rw [issue_of_spent hspent]
      exact hy
    | false =>
      simp only [issue, hspent, Bool.false_eq_true, if_false] at h
      cases h

namespace Session

/-! ## Before and after -/

/-- A blob is for clients what it was: it has the same claims, if any, and the same content. -/
structure SameBlob (s t : Session) (id : BlobId) : Prop where
  claims : t.exchange.registry.claims.get? id = s.exchange.registry.claims.get? id
  content : (t.bufferOf id).map Buffer.content = (s.bufferOf id).map Buffer.content

/-- All blobs and all handles are what they were. -/
structure Untouched (s t : Session) : Prop where
  blobs : ∀ id, s.SameBlob t id
  writers : t.writers = s.writers
  readers : t.readers = s.readers

/-- One blob has some bytes more than before. Its claims, all other blobs and all handles are what
they were. -/
structure Extends (s t : Session) (id : BlobId) (bytes : Bytes) : Prop where
  content : ∃ before, (s.bufferOf id).map Buffer.content = some before ∧
    (t.bufferOf id).map Buffer.content = some (before ++ bytes)
  claims : t.exchange.registry.claims.get? id = s.exchange.registry.claims.get? id
  others : ∀ j, j ≠ id → s.SameBlob t j
  writers : t.writers.map (fun w => (w.producer, w.held)) =
    s.writers.map (fun w => (w.producer, w.held))
  readers : t.readers = s.readers

/-- There is one blob more than before, and no client has a handle of it. It keeps its content and
the claim of a producer whatever happens next. All other blobs and all handles are what they
were. -/
structure Abandons (s t : Session) (id : BlobId) (bytes : Bytes) : Prop where
  new : s.exchange.registry.claims.get? id = none
  others : ∀ j, j ≠ id → s.SameBlob t j
  writers : ∃ w, t.writers = s.writers ++ [w] ∧ w.id = id ∧ w.held = false
  readers : t.readers = s.readers
  stays : ∀ later, ∃ b, (t.run later).bufferOf id = some b ∧ b.content = bytes ∧
    (t.run later).exchange.registry.claims.get? id =
      some ⟨true, openReaders (t.run later).readers id⟩

variable {s t : Session} {others : Interference} {size : Nat} {script : List Instruction}
  {id : BlobId}

/-- A blob that stands as it did is for clients what it was. -/
theorem sameBlob_of_stands {st : Standing} (hs : s.exchange.Stands id st)
    (ht : t.exchange.Stands id st) : s.SameBlob t id := by
  obtain ⟨hclaims, hcontent⟩ := same_of_stands hs ht
  exact ⟨hclaims, hcontent⟩

theorem Consistent.sameBlob (hs : s.Consistent)
    (hsame : Exchange.SameBut s.exchange t.exchange id) (j : BlobId) (hj : j ≠ id) :
    s.SameBlob t j :=
  sameBlob_of_stands (hs.stands j) (hsame j _ hj (hs.stands j))

/-- What goes on behind the scenes is not seen by clients. -/
theorem Consistent.untouched (hs : s.Consistent) {x : Exchange} {reports : List Handle}
    (hx : Exchange.Backstage s.exchange x reports) : s.Untouched { s with exchange := x } := by
  refine ⟨?_, rfl, rfl⟩
  intro id
  exact sameBlob_of_stands (hs.stands id) (hx.stands (hs.stands id))

/-! ## While a blob is constructed -/

theorem untouched_construct (hs : s.Consistent)
    (hnone : s.constructed others (.construct size) = none) :
    s.Untouched (s.construct size others).2 := by
  obtain ⟨halt, hfailed, hproducer⟩ := Producer.construct_of_none hnone
  simp only [construct, hproducer]
  exact hs.untouched (Exchange.backstage_of_failed hfailed)

theorem untouched_write (hs : s.Consistent)
    (hnone : s.constructed others (.write size script) = none) :
    s.Untouched (s.write size script others).2 := by
  obtain ⟨halt, hfailed, hproducer⟩ := Producer.construct_of_none hnone
  simp only [write, Exchange.ofScript_of_error hproducer, Option.toList_none, List.map_nil,
    List.append_nil, welcome]
  exact hs.untouched (Exchange.backstage_of_failed hfailed)

/-! ## While a blob is written -/

/-- A writer's command adds to its blob what its answer tells, unless the writer has finished. -/
theorem extends_toWriter (hs : s.Consistent) {place : Nat} {w : Writer}
    (hw : s.writer? place = some w) (hopen : w.isOpen = true) (command : WriteCommand) :
    ∃ reply, (s.toWriter place command).1 = .ofWriter reply ∧
      s.Extends (s.toWriter place command).2 w.id (command.appended reply) := by
  obtain ⟨hplace, -⟩ := writer?_eq_some.1 hw
  have hactive := hs.active_of_writer (List.mem_of_getElem? hplace) hopen
  have hunfinished : w.producer.finished = false := by simpa [Writer.isOpen] using hopen
  have hperforms := Producer.perform_of_open hunfinished hactive command
  simp only [toWriter, hw]
  refine ⟨_, rfl, ?_, ?_, hs.sameBlob hperforms.same, ?_, rfl⟩
  · obtain ⟨b, hb, hbefore⟩ := bufferOf_of_stands hactive
    obtain ⟨c, hc, hafter⟩ := bufferOf_of_stands
      (s := { s with exchange := (w.producer.perform s.exchange command).2 }) hperforms.stands
    refine ⟨w.log, ?_, ?_⟩
    · rw [hb]
      exact congrArg some hbefore
    · exact (congrArg (Option.map Buffer.content) hc).trans (congrArg some hafter)
  · exact hperforms.stands.2.1.trans hactive.2.1.symm
  · exact map_set_same hplace rfl

/-! ## While a script writes a whole blob -/

/-- The blob of a script that overflows stays. -/
theorem Builds.abandons {b : Buffer} {x : Exchange} (h : Builds s size others id b x)
    (hs : s.Consistent) (hstop : b.stop script = some .overflow) :
    s.Abandons (s.write size script others).2 id
      (scriptAppended script (b.run script).notes) := by
  let w : Writer := ⟨⟨id, false⟩, false, scriptAppended script (b.run script).notes⟩
  let left := (x.setBuffer id (b.run script).buffer).note (.producerDropped id)
  let after : Session := ⟨left, s.writers ++ [w], s.readers⟩
  have hafter : (s.write size script others).2.Consistent := consistent_write hs size script others
  obtain ⟨heq, -, hsame⟩ := h.overflowed hstop
  rw [heq] at hafter ⊢
  refine ⟨?_, hs.sameBlob hsame, ⟨w, rfl, rfl, rfl⟩, rfl, ?_⟩
  · rw [h.next]
    exact hs.unissued_next.1
  · intro later
    -- nobody holds the producer, so it stays open
    have hw : (after.run later).writers[s.writers.length]? = some w :=
      writer_unheld List.getElem?_concat_length rfl later
    have hlater : (after.run later).Consistent := hafter.run later
    have hactive := hlater.active_of_writer (List.mem_of_getElem? hw) rfl
    obtain ⟨c, hc, hcontent⟩ := bufferOf_of_stands hactive
    exact ⟨c, hc, hcontent, hactive.2.1⟩

/-! ## Overflows -/

/-- What a command leaves that overflows. Only constructions and the commands to writers do. -/
def OverflowLeaves (s : Session) (others : Interference) (command : Command)
    (answer : Reply × Session) : Prop :=
  match command, answer.1 with
  | .construct _, _ => s.Untouched answer.2
  | .write _ script, .written notes _ =>
    match s.constructed others command with
    | none => s.Untouched answer.2
    | some id => s.Abandons answer.2 id (scriptAppended script notes)
  | .toWriter place command, .ofWriter reply =>
    ∃ w, s.writer? place = some w ∧ s.Extends answer.2 w.id (command.appended reply)
  | _, _ => False

theorem overflowLeaves_construct (hs : s.Consistent)
    (overflow : (s.construct size others).1.overflowed = true) :
    s.OverflowLeaves others (.construct size) (s.construct size others) := by
  apply untouched_construct hs
  rw [(construct_eq s size others).1] at overflow
  cases houtcome : (s.exchange.construct size others).1 with
  | error halt => simp only [constructed, houtcome, Except.toOption]
  | ok id =>
    rw [houtcome] at overflow
    cases overflow

theorem overflowLeaves_write (hs : s.Consistent)
    (overflow : (s.write size script others).1.overflowed = true) :
    s.OverflowLeaves others (.write size script) (s.write size script others) := by
  cases hid : s.constructed others (.write size script) with
  | none =>
    have huntouched := untouched_write hs hid
    simp only [OverflowLeaves, hid]
    exact huntouched
  | some id =>
    obtain ⟨-, b, h⟩ := hs.builds (Producer.construct_of_some hid)
    match hstop : b.stop script with
    | none =>
      obtain ⟨z, heq, -⟩ := h.completed hstop
      rw [heq] at overflow
      cases overflow
    | some (.failed e) =>
      rw [(h.failed hstop).1] at overflow
      cases overflow
    | some .overflow =>
      have habandons := h.abandons hs hstop
      have hreply := congrArg Prod.fst (h.overflowed hstop).1
      simp only [OverflowLeaves, hid, hreply]
      exact habandons

theorem overflowLeaves_toWriter (hs : s.Consistent) {place : Nat} {command : WriteCommand}
    (overflow : (s.toWriter place command).1.overflowed = true) :
    s.OverflowLeaves others (.toWriter place command) (s.toWriter place command) := by
  cases hw : s.writer? place with
  | none =>
    simp only [toWriter, hw] at overflow
    cases overflow
  | some w =>
    cases hopen : w.isOpen with
    | true =>
      obtain ⟨reply, hreply, hextends⟩ := extends_toWriter hs hw hopen command
      simp only [OverflowLeaves, hreply]
      exact ⟨w, hw, hextends⟩
    | false =>
      -- a finished writer refuses the command
      have hfinished : w.producer.finished = true := by simpa [Writer.isOpen] using hopen
      simp only [toWriter, hw, Producer.perform_of_finished hfinished] at overflow
      cases command <;> cases overflow

/-- In every session an overflow leaves all blobs as they were, except that a blob that is written
keeps what was appended before, and that a script leaves the blob behind that it was to write. -/
theorem overflow_abandons_only_a_new_blob (settings : Settings) (supplier : Supplier)
    (moves : List Move) (others : Interference) (command : Command)
    (overflow : (((start settings supplier).run moves).step others command).1.overflowed = true) :
    let s := (start settings supplier).run moves
    s.OverflowLeaves others command (s.step others command) := by
  intro s
  have hs : s.Consistent := consistent_run settings supplier moves
  change (s.step others command).1.overflowed = true at overflow
  cases command with
  | construct size => exact overflowLeaves_construct hs overflow
  | write size script => exact overflowLeaves_write hs overflow
  | toWriter place command => exact overflowLeaves_toWriter hs overflow
  | finishWriter place =>
    simp only [step, finishWriter] at overflow
    split at overflow <;> cases overflow
  | dropWriter place =>
    simp only [step, dropWriter] at overflow
    split at overflow <;> cases overflow
  | toReader place command =>
    simp only [step, toReader] at overflow
    split at overflow <;> cases overflow
  | finishReader place =>
    simp only [step, finishReader] at overflow
    split at overflow <;> cases overflow
  | dropReader place =>
    simp only [step, dropReader] at overflow
    split at overflow <;> cases overflow
  | _ => cases overflow

/-- Growth by so large a factor that no buffer with a capacity can grow. -/
def bursting : Settings := Settings.standard.withFactor ⟨0x7fefffffffffffff⟩

/-- A blob of four bytes of which two are written. -/
def halfWritten : List Move :=
  [⟨.construct 4, .absent⟩, ⟨.toWriter 0 (.run [.put [1, 2]]), .absent⟩]

/-- A construction overflows, a command to a writer, and a script in a blob of its own. -/
theorem three_overflows :
    let s := (start bursting (.exact bursting.growth)).run halfWritten
    let construction : Command := .construct (2 ^ 63)
    let amidWriting : Command := .toWriter 0 (.run [.put [3], .put [4, 5]])
    let amidScript : Command := .write 1 [.put [6], .put [7]]
    bursting.fault? = none ∧
      s.OverflowLeaves .absent construction (s.step .absent construction) ∧
      s.OverflowLeaves .absent amidWriting (s.step .absent amidWriting) ∧
      s.OverflowLeaves .absent amidScript (s.step .absent amidScript) ∧
      ((s.step .absent amidWriting).2.bufferOf ⟨1⟩).map Buffer.content = some [1, 2, 3] ∧
      ((s.step .absent amidScript).2.bufferOf ⟨2⟩).map Buffer.content = some [6] := by
  intro s construction amidWriting amidScript
  have hleaves := overflow_abandons_only_a_new_blob bursting (.exact bursting.growth) halfWritten
    .absent
  refine ⟨by decide +kernel, hleaves construction (by decide +kernel),
    hleaves amidWriting (by decide +kernel), hleaves amidScript (by decide +kernel), ?_, ?_⟩
  · decide +kernel
  · decide +kernel

/-- When a script overflows, a blob stays registered that was not before, and no client has a handle
of it. -/
theorem new_blob_is_left_behind :
    let s := start bursting (.exact bursting.growth)
    let answer := s.step .absent (.write 1 [.put [6], .put [7]])
    bursting.fault? = none ∧ answer.1.overflowed = true ∧
      s.exchange.registry.claims.get? ⟨1⟩ = none ∧
      answer.2.exchange.registry.claims.get? ⟨1⟩ = some ⟨true, 0⟩ ∧
      answer.2.exchange.activeBlobs = s.exchange.activeBlobs + 1 ∧
      answer.2.readers.length = 0 ∧ (answer.2.writers.all fun w => !w.held) = true := by
  decide +kernel

end Session

end BlobExchange
