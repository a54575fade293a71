import BlobExchange.Proofs.BufferChoice
import BlobExchange.Proofs.Claims
import BlobExchange.Proofs.ReclaimsOldest
/-! # Blobs written whole by a script

A script writes a whole blob or none (`scripts_write_all_or_nothing`), unless it overflows
(`Builds.overflowed`). -/

namespace BlobExchange

/-! ## How a script ends -/

namespace Buffer

/-- What ends a script before its time, if anything does: an instruction that fails, or an
allocation that is too large. -/
def stop (b : Buffer) : List Instruction → Option (Halt ChannelError)
  | [] => none
  | i :: rest =>
    match b.perform i with
    | .error halt => some halt
    | .ok (after, _) => after.stop rest

theorem outcome_run (b : Buffer) (script : List Instruction) :
    (b.run script).outcome = match b.stop script with
      | none => .ok ()
      | some halt => .error (halt.map ChannelError.opened) := by
  induction script generalizing b with
  | nil => rfl
  | cons i rest ih =>
    cases hp : b.perform i with
    | error halt => simp only [run, stop, hp]
    | ok performed =>
      obtain ⟨after, note⟩ := performed
      simp only [run, stop, hp]
      exact ih after

end Buffer

/-! ## Blobs that are gone -/

/-- A blob that was disposed of: nobody can claim it, and its cell is empty. -/
def Registry.Closed (r : Registry) (id : BlobId) : Prop :=
  r.claims.get? id = none ∧ r.cells.get? id = some ⟨none, true⟩

/-- No act brings a blob back. -/
theorem Act.closed {orderly : Prop} {a b : Exchange × Hand} {id : BlobId} (h : Act orderly a b)
    (ha : a.1.registry.Closed id) : b.1.registry.Closed id := by
  -- what acts on a blob finds its cell in another state, so it acts on another blob
  have hother : ∀ {j : BlobId} {c : Option Cell}, a.1.registry.cells.get? j = c →
      c ≠ some ⟨none, true⟩ → id ≠ j := by
    rintro j c hj hc rfl
    exact hc (hj.symm.trans ha.2)
  cases h with
  | strike deeds =>
    rw [Exchange.registry_amid]
    exact ha
  | catchUp others =>
    rw [(Exchange.Backstage.catchUp _ others).registry]
    exact ha
  | @issue x b room unissued =>
    have hid := hother unissued.2.1 nofun
    exact ⟨(Table.get?_insert _ _ _ _).trans ((if_neg hid).trans ha.1),
      (Table.get?_insert _ _ _ _).trans ((if_neg hid).trans ha.2)⟩
  | hold left active held =>
    obtain ⟨-, -, ⟨b, hcell, -⟩, -⟩ := active
    have hid := hother hcell nofun
    exact ⟨(Table.get?_insert _ _ _ _).trans ((if_neg hid).trans ha.1), ha.2⟩
  | write active there written =>
    have hid := hother there nofun
    exact ⟨ha.1, (Table.get?_insert _ _ _ _).trans ((if_neg hid).trans ha.2)⟩
  | withdraw active there =>
    have hid := hother there nofun
    exact ⟨(Table.get?_erase _ _ _).trans ((if_neg hid).trans ha.1),
      (Table.get?_insert _ _ _ _).trans ((if_neg hid).trans ha.2)⟩
  | _ => exact ha

namespace Session

variable {s : Session} {id : BlobId} {place : Nat}

/-- Nobody can claim a blob that is gone, whatever happens next. -/
theorem claim_of_closed (hs : s.Consistent) (hid : s.exchange.registry.Closed id)
    (moves : List Move) (others : Interference) :
    ((s.run moves).step others (.claim id)).1 = .claimed (.error (.unknownIdentifier id)) := by
  have hlater : (s.run moves).exchange.registry.Closed id :=
    (acts_run hs moves).keep (P := fun a => a.1.registry.Closed id)
      (fun _ _ ha h => h.closed ha) hid
  simp only [step, Consumer.claim, Exchange.claim_of_unknown hlater.1, welcome]

/-- A writer that no client holds stays as it is. -/
theorem writer_unheld {w : Writer} (hw : s.writers[place]? = some w) (hheld : w.held = false)
    (moves : List Move) : (s.run moves).writers[place]? = some w := by
  apply run_induction (P := fun s => s.writers[place]? = some w) hw
  intro s m hw
  rcases writers_step s m.others m.command with ⟨more, hmore⟩ | ⟨k, u, v, hu, hset, -⟩
  · unfold move
    rw [hmore, List.getElem?_append_left (List.getElem?_eq_some_iff.1 hw).1]
    exact hw
  · -- a step puts another writer only in the place of one that is held
    have hk : k ≠ place := by
      rintro rfl
      obtain ⟨hk, hkept⟩ := writer?_eq_some.1 hu
      rw [hw] at hk
      cases hk
      rw [hheld] at hkept
      cases hkept
    unfold move
    rw [hset, List.getElem?_set_ne hk]
    exact hw

end Session

/-! ## The three ends of a script -/

namespace Exchange

variable {x : Exchange} {id : BlobId} {b : Buffer} {script : List Instruction} {content : Bytes}
  {others : Interference}

theorem run_of_cell (hcell : x.registry.cells.get? id = some ⟨some b, false⟩) :
    Producer.run ⟨id, false⟩ x script = ⟨x.setBuffer id (b.run script).buffer,
      (b.run script).notes, blobOutcome (b.run script).outcome⟩ := by
  simp only [Producer.run, Producer.access_of_cell hcell]

/-- A script that completes is followed by a claim, and by the end of its producer. -/
theorem afterScript_completed (hx : x.Stands id (.active ⟨true, 0⟩ content))
    (hcell : x.registry.cells.get? id = some ⟨some b, false⟩) (hstop : b.stop script = none) :
    x.afterScript ⟨id, false⟩ script others =
      ⟨((x.setBuffer id (b.run script).buffer).claim id).2.endProducer id others,
        some ⟨id, true⟩, (b.run script).notes, .ok ⟨id, Cursor.start, false⟩⟩ := by
  have hwritten := (stands_setBuffer hx (b.run script).buffer).1
  have hclaimed := (stands_claim hwritten).1
  have houtcome := b.outcome_run script
  rw [hstop] at houtcome
  simp only [afterScript, run_of_cell hcell, houtcome, blobOutcome, Consumer.claim]
  generalize (x.setBuffer id (b.run script).buffer).claim id = claimed at hclaimed ⊢
  obtain ⟨outcome, y⟩ := claimed
  cases hclaimed
  rfl

/-- A script that fails is followed by the end of its producer. -/
theorem afterScript_failed {e : ChannelError}
    (hcell : x.registry.cells.get? id = some ⟨some b, false⟩)
    (hstop : b.stop script = some (.failed e)) :
    x.afterScript ⟨id, false⟩ script others =
      ⟨(x.setBuffer id (b.run script).buffer).endProducer id others, some ⟨id, true⟩,
        (b.run script).notes, .error (.failed (.ofChannel e))⟩ := by
  have houtcome := b.outcome_run script
  rw [hstop] at houtcome
  simp only [afterScript, run_of_cell hcell, houtcome, blobOutcome]
  rfl

/-- A script that overflows is not followed by anything: its producer is let go of as it is. -/
theorem afterScript_overflowed (hx : x.Stands id (.active ⟨true, 0⟩ content))
    (hcell : x.registry.cells.get? id = some ⟨some b, false⟩)
    (hstop : b.stop script = some .overflow) :
    x.afterScript ⟨id, false⟩ script others =
      ⟨(x.setBuffer id (b.run script).buffer).note (.producerDropped id), some ⟨id, false⟩,
        (b.run script).notes, .error .overflow⟩ := by
  have hwritten := (stands_setBuffer hx (b.run script).buffer).1
  have houtcome := b.outcome_run script
  rw [hstop] at houtcome
  simp only [afterScript, run_of_cell hcell, houtcome, blobOutcome, Halt.map, Producer.drop,
    isDisposed_of_stands hwritten]
  rfl

/-- The end of the last claim puts the buffer away. -/
theorem endProducer_last (hx : x.Stands id (.active ⟨true, 0⟩ content))
    (hcell : x.registry.cells.get? id = some ⟨some b, false⟩) :
    x.endProducer id others =
      { x with registry := x.registry.close id }.putAway id b others := by
  obtain ⟨-, hclaims, -⟩ := hx
  have hsettled := settle_active hcell ⟨false, 0⟩ others
  simp only [endProducer, Registry.endProducer, hclaims]
  exact hsettled

/-! ## The way back of a buffer -/

theorem disposals_putAway (x : Exchange) (id : BlobId) (b : Buffer) (others : Interference) :
    (x.putAway id b others).counters.disposals = x.counters.disposals + 1 := by
  simp only [putAway, keepBudget_apart, note, shelve, counters_amid]
  rfl

/-- A buffer that is put away is the one that has been idle for the shortest time, unless others
reclaimed it as soon as it was parked, or the budget does not permit a buffer of its size. -/
theorem Tallied.putAway (hx : x.Tallied (.ended id b)) (others : Interference) :
    let parked := (x.pool.sufferAll others.beforePark).park b
    parked.1 ∈ parked.2.losses others.afterPark ∨
      (∃ older, (x.putAway id b others).pool.idle = older ++ [(parked.1, b)]) ∨
      ∃ budget, x.settings.idleBudget = some budget ∧ budget < b.capacity ∧
        (x.putAway id b others).pool.idle = [] := by
  intro parked
  by_cases hlost : parked.1 ∈ parked.2.losses others.afterPark
  · exact Or.inl hlost
  · right
    have hidle := hx.idle_putAway others
    have hlast : [(parked.1, b)].filter (fun e => decide (e.1 ∉ parked.2.losses others.afterPark)) =
        [(parked.1, b)] := List.filter_cons_of_pos (decide_eq_true hlost)
    obtain ⟨older, hwaiting⟩ : ∃ older, x.waiting b others = older ++ [(parked.1, b)] :=
      ⟨_, (List.filter_append _ _).trans (congrArg (_ ++ ·) hlast)⟩
    rw [hwaiting] at hidle
    cases hbudget : x.settings.idleBudget with
    | none =>
      rw [hbudget] at hidle
      exact Or.inl ⟨older, hidle⟩
    | some budget =>
      rw [hbudget] at hidle
      rcases lighter_concat budget older (parked.1, b) with ⟨left, hleft⟩ | ⟨hnone, hlarge⟩
      · exact Or.inl ⟨left, hidle.trans hleft⟩
      · exact Or.inr ⟨budget, rfl, hlarge, hidle.trans hnone⟩

theorem counters_issue (x : Exchange) (size : Nat) (b : Buffer) (reused : Bool) :
    (x.issue size b reused).2.counters = x.counters := by
  unfold issue
  split <;> rfl

theorem disposals_construct (hx : x.InOrder .empty) (size : Nat) (others : Interference) :
    (x.construct size others).2.counters.disposals = x.counters.disposals := by
  cases hbest : bestFit size (x.idleAmid others) with
  | some e =>
    obtain ⟨h, b⟩ := e
    obtain ⟨y, hy, -, hissue⟩ := hx.construct_of_some hbest
    have hdisposals := congrArg Counters.disposals hy.counters
    rw [hissue, counters_issue]
    exact hdisposals
  | none =>
    obtain ⟨y, hy, -, hasked⟩ := hx.construct_of_none hbest
    have hdisposals := congrArg Counters.disposals hy.counters
    rw [hasked]
    cases x.supplier.request x.requests size with
    | error halt => exact hdisposals
    | ok b =>
      simp only [counters_issue]
      exact hdisposals

end Exchange

namespace Session

variable {s t : Session} {size : Nat} {others : Interference} {script : List Instruction}
  {id : BlobId} {b : Buffer} {x : Exchange} {content : Bytes} {e : ChannelError}

/-- A blob that was just constructed, in a buffer, in what has become of the exchange. -/
structure Builds (s : Session) (size : Nat) (others : Interference) (id : BlobId) (b : Buffer)
    (x : Exchange) : Prop where
  producer : Producer.construct s.exchange size others = (.ok ⟨id, false⟩, x)
  stands : x.Stands id (.active ⟨true, 0⟩ [])
  cell : x.registry.cells.get? id = some ⟨some b, false⟩
  same : Exchange.SameBut s.exchange x id
  next : id = s.exchange.blobIds.nextId.1
  blobIds : x.blobIds = s.exchange.blobIds.nextId.2

/-- A blob that was constructed stands as the next one, in the buffer that it got. -/
theorem Consistent.builds (hs : s.Consistent) {p : Producer}
    (hx : Producer.construct s.exchange size others = (.ok p, x)) :
    p = ⟨p.id, false⟩ ∧ ∃ b, Builds s size others p.id b x := by
  obtain ⟨rfl, hstands, hsame, hids⟩ := hs.construct_ok hx
  have hactive := hstands
  obtain ⟨-, -, ⟨b, hcell, -⟩, -⟩ := hactive
  exact ⟨rfl, b, hx, hstands, hcell, hsame, rfl, hids⟩

theorem builds_of_constructed (hs : s.Consistent)
    (hbuilt : (s.construct size others).1 = .constructed (.ok id))
    (hb : (s.construct size others).2.bufferOf id = some b) :
    Builds s size others id b (s.construct size others).2.exchange := by
  unfold construct at hbuilt hb ⊢
  cases hx : Producer.construct s.exchange size others with
  | mk outcome x =>
    rw [hx] at hbuilt hb
    cases outcome with
    | error halt => cases hbuilt
    | ok p =>
      cases hbuilt
      obtain ⟨-, c, h⟩ := hs.builds hx
      have hcell := (bufferOf_eq_some.1 hb).2
      rw [h.cell] at hcell
      cases hcell
      exact h

namespace Builds

theorem content_run (h : Builds s size others id b x) (script : List Instruction) :
    (b.run script).buffer.content = scriptAppended script (b.run script).notes := by
  obtain ⟨-, -, ⟨c, hcell, hempty⟩, -⟩ := h.stands
  rw [h.cell] at hcell
  cases hcell
  rw [Buffer.run_content, hempty, List.nil_append]

theorem stands_run (h : Builds s size others id b x) (script : List Instruction) :
    (x.setBuffer id (b.run script).buffer).Stands id
        (.active ⟨true, 0⟩ (scriptAppended script (b.run script).notes)) ∧
      Exchange.SameBut s.exchange (x.setBuffer id (b.run script).buffer) id := by
  obtain ⟨hwritten, hsame⟩ := Exchange.stands_setBuffer h.stands (b.run script).buffer
  rw [h.content_run] at hwritten
  exact ⟨hwritten, h.same.trans hsame⟩

theorem cell_run (h : Builds s size others id b x) (after : Buffer) :
    (x.setBuffer id after).registry.cells.get? id = some ⟨some after, false⟩ := by
  show (x.registry.setBuffer id after).cells.get? id = _
  simp only [Registry.setBuffer, h.cell, Table.get?_insert_self]

/-- When the blob is closed after the script, the idle buffers are still in order, and what was
counted is still the same. -/
theorem tallied_close (h : Builds s size others id b x) (hx : x.Tallied .empty)
    (script : List Instruction) :
    let y := x.setBuffer id (b.run script).buffer
    Exchange.Tallied { y with registry := y.registry.close id }
      (.ended id (b.run script).buffer) := by
  intro y
  have hacts : Acts False x y := Acts.setBuffer h.stands h.cell (.run script)
  have hclosed : Act False (y, .empty) _ := .withdraw (h.stands_run script).1 (h.cell_run _)
  exact (hx.acts hacts).act hclosed

theorem completed (h : Builds s size others id b x) (hstop : b.stop script = none) :
    ∃ z, s.write size script others = (.written (b.run script).notes (.ok id),
        ⟨z, s.writers ++ [⟨⟨id, true⟩, false, scriptAppended script (b.run script).notes⟩],
          s.readers ++ [Reader.ofConsumer ⟨id, Cursor.start, false⟩]⟩) ∧
      z.Stands id (.active ⟨false, 1⟩ (scriptAppended script (b.run script).notes)) ∧
      Exchange.SameBut s.exchange z id := by
  obtain ⟨hwritten, hsame⟩ := h.stands_run script
  have hclaimed := (Exchange.stands_claim hwritten).2
  obtain ⟨hended, hothers, -⟩ := Exchange.stands_endProducer hclaimed others
  refine ⟨_, ?_, hended, (hsame.trans (Exchange.sameBut_claim _ id)).trans hothers⟩
  simp only [write, Exchange.ofScript_of_ok h.producer,
    Exchange.afterScript_completed h.stands h.cell hstop, welcome]
  rfl

theorem failed (h : Builds s size others id b x) (hstop : b.stop script = some (.failed e)) :
    let y := x.setBuffer id (b.run script).buffer
    let z := { y with registry := y.registry.close id }.putAway id (b.run script).buffer others
    s.write size script others = (.written (b.run script).notes (.error (.failed (.ofChannel e))),
        ⟨z, s.writers ++ [⟨⟨id, true⟩, false, scriptAppended script (b.run script).notes⟩],
          s.readers⟩) ∧
      z.Stands id .disposed ∧ Exchange.SameBut s.exchange z id ∧
      z.blobIds = s.exchange.blobIds.nextId.2 := by
  intro y z
  obtain ⟨hwritten, hsame⟩ := h.stands_run script
  have hz : y.endProducer id others = z := Exchange.endProducer_last hwritten (h.cell_run _)
  obtain ⟨hended, hothers, hids, -⟩ := Exchange.stands_endProducer hwritten others
  rw [hz] at hended hothers hids
  refine ⟨?_, hended, hsame.trans hothers, hids.trans h.blobIds⟩
  simp only [write, Exchange.ofScript_of_ok h.producer, Exchange.afterScript_failed h.cell hstop,
    welcome]
  rw [← hz]
  rfl

theorem overflowed (h : Builds s size others id b x) (hstop : b.stop script = some .overflow) :
    let z := (x.setBuffer id (b.run script).buffer).note (.producerDropped id)
    s.write size script others = (.written (b.run script).notes (.error .overflow),
        ⟨z, s.writers ++ [⟨⟨id, false⟩, false, scriptAppended script (b.run script).notes⟩],
          s.readers⟩) ∧
      z.Stands id (.active ⟨true, 0⟩ (scriptAppended script (b.run script).notes)) ∧
      Exchange.SameBut s.exchange z id := by
  intro z
  obtain ⟨hwritten, hsame⟩ := h.stands_run script
  have hdropped : Exchange.Backstage (x.setBuffer id (b.run script).buffer) z [] := .note _ _ rfl
  refine ⟨?_, hdropped.stands hwritten, hsame.trans (hdropped.sameBut id)⟩
  simp only [write, Exchange.ofScript_of_ok h.producer,
    Exchange.afterScript_overflowed h.stands h.cell hstop, welcome]
  rfl

end Builds

/-! ## Readers of a blob -/

/-- The reader at a place reads just these bytes. -/
def ReadsAll (s : Session) (place : Nat) (bytes : Bytes) : Prop :=
  ∀ others, (s.step others (.toReader place .readAll)).1 = .ofReader (.read (.ok bytes))

/-- Whoever finds a blob's identifier at the front of a message, followed by other bytes, gets a
reader of their own from it. Both that reader and the one at the place read just these bytes. -/
def SharedBy (s : Session) (place : Nat) (id : BlobId) (bytes : Bytes) : Prop :=
  ∀ (message : Message) (behind : Bytes) (others : Interference),
    message.flatten = id.encode ++ behind →
      ∃ rest : Message, rest.flatten = behind ∧
        (s.step others (.claimFrom message)).1 = .claimedFrom rest (.ok id) ∧
        (s.step others (.claimFrom message)).2.ReadsAll place bytes ∧
        (s.step others (.claimFrom message)).2.ReadsAll s.readers.length bytes

theorem reads_all {place : Nat} {claims : Claims}
    (hr : s.readers[place]? = some (Reader.ofConsumer ⟨id, Cursor.start, false⟩))
    (hid : s.exchange.Stands id (.active claims content)) : s.ReadsAll place content := by
  intro others
  obtain ⟨c, hc, hcontent⟩ :=
    Consumer.access_of_open (c := ⟨id, Cursor.start, false⟩) rfl hid .consume
  have hreader : s.reader? place = some (Reader.ofConsumer ⟨id, Cursor.start, false⟩) := by
    simp only [reader?, hr]
    rfl
  have hread : (Consumer.perform ⟨id, Cursor.start, false⟩ s.exchange .readAll).1 =
      .read (.ok content) := by
    simp only [Consumer.perform, Consumer.readAll, hc]
    rw [← hcontent]
    rfl
  simp only [step, toReader, hreader]
  exact congrArg Reply.ofReader hread

theorem shared_by {place : Nat} {claims : Claims}
    (hr : s.readers[place]? = some (Reader.ofConsumer ⟨id, Cursor.start, false⟩))
    (hid : s.exchange.Stands id (.active claims content)) : s.SharedBy place id content := by
  intro message behind others hmessage
  obtain ⟨rest, hread, hrest⟩ := Message.readId_of_encode hmessage
  obtain ⟨hok, hclaimed⟩ := Exchange.stands_claim hid
  have hplace := (List.getElem?_eq_some_iff.1 hr).1
  have hstep : s.step others (.claimFrom message) = (.claimedFrom rest (.ok id),
      { s with
        exchange := (s.exchange.claim id).2
        readers := s.readers ++ [Reader.ofConsumer ⟨id, Cursor.start, false⟩] }) := by
    simp only [step, Consumer.claimFrom, hread, Consumer.claim]
    generalize s.exchange.claim id = claimed at hok ⊢
    obtain ⟨outcome, y⟩ := claimed
    cases hok
    rfl
  rw [hstep]
  refine ⟨rest, hrest, rfl, reads_all ?_ hclaimed, reads_all ?_ hclaimed⟩
  · rw [List.getElem?_append_left hplace]
    exact hr
  · exact List.getElem?_concat_length

/-! ## All or nothing -/

theorem bufferOf_of_unclaimed (h : s.exchange.registry.claims.get? id = none) :
    s.bufferOf id = none := by
  unfold bufferOf
  rw [h]

/-- What is the same for clients in two sessions that a blob stands alike in: its claims and its
content. -/
theorem same_of_stands {st : Standing} (hs : s.exchange.Stands id st)
    (ht : t.exchange.Stands id st) :
    t.exchange.registry.claims.get? id = s.exchange.registry.claims.get? id ∧
      (t.bufferOf id).map Buffer.content = (s.bufferOf id).map Buffer.content := by
  cases st with
  | unissued =>
    rw [hs.1, ht.1, bufferOf_of_unclaimed hs.1, bufferOf_of_unclaimed ht.1]
    exact ⟨rfl, rfl⟩
  | disposed =>
    rw [hs.1, ht.1, bufferOf_of_unclaimed hs.1, bufferOf_of_unclaimed ht.1]
    exact ⟨rfl, rfl⟩
  | active claims content =>
    obtain ⟨b, hb, hcontent⟩ := bufferOf_of_stands hs
    obtain ⟨c, hc, hcontent'⟩ := bufferOf_of_stands ht
    obtain ⟨-, hclaims, -⟩ := hs
    obtain ⟨-, hclaims', -⟩ := ht
    rw [hclaims, hclaims', hb, hc]
    exact ⟨rfl, congrArg some (hcontent'.trans hcontent.symm)⟩

/-- What a script leaves that completed. Its client has the blob's only claim and reads just the
content. Whoever finds the identifier in a message gets a claim of their own and reads the same. The
blob is active while one of these claims is open, and disposed of with the last. -/
structure WritesWhole (s : Session) (id : BlobId) (content : Bytes) (notes : List Note)
    (answer : Reply × Session) : Prop where
  reply : answer.1 = .written notes (.ok id)
  readers : answer.2.readers = s.readers ++ [Reader.ofConsumer ⟨id, Cursor.start, false⟩]
  claims : answer.2.exchange.registry.claims.get? id = some ⟨false, 1⟩
  reads : answer.2.ReadsAll s.readers.length content
  shared : answer.2.SharedBy s.readers.length id content
  held : ∀ moves, (answer.2.run moves).exchange.Stands id
    (.of ⟨false, openReaders (answer.2.run moves).readers id⟩ content)
  ends : ∀ moves, (answer.2.run moves).EndsWithLastClaim
  others : ∀ j, j ≠ id →
    answer.2.exchange.registry.claims.get? j = s.exchange.registry.claims.get? j ∧
      (answer.2.bufferOf j).map Buffer.content = (s.bufferOf j).map Buffer.content

/-- A buffer comes back to the pool, and is the last of the idle ones there. It may be that others
reclaim it as soon as it is parked. Or the budget does not permit a buffer of its size; then nothing
is left idle. -/
def GivesBack (settings : Settings) (pool : Pool) (b : Buffer) (others : Interference)
    (after : Exchange) : Prop :=
  let parked := (pool.sufferAll others.beforePark).park b
  parked.1 ∈ parked.2.losses others.afterPark ∨
    (∃ older, after.pool.idle = older ++ [(parked.1, b)]) ∨
    ∃ budget, settings.idleBudget = some budget ∧ budget < b.capacity ∧ after.pool.idle = []

/-- What a script leaves that failed. The failure is given, as the buffer's refusal if it was one. No
reader is handed out, and all blobs have the claims and contents that they had. One identifier is
used up, which names no blob ever after. The buffer comes back as large as it has grown, and like every idle
buffer it can be found on the shelf. -/
structure WritesNothing (settings : Settings) (s : Session) (id : BlobId) (e : ChannelError)
    (ran : ScriptRun) (pool : Pool) (others : Interference) (answer : Reply × Session) : Prop where
  reply : answer.1 = .written ran.notes (.error (.failed (.ofChannel e)))
  refusal : ∀ requested limit, e = (BufferError.capacityExceeded requested limit).toChannelError →
    answer.1 = .written ran.notes (.error (.failed (.buffer (.capacityExceeded requested limit))))
  readers : answer.2.readers = s.readers
  blobs : ∀ j, answer.2.exchange.registry.claims.get? j = s.exchange.registry.claims.get? j ∧
    (answer.2.bufferOf j).map Buffer.content = (s.bufferOf j).map Buffer.content
  identifier : id = s.exchange.blobIds.nextId.1 ∧
    answer.2.exchange.blobIds = s.exchange.blobIds.nextId.2
  unknown : ∀ moves others, ((answer.2.run moves).step others (.claim id)).1 =
    .claimed (.error (.unknownIdentifier id))
  disposals : answer.2.exchange.counters.disposals = s.exchange.counters.disposals + 1
  buffer : GivesBack settings pool ran.buffer others answer.2.exchange
  findable : answer.2.exchange.Findable

theorem Builds.writesWhole (h : Builds s size others id b x) (hs : s.Consistent)
    (hstop : b.stop script = none) :
    WritesWhole s id (scriptAppended script (b.run script).notes) (b.run script).notes
      (s.step others (.write size script)) := by
  obtain ⟨z, heq, hactive, hsame⟩ := h.completed hstop
  let w : Writer := ⟨⟨id, true⟩, false, scriptAppended script (b.run script).notes⟩
  let r : Reader := Reader.ofConsumer ⟨id, Cursor.start, false⟩
  let after : Session := ⟨z, s.writers ++ [w], s.readers ++ [r]⟩
  have hnext : (s.write size script others).2.Consistent := consistent_write hs size script others
  rw [heq] at hnext
  have hlater : ∀ moves, (after.run moves).Consistent := hnext.run
  have hreader : after.readers[s.readers.length]? = some r := List.getElem?_concat_length
  have hwriter : ∀ moves, (after.run moves).writers[s.writers.length]? = some w :=
    writer_unheld List.getElem?_concat_length rfl
  show WritesWhole s id _ _ (s.write size script others)
  rw [heq]
  refine ⟨rfl, rfl, hactive.2.1, reads_all hreader hactive, shared_by hreader hactive, ?_,
    fun moves => (hlater moves).endsWithLastClaim, ?_⟩
  · -- the writer is closed and nobody holds it, so the blob stands by its readers
    intro moves
    have hstands := (hlater moves).stands w.id
    rw [standing_of_mem (hlater moves).distinct (List.mem_of_getElem? (hwriter moves))] at hstands
    exact hstands
  · intro j hj
    have hbefore := hs.stands j
    exact same_of_stands hbefore (hsame j _ hj hbefore)

theorem Builds.writesNothing (h : Builds s size others id b x) (hs : s.Consistent)
    (hx : s.exchange.Tallied .empty) (hstop : b.stop script = some (.failed e)) :
    WritesNothing s.exchange.settings s id e (b.run script) x.pool others
      (s.step others (.write size script)) := by
  obtain ⟨heq, hgone, hsame, hids⟩ := h.failed hstop
  have hnext : (s.write size script others).2.Consistent := consistent_write hs size script others
  have hconstructed : x = (s.exchange.construct size others).2 := by
    rw [← Acts.exchange_construct, h.producer]
  have hbuilt : Acts False s.exchange x := by
    rw [hconstructed]
    exact Acts.construct hs.unissued_next False.elim size others
  have hwritten : Acts False s.exchange (s.write size script others).2.exchange :=
    acts_step hs others (.write size script) False.elim
  show WritesNothing _ s id e _ _ others (s.write size script others)
  rw [heq] at hnext hwritten ⊢
  refine ⟨rfl, ?_, rfl, ?_, ⟨h.next, hids⟩, ?_, ?_, ?_, (hx.acts hwritten).inOrder.findable⟩
  · rintro requested limit rfl
    rfl
  · intro j
    by_cases hj : j = id
    · -- the blob was not there before, and nobody can claim what is left of it
      subst hj
      have hunissued := hs.unissued_next
      rw [← h.next] at hunissued
      have hclaims := hgone.1
      rw [bufferOf_of_unclaimed hunissued.1, hunissued.1, bufferOf_of_unclaimed hclaims]
      exact ⟨hclaims, rfl⟩
    · have hbefore := hs.stands j
      exact same_of_stands hbefore (hsame j _ hj hbefore)
  · exact claim_of_closed hnext ⟨hgone.1, hgone.2.1⟩
  · show (Exchange.putAway _ id _ others).counters.disposals = _
    rw [Exchange.disposals_putAway]
    show x.counters.disposals + 1 = _
    rw [hconstructed, Exchange.disposals_construct hx.inOrder]
  · have hback := (h.tallied_close (hx.acts hbuilt) script).putAway others
    rw [← hbuilt.fixed.1]
    exact hback

/-- In every session a script writes a whole blob or none. -/
theorem scripts_write_all_or_nothing (settings : Settings) (supplier : Supplier)
    (moves : List Move) (size : Nat) (script : List Instruction) (others : Interference) :
    let s := (start settings supplier).run moves
    let built := s.step others (.construct size)
    let answer := s.step others (.write size script)
    ∀ id b, built.1 = .constructed (.ok id) → built.2.bufferOf id = some b →
      (b.stop script = none →
        WritesWhole s id (scriptAppended script (b.run script).notes) (b.run script).notes
          answer) ∧
      ∀ e, b.stop script = some (.failed e) →
        WritesNothing settings s id e (b.run script) built.2.exchange.pool others answer := by
  intro s built answer id b hbuilt hb
  have hs : s.Consistent := consistent_run settings supplier moves
  have hsettings : s.exchange.settings = settings := (fixed_run settings supplier moves).1
  have h : Builds s size others id b built.2.exchange := builds_of_constructed hs hbuilt hb
  refine ⟨h.writesWhole hs, ?_⟩
  intro e hstop
  rw [← hsettings]
  exact h.writesNothing hs (tallied_run settings supplier moves) hstop

/-- Doubling up to eight bytes, and no more than eight bytes idle. -/
def frugal : Settings := (Settings.standard.withMaxCapacity 8).withIdleBudget 8

/-- Two buffers of four bytes are idle. -/
def twoOfFour : List Move :=
  [⟨.construct 4, .absent⟩, ⟨.construct 4, .absent⟩, ⟨.finishWriter 0, .absent⟩,
    ⟨.finishWriter 1, .absent⟩]

/-- Of two scripts one writes three bytes, and the other comes upon the limit. The buffer of the
latter has grown to eight bytes, and the other idle one has to go. -/
theorem three_written_or_nine_refused :
    let s := (start frugal (.exact frugal.growth)).run twoOfFour
    let built := s.step .absent (.construct 2)
    let id : BlobId := s.exchange.blobIds.nextId.1
    let b : Buffer := ⟨[], 4, frugal.growth⟩
    let large : List Instruction := [.put [1, 2, 3, 4, 5, 6], .put [7, 8, 9]]
    let refused := s.step .absent (.write 2 large)
    WritesWhole s id [1, 2, 3] [.written 3] (s.step .absent (.write 2 [.put [1, 2, 3]])) ∧
      WritesNothing frugal s id (.refusal .other 9 8) (b.run large) built.2.exchange.pool .absent
        refused ∧
      refused.2.exchange.pool.idle.map (fun d => d.2.capacity) = [8] := by
  intro s built id b large refused
  have hb : built.2.bufferOf id = some b := by decide +kernel
  have hends := fun script => scripts_write_all_or_nothing frugal (.exact frugal.growth) twoOfFour
    2 script .absent id b rfl hb
  have hsmall : b.stop [.put [1, 2, 3]] = none := by decide +kernel
  have hlarge : b.stop large = some (.failed (.refusal .other 9 8)) := by decide +kernel
  exact ⟨(hends [.put [1, 2, 3]]).1 hsmall, (hends large).2 _ hlarge, by decide +kernel⟩

end Session

end BlobExchange
