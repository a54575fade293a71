import BlobExchange.Proofs.HandleAgreement
/-! # Payloads stay whole

A registered blob holds what was appended through its own writer (`payloads_stay_whole`). -/

namespace BlobExchange.Session

variable {s : Session}

/-- The buffer of a registered blob. -/
def bufferOf (s : Session) (id : BlobId) : Option Buffer :=
  match s.exchange.registry.claims.get? id, s.exchange.registry.cells.get? id with
  | some _, some ⟨some b, false⟩ => some b
  | _, _ => none

/-- Registered blobs hold what was appended through their writers, and readers have read it up to
their cursors. -/
structure PayloadWhole (s : Session) : Prop where
  stored : ∀ w ∈ s.writers, (s.exchange.registry.claims.get? w.id).isSome = true →
    ∃ b, s.bufferOf w.id = some b ∧ b.content = w.log
  read : ∀ r ∈ s.readers, r.isOpen = true → ∃ b, s.bufferOf r.id = some b ∧
    (r.fair = true → r.consumer.cursor.position ≤ b.content.length ∧
      r.log = b.content.take r.consumer.cursor.position ∧
      r.consumer.ahead s.exchange = .ok (b.content.length - r.consumer.cursor.position))

/-- No move but a command to a blob's writer changes the content of the blob. -/
def ContentUndisturbed (s : Session) : Prop :=
  ∀ m place w b later, s.writers[place]? = some w →
    (∀ command, m.command ≠ .toWriter place command) →
    s.bufferOf w.id = some b → (s.move m).bufferOf w.id = some later →
    later.content = b.content

theorem bufferOf_eq_some {id : BlobId} {b : Buffer} : s.bufferOf id = some b ↔
    (∃ claims, s.exchange.registry.claims.get? id = some claims) ∧
      s.exchange.registry.cells.get? id = some ⟨some b, false⟩ := by
  unfold bufferOf
  constructor
  · intro h
    split at h
    · rename_i claims c hclaims hcell
      cases h
      exact ⟨⟨claims, hclaims⟩, hcell⟩
    · cases h
  · rintro ⟨⟨claims, hclaims⟩, hcell⟩
    rw [hclaims, hcell]

theorem bufferOf_of_stands {id : BlobId} {claims : Claims} {content : Bytes}
    (hs : s.exchange.Stands id (.active claims content)) :
    ∃ b, s.bufferOf id = some b ∧ b.content = content := by
  obtain ⟨-, hclaims, ⟨b, hcell, hcontent⟩, -⟩ := hs
  refine ⟨b, ?_, hcontent⟩
  unfold bufferOf
  rw [hclaims, hcell]

theorem registered_of_bufferOf {id : BlobId} {b : Buffer} (hb : s.bufferOf id = some b) :
    (s.exchange.registry.claims.get? id).isSome = true := by
  unfold bufferOf at hb
  split at hb
  · rename_i hclaims _
    rw [hclaims]
    rfl
  · cases hb

theorem Consistent.payloadWhole (hs : s.Consistent) : s.PayloadWhole := by
  refine ⟨?_, ?_⟩
  · intro w hw hregistered
    obtain ⟨claims, hclaims⟩ := Option.isSome_iff_exists.1 hregistered
    obtain ⟨v, hv, hvw, -, hactive⟩ := hs.active_of_claims hclaims
    obtain rfl := List.inj_on_of_nodup_map hs.distinct hv hw hvw
    exact bufferOf_of_stands hactive
  · intro r hr hopen
    obtain ⟨w, hw, hwr⟩ := hs.issued r hr
    have hactive := hs.active_of_reader hr hopen hw hwr
    rw [hwr] at hactive
    obtain ⟨b, hb, hcontent⟩ := bufferOf_of_stands hactive
    refine ⟨b, hb, fun hfair => ?_⟩
    obtain ⟨hposition, hlog⟩ := hs.reads r hr hopen hfair w hw hwr
    rw [← hcontent] at hposition hlog
    refine ⟨hposition, hlog, ?_⟩
    have hfinished : r.consumer.finished = false := by simpa [Reader.isOpen] using hopen
    obtain ⟨b', haccess, hcontent'⟩ := Consumer.access_of_open hfinished hactive .length
    unfold Consumer.ahead
    rw [haccess]
    show Except.ok (b'.content.length - _) = _
    rw [hcontent', hcontent]

/-- A writer of the same blob, through which the same was appended, stands at a place. -/
def KeepsWriter (writers : List Writer) (place : Nat) (w : Writer) : Prop :=
  ∃ v, writers[place]? = some v ∧ v.id = w.id ∧ v.log = w.log

section Keeps

variable {writers : List Writer} {place : Nat} {w : Writer}

theorem keepsWriter_append (hw : writers[place]? = some w) (more : List Writer) :
    KeepsWriter (writers ++ more) place w := by
  have hlt : place < writers.length := (List.getElem?_eq_some_iff.1 hw).1
  refine ⟨w, ?_, rfl, rfl⟩
  rw [List.getElem?_append_left hlt]
  exact hw

theorem keepsWriter_set {k : Nat} {u u' : Writer} (hw : writers[place]? = some w)
    (hu : writers[k]? = some u) (hid : u'.id = u.id) (hlog : u'.log = u.log) :
    KeepsWriter (writers.set k u') place w := by
  have hlt : place < writers.length := (List.getElem?_eq_some_iff.1 hw).1
  by_cases hk : k = place
  · subst hk
    rw [hu] at hw
    cases hw
    exact ⟨u', List.getElem?_set_self hlt, hid, hlog⟩
  · refine ⟨w, ?_, rfl, rfl⟩
    rw [List.getElem?_set_ne hk]
    exact hw

end Keeps

/-- What a step may make of the writers: it adds some, or in the place of one that its client holds
it puts one of the same blob, through which more was appended only by a command to it. -/
theorem writers_step (s : Session) (others : Interference) (command : Command) :
    (∃ more, (s.step others command).2.writers = s.writers ++ more) ∨
      ∃ k u v, s.writer? k = some u ∧ (s.step others command).2.writers = s.writers.set k v ∧
        v.id = u.id ∧ (v.log = u.log ∨ ∃ c, command = .toWriter k c) := by
  have hsame : ∃ more, s.writers = s.writers ++ more := ⟨[], (List.append_nil _).symm⟩
  cases command with
  | construct size =>
    left
    simp only [step, construct]
    split
    · exact ⟨_, rfl⟩
    · exact hsame
  | write size script =>
    left
    simp only [step, write, welcome]
    split <;> exact ⟨_, rfl⟩
  | toWriter k c =>
    simp only [step, toWriter]
    split
    · exact Or.inl hsame
    · rename_i u hu
      exact Or.inr ⟨k, u, _, hu, rfl, rfl, Or.inr ⟨c, rfl⟩⟩
  | finishWriter k =>
    simp only [step, finishWriter]
    split
    · exact Or.inl hsame
    · rename_i u hu
      refine Or.inr ⟨k, u, _, hu, rfl, ?_, Or.inl rfl⟩
      unfold Producer.finish
      split <;> rfl
  | dropWriter k =>
    simp only [step, dropWriter]
    split
    · exact Or.inl hsame
    · rename_i u hu
      exact Or.inr ⟨k, u, _, hu, rfl, rfl, Or.inl rfl⟩
  | claim id =>
    simp only [step, welcome]
    split <;> exact Or.inl hsame
  | claimFrom message =>
    simp only [step, welcome]
    split <;> exact Or.inl hsame
  | toReader k c =>
    simp only [step, toReader]
    split <;> exact Or.inl hsame
  | finishReader k =>
    simp only [step, finishReader]
    split <;> exact Or.inl hsame
  | dropReader k =>
    simp only [step, dropReader]
    split <;> exact Or.inl hsame
  | activeBlobs => exact Or.inl hsame
  | shelved => exact Or.inl hsame
  | statistics => exact Or.inl hsame
  | shrink => exact Or.inl hsame
  | reclaim keep => exact Or.inl hsame
  | meanwhile deeds => exact Or.inl hsame

/-- A writer's log grows by commands to that writer only, and its blob stays the same. -/
theorem writer_step {place : Nat} {w : Writer} (hw : s.writers[place]? = some w)
    (others : Interference) (command : Command) (hother : ∀ c, command ≠ .toWriter place c) :
    KeepsWriter (s.step others command).2.writers place w := by
  rcases writers_step s others command with ⟨more, hmore⟩ | ⟨k, u, v, hu, hset, hid, hlog⟩
  · rw [hmore]
    exact keepsWriter_append hw more
  · rw [hset]
    rcases hlog with hlog | ⟨c, rfl⟩
    · exact keepsWriter_set hw (writer?_eq_some.1 hu).1 hid hlog
    · have hk : k ≠ place := fun heq => hother c (heq ▸ rfl)
      refine ⟨w, ?_, rfl, rfl⟩
      rw [List.getElem?_set_ne hk]
      exact hw

theorem Consistent.contentUndisturbed (hs : s.Consistent) : s.ContentUndisturbed := by
  intro m place w b later hw hother hb hlater
  -- before and after the move the blob holds its writer's log, which the move leaves alone
  obtain ⟨v, hv, hid, hlog⟩ := writer_step hw m.others m.command hother
  have hnext := (consistent_step hs m.others m.command).payloadWhole.stored v
    (List.mem_of_getElem? hv)
  rw [hid] at hnext
  obtain ⟨c, hc, hcontent⟩ := hnext (registered_of_bufferOf hlater)
  obtain ⟨d, hd, hbefore⟩ := hs.payloadWhole.stored w (List.mem_of_getElem? hw)
    (registered_of_bufferOf hb)
  rw [hb] at hd
  cases hd
  change (s.move m).bufferOf w.id = some c at hc
  rw [hlater] at hc
  cases hc
  rw [hcontent, hbefore, hlog]

/-- Payloads stay whole in every session, whatever clients asked and others did. -/
theorem payloads_stay_whole (settings : Settings) (supplier : Supplier) (moves : List Move) :
    let s := (start settings supplier).run moves
    s.PayloadWhole ∧ s.ContentUndisturbed := by
  intro s
  have hs : s.Consistent := consistent_run settings supplier moves
  exact ⟨hs.payloadWhole, hs.contentUndisturbed⟩

end BlobExchange.Session
