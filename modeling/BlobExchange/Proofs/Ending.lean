import BlobExchange.Proofs.AllOrNothing
/-! # How a blob ends

A command ends one blob or none, and then its buffer is put away (`ends_step`). As long as no blob
ends, idle buffers are only lost (`Acts.wanes`). -/

namespace BlobExchange

/-! ## While no blob ends -/

namespace Pool

variable {p q r : Pool} {lost more : List Handle}

theorem Loses.trans (hpq : p.Loses q lost) (hqr : q.Loses r more) : p.Loses r (lost ++ more) := by
  refine ⟨?_, ?_⟩
  · rw [hqr.idle, hpq.idle, List.filter_filter]
    apply List.filter_congr
    intro e _
    simp [Bool.and_comm]
  · intro j
    rw [hqr.claimed, hpq.claimed]
    by_cases hmore : j ∈ more
    · simp [hmore]
    · simp [hmore]

theorem Loses.sublist (hpq : p.Loses q lost) : q.idle.Sublist p.idle := by
  rw [hpq.idle]
  exact List.filter_sublist

end Pool

namespace Exchange

/-- Idle buffers were lost and entries taken off the shelf, at most. -/
structure Wanes (x y : Exchange) : Prop where
  pool : ∃ lost, x.pool.Loses y.pool lost
  entries : y.shelf.entries ⊆ x.shelf.entries
  shelfIds : y.shelfIds = x.shelfIds

namespace Wanes

variable {x y z : Exchange}

theorem same (pool : y.pool = x.pool) (shelf : y.shelf = x.shelf)
    (shelfIds : y.shelfIds = x.shelfIds) : x.Wanes y := by
  refine ⟨⟨[], ?_⟩, ?_, shelfIds⟩
  · rw [pool]
    exact .refl x.pool
  · rw [shelf]
    exact List.Subset.refl _

theorem trans (hxy : x.Wanes y) (hyz : y.Wanes z) : x.Wanes z := by
  obtain ⟨lost, hlost⟩ := hxy.pool
  obtain ⟨more, hmore⟩ := hyz.pool
  exact ⟨⟨lost ++ more, hlost.trans hmore⟩, List.Subset.trans hyz.entries hxy.entries,
    hyz.shelfIds.trans hxy.shelfIds⟩

theorem amid (x : Exchange) (deeds : List Reclamation) : x.Wanes (x.amid deeds) := by
  refine ⟨⟨x.pool.losses deeds, ?_⟩, ?_, shelfIds_amid x deeds⟩
  · rw [pool_amid]
    exact .sufferAll x.pool deeds
  · rw [shelf_amid]
    exact List.Subset.refl _

theorem catchUp (x : Exchange) (others : Interference) : x.Wanes (x.catchUp others) := by
  have hacknowledge : ∀ (y : Exchange) (reports : List Handle),
      (y.acknowledge reports).shelfIds = y.shelfIds := by
    intro y reports
    induction reports generalizing y with
    | nil => rfl
    | cons h rest ih =>
      unfold Exchange.acknowledge
      split
      · exact ih _
      · rfl
  have hfetch : x.fetch.2.shelfIds = x.shelfIds := by
    simp only [fetch]
    split <;> rfl
  refine ⟨⟨_, loses_catchUp x others⟩, entries_catchUp x others, ?_⟩
  rw [Exchange.catchUp, hacknowledge, fetchAmid, shelfIds_amid, hfetch]

theorem takeIdle (x : Exchange) (size : Nat) : x.Wanes (x.takeIdle size).2 :=
  ⟨⟨_, loses_takeIdle x size⟩, entries_takeIdle x size, rfl⟩

end Wanes

end Exchange

/-- What a single act does to the idle buffers: it parks one, or shelves one whose blob has ended, or
at most takes some away and ends no blob. -/
theorem Act.wanes {orderly : Prop} {a b : Exchange × Hand} (h : Act orderly a b) :
    (∃ id c h, b.2 = .parked id c h ∧ b.1.ended = a.1.ended) ∨
      (∃ id, b.1.ended = a.1.ended ++ [id]) ∨
      (b.1.ended = a.1.ended ∧ a.1.Wanes b.1 ∧ ∀ id c h, a.2 ≠ .parked id c h) := by
  cases h with
  | note e unread quiet =>
    refine Or.inr (Or.inr ⟨?_, .same rfl rfl rfl, nofun⟩)
    rw [Exchange.ended_note, quiet, List.append_nil]
  | @strike x hand deeds =>
    have hended : (x.amid deeds).ended = x.ended := Exchange.ended_amid x deeds
    cases hand with
    | parked id c h => exact Or.inl ⟨id, c, h, rfl, hended⟩
    | _ => exact Or.inr (Or.inr ⟨hended, .amid x deeds, nofun⟩)
  | @reclaim x keep =>
    have hlost : x.pool.Loses (x.pool.reclaimDownTo keep).2 _ := .sufferAll x.pool [.downTo keep]
    exact Or.inr (Or.inr ⟨rfl, ⟨⟨_, hlost⟩, List.Subset.refl _, rfl⟩, nofun⟩)
  | @catchUp x others =>
    exact Or.inr (Or.inr ⟨(Exchange.Backstage.catchUp x others).ended, .catchUp x others, nofun⟩)
  | @find x b size found =>
    refine Or.inr (Or.inr ⟨(Exchange.Backstage.takeIdle x size).ended, ?_, nofun⟩)
    exact (Exchange.Wanes.takeIdle x size).trans (.same rfl rfl rfl)
  | @miss x size missed =>
    exact Or.inr (Or.inr ⟨(Exchange.Backstage.takeIdle x size).ended, .takeIdle x size, nofun⟩)
  | @park x id b => exact Or.inl ⟨id, b, _, rfl, rfl⟩
  | @shelve x id b h => exact Or.inr (Or.inl ⟨id, Exchange.ended_note _ _⟩)
  | _ => exact Or.inr (Or.inr ⟨rfl, .same rfl rfl rfl, nofun⟩)

/-- As long as no blob ends, idle buffers are only lost. -/
theorem Acts.wanes {orderly : Prop} {x y : Exchange} (h : Acts orderly x y)
    (hended : y.ended = x.ended) : x.Wanes y := by
  let P : Exchange × Hand → Prop := fun a => ∃ more, a.1.ended = x.ended ++ more ∧
    (more = [] → (∀ id c h, a.2 ≠ .parked id c h) → x.Wanes a.1)
  have hx : P (x, .empty) := ⟨[], (List.append_nil _).symm, fun _ _ => .same rfl rfl rfl⟩
  have hkept : ∀ a b, P a → Act orderly a b → P b := by
    rintro a b ⟨more, hmore, hwanes⟩ hact
    rcases hact.wanes with ⟨id, c, h, hparked, hsame⟩ | ⟨id, hnext⟩ | ⟨hsame, hlost, hunparked⟩
    · exact ⟨more, hsame.trans hmore, fun _ hnot => absurd hparked (hnot id c h)⟩
    · refine ⟨more ++ [id], ?_, ?_⟩
      · rw [hnext, hmore, List.append_assoc]
      · intro hnone
        exact absurd hnone (List.append_ne_nil_of_right_ne_nil more (List.cons_ne_nil id []))
    · exact ⟨more, hsame.trans hmore, fun hnone _ => (hwanes hnone hunparked).trans hlost⟩
  obtain ⟨more, hmore, hwanes⟩ := h.keep hkept hx
  refine hwanes ?_ nofun
  exact List.append_right_eq_self.1 (hmore.symm.trans hended)

/-! ## The end of a blob -/

namespace Exchange

variable {x y : Exchange} {id : BlobId} {b : Buffer} {claims : Claims} {content : Bytes}

/-- A blob that was active in `x` has ended in `y`, and its buffer was put away. -/
structure Ends (x y : Exchange) (id : BlobId) (b : Buffer) (others : Interference) : Prop where
  active : ∃ claims content, x.Stands id (.active claims content)
  there : x.registry.cells.get? id = some ⟨some b, false⟩
  away : y = { x with registry := x.registry.close id }.putAway id b others

theorem ended_putAway (x : Exchange) (id : BlobId) (b : Buffer) (others : Interference) :
    (x.putAway id b others).ended = x.ended ++ [id] := by
  simp only [putAway]
  rw [(Backstage.keepBudget _).ended, ended_note]
  show (Exchange.amid _ others.afterPark).ended ++ [id] = _
  rw [ended_amid]
  show (x.amid others.beforePark).ended ++ [id] = _
  rw [ended_amid]

/-- The handle of a buffer that is put away is shelved under its capacity, after all others. -/
theorem shelf_putAway (x : Exchange) (id : BlobId) (b : Buffer) (others : Interference) :
    (x.putAway id b others).shelf =
        x.shelf.insert ⟨b.capacity, x.shelfIds.upcoming⟩ (x.parkedAt b others) ∧
      (x.putAway id b others).shelfIds.upcoming = x.shelfIds.upcoming + 1 := by
  have hshelf := fun y : Exchange => (keepBudget_apart y).1
  have hshelfIds := fun y : Exchange => (keepBudget_apart y).2.1
  refine ⟨?_, ?_⟩
  · simp only [putAway, hshelf, note, shelve, shelf_amid, shelfIds_amid, pool_amid]
    rfl
  · simp only [putAway, hshelfIds, note, shelve, shelfIds_amid]
    rfl

/-- A buffer that is put away gets a handle that is not on the shelf. -/
theorem InOrder.parkedAt_unshelved (hx : x.InOrder (.ended id b)) (others : Interference)
    (key : ShelfKey) : (key, x.parkedAt b others) ∉ x.shelf.entries := by
  have hstruck := hx.act (show Act False (x, .ended id b) (x.amid others.beforePark, _) from
    .strike _)
  have hunshelved := InOrder.no_entry hstruck.park.sync key
  simp only [shelf_amid, pool_amid] at hunshelved
  exact hunshelved

namespace Ends

variable {others : Interference}

theorem ended (h : Ends x y id b others) : y.ended = x.ended ++ [id] := by
  rw [h.away, ended_putAway]
  rfl

theorem shelf (h : Ends x y id b others) :
    y.shelf = x.shelf.insert ⟨b.capacity, x.shelfIds.upcoming⟩ (x.parkedAt b others) := by
  rw [h.away]
  exact (shelf_putAway _ id b others).1

theorem shelfIds (h : Ends x y id b others) : y.shelfIds.upcoming = x.shelfIds.upcoming + 1 := by
  rw [h.away]
  exact (shelf_putAway _ id b others).2

theorem withdrawn (h : Ends x y id b others) (hx : x.Tallied .empty) :
    Tallied { x with registry := x.registry.close id } (.ended id b) := by
  obtain ⟨claims, content, hactive⟩ := h.active
  exact hx.act (show Act False (x, .empty) (_, _) from .withdraw hactive h.there)

/-- The budget decides which idle buffers stay. -/
theorem idle (h : Ends x y id b others) (hx : x.Tallied .empty) :
    y.pool.idle = match x.settings.idleBudget with
      | none => x.waiting b others
      | some budget => lighter budget (x.waiting b others) := by
  rw [h.away]
  exact (h.withdrawn hx).idle_putAway others

/-- The handle of the buffer was not on the shelf before. -/
theorem unshelved (h : Ends x y id b others) (hx : x.Tallied .empty) (key : ShelfKey) :
    (key, x.parkedAt b others) ∉ x.shelf.entries :=
  (h.withdrawn hx).inOrder.parkedAt_unshelved others key

end Ends

/-- When claims are left, nothing has ended, or the blob has. -/
theorem settle_ends (hx : x.Stands id (.active claims content)) (left : Claims)
    (others : Interference) :
    let y := { x with registry := (x.registry.settle id left).2 }.settle id
      (x.registry.settle id left).1 others
    y.ended = x.ended ∨ ∃ b, Ends x y id b others := by
  intro y
  have hactive := hx
  obtain ⟨-, -, ⟨b, there, -⟩, -⟩ := hactive
  have hsettled : y = _ := settle_active there left others
  cases hleft : left.released with
  | true =>
    rw [if_pos hleft] at hsettled
    exact Or.inr ⟨b, ⟨claims, content, hx⟩, there, hsettled⟩
  | false =>
    rw [if_neg (Bool.eq_false_iff.1 hleft)] at hsettled
    left
    rw [hsettled, ended_note]
    exact List.append_nil _

theorem endProducer_ends (hx : x.Stands id (.active claims content)) (others : Interference) :
    (x.endProducer id others).ended = x.ended ∨
      ∃ b, Ends x (x.endProducer id others) id b others := by
  have hsettled := settle_ends hx ⟨false, claims.consumers⟩ others
  obtain ⟨-, hclaims, -⟩ := hx
  simp only [endProducer, Registry.endProducer, hclaims]
  exact hsettled

theorem endConsumer_ends (hx : x.Stands id (.active claims content)) (others : Interference) :
    (x.endConsumer id others).ended = x.ended ∨
      ∃ b, Ends x (x.endConsumer id others) id b others := by
  have hsettled := settle_ends hx ⟨claims.producerOpen, claims.consumers - 1⟩ others
  obtain ⟨-, hclaims, -⟩ := hx
  simp only [endConsumer, Registry.endConsumer, hclaims]
  exact hsettled

theorem finishProducer_ends {p : Producer}
    (hp : p.finished = false → x.Stands p.id (.active claims content)) (others : Interference) :
    (p.finish x others).2.ended = x.ended ∨ ∃ id b, Ends x (p.finish x others).2 id b others := by
  unfold Producer.finish
  split
  · exact Or.inl rfl
  · rename_i hopen
    exact (endProducer_ends (hp (Bool.eq_false_iff.2 hopen)) others).imp_right fun h => ⟨p.id, h⟩

theorem finishConsumer_ends {c : Consumer}
    (hc : c.finished = false → x.Stands c.id (.active claims content)) (others : Interference) :
    (c.finish x others).2.ended = x.ended ∨ ∃ id b, Ends x (c.finish x others).2 id b others := by
  unfold Consumer.finish
  split
  · exact Or.inl rfl
  · rename_i hopen
    exact (endConsumer_ends (hc (Bool.eq_false_iff.2 hopen)) others).imp_right fun h => ⟨c.id, h⟩

theorem ended_construct (x : Exchange) (size : Nat) (others : Interference) :
    (x.construct size others).2.ended = x.ended := by
  obtain ⟨y, hy, ⟨halt, heq⟩ | ⟨b, reused, heq⟩⟩ := construct_cases x size others
  · rw [heq]
    exact hy.ended
  · rw [heq, ← hy.ended]
    unfold issue
    split
    · rfl
    · exact (ended_note _ _).trans (List.append_nil _)

theorem ended_claim (x : Exchange) (id : BlobId) : (x.claim id).2.ended = x.ended := by
  unfold claim
  split
  · exact (ended_note _ _).trans (List.append_nil _)
  · exact (ended_note _ _).trans (List.append_nil _)

theorem ended_perform (p : Producer) (x : Exchange) (command : WriteCommand) :
    (p.perform x command).2.ended = x.ended := by
  cases command with
  | fill source budget =>
    simp only [Producer.perform, Producer.fill]
    split <;> rfl
  | run script =>
    simp only [Producer.perform, Producer.run]
    split <;> rfl
  | announce message =>
    simp only [Producer.perform]
    split <;> rfl
  | held => rfl
  | capacity => rfl
  | fits additional => rfl

theorem ended_dropProducer (p : Producer) (x : Exchange) : (p.drop x).ended = x.ended := by
  unfold Producer.drop
  split
  · rfl
  · exact (ended_note _ _).trans (List.append_nil _)

theorem ended_dropConsumer (c : Consumer) (x : Exchange) : (c.drop x).ended = x.ended := by
  unfold Consumer.drop
  split
  · rfl
  · exact (ended_note _ _).trans (List.append_nil _)

theorem ended_shrink (x : Exchange) (others : Interference) :
    (x.shrink others).2.ended = x.ended := by
  have hreclaimed := Backstage.withPool x (x.pool.reclaimDownTo 0).2
  have hstruck := hreclaimed.after (.amid _ others.afterShrink)
  exact ((hstruck.after (.catchUp _ others)).before (.note _ _ rfl)).ended

end Exchange

/-! ## Commands -/

namespace Session

variable {s : Session}

/-- The exchange in the moment in which a command may end a blob: as it is, or, if the command writes
a blob whole, as the script leaves it. -/
def ending (s : Session) (others : Interference) : Command → Exchange
  | .write size script =>
    match Producer.construct s.exchange size others with
    | (.ok p, x) => (p.run x script).exchange
    | (.error _, x) => x
  | _ => s.exchange

/-- A script that writes a whole blob ends it just if it fails. -/
theorem ends_write (hs : s.Consistent) (size : Nat) (script : List Instruction)
    (others : Interference) :
    let after := (s.write size script others).2.exchange
    after.ended = s.exchange.ended ∨ ∃ id b,
      Exchange.Ends (s.ending others (.write size script)) after id b others := by
  intro after
  have hconstructed := s.exchange.ended_construct size others
  rw [← Acts.exchange_construct] at hconstructed
  have hafter : after = (Consumer.ofScript s.exchange size script others).exchange :=
    exchange_welcome _ _ _
  cases hx : Producer.construct s.exchange size others with
  | mk outcome x =>
    rw [hx] at hconstructed
    change x.ended = s.exchange.ended at hconstructed
    cases outcome with
    | error halt =>
      left
      rw [hafter, Exchange.ofScript_of_error hx]
      exact hconstructed
    | ok p =>
      obtain ⟨hp, b, h⟩ := hs.builds hx
      have hwritten := (h.stands_run script).1
      have hending : s.ending others (.write size script) =
          x.setBuffer p.id (b.run script).buffer := by
        simp only [ending, hx]
        rw [hp, Exchange.run_of_cell h.cell]
      have hran : (x.setBuffer p.id (b.run script).buffer).ended = s.exchange.ended := hconstructed
      rw [hending]
      match hstop : b.stop script with
      | none =>
        -- the script's blob is claimed before its producer ends
        left
        have hclaimed := (Exchange.stands_claim hwritten).2
        obtain ⟨-, -, -, hended⟩ := Exchange.stands_endProducer hclaimed others
        rw [hafter, Exchange.ofScript_of_ok hx, hp,
          Exchange.afterScript_completed h.stands h.cell hstop]
        refine hended.trans ?_
        rw [Exchange.ended_claim, hran]
        exact List.append_nil _
      | some (.failed e) =>
        right
        have hfailed := (h.failed (e := e) hstop).1
        refine ⟨p.id, (b.run script).buffer, ⟨_, _, hwritten⟩, h.cell_run _, ?_⟩
        show (s.write size script others).2.exchange = _
        rw [hfailed]
      | some .overflow =>
        left
        show (s.write size script others).2.exchange.ended = _
        rw [(h.overflowed hstop).1, Exchange.ended_note, hran]
        exact List.append_nil _

/-- A command ends no blob, or the one whose last claim it takes away. -/
theorem ends_step (hs : s.Consistent) (others : Interference) (command : Command) :
    let after := (s.step others command).2.exchange
    after.ended = s.exchange.ended ∨
      ∃ id b, Exchange.Ends (s.ending others command) after id b others := by
  intro after
  cases command with
  | construct size =>
    left
    show (s.construct size others).2.exchange.ended = _
    rw [(construct_eq s size others).2, Exchange.ended_construct]
  | write size script => exact ends_write hs size script others
  | claim id =>
    left
    show (s.welcome _ _).2.exchange.ended = _
    rw [exchange_welcome, Acts.exchange_claim, Exchange.ended_claim]
  | claimFrom message =>
    left
    show (s.welcome _ _).2.exchange.ended = _
    rw [exchange_welcome]
    unfold Consumer.claimFrom
    split
    · rfl
    · rw [Acts.exchange_claim, Exchange.ended_claim]
  | toWriter place command =>
    left
    show (s.toWriter place command).2.exchange.ended = _
    unfold toWriter
    split
    · rfl
    · exact Exchange.ended_perform _ _ command
  | finishWriter place =>
    show (s.finishWriter place others).2.exchange.ended = _ ∨ ∃ id b, Exchange.Ends s.exchange
      (s.finishWriter place others).2.exchange id b others
    unfold finishWriter
    split
    · exact Or.inl rfl
    · rename_i w hw
      have hmem := List.mem_of_getElem? (writer?_eq_some.1 hw).1
      apply Exchange.finishProducer_ends
      intro hfinished
      exact hs.active_of_writer hmem (by simp [Writer.isOpen, hfinished])
  | dropWriter place =>
    left
    show (s.dropWriter place).2.exchange.ended = _
    unfold dropWriter
    split
    · rfl
    · exact Exchange.ended_dropProducer _ _
  | toReader place command =>
    left
    show (s.toReader place command).2.exchange.ended = _
    unfold toReader
    split <;> rfl
  | finishReader place =>
    show (s.finishReader place others).2.exchange.ended = _ ∨ ∃ id b, Exchange.Ends s.exchange
      (s.finishReader place others).2.exchange id b others
    unfold finishReader
    split
    · exact Or.inl rfl
    · rename_i r hr
      have hmem := List.mem_of_getElem? (reader?_eq_some.1 hr).1
      obtain ⟨w, hw, hwr⟩ := hs.issued r hmem
      have hid : w.id = r.consumer.id := hwr
      apply Exchange.finishConsumer_ends
      intro hfinished
      rw [← hid]
      exact hs.active_of_reader hmem (by simp [Reader.isOpen, hfinished]) hw hwr
  | dropReader place =>
    left
    show (s.dropReader place).2.exchange.ended = _
    unfold dropReader
    split
    · rfl
    · exact Exchange.ended_dropConsumer _ _
  | activeBlobs => exact Or.inl rfl
  | shelved => exact Or.inl (Exchange.Backstage.catchUp s.exchange others).ended
  | statistics => exact Or.inl (Exchange.Backstage.catchUp s.exchange others).ended
  | shrink => exact Or.inl (s.exchange.ended_shrink others)
  | reclaim keep => exact Or.inl (Exchange.Backstage.reclaimIdle s.exchange keep).ended
  | meanwhile deeds => exact Or.inl (s.exchange.ended_amid deeds)

/-- What leads to the end of a blob is a chain of acts that ends none. -/
theorem acts_ending (hs : s.Consistent) (others : Interference) (command : Command) :
    Acts False s.exchange (s.ending others command) ∧
      (s.ending others command).ended = s.exchange.ended := by
  cases command with
  | write size script =>
    have hconstructed := s.exchange.ended_construct size others
    have hacts : Acts False s.exchange _ :=
      Acts.construct hs.unissued_next False.elim size others
    rw [← Acts.exchange_construct] at hconstructed hacts
    simp only [ending]
    split
    · rename_i p x hx
      rw [hx] at hconstructed hacts
      obtain ⟨-, b, h⟩ := hs.builds hx
      refine ⟨hacts.trans (Acts.run h.stands script), ?_⟩
      exact (Exchange.ended_perform p x (.run script)).trans hconstructed
    · rename_i halt x hx
      rw [hx] at hconstructed hacts
      exact ⟨hacts, hconstructed⟩
  | _ => exact ⟨Acts.refl _, rfl⟩

end Session

end BlobExchange
