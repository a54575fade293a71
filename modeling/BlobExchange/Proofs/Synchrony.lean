import BlobExchange.Proofs.RegistryFrame
import BlobExchange.Proofs.Tracking
import BlobExchange.Session.Basic
/-! # No exchange loses track of its pool

Every operation keeps shelf and pool in sync, whatever others do meanwhile (`inSync_step`). -/

namespace BlobExchange

namespace Exchange

/-- The shelf tracks the pool up to the reports that are due and the loose handle. -/
structure InSync (x : Exchange) (due : List Handle) (loose : Option Handle) : Prop where
  tracks : ∃ done, x.fetched = done ++ due ∧ x.shelf.Tracks x.pool done due loose
  numbered : ∀ e ∈ x.shelf.entries, e.1.insertion < x.shelfIds.upcoming
  trusted : x.orphan = none

namespace InSync

variable {x y : Exchange} {due : List Handle} {loose : Option Handle}

theorem assemble (settings : Settings) (supplier : Supplier) :
    (Exchange.assemble settings supplier).InSync [] none where
  tracks := ⟨[], rfl, Shelf.Tracks.start⟩
  numbered := fun _ he => absurd he List.not_mem_nil
  trusted := rfl

/-- The blobs, the counters and most of the journal have no say in it. -/
theorem congr (hx : x.InSync due loose) (shelf : y.shelf = x.shelf) (pool : y.pool = x.pool)
    (shelfIds : y.shelfIds = x.shelfIds) (orphan : y.orphan = x.orphan)
    (fetched : y.fetched = x.fetched) : y.InSync due loose := by
  refine ⟨?_, ?_, ?_⟩
  · rw [fetched, shelf, pool]
    exact hx.tracks
  · rw [shelf, shelfIds]
    exact hx.numbered
  · rw [orphan]
    exact hx.trusted

theorem note (hx : x.InSync due loose) (e : Event) (quiet : e.fetched = []) :
    (x.note e).InSync due loose := by
  refine hx.congr rfl rfl rfl rfl ?_
  rw [fetched_note, quiet, List.append_nil]

/-! ## What others do -/

theorem amid (hx : x.InSync due loose) (deeds : List Reclamation) :
    (x.amid deeds).InSync due loose := by
  obtain ⟨done, hdone, ht⟩ := hx.tracks
  refine ⟨⟨done, ?_, ?_⟩, ?_, ?_⟩
  · rw [fetched_amid]
    exact hdone
  · rw [shelf_amid]
    rw [pool_amid]
    exact Pool.sufferAll_induction (Shelf.Tracks.kept x.shelf done due loose) deeds ht
  · rw [shelf_amid, shelfIds_amid]
    exact hx.numbered
  · rw [orphan_amid]
    exact hx.trusted

theorem reclaimDownTo (hx : x.InSync due loose) (keep : Nat) :
    { x with pool := (x.pool.reclaimDownTo keep).2 }.InSync due loose := by
  obtain ⟨done, hdone, ht⟩ := hx.tracks
  have hkept := (Shelf.Tracks.kept x.shelf done due loose).toKeptByReclaiming
  exact ⟨⟨done, hdone, Pool.reclaimDownTo_induction hkept keep ht⟩, hx.numbered, hx.trusted⟩

theorem reclaimIdle (hx : x.InSync due loose) (keep : Nat) :
    (x.reclaimIdle keep).2.InSync due loose := by
  have hpool := hx.reclaimDownTo keep
  simp only [Exchange.reclaimIdle]
  split
  · exact hpool
  · exact hpool.note _ rfl

/-! ## Catching up -/

theorem fetch (hx : x.InSync [] loose) : x.fetch.2.InSync x.fetch.1 loose := by
  obtain ⟨done, hdone, ht⟩ := hx.tracks
  have hparts : x.fetch.2.shelf = x.shelf ∧ x.fetch.2.pool = x.pool.fetch.2 ∧
      x.fetch.2.shelfIds = x.shelfIds ∧ x.fetch.2.orphan = x.orphan := by
    simp only [Exchange.fetch]
    split <;> exact ⟨rfl, rfl, rfl, rfl⟩
  obtain ⟨shelf, pool, shelfIds, orphan⟩ := hparts
  rw [List.append_nil] at hdone
  refine ⟨⟨done, ?_, ?_⟩, ?_, ?_⟩
  · rw [(Backstage.fetch x).fetched, hdone]
    rfl
  · rw [shelf, pool]
    exact ht.fetch
  · rw [shelf, shelfIds]
    exact hx.numbered
  · rw [orphan]
    exact hx.trusted

theorem fetchAmid (hx : x.InSync [] loose) (others : Interference) :
    (x.fetchAmid others).2.InSync (x.fetchAmid others).1 loose :=
  hx.fetch.amid _

theorem acknowledge_one {h : Handle} (hx : x.InSync (h :: due) none) :
    ∃ shelf, x.shelf.acknowledge h = some shelf ∧
      { x with shelf := shelf }.InSync due none := by
  obtain ⟨done, hdone, ht⟩ := hx.tracks
  obtain ⟨shelf, hshelf, ht⟩ := ht.acknowledge
  refine ⟨shelf, hshelf, ⟨done ++ [h], ?_, ht⟩, ?_, hx.trusted⟩
  · show x.fetched = done ++ [h] ++ due
    rw [hdone, List.append_assoc]
    rfl
  · intro e he
    apply hx.numbered e
    rcases Shelf.acknowledge_cases hshelf with ⟨key, -, rfl⟩ | ⟨-, -, rfl⟩
    · exact List.mem_of_mem_filter he
    · exact he

theorem acknowledge (first : List Handle) (hx : x.InSync (first ++ due) none) :
    (x.acknowledge first).InSync due none := by
  induction first generalizing x with
  | nil => exact hx
  | cons h rest ih =>
    obtain ⟨shelf, hshelf, hnext⟩ := hx.acknowledge_one
    unfold Exchange.acknowledge
    rw [hshelf]
    exact ih hnext

theorem catchUp (hx : x.InSync [] none) (others : Interference) :
    (x.catchUp others).InSync [] none := by
  apply acknowledge (x.fetchAmid others).1
  rw [List.append_nil]
  exact hx.fetchAmid others

/-! ## Constructing and disposing -/

theorem takeIdle (hx : x.InSync [] none) (size : Nat) : (x.takeIdle size).2.InSync [] none := by
  obtain ⟨done, hdone, ht⟩ := hx.tracks
  refine ⟨⟨done, ?_, ht.pick size⟩, ?_, hx.trusted⟩
  · show (x.journal ++ List.map _ _).flatMap Event.fetched = done ++ []
    rw [List.flatMap_append, List.flatMap_map, ← hdone]
    simp [Event.fetched, Exchange.fetched]
  · intro e he
    obtain ⟨tried, -, hbefore, hafter⟩ := Shelf.entries_pick x.shelf size Pool.upgrade x.pool
    apply hx.numbered e
    change e ∈ (x.shelf.pick size Pool.upgrade x.pool).2.entries at he
    rw [hafter, List.mem_append] at he
    rw [hbefore, List.mem_append, List.mem_append]
    exact he.imp_left Or.inl

theorem issue (hx : x.InSync [] none) (size : Nat) (b : Buffer) (reused : Bool) :
    (x.issue size b reused).2.InSync [] none := by
  unfold Exchange.issue
  split
  · exact hx
  · refine InSync.note ?_ _ rfl
    exact hx.congr rfl rfl rfl rfl rfl

theorem construct (hx : x.InSync [] none) (size : Nat) (others : Interference) :
    (x.construct size others).2.InSync [] none := by
  have htaken := (hx.catchUp others).takeIdle size
  unfold Exchange.construct
  split
  · rename_i b y heq
    rw [heq] at htaken
    refine InSync.issue ?_ size b true
    exact htaken.congr rfl rfl rfl rfl rfl
  · rename_i y heq
    rw [heq] at htaken
    have hasked : (y.requestBuffer size).2.InSync [] none := htaken.congr rfl rfl rfl rfl rfl
    split
    · rename_i halt z heq
      rw [heq] at hasked
      exact hasked
    · rename_i b z heq
      rw [heq] at hasked
      refine InSync.issue ?_ size b false
      exact hasked.congr rfl rfl rfl rfl rfl

theorem claim (hx : x.InSync [] none) (id : BlobId) : (x.claim id).2.InSync [] none := by
  unfold Exchange.claim
  split
  · refine InSync.note ?_ _ rfl
    exact hx.congr rfl rfl rfl rfl rfl
  · exact hx.note _ rfl

theorem keepBudget (hx : x.InSync [] none) : x.keepBudget.InSync [] none := by
  unfold Exchange.keepBudget
  split
  · exact hx
  · rename_i budget _
    have hpool := hx.reclaimDownTo budget
    simp only
    split
    · exact hpool
    · exact hpool.note _ rfl

theorem park (hx : x.InSync [] none) (b : Buffer) :
    { x with pool := (x.pool.park b).2 }.InSync [] (some (x.pool.park b).1) := by
  obtain ⟨done, hdone, ht⟩ := hx.tracks
  exact ⟨⟨done, hdone, ht.park b⟩, hx.numbered, hx.trusted⟩

theorem key_new (hx : x.InSync due loose) (capacity : Nat) :
    ∀ e ∈ x.shelf.entries, e.1 ≠ ⟨capacity, x.shelfIds.next.1⟩ := by
  intro e he heq
  have hlt := hx.numbered e he
  rw [heq] at hlt
  exact Nat.lt_irrefl _ hlt

theorem shelve {h : Handle} (hx : x.InSync [] (some h)) (capacity : Nat) :
    (x.shelve capacity h).InSync [] none := by
  obtain ⟨done, hdone, ht⟩ := hx.tracks
  have hfresh := hx.key_new capacity
  refine ⟨⟨done, hdone, ht.shelve hfresh⟩, ?_, hx.trusted⟩
  intro e he
  rcases (Shelf.mem_place hfresh e).1 he with rfl | he
  · exact Nat.lt_succ_self _
  · exact Nat.lt_succ_of_lt (hx.numbered e he)

theorem dispose (hx : x.InSync [] none) (id : BlobId) (others : Interference) :
    (x.dispose id others).InSync [] none := by
  unfold Exchange.dispose
  split
  · exact hx
  · rename_i b registry _
    have htaken : { x with registry := registry }.InSync [] none := hx.congr rfl rfl rfl rfl rfl
    -- between parking and shelving the handle is loose, and others may reclaim the buffer
    have hparked := ((htaken.amid others.beforePark).park b).amid others.afterPark
    refine InSync.keepBudget (InSync.note ?_ _ rfl)
    exact (hparked.shelve b.capacity).congr rfl rfl rfl rfl rfl

theorem settle (hx : x.InSync [] none) (id : BlobId) (release : Release) (others : Interference) :
    (x.settle id release others).InSync [] none := by
  cases release with
  | last => exact hx.dispose id others
  | retained => exact hx.note _ rfl
  | absent => exact hx

theorem endProducer (hx : x.InSync [] none) (id : BlobId) (others : Interference) :
    (x.endProducer id others).InSync [] none := by
  refine InSync.settle ?_ id _ others
  exact hx.congr rfl rfl rfl rfl rfl

theorem endConsumer (hx : x.InSync [] none) (id : BlobId) (others : Interference) :
    (x.endConsumer id others).InSync [] none := by
  refine InSync.settle ?_ id _ others
  exact hx.congr rfl rfl rfl rfl rfl

theorem shrink (hx : x.InSync [] none) (others : Interference) :
    (x.shrink others).2.InSync [] none :=
  (((hx.reclaimDownTo 0).amid others.afterShrink).catchUp others).note _ rfl

/-! ## Through handles -/

theorem write (hx : x.InSync [] none) (p : Producer) (command : WriteCommand) :
    (p.perform x command).2.InSync [] none := by
  cases command with
  | fill source budget =>
    simp only [Producer.perform, Producer.fill]
    split
    · exact hx
    · exact hx.congr rfl rfl rfl rfl rfl
  | run script =>
    simp only [Producer.perform, Producer.run]
    split
    · exact hx
    · exact hx.congr rfl rfl rfl rfl rfl
  | announce message =>
    simp only [Producer.perform]
    split <;> exact hx
  | held => exact hx
  | capacity => exact hx
  | fits additional => exact hx

theorem finishProducer (hx : x.InSync [] none) (p : Producer) (others : Interference) :
    (p.finish x others).2.InSync [] none := by
  unfold Producer.finish
  split
  · exact hx
  · exact hx.endProducer p.id others

theorem finishConsumer (hx : x.InSync [] none) (c : Consumer) (others : Interference) :
    (c.finish x others).2.InSync [] none := by
  unfold Consumer.finish
  split
  · exact hx
  · exact hx.endConsumer c.id others

theorem dropProducer (hx : x.InSync [] none) (p : Producer) : (p.drop x).InSync [] none := by
  unfold Producer.drop
  split
  · exact hx
  · exact hx.note _ rfl

theorem dropConsumer (hx : x.InSync [] none) (c : Consumer) : (c.drop x).InSync [] none := by
  unfold Consumer.drop
  split
  · exact hx
  · exact hx.note _ rfl

theorem constructProducer (hx : x.InSync [] none) (size : Nat) (others : Interference) :
    (Producer.construct x size others).2.InSync [] none := by
  have hconstructed := hx.construct size others
  unfold Producer.construct
  split <;> (rename_i heq; rw [heq] at hconstructed; exact hconstructed)

theorem claimConsumer (hx : x.InSync [] none) (id : BlobId) :
    (Consumer.claim x id).2.InSync [] none := by
  have hclaimed := hx.claim id
  unfold Consumer.claim
  split <;> (rename_i heq; rw [heq] at hclaimed; exact hclaimed)

theorem claimConsumerFrom (hx : x.InSync [] none) (message : Message) :
    (Consumer.claimFrom x message).2.2.InSync [] none := by
  unfold Consumer.claimFrom
  split
  · exact hx
  · exact hx.claimConsumer _

theorem ofScript (hx : x.InSync [] none) (size : Nat) (script : List Instruction)
    (others : Interference) : (Consumer.ofScript x size script others).exchange.InSync [] none := by
  have hconstructed := hx.constructProducer size others
  unfold Consumer.ofScript
  split
  · rename_i heq
    rw [heq] at hconstructed
    exact hconstructed
  · rename_i producer y heq
    rw [heq] at hconstructed
    have hran : (producer.run y script).exchange.InSync [] none :=
      hconstructed.write producer (.run script)
    simp only
    split
    · exact hran.dropProducer producer
    · exact hran.finishProducer producer others
    · exact (hran.claimConsumer producer.id).finishProducer producer others

end InSync

end Exchange

namespace Session

variable {s : Session}

theorem exchange_welcome {ε : Type} (s : Session) (x : Exchange) (claimed : Except ε Consumer) :
    (s.welcome x claimed).2.exchange = x := by
  cases claimed <;> rfl

theorem inSync_step (hs : s.exchange.InSync [] none) (others : Interference) (command : Command) :
    (s.step others command).2.exchange.InSync [] none := by
  cases command with
  | construct size =>
    have hconstructed := hs.constructProducer size others
    simp only [step, construct]
    split <;> (rename_i heq; rw [heq] at hconstructed; exact hconstructed)
  | write size script =>
    simp only [step, write, exchange_welcome]
    exact hs.ofScript size script others
  | claim id =>
    simp only [step, exchange_welcome]
    exact hs.claimConsumer id
  | claimFrom message =>
    simp only [step, exchange_welcome]
    exact hs.claimConsumerFrom message
  | toWriter place command =>
    simp only [step, toWriter]
    split
    · exact hs
    · exact hs.write _ command
  | finishWriter place =>
    simp only [step, finishWriter]
    split
    · exact hs
    · exact hs.finishProducer _ others
  | dropWriter place =>
    simp only [step, dropWriter]
    split
    · exact hs
    · exact hs.dropProducer _
  | toReader place command =>
    simp only [step, toReader]
    split <;> exact hs
  | finishReader place =>
    simp only [step, finishReader]
    split
    · exact hs
    · exact hs.finishConsumer _ others
  | dropReader place =>
    simp only [step, dropReader]
    split
    · exact hs
    · exact hs.dropConsumer _
  | activeBlobs => exact hs
  | shelved => exact hs.catchUp others
  | statistics => exact hs.catchUp others
  | shrink => exact hs.shrink others
  | reclaim keep => exact hs.reclaimIdle keep
  | meanwhile deeds => exact hs.amid deeds

theorem inSync_run (settings : Settings) (supplier : Supplier) (moves : List Move) :
    ((start settings supplier).run moves).exchange.InSync [] none := by
  refine run_induction (P := fun s => s.exchange.InSync [] none) ?_ ?_ moves
  · exact Exchange.InSync.assemble settings supplier
  · intro s m hs
    exact inSync_step hs m.others m.command

end Session

end BlobExchange
