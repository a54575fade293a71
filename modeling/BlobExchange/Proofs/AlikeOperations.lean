import BlobExchange.Proofs.AlikeExchanges
/-! # Operations on exchanges that are alike

They have the same answers and leave the exchanges alike, if others reclaim the same buffers at the
same moments in both. -/

namespace BlobExchange

/-- A snapshot without the two counts that depend on when reports come. -/
def Statistics.timeless (s : Statistics) : Statistics :=
  { s with cachedEntries := 0, staleEntriesSkipped := 0 }

namespace Exchange

variable {x y x' y' : Exchange} {others others' : Interference}

namespace Alike

/-! ## Constructing -/

theorem withCounters (h : x.Alike y) {c d : Counters}
    (hcd : { c with staleSkipped := 0 } = { d with staleSkipped := 0 }) :
    { x with counters := c }.Alike { y with counters := d } :=
  ⟨h.settings, h.supplier, h.requests, h.registry, h.blobIds, h.shelfIds, hcd, h.pool, h.entries⟩

theorem withRegistry (h : x.Alike y) {r q : Registry} (hrq : r = q) :
    { x with registry := r }.Alike { y with registry := q } :=
  ⟨h.settings, h.supplier, h.requests, hrq, h.blobIds, h.shelfIds, h.counters, h.pool, h.entries⟩

theorem shelf_sound {due : List Handle} {loose : Option Handle} (hx : x.InSync due loose) :
    x.shelf.Sound := by
  obtain ⟨_, -, ht⟩ := hx.tracks
  exact ht.shelf

theorem pool_sound {due : List Handle} {loose : Option Handle} (hx : x.InSync due loose) :
    x.pool.Sound := by
  obtain ⟨_, -, ht⟩ := hx.tracks
  exact ht.pool

/-- A search comes upon the same entry and the same buffer. -/
theorem fit (h : x.Alike y) (hx : x.InSync [] none) (hy : y.InSync [] none) (size : Nat) :
    x.shelf.fit size x.pool = y.shelf.fit size y.pool := by
  have hentry := Shelf.fit_entry (shelf_sound hx) size x.pool
  rw [h.entries, ← Shelf.fit_entry (shelf_sound hy) size y.pool] at hentry
  -- the live entries are the same, so either search comes upon the same one or upon none
  rcases Shelf.state_pick x.shelf size x.pool with ⟨hnone, -⟩ | ⟨hit, hsome, taken⟩
  · rw [hnone] at hentry ⊢
    exact (Option.map_eq_none_iff.1 hentry.symm).symm
  · rcases Shelf.state_pick y.shelf size y.pool with ⟨hnone', -⟩ | ⟨hit', hsome', taken'⟩
    · rw [hsome, hnone'] at hentry
      cases hentry
    · rw [hsome, hsome'] at hentry ⊢
      simp only [Option.map_some, Option.some.injEq, Prod.mk.injEq] at hentry
      obtain ⟨hkey, hhandle⟩ := hentry
      -- the same handle claims the same buffer in either pool
      obtain ⟨after, htake, -⟩ := h.pool.take taken
      rw [hhandle, taken', Option.some.injEq, Prod.mk.injEq] at htake
      obtain ⟨key, handle, value⟩ := hit
      obtain ⟨key', handle', value'⟩ := hit'
      have hvalue : value' = value := htake.1
      cases hkey
      cases hhandle
      rw [hvalue]

theorem pool_takeIdle (h : x.Alike y) (hx : x.InSync [] none) (hy : y.InSync [] none)
    (size : Nat) : (x.takeIdle size).2.pool.Alike (y.takeIdle size).2.pool := by
  have hfit := h.fit hx hy size
  rcases Shelf.state_pick x.shelf size x.pool with ⟨hnone, hstate⟩ | ⟨hit, hsome, taken⟩
  · rcases Shelf.state_pick y.shelf size y.pool with ⟨-, hstate'⟩ | ⟨hit', hsome', -⟩
    · show (x.shelf.pick size Pool.upgrade x.pool).1.state.Alike
        (y.shelf.pick size Pool.upgrade y.pool).1.state
      rw [hstate, hstate']
      exact h.pool
    · rw [hnone, hsome'] at hfit
      cases hfit
  · obtain ⟨after, htake, hafter⟩ := h.pool.take taken
    rcases Shelf.state_pick y.shelf size y.pool with ⟨hnone', -⟩ | ⟨hit', hsome', taken'⟩
    · rw [hsome, hnone'] at hfit
      cases hfit
    · rw [hsome, hsome', Option.some.injEq] at hfit
      rw [hfit, taken', Option.some.injEq, Prod.mk.injEq] at htake
      show (x.shelf.pick size Pool.upgrade x.pool).1.state.Alike
        (y.shelf.pick size Pool.upgrade y.pool).1.state
      rw [htake.2]
      exact hafter

theorem takeIdle (h : x.Alike y) (hx : x.InSync [] none) (hy : y.InSync [] none) (size : Nat) :
    AnswerAlike (x.takeIdle size) (y.takeIdle size) := by
  have hpool := h.pool_takeIdle hx hy size
  refine ⟨congrArg (Option.map Hit.value) (h.fit hx hy size), ?_⟩
  refine ⟨h.settings, h.supplier, h.requests, h.registry, h.blobIds, h.shelfIds, h.counters,
    hpool, ?_⟩
  have hentries := h.entries
  calc (x.takeIdle size).2.shelf.liveEntries (x.takeIdle size).2.pool
      = (x.shelf.liveEntries x.pool).filter fun e => (x.takeIdle size).2.pool.isLive e.2 :=
        Shelf.liveEntries_pick x.shelf size x.pool
    _ = (y.shelf.liveEntries y.pool).filter fun e => (y.takeIdle size).2.pool.isLive e.2 := by
        rw [hentries, hpool.isLive]
    _ = (y.takeIdle size).2.shelf.liveEntries (y.takeIdle size).2.pool :=
        (Shelf.liveEntries_pick y.shelf size y.pool).symm

theorem issue (h : x.Alike y) (size : Nat) (b : Buffer) (reused : Bool) :
    AnswerAlike (x.issue size b reused) (y.issue size b reused) := by
  have hids := h.blobIds
  have hregistry := h.registry
  by_cases hspent : y.blobIds.isSpent = true
  · have hspent' : x.blobIds.isSpent = true := by rw [hids]; exact hspent
    rw [Exchange.issue, Exchange.issue, if_pos hspent, if_pos hspent']
    exact ⟨rfl, h⟩
  · have hspent' : ¬ x.blobIds.isSpent = true := by rw [hids]; exact hspent
    rw [Exchange.issue, Exchange.issue, if_neg hspent, if_neg hspent']
    refine ⟨by rw [hids], Alike.note ?_ _ _⟩
    refine ⟨h.settings, h.supplier, h.requests, ?_, ?_, h.shelfIds, h.counters, h.pool, h.entries⟩
    · show x.registry.register x.blobIds.nextId.1 b.emptied = _
      rw [hids, hregistry]
    · show x.blobIds.nextId.2 = y.blobIds.nextId.2
      rw [hids]

theorem requestBuffer (h : x.Alike y) (size : Nat) :
    AnswerAlike (x.requestBuffer size) (y.requestBuffer size) := by
  have hsupplier := h.supplier
  have hrequests := h.requests
  refine ⟨?_, h.settings, h.supplier, ?_, h.registry, h.blobIds, h.shelfIds, h.counters, h.pool,
    h.entries⟩
  · show x.supplier.request x.requests size = y.supplier.request y.requests size
    rw [hsupplier, hrequests]
  · show x.requests ++ [size] = y.requests ++ [size]
    rw [hrequests]

theorem construct (h : x.Alike y) (hx : x.InSync [] none) (hy : y.InSync [] none) (size : Nat)
    (hblow : x.blow others = y.blow others') :
    AnswerAlike (x.construct size others) (y.construct size others') := by
  have hcaught := h.catchUp hx hy hblow
  obtain ⟨idle, u, v, hleft, hright, htaken⟩ :=
    (hcaught.takeIdle (hx.catchUp others) (hy.catchUp others') size).cases
  unfold Exchange.construct
  rw [hleft, hright]
  cases idle with
  | some b => exact (htaken.withCounters (congrArg Counters.hit htaken.counters)).issue size b true
  | none =>
    obtain ⟨answer, u', v', hleft, hright, hasked⟩ := (htaken.requestBuffer size).cases
    simp only
    rw [hleft, hright]
    cases answer with
    | error halt => exact ⟨rfl, hasked⟩
    | ok b =>
      have hmiss := congrArg (fun c => Counters.miss c b.capacity) hasked.counters
      exact (hasked.withCounters hmiss).issue size b false

/-! ## Disposing -/

theorem claim (h : x.Alike y) (id : BlobId) :
    AnswerAlike (x.claim id) (y.claim id) := by
  have hclaims : x.registry.claim id = y.registry.claim id := by rw [h.registry]
  cases hy : y.registry.claim id with
  | none =>
    have hx := hclaims.trans hy
    simp only [Exchange.claim, hx, hy]
    exact ⟨rfl, h.note _ _⟩
  | some registry =>
    have hx := hclaims.trans hy
    simp only [Exchange.claim, hx, hy]
    exact ⟨rfl, (h.withRegistry rfl).note _ _⟩

/-- The handle under which a buffer is parked is not on the shelf yet. -/
theorem liveEntries_park (hx : x.InSync [] none) (b : Buffer) :
    x.shelf.liveEntries (x.pool.park b).2 = x.shelf.liveEntries x.pool := by
  obtain ⟨_, -, ht⟩ := (hx.park b).tracks
  have hnew : ¬ x.shelf.Holds x.pool.vacancy := (ht.alone _ rfl).1
  apply List.filter_congr
  intro e he
  have hother : e.2 ≠ x.pool.vacancy := by
    intro heq
    apply hnew
    rw [← heq, (shelf_sound hx).holds_iff]
    exact List.mem_map_of_mem he
  rw [Bool.eq_iff_iff, (pool_sound hx).isLive_park]
  simp [hother]

theorem park (h : x.Alike y) (hx : x.InSync [] none) (hy : y.InSync [] none) (b : Buffer) :
    (x.pool.park b).1 = (y.pool.park b).1 ∧
      { x with pool := (x.pool.park b).2 }.Alike { y with pool := (y.pool.park b).2 } := by
  obtain ⟨hhandle, hpool⟩ := h.pool.park (pool_sound hx) (pool_sound hy) b
  refine ⟨hhandle, h.settings, h.supplier, h.requests, h.registry, h.blobIds, h.shelfIds,
    h.counters, hpool, ?_⟩
  exact (liveEntries_park hx b).trans (h.entries.trans (liveEntries_park hy b).symm)

theorem shelve (h : x.Alike y) {j : Handle} (hx : x.InSync [] (some j))
    (hy : y.InSync [] (some j)) (capacity : Nat) :
    (x.shelve capacity j).Alike (y.shelve capacity j) := by
  have hids := h.shelfIds
  have hentries := h.entries
  refine ⟨h.settings, h.supplier, h.requests, h.registry, h.blobIds, ?_, h.counters, h.pool, ?_⟩
  · show x.shelfIds.next.2 = y.shelfIds.next.2
    rw [hids]
  · show (x.shelf.insert ⟨capacity, x.shelfIds.next.1⟩ j).liveEntries x.pool =
      (y.shelf.insert ⟨capacity, y.shelfIds.next.1⟩ j).liveEntries y.pool
    rw [Shelf.liveEntries_insert (shelf_sound hx) (hx.key_new capacity),
      Shelf.liveEntries_insert (shelf_sound hy) (hy.key_new capacity), hentries, hids,
      h.pool.isLive]

theorem dispose (h : x.Alike y) (hx : x.InSync [] none) (hy : y.InSync [] none)
    (id : BlobId)
    (hstruck : StruckAlike x (x.dispose id others) y (y.dispose id others')) :
    (x.dispose id others).Alike (y.dispose id others') := by
  have hbuffers : x.registry.takeBuffer id = y.registry.takeBuffer id := by rw [h.registry]
  cases hright : y.registry.takeBuffer id with
  | none =>
    rw [dispose_of_none hright, dispose_of_none (hbuffers.trans hright)]
    exact h
  | some taken =>
    obtain ⟨b, registry⟩ := taken
    have hleft := hbuffers.trans hright
    obtain ⟨hbefore, hafter⟩ := hstruck.cut (strikes_dispose hleft others)
      (strikes_dispose hright others') rfl
    rw [List.cons.injEq] at hbefore hafter
    have htaken : { x with registry := registry }.Alike { y with registry := registry } :=
      h.withRegistry rfl
    have hsx : { x with registry := registry }.InSync [] none := hx.congr rfl rfl rfl rfl rfl
    have hsy : { y with registry := registry }.InSync [] none := hy.congr rfl rfl rfl rfl rfl
    -- both strikes hit the same, so the buffer is parked in the same slot
    have hbeforePark := htaken.amid hbefore.1
    obtain ⟨hhandle, hparked⟩ := hbeforePark.park (hsx.amid _) (hsy.amid _) b
    have hsame : ((x.pool.sufferAll others.beforePark).park b).2.losses others.afterPark =
        ((y.pool.sufferAll others'.beforePark).park b).2.losses others'.afterPark := hafter.1
    rw [← pool_amid { x with registry := registry }, ← pool_amid { y with registry := registry }]
      at hsame
    have hafterPark := hparked.amid hsame
    have hux := ((hsx.amid others.beforePark).park b).amid others.afterPark
    have huy := ((hsy.amid others'.beforePark).park b).amid others'.afterPark
    rw [← hhandle] at huy
    have hshelved := hafterPark.shelve hux huy b.capacity
    simp only [Exchange.dispose, hleft, hright]
    rw [← hhandle]
    refine Alike.keepBudget (Alike.note ?_ _ _)
    exact hshelved.withCounters (congrArg Counters.disposal hshelved.counters)

/-! ## Ending claims -/

theorem settle (h : x.Alike y) (hx : x.InSync [] none) (hy : y.InSync [] none) (id : BlobId)
    (release : Release)
    (hstruck : StruckAlike x (x.settle id release others) y (y.settle id release others')) :
    (x.settle id release others).Alike (y.settle id release others') := by
  cases release with
  | last => exact h.dispose hx hy id hstruck
  | retained => exact h.note _ _
  | absent => exact h

theorem endProducer (h : x.Alike y) (hx : x.InSync [] none) (hy : y.InSync [] none) (id : BlobId)
    (hstruck : StruckAlike x (x.endProducer id others) y (y.endProducer id others')) :
    (x.endProducer id others).Alike (y.endProducer id others') := by
  have hended : x.registry.endProducer id = y.registry.endProducer id := by rw [h.registry]
  unfold Exchange.endProducer at hstruck ⊢
  rw [hended] at hstruck ⊢
  refine (h.withRegistry rfl).settle ?_ ?_ id _ hstruck
  · exact hx.congr rfl rfl rfl rfl rfl
  · exact hy.congr rfl rfl rfl rfl rfl

theorem endConsumer (h : x.Alike y) (hx : x.InSync [] none) (hy : y.InSync [] none) (id : BlobId)
    (hstruck : StruckAlike x (x.endConsumer id others) y (y.endConsumer id others')) :
    (x.endConsumer id others).Alike (y.endConsumer id others') := by
  have hended : x.registry.endConsumer id = y.registry.endConsumer id := by rw [h.registry]
  unfold Exchange.endConsumer at hstruck ⊢
  rw [hended] at hstruck ⊢
  refine (h.withRegistry rfl).settle ?_ ?_ id _ hstruck
  · exact hx.congr rfl rfl rfl rfl rfl
  · exact hy.congr rfl rfl rfl rfl rfl

/-! ## Through handles -/

theorem access (h : x.Alike y) (p : Producer) : p.access x = p.access y := by
  funext operation
  unfold Producer.access
  rw [h.registry]

theorem accessConsumer (h : x.Alike y) (c : Consumer) : c.access x = c.access y := by
  funext operation
  unfold Consumer.access
  rw [h.registry]

theorem setBuffer (h : x.Alike y) (id : BlobId) (b : Buffer) :
    (x.setBuffer id b).Alike (y.setBuffer id b) := by
  apply h.withRegistry
  rw [h.registry]

theorem write (h : x.Alike y) (p : Producer) (command : WriteCommand) :
    AnswerAlike (p.perform x command) (p.perform y command) := by
  have haccess := h.access p
  cases command with
  | fill source budget =>
    simp only [Producer.perform, Producer.fill, haccess]
    cases p.access y .fill with
    | error e => exact ⟨rfl, h⟩
    | ok b => exact ⟨rfl, h.setBuffer p.id _⟩
  | run script =>
    simp only [Producer.perform, Producer.run, haccess]
    cases p.access y .produce with
    | error e => exact ⟨rfl, h⟩
    | ok b => exact ⟨rfl, h.setBuffer p.id _⟩
  | held =>
    simp only [Producer.perform, Producer.held, haccess]
    exact ⟨rfl, h⟩
  | capacity =>
    simp only [Producer.perform, Producer.capacity, haccess]
    exact ⟨rfl, h⟩
  | fits additional =>
    simp only [Producer.perform, Producer.fits, haccess]
    exact ⟨rfl, h⟩
  | announce message =>
    have hannounced : p.announce x message = p.announce y message := by
      unfold Producer.announce
      rw [h.registry]
    simp only [Producer.perform, hannounced]
    cases p.announce y message with
    | error e => exact ⟨rfl, h⟩
    | ok after => exact ⟨rfl, h⟩

theorem read (h : x.Alike y) (c : Consumer) (command : ReadCommand) :
    c.perform x command = c.perform y command := by
  have haccess := h.accessConsumer c
  cases command with
  | drain sink limit => simp only [Consumer.perform, Consumer.drain, haccess]
  | readAll => simp only [Consumer.perform, Consumer.readAll, haccess]
  | ahead => simp only [Consumer.perform, Consumer.ahead, haccess]
  | rewind => simp only [Consumer.perform, Consumer.rewind, h.registry]

theorem finishProducer (h : x.Alike y) (hx : x.InSync [] none) (hy : y.InSync [] none)
    (p : Producer) (hstruck : StruckAlike x (p.finish x others).2 y (p.finish y others').2) :
    AnswerAlike (p.finish x others) (p.finish y others') := by
  unfold Producer.finish at hstruck ⊢
  by_cases hfinished : p.finished = true
  · rw [if_pos hfinished, if_pos hfinished]
    exact ⟨rfl, h⟩
  · rw [if_neg hfinished, if_neg hfinished] at hstruck ⊢
    exact ⟨rfl, h.endProducer hx hy p.id hstruck⟩

theorem finishConsumer (h : x.Alike y) (hx : x.InSync [] none) (hy : y.InSync [] none)
    (c : Consumer) (hstruck : StruckAlike x (c.finish x others).2 y (c.finish y others').2) :
    AnswerAlike (c.finish x others) (c.finish y others') := by
  unfold Consumer.finish at hstruck ⊢
  by_cases hfinished : c.finished = true
  · rw [if_pos hfinished, if_pos hfinished]
    exact ⟨rfl, h⟩
  · rw [if_neg hfinished, if_neg hfinished] at hstruck ⊢
    exact ⟨rfl, h.endConsumer hx hy c.id hstruck⟩

theorem dropProducer (h : x.Alike y) (p : Producer) : (p.drop x).Alike (p.drop y) := by
  unfold Producer.drop
  rw [h.registry]
  split
  · exact h
  · exact h.note _ _

theorem dropConsumer (h : x.Alike y) (c : Consumer) : (c.drop x).Alike (c.drop y) := by
  unfold Consumer.drop
  rw [h.registry]
  split
  · exact h
  · exact h.note _ _

theorem constructProducer (h : x.Alike y) (hx : x.InSync [] none) (hy : y.InSync [] none)
    (size : Nat) (hblow : x.blow others = y.blow others') :
    AnswerAlike (Producer.construct x size others) (Producer.construct y size others') := by
  obtain ⟨answer, u, v, hleft, hright, hafter⟩ := (h.construct hx hy size hblow).cases
  unfold Producer.construct
  rw [hleft, hright]
  cases answer with
  | ok id => exact ⟨rfl, hafter⟩
  | error halt => exact ⟨rfl, hafter⟩

theorem claimConsumer (h : x.Alike y) (id : BlobId) :
    AnswerAlike (Consumer.claim x id) (Consumer.claim y id) := by
  obtain ⟨answer, u, v, hleft, hright, hafter⟩ := (h.claim id).cases
  unfold Consumer.claim
  rw [hleft, hright]
  cases answer with
  | ok _ => exact ⟨rfl, hafter⟩
  | error e => exact ⟨rfl, hafter⟩

theorem claimConsumerFrom (h : x.Alike y) (message : Message) :
    (Consumer.claimFrom x message).1 = (Consumer.claimFrom y message).1 ∧
      (Consumer.claimFrom x message).2.1 = (Consumer.claimFrom y message).2.1 ∧
      (Consumer.claimFrom x message).2.2.Alike (Consumer.claimFrom y message).2.2 := by
  unfold Consumer.claimFrom
  split
  · exact ⟨rfl, rfl, h⟩
  · rename_i id rest _
    obtain ⟨hanswer, hafter⟩ := h.claimConsumer id
    exact ⟨hanswer, rfl, hafter⟩

/-! ## A script that writes a whole blob -/

theorem afterScript (h : x.Alike y) (hx : x.InSync [] none) (hy : y.InSync [] none) (p : Producer)
    (script : List Instruction)
    (hstruck : StruckAlike x (x.afterScript p script others).exchange
      y (y.afterScript p script others').exchange) :
    (x.afterScript p script others).producer = (y.afterScript p script others').producer ∧
      (x.afterScript p script others).notes = (y.afterScript p script others').notes ∧
      (x.afterScript p script others).outcome = (y.afterScript p script others').outcome ∧
      (x.afterScript p script others).exchange.Alike
        (y.afterScript p script others').exchange := by
  obtain ⟨hreply, hran⟩ := h.write p (.run script)
  have hsx : (p.run x script).exchange.InSync [] none := hx.write p (.run script)
  have hsy : (p.run y script).exchange.InSync [] none := hy.write p (.run script)
  have hbx := strikes_run p x script
  have hby := strikes_run p y script
  change WriteReply.ran (p.run x script).notes (p.run x script).outcome =
    .ran (p.run y script).notes (p.run y script).outcome at hreply
  change (p.run x script).exchange.Alike (p.run y script).exchange at hran
  unfold Exchange.afterScript at hstruck ⊢
  generalize p.run x script = left at hreply hran hsx hbx hstruck ⊢
  generalize p.run y script = right at hreply hran hsy hby hstruck ⊢
  obtain ⟨u, notes, outcome⟩ := left
  obtain ⟨v, notes', outcome'⟩ := right
  cases hreply
  match outcome with
  | .error .overflow => exact ⟨rfl, rfl, rfl, hran.dropProducer p⟩
  | .error (.failed e) =>
    have hfinishing := hstruck.congr hbx hby
    obtain ⟨hproducer, hfinished⟩ := hran.finishProducer hsx hsy p hfinishing
    exact ⟨congrArg some hproducer, rfl, rfl, hfinished⟩
  | .ok () =>
    have hfinishing := hstruck.congr ((strikes_claim u p.id).trans hbx)
      ((strikes_claim v p.id).trans hby)
    obtain ⟨hanswer, hclaimed⟩ := hran.claimConsumer p.id
    obtain ⟨hproducer, hfinished⟩ :=
      hclaimed.finishProducer (hsx.claimConsumer p.id) (hsy.claimConsumer p.id) p hfinishing
    exact ⟨congrArg some hproducer, rfl, congrArg (Except.mapError Halt.failed) hanswer, hfinished⟩

/-- A script that writes a whole blob finds the same buffer and ends the same way. -/
theorem ofScript (h : x.Alike y) (hx : x.InSync [] none) (hy : y.InSync [] none) (size : Nat)
    (script : List Instruction)
    (hstruck : StruckAlike x (Consumer.ofScript x size script others).exchange
      y (Consumer.ofScript y size script others').exchange) :
    (Consumer.ofScript x size script others).producer =
        (Consumer.ofScript y size script others').producer ∧
      (Consumer.ofScript x size script others).notes =
        (Consumer.ofScript y size script others').notes ∧
      (Consumer.ofScript x size script others).outcome =
        (Consumer.ofScript y size script others').outcome ∧
      (Consumer.ofScript x size script others).exchange.Alike
        (Consumer.ofScript y size script others').exchange := by
  have hblow := hstruck.blow_of_ofScript
  obtain ⟨answer, u, v, hleft, hright, hconstructed⟩ :=
    (h.constructProducer hx hy size hblow).cases
  have hsx := hx.constructProducer size others
  have hsy := hy.constructProducer size others'
  have hbx := strikes_construct x size others
  have hby := strikes_construct y size others'
  rw [hleft] at hsx hbx
  rw [hright] at hsy hby
  rw [← hblow] at hby
  cases answer with
  | error halt =>
    rw [ofScript_of_error hleft, ofScript_of_error hright]
    exact ⟨rfl, rfl, rfl, hconstructed⟩
  | ok p =>
    rw [ofScript_of_ok hleft, ofScript_of_ok hright] at hstruck ⊢
    -- the strike on the construction was the same, so those that are left are the same
    have hlater := hstruck.rest hbx hby (strikes_afterScript u p script others)
      (strikes_afterScript v p script others')
    exact hconstructed.afterScript hsx hsy p script hlater

/-! ## Upkeep -/

theorem shrink (h : x.Alike y) (hx : x.InSync [] none) (hy : y.InSync [] none)
    (hstruck : StruckAlike x (x.shrink others).2 y (y.shrink others').2) :
    AnswerAlike (x.shrink others) (y.shrink others') := by
  obtain ⟨hafter, hblow⟩ := hstruck.cut (strikes_shrink x others) (strikes_shrink y others') rfl
  rw [List.cons.injEq] at hafter hblow
  obtain ⟨hyield, hreclaimed⟩ := h.reclaimDownTo 0
  refine ⟨congrArg Reclaimed.bytes hyield, ?_⟩
  have hamid := hreclaimed.amid hafter.1
  have hcaught := hamid.catchUp ((hx.reclaimDownTo 0).amid _) ((hy.reclaimDownTo 0).amid _) hblow.1
  exact hcaught.note _ _

theorem statistics (h : x.Alike y) : x.statistics.timeless = y.statistics.timeless := by
  have hcounters := h.counters
  simp only [Counters.mk.injEq, and_true] at hcounters
  obtain ⟨hhits, hmisses, hfresh, hdisposals⟩ := hcounters
  simp only [Exchange.statistics, Statistics.timeless, h.registry, h.pool.idleBytes,
    h.pool.reclaimedTotal, hhits, hmisses, hfresh, hdisposals]

end Alike

end Exchange

end BlobExchange
