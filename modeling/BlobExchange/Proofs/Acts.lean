import BlobExchange.Proofs.BufferGrowth
import BlobExchange.Proofs.HandleAgreement
import BlobExchange.Proofs.Strikes
import Mathlib.Logic.Relation
/-! # What an exchange does, act by act

Every move of a session is a chain of acts that begins and ends empty-handed (`acts_step`), so what
each act keeps holds after every run (`run_acts`). -/

namespace BlobExchange

namespace Registry

/-- The registry with other claims to a blob. -/
def hold (r : Registry) (id : BlobId) (claims : Claims) : Registry :=
  { r with claims := r.claims.insert id claims }

/-- The registry with another buffer in a blob that is not disposed. -/
def store (r : Registry) (id : BlobId) (b : Buffer) : Registry :=
  { r with cells := r.cells.insert id ⟨some b, false⟩ }

/-- The registry without a blob: nobody claims it, and its cell is empty and disposed. -/
def close (r : Registry) (id : BlobId) : Registry :=
  ⟨r.claims.erase id, r.cells.insert id ⟨none, true⟩⟩

end Registry

/-- What an exchange has in hand within a command: nothing, a buffer for the next blob, the buffer
of a blob that has ended, or such a buffer in the pool, whose handle is not shelved yet. -/
inductive Hand where
  | empty
  | given (b : Buffer)
  | ended (id : BlobId) (b : Buffer)
  | parked (id : BlobId) (b : Buffer) (h : Handle)

open Exchange in
/-- The acts of an exchange. If they are to be orderly, no buffer is lost. -/
inductive Act (orderly : Prop) : Exchange × Hand → Exchange × Hand → Prop where
  | note {x : Exchange} (e : Event) (unread : e.fetched = []) (quiet : e.ended = []) :
    Act orderly (x, .empty) (x.note e, .empty)
  | strike {x : Exchange} {hand : Hand} (deeds : List Reclamation) :
    Act orderly (x, hand) (x.amid deeds, hand)
  | reclaim {x : Exchange} (keep : Nat) :
    Act orderly (x, .empty) ({ x with pool := (x.pool.reclaimDownTo keep).2 }, .empty)
  | catchUp {x : Exchange} (others : Interference) :
    Act orderly (x, .empty) (x.catchUp others, .empty)
  | find {x : Exchange} {b : Buffer} (size : Nat) (found : (x.takeIdle size).1 = some b) :
    Act orderly (x, .empty)
      ({ (x.takeIdle size).2 with counters := (x.takeIdle size).2.counters.hit }, .given b)
  | miss {x : Exchange} (size : Nat) (missed : (x.takeIdle size).1 = none) :
    Act orderly (x, .empty) ((x.takeIdle size).2, .empty)
  | supply {x : Exchange} {b : Buffer} (size : Nat)
    (supplied : x.supplier.request x.requests size = .ok b) :
    Act orderly (x, .empty)
      ({ x with requests := x.requests ++ [size], counters := x.counters.miss b.capacity },
        .given b)
  | refuse {x : Exchange} {halt : Halt BufferError} (size : Nat)
    (refused : x.supplier.request x.requests size = .error halt) :
    Act orderly (x, .empty) ({ x with requests := x.requests ++ [size] }, .empty)
  | issue {x : Exchange} {b : Buffer} (room : x.blobIds.isSpent = false)
    (unissued : x.Stands x.blobIds.nextId.1 .unissued) :
    Act orderly (x, .given b)
      ({ x with
        blobIds := x.blobIds.nextId.2
        registry := x.registry.register x.blobIds.nextId.1 b.emptied }, .empty)
  | lose {x : Exchange} {b : Buffer} (spent : x.blobIds.isSpent = true) (allowed : ¬ orderly) :
    Act orderly (x, .given b) (x, .empty)
  | hold {x : Exchange} {id : BlobId} {claims : Claims} {content : Bytes} (left : Claims)
    (active : x.Stands id (.active claims content)) (held : left.released = false) :
    Act orderly (x, .empty) ({ x with registry := x.registry.hold id left }, .empty)
  | write {x : Exchange} {id : BlobId} {claims : Claims} {content : Bytes} {b after : Buffer}
    (active : x.Stands id (.active claims content))
    (there : x.registry.cells.get? id = some ⟨some b, false⟩) (written : b.Written after) :
    Act orderly (x, .empty) ({ x with registry := x.registry.store id after }, .empty)
  | withdraw {x : Exchange} {id : BlobId} {claims : Claims} {content : Bytes} {b : Buffer}
    (active : x.Stands id (.active claims content))
    (there : x.registry.cells.get? id = some ⟨some b, false⟩) :
    Act orderly (x, .empty) ({ x with registry := x.registry.close id }, .ended id b)
  | park {x : Exchange} {id : BlobId} {b : Buffer} :
    Act orderly (x, .ended id b)
      ({ x with pool := (x.pool.park b).2 }, .parked id b (x.pool.park b).1)
  | shelve {x : Exchange} {id : BlobId} {b : Buffer} {h : Handle} :
    Act orderly (x, .parked id b h)
      (Exchange.note { x.shelve b.capacity h with counters := x.counters.disposal }
        (.disposed id b.capacity), .empty)

namespace Act

variable {orderly : Prop} {a b : Exchange × Hand}

theorem settings (h : Act orderly a b) : b.1.settings = a.1.settings := by
  cases h with
  | strike deeds => exact Exchange.settings_amid _ deeds
  | catchUp others => exact (Exchange.Backstage.catchUp _ others).settings
  | _ => rfl

theorem supplier (h : Act orderly a b) : b.1.supplier = a.1.supplier := by
  cases h with
  | strike deeds => exact Exchange.supplier_amid _ deeds
  | @catchUp x others =>
    have hacknowledge : ∀ (y : Exchange) (reports : List Handle),
        (y.acknowledge reports).supplier = y.supplier := by
      intro y reports
      induction reports generalizing y with
      | nil => rfl
      | cons h rest ih =>
        unfold Exchange.acknowledge
        split
        · exact ih _
        · rfl
    have hfetch : x.fetch.2.supplier = x.supplier := by
      simp only [Exchange.fetch]
      split <;> rfl
    show (Exchange.catchUp x others).supplier = x.supplier
    rw [Exchange.catchUp, hacknowledge, Exchange.fetchAmid, Exchange.supplier_amid, hfetch]
  | _ => rfl

end Act

/-- A chain of acts that begins and ends empty-handed. -/
def Acts (orderly : Prop) (x y : Exchange) : Prop :=
  Relation.ReflTransGen (Act orderly) (x, .empty) (y, .empty)

namespace Acts

variable {orderly : Prop} {x y z : Exchange} {id : BlobId} {claims : Claims} {content : Bytes}

theorem refl (x : Exchange) : Acts orderly x x := Relation.ReflTransGen.refl

theorem trans (hxy : Acts orderly x y) (hyz : Acts orderly y z) : Acts orderly x z :=
  Relation.ReflTransGen.trans hxy hyz

theorem one (h : Act orderly (x, .empty) (y, .empty)) : Acts orderly x y :=
  Relation.ReflTransGen.single h

theorem note (x : Exchange) (e : Event) (unread : e.fetched = []) (quiet : e.ended = []) :
    Acts orderly x (x.note e) :=
  one (.note e unread quiet)

/-- What each act keeps, a chain keeps. -/
theorem keep {P : Exchange × Hand → Prop} (kept : ∀ a b, P a → Act orderly a b → P b)
    (h : Acts orderly x y) (hx : P (x, .empty)) : P (y, .empty) := by
  have hchain : ∀ a b, Relation.ReflTransGen (Act orderly) a b → P a → P b := by
    intro a b hab ha
    induction hab with
    | refl => exact ha
    | tail _ hlast ih => exact kept _ _ ih hlast
  exact hchain _ _ h hx

theorem fixed (h : Acts orderly x y) : y.settings = x.settings ∧ y.supplier = x.supplier := by
  refine h.keep (P := fun a => a.1.settings = x.settings ∧ a.1.supplier = x.supplier) ?_ ⟨rfl, rfl⟩
  rintro a b ⟨hsettings, hsupplier⟩ hact
  rw [hact.settings, hact.supplier]
  exact ⟨hsettings, hsupplier⟩

/-! ## Reclaiming -/

theorem reclaimIdle (x : Exchange) (keep : Nat) : Acts orderly x (x.reclaimIdle keep).2 := by
  have hreclaimed : Acts orderly x { x with pool := (x.pool.reclaimDownTo keep).2 } :=
    one (.reclaim keep)
  simp only [Exchange.reclaimIdle]
  split
  · exact hreclaimed
  · exact hreclaimed.trans (note _ _ rfl rfl)

theorem keepBudget (x : Exchange) : Acts orderly x x.keepBudget := by
  unfold Exchange.keepBudget
  split
  · exact refl x
  · rename_i budget _
    have hreclaimed : Acts orderly x { x with pool := (x.pool.reclaimDownTo budget).2 } :=
      one (.reclaim budget)
    simp only
    split
    · exact hreclaimed
    · exact hreclaimed.trans (note _ _ rfl rfl)

theorem shrink (x : Exchange) (others : Interference) : Acts orderly x (x.shrink others).2 := by
  have hreclaimed : Acts orderly x { x with pool := (x.pool.reclaimDownTo 0).2 } := one (.reclaim 0)
  have hstruck := hreclaimed.trans (one (.strike others.afterShrink))
  exact (hstruck.trans (one (.catchUp others))).trans (note _ _ rfl rfl)

/-! ## Constructing -/

/-- A buffer in hand becomes the next blob, or it is lost because there is no next blob. -/
theorem issue (hx : x.Stands x.blobIds.nextId.1 .unissued)
    (room : orderly → x.blobIds.isSpent = false) (size : Nat) (b : Buffer) (reused : Bool) :
    Relation.ReflTransGen (Act orderly) (x, .given b) ((x.issue size b reused).2, .empty) := by
  cases hspent : x.blobIds.isSpent with
  | true =>
    rw [Exchange.issue_of_spent hspent]
    refine Relation.ReflTransGen.single (.lose hspent fun horderly => ?_)
    rw [room horderly] at hspent
    cases hspent
  | false =>
    unfold Exchange.issue
    rw [hspent]
    have hnoted : Acts orderly _ _ :=
      note { x with
        blobIds := x.blobIds.nextId.2
        registry := x.registry.register x.blobIds.nextId.1 b.emptied }
        (.constructed x.blobIds.nextId.1 size b.capacity reused) rfl rfl
    exact Relation.ReflTransGen.head (.issue hspent hx) hnoted

theorem construct (hx : x.Stands x.blobIds.nextId.1 .unissued)
    (room : orderly → x.blobIds.isSpent = false) (size : Nat) (others : Interference) :
    Acts orderly x (x.construct size others).2 := by
  have hcaught : Acts orderly x (x.catchUp others) := one (.catchUp others)
  have hbehind := (Exchange.Backstage.catchUp x others).before (.takeIdle _ size)
  -- behind the scenes no blob is issued, so the next one is still to come
  have hids := hbehind.blobIds
  have hunissued := hbehind.stands hx
  have hfound := fun b => @Act.find orderly (x.catchUp others) b size
  have hmissed := @Act.miss orderly (x.catchUp others) size
  rw [← hids] at hunissued room
  unfold Exchange.construct
  split
  · rename_i b y heq
    rw [heq] at hfound hunissued room
    refine hcaught.trans (Relation.ReflTransGen.head (hfound b rfl) ?_)
    exact issue (x := { y with counters := y.counters.hit })
      (hunissued.congr rfl rfl rfl) room size b true
  · rename_i y heq
    rw [heq] at hmissed hunissued room
    have hmissed : Acts orderly x y := hcaught.trans (one (hmissed rfl))
    split
    · rename_i halt z hreq
      cases congrArg Prod.snd hreq
      exact hmissed.trans (one (.refuse size (congrArg Prod.fst hreq)))
    · rename_i b z hreq
      cases congrArg Prod.snd hreq
      refine hmissed.trans (Relation.ReflTransGen.head (.supply size (congrArg Prod.fst hreq)) ?_)
      exact issue
        (x := { y with requests := y.requests ++ [size], counters := y.counters.miss b.capacity })
        (hunissued.congr rfl rfl rfl) room size b false

/-! ## Claiming and releasing -/

theorem claim {st : Standing} (hx : x.Stands id st) : Acts orderly x (x.claim id).2 := by
  have hunknown : x.registry.claims.get? id = none → Acts orderly x (x.claim id).2 := by
    intro hnone
    rw [Exchange.claim_of_unknown hnone]
    exact note _ _ rfl rfl
  cases st with
  | unissued => exact hunknown hx.1
  | disposed => exact hunknown hx.1
  | active claims content =>
    have hmore : Claims.released ⟨claims.producerOpen, claims.consumers + 1⟩ = false := by
      simp [Claims.released]
    have hheld : Acts orderly x _ := one (.hold _ hx hmore)
    obtain ⟨-, hclaims, -⟩ := hx
    unfold Exchange.claim Registry.claim
    rw [hclaims]
    exact hheld.trans (note _ _ rfl rfl)

end Acts

/-- Parks and shelves the buffer of a blob that has ended, as a disposal does. -/
def Exchange.putAway (x : Exchange) (id : BlobId) (b : Buffer) (others : Interference) : Exchange :=
  let struck := x.amid others.beforePark
  let parked := Exchange.amid { struck with pool := (struck.pool.park b).2 } others.afterPark
  let shelved := parked.shelve b.capacity (struck.pool.park b).1
  (Exchange.note { shelved with counters := parked.counters.disposal }
    (.disposed id b.capacity)).keepBudget

/-- What becomes of an active blob when these claims are left: it is held on, or it ends and its
buffer is put away. -/
theorem Exchange.settle_active {x : Exchange} {id : BlobId} {b : Buffer}
    (there : x.registry.cells.get? id = some ⟨some b, false⟩) (left : Claims)
    (others : Interference) :
    { x with registry := (x.registry.settle id left).2 }.settle id (x.registry.settle id left).1
        others =
      if left.released then { x with registry := x.registry.close id }.putAway id b others
      else { x with registry := x.registry.hold id left }.note (.retained id) := by
  by_cases hleft : left.released = true
  · simp only [Registry.settle, hleft, if_true, Registry.markDisposed, there, Exchange.settle,
      Exchange.dispose, Registry.takeBuffer, Table.get?_insert_self, Table.insert_insert]
    rfl
  · simp only [Registry.settle, hleft, Exchange.settle]
    rfl

namespace Acts

variable {orderly : Prop} {x y : Exchange} {id : BlobId} {claims : Claims} {content : Bytes}

theorem putAway (x : Exchange) (id : BlobId) (b : Buffer) (others : Interference) :
    Relation.ReflTransGen (Act orderly) (x, .ended id b) (x.putAway id b others, .empty) := by
  have hparked : Relation.ReflTransGen (Act orderly) (x, .ended id b) _ :=
    ((Relation.ReflTransGen.single (.strike others.beforePark)).tail .park).tail
      (.strike others.afterPark)
  exact (hparked.tail .shelve).trans (keepBudget _)

theorem settle (hx : x.Stands id (.active claims content)) (left : Claims)
    (others : Interference) :
    Acts orderly x ({ x with registry := (x.registry.settle id left).2 }.settle id
      (x.registry.settle id left).1 others) := by
  have hactive := hx
  obtain ⟨-, -, ⟨b, there, -⟩, -⟩ := hactive
  rw [Exchange.settle_active there]
  split
  · exact Relation.ReflTransGen.head (.withdraw hx there) (putAway _ id b others)
  · rename_i hheld
    exact (one (.hold left hx (Bool.eq_false_iff.2 hheld))).trans (note _ _ rfl rfl)

theorem endProducer (hx : x.Stands id (.active claims content)) (others : Interference) :
    Acts orderly x (x.endProducer id others) := by
  have hsettled : Acts orderly x _ := settle hx ⟨false, claims.consumers⟩ others
  obtain ⟨-, hclaims, -⟩ := hx
  simp only [Exchange.endProducer, Registry.endProducer, hclaims]
  exact hsettled

theorem endConsumer (hx : x.Stands id (.active claims content)) (others : Interference) :
    Acts orderly x (x.endConsumer id others) := by
  have hsettled : Acts orderly x _ :=
    settle hx ⟨claims.producerOpen, claims.consumers - 1⟩ others
  obtain ⟨-, hclaims, -⟩ := hx
  simp only [Exchange.endConsumer, Registry.endConsumer, hclaims]
  exact hsettled

/-! ## Through handles -/

theorem setBuffer (hx : x.Stands id (.active claims content)) {b after : Buffer}
    (there : x.registry.cells.get? id = some ⟨some b, false⟩) (written : b.Written after) :
    Acts orderly x (x.setBuffer id after) := by
  have hstored : x.setBuffer id after = { x with registry := x.registry.store id after } := by
    simp only [Exchange.setBuffer, Registry.setBuffer, there]
    rfl
  rw [hstored]
  exact one (.write hx there written)

theorem cell_of_access {p : Producer} {b : Buffer} {operation : Operation}
    (hb : p.access x operation = .ok b) : x.registry.cells.get? p.id = some ⟨some b, false⟩ := by
  unfold Producer.access Registry.access at hb
  split at hb
  · cases hb
  · split at hb
    · rename_i c hcell
      cases hb
      exact hcell
    · cases hb

theorem run {p : Producer} (hx : x.Stands p.id (.active claims content))
    (script : List Instruction) : Acts orderly x (p.run x script).exchange := by
  unfold Producer.run
  split
  · exact refl x
  · rename_i b hb
    exact setBuffer hx (cell_of_access hb) (.run script)

theorem perform {p : Producer} (hx : x.Stands p.id (.active claims content))
    (command : WriteCommand) : Acts orderly x (p.perform x command).2 := by
  cases command with
  | fill source budget =>
    simp only [Producer.perform, Producer.fill]
    split
    · exact refl x
    · rename_i b hb
      exact setBuffer hx (cell_of_access hb) (.fill source budget)
  | run script => exact run hx script
  | announce message =>
    simp only [Producer.perform]
    split <;> exact refl x
  | held => exact refl x
  | capacity => exact refl x
  | fits additional => exact refl x

theorem finishProducer {p : Producer} (hx : x.Stands p.id (.active claims content))
    (others : Interference) : Acts orderly x (p.finish x others).2 := by
  unfold Producer.finish
  split
  · exact refl x
  · exact endProducer hx others

theorem finishConsumer {c : Consumer} (hx : x.Stands c.id (.active claims content))
    (others : Interference) : Acts orderly x (c.finish x others).2 := by
  unfold Consumer.finish
  split
  · exact refl x
  · exact endConsumer hx others

theorem dropProducer (p : Producer) (x : Exchange) : Acts orderly x (p.drop x) := by
  unfold Producer.drop
  split
  · exact refl x
  · exact note _ _ rfl rfl

theorem dropConsumer (c : Consumer) (x : Exchange) : Acts orderly x (c.drop x) := by
  unfold Consumer.drop
  split
  · exact refl x
  · exact note _ _ rfl rfl

theorem exchange_claim (x : Exchange) (id : BlobId) :
    (Consumer.claim x id).2 = (x.claim id).2 := by
  unfold Consumer.claim
  split <;> (rename_i heq; rw [heq])

theorem exchange_construct (x : Exchange) (size : Nat) (others : Interference) :
    (Producer.construct x size others).2 = (x.construct size others).2 := by
  unfold Producer.construct
  split <;> (rename_i heq; rw [heq])

/-- A new blob is written by a script, claimed, and left by its producer. -/
theorem afterScript {p : Producer} (hp : p.finished = false)
    (hx : x.Stands p.id (.active claims content)) (script : List Instruction)
    (others : Interference) : Acts orderly x (x.afterScript p script others).exchange := by
  have hran : Acts orderly x (p.run x script).exchange := run hx script
  have hwritten := (Producer.perform_of_open hp hx (.run script)).stands
  change (p.run x script).exchange.Stands p.id _ at hwritten
  have hclaimed := (Exchange.stands_claim hwritten).2
  unfold Exchange.afterScript
  simp only [exchange_claim]
  split
  · exact hran.trans (dropProducer p _)
  · exact hran.trans (finishProducer hwritten others)
  · exact (hran.trans (claim hwritten)).trans (finishProducer hclaimed others)

end Acts

/-! ## Moves -/

namespace Session

/-- Whether a command constructs a blob. -/
def constructs : Command → Bool
  | .construct _ => true
  | .write _ _ => true
  | _ => false

variable {orderly : Prop} {s : Session}

namespace Consistent

theorem unissued_next (hs : s.Consistent) :
    s.exchange.Stands s.exchange.blobIds.nextId.1 .unissued := by
  have hstands := hs.stands s.exchange.blobIds.nextId.1
  rwa [standing_of_not_mem hs.next_new] at hstands

/-- A blob that is constructed is the next one. It is active and empty, and no other changes. -/
theorem construct_ok (hs : s.Consistent) {size : Nat} {others : Interference} {p : Producer}
    {x : Exchange} (hx : Producer.construct s.exchange size others = (.ok p, x)) :
    p = ⟨s.exchange.blobIds.nextId.1, false⟩ ∧ x.Stands p.id (.active ⟨true, 0⟩ []) ∧
      Exchange.SameBut s.exchange x p.id ∧ x.blobIds = s.exchange.blobIds.nextId.2 := by
  obtain ⟨y, hy, ⟨halt, heq⟩ | ⟨b, reused, heq⟩⟩ := Exchange.construct_cases s.exchange size others
  · simp only [Producer.construct, heq] at hx
    cases hx
  · have hunissued := hy.stands hs.unissued_next
    rw [← hy.blobIds] at hunissued ⊢
    cases hspent : y.blobIds.isSpent with
    | true =>
      simp only [Producer.construct, heq, Exchange.issue_of_spent hspent] at hx
      cases hx
    | false =>
      obtain ⟨hid, hstands, hsame, hids⟩ := Exchange.stands_issue hspent hunissued size b reused
      unfold Producer.construct at hx
      rw [heq] at hx
      generalize y.issue size b reused = issued at hx hid hstands hsame hids
      obtain ⟨outcome, z⟩ := issued
      cases hid
      cases hx
      exact ⟨rfl, hstands, (hy.sameBut _).trans hsame, hids⟩

end Consistent

/-- Every move of a session is a chain of acts, orderly unless it constructs a blob when the counter
of identifiers has run out. -/
theorem acts_step (hs : s.Consistent) (others : Interference) (command : Command)
    (room : orderly → constructs command = true → s.exchange.blobIds.isSpent = false) :
    Acts orderly s.exchange (s.step others command).2.exchange := by
  cases command with
  | construct size =>
    have hroom := fun h => room h rfl
    have hconstructed := Acts.construct hs.unissued_next hroom size others
    rw [← Acts.exchange_construct] at hconstructed
    simp only [step, construct]
    split <;> (rename_i heq; rw [heq] at hconstructed; exact hconstructed)
  | write size script =>
    have hroom := fun h => room h rfl
    have hconstructed := Acts.construct hs.unissued_next hroom size others
    rw [← Acts.exchange_construct] at hconstructed
    simp only [step, write, exchange_welcome]
    cases hx : Producer.construct s.exchange size others with
    | mk outcome x =>
      rw [hx] at hconstructed
      cases outcome with
      | error halt =>
        rw [Exchange.ofScript_of_error hx]
        exact hconstructed
      | ok p =>
        -- the script runs on the blob that was constructed for it
        obtain ⟨hp, hactive, -⟩ := hs.construct_ok hx
        rw [Exchange.ofScript_of_ok hx]
        refine hconstructed.trans ?_
        exact Acts.afterScript (congrArg Producer.finished hp) hactive script others
  | claim id =>
    simp only [step, exchange_welcome, Acts.exchange_claim]
    exact Acts.claim (hs.stands id)
  | claimFrom message =>
    simp only [step, exchange_welcome, Consumer.claimFrom]
    split
    · exact Acts.refl _
    · simp only [Acts.exchange_claim]
      exact Acts.claim (hs.stands _)
  | toWriter place command =>
    simp only [step, toWriter]
    split
    · exact Acts.refl _
    · rename_i w hw
      cases hfinished : w.producer.finished with
      | true =>
        rw [Producer.perform_of_finished hfinished]
        exact Acts.refl _
      | false =>
        have hmem := List.mem_of_getElem? (writer?_eq_some.1 hw).1
        have hopen : w.isOpen = true := by simp [Writer.isOpen, hfinished]
        exact Acts.perform (hs.active_of_writer hmem hopen) command
  | finishWriter place =>
    simp only [step, finishWriter]
    split
    · exact Acts.refl _
    · rename_i w hw
      cases hfinished : w.producer.finished with
      | true =>
        simp only [Producer.finish, hfinished, if_true]
        exact Acts.refl _
      | false =>
        have hmem := List.mem_of_getElem? (writer?_eq_some.1 hw).1
        have hopen : w.isOpen = true := by simp [Writer.isOpen, hfinished]
        exact Acts.finishProducer (hs.active_of_writer hmem hopen) others
  | dropWriter place =>
    simp only [step, dropWriter]
    split
    · exact Acts.refl _
    · exact Acts.dropProducer _ _
  | toReader place command =>
    simp only [step, toReader]
    split <;> exact Acts.refl _
  | finishReader place =>
    simp only [step, finishReader]
    split
    · exact Acts.refl _
    · rename_i r hr
      cases hfinished : r.consumer.finished with
      | true =>
        simp only [Consumer.finish, hfinished, if_true]
        exact Acts.refl _
      | false =>
        have hmem := List.mem_of_getElem? (reader?_eq_some.1 hr).1
        have hopen : r.isOpen = true := by simp [Reader.isOpen, hfinished]
        -- how the reader's blob stands is told by its writer
        obtain ⟨w, hw, hwr⟩ := hs.issued r hmem
        have hactive := hs.active_of_reader hmem hopen hw hwr
        rw [hwr] at hactive
        exact Acts.finishConsumer hactive others
  | dropReader place =>
    simp only [step, dropReader]
    split
    · exact Acts.refl _
    · exact Acts.dropConsumer _ _
  | activeBlobs => exact Acts.refl _
  | shelved => exact Acts.one (.catchUp others)
  | statistics => exact Acts.one (.catchUp others)
  | shrink => exact Acts.shrink s.exchange others
  | reclaim keep => exact Acts.reclaimIdle s.exchange keep
  | meanwhile deeds => exact Acts.one (.strike deeds)

theorem acts_run (hs : s.Consistent) (moves : List Move) :
    Acts False s.exchange (s.run moves).exchange := by
  induction moves generalizing s with
  | nil => exact Acts.refl _
  | cons m rest ih =>
    have hfirst := acts_step hs m.others m.command False.elim
    exact hfirst.trans (ih (consistent_step hs m.others m.command))

/-- What holds of a new exchange and is kept by each act holds after every run. -/
theorem run_acts {P : Exchange × Hand → Prop} {settings : Settings} {supplier : Supplier}
    (first : P (Exchange.assemble settings supplier, .empty))
    (kept : ∀ a b, P a → Act False a b → P b) (moves : List Move) :
    P (((start settings supplier).run moves).exchange, .empty) :=
  (acts_run (Consistent.start settings supplier) moves).keep kept first

theorem fixed_run (settings : Settings) (supplier : Supplier) (moves : List Move) :
    ((start settings supplier).run moves).exchange.settings = settings ∧
      ((start settings supplier).run moves).exchange.supplier = supplier :=
  (acts_run (Consistent.start settings supplier) moves).fixed

end Session

end BlobExchange
