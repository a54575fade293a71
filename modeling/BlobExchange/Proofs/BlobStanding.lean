import BlobExchange.Exchange.Producer
import BlobExchange.Proofs.RegistryFrame
/-! # How a blob stands

`Stands` says what a blob's standing means for the registry and for the journal. Every operation
changes the standing of one blob at most (`SameBut`). -/

namespace BlobExchange

/-- How a blob stands with an exchange. -/
inductive Standing where
  | unissued
  | active (claims : Claims) (content : Bytes)
  | disposed

/-- An issued blob is active while it has claims. -/
def Standing.of (claims : Claims) (content : Bytes) : Standing :=
  if claims.released then .disposed else .active claims content

namespace Exchange

/-- What it means for registry and journal that a blob stands so. -/
def Stands (x : Exchange) (id : BlobId) : Standing → Prop
  | .unissued =>
    x.registry.claims.get? id = none ∧ x.registry.cells.get? id = none ∧ x.ended.count id = 0
  | .active claims content =>
    claims.released = false ∧ x.registry.claims.get? id = some claims ∧
      (∃ b, x.registry.cells.get? id = some ⟨some b, false⟩ ∧ b.content = content) ∧
      x.ended.count id = 0
  | .disposed =>
    x.registry.claims.get? id = none ∧ x.registry.cells.get? id = some ⟨none, true⟩ ∧
      x.ended.count id = 1

/-- All blobs but one stand in `y` as they do in `x`. -/
def SameBut (x y : Exchange) (id : BlobId) : Prop :=
  ∀ j st, j ≠ id → x.Stands j st → y.Stands j st

variable {x y z : Exchange} {id j : BlobId} {st : Standing} {claims : Claims} {content : Bytes}

/-- How a blob stands depends on its claims, its cell and the disposals noted. -/
theorem Stands.congr (hx : x.Stands id st)
    (hclaims : y.registry.claims.get? id = x.registry.claims.get? id)
    (hcells : y.registry.cells.get? id = x.registry.cells.get? id)
    (hended : y.ended.count id = x.ended.count id) : y.Stands id st := by
  cases st with
  | unissued =>
    simp only [Stands, hclaims, hcells, hended]
    exact hx
  | active claims content =>
    simp only [Stands, hclaims, hcells, hended]
    exact hx
  | disposed =>
    simp only [Stands, hclaims, hcells, hended]
    exact hx

theorem Backstage.stands {reports : List Handle} (hxy : Backstage x y reports)
    (hx : x.Stands id st) : y.Stands id st := by
  refine hx.congr ?_ ?_ ?_
  · rw [hxy.registry]
  · rw [hxy.registry]
  · rw [hxy.ended]

theorem SameBut.refl (x : Exchange) (id : BlobId) : SameBut x x id := fun _ _ _ hx => hx

theorem SameBut.trans (hxy : SameBut x y id) (hyz : SameBut y z id) : SameBut x z id :=
  fun j st hj hx => hyz j st hj (hxy j st hj hx)

theorem Backstage.sameBut {reports : List Handle} (hxy : Backstage x y reports) (id : BlobId) :
    SameBut x y id :=
  fun _ _ _ hx => hxy.stands hx

theorem stands_note (e : Event) (quiet : e.ended = []) (hx : x.Stands id st) :
    (x.note e).Stands id st :=
  (Backstage.note x e quiet).stands hx

/-! ## Issuing -/

theorem issue_of_spent (hspent : x.blobIds.isSpent = true) (size : Nat) (b : Buffer)
    (reused : Bool) : x.issue size b reused = (.error .overflow, x) := by
  unfold issue
  rw [if_pos hspent]

theorem stands_issue (hspent : x.blobIds.isSpent = false)
    (hx : x.Stands x.blobIds.nextId.1 .unissued) (size : Nat) (b : Buffer) (reused : Bool) :
    (x.issue size b reused).1 = .ok x.blobIds.nextId.1 ∧
      (x.issue size b reused).2.Stands x.blobIds.nextId.1 (.active ⟨true, 0⟩ []) ∧
      SameBut x (x.issue size b reused).2 x.blobIds.nextId.1 ∧
      (x.issue size b reused).2.blobIds = x.blobIds.nextId.2 := by
  unfold issue
  rw [hspent]
  refine ⟨rfl, stands_note _ rfl ?_, ?_, rfl⟩
  · obtain ⟨-, -, hended⟩ := hx
    refine ⟨rfl, Table.get?_insert_self _ _ _, ⟨b.emptied, Table.get?_insert_self _ _ _, rfl⟩, ?_⟩
    exact hended
  · intro j st hj hst
    refine stands_note _ rfl (hst.congr ?_ ?_ rfl)
    · exact (Table.get?_insert _ _ _ _).trans (if_neg hj)
    · exact (Table.get?_insert _ _ _ _).trans (if_neg hj)

/-! ## Claiming -/

theorem stands_claim (hx : x.Stands id (.active claims content)) :
    (x.claim id).1 = .ok () ∧
      (x.claim id).2.Stands id (.active ⟨claims.producerOpen, claims.consumers + 1⟩ content) := by
  obtain ⟨-, hclaims, hcell, hended⟩ := hx
  unfold claim Registry.claim
  rw [hclaims]
  refine ⟨rfl, stands_note _ rfl ⟨?_, Table.get?_insert_self _ _ _, hcell, hended⟩⟩
  simp [Claims.released]

theorem claim_of_unknown (hnone : x.registry.claims.get? id = none) :
    x.claim id = (.error (.unknownIdentifier id), x.note (.unknown id)) := by
  unfold claim Registry.claim
  rw [hnone]

theorem sameBut_claim (x : Exchange) (id : BlobId) : SameBut x (x.claim id).2 id := by
  intro j st hj hst
  unfold claim Registry.claim
  cases x.registry.claims.get? id with
  | none => exact stands_note _ rfl hst
  | some claims =>
    refine stands_note _ rfl (hst.congr ?_ rfl rfl)
    exact (Table.get?_insert _ _ _ _).trans (if_neg hj)

/-! ## Ending a claim -/

/-- What is left when a claim to an active blob ends decides how the blob stands. A disposal is
noted just if nothing is left. -/
theorem stands_settle (left : Claims) (hx : x.Stands id (.active claims content))
    (others : Interference) :
    let settled := x.registry.settle id left
    let y := { x with registry := settled.2 }.settle id settled.1 others
    y.Stands id (.of left content) ∧ SameBut x y id ∧ y.blobIds = x.blobIds ∧
      y.ended = x.ended ++ if left.released then [id] else [] := by
  obtain ⟨-, -, ⟨b, hcell, hcontent⟩, hended⟩ := hx
  by_cases hleft : left.released = true
  · -- nobody is left: the entry goes, the cell is marked, and the buffer is taken away
    have hmarked : (Registry.markDisposed ⟨x.registry.claims.erase id, x.registry.cells⟩ id) =
        ⟨x.registry.claims.erase id, x.registry.cells.insert id ⟨some b, true⟩⟩ := by
      simp only [Registry.markDisposed, hcell]
    have htaken : Registry.takeBuffer
          ⟨x.registry.claims.erase id, x.registry.cells.insert id ⟨some b, true⟩⟩ id =
        some (b, ⟨x.registry.claims.erase id,
          (x.registry.cells.insert id ⟨some b, true⟩).insert id ⟨none, true⟩⟩) := by
      simp only [Registry.takeBuffer, Table.get?_insert_self]
    simp only [Registry.settle, hleft, if_true, Exchange.settle, hmarked]
    have hdone := dispose_of_takeBuffer
      (x := { x with registry := ⟨_, x.registry.cells.insert id ⟨some b, true⟩⟩ }) htaken others
    refine ⟨hdone.stands ?_, ?_, hdone.blobIds, ?_⟩
    · rw [Standing.of, if_pos hleft]
      refine ⟨Table.get?_erase_self _ _, Table.get?_insert_self _ _ _, ?_⟩
      rw [ended_note, List.count_append]
      show x.ended.count id + [id].count id = 1
      rw [hended, List.count_singleton_self]
    · intro j st hj hst
      refine hdone.stands (hst.congr ?_ ?_ ?_)
      · exact (Table.get?_erase _ _ _).trans (if_neg hj)
      · refine (Table.get?_insert _ _ _ _).trans ((if_neg hj).trans ?_)
        exact (Table.get?_insert _ _ _ _).trans (if_neg hj)
      · rw [ended_note, List.count_append]
        show x.ended.count j + [id].count j = _
        rw [List.count_singleton, beq_eq_false_iff_ne.2 hj.symm]
        rfl
    · rw [hdone.ended, ended_note]
      rfl
  · -- others are left, whose claims are entered
    simp only [Registry.settle, hleft, Exchange.settle, Standing.of, if_false, Bool.false_eq_true]
    refine ⟨stands_note _ rfl ?_, ?_, rfl, ?_⟩
    · exact ⟨Bool.eq_false_iff.2 hleft, Table.get?_insert_self _ _ _, ⟨b, hcell, hcontent⟩, hended⟩
    · intro j st hj hst
      refine stands_note _ rfl (hst.congr ?_ rfl rfl)
      exact (Table.get?_insert _ _ _ _).trans (if_neg hj)
    · exact ended_note _ _

theorem stands_endProducer (hx : x.Stands id (.active claims content)) (others : Interference) :
    let left : Claims := ⟨false, claims.consumers⟩
    (x.endProducer id others).Stands id (.of left content) ∧
      SameBut x (x.endProducer id others) id ∧ (x.endProducer id others).blobIds = x.blobIds ∧
      (x.endProducer id others).ended = x.ended ++ if left.released then [id] else [] := by
  have hsettled := stands_settle ⟨false, claims.consumers⟩ hx others
  obtain ⟨-, hclaims, -, -⟩ := hx
  simp only [endProducer, Registry.endProducer, hclaims]
  exact hsettled

theorem stands_endConsumer (hx : x.Stands id (.active claims content)) (others : Interference) :
    let left : Claims := ⟨claims.producerOpen, claims.consumers - 1⟩
    (x.endConsumer id others).Stands id (.of left content) ∧
      SameBut x (x.endConsumer id others) id ∧ (x.endConsumer id others).blobIds = x.blobIds ∧
      (x.endConsumer id others).ended = x.ended ++ if left.released then [id] else [] := by
  have hsettled := stands_settle ⟨claims.producerOpen, claims.consumers - 1⟩ hx others
  obtain ⟨-, hclaims, -, -⟩ := hx
  simp only [endConsumer, Registry.endConsumer, hclaims]
  exact hsettled

/-! ## Reading and writing -/

theorem access_of_stands (hx : x.Stands id (.active claims content)) (operation : Operation) :
    ∃ b, x.registry.access id operation = .ok b ∧ b.content = content := by
  obtain ⟨-, -, ⟨b, hcell, hcontent⟩, -⟩ := hx
  refine ⟨b, ?_, hcontent⟩
  unfold Registry.access
  rw [hcell]

theorem isDisposed_of_stands (hx : x.Stands id (.active claims content)) :
    x.registry.isDisposed id = false := by
  obtain ⟨-, -, ⟨b, hcell, -⟩, -⟩ := hx
  unfold Registry.isDisposed
  rw [hcell]

theorem stands_setBuffer (hx : x.Stands id (.active claims content)) (b : Buffer) :
    (x.setBuffer id b).Stands id (.active claims b.content) ∧ SameBut x (x.setBuffer id b) id := by
  obtain ⟨hheld, hclaims, ⟨old, hcell, -⟩, hended⟩ := hx
  unfold setBuffer Registry.setBuffer
  rw [hcell]
  refine ⟨⟨hheld, hclaims, ⟨b, Table.get?_insert_self _ _ _, rfl⟩, hended⟩, ?_⟩
  intro j st hj hst
  refine hst.congr rfl ?_ rfl
  exact (Table.get?_insert _ _ _ _).trans (if_neg hj)

end Exchange

end BlobExchange
