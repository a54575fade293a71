import BlobExchange.Proofs.ReclaimsOldest
/-! # No buffer is lost or made up

A buffer keeps its policy from its supply on, and a supplier may give each its own, so buffers are
told apart by their policies. -/

namespace BlobExchange

/-! ## Buffers in blobs -/

namespace Registry

variable {r : Registry} {id : BlobId} {b after : Buffer} {c : Claims}

/-- The buffers in the cells of the registry. -/
def buffers (r : Registry) : List Buffer := r.cells.entries.filterMap fun e => e.2.buffer

theorem buffers_register (hnew : r.cells.get? id = none) :
    (r.register id b).buffers.Perm (b :: r.buffers) := by
  have hperm := (Table.perm_insert r.cells id ⟨some b, false⟩).filterMap fun e => e.2.buffer
  rw [Table.entries_erase_of_none hnew] at hperm
  exact hperm

theorem size_register (hnew : r.claims.get? id = none) : (r.register id b).size = r.size + 1 := by
  have hperm := (Table.perm_insert r.claims id ⟨true, 0⟩).length_eq
  rw [Table.entries_erase_of_none hnew] at hperm
  exact hperm

theorem size_hold (hheld : r.claims.get? id = some c) (left : Claims) :
    (r.hold id left).size = r.size := by
  have hbefore := (Table.perm_of_get? hheld).length_eq
  have hafter := (Table.perm_insert r.claims id left).length_eq
  exact hafter.trans hbefore.symm

theorem perm_buffers (hthere : r.cells.get? id = some ⟨some b, false⟩) :
    r.buffers.Perm (b :: (r.cells.erase id).entries.filterMap fun e => e.2.buffer) :=
  (Table.perm_of_get? hthere).filterMap _

theorem buffers_store (r : Registry) (id : BlobId) (after : Buffer) :
    (r.store id after).buffers.Perm
      (after :: (r.cells.erase id).entries.filterMap fun e => e.2.buffer) :=
  (Table.perm_insert r.cells id ⟨some after, false⟩).filterMap _

theorem buffers_close (hthere : r.cells.get? id = some ⟨some b, false⟩) :
    r.buffers.Perm (b :: (r.close id).buffers) := by
  have hafter := (Table.perm_insert r.cells id ⟨none, true⟩).filterMap fun e => e.2.buffer
  exact (perm_buffers hthere).trans (hafter.symm.cons b)

theorem size_close (hheld : r.claims.get? id = some c) : r.size = (r.close id).size + 1 :=
  (Table.perm_of_get? hheld).length_eq

end Registry

/-! ## Buffers in the pool -/

namespace Pool

variable {p q : Pool} {h : Handle} {b : Buffer}

/-- `q` has the buffers of `p` but for some that were given up and counted as reclaimed. -/
structure GivesUp (p q : Pool) (gone : List Buffer) : Prop where
  idle : (p.idle.map Prod.snd).Perm (q.idle.map Prod.snd ++ gone)
  total : q.reclaimedTotal = p.reclaimedTotal + gone.length

theorem GivesUp.surrender (hp : p.Tallied) (h : Handle) :
    ∃ gone, p.GivesUp (p.surrender h) gone := by
  unfold Pool.surrender
  cases ht : p.take h with
  | none => exact ⟨[], by simp, rfl⟩
  | some taken =>
    obtain ⟨b, q⟩ := taken
    have hperm := idle_take hp.complete hp.distinct ht
    refine ⟨[b], ?_, ?_⟩
    · have hbuffers := (hperm.map Prod.snd).trans (List.perm_append_singleton b _).symm
      exact hbuffers
    · rw [eq_of_take ht]
      rfl

theorem GivesUp.trans {r : Pool} {first later : List Buffer} (hpq : p.GivesUp q first)
    (hqr : q.GivesUp r later) : p.GivesUp r (later ++ first) := by
  refine ⟨?_, ?_⟩
  · have hmore := hpq.idle.trans (hqr.idle.append_right first)
    rwa [List.append_assoc] at hmore
  · rw [hqr.total, hpq.total, List.length_append]
    omega

theorem GivesUp.surrenderAll (hp : p.Tallied) (lost : List Handle) :
    ∃ gone, p.GivesUp (p.surrenderAll lost) gone := by
  unfold Pool.surrenderAll
  induction lost generalizing p with
  | nil => exact ⟨[], by simp, rfl⟩
  | cons h rest ih =>
    obtain ⟨first, hfirst⟩ := GivesUp.surrender hp h
    obtain ⟨later, hlater⟩ := ih (hp.surrender h)
    exact ⟨later ++ first, hfirst.trans hlater⟩

/-- What others reclaim is given up and counted. -/
theorem GivesUp.sufferAll (hp : p.Tallied) (deeds : List Reclamation) :
    ∃ gone, p.GivesUp (p.sufferAll deeds) gone := by
  obtain ⟨gone, hgone⟩ := GivesUp.surrenderAll hp (p.losses deeds)
  have halike := (alike_sufferAll p deeds).symm
  refine ⟨gone, ?_, ?_⟩
  · rw [← halike.idle]
    exact hgone.idle
  · rw [← halike.reclaimedTotal]
    exact hgone.total

theorem reclaimedTotal_park (p : Pool) (b : Buffer) :
    (p.park b).2.reclaimedTotal = p.reclaimedTotal := by
  have hsweep : ∀ q : Pool, q.sweep.reclaimedTotal = q.reclaimedTotal := by
    intro q
    rcases sweep_eq q with h | h <;> rw [h]
  simp only [park, hsweep]
  unfold place
  split <;> rfl

end Pool

/-! ## The books -/

/-- The buffers that a supplier gave when it was asked for sizes one after the other. -/
def Supplier.given (s : Supplier) : (earlier requests : List Nat) → List Buffer
  | _, [] => []
  | earlier, size :: rest =>
    match s.request earlier size with
    | .ok b => b :: s.given (earlier ++ [size]) rest
    | .error _ => s.given (earlier ++ [size]) rest

theorem Supplier.given_append (s : Supplier) (earlier requests : List Nat) (size : Nat) :
    s.given earlier (requests ++ [size]) =
      s.given earlier requests ++ match s.request (earlier ++ requests) size with
        | .ok b => [b]
        | .error _ => [] := by
  induction requests generalizing earlier with
  | nil =>
    simp only [List.nil_append, List.append_nil, given]
  | cons first rest ih =>
    simp only [List.cons_append, given]
    cases s.request earlier first <;> simp [ih]

/-- How many of the buffers have a policy. -/
def ofPolicy (policy : GrowthPolicy) (buffers : List Buffer) : Nat :=
  buffers.countP fun b => decide (b.policy = policy)

section OfPolicy

variable {policy : GrowthPolicy} {first later : List Buffer} {b : Buffer}

theorem ofPolicy_nil : ofPolicy policy [] = 0 := rfl

theorem ofPolicy_append :
    ofPolicy policy (first ++ later) = ofPolicy policy first + ofPolicy policy later :=
  List.countP_append

theorem ofPolicy_cons :
    ofPolicy policy (b :: later) = ofPolicy policy [b] + ofPolicy policy later := by
  rw [← ofPolicy_append, List.singleton_append]

theorem ofPolicy_perm (policy : GrowthPolicy) (h : first.Perm later) :
    ofPolicy policy first = ofPolicy policy later :=
  h.countP_eq _

theorem ofPolicy_same {after : Buffer} (h : after.policy = b.policy) :
    ofPolicy policy [after] = ofPolicy policy [b] := by
  simp [ofPolicy, h]

/-- Lists with the same policies, each as often, are equally long. -/
theorem length_eq_of_ofPolicy (h : ∀ policy, ofPolicy policy first = ofPolicy policy later) :
    first.length = later.length := by
  have hcount : ∀ (l : List Buffer) policy,
      (l.map Buffer.policy).count policy = ofPolicy policy l := by
    intro l policy
    rw [List.count_eq_countP, List.countP_map]
    rfl
  have hperm : (first.map Buffer.policy).Perm (later.map Buffer.policy) := by
    rw [List.perm_iff_count]
    intro policy
    rw [hcount, hcount, h policy]
  simpa using hperm.length_eq

end OfPolicy

namespace Hand

/-- The buffer that is in hand and not in the pool. -/
def buffers : Hand → List Buffer
  | given b => [b]
  | ended _ b => [b]
  | _ => []

/-- One more identifier is due while a buffer is on its way to a blob. -/
def pending : Hand → Nat
  | given _ => 1
  | _ => 0

/-- One more disposal is due while the buffer of a blob that ended is not shelved. -/
def closing : Hand → Nat
  | ended _ _ => 1
  | parked _ _ _ => 1
  | _ => 0

end Hand

namespace Exchange

/-- All buffers are accounted for, with the one in hand, and so are blobs and identifiers. -/
structure Balanced (x : Exchange) (hand : Hand) : Prop where
  tallied : x.Tallied hand
  traced : ∃ gone : List Buffer, gone.length = x.pool.reclaimedTotal ∧
    ∀ policy, ofPolicy policy (x.supplier.given [] x.requests) =
      ofPolicy policy x.registry.buffers + ofPolicy policy (x.pool.idle.map Prod.snd) +
        ofPolicy policy hand.buffers + ofPolicy policy gone
  inBlobs : x.registry.buffers.length = x.registry.size
  misses : x.counters.misses = (x.supplier.given [] x.requests).length
  issued : x.counters.hits + x.counters.misses + 1 = x.blobIds.upcoming + hand.pending
  ended : x.blobIds.upcoming = x.registry.size + x.counters.disposals + hand.closing + 1

/-- What supplies, blobs and identifiers there have been is the same. -/
structure SameBooks (x y : Exchange) : Prop where
  supplier : y.supplier = x.supplier
  requests : y.requests = x.requests
  registry : y.registry = x.registry
  blobIds : y.blobIds = x.blobIds
  hits : y.counters.hits = x.counters.hits
  misses : y.counters.misses = x.counters.misses
  disposals : y.counters.disposals = x.counters.disposals

namespace SameBooks

variable {x : Exchange}

/-- Supplies, blobs and identifiers stay as they are when others strike. -/
theorem amid (x : Exchange) (deeds : List Reclamation) : x.SameBooks (x.amid deeds) where
  supplier := supplier_amid x deeds
  requests := requests_amid x deeds
  registry := registry_amid x deeds
  blobIds := blobIds_amid x deeds
  hits := congrArg Counters.hits (counters_amid x deeds)
  misses := congrArg Counters.misses (counters_amid x deeds)
  disposals := congrArg Counters.disposals (counters_amid x deeds)

theorem catchUp (hx : x.InSync [] none) (others : Interference) :
    x.SameBooks (x.catchUp others) := by
  have hcaught := Alike.caughtUp hx others
  obtain ⟨hhits, hmisses, -, hdisposals, -⟩ := Counters.mk.inj hcaught.counters
  exact ⟨hcaught.supplier, hcaught.requests, hcaught.registry, hcaught.blobIds, hhits, hmisses,
    hdisposals⟩

end SameBooks

namespace Balanced

variable {x y : Exchange} {hand : Hand}

theorem assemble (settings : Settings) (supplier : Supplier) :
    (Exchange.assemble settings supplier).Balanced .empty where
  tallied := .assemble settings supplier
  traced := ⟨[], rfl, fun _ => rfl⟩
  inBlobs := rfl
  misses := rfl
  issued := rfl
  ended := rfl

/-- The books stay balanced when idle buffers are given up. -/
theorem lose (hx : x.Balanced hand) (hy : y.Tallied hand) {gone : List Buffer}
    (hpool : x.pool.GivesUp y.pool gone) (hbooks : x.SameBooks y) : y.Balanced hand := by
  obtain ⟨before, hbefore, htraced⟩ := hx.traced
  refine ⟨hy, ⟨gone ++ before, ?_, ?_⟩, ?_, ?_, ?_, ?_⟩
  · rw [hpool.total, List.length_append, hbefore]
    omega
  · intro policy
    have hidle := ofPolicy_perm policy hpool.idle
    have hsame := htraced policy
    rw [ofPolicy_append] at hidle ⊢
    rw [hbooks.supplier, hbooks.requests, hbooks.registry]
    omega
  · rw [hbooks.registry]
    exact hx.inBlobs
  · rw [hbooks.misses, hbooks.supplier, hbooks.requests]
    exact hx.misses
  · rw [hbooks.hits, hbooks.misses, hbooks.blobIds]
    exact hx.issued
  · rw [hbooks.blobIds, hbooks.registry, hbooks.disposals]
    exact hx.ended

theorem strike (hx : x.Balanced hand) (deeds : List Reclamation)
    (hy : (x.amid deeds).Tallied hand) : (x.amid deeds).Balanced hand := by
  obtain ⟨gone, hgone⟩ := Pool.GivesUp.sufferAll hx.tallied.pool deeds
  rw [← pool_amid x deeds] at hgone
  exact hx.lose hy hgone (.amid x deeds)

theorem catchUp (hx : x.Balanced .empty) (others : Interference)
    (hy : (x.catchUp others).Tallied .empty) : (x.catchUp others).Balanced .empty := by
  have hfetched : x.pool.fetch.2.Tallied := hx.tallied.pool.alike ⟨rfl, rfl⟩
  obtain ⟨gone, hgone⟩ := Pool.GivesUp.sufferAll hfetched (others.afterFetch x.pool.reports)
  rw [← pool_catchUp] at hgone
  -- fetching the reports has left the buffers alone
  have hlost : x.pool.GivesUp (x.catchUp others).pool gone :=
    ⟨hgone.idle, hgone.total⟩
  exact hx.lose hy hlost (.catchUp hx.tallied.inOrder.sync others)

theorem find {b : Buffer} {size : Nat} (hx : x.Balanced .empty)
    (found : (x.takeIdle size).1 = some b)
    (hy : { (x.takeIdle size).2 with counters := (x.takeIdle size).2.counters.hit }.Tallied
      (.given b)) :
    { (x.takeIdle size).2 with counters := (x.takeIdle size).2.counters.hit }.Balanced
      (.given b) := by
  change (x.shelf.fit size x.pool).map Hit.value = some b at found
  rcases Shelf.state_pick x.shelf size x.pool with ⟨hnone, -⟩ | ⟨hit, hsome, taken⟩
  · rw [hnone] at found
    cases found
  · rw [hsome] at found
    cases found
    have hperm := Pool.idle_take hx.tallied.inOrder.complete hx.tallied.pool.distinct taken
    obtain ⟨gone, hgone, htraced⟩ := hx.traced
    have htotal := congrArg Pool.reclaimedTotal (Pool.eq_of_take taken)
    refine ⟨hy, ⟨gone, hgone.trans htotal.symm, ?_⟩, hx.inBlobs, hx.misses, ?_, hx.ended⟩
    · intro policy
      have hidle : ofPolicy policy (x.pool.idle.map Prod.snd) = ofPolicy policy [hit.value] + _ :=
        (ofPolicy_perm policy (hperm.map Prod.snd)).trans ofPolicy_cons
      have hsame := htraced policy
      simp only [Hand.buffers, ofPolicy_nil, takeIdle] at hsame ⊢
      omega
    · have hissued := hx.issued
      change x.counters.hits + x.counters.misses + 1 = x.blobIds.upcoming + 0 at hissued
      show x.counters.hits + 1 + x.counters.misses + 1 = x.blobIds.upcoming + 1
      omega

theorem miss {size : Nat} (hx : x.Balanced .empty) (missed : (x.takeIdle size).1 = none)
    (hy : (x.takeIdle size).2.Tallied .empty) : (x.takeIdle size).2.Balanced .empty := by
  have hpool : (x.takeIdle size).2.pool = x.pool := by
    change (x.shelf.fit size x.pool).map Hit.value = none at missed
    rcases Shelf.state_pick x.shelf size x.pool with ⟨-, hstate⟩ | ⟨hit, hsome, -⟩
    · exact hstate
    · rw [hsome] at missed
      cases missed
  have hlost : x.pool.GivesUp (x.takeIdle size).2.pool [] := by
    rw [hpool]
    exact ⟨by simp, rfl⟩
  exact hx.lose hy hlost ⟨rfl, rfl, rfl, rfl, rfl, rfl, rfl⟩

theorem supply {b : Buffer} {size : Nat} (hx : x.Balanced .empty)
    (supplied : x.supplier.request x.requests size = .ok b)
    (hy : { x with
      requests := x.requests ++ [size]
      counters := x.counters.miss b.capacity }.Tallied (.given b)) :
    { x with requests := x.requests ++ [size], counters := x.counters.miss b.capacity }.Balanced
      (.given b) := by
  obtain ⟨gone, hgone, htraced⟩ := hx.traced
  have hgiven : x.supplier.given [] (x.requests ++ [size]) =
      x.supplier.given [] x.requests ++ [b] := by
    rw [Supplier.given_append, List.nil_append, supplied]
  refine ⟨hy, ⟨gone, hgone, ?_⟩, hx.inBlobs, ?_, ?_, hx.ended⟩
  · intro policy
    have hsame := htraced policy
    simp only [Hand.buffers, ofPolicy_nil] at hsame ⊢
    rw [hgiven, ofPolicy_append]
    omega
  · show x.counters.misses + 1 = (x.supplier.given [] (x.requests ++ [size])).length
    rw [hgiven, List.length_append, List.length_singleton, hx.misses]
  · have hissued := hx.issued
    change x.counters.hits + x.counters.misses + 1 = x.blobIds.upcoming + 0 at hissued
    show x.counters.hits + (x.counters.misses + 1) + 1 = x.blobIds.upcoming + 1
    omega

theorem refuse {halt : Halt BufferError} {size : Nat} (hx : x.Balanced .empty)
    (refused : x.supplier.request x.requests size = .error halt)
    (hy : { x with requests := x.requests ++ [size] }.Tallied .empty) :
    { x with requests := x.requests ++ [size] }.Balanced .empty := by
  have hgiven : x.supplier.given [] (x.requests ++ [size]) = x.supplier.given [] x.requests := by
    rw [Supplier.given_append, List.nil_append, refused, List.append_nil]
  refine ⟨hy, ?_, hx.inBlobs, ?_, hx.issued, hx.ended⟩
  · show ∃ gone : List Buffer, _ ∧ ∀ policy,
      ofPolicy policy (x.supplier.given [] (x.requests ++ [size])) = _
    rw [hgiven]
    exact hx.traced
  · show _ = (x.supplier.given [] (x.requests ++ [size])).length
    rw [hgiven]
    exact hx.misses

theorem issue {b : Buffer} (hx : x.Balanced (.given b))
    (unissued : x.Stands x.blobIds.nextId.1 .unissued)
    (hy : { x with
      blobIds := x.blobIds.nextId.2
      registry := x.registry.register x.blobIds.nextId.1 b.emptied }.Tallied .empty) :
    { x with
      blobIds := x.blobIds.nextId.2
      registry := x.registry.register x.blobIds.nextId.1 b.emptied }.Balanced .empty := by
  obtain ⟨hclaims, hcell, -⟩ := unissued
  obtain ⟨gone, hgone, htraced⟩ := hx.traced
  have hperm := Registry.buffers_register (b := b.emptied) hcell
  have hsize := Registry.size_register (b := b.emptied) hclaims
  have hinBlobs := hx.inBlobs
  have hissued := hx.issued
  have hended := hx.ended
  change x.counters.hits + x.counters.misses + 1 = x.blobIds.upcoming + 1 at hissued
  change x.blobIds.upcoming = x.registry.size + x.counters.disposals + 0 + 1 at hended
  refine ⟨hy, ⟨gone, hgone, ?_⟩, ?_, hx.misses, ?_, ?_⟩
  · intro policy
    have hsame := htraced policy
    have hbuffers := ofPolicy_perm policy hperm
    rw [ofPolicy_cons, ofPolicy_same (Buffer.policy_emptied b)] at hbuffers
    simp only [Hand.buffers, ofPolicy_nil] at hsame ⊢
    omega
  · show (x.registry.register x.blobIds.nextId.1 b.emptied).buffers.length =
      (x.registry.register x.blobIds.nextId.1 b.emptied).size
    rw [hperm.length_eq, hsize, List.length_cons, hinBlobs]
  · show x.counters.hits + x.counters.misses + 1 = x.blobIds.upcoming + 1 + 0
    omega
  · show x.blobIds.upcoming + 1 =
      (x.registry.register x.blobIds.nextId.1 b.emptied).size + x.counters.disposals + 0 + 1
    omega

theorem hold {id : BlobId} {claims : Claims} {content : Bytes} (hx : x.Balanced .empty)
    (left : Claims) (active : x.Stands id (.active claims content))
    (hy : { x with registry := x.registry.hold id left }.Tallied .empty) :
    { x with registry := x.registry.hold id left }.Balanced .empty := by
  obtain ⟨-, hclaims, -⟩ := active
  have hsize := Registry.size_hold hclaims left
  refine ⟨hy, hx.traced, ?_, hx.misses, hx.issued, ?_⟩
  · show x.registry.buffers.length = (x.registry.hold id left).size
    rw [hsize]
    exact hx.inBlobs
  · show _ = (x.registry.hold id left).size + _ + _ + 1
    rw [hsize]
    exact hx.ended

/-- A buffer that is written into stays in its blob and keeps its policy. -/
theorem write {id : BlobId} {b after : Buffer} (hx : x.Balanced .empty)
    (there : x.registry.cells.get? id = some ⟨some b, false⟩) (written : b.Written after)
    (hy : { x with registry := x.registry.store id after }.Tallied .empty) :
    { x with registry := x.registry.store id after }.Balanced .empty := by
  obtain ⟨gone, hgone, htraced⟩ := hx.traced
  -- before and after, the blob's buffer stands beside those of the same other blobs
  have hbefore := Registry.perm_buffers there
  have hafter := Registry.buffers_store x.registry id after
  refine ⟨hy, ⟨gone, hgone, ?_⟩, ?_, hx.misses, hx.issued, hx.ended⟩
  · intro policy
    have hsame := htraced policy
    have hold := ofPolicy_perm policy hbefore
    have hnew := ofPolicy_perm policy hafter
    rw [ofPolicy_cons] at hold hnew
    rw [ofPolicy_same (Buffer.Grows.written written).policy] at hnew
    simp only [Hand.buffers, ofPolicy_nil] at hsame ⊢
    omega
  · show (x.registry.store id after).buffers.length = x.registry.size
    have hlength := hbefore.length_eq
    rw [hx.inBlobs] at hlength
    rw [hafter.length_eq, hlength]
    rfl

/-- The buffer of a blob that ended leaves the registry and is in hand. -/
theorem withdraw {id : BlobId} {claims : Claims} {content : Bytes} {b : Buffer}
    (hx : x.Balanced .empty) (active : x.Stands id (.active claims content))
    (there : x.registry.cells.get? id = some ⟨some b, false⟩)
    (hy : { x with registry := x.registry.close id }.Tallied (.ended id b)) :
    { x with registry := x.registry.close id }.Balanced (.ended id b) := by
  obtain ⟨-, hclaims, -⟩ := active
  obtain ⟨gone, hgone, htraced⟩ := hx.traced
  have hperm := Registry.buffers_close there
  have hsize := Registry.size_close hclaims
  have hinBlobs := hx.inBlobs
  have hended := hx.ended
  change x.blobIds.upcoming = x.registry.size + x.counters.disposals + 0 + 1 at hended
  refine ⟨hy, ⟨gone, hgone, ?_⟩, ?_, hx.misses, hx.issued, ?_⟩
  · intro policy
    have hsame := htraced policy
    have hbuffers := ofPolicy_perm policy hperm
    rw [ofPolicy_cons] at hbuffers
    simp only [Hand.buffers, ofPolicy_nil] at hsame ⊢
    omega
  · have hlength := hperm.length_eq
    rw [List.length_cons] at hlength
    show (x.registry.close id).buffers.length = (x.registry.close id).size
    omega
  · show x.blobIds.upcoming = (x.registry.close id).size + x.counters.disposals + 1 + 1
    omega

theorem park {id : BlobId} {b : Buffer} (hx : x.Balanced (.ended id b))
    (hy : { x with pool := (x.pool.park b).2 }.Tallied (.parked id b (x.pool.park b).1)) :
    { x with pool := (x.pool.park b).2 }.Balanced (.parked id b (x.pool.park b).1) := by
  have hidle := Pool.idle_park hx.tallied.inOrder.pool_sound b
  obtain ⟨gone, hgone, htraced⟩ := hx.traced
  have htotal := Pool.reclaimedTotal_park x.pool b
  refine ⟨hy, ⟨gone, hgone.trans htotal.symm, ?_⟩, hx.inBlobs, hx.misses, hx.issued, hx.ended⟩
  intro policy
  have hsame := htraced policy
  have hparked : ofPolicy policy ((x.pool.park b).2.idle.map Prod.snd) =
      ofPolicy policy (x.pool.idle.map Prod.snd) + ofPolicy policy [b] := by
    rw [hidle, List.map_append, ofPolicy_append]
    rfl
  simp only [Hand.buffers, ofPolicy_nil] at hsame ⊢
  omega

theorem act {a b : Exchange × Hand} (ha : a.1.Balanced a.2) (h : Act True a b) :
    b.1.Balanced b.2 := by
  -- every act keeps the tally of the pool, so only the books are left to show
  have hb : b.1.Tallied b.2 := ha.tallied.act h
  cases h with
  | note e unread quiet =>
    exact ⟨hb, ha.traced, ha.inBlobs, ha.misses, ha.issued, ha.ended⟩
  | strike deeds => exact ha.strike deeds hb
  | @reclaim x keep =>
    obtain ⟨gone, hgone⟩ := Pool.GivesUp.sufferAll ha.tallied.pool [.downTo keep]
    exact ha.lose hb hgone ⟨rfl, rfl, rfl, rfl, rfl, rfl, rfl⟩
  | catchUp others => exact ha.catchUp others hb
  | find size found => exact ha.find found hb
  | miss size missed => exact ha.miss missed hb
  | supply size supplied => exact ha.supply supplied hb
  | refuse size refused => exact ha.refuse refused hb
  | issue room unissued => exact ha.issue unissued hb
  | lose spent allowed => exact absurd trivial allowed
  | hold left active held => exact ha.hold left active hb
  | write active there written => exact ha.write there written hb
  | withdraw active there => exact ha.withdraw active there hb
  | park => exact ha.park hb
  | @shelve x id b h =>
    -- the disposal that was due is counted
    have hended := ha.ended
    change x.blobIds.upcoming = x.registry.size + x.counters.disposals + 1 + 1 at hended
    refine ⟨hb, ha.traced, ha.inBlobs, ha.misses, ha.issued, ?_⟩
    show x.blobIds.upcoming = x.registry.size + (x.counters.disposals + 1) + 0 + 1
    omega

end Balanced

/-- Every buffer that was supplied is in one place. Of each policy as many were supplied as are in
blobs, in the pool and reclaimed. The registered blobs have one buffer each and the others none. The
pool lists each idle buffer once, under the handle that claims it. -/
structure KeepsBuffers (x : Exchange) : Prop where
  supplied : (x.supplier.given [] x.requests).length = x.counters.misses
  traced : ∃ reclaimed : List Buffer, reclaimed.length = x.pool.reclaimedTotal ∧
    ∀ policy, ofPolicy policy (x.supplier.given [] x.requests) =
      ofPolicy policy x.registry.buffers + ofPolicy policy (x.pool.idle.map Prod.snd) +
        ofPolicy policy reclaimed
  activeBlobs : x.registry.buffers.length = x.activeBlobs
  inBlobs : ∀ id, (x.registry.claims.get? id).isSome = true ↔
    ∃ b disposed, x.registry.cells.get? id = some ⟨some b, disposed⟩
  idleBuffers : x.pool.idle.length = x.pool.idleBuffers
  inPool : ∀ h b, (h, b) ∈ x.pool.idle ↔ x.pool.claimed? h = some b
  handles : (x.pool.idle.map Prod.fst).Nodup

theorem Balanced.supplied_eq {x : Exchange} (hx : x.Balanced .empty) :
    x.counters.misses = x.registry.size + x.pool.idleBuffers + x.pool.reclaimedTotal := by
  obtain ⟨gone, hgone, htraced⟩ := hx.traced
  have hlength : (x.supplier.given [] x.requests).length =
      (x.registry.buffers ++ x.pool.idle.map Prod.snd ++ gone).length := by
    apply length_eq_of_ofPolicy
    intro policy
    rw [ofPolicy_append, ofPolicy_append]
    exact htraced policy
  rw [List.length_append, List.length_append, List.length_map, ← hx.misses, hx.inBlobs,
    ← hx.tallied.idleBuffers, hgone] at hlength
  exact hlength

end Exchange

namespace Session

variable {s : Session}

/-- A registered blob has its buffer, and a blob that is not registered has none. -/
theorem Consistent.registered_iff (hs : s.Consistent) (id : BlobId) :
    (s.exchange.registry.claims.get? id).isSome = true ↔
      ∃ b disposed, s.exchange.registry.cells.get? id = some ⟨some b, disposed⟩ := by
  have hstands := hs.stands id
  generalize standing s.writers s.readers id = st at hstands
  cases st with
  | unissued =>
    obtain ⟨hclaims, hcells, -⟩ := hstands
    simp [hclaims, hcells]
  | active claims content =>
    obtain ⟨-, hclaims, ⟨b, hcells, -⟩, -⟩ := hstands
    simp [hclaims, hcells]
  | disposed =>
    obtain ⟨hclaims, hcells, -⟩ := hstands
    simp [hclaims, hcells]

/-- No blob is asked for once the counter of identifiers has run out. -/
def withinIds (s : Session) : List Move → Bool
  | [] => true
  | m :: rest =>
    !(constructs m.command && s.exchange.blobIds.isSpent) && (s.move m).withinIds rest

theorem balanced_run (hs : s.Consistent) (hx : s.exchange.Balanced .empty) (moves : List Move)
    (within : s.withinIds moves = true) : (s.run moves).exchange.Balanced .empty := by
  induction moves generalizing s with
  | nil => exact hx
  | cons m rest ih =>
    simp only [withinIds, Bool.and_eq_true, Bool.not_eq_true', Bool.and_eq_false_iff] at within
    obtain ⟨hroom, hrest⟩ := within
    have hacts : Acts True s.exchange (s.move m).exchange := by
      apply acts_step hs m.others m.command
      intro _ hconstructs
      rcases hroom with hother | hroom
      · rw [hconstructs] at hother
        cases hother
      · exact hroom
    have hnext := hacts.keep (P := fun a => a.1.Balanced a.2) (fun _ _ ha h => ha.act h) hx
    exact ih (consistent_step hs m.others m.command) hnext hrest

/-- Buffers and books are in balance in every session within the identifiers, whatever clients asked
and others did: with failed constructions and scripts, dropped handles, and late reports. -/
theorem buffers_are_conserved (settings : Settings) (supplier : Supplier) (moves : List Move)
    (within : (start settings supplier).withinIds moves = true) :
    let s := (start settings supplier).run moves
    let shown := s.exchange.statistics
    s.exchange.KeepsBuffers ∧
      shown.cacheMisses =
        shown.activeBlobs + s.exchange.pool.idleBuffers + shown.reclaimedBuffers ∧
      shown.cacheHits + shown.cacheMisses = s.writers.length ∧
      s.writers.length = shown.activeBlobs + shown.disposedBlobs := by
  intro s shown
  have hs : s.Consistent := consistent_run settings supplier moves
  have hx : s.exchange.Balanced .empty :=
    balanced_run (Consistent.start settings supplier) (.assemble settings supplier) moves within
  have hupcoming := hs.upcoming
  have hissued := hx.issued
  have hended := hx.ended
  have hpool : s.exchange.pool.Tallied := hx.tallied.pool
  refine ⟨⟨hx.misses.symm, ?_, hx.inBlobs, hs.registered_iff, hpool.idleBuffers.symm,
    fun _ _ => hpool.complete.mem_idle, hpool.distinct⟩, hx.supplied_eq, ?_, ?_⟩
  · obtain ⟨gone, hgone, htraced⟩ := hx.traced
    refine ⟨gone, hgone, fun policy => ?_⟩
    have hsame := htraced policy
    simp only [Hand.buffers, ofPolicy_nil] at hsame
    omega
  · show s.exchange.counters.hits + s.exchange.counters.misses = s.writers.length
    simp only [Hand.pending] at hissued
    omega
  · show s.writers.length = s.exchange.registry.size + s.exchange.counters.disposals
    simp only [Hand.closing] at hended
    omega

/-- A blob ends, its buffer is reclaimed, and a script that fails leaves its buffer idle. -/
def oneReclaimed : List Move :=
  [⟨.construct 8, .absent⟩, ⟨.construct 4, .absent⟩, ⟨.finishWriter 0, .absent⟩,
    ⟨.meanwhile [.silently ⟨0, 0⟩], .absent⟩,
    ⟨.write 6 [.fail (.bare .other)], .absent⟩]

theorem books_of_one_reclaimed :
    let s := (start Settings.standard (.exact .standard)).run oneReclaimed
    (start Settings.standard (.exact .standard)).withinIds oneReclaimed = true ∧
      s.exchange.KeepsBuffers ∧
      s.exchange.counters.misses = 3 ∧ s.exchange.activeBlobs = 1 ∧
      s.exchange.pool.idleBuffers = 1 ∧ s.exchange.pool.reclaimedTotal = 1 :=
  ⟨by decide, (buffers_are_conserved Settings.standard (.exact .standard) oneReclaimed
    (by decide)).1, by decide, by decide, by decide, by decide⟩

end Session

end BlobExchange
