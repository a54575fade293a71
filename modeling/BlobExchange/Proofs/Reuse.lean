import BlobExchange.Proofs.BufferChoice
import BlobExchange.Proofs.Conservation
import BlobExchange.Proofs.TwinBuffers
/-! # Reuse makes no difference

Only capacity tells a reused buffer from a new one, and the windows in which sources are read. -/

namespace BlobExchange

/-! ## Within the policy -/

/-- A buffer of a policy whose capacity is permitted by it and can be allocated. -/
structure Buffer.Within (b : Buffer) (p : GrowthPolicy) : Prop where
  policy : b.policy = p
  limit : b.capacity ≤ p.limit
  allocatable : b.capacity ≤ Size.allocatable

namespace Buffer.Within

variable {b after : Buffer} {policy : GrowthPolicy}

theorem emptied (hb : b.Within policy) : b.emptied.Within policy :=
  ⟨hb.policy, hb.limit, hb.allocatable⟩

/-- A buffer grows within its policy. -/
theorem grows (hb : b.Within policy) (h : b.Grows after) : after.Within policy := by
  refine ⟨h.policy.trans hb.policy, ?_, ?_⟩
  · rcases h.capacity with hsame | ⟨hlimit, -⟩
    · rw [hsame]
      exact hb.limit
    · rw [hb.policy] at hlimit
      exact hlimit
  · rcases h.capacity with hsame | ⟨-, hallocatable⟩
    · rw [hsame]
      exact hb.allocatable
    · exact hallocatable

end Buffer.Within

/-- What the exact supply of a policy gives. -/
theorem GrowthPolicy.newBuffer_cases (policy : GrowthPolicy) (size : Nat) :
    policy.limit < size ∧
        policy.newBuffer size = .error (.failed (.capacityExceeded size policy.limit)) ∨
      size ≤ policy.limit ∧ Size.allocatable < size ∧ policy.newBuffer size = .error .overflow ∨
      size ≤ policy.limit ∧ size ≤ Size.allocatable ∧
        policy.newBuffer size = .ok ⟨[], size, policy⟩ := by
  unfold newBuffer Buffer.create
  by_cases hlimit : policy.limit < size
  · rw [if_pos hlimit]
    exact Or.inl ⟨hlimit, rfl⟩
  · rw [if_neg hlimit]
    by_cases hsize : size ≤ Size.allocatable
    · rw [if_pos hsize]
      exact Or.inr (Or.inr ⟨Nat.not_lt.1 hlimit, hsize, rfl⟩)
    · rw [if_neg hsize]
      exact Or.inr (Or.inl ⟨Nat.not_lt.1 hlimit, Nat.not_le.1 hsize, rfl⟩)

/-- What a construction answers: it depends on the size, on the policy, and on whether there is an
identifier left. -/
def GrowthPolicy.verdict (p : GrowthPolicy) (size : Nat) (ids : Sequence) :
    Except (Halt BlobError) BlobId :=
  if p.limit < size then .error (.failed (.buffer (.capacityExceeded size p.limit)))
  else if Size.allocatable < size ∨ ids.isSpent = true then .error .overflow
  else .ok ids.nextId.1

namespace Exchange

/-- Every buffer in a blob and every idle one is within a policy. -/
structure WithinPolicy (x : Exchange) (policy : GrowthPolicy) : Prop where
  inBlobs : ∀ id b disposed, x.registry.cells.get? id = some ⟨some b, disposed⟩ → b.Within policy
  inPool : ∀ h b, x.pool.claimed? h = some b → b.Within policy

/-- Buffers are supplied exactly, and they are all within the policy, with the one in hand. -/
structure Bounded (policy : GrowthPolicy) (x : Exchange) (hand : Hand) : Prop where
  supplier : x.supplier = .exact policy
  inOrder : x.InOrder hand
  within : x.WithinPolicy policy
  inHand : ∀ b ∈ hand.buffers, b.Within policy

namespace Bounded

variable {policy : GrowthPolicy} {x y : Exchange} {hand hand' : Hand} {b : Buffer}

theorem assemble (settings : Settings) :
    Bounded settings.growth (Exchange.assemble settings (.exact settings.growth)) .empty where
  supplier := rfl
  inOrder := .assemble settings _
  within := by
    refine ⟨fun id b disposed h => ?_, fun h b hb => ?_⟩
    · cases h
    · change Pool.empty.claimed? h = some b at hb
      simp [Pool.claimed?, Pool.empty] at hb
  inHand := fun b hb => absurd hb List.not_mem_nil

theorem lose (hx : x.Bounded policy hand) (supplier : y.supplier = x.supplier)
    (hy : y.InOrder hand') (registry : y.registry = x.registry) {lost : List Handle}
    (pool : x.pool.Loses y.pool lost) (inHand : ∀ b ∈ hand'.buffers, b.Within policy) :
    y.Bounded policy hand' := by
  refine ⟨supplier.trans hx.supplier, hy, ⟨?_, ?_⟩, inHand⟩
  · rw [registry]
    exact hx.within.inBlobs
  · intro h b hb
    rw [pool.claimed] at hb
    split at hb
    · cases hb
    · exact hx.within.inPool h b hb

theorem enter (hx : x.Bounded policy hand) (supplier : y.supplier = x.supplier)
    (hy : y.InOrder .empty) (pool : y.pool = x.pool) {id : BlobId} {after : Buffer}
    (hafter : after.Within policy)
    (cells : y.registry.cells = x.registry.cells.insert id ⟨some after, false⟩) :
    y.Bounded policy .empty := by
  refine ⟨supplier.trans hx.supplier, hy, ⟨?_, ?_⟩, fun b hb => absurd hb List.not_mem_nil⟩
  · intro j b disposed hj
    rw [cells, Table.get?_insert] at hj
    split at hj
    · cases hj
      exact hafter
    · exact hx.within.inBlobs j b disposed hj
  · rw [pool]
    exact hx.within.inPool

/-- The buffer that a search finds was in the pool. -/
theorem found (hx : x.Bounded policy hand) {size : Nat} (hfound : (x.takeIdle size).1 = some b) :
    b.Within policy := by
  change (x.shelf.fit size x.pool).map Hit.value = some b at hfound
  rcases Shelf.state_pick x.shelf size x.pool with ⟨hnone, -⟩ | ⟨hit, hsome, taken⟩
  · rw [hnone] at hfound
    cases hfound
  · rw [hsome] at hfound
    cases hfound
    exact hx.within.inPool _ _ (Pool.claimed?_of_take taken)

theorem act {orderly : Prop} {a b : Exchange × Hand} (ha : Bounded policy a.1 a.2)
    (h : Act orderly a b) : Bounded policy b.1 b.2 := by
  have hb : b.1.InOrder b.2 := ha.inOrder.act h
  have hsupplier := h.supplier
  have hempty : ∀ b ∈ Hand.empty.buffers, b.Within policy := fun b hb => absurd hb List.not_mem_nil
  cases h with
  | note e unread quiet => exact ha.lose hsupplier hb rfl (.refl _) hempty
  | @strike x hand deeds =>
    have hlost : x.pool.Loses (x.amid deeds).pool (x.pool.losses deeds) := by
      rw [pool_amid]
      exact .sufferAll x.pool deeds
    exact ha.lose hsupplier hb (registry_amid x deeds) hlost ha.inHand
  | @reclaim x keep =>
    exact ha.lose hsupplier hb rfl (.sufferAll x.pool [.downTo keep]) hempty
  | @catchUp x others =>
    exact ha.lose hsupplier hb (Backstage.catchUp x others).registry (loses_catchUp x others) hempty
  | @find x b size found =>
    refine ha.lose hsupplier hb rfl (loses_takeIdle x size) fun c hc => ?_
    rw [List.mem_singleton.1 hc]
    exact ha.found found
  | @miss x size missed => exact ha.lose hsupplier hb rfl (loses_takeIdle x size) hempty
  | @supply x b size supplied =>
    refine ha.lose hsupplier hb rfl (.refl _) fun c hc => ?_
    rw [List.mem_singleton.1 hc]
    -- an exact supply keeps within the policy, or there is none
    have hsame := ha.supplier
    change x.supplier = .exact policy at hsame
    rw [hsame] at supplied
    change policy.newBuffer size = .ok b at supplied
    rcases policy.newBuffer_cases size with ⟨-, hnew⟩ | ⟨-, -, hnew⟩ | ⟨hlimit, hsize, hnew⟩ <;>
      rw [hnew] at supplied <;> cases supplied
    exact ⟨rfl, hlimit, hsize⟩
  | refuse size refused => exact ha.lose hsupplier hb rfl (.refl _) hempty
  | issue room unissued =>
    exact ha.enter hsupplier hb rfl (ha.inHand _ (List.mem_singleton.2 rfl)).emptied rfl
  | lose spent allowed => exact ha.lose hsupplier hb rfl (.refl _) hempty
  | hold left active held =>
    exact ⟨hsupplier.trans ha.supplier, hb, ⟨ha.within.inBlobs, ha.within.inPool⟩, hempty⟩
  | write active there written =>
    have hafter := (ha.within.inBlobs _ _ _ there).grows (.written written)
    exact ha.enter hsupplier hb rfl hafter rfl
  | @withdraw x id claims content b active there =>
    have hended := ha.within.inBlobs _ _ _ there
    refine ⟨hsupplier.trans ha.supplier, hb, ⟨?_, ha.within.inPool⟩, fun c hc => ?_⟩
    · intro j c disposed hj
      change (x.registry.cells.insert id ⟨none, true⟩).get? j = _ at hj
      rw [Table.get?_insert] at hj
      split at hj
      · cases hj
      · exact ha.within.inBlobs j c disposed hj
    · rw [List.mem_singleton.1 hc]
      exact hended
  | @park x id b =>
    have hparked := ha.inHand b (List.mem_singleton.2 rfl)
    refine ⟨hsupplier.trans ha.supplier, hb, ⟨ha.within.inBlobs, ?_⟩,
      fun b hb => absurd hb List.not_mem_nil⟩
    intro j c hj
    change (x.pool.park b).2.claimed? j = some c at hj
    rw [ha.inOrder.pool_sound.claimed?_park] at hj
    split at hj
    · cases hj
      exact hparked
    · exact ha.within.inPool j c hj
  | shelve =>
    exact ⟨hsupplier.trans ha.supplier, hb, ⟨ha.within.inBlobs, ha.within.inPool⟩, hempty⟩

end Bounded

/-! ## Constructions -/

theorem issue_answer (x : Exchange) (size : Nat) (b : Buffer) (reused : Bool) :
    (x.issue size b reused).1 =
      if x.blobIds.isSpent = true then .error .overflow else .ok x.blobIds.nextId.1 := by
  unfold issue
  split <;> rfl

/-- Which buffers are idle makes no difference to whether a blob can be constructed. -/
theorem Bounded.construct_answer {policy : GrowthPolicy} {x : Exchange}
    (hx : x.Bounded policy .empty) (size : Nat) (others : Interference) :
    (x.construct size others).1 = policy.verdict size x.blobIds := by
  cases hbest : bestFit size (x.idleAmid others) with
  | some e =>
    obtain ⟨h, b⟩ := e
    obtain ⟨y, hy, -, hissue⟩ := hx.inOrder.construct_of_some hbest
    obtain ⟨_, hbackstage⟩ := hy.backstage
    -- an idle buffer that is large enough is within the limit, so the size is
    obtain ⟨hidle, hlarge⟩ := bestFit_mem hbest
    have hwithin := hx.within.inPool h b (Pool.claimed?_of_idle (List.mem_of_mem_filter hidle))
    have hlimit : ¬ policy.limit < size := Nat.not_lt.2 (Nat.le_trans hlarge hwithin.limit)
    have hsize : ¬ Size.allocatable < size := Nat.not_lt.2 (Nat.le_trans hlarge hwithin.allocatable)
    rw [hissue, issue_answer]
    simp only [hbackstage.blobIds, GrowthPolicy.verdict, hlimit, hsize, if_false, false_or]
  | none =>
    obtain ⟨y, hy, -, hasked⟩ := hx.inOrder.construct_of_none hbest
    obtain ⟨_, hbackstage⟩ := hy.backstage
    have hrequest : x.supplier.request x.requests size = policy.newBuffer size := by
      rw [hx.supplier]
      rfl
    rw [hasked, hrequest]
    rcases policy.newBuffer_cases size with ⟨hlimit, hnew⟩ | ⟨hlimit, hsize, hnew⟩ |
      ⟨hlimit, hsize, hnew⟩
    · simp only [hnew, GrowthPolicy.verdict, hlimit, if_true]
      rfl
    · simp only [hnew, GrowthPolicy.verdict, Nat.not_lt.2 hlimit, hsize, if_false, true_or, if_true]
      rfl
    · simp only [hnew, issue_answer, hbackstage.blobIds, GrowthPolicy.verdict, Nat.not_lt.2 hlimit,
        Nat.not_lt.2 hsize, if_false, false_or]

end Exchange

/-! ## Asking a writer -/

/-- What an open writer answers to a command, and what becomes of its blob's buffer. -/
def Buffer.obey (b : Buffer) (id : BlobId) : WriteCommand → WriteReply × Buffer
  | .fill source budget =>
    let filled := b.fill source budget
    (.filled filled.source (blobOutcome filled.outcome), filled.buffer)
  | .run script =>
    let ran := b.run script
    (.ran ran.notes (blobOutcome ran.outcome), ran.buffer)
  | .held => (.count (.ok b.length), b)
  | .capacity => (.count (.ok b.capacity), b)
  | .fits additional => (.verdict (.ok (b.fits additional)), b)
  | .announce message => (.announced (message ++ id.encode) (.ok ()), b)

/-- Whether a command fills a blob, has a script write it, or asks for its length or what fits. -/
def WriteCommand.isPlain : WriteCommand → Bool
  | fill _ _ => true
  | run _ => true
  | held => true
  | fits _ => true
  | capacity => false
  | announce _ => false

/-- Whether an answer is an overflow: the buffer was to grow more than can be allocated. -/
def WriteReply.overflowed : WriteReply → Bool
  | filled _ (.error .overflow) => true
  | ran _ (.error .overflow) => true
  | _ => false

/-- An answer without the windows that the source was asked for. -/
def WriteReply.windowless : WriteReply → WriteReply
  | filled source outcome => filled source.unasked outcome
  | reply => reply

theorem blobOutcome_overflow {α : Type} {r : Except (Halt BufferError) α} :
    blobOutcome r = .error .overflow ↔ r = .error .overflow := by
  match r with
  | .ok _ => simp [blobOutcome]
  | .error .overflow => simp [blobOutcome, Halt.map]
  | .error (.failed _) => simp [blobOutcome, Halt.map]

/-- Twins obey alike, whichever blobs they belong to. -/
theorem Buffer.obey_twin {b c : Buffer} (hbc : b.Twin c) (id id' : BlobId) {command : WriteCommand}
    (plain : command.isPlain = true) (hb : (b.obey id command).1.overflowed = false)
    (hc : (c.obey id' command).1.overflowed = false) :
    (b.obey id command).1.windowless = (c.obey id' command).1.windowless ∧
      (b.obey id command).2.Twin (c.obey id' command).2 := by
  cases command with
  | fill source budget =>
    have hcalm : ∀ d : Buffer, (d.obey id (.fill source budget)).1.overflowed = false →
        (d.fill source budget).outcome ≠ .error .overflow := by
      intro d hd hover
      simp only [obey, blobOutcome_overflow.2 hover] at hd
      cases hd
    obtain ⟨hbuffer, houtcome, hsource⟩ := fill_twin hbc source budget (hcalm b hb) (hcalm c hc)
    refine ⟨?_, hbuffer⟩
    simp only [obey, WriteReply.windowless, houtcome, hsource]
  | run script =>
    have hcalm : ∀ d : Buffer, (d.obey id (.run script)).1.overflowed = false →
        (d.run script).outcome ≠ .error .overflow := by
      intro d hd hover
      simp only [obey, blobOutcome_overflow.2 hover] at hd
      cases hd
    obtain ⟨hbuffer, hnotes, houtcome⟩ := run_twin hbc script (hcalm b hb) (hcalm c hc)
    refine ⟨?_, hbuffer⟩
    simp only [obey, hnotes, houtcome]
  | held => exact ⟨congrArg (fun n => WriteReply.count (.ok n)) hbc.length, hbc⟩
  | fits additional =>
    exact ⟨congrArg (fun v => WriteReply.verdict (.ok v)) (hbc.fits additional), hbc⟩
  | capacity => cases plain
  | announce message => cases plain

/-- An open producer answers for the buffer of its blob. -/
theorem Producer.perform_of_cell {x : Exchange} {id : BlobId} {b : Buffer}
    (hcell : x.registry.cells.get? id = some ⟨some b, false⟩) (command : WriteCommand) :
    (perform ⟨id, false⟩ x command).1 = (b.obey id command).1 ∧
      (perform ⟨id, false⟩ x command).2.registry.claims = x.registry.claims ∧
      (perform ⟨id, false⟩ x command).2.registry.cells.get? id =
        some ⟨some (b.obey id command).2, false⟩ := by
  have haccess := access_of_cell hcell
  have hset : ∀ after : Buffer, (x.setBuffer id after).registry = x.registry.store id after := by
    intro after
    simp only [Exchange.setBuffer, Registry.setBuffer, hcell]
    rfl
  have hstored : ∀ after : Buffer, (x.registry.store id after).claims = x.registry.claims ∧
      (x.registry.store id after).cells.get? id = some ⟨some after, false⟩ :=
    fun _ => ⟨rfl, Table.get?_insert_self _ _ _⟩
  cases command with
  | fill source budget =>
    simp only [perform, fill, haccess, hset]
    exact ⟨rfl, hstored _⟩
  | run script =>
    simp only [perform, run, haccess, hset]
    exact ⟨rfl, hstored _⟩
  | held =>
    have hlength := congrArg (Except.map Buffer.length) (haccess .held)
    exact ⟨congrArg WriteReply.count hlength, rfl, hcell⟩
  | capacity =>
    have hcapacity := congrArg (Except.map Buffer.capacity) (haccess .capacity)
    exact ⟨congrArg WriteReply.count hcapacity, rfl, hcell⟩
  | fits additional =>
    have hfits := congrArg (Except.map fun b => b.fits additional) (haccess .accept)
    exact ⟨congrArg WriteReply.verdict hfits, rfl, hcell⟩
  | announce message =>
    have hgranted : Producer.announce ⟨id, false⟩ x message = .ok (message ++ id.encode) := by
      simp [announce, Registry.isDisposed, hcell]
    have hperformed : perform ⟨id, false⟩ x (.announce message) =
        (.announced (message ++ id.encode) (.ok ()), x) := by
      simp only [perform, hgranted]
    rw [hperformed]
    exact ⟨rfl, rfl, hcell⟩

/-! ## One request after the other -/

/-- Whether an answer is an overflow. -/
def Reply.overflowed : Reply → Bool
  | .constructed (.error .overflow) => true
  | .written _ (.error .overflow) => true
  | .ofWriter reply => reply.overflowed
  | _ => false

/-- An answer without the windows that a source was asked for. -/
def Reply.windowless : Reply → Reply
  | .ofWriter reply => .ofWriter reply.windowless
  | reply => reply

namespace Session

variable {s t : Session} {place place' : Nat} {id id' : BlobId} {b c : Buffer}

/-- The client that holds the writer at a place can write a blob, whose buffer is this. -/
structure Writes (s : Session) (place : Nat) (id : BlobId) (b : Buffer) : Prop where
  writer : ∃ log, s.writers[place]? = some ⟨⟨id, false⟩, true, log⟩
  buffer : s.bufferOf id = some b

/-- A writer answers for the buffer of its blob. -/
theorem Writes.toWriter (hs : s.Writes place id b) (command : WriteCommand) :
    (s.toWriter place command).1 = .ofWriter (b.obey id command).1 ∧
      (s.toWriter place command).2.Writes place id (b.obey id command).2 := by
  obtain ⟨log, hw⟩ := hs.writer
  obtain ⟨⟨claims, hclaims⟩, hcell⟩ := bufferOf_eq_some.1 hs.buffer
  obtain ⟨hreply, hkept, hafter⟩ := Producer.perform_of_cell hcell command
  have hwriter : s.writer? place = some ⟨⟨id, false⟩, true, log⟩ := by
    simp only [writer?, hw, if_true]
  have hlt : place < s.writers.length := (List.getElem?_eq_some_iff.1 hw).1
  simp only [Session.toWriter, hwriter]
  refine ⟨congrArg Reply.ofWriter hreply, ⟨?_, ?_⟩⟩
  · exact ⟨_, List.getElem?_set_self hlt⟩
  · refine bufferOf_eq_some.2 ⟨⟨claims, ?_⟩, hafter⟩
    show (Producer.perform ⟨id, false⟩ s.exchange command).2.registry.claims.get? id = _
    rw [hkept, hclaims]

/-- The answers to one request after the other. -/
def replies (s : Session) : List Move → List Reply
  | [] => []
  | m :: rest => (s.step m.others m.command).1 :: (s.move m).replies rest

/-- A client gives the writer at a place one command after the other. -/
def dictation (place : Nat) (commands : List WriteCommand) : List Move :=
  commands.map fun command => ⟨.toWriter place command, .absent⟩

/-- Two writers give the same answers to one command after the other, as long as none overflows,
and then their blobs have the same content. -/
def WriteAlike (s : Session) (place : Nat) (id : BlobId) (t : Session) (place' : Nat)
    (id' : BlobId) : Prop :=
  ∀ commands : List WriteCommand, (∀ command ∈ commands, command.isPlain = true) →
    (∀ reply ∈ s.replies (dictation place commands), reply.overflowed = false) →
    (∀ reply ∈ t.replies (dictation place' commands), reply.overflowed = false) →
    (s.replies (dictation place commands)).map Reply.windowless =
        (t.replies (dictation place' commands)).map Reply.windowless ∧
      ∃ b c, (s.run (dictation place commands)).bufferOf id = some b ∧
        (t.run (dictation place' commands)).bufferOf id' = some c ∧ b.content = c.content

theorem writeAlike_of_twin (hs : s.Writes place id b) (ht : t.Writes place' id' c)
    (hbc : b.Twin c) : s.WriteAlike place id t place' id' := by
  intro commands
  -- that the buffers are twins is kept by each command, and carries the induction
  induction commands generalizing s t b c with
  | nil =>
    intro _ _ _
    exact ⟨rfl, b, c, hs.buffer, ht.buffer, hbc.content⟩
  | cons command rest ih =>
    intro plain hleft hright
    obtain ⟨hreply, hnext⟩ := hs.toWriter command
    obtain ⟨hreply', hnext'⟩ := ht.toWriter command
    obtain ⟨hfirst, hothers⟩ := List.forall_mem_cons.1 hleft
    obtain ⟨hfirst', hothers'⟩ := List.forall_mem_cons.1 hright
    obtain ⟨hplain, hplains⟩ := List.forall_mem_cons.1 plain
    change (s.toWriter place command).1.overflowed = false at hfirst
    change (t.toWriter place' command).1.overflowed = false at hfirst'
    rw [hreply] at hfirst
    rw [hreply'] at hfirst'
    obtain ⟨hsame, htwin⟩ := Buffer.obey_twin hbc id id' hplain hfirst hfirst'
    obtain ⟨hreplies, hcontent⟩ := ih hnext hnext' htwin hplains hothers hothers'
    refine ⟨?_, hcontent⟩
    show (s.toWriter place command).1.windowless :: _ =
      (t.toWriter place' command).1.windowless :: _
    rw [hreply, hreply']
    exact congrArg₂ List.cons (congrArg Reply.ofWriter hsame) hreplies

theorem bounded_run (settings : Settings) (moves : List Move) :
    ((start settings (.exact settings.growth)).run moves).exchange.Bounded settings.growth .empty :=
  run_acts (P := fun a => a.1.Bounded settings.growth a.2) (.assemble settings)
    (fun _ _ ha h => ha.act h) moves

/-- A blob that was just constructed can be written by its client, and its buffer is empty. -/
theorem writes_construct (hs : s.Consistent) {size : Nat} {others : Interference}
    (hreply : (s.construct size others).1 = .constructed (.ok id)) :
    ∃ b, (s.construct size others).2.Writes s.writers.length id b ∧ b.content = [] := by
  unfold construct at hreply ⊢
  cases hx : Producer.construct s.exchange size others with
  | mk outcome x =>
    rw [hx] at hreply
    cases outcome with
    | error halt => cases hreply
    | ok p =>
      cases hreply
      obtain ⟨hp, hstands, -⟩ := hs.construct_ok hx
      obtain ⟨b, hb, hcontent⟩ :=
        bufferOf_of_stands (s := ⟨x, s.writers ++ [⟨p, true, []⟩], s.readers⟩) hstands
      refine ⟨b, ⟨⟨[], ?_⟩, hb⟩, hcontent⟩
      rw [hp]
      exact List.getElem?_concat_length

/-- In any two sessions of the same settings, with exact supplies, reuse makes no difference. -/
theorem reuse_is_transparent (settings : Settings) (moves moves' : List Move) (size : Nat)
    (others others' : Interference) :
    let s := (start settings (.exact settings.growth)).run moves
    let t := (start settings (.exact settings.growth)).run moves'
    let built := s.step others (.construct size)
    let built' := t.step others' (.construct size)
    s.exchange.WithinPolicy settings.growth ∧
      built.1 = .constructed (settings.growth.verdict size s.exchange.blobIds) ∧
      built'.1 = .constructed (settings.growth.verdict size t.exchange.blobIds) ∧
      ∀ id id', built.1 = .constructed (.ok id) → built'.1 = .constructed (.ok id') →
        built.2.WriteAlike s.writers.length id built'.2 t.writers.length id' := by
  intro s t built built'
  have hs : s.exchange.Bounded settings.growth .empty := bounded_run settings moves
  have ht : t.exchange.Bounded settings.growth .empty := bounded_run settings moves'
  -- the new blobs are in buffers of the same policy, and both are empty
  have hpolicy : ∀ (moves : List Move) (others : Interference) (id : BlobId) (b : Buffer),
      (((start settings (.exact settings.growth)).run moves).construct size others).2.bufferOf id =
        some b → b.policy = settings.growth := by
    intro moves others id b hb
    have hnext := bounded_run settings (moves ++ [⟨.construct size, others⟩])
    rw [run, List.foldl_append] at hnext
    exact (hnext.within.inBlobs id b false (bufferOf_eq_some.1 hb).2).policy
  refine ⟨hs.within, ?_, ?_, ?_⟩
  · rw [← hs.construct_answer size others]
    exact (construct_eq s size others).1
  · rw [← ht.construct_answer size others']
    exact (construct_eq t size others').1
  · intro id id' hbuilt hbuilt'
    obtain ⟨b, hb, hempty⟩ := writes_construct (consistent_run settings _ moves) hbuilt
    obtain ⟨c, hc, hempty'⟩ := writes_construct (consistent_run settings _ moves') hbuilt'
    refine writeAlike_of_twin hb hc ⟨hempty.trans hempty'.symm, ?_⟩
    rw [hpolicy moves others id b hb.buffer, hpolicy moves' others' id' c hc.buffer]

/-- Doubling up to eight bytes. -/
def narrow : Settings := Settings.standard.withMaxCapacity 8

/-- A buffer of six bytes is idle. -/
def oneIdle : List Move := [⟨.construct 6, .absent⟩, ⟨.finishWriter 0, .absent⟩]

/-- A source is read to its end, and a script comes upon the limit. -/
def fillAndRun : List WriteCommand :=
  [.fill (.ofSteps [.data [1, 2, 3, 4, 5]] none) none, .run [.put [6, 7], .put [8, 9]], .held,
    .fits 1]

/-- A blob of two bytes is written alike in a buffer of six bytes and in one of two. -/
theorem written_alike_in_six_and_two :
    let s := (start narrow (.exact narrow.growth)).run oneIdle
    let t := (start narrow (.exact narrow.growth)).run []
    let built := s.step .absent (.construct 2)
    let built' := t.step .absent (.construct 2)
    let id : BlobId := s.exchange.blobIds.nextId.1
    let id' : BlobId := t.exchange.blobIds.nextId.1
    (built.2.bufferOf id).map Buffer.capacity = some 6 ∧
      (built'.2.bufferOf id').map Buffer.capacity = some 2 ∧
      (built.2.replies (dictation 1 fillAndRun)).map Reply.windowless =
        (built'.2.replies (dictation 0 fillAndRun)).map Reply.windowless := by
  intro s t built built' id id'
  have halike := (reuse_is_transparent narrow oneIdle [] 2 .absent .absent).2.2.2 id id' rfl rfl
  have hsame := halike fillAndRun (by decide) (by decide +kernel) (by decide +kernel)
  exact ⟨by decide, by decide, hsame.1⟩

end Session

end BlobExchange
