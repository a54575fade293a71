import BlobExchange.Proofs.Ending
/-! # Identifiers are numbered and never come back

The k-th blob gets the number k, and an identifier whose blob has ended never resolves again
(`identifiers_never_come_back`). -/

namespace BlobExchange

/-! ## Producers of new blobs -/

namespace Producer

variable {x : Exchange} {size : Nat} {others : Interference}

theorem construct_of_some {id : BlobId}
    (hsome : (x.construct size others).1.toOption = some id) :
    construct x size others = (.ok ⟨id, false⟩, (x.construct size others).2) := by
  unfold construct
  generalize x.construct size others = constructed at hsome ⊢
  obtain ⟨outcome, y⟩ := constructed
  cases outcome with
  | error halt => cases hsome
  | ok j =>
    cases hsome
    rfl

theorem construct_of_none (hnone : (x.construct size others).1.toOption = none) :
    ∃ halt, (x.construct size others).1 = .error halt ∧
      construct x size others = (.error halt, (x.construct size others).2) := by
  unfold construct
  generalize x.construct size others = constructed at hnone ⊢
  obtain ⟨outcome, y⟩ := constructed
  cases outcome with
  | error halt => exact ⟨halt, rfl, rfl⟩
  | ok j => cases hnone

end Producer

namespace Session

variable {s : Session} {others : Interference} {command : Command} {id : BlobId}

/-! ## Blobs -/

/-- The identifier that a command uses up: that of the blob that it constructs, if it does. -/
def constructed (s : Session) (others : Interference) : Command → Option BlobId
  | .construct size => (s.exchange.construct size others).1.toOption
  | .write size _ => (s.exchange.construct size others).1.toOption
  | _ => none

/-- The identifiers of the blobs that moves construct, in order. -/
def issued (s : Session) : List Move → List BlobId
  | [] => []
  | m :: rest => (s.constructed m.others m.command).toList ++ (s.move m).issued rest

theorem id_finish (p : Producer) (x : Exchange) (others : Interference) :
    (p.finish x others).1.id = p.id := by
  unfold Producer.finish
  split <;> rfl

theorem ids_construct (s : Session) (size : Nat) (others : Interference) :
    (s.construct size others).2.writers.map Writer.id =
      s.writers.map Writer.id ++ (s.exchange.construct size others).1.toOption.toList := by
  cases hid : (s.exchange.construct size others).1.toOption with
  | none =>
    obtain ⟨halt, -, hproducer⟩ := Producer.construct_of_none hid
    simp only [construct, hproducer]
    exact (List.append_nil _).symm
  | some id =>
    simp only [construct, Producer.construct_of_some hid]
    exact List.map_append

theorem ids_write (s : Session) (size : Nat) (script : List Instruction) (others : Interference) :
    (s.write size script others).2.writers.map Writer.id =
      s.writers.map Writer.id ++ (s.exchange.construct size others).1.toOption.toList := by
  have hwriters : (s.write size script others).2.writers = s.writers ++
      ((Consumer.ofScript s.exchange size script others).producer.toList.map fun p =>
        ⟨p, false, scriptAppended script (Consumer.ofScript s.exchange size script others).notes⟩) := by
    unfold write welcome
    simp only
    split <;> rfl
  have hid : (Consumer.ofScript s.exchange size script others).producer.map Producer.id =
      (s.exchange.construct size others).1.toOption := by
    cases hid : (s.exchange.construct size others).1.toOption with
    | none =>
      obtain ⟨halt, -, hproducer⟩ := Producer.construct_of_none hid
      rw [Exchange.ofScript_of_error hproducer]
      rfl
    | some id =>
      rw [Exchange.ofScript_of_ok (Producer.construct_of_some hid)]
      unfold Exchange.afterScript
      simp only
      split
      · rfl
      · exact congrArg some (id_finish _ _ others)
      · exact congrArg some (id_finish _ _ others)
  rw [hwriters, List.map_append, ← hid]
  cases (Consumer.ofScript s.exchange size script others).producer <;> rfl

theorem ids_apart (s : Session) (others : Interference) {command : Command}
    (hnone : constructs command = false) :
    (s.step others command).2.writers.map Writer.id = s.writers.map Writer.id := by
  cases command with
  | construct size => cases hnone
  | write size script => cases hnone
  | toWriter place command =>
    simp only [step, toWriter]
    split
    · rfl
    · rename_i w hw
      exact map_set_same (writer?_eq_some.1 hw).1 rfl
  | finishWriter place =>
    simp only [step, finishWriter]
    split
    · rfl
    · rename_i w hw
      exact map_set_same (writer?_eq_some.1 hw).1 (id_finish w.producer s.exchange others)
  | dropWriter place =>
    simp only [step, dropWriter]
    split
    · rfl
    · rename_i w hw
      exact map_set_same (writer?_eq_some.1 hw).1 rfl
  | claim id =>
    simp only [step, welcome]
    split <;> rfl
  | claimFrom message =>
    simp only [step, welcome]
    split <;> rfl
  | toReader place command =>
    simp only [step, toReader]
    split <;> rfl
  | finishReader place =>
    simp only [step, finishReader]
    split <;> rfl
  | dropReader place =>
    simp only [step, dropReader]
    split <;> rfl
  | _ => rfl

/-- Each blob has a producer of its own, and a command hands out one just for a blob that it
constructs. -/
theorem ids_step (s : Session) (others : Interference) (command : Command) :
    (s.step others command).2.writers.map Writer.id =
      s.writers.map Writer.id ++ (s.constructed others command).toList := by
  cases command with
  | construct size => exact ids_construct s size others
  | write size script => exact ids_write s size script others
  | _ => exact (ids_apart s others rfl).trans (List.append_nil _).symm

theorem ids_run (s : Session) (moves : List Move) :
    (s.run moves).writers.map Writer.id = s.writers.map Writer.id ++ s.issued moves := by
  induction moves generalizing s with
  | nil => exact (List.append_nil _).symm
  | cons m rest ih =>
    calc ((s.move m).run rest).writers.map Writer.id
        = (s.move m).writers.map Writer.id ++ (s.move m).issued rest := ih (s.move m)
      _ = s.writers.map Writer.id ++ (s.constructed m.others m.command).toList ++
            (s.move m).issued rest := congrArg (· ++ _) (ids_step s m.others m.command)
      _ = s.writers.map Writer.id ++ s.issued (m :: rest) := List.append_assoc _ _ _

theorem number_of_issued (settings : Settings) (supplier : Supplier) (moves : List Move)
    (few : ((start settings supplier).issued moves).length < 2 ^ 63) {k : Nat}
    (hk : ((start settings supplier).issued moves)[k]? = some id) : id.raw.toInt = k + 1 := by
  have hs : ((start settings supplier).run moves).Consistent := consistent_run settings supplier moves
  have hids : _ = [] ++ (start settings supplier).issued moves :=
    ids_run (start settings supplier) moves
  rw [List.nil_append] at hids
  have hlt := (List.getElem?_eq_some_iff.1 hk).1
  rw [← hids, hs.numbered, List.getElem?_map, Option.map_eq_some_iff] at hk
  obtain ⟨j, hj, rfl⟩ := hk
  obtain ⟨_, hj⟩ := List.getElem?_eq_some_iff.1 hj
  rw [List.getElem_range] at hj
  rw [← hj, Int64.toInt_ofNat_of_lt (by omega)]
  rfl

theorem constructed_eq_next (hs : s.Consistent) (hid : s.constructed others command = some id) :
    id = s.exchange.blobIds.nextId.1 := by
  have hnext : ∀ size, (s.exchange.construct size others).1.toOption = some id →
      id = s.exchange.blobIds.nextId.1 := by
    intro size hsome
    exact congrArg Producer.id (hs.construct_ok (Producer.construct_of_some hsome)).1
  cases command with
  | construct size => exact hnext size hid
  | write size script => exact hnext size hid
  | _ => cases hid

/-- The counter of blobs goes on by one for each blob, and only for blobs. -/
theorem upcoming_step (hs : s.Consistent) (others : Interference) (command : Command) :
    (s.step others command).2.exchange.blobIds.upcoming =
      s.exchange.blobIds.upcoming + (s.constructed others command).toList.length := by
  have hids := congrArg List.length (ids_step s others command)
  rw [List.length_append, List.length_map, List.length_map] at hids
  have hafter := (consistent_step hs others command).upcoming
  have hbefore := hs.upcoming
  omega

/-! ## Entries on the shelf -/

/-- The entries that a move adds to the shelf. -/
def shelves (s : Session) (m : Move) : List (ShelfKey × Handle) :=
  (s.move m).exchange.shelf.entries.filter fun e => decide (e ∉ s.exchange.shelf.entries)

/-- The numbers of the entries that moves add to the shelf, in order. -/
def shelvings (s : Session) : List Move → List Nat
  | [] => []
  | m :: rest => (s.shelves m).map (fun e => e.1.insertion) ++ (s.move m).shelvings rest

/-- A move adds an entry just if it ends a blob, and the entry has the next number. -/
theorem shelvings_step (hs : s.Consistent) (hx : s.exchange.Tallied .empty) (m : Move) :
    ((s.move m).exchange.ended = s.exchange.ended ∧ s.shelves m = [] ∧
        (s.move m).exchange.shelfIds.upcoming = s.exchange.shelfIds.upcoming) ∨
      ∃ id e, (s.move m).exchange.ended = s.exchange.ended ++ [id] ∧ s.shelves m = [e] ∧
        e.1.insertion = s.exchange.shelfIds.upcoming ∧
        (s.move m).exchange.shelfIds.upcoming = s.exchange.shelfIds.upcoming + 1 := by
  have hacts : Acts False s.exchange (s.move m).exchange :=
    acts_step hs m.others m.command False.elim
  obtain ⟨hbefore, hnone⟩ := acts_ending hs m.others m.command
  rcases ends_step hs m.others m.command with hended | ⟨id, b, hends⟩
  · left
    have hwanes : s.exchange.Wanes (s.move m).exchange := hacts.wanes hended
    refine ⟨hended, ?_, congrArg Sequence.upcoming hwanes.shelfIds⟩
    rw [shelves, List.filter_eq_nil_iff]
    intro e he
    simpa using hwanes.entries he
  · right
    -- up to the end of the blob the shelf lost entries at most, so the new one is all that it gains
    have hwanes := hbefore.wanes hnone
    have hnumber := congrArg Sequence.upcoming hwanes.shelfIds
    let x := s.ending m.others m.command
    let key : ShelfKey := ⟨b.capacity, x.shelfIds.upcoming⟩
    let added : ShelfKey × Handle := (key, x.parkedAt b m.others)
    have hsorted := (hx.acts hbefore).inOrder.shelf_sound.sorted
    have hnew : ∀ e ∈ s.exchange.shelf.entries, e.1 ≠ key := by
      have hkey : key = ⟨b.capacity, s.exchange.shelfIds.next.1⟩ := congrArg _ hnumber
      rw [hkey]
      exact hx.inOrder.sync.key_new b.capacity
    have hadded : added ∉ s.exchange.shelf.entries := fun he => hnew added he rfl
    have hold : x.shelf.entries.filter (fun e => decide (e ∉ s.exchange.shelf.entries)) = [] := by
      rw [List.filter_eq_nil_iff]
      intro e he
      simpa using hwanes.entries he
    refine ⟨id, added, ?_, ?_, hnumber, ?_⟩
    · rw [← hnone]
      exact hends.ended
    · have hshelf : (s.move m).exchange.shelf = _ := hends.shelf
      rw [shelves, hshelf]
      refine (Shelf.filter_place _ (decide_eq_true hadded) ?_ hsorted).trans ?_
      · intro e he
        exact hnew e (hwanes.entries he)
      · rw [hold]
        rfl
    · rw [← hnumber]
      exact hends.shelfIds

/-- The blobs that have ended are numbered by their entries on the shelf. -/
theorem shelvings_run (hs : s.Consistent) (hx : s.exchange.Tallied .empty) (moves : List Move) :
    ∃ count, (s.run moves).exchange.ended.length = s.exchange.ended.length + count ∧
      s.shelvings moves = List.range' s.exchange.shelfIds.upcoming count := by
  induction moves generalizing s with
  | nil => exact ⟨0, rfl, rfl⟩
  | cons m rest ih =>
    have hacts : Acts False s.exchange (s.move m).exchange :=
      acts_step hs m.others m.command False.elim
    have hafter : (s.move m).Consistent := consistent_step hs m.others m.command
    obtain ⟨count, hcount, hlater⟩ := ih hafter (hx.acts hacts)
    show ∃ count, ((s.move m).run rest).exchange.ended.length = _ ∧
      (s.shelves m).map _ ++ (s.move m).shelvings rest = _
    rw [hcount, hlater]
    rcases shelvings_step hs hx m with ⟨hended, hnone, hsame⟩ | ⟨id, e, hended, hone, he, hnext⟩
    · refine ⟨count, ?_, ?_⟩
      · rw [hended]
      · rw [hnone, hsame]
        rfl
    · refine ⟨count + 1, ?_, ?_⟩
      · rw [hended, List.length_append, List.length_singleton]
        omega
      · rw [hone, hnext, List.range'_succ, List.map_singleton, he]
        rfl

/-! ## Looking blobs up -/

theorem registered_iff (hs : s.Consistent) (id : BlobId) :
    (s.exchange.registry.claims.get? id).isSome = true ↔ 0 < s.holders id := by
  by_cases hid : ∃ w ∈ s.writers, w.id = id
  · obtain ⟨w, hw, rfl⟩ := hid
    rw [hs.registryAgrees.entered w hw, holders_eq hs hw, ← openReaders_pos_iff]
    by_cases hopen : w.isOpen = true
    · rw [if_pos hopen]
      exact ⟨fun _ => by omega, fun _ => Or.inl hopen⟩
    · simp [hopen]
  · have hnone : ∀ w ∈ s.writers, w.id ≠ id := fun w hw heq => hid ⟨w, hw, heq⟩
    have hwriters : (s.writers.countP fun w => w.isOpen && decide (w.id = id)) = 0 := by
      rw [List.countP_eq_zero]
      intro w hw
      simp [hnone w hw]
    have hreaders : openReaders s.readers id = 0 := by
      unfold openReaders
      rw [List.countP_eq_zero]
      intro r hr
      obtain ⟨w, hw, hwr⟩ := hs.issued r hr
      have hne : r.id ≠ id := fun heq => hnone w hw (hwr.trans heq)
      simp [hne]
    rw [hs.registryAgrees.stranger id hnone, holders, hwriters, hreaders]
    simp

theorem closed_of_ended (hs : s.Consistent) (hid : id ∈ s.exchange.ended) :
    s.exchange.registry.Closed id := by
  have hcount := List.count_pos_iff.2 hid
  have hstands := hs.stands id
  cases hst : standing s.writers s.readers id with
  | unissued =>
    rw [hst] at hstands
    obtain ⟨-, -, hended⟩ := hstands
    omega
  | active claims content =>
    rw [hst] at hstands
    obtain ⟨-, -, -, hended⟩ := hstands
    omega
  | disposed =>
    rw [hst] at hstands
    exact ⟨hstands.1, hstands.2.1⟩

/-- An identifier at the front of a message is looked up as it is by itself, and what is behind it is
left. -/
theorem claimFrom_of_encode {message : Message} {behind : Bytes}
    (hmessage : message.flatten = id.encode ++ behind) (others : Interference) :
    ∃ rest : Message, rest.flatten = behind ∧
      ∃ outcome, (s.step others (.claim id)).1 = .claimed outcome ∧
        s.step others (.claimFrom message) =
          (.claimedFrom rest outcome, (s.step others (.claim id)).2) := by
  obtain ⟨rest, hread, hrest⟩ := Message.readId_of_encode hmessage
  refine ⟨rest, hrest, _, rfl, ?_⟩
  simp only [step, Consumer.claimFrom, hread]

/-- What becomes of an identifier that is looked up. It resolves if it was issued and its blob has an
open handle; otherwise that is noted and nothing else changes. A message gives its first eight bytes
for it, and one of fewer bytes keeps them. -/
structure Resolves (issued : List BlobId) (s : Session) : Prop where
  known : ∀ id others, id ∈ issued → 0 < s.holders id →
    (s.step others (.claim id)).1 = .claimed (.ok id)
  unknown : ∀ id others, ¬ (id ∈ issued ∧ 0 < s.holders id) →
    s.step others (.claim id) = (.claimed (.error (.unknownIdentifier id)),
      { s with exchange := s.exchange.note (.unknown id) })
  message : ∀ (message : Message) others, BlobId.width ≤ message.flatten.length →
    ∃ id behind, message.flatten = id.encode ++ behind ∧ ∃ rest : Message, rest.flatten = behind ∧
      ∃ outcome, (s.step others (.claim id)).1 = .claimed outcome ∧
        s.step others (.claimFrom message) =
          (.claimedFrom rest outcome, (s.step others (.claim id)).2)
  short : ∀ (message : Message) others, message.flatten.length < BlobId.width →
    s.step others (.claimFrom message) =
      (.claimedFrom message (.error (.truncatedIdentifier message.flatten.length)), s)
  gone : ∀ id ∈ s.exchange.ended, ∀ later others,
    ((s.run later).step others (.claim id)).1 = .claimed (.error (.unknownIdentifier id)) ∧
      ∀ (message : Message) behind, message.flatten = id.encode ++ behind →
        ∃ rest, ((s.run later).step others (.claimFrom message)).1 =
          .claimedFrom rest (.error (.unknownIdentifier id))

theorem resolves (hs : s.Consistent) : s.Resolves (s.writers.map Writer.id) := by
  refine ⟨?_, ?_, ?_, ?_, ?_⟩
  · intro id others _ hheld
    obtain ⟨claims, hclaims⟩ := Option.isSome_iff_exists.1 ((registered_iff hs id).2 hheld)
    simp only [step, Consumer.claim, Exchange.claim, Registry.claim, hclaims, welcome]
  · intro id others hnot
    have hnone : s.exchange.registry.claims.get? id = none := by
      by_contra hsome
      have hheld := (registered_iff hs id).1 (Option.isSome_iff_ne_none.2 hsome)
      refine hnot ⟨?_, hheld⟩
      obtain ⟨claims, hclaims⟩ := Option.ne_none_iff_exists'.1 hsome
      obtain ⟨w, hw, rfl, -⟩ := hs.active_of_claims hclaims
      exact List.mem_map_of_mem hw
    simp only [step, Consumer.claim, Exchange.claim_of_unknown hnone, welcome]
  · intro message others hlong
    let front := message.flatten.take BlobId.width
    have hwidth : front.length = BlobId.width := List.length_take_of_le hlong
    have hmessage : message.flatten =
        (BlobId.decode front).encode ++ message.flatten.drop BlobId.width := by
      rw [BlobId.encode_decode hwidth]
      exact (List.take_append_drop _ _).symm
    exact ⟨BlobId.decode front, _, hmessage, claimFrom_of_encode hmessage others⟩
  · intro message others hshort
    rw [← Message.remaining_eq_length_flatten] at hshort ⊢
    have hread : message.readId = .error (.truncatedIdentifier message.remaining) := by
      simp only [Message.readId, Message.readId?, if_pos hshort]
    simp only [step, Consumer.claimFrom, hread]
    rfl
  · intro id hid later others
    have hgone := claim_of_closed hs (closed_of_ended hs hid) later others
    refine ⟨hgone, ?_⟩
    intro message behind hmessage
    obtain ⟨rest, -, outcome, hclaim, hstep⟩ := claimFrom_of_encode hmessage others
    refine ⟨rest, ?_⟩
    rw [hgone] at hclaim
    cases hclaim
    rw [hstep]

/-! ## Identifiers -/

/-- A blob that is constructed takes the next number, which was no blob's before. A construction that
fails, like every other command, takes none. -/
structure IssuesNext (s : Session) : Prop where
  answer : ∀ others size, ∃ outcome, (s.step others (.construct size)).1 = .constructed outcome ∧
    s.constructed others (.construct size) = outcome.toOption
  taken : ∀ others command id, s.constructed others command = some id →
    id = s.exchange.blobIds.nextId.1 ∧ id ∉ s.writers.map Writer.id ∧
      s.exchange.registry.claims.get? id = none ∧ s.exchange.registry.cells.get? id = none
  spared : ∀ others command, s.constructed others command = none →
    (s.step others command).2.exchange.blobIds = s.exchange.blobIds ∧
      (s.step others command).2.writers.map Writer.id = s.writers.map Writer.id

theorem issuesNext (hs : s.Consistent) : s.IssuesNext := by
  refine ⟨?_, ?_, ?_⟩
  · intro others size
    exact ⟨_, (construct_eq s size others).1, rfl⟩
  · intro others command id hid
    obtain rfl := constructed_eq_next hs hid
    obtain ⟨hclaims, hcells, -⟩ := hs.unissued_next
    refine ⟨rfl, ?_, hclaims, hcells⟩
    intro hmem
    obtain ⟨w, hw, heq⟩ := List.mem_map.1 hmem
    exact hs.next_new w hw heq
  · intro others command hnone
    have hupcoming := upcoming_step hs others command
    have hids := ids_step s others command
    rw [hnone] at hupcoming hids
    refine ⟨?_, hids.trans (List.append_nil _)⟩
    change _ = s.exchange.blobIds.upcoming + 0 at hupcoming
    exact congrArg Sequence.mk hupcoming

/-- In every session of fewer than 2^63 blobs, the k-th blob has the number k and no other blob ever
has it. It resolves until its blob has ended, and never after. -/
theorem identifiers_never_come_back (settings : Settings) (supplier : Supplier) (moves : List Move)
    (few : ((start settings supplier).issued moves).length < 2 ^ 63) :
    let first := start settings supplier
    let s := first.run moves
    (∀ (k : Nat) id, (first.issued moves)[k]? = some id → id.raw.toInt = k + 1) ∧
      s.writers.map Writer.id = first.issued moves ∧ s.IssuesNext ∧
      first.shelvings moves = List.range' 1 s.exchange.ended.length ∧
      s.Resolves (first.issued moves) := by
  intro first s
  have hs : s.Consistent := consistent_run settings supplier moves
  have hids : s.writers.map Writer.id = first.issued moves := ids_run first moves
  obtain ⟨count, hcount, hshelvings⟩ :=
    shelvings_run (.start settings supplier) (.assemble settings supplier) moves
  refine ⟨?_, hids, issuesNext hs, ?_, ?_⟩
  · intro k id hk
    exact number_of_issued settings supplier moves few hk
  · have hended : s.exchange.ended.length = count := hcount.trans (Nat.zero_add count)
    rw [hended]
    exact hshelvings
  · rw [← hids]
    exact resolves hs

/-- A construction that fails, a blob that ends, and scripts of which one fails. -/
def threeIssued : List Move :=
  [⟨.construct 9, .absent⟩, ⟨.construct 4, .absent⟩, ⟨.finishWriter 0, .absent⟩,
    ⟨.write 5 [.put [1, 2, 3, 4, 5, 6, 7, 8, 9]], .absent⟩, ⟨.write 2 [.put [1, 2]], .absent⟩]

/-- The refused construction takes no number. The first two blobs have ended, and the third can be
looked up. -/
theorem third_of_three_resolves :
    let first := start frugal (.exact frugal.growth)
    let s := first.run threeIssued
    (first.issued threeIssued).length < 2 ^ 63 ∧
      (first.issued threeIssued).map (fun id => id.raw.toInt) = [1, 2, 3] ∧
      first.shelvings threeIssued = [1, 2] ∧ s.exchange.ended = [⟨1⟩, ⟨2⟩] ∧
      s.IssuesNext ∧ s.Resolves (first.issued threeIssued) ∧
      (s.step .absent (.claim ⟨3⟩)).1 = .claimed (.ok ⟨3⟩) := by
  intro first s
  have few : (first.issued threeIssued).length < 2 ^ 63 := by decide +kernel
  obtain ⟨-, -, hissues, hshelvings, hresolves⟩ :=
    identifiers_never_come_back frugal (.exact frugal.growth) threeIssued few
  refine ⟨few, by decide +kernel, by decide +kernel, by decide +kernel, hissues, hresolves, ?_⟩
  exact hresolves.known ⟨3⟩ .absent (by decide +kernel) (by decide +kernel)

end Session

end BlobExchange
