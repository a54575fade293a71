import BlobExchange.Exchange.Consumer
import BlobExchange.Proofs.Capacity
/-! # Identifiers in messages

Reading gives back the identifiers of a message wherever it is cut
(`identifiers_survive_every_cut`). -/

namespace BlobExchange

/-- Numbers are written digit by digit in base 256, the digit of the highest place first. -/
theorem BigEndian.ofNat_eq_digits (width n : Nat) :
    ofNat width n =
      (List.range width).reverse.map fun place => UInt8.ofNat (n / span place) := by
  induction width generalizing n with
  | zero => rfl
  | succ width ih =>
    have hhigher : ∀ place, n / 256 / span place = n / span (place + 1) :=
      fun place => Nat.div_div_eq_div_mul n 256 (span place)
    have hlowest : UInt8.ofNat (n % 256) = UInt8.ofNat (n / span 0) := by
      apply UInt8.toNat_inj.1
      simp [span]
    rw [ofNat, ih, List.range_succ_eq_map, List.reverse_cons, List.map_append, hlowest,
      ← List.map_reverse, List.map_map]
    simp only [hhigher]
    rfl

namespace BlobId

/-- The number that stands for an identifier in two's complement. -/
def twosComplement (id : BlobId) : Nat := (id.raw.toInt % (BigEndian.span 8 : Nat)).toNat

/-- The bytes that spell an identifier: the digits of its two's complement, the highest first. -/
def spelling (id : BlobId) : Bytes :=
  (List.range width).reverse.map fun place => UInt8.ofNat (id.twosComplement / BigEndian.span place)

/-- Identifiers, each with the number of bytes behind it in a message that ends in so many others. -/
def countdown : List BlobId → (others : Nat) → List (BlobId × Nat)
  | [], _ => []
  | id :: rest, others => (id, width * rest.length + others) :: countdown rest others

theorem twosComplement_eq (id : BlobId) : id.twosComplement = id.raw.toUInt64.toNat := by
  have hword : BitVec.ofInt 64 id.raw.toInt = id.raw.toBitVec := BitVec.ofInt_toInt
  have hbits := congrArg BitVec.toNat hword
  rw [BitVec.toNat_ofInt, Int64.toNat_toBitVec] at hbits
  exact hbits

theorem encode_eq_spelling (id : BlobId) : id.encode = id.spelling := by
  unfold encode spelling BigEndian.ofInt64
  rw [BigEndian.ofNat_eq_digits, twosComplement_eq]
  rfl

theorem encode_eq : encode = spelling := funext encode_eq_spelling

theorem length_flatMap_encode (ids : List BlobId) :
    (ids.flatMap encode).length = width * ids.length := by
  induction ids with
  | nil => rfl
  | cons id rest ih =>
    rw [List.flatMap_cons, List.length_append, ih, List.length_cons]
    show (BigEndian.ofInt64 id.raw).length + _ = _
    rw [BigEndian.length_ofInt64, Nat.mul_succ, Nat.add_comm]
    rfl

/-- Identifiers written behind a message one after the other follow it in order. -/
theorem foldl_encode (message : Bytes) (ids : List BlobId) :
    ids.foldl (fun message id => message ++ id.encode) message =
      message ++ ids.flatMap spelling := by
  induction ids generalizing message with
  | nil => exact (List.append_nil message).symm
  | cons id rest ih =>
    rw [List.foldl_cons, ih, List.flatMap_cons, encode_eq_spelling, List.append_assoc]

def words (ids : List BlobId) : List Instruction := ids.map fun id => .putWord id.raw

end BlobId

/-! ## Writing words -/

namespace Buffer

variable {b : Buffer} {bytes : Bytes}

theorem perform_word (b : Buffer) (id : BlobId) :
    b.perform (.putWord id.raw) = b.giveNoted id.spelling := by
  rw [← BlobId.encode_eq_spelling]
  rfl

/-- Words written into a buffer are the spellings of identifiers, as many as are completed. -/
theorem run_words (b : Buffer) (ids : List BlobId) :
    ∃ count, (b.run (BlobId.words ids)).notes.length = count ∧
      (b.run (BlobId.words ids)).buffer.content =
        b.content ++ (ids.take count).flatMap BlobId.spelling ∧
      ((b.run (BlobId.words ids)).outcome = .ok () ↔ count = ids.length) := by
  induction ids generalizing b with
  | nil => exact ⟨0, rfl, (List.append_nil _).symm, iff_of_true rfl rfl⟩
  | cons id rest ih =>
    have hword := perform_word b id
    simp only [BlobId.words, List.map_cons, run]
    cases hgiven : b.giveNoted id.spelling with
    | error halt =>
      rw [hgiven] at hword
      rw [hword]
      refine ⟨0, rfl, (List.append_nil _).symm, iff_of_false ?_ (Nat.zero_ne_add_one _)⟩
      exact fun hdone => by cases hdone
    | ok performed =>
      obtain ⟨after, note⟩ := performed
      rw [hgiven] at hword
      rw [hword]
      obtain ⟨count, hnotes, hcontent, hdone⟩ := ih after
      refine ⟨count + 1, congrArg (· + 1) hnotes, ?_, ?_⟩
      · rw [List.take_succ_cons, List.flatMap_cons, ← List.append_assoc,
          ← content_giveNoted hgiven]
        exact hcontent
      · rw [List.length_cons, Nat.add_right_cancel_iff]
        exact hdone

theorem giveNoted_of_room (hroom : b.length + bytes.length ≤ b.capacity)
    (hpermitted : b.length + bytes.length ≤ b.policy.limit) :
    b.giveNoted bytes = .ok (b.put bytes, .written (b.put bytes).length) := by
  have happended : b.append bytes = .ok (b.put bytes) := by
    by_cases hnil : bytes = []
    · subst hnil
      rw [put_nil]
      rfl
    · rw [append_of_ne_nil hnil, makeRoom_permitted hpermitted, if_pos hroom]
      rfl
  unfold giveNoted give
  rw [happended]
  rfl

theorem run_words_of_room (ids : List BlobId)
    (hroom : b.length + BlobId.width * ids.length ≤ b.capacity)
    (hpermitted : b.length + BlobId.width * ids.length ≤ b.policy.limit) :
    (b.run (BlobId.words ids)).outcome = .ok () := by
  induction ids generalizing b with
  | nil => rfl
  | cons id rest ih =>
    have hwidth : id.spelling.length = BlobId.width := by simp [BlobId.spelling]
    rw [List.length_cons, Nat.mul_succ] at hroom hpermitted
    have hword := perform_word b id
    rw [giveNoted_of_room (by omega) (by omega)] at hword
    simp only [BlobId.words, List.map_cons, run, hword]
    apply ih
    · rw [length_put, capacity_put]
      omega
    · rw [length_put, policy_put]
      omega

end Buffer

/-! ## Reading identifiers -/

namespace Message

/-- Identifiers are read from a message one after the other, each with the number of bytes that are
then left, up to what is left of the message at last. -/
inductive Reads : Message → List (BlobId × Nat) → Message → Prop where
  | done (parts : Message) : Reads parts [] parts
  | next {parts later rest : Message} {id : BlobId} {ids : List (BlobId × Nat)}
    (first : parts.readId = .ok (id, later)) (others : Reads later ids rest) :
    Reads parts ((id, later.remaining) :: ids) rest

variable {parts rest : Message} {behind : Bytes}

theorem readId_of_short (h : parts.remaining < BlobId.width) :
    parts.readId = .error (.truncatedIdentifier parts.remaining) := by
  simp only [readId, readId?, if_pos h]

/-- Whatever eight bytes are in front are an identifier, which is spelled so. -/
theorem readId_of_length (h : BlobId.width ≤ parts.flatten.length) :
    ∃ id rest, parts.readId = .ok (id, rest) ∧ id.encode = parts.flatten.take BlobId.width ∧
      rest.flatten = parts.flatten.drop BlobId.width := by
  have hfront : (parts.flatten.take BlobId.width).length = BlobId.width :=
    List.length_take_of_le h
  have hencode := BlobId.encode_decode hfront
  have hparts : parts.flatten = (BlobId.decode (parts.flatten.take BlobId.width)).encode ++
      parts.flatten.drop BlobId.width := by
    rw [hencode, List.take_append_drop]
  obtain ⟨rest, hread, hrest⟩ := readId_of_encode hparts
  exact ⟨_, rest, hread, hencode, hrest⟩

/-- All identifiers of a message are read before what is left of it. -/
theorem Reads.of_encode {ids : List BlobId} (h : parts.flatten = ids.flatMap BlobId.encode ++ behind) :
    ∃ rest, parts.Reads (BlobId.countdown ids behind.length) rest ∧ rest.flatten = behind := by
  induction ids generalizing parts with
  | nil => exact ⟨parts, .done parts, h⟩
  | cons id ids ih =>
    rw [List.flatMap_cons, List.append_assoc] at h
    obtain ⟨later, hread, hlater⟩ := readId_of_encode h
    obtain ⟨rest, hothers, hrest⟩ := ih hlater
    have hleft : later.remaining = BlobId.width * ids.length + behind.length := by
      rw [remaining_eq_length_flatten, hlater, List.length_append, BlobId.length_flatMap_encode]
    refine ⟨rest, ?_, hrest⟩
    rw [BlobId.countdown, ← hleft]
    exact .next hread hothers

/-- Reading until fewer than eight bytes are left reads one identifier after the other. -/
theorem Reads.readIds_eq {ids : List (BlobId × Nat)} (h : parts.Reads ids rest)
    (short : rest.remaining < BlobId.width) : parts.readIds = (ids, rest) := by
  induction h with
  | done parts => rw [readIds, if_pos short]
  | @next parts later rest id ids first others ih =>
    have hlong : ¬ parts.remaining < BlobId.width := by
      intro hshort
      rw [readId_of_short hshort] at first
      cases first
    simp only [readId, readId?, if_neg hlong, Except.ok.injEq, Prod.mk.injEq] at first
    obtain ⟨rfl, rfl⟩ := first
    rw [readIds, if_neg hlong]
    simp only [ih short]

/-- What a message comes to that carries identifiers and some bytes behind them. Reading gives the
identifiers in order, each with eight bytes fewer left. Then it fails with the number of the bytes
behind them, and leaves them. -/
structure ReadsBack (parts : Message) (ids : List BlobId) (behind : Bytes) : Prop where
  remaining : parts.remaining = BlobId.width * ids.length + behind.length
  read : ∃ rest : Message, parts.Reads (BlobId.countdown ids behind.length) rest ∧
    parts.readIds = (BlobId.countdown ids behind.length, rest) ∧ rest.flatten = behind ∧
    rest.readId = .error (.truncatedIdentifier behind.length) ∧
    ∀ x, Consumer.claimFrom x rest = (.error (.truncatedIdentifier behind.length), rest, x)

theorem readsBack {ids : List BlobId} (short : behind.length < BlobId.width)
    (cut : parts.flatten = ids.flatMap BlobId.spelling ++ behind) : parts.ReadsBack ids behind := by
  rw [← BlobId.encode_eq] at cut
  refine ⟨?_, ?_⟩
  · rw [remaining_eq_length_flatten, cut, List.length_append, BlobId.length_flatMap_encode]
  · obtain ⟨rest, hreads, hrest⟩ := Reads.of_encode cut
    have hleft : rest.remaining = behind.length := by
      rw [remaining_eq_length_flatten, hrest]
    have hshort : rest.remaining < BlobId.width := by
      rw [hleft]
      exact short
    have hrefused := readId_of_short hshort
    rw [hleft] at hrefused
    refine ⟨rest, hreads, hreads.readIds_eq hshort, hrest, hrefused, ?_⟩
    intro x
    simp only [Consumer.claimFrom, hrefused]

end Message

/-- How identifiers are written: eight bytes each in their order, which are their spellings, be it
behind a message, through an open producer or as words into a buffer. -/
structure BlobId.WrittenInOrder (ids : List BlobId) : Prop where
  message : ∀ message : Bytes, ids.foldl (fun message id => message ++ id.encode) message =
    message ++ ids.flatMap spelling
  length : (ids.flatMap spelling).length = width * ids.length
  announced : ∀ (p : Producer) (x : Exchange) (message : Bytes), p.finished = false →
    x.registry.isDisposed p.id = false → p.announce x message = .ok (message ++ p.id.spelling)
  script : ∀ b : Buffer, ∃ count, (b.run (words ids)).notes.length = count ∧
    (b.run (words ids)).buffer.content = b.content ++ (ids.take count).flatMap spelling ∧
    ((b.run (words ids)).outcome = .ok () ↔ count = ids.length)
  room : ∀ b : Buffer, b.length + width * ids.length ≤ b.capacity →
    b.length + width * ids.length ≤ b.policy.limit → (b.run (words ids)).outcome = .ok ()

theorem BlobId.writtenInOrder (ids : List BlobId) : WrittenInOrder ids := by
  refine ⟨fun message => foldl_encode message ids, ?_, ?_, fun b => b.run_words ids, ?_⟩
  · rw [← encode_eq]
    exact length_flatMap_encode ids
  · intro p x message hopen hactive
    unfold Producer.announce
    rw [hopen, hactive, ← encode_eq_spelling]
    rfl
  · intro b hroom hpermitted
    exact Buffer.run_words_of_room ids hroom hpermitted

/-- Identifiers survive in every message, whatever they are, what little comes behind them, and
wherever the message is cut. And every eight bytes at the front of a message are an identifier that
is written as just these bytes. -/
theorem identifiers_survive_every_cut {parts : Message} {ids : List BlobId} {behind : Bytes}
    (short : behind.length < BlobId.width)
    (cut : parts.flatten = ids.flatMap BlobId.spelling ++ behind) :
    BlobId.WrittenInOrder ids ∧ parts.ReadsBack ids behind ∧
      ∀ message : Message, BlobId.width ≤ message.flatten.length →
        ∃ id rest, message.readId = .ok (id, rest) ∧
          id.encode = message.flatten.take BlobId.width ∧
          rest.flatten = message.flatten.drop BlobId.width :=
  ⟨BlobId.writtenInOrder ids, Message.readsBack short cut,
    fun _ hlength => Message.readId_of_length hlength⟩

/-- A negative identifier lies across three parts, an empty one among them, and three bytes are left
behind the second. -/
theorem minus_two_across_three_parts :
    let parts : Message := [[0xff, 0xff], [], [0xff, 0xff, 0xff, 0xff, 0xff], [0xfe, 0, 0, 0],
      [0, 0, 0, 1, 2, 7, 8], [9]]
    let ids : List BlobId := [⟨-2⟩, ⟨0x0102⟩]
    ([7, 8, 9] : Bytes).length < BlobId.width ∧
      parts.flatten = ids.flatMap BlobId.spelling ++ [7, 8, 9] ∧ parts.ReadsBack ids [7, 8, 9] ∧
      (⟨-2⟩ : BlobId).spelling = [0xff, 0xff, 0xff, 0xff, 0xff, 0xff, 0xff, 0xfe] ∧
      BlobId.countdown ids 3 = [(⟨-2⟩, 11), (⟨0x0102⟩, 3)] ∧
      ∃ id rest, Message.readId [[1, 2, 3], [4, 5], [6, 7, 8, 9]] = .ok (id, rest) ∧
        id.encode = [1, 2, 3, 4, 5, 6, 7, 8] ∧ rest.flatten = [9] := by
  intro parts ids
  have hshort : ([7, 8, 9] : Bytes).length < BlobId.width := by decide
  have hcut : parts.flatten = ids.flatMap BlobId.spelling ++ [7, 8, 9] := by decide +kernel
  obtain ⟨-, hreads, hdecoded⟩ := identifiers_survive_every_cut hshort hcut
  refine ⟨hshort, hcut, hreads, by decide +kernel, by decide +kernel, ?_⟩
  exact hdecoded [[1, 2, 3], [4, 5], [6, 7, 8, 9]] (by decide)

end BlobExchange
