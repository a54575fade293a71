import BlobExchange.Proofs.Content
import BlobExchange.Proofs.Loops
/-! # A drain, write by write

A drain is a loop of single writes, in which an interrupted write is one of its own. -/

namespace BlobExchange

/-! ## The bytes between two positions -/

/-- The bytes from one position to another. -/
def Buffer.between (b : Buffer) (p q : Nat) : Bytes := (b.content.drop p).take (q - p)

namespace Buffer

variable (b : Buffer)

theorem between_self (p : Nat) : b.between p p = [] := by
  rw [between, Nat.sub_self, List.take_zero]

theorem between_append {p q r : Nat} (hpq : p ≤ q) (hqr : q ≤ r) :
    b.between p q ++ b.between q r = b.between p r := by
  have hdrop : b.content.drop q = (b.content.drop p).drop (q - p) := by
    rw [List.drop_drop]
    congr 1
    omega
  rw [between, between, hdrop, ← List.take_add]
  unfold between
  congr 1
  omega

theorem between_end (p : Nat) : b.between p (p + (b.bytesFrom p).length) = b.bytesFrom p := by
  rw [between, Nat.add_sub_cancel_left, bytesFrom, List.take_length]

end Buffer

/-! ## One write -/

namespace Sink

/-- Whether a sink will report at most what it is offered. -/
def IsFair (s : Sink) : Prop := s.steps.all SinkStep.isFair = true

/-- The answer to a single write, what is taken, and the steps behind it. -/
def answerOnce (most : Option Nat) (chunk : Bytes) :
    List SinkStep → Except ChannelError Nat × Bytes × List SinkStep
  | [] => (.ok (atMost most chunk.length), chunk.take (atMost most chunk.length), [])
  | .take n :: rest => (.ok (min n chunk.length), chunk.take (min n chunk.length), rest)
  | .over extra :: rest => (.ok (chunk.length + extra), chunk, rest)
  | .failure e :: rest => (.error e, [], rest)

/-- A single write, which is not made again when it is interrupted. -/
def writeOnce (chunk : Bytes) (s : Sink) : Except ChannelError Nat × Sink :=
  let got := answerOnce s.most chunk s.steps
  (got.1, { s with
    steps := got.2.2
    stored := s.stored ++ got.2.1
    offered := s.offered ++ [chunk] })

theorem write_eq (chunk : Bytes) (s : Sink) :
    s.write chunk = match s.writeOnce chunk with
      | (.ok count, rest) => (.ok count, rest)
      | (.error e, rest) => if e.isInterruption then rest.write chunk else (.error e, rest) := by
  obtain ⟨steps, most, stored, offered⟩ := s
  match steps with
  | [] => rfl
  | .take n :: rest => rfl
  | .over extra :: rest => rfl
  | .failure e :: rest =>
    by_cases hagain : e.isInterruption = true
    · simp [write, writeOnce, answerOnce, answer, hagain, List.replicate_succ]
    · simp [write, writeOnce, answerOnce, answer, hagain]

variable {s : Sink} {chunk : Bytes}

/-- A fair sink reports what it takes, which is no more than it is offered, and stays fair. -/
theorem IsFair.writeOnce (hs : s.IsFair) (chunk : Bytes) :
    (s.writeOnce chunk).1.toOption.getD 0 ≤ chunk.length ∧
      (s.writeOnce chunk).2.stored =
        s.stored ++ chunk.take ((s.writeOnce chunk).1.toOption.getD 0) ∧
        (s.writeOnce chunk).2.IsFair := by
  obtain ⟨steps, most, stored, offered⟩ := s
  match steps, hs with
  | [], hs => exact ⟨atMost_le most chunk.length, rfl, hs⟩
  | .take n :: rest, hs => exact ⟨Nat.min_le_right _ _, rfl, hs⟩
  | .over extra :: rest, hs =>
    rw [IsFair, List.all_cons, Bool.and_eq_true] at hs
    obtain rfl : extra = 0 := by simpa [SinkStep.isFair] using hs.1
    refine ⟨Nat.le_refl _, ?_, hs.2⟩
    show stored ++ chunk = stored ++ chunk.take chunk.length
    rw [List.take_length]
  | .failure e :: rest, hs => exact ⟨Nat.zero_le _, rfl, hs⟩

/-- A sink uses up a step to fail. -/
theorem steps_writeOnce (chunk : Bytes) (s : Sink) :
    (s.writeOnce chunk).2.steps.length ≤ s.steps.length ∧
      ∀ e, (s.writeOnce chunk).1 = .error e →
        (s.writeOnce chunk).2.steps.length < s.steps.length := by
  obtain ⟨steps, most, stored, offered⟩ := s
  match steps with
  | [] => exact ⟨Nat.le_refl _, fun _ h => (nomatch h)⟩
  | .take n :: rest => exact ⟨Nat.le_succ _, fun _ h => (nomatch h)⟩
  | .over extra :: rest => exact ⟨Nat.le_succ _, fun _ h => (nomatch h)⟩
  | .failure e :: rest => exact ⟨Nat.le_succ _, fun _ _ => Nat.lt_succ_self _⟩

end Sink

/-! ## One offer -/

/-- A drain that is about to write: the cursor, the sink, and how much is left of the target. -/
structure Offer where
  cursor : Cursor
  sink : Sink
  left : Nat

namespace Offer

def chunk (b : Buffer) (o : Offer) : Bytes := (b.bytesFrom o.cursor.position).take o.left

def answer (b : Buffer) (o : Offer) : Except ChannelError Nat := (o.sink.writeOnce (o.chunk b)).1

def count (b : Buffer) (o : Offer) : Nat := (o.answer b).toOption.getD 0

def next (b : Buffer) (o : Offer) : Offer :=
  ⟨⟨o.cursor.position + o.count b⟩, (o.sink.writeOnce (o.chunk b)).2, o.left - o.count b⟩

/-- How an offer ends the drain, if it does: nothing is taken, or the sink fails for good. -/
def verdict (b : Buffer) (o : Offer) : Option BufferError :=
  match o.answer b with
  | .ok 0 => some (.channel (.bare .writeZero))
  | .ok (_ + 1) => none
  | .error e => if e.isInterruption then none else some (.channel e)

variable {b : Buffer} {o w : Offer}

/-- An offer that ends the drain moves nothing. -/
theorem next_of_verdict {e : BufferError} (h : o.verdict b = some e) :
    o.next b = ⟨o.cursor, (o.sink.writeOnce (o.chunk b)).2, o.left⟩ := by
  have hcount : o.count b = 0 := by
    unfold verdict at h
    unfold count
    split at h
    · rename_i hanswer
      rw [hanswer]
      rfl
    · cases h
    · rename_i hanswer
      rw [hanswer]
      rfl
  unfold next
  rw [hcount]
  rfl

theorem drainOn_write (o : Offer) {target moved : Nat} (hmore : moved < target)
    (hleft : o.left = target - moved) :
    o.cursor.drainOn b o.sink target moved = match o.sink.write (o.chunk b) with
      | (.ok 0, rest) => ⟨o.cursor, rest, .error (.channel (.bare .writeZero))⟩
      | (.ok (n + 1), rest) =>
        Cursor.drainOn ⟨o.cursor.position + (n + 1)⟩ b rest target (moved + (n + 1))
      | (.error e, rest) => ⟨o.cursor, rest, .error (.channel e)⟩ := by
  rw [Cursor.drainOn, if_pos hmore, ← hleft]
  unfold chunk
  match o.sink.write ((b.bytesFrom o.cursor.position).take o.left) with
  | (.ok 0, rest) => rfl
  | (.ok (n + 1), rest) => rfl
  | (.error e, rest) => rfl

/-- The body of the loop: a drain that has not reached its target makes one write, and ends or goes
on from there. -/
theorem drainOn_offer (o : Offer) {target moved : Nat} (hmore : moved < target)
    (hleft : o.left = target - moved) :
    o.cursor.drainOn b o.sink target moved = match o.verdict b with
      | some e => ⟨(o.next b).cursor, (o.next b).sink, .error e⟩
      | none => (o.next b).cursor.drainOn b (o.next b).sink target (moved + o.count b) := by
  rw [drainOn_write o hmore hleft, Sink.write_eq]
  cases hgot : o.sink.writeOnce (o.chunk b) with
  | mk result rest =>
    have hanswer : o.answer b = result := congrArg Prod.fst hgot
    have hcount : o.count b = result.toOption.getD 0 := by rw [count, hanswer]
    simp only [next, hgot, hcount, verdict, hanswer]
    rcases result with e | _ | n
    · by_cases hagain : e.isInterruption = true
      · simp only [hagain, if_true]
        exact (drainOn_write ⟨o.cursor, rest, o.left⟩ hmore hleft).symm
      · simp [hagain, Except.toOption]
    · rfl
    · rfl

theorem length_chunk (b : Buffer) (o : Offer) :
    (o.chunk b).length = min o.left (b.length - o.cursor.position) := by
  rw [chunk, List.length_take, Buffer.bytesFrom, List.length_drop]
  rfl

theorem count_le (ho : o.sink.IsFair) : o.count b ≤ o.left := by
  have hoffered : o.count b ≤ (o.chunk b).length := (ho.writeOnce (o.chunk b)).1
  rw [length_chunk] at hoffered
  omega

/-- A fair sink gets what the position moves over. -/
theorem stored_next (ho : o.sink.IsFair) :
    (o.next b).sink.stored =
      o.sink.stored ++ b.between o.cursor.position (o.next b).cursor.position := by
  have hstored : (o.next b).sink.stored = o.sink.stored ++ (o.chunk b).take (o.count b) :=
    (ho.writeOnce (o.chunk b)).2.1
  have hcount := count_le (b := b) ho
  rw [hstored, chunk, List.take_take, Nat.min_eq_left hcount]
  show _ = o.sink.stored ++ (b.content.drop _).take (o.cursor.position + o.count b - _)
  rw [Nat.add_sub_cancel_left]
  rfl

/-- What is still to come of a drain: steps of its sink and bytes of its target. -/
def extent (o : Offer) : Nat := o.sink.steps.length + o.left

/-- An offer that goes on takes some of what is to come. -/
theorem extent_next (due : o.left ≠ 0) (h : o.verdict b = none) : (o.next b).extent < o.extent := by
  obtain ⟨hsteps, hfailed⟩ := Sink.steps_writeOnce (o.chunk b) o.sink
  show (o.sink.writeOnce (o.chunk b)).2.steps.length + (o.left - o.count b) <
    o.sink.steps.length + o.left
  unfold verdict at h
  split at h
  · cases h
  · rename_i n hanswer
    have hcount : o.count b = n + 1 := by rw [count, hanswer]; rfl
    omega
  · rename_i e hanswer
    have hless := hfailed e hanswer
    omega

/-! ## All offers -/

/-- The loop of a drain. No offer is made when nothing is left of the target. -/
def loop (b : Buffer) : Loop Offer BufferError :=
  ⟨fun o => if o.left = 0 then none else some o, next b, verdict b⟩

theorem entered (h : (loop b).enter o = some w) : w = o ∧ o.left ≠ 0 := by
  by_cases hdone : o.left = 0
  · cases (if_pos hdone).symm.trans h
  · cases (if_neg hdone).symm.trans h
    exact ⟨rfl, hdone⟩

theorem left_of_idle (h : (loop b).enter o = none) : o.left = 0 := by
  by_cases hdone : o.left = 0
  · exact hdone
  · cases (if_neg hdone).symm.trans h

variable {last : Offer} {offers : List Offer} {stop : Option BufferError} {target : Nat}

/-- The offers are all the writes that were made. -/
theorem offered_of_leads (h : (loop b).Leads o offers last) :
    last.sink.offered = o.sink.offered ++ offers.map (chunk b) := by
  induction h with
  | stay o => exact (List.append_nil _).symm
  | @round o w last offers henter later ih =>
    obtain ⟨rfl, -⟩ := entered henter
    have hnext : ((loop b).next w).sink.offered = w.sink.offered ++ [w.chunk b] := rfl
    rw [ih, hnext, List.append_assoc]
    rfl

/-- The position and what is left of the target move together. -/
theorem place_of_leads (h : (loop b).Leads o offers last) (ho : o.sink.IsFair) :
    last.cursor.position + last.left = o.cursor.position + o.left ∧
      o.cursor.position ≤ last.cursor.position := by
  induction h with
  | stay o => exact ⟨rfl, Nat.le_refl _⟩
  | @round o w last offers henter later ih =>
    obtain ⟨rfl, -⟩ := entered henter
    have hcount := count_le (b := b) ho
    obtain ⟨hsum, hforth⟩ := ih (ho.writeOnce (w.chunk b)).2.2
    change _ = w.cursor.position + w.count b + (w.left - w.count b) at hsum
    change w.cursor.position + w.count b ≤ _ at hforth
    omega

theorem stored_of_leads (h : (loop b).Leads o offers last) (ho : o.sink.IsFair) :
    last.sink.stored = o.sink.stored ++ b.between o.cursor.position last.cursor.position := by
  induction h with
  | stay o => rw [Buffer.between_self, List.append_nil]
  | @round o w last offers henter later ih =>
    obtain ⟨rfl, -⟩ := entered henter
    have hnext := (ho.writeOnce (w.chunk b)).2.2
    have hback : w.cursor.position ≤ (w.next b).cursor.position := Nat.le_add_right _ _
    have hforth := (place_of_leads later hnext).2
    rw [ih hnext, show (loop b).next w = w.next b from rfl, stored_next ho, List.append_assoc,
      Buffer.between_append b hback hforth]

/-- A drain goes on from where its offers have led it. -/
theorem drainOn_of_leads (h : (loop b).Leads o offers last)
    (onward : ∀ w ∈ offers, w.verdict b = none) (ho : o.sink.IsFair) (hleft : o.left ≤ target) :
    o.cursor.drainOn b o.sink target (target - o.left) =
      last.cursor.drainOn b last.sink target (target - last.left) := by
  induction h with
  | stay o => rfl
  | @round o w last offers henter later ih =>
    obtain ⟨rfl, hdue⟩ := entered henter
    obtain ⟨hw, hrest⟩ := List.forall_mem_cons.1 onward
    have hcount := count_le (b := b) ho
    have hmoved : target - w.left + w.count b = target - (w.left - w.count b) := by omega
    rw [drainOn_offer w (by omega) (by omega), hw, hmoved]
    exact ih hrest (ho.writeOnce (w.chunk b)).2.2 (Nat.le_trans (Nat.sub_le _ _) hleft)

/-- What a drain leaves when its offers are done: it has failed if the last one ends it. -/
theorem drainOn_of_stops (hleads : (loop b).Leads o offers last)
    (hstops : (loop b).Stops offers last stop) (ho : o.sink.IsFair) (hleft : o.left ≤ target) :
    o.cursor.drainOn b o.sink target (target - o.left) =
      ⟨last.cursor, last.sink, match stop with | none => .ok target | some e => .error e⟩ := by
  cases hstops with
  | idle onward idle =>
    rw [drainOn_of_leads hleads onward ho hleft, left_of_idle idle, Cursor.drainOn, Nat.sub_zero,
      if_neg (Nat.lt_irrefl target)]
  | @ended offers w e onward verdict =>
    obtain ⟨q, hfront, henter⟩ := hleads.split
    obtain ⟨rfl, hdue⟩ := entered henter
    obtain ⟨hsum, hforth⟩ := place_of_leads hfront ho
    rw [drainOn_of_leads hfront onward ho hleft, drainOn_offer w (by omega) (by omega),
      show w.verdict b = some e from verdict]
    rfl

/-- The target is reached if and only if no offer ends the drain. -/
theorem left_iff (hleads : (loop b).Leads o offers last)
    (hstops : (loop b).Stops offers last stop) : last.left = 0 ↔ stop = none := by
  cases hstops with
  | idle onward idle => exact iff_of_true (left_of_idle idle) rfl
  | @ended offers w e onward verdict =>
    obtain ⟨q, -, henter⟩ := hleads.split
    obtain ⟨rfl, hdue⟩ := entered henter
    refine iff_of_false ?_ (fun hno => (nomatch hno))
    show (w.next b).left ≠ 0
    rw [next_of_verdict verdict]
    exact hdue

/-- Every drain goes offer by offer until it stops, and there are no more offers than the sink has
steps and the target bytes. -/
theorem exists_offers (b : Buffer) (o : Offer) : ∃ offers last stop, (loop b).Leads o offers last ∧
    (loop b).Stops offers last stop ∧ offers.length ≤ o.extent := by
  refine (loop b).exists_stops extent ?_ ?_ o
  · intro o w henter
    have hdue := (entered henter).2
    unfold extent
    omega
  · intro o w henter hverdict
    obtain ⟨rfl, hdue⟩ := entered henter
    exact extent_next hdue hverdict

/-- A verdict is on a write that took nothing, or it is the failure of one that is not made again. -/
theorem verdict_iff {e : BufferError} :
    o.verdict b = some e ↔
      o.answer b = .ok 0 ∧ e = .channel (.bare .writeZero) ∨
        ∃ f, o.answer b = .error f ∧ f.isInterruption = false ∧ e = .channel f := by
  rcases hanswer : o.answer b with f | _ | n
  · cases hagain : f.isInterruption <;> simp [verdict, hanswer, hagain, eq_comm (a := e)]
  · simp [verdict, hanswer, eq_comm (a := e)]
  · simp [verdict, hanswer]

/-- An offer runs from the position to the end of the target, within the buffer. -/
structure IsProper (b : Buffer) (start target : Nat) (o : Offer) : Prop where
  onward : start ≤ o.cursor.position
  ends : o.cursor.position + o.left = start + target
  left : 0 < o.left
  inRange : o.cursor.position + o.left ≤ b.length
  whole : (o.chunk b).length = o.left

end Offer

/-! ## What a drain delivers -/

/-- What a drain delivers: which writes were made, what the sink got, and how the drain ended. -/
structure Delivery (b : Buffer) (c : Cursor) (s : Sink) (target : Nat) (d : Drained)
    (offers : List Offer) : Prop where
  /-- The offers follow one another, and they are all the writes that were made. -/
  leads : ∃ left, (Offer.loop b).Leads ⟨c, s, target⟩ offers ⟨d.cursor, d.sink, left⟩
  offered : d.sink.offered = s.offered ++ offers.map (Offer.chunk b)
  proper : ∀ o ∈ offers, o.IsProper b c.position target
  onward : ∀ o ∈ offers.dropLast, o.verdict b = none
  finite : offers.length ≤ s.steps.length + target
  /-- The sink got what lies between the two positions, also if the drain failed. -/
  forth : c.position ≤ d.cursor.position
  within : d.cursor.position ≤ c.position + target
  stored : d.sink.stored = s.stored ++ b.between c.position d.cursor.position
  succeeds : ∀ n, d.outcome = .ok n ↔ n = target ∧ d.cursor.position = c.position + target
  fails : ∀ e, d.outcome = .error e ↔ ∃ o ∈ offers,
    o.answer b = .ok 0 ∧ e = .channel (.bare .writeZero) ∨
      ∃ f, o.answer b = .error f ∧ f.isInterruption = false ∧ e = .channel f

namespace Cursor

theorem delivery (c : Cursor) (b : Buffer) (s : Sink) (limit : Option Nat) (hs : s.IsFair) :
    ∃ offers, Delivery b c s (atMost limit (b.length - c.position)) (c.drain b s limit) offers := by
  generalize htarget : atMost limit (b.length - c.position) = target
  have hroom : target ≤ b.length - c.position := htarget ▸ atMost_le limit _
  obtain ⟨offers, last, stop, hleads, hstops, hlength⟩ := Offer.exists_offers b ⟨c, s, target⟩
  have hdrain := Offer.drainOn_of_stops hleads hstops hs (Nat.le_refl target)
  rw [Nat.sub_self] at hdrain
  have hdrained : c.drain b s limit = _ := (congrArg (c.drainOn b s · 0) htarget).trans hdrain
  obtain ⟨hsum, hforth⟩ := Offer.place_of_leads hleads hs
  change last.cursor.position + last.left = c.position + target at hsum
  rw [hdrained]
  refine ⟨offers, ⟨last.left, hleads⟩, Offer.offered_of_leads hleads, ?_, hstops.onward, hlength,
    hforth, ?_, Offer.stored_of_leads hleads hs, ?_, ?_⟩
  · intro o ho
    obtain ⟨front, back, rfl⟩ := List.append_of_mem ho
    obtain ⟨q, hfront, henter⟩ := hleads.split
    obtain ⟨rfl, hleft⟩ := Offer.entered henter
    obtain ⟨hends, honward⟩ := Offer.place_of_leads hfront hs
    change o.cursor.position + o.left = c.position + target at hends
    change c.position ≤ o.cursor.position at honward
    have hrange : o.cursor.position + o.left ≤ b.length := by omega
    refine ⟨honward, hends, Nat.pos_of_ne_zero hleft, hrange, ?_⟩
    rw [Offer.length_chunk]
    omega
  · show last.cursor.position ≤ c.position + target
    omega
  · intro n
    have hreached : last.cursor.position = c.position + target ↔ stop = none := by
      rw [← Offer.left_iff hleads hstops]
      omega
    rw [hreached]
    cases stop <;> simp [eq_comm]
  · intro e
    have hfailed := hstops.verdict_iff (e := e)
    simp only [← Offer.verdict_iff]
    refine Iff.trans ?_ hfailed
    cases stop <;> simp

end Cursor

/-! ## One delivery after the other -/

/-- What moves a cursor forward. -/
inductive Delivering where
  | drain (sink : Sink) (limit : Option Nat)
  | readAll

/-- Whether the sink reports at most what it is offered, if there is one. -/
def Delivering.IsFair : Delivering → Prop
  | drain sink _ => sink.IsFair
  | readAll => True

namespace Cursor

/-- What is delivered, to the sink or to the reader, and the cursor behind it. -/
def deliver (c : Cursor) (b : Buffer) : Delivering → Bytes × Cursor
  | .drain sink limit =>
    let drained := c.drain b sink limit
    (drained.sink.stored.drop sink.stored.length, drained.cursor)
  | .readAll => c.readAll b

/-- What is delivered one after the other. -/
def deliverAll (c : Cursor) (b : Buffer) : List Delivering → List Bytes × Cursor
  | [] => ([], c)
  | delivering :: rest =>
    let first := c.deliver b delivering
    let later := first.2.deliverAll b rest
    (first.1 :: later.1, later.2)

/-- A delivery goes from the position where the cursor was to the one where it is. -/
theorem deliver_eq (c : Cursor) (b : Buffer) {delivering : Delivering} (h : delivering.IsFair) :
    (c.deliver b delivering).1 = b.between c.position (c.deliver b delivering).2.position ∧
      c.position ≤ (c.deliver b delivering).2.position := by
  cases delivering with
  | drain sink limit =>
    obtain ⟨offers, hdelivery⟩ := c.delivery b sink limit h
    refine ⟨?_, hdelivery.forth⟩
    show (c.drain b sink limit).sink.stored.drop sink.stored.length = _
    rw [hdelivery.stored, List.drop_left]
    rfl
  | readAll => exact ⟨(b.between_end c.position).symm, Nat.le_add_right _ _⟩

theorem deliverAll_eq (c : Cursor) (b : Buffer) {deliveries : List Delivering}
    (h : ∀ delivering ∈ deliveries, delivering.IsFair) :
    (c.deliverAll b deliveries).1.flatten =
        b.between c.position (c.deliverAll b deliveries).2.position ∧
      c.position ≤ (c.deliverAll b deliveries).2.position := by
  induction deliveries generalizing c with
  | nil => exact ⟨(b.between_self c.position).symm, Nat.le_refl _⟩
  | cons delivering rest ih =>
    obtain ⟨hfirst, hrest⟩ := List.forall_mem_cons.1 h
    obtain ⟨hpiece, hforth⟩ := deliver_eq c b hfirst
    obtain ⟨hpieces, hlater⟩ := ih (c.deliver b delivering).2 hrest
    simp only [deliverAll, List.flatten_cons]
    rw [hpieces, hpiece, Buffer.between_append b hforth hlater]
    exact ⟨rfl, Nat.le_trans hforth hlater⟩

/-- Whatever sinks make of it, and wherever the cursor is, a drain offers what lies between its
position and its target, and the sink gets what the position moves over. So drains and readings in
any order, also such that fail, deliver the content piece by piece. -/
theorem drains_deliver_consecutive_pieces (b : Buffer) (c : Cursor) :
    (∀ s limit, s.IsFair → ∃ offers,
      Delivery b c s (atMost limit (b.length - c.position)) (c.drain b s limit) offers) ∧
      ∀ deliveries : List Delivering, (∀ delivering ∈ deliveries, delivering.IsFair) →
        (c.deliverAll b deliveries).1.flatten =
            b.between c.position (c.deliverAll b deliveries).2.position ∧
          c.position ≤ (c.deliverAll b deliveries).2.position :=
  ⟨fun s limit hs => c.delivery b s limit hs, fun _ h => deliverAll_eq c b h⟩

/-- Of five bytes a drain that fails delivers the second and the third, a shorter one the fourth,
and a reading the fifth. -/
theorem three_pieces_of_four_bytes :
    let b : Buffer := ⟨[1, 2, 3, 4, 5], 8, GrowthPolicy.standard⟩
    let failing := Sink.ofSteps [.take 2, .failure (.bare .interrupted), .take 0] none
    let deliveries : List Delivering :=
      [.drain failing none, .drain (Sink.ofSteps [] none) (some 1), .readAll]
    (∀ delivering ∈ deliveries, delivering.IsFair) ∧
      (∃ offers, Delivery b ⟨1⟩ failing 4 (Cursor.drain ⟨1⟩ b failing none) offers) ∧
        (deliverAll ⟨1⟩ b deliveries).1 = [[2, 3], [4], [5]] ∧
          (deliverAll ⟨1⟩ b deliveries).1.flatten = b.between 1 5 := by
  intro b failing deliveries
  obtain ⟨hdelivery, hpieces⟩ := drains_deliver_consecutive_pieces b ⟨1⟩
  have hfair : ∀ delivering ∈ deliveries, delivering.IsFair := by
    simp only [deliveries, List.forall_mem_cons]
    exact ⟨rfl, rfl, trivial, fun _ hnone => absurd hnone List.not_mem_nil⟩
  have hlast : (deliverAll ⟨1⟩ b deliveries).2.position = 5 := by decide +kernel
  refine ⟨hfair, hdelivery failing none rfl, by decide +kernel, ?_⟩
  rw [(hpieces deliveries hfair).1, hlast]

end Cursor

end BlobExchange
