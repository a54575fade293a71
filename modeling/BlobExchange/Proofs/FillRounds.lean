import BlobExchange.Proofs.BufferLifetime
import BlobExchange.Proofs.Loops
/-! # A filling, read by read

A filling is a loop whose rounds make one read each (`fillOn_round`). Each round that goes on takes
something from the source (`extent_next`). -/

namespace BlobExchange

/-! ## One read -/

namespace Source

def given : Except ChannelError Bytes → Bytes
  | .ok bytes => bytes
  | .error _ => []

/-- The answer to a single read of at most so many bytes, and the steps behind it. -/
def answerOnce (most : Nat) : List SourceStep → Except ChannelError Bytes × List SourceStep
  | [] => (.ok [], [])
  | .data [] :: rest => answerOnce most rest
  | .data (b :: bs) :: rest => (.ok ((b :: bs).take most), .data ((b :: bs).drop most) :: rest)
  | .ended :: rest => (.ok [], rest)
  | .failure e :: rest => (.error e, rest)

/-- A single read, which is not made again when it is interrupted. -/
def readOnce (window : Nat) (s : Source) : Except ChannelError Bytes × Source :=
  let got := answerOnce (atMost s.chunk window) s.steps
  (got.1, { s with steps := got.2, asked := s.asked ++ [window] })

/-- How much a source has to answer: its bytes, and its steps with them. -/
def extent (s : Source) : Nat := s.left + s.steps.length

variable {s : Source} {window : Nat}

theorem answer_eq (most : Nat) (steps : List SourceStep) :
    answer most steps = match answerOnce most steps with
      | (.ok bytes, rest) => ⟨.ok bytes, 1, rest⟩
      | (.error e, rest) =>
        if e.isInterruption then
          { answer most rest with reads := (answer most rest).reads + 1 }
        else ⟨.error e, 1, rest⟩ := by
  fun_induction answerOnce most steps with
  | case1 => rfl
  | case2 rest ih => exact ih
  | case3 b bs rest => rfl
  | case4 rest => rfl
  | case5 e rest => rw [answer]

theorem read_eq (window : Nat) (s : Source) :
    s.read window = match s.readOnce window with
      | (.ok bytes, rest) => (.ok bytes, rest)
      | (.error e, rest) => if e.isInterruption then rest.read window else (.error e, rest) := by
  unfold read readOnce
  rw [answer_eq]
  match answerOnce (atMost s.chunk window) s.steps with
  | (.ok bytes, rest) => rfl
  | (.error e, rest) =>
    by_cases hagain : e.isInterruption = true
    · simp [hagain, List.replicate_succ]
    · simp [hagain]

theorem data_answerOnce (most : Nat) (steps : List SourceStep) :
    (steps.map SourceStep.bytes).flatten =
      given (answerOnce most steps).1 ++ ((answerOnce most steps).2.map SourceStep.bytes).flatten := by
  fun_induction answerOnce most steps with
  | case1 => rfl
  | case2 rest ih => exact ih
  | case3 b bs rest =>
    simp only [List.map_cons, List.flatten_cons, SourceStep.bytes, given]
    rw [← List.append_assoc, List.take_append_drop]
  | case4 rest => rfl
  | case5 e rest => rfl

/-- What a read gives comes off the front of the data. -/
theorem data_readOnce (window : Nat) (s : Source) :
    s.data = given (s.readOnce window).1 ++ (s.readOnce window).2.data :=
  data_answerOnce (atMost s.chunk window) s.steps

theorem length_readOnce (window : Nat) (s : Source) :
    (given (s.readOnce window).1).length ≤ window := by
  have hanswer : ∀ most steps, (given (answerOnce most steps).1).length ≤ most := by
    intro most steps
    fun_induction answerOnce most steps with
    | case2 rest ih => exact ih
    | case3 b bs rest => exact List.length_take_le most (b :: bs)
    | _ => exact Nat.zero_le most
  exact Nat.le_trans (hanswer _ _) (atMost_le s.chunk window)

/-- Only the end takes nothing of what a source has to answer. -/
theorem extent_readOnce (h : (s.readOnce window).1 ≠ .ok []) :
    (s.readOnce window).2.extent < s.extent := by
  have hanswer : ∀ most steps, (answerOnce most steps).1 ≠ .ok [] →
      bytesLeft (answerOnce most steps).2 + (answerOnce most steps).2.length <
        bytesLeft steps + steps.length := by
    intro most steps
    fun_induction answerOnce most steps with
    | case1 => exact fun hsome => absurd rfl hsome
    | case2 rest ih =>
      intro hsome
      have hless := ih hsome
      simp only [bytesLeft_cons, SourceStep.left, List.length_nil, List.length_cons]
      omega
    | case3 b bs rest =>
      intro hsome
      have hmost : most ≠ 0 := by
        rintro rfl
        exact hsome rfl
      simp only [bytesLeft_cons, SourceStep.left, List.length_drop, List.length_cons]
      omega
    | case4 rest => exact fun hsome => absurd rfl hsome
    | case5 e rest =>
      intro _
      simp only [bytesLeft_cons, SourceStep.left, List.length_cons]
      omega
  exact hanswer _ _ h

/-- If a read of at least one byte gets none, no read would get any. -/
theorem readOnce_ended (hwindow : 0 < window) (h : (s.readOnce window).1 = .ok []) (other : Nat) :
    (s.readOnce other).1 = .ok [] := by
  have hanswer : ∀ most steps, (answerOnce most steps).1 = .ok [] →
      most = 0 ∨ ∀ n, (answerOnce n steps).1 = .ok [] := by
    intro most steps
    fun_induction answerOnce most steps with
    | case1 => exact fun _ => Or.inr fun _ => rfl
    | case2 rest ih => exact ih
    | case3 b bs rest =>
      intro hnone
      have htaken : (b :: bs).take most = [] := Except.ok.inj hnone
      cases most with
      | zero => exact Or.inl rfl
      | succ n => cases htaken
    | case4 rest => exact fun _ => Or.inr fun _ => rfl
    | case5 e rest =>
      intro hnone
      cases hnone
  rcases hanswer _ _ h with hmost | hall
  · -- asked for a byte, a source can be held to none only if it gives none to anyone
    have hchunk : s.chunk = some 0 := by
      cases hc : s.chunk with
      | none =>
        rw [hc, atMost_none] at hmost
        omega
      | some n =>
        rw [hc, atMost_some] at hmost
        congr 1
        omega
    unfold readOnce at h ⊢
    rw [hchunk, atMost_some, Nat.zero_min] at h ⊢
    exact h
  · exact hall _

end Source

/-! ## One round -/

/-- A filling that is about to read: the buffer, the source and what is left of the budget. -/
structure Round where
  buffer : Buffer
  source : Source
  budget : Option Nat

namespace Round

/-- Whether the read is for a byte that the buffer cannot hold. -/
def probes (w : Round) : Bool := !w.buffer.fits 1

def window (w : Round) : Nat := if w.probes then 1 else w.buffer.window w.budget

def answer (w : Round) : Except ChannelError Bytes := (w.source.readOnce w.window).1

def given (w : Round) : Bytes := Source.given w.answer

/-- The bytes that are added to the buffer. -/
def kept (w : Round) : Bytes := if w.probes then [] else w.given

/-- The bytes that are given and not added. -/
def lost (w : Round) : Bytes := if w.probes then w.given else []

def next (w : Round) : Round :=
  ⟨w.buffer.put w.kept, (w.source.readOnce w.window).2, w.budget.map (· - w.kept.length)⟩

/-- The filling with room made for a byte, if it is permitted and there is none. -/
def widened (w : Round) : Except (Halt BufferError) Round :=
  if w.probes then .ok w
  else (if w.buffer.room = 0 then w.buffer.makeRoom 1 else .ok w.buffer).map
    ({ w with buffer := · })

/-- How a round ends the filling, if it does: the source has ended, it has more than the buffer may
hold, or it fails for good. -/
def verdict (w : Round) : Option (Except (Halt BufferError) Unit) :=
  match w.answer with
  | .ok [] => some (.ok ())
  | .ok (_ :: _) =>
    if w.probes then
      some (.error (.failed (.capacityExceeded (w.buffer.length + 1) w.buffer.policy.limit)))
    else none
  | .error e => if e.isInterruption then none else some (.error (.failed (.channel e)))

/-- The filling from here on, after `moved` bytes. -/
def fillOn (w : Round) (moved : Nat) : Filled := w.buffer.fillOn w.source w.budget moved

/-- The filling about to make a read. None is made without budget, nor without room that is
permitted. -/
def enter (r : Round) : Option Round := if r.budget = some 0 then none else r.widened.toOption

/-- The loop of a filling. -/
def loop : Loop Round (Except (Halt BufferError) Unit) := ⟨enter, next, verdict⟩

variable {r w : Round}

theorem probes_eq_false_iff : w.probes = false ↔ w.buffer.fits 1 = true := by
  simp [probes]

theorem probes_iff (hw : w.buffer.Sound) :
    w.probes = true ↔ w.buffer.length = w.buffer.policy.limit := by
  have hpermitted := hw.permitted
  simp only [probes, Bool.not_eq_true', Bool.eq_false_iff, ne_eq, Buffer.fits_iff]
  omega

/-- What entering a round leaves as it was, and that there is budget and room then. -/
structure Entered (r w : Round) : Prop where
  source : w.source = r.source
  budget : w.budget = r.budget
  content : w.buffer.content = r.buffer.content
  policy : w.buffer.policy = r.buffer.policy
  due : w.budget ≠ some 0
  room : w.probes = false → w.buffer.room ≠ 0
  sound : r.buffer.Sound → w.buffer.Sound
  fillOn : ∀ moved, r.fillOn moved = w.fillOn moved

theorem entered (h : r.enter = some w) : r.Entered w := by
  have hbudget : r.budget ≠ some 0 := by
    intro hspent
    rw [enter, if_pos hspent] at h
    cases h
  have hwidened : r.widened.toOption = some w := by rwa [enter, if_neg hbudget] at h
  unfold widened at hwidened
  split at hwidened
  · rename_i hprobes
    cases hwidened
    refine ⟨rfl, rfl, rfl, rfl, hbudget, ?_, fun hr => hr, fun _ => rfl⟩
    rw [hprobes]
    exact fun hno => (nomatch hno)
  · rename_i hprobes
    cases hgrown : (if r.buffer.room = 0 then r.buffer.makeRoom 1 else .ok r.buffer) with
    | error halt =>
      rw [hgrown] at hwidened
      cases hwidened
    | ok grown =>
      rw [hgrown] at hwidened
      cases hwidened
      have hroom := Buffer.room_widened hgrown
      have hcontent := Buffer.content_widened hgrown
      have hpolicy := (Buffer.Grows.widened hgrown).policy
      refine ⟨rfl, rfl, hcontent, hpolicy, hbudget, fun _ => hroom, fun hr => hr.widened hgrown, ?_⟩
      intro moved
      have hfits : r.buffer.fits 1 = true := by simpa [probes] using hprobes
      have hfits' : grown.fits 1 = true := by
        rw [Buffer.fits_iff, hpolicy, Buffer.length, hcontent]
        exact Buffer.fits_iff.1 hfits
      show r.buffer.fillOn r.source r.budget moved = grown.fillOn r.source r.budget moved
      rw [Buffer.fillOn_read hbudget hfits hgrown, Buffer.fillOn_read hbudget hfits' (if_neg hroom)]

/-- No round is entered when the budget is spent, or when an overflow keeps room from being made. -/
theorem fillOn_of_idle (h : r.enter = none) (moved : Nat) :
    r.budget = some 0 ∧ r.fillOn moved = ⟨r.buffer, r.source, .ok moved⟩ ∨
      r.budget ≠ some 0 ∧ r.buffer.makeRoom 1 = .error .overflow ∧
        r.fillOn moved = ⟨r.buffer, r.source, .error .overflow⟩ := by
  by_cases hbudget : r.budget = some 0
  · refine Or.inl ⟨hbudget, ?_⟩
    rw [fillOn, hbudget, Buffer.fillOn_spent]
  · have hwidened : r.widened.toOption = none := by rwa [enter, if_neg hbudget] at h
    refine Or.inr ⟨hbudget, ?_⟩
    unfold widened at hwidened
    split at hwidened
    · cases hwidened
    · rename_i hprobes
      have hfits : r.buffer.fits 1 = true := by simpa [probes] using hprobes
      cases hgrown : (if r.buffer.room = 0 then r.buffer.makeRoom 1 else .ok r.buffer) with
      | ok grown =>
        rw [hgrown] at hwidened
        cases hwidened
      | error halt =>
        have hmade : r.buffer.makeRoom 1 = .error halt := by
          split at hgrown
          · exact hgrown
          · cases hgrown
        obtain rfl := Buffer.makeRoom_error hfits hmade
        exact ⟨hmade, Buffer.fillOn_halt hbudget hfits hgrown⟩

/-- A round that keeps nothing leaves the buffer and the budget. -/
theorem next_of_kept_nil (h : w.kept = []) :
    w.next = ⟨w.buffer, (w.source.readOnce w.window).2, w.budget⟩ := by
  unfold next
  rw [h, Buffer.put_nil]
  cases w.budget <;> rfl

/-- The body of the loop: a round makes one read, and ends the filling or goes on from there. -/
theorem fillOn_round (hw : w.buffer.Sound) (due : w.budget ≠ some 0)
    (ready : w.probes = false → w.buffer.room ≠ 0) (moved : Nat) :
    w.fillOn moved = match w.verdict with
      | some halt => ⟨w.next.buffer, w.next.source, halt.map fun _ => moved⟩
      | none => w.next.fillOn (moved + w.kept.length) := by
  cases hgot : w.source.readOnce w.window with
  | mk result rest =>
  have hanswer : w.answer = result := congrArg Prod.fst hgot
  have hstays : w.kept = [] → w.next = ⟨w.buffer, rest, w.budget⟩ := by
    intro hkept
    rw [next_of_kept_nil hkept, hgot]
  cases hprobes : w.probes with
  | true =>
    -- the buffer is at its limit, and whatever the probe gives is lost
    have hfull : ¬ w.buffer.fits 1 = true := by simpa [probes] using hprobes
    have hone : w.window = 1 := by simp [window, hprobes]
    have hkept : w.kept = [] := by simp [kept, hprobes]
    rw [hone] at hgot
    simp only [verdict, hanswer, hprobes, hstays hkept, hkept, fillOn]
    rw [Buffer.fillOn_full due hfull, Buffer.probe, Source.read_eq, hgot]
    match result with
    | .ok [] => rfl
    | .ok (x :: xs) => simp [hw.addHeld_one, Except.map]
    | .error e =>
      by_cases hagain : e.isInterruption = true
      · simp only [hagain, if_true]
        rw [Buffer.fillOn_full due hfull]
        rfl
      · simp [hagain, Except.map]
  | false =>
    have hfits := probes_eq_false_iff.1 hprobes
    have hwindow : w.window = w.buffer.window w.budget := by simp [window, hprobes]
    have hkept : w.kept = Source.given result := by simp [kept, hprobes, given, hanswer]
    have hround : w.buffer.fillOn w.source w.budget moved = _ :=
      Buffer.fillOn_read due hfits (if_neg (ready hprobes))
    rw [← hwindow, Source.read_eq, hgot] at hround
    rw [verdict, hanswer, hprobes]
    show w.buffer.fillOn w.source w.budget moved = _
    rw [hround]
    match result with
    | .ok [] =>
      rw [hstays hkept]
      rfl
    | .ok (x :: xs) =>
      show _ = w.next.fillOn (moved + w.kept.length)
      rw [next, hkept, hgot]
      rfl
    | .error e =>
      rw [hstays hkept, hkept]
      -- an interrupted read is made again, which is the next round
      by_cases hagain : e.isInterruption = true
      · simp only [hagain, if_true]
        rw [hwindow, ← Buffer.fillOn_read due hfits (if_neg (ready hprobes))]
        rfl
      · simp [hagain, Except.map]

/-! ## All rounds -/

/-- The bytes that rounds add to the buffer. -/
def added (rounds : List Round) : Bytes := (rounds.map kept).flatten

/-- The bytes that rounds take from the source and do not add. -/
def dropped (rounds : List Round) : Bytes := (rounds.map lost).flatten

/-- A round that goes on takes something from the source. -/
theorem extent_next (h : w.verdict = none) : w.next.source.extent < w.source.extent := by
  refine Source.extent_readOnce fun hended => ?_
  have hanswer : w.answer = .ok [] := hended
  rw [verdict, hanswer] at h
  cases h

theorem kept_of_verdict {halt : Except (Halt BufferError) Unit} (h : w.verdict = some halt) :
    w.kept = [] := by
  unfold verdict at h
  unfold kept given
  split at h
  · rename_i hanswer
    rw [hanswer]
    split <;> rfl
  · split at h
    · rename_i hprobes
      rw [if_pos hprobes]
    · cases h
  · rename_i hanswer
    rw [hanswer]
    split <;> rfl

theorem sound_next (hw : w.buffer.Sound) : w.next.buffer.Sound := by
  have hgiven : w.given.length ≤ w.window := Source.length_readOnce w.window w.source
  show (w.buffer.put w.kept).Sound
  unfold kept
  split
  · rw [Buffer.put_nil]
    exact hw
  · rename_i hprobes
    rw [window, if_neg hprobes] at hgiven
    exact hw.put_window hgiven

variable {rounds : List Round} {last : Round} {stop : Option (Except (Halt BufferError) Unit)}

theorem sound_of_leads (h : loop.Leads r rounds last) (hr : r.buffer.Sound) : last.buffer.Sound := by
  have hkeeps := h.keeps (P := fun r => r.buffer.Sound) (Q := fun w => w.buffer.Sound)
    (fun _ _ hr henter => (entered henter).sound hr) (fun _ hw => sound_next hw) hr
  exact hkeeps.2

/-- A filling goes on from where its rounds have led it. -/
theorem fillOn_of_leads (h : loop.Leads r rounds last) (onward : ∀ w ∈ rounds, w.verdict = none)
    (hr : r.buffer.Sound) (moved : Nat) :
    r.fillOn moved = last.fillOn (moved + (added rounds).length) := by
  induction h generalizing moved with
  | stay r => rfl
  | @round r w last rounds henter later ih =>
    obtain ⟨hw, hrest⟩ := List.forall_mem_cons.1 onward
    have hentered := entered henter
    have hsound := hentered.sound hr
    have hlength : (added (w :: rounds)).length = w.kept.length + (added rounds).length := by
      simp [added]
    rw [hentered.fillOn, fillOn_round hsound hentered.due hentered.room, hw, hlength,
      ← Nat.add_assoc]
    exact ih hrest (sound_next hsound) (moved + w.kept.length)

/-- How a filling ends: its budget is spent, room that is permitted cannot be made, or the verdict
of its last round says. -/
inductive Ends (moved : Nat) (last : Round) :
    Option (Except (Halt BufferError) Unit) → Except (Halt BufferError) Nat → Prop where
  | spent (spent : last.budget = some 0) : Ends moved last none (.ok moved)
  | overflow (left : last.budget ≠ some 0) (overflow : last.buffer.makeRoom 1 = .error .overflow) :
    Ends moved last none (.error .overflow)
  | ended (left : last.budget ≠ some 0) (halt : Except (Halt BufferError) Unit) :
    Ends moved last (some halt) (halt.map fun _ => moved)

/-- What a filling leaves and how it ends, when its rounds are done. -/
theorem fillOn_of_stops (hleads : loop.Leads r rounds last) (hstops : loop.Stops rounds last stop)
    (hr : r.buffer.Sound) (moved : Nat) :
    ∃ outcome, r.fillOn moved = ⟨last.buffer, last.source, outcome⟩ ∧
      Ends (moved + (added rounds).length) last stop outcome := by
  cases hstops with
  | idle onward idle =>
    rw [fillOn_of_leads hleads onward hr]
    rcases fillOn_of_idle idle (moved + (added rounds).length) with
      ⟨hspent, hdone⟩ | ⟨hleft, hover, hdone⟩
    · exact ⟨_, hdone, .spent hspent⟩
    · exact ⟨_, hdone, .overflow hleft hover⟩
  | @ended rounds w halt onward verdict =>
    obtain ⟨q, hfront, henter⟩ := hleads.split
    have hentered := entered henter
    have hkept := kept_of_verdict verdict
    have hadded : added (rounds ++ [w]) = added rounds := by simp [added, hkept]
    have hround := fillOn_round (hentered.sound (sound_of_leads hfront hr)) hentered.due hentered.room
      (moved + (added rounds).length)
    rw [show w.verdict = some halt from verdict] at hround
    rw [fillOn_of_leads hfront onward hr, hentered.fillOn, hround, hadded]
    refine ⟨_, rfl, .ended ?_ halt⟩
    show w.next.budget ≠ some 0
    rw [next_of_kept_nil hkept]
    exact hentered.due

/-- Every filling goes round by round until it stops, and there is at most one round more than the
source has to answer. -/
theorem exists_rounds (r : Round) : ∃ rounds last stop, loop.Leads r rounds last ∧
    loop.Stops rounds last stop ∧ rounds.length ≤ r.source.extent + 1 := by
  refine loop.exists_stops (fun r => r.source.extent + 1) (fun _ _ _ => Nat.succ_pos _) ?_ r
  intro r w henter hverdict
  rw [← (entered henter).source]
  exact Nat.succ_lt_succ (extent_next hverdict)

end Round

end BlobExchange
