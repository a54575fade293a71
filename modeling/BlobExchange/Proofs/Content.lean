import BlobExchange.Proofs.BufferGrowth
import BlobExchange.Session.Reader
import BlobExchange.Session.Writer
/-! # What reaches a buffer and what leaves it

What filling adds (`fill_content`), what a script writes (`run_content`), and what draining
delivers (`drain_delivers`). -/

namespace BlobExchange

/-! ## Sources -/

namespace Source

theorem length_data (steps : List SourceStep) :
    (steps.map SourceStep.bytes).flatten.length = bytesLeft steps := by
  induction steps with
  | nil => rfl
  | cons step rest ih =>
    have hstep : step.bytes.length = step.left := by cases step <;> rfl
    rw [List.map_cons, List.flatten_cons, List.length_append, ih, hstep, bytesLeft_cons]

theorem left_eq (s : Source) : s.left = s.data.length := (length_data s.steps).symm

/-- What a read gives comes off the front of the data; a failure takes nothing. -/
theorem data_answer (most : Nat) (steps : List SourceStep) :
    (steps.map SourceStep.bytes).flatten =
      (match (answer most steps).result with
        | .ok bytes => bytes
        | .error _ => []) ++ ((answer most steps).steps.map SourceStep.bytes).flatten := by
  fun_induction answer most steps with
  | case1 => rfl
  | case2 rest ih => exact ih
  | case3 b bs rest =>
    simp only [List.map_cons, List.flatten_cons, SourceStep.bytes]
    rw [← List.append_assoc, List.take_append_drop]
  | case4 rest => rfl
  | case5 e rest _ later ih => exact ih
  | case6 => rfl

theorem length_answer {most : Nat} {steps : List SourceStep} {bytes : Bytes}
    (h : (answer most steps).result = .ok bytes) : bytes.length ≤ most := by
  fun_induction answer most steps with
  | case1 => cases h; exact Nat.zero_le _
  | case2 rest ih => exact ih h
  | case3 b bs rest =>
    cases h
    rw [List.length_take]
    exact Nat.min_le_left _ _
  | case4 rest => cases h; exact Nat.zero_le _
  | case5 e rest _ later ih => exact ih h
  | case6 => cases h

variable {s after : Source} {window : Nat} {bytes : Bytes} {e : ChannelError}

theorem data_of_read_ok (hr : s.read window = (.ok bytes, after)) : s.data = bytes ++ after.data := by
  have h := data_answer (atMost s.chunk window) s.steps
  rw [show (answer (atMost s.chunk window) s.steps).result = .ok bytes from congrArg Prod.fst hr]
    at h
  have hafter : (s.read window).2 = after := congrArg Prod.snd hr
  rw [← hafter]
  exact h

theorem data_of_read_error (hr : s.read window = (.error e, after)) : s.data = after.data := by
  have h := data_answer (atMost s.chunk window) s.steps
  rw [show (answer (atMost s.chunk window) s.steps).result = .error e from congrArg Prod.fst hr]
    at h
  have hafter : (s.read window).2 = after := congrArg Prod.snd hr
  rw [← hafter]
  exact h

theorem length_of_read (hr : s.read window = (.ok bytes, after)) : bytes.length ≤ window := by
  have hanswer : (answer (atMost s.chunk window) s.steps).result = .ok bytes :=
    congrArg Prod.fst hr
  exact Nat.le_trans (length_answer hanswer) (atMost_le s.chunk window)

theorem spent_of_data (given : Bytes) (h : s.data = given ++ after.data) :
    s.spent after = given := by
  have hlength : s.left - after.left = given.length := by
    rw [left_eq, left_eq, h, List.length_append]
    omega
  unfold spent
  rw [hlength, h, List.take_left]

end Source

/-! ## Growing and filling -/

namespace Buffer

variable {b grown : Buffer}

theorem content_makeRoom {additional : Nat} (hg : b.makeRoom additional = .ok grown) :
    grown.content = b.content := by
  obtain ⟨capacity, rfl, -⟩ := makeRoom_ok hg
  rfl

/-- Room that is permitted is refused only by an overflow. -/
theorem makeRoom_error {additional : Nat} {halt : Halt BufferError}
    (hfits : b.fits additional = true) (hg : b.makeRoom additional = .error halt) :
    halt = .overflow := by
  have hpermitted := fits_iff.1 hfits
  have hsize : Size.add? b.length additional = some (b.length + additional) := by
    rw [Size.add?_eq_some_iff]
    exact ⟨Nat.le_trans hpermitted b.policy.limit_le_largest, rfl⟩
  simp only [makeRoom, hsize, Nat.not_lt.2 hpermitted, if_false] at hg
  split at hg
  · cases hg
  · unfold grow at hg
    rw [GrowthPolicy.target_of_permitted hpermitted] at hg
    split at hg
    · rename_i e heq
      cases heq
    · split at hg
      · cases hg
      · cases hg
        rfl

theorem content_append {bytes : Bytes} (ha : b.append bytes = .ok grown) :
    grown.content = b.content ++ bytes := by
  unfold append at ha
  split at ha
  · rename_i hempty
    cases ha
    rw [List.isEmpty_iff.1 hempty, List.append_nil]
  · split at ha
    · cases ha
    · rename_i room hroom
      cases ha
      rw [content_put, content_makeRoom hroom]

/-- Why a filling stopped, if it was refused for want of capacity. -/
def isRefusal : Except (Halt BufferError) Nat → Bool
  | .error (.failed (.capacityExceeded _ _)) => true
  | _ => false

/-- What a filling keeps is what the source gave, but for the one byte that a refusal costs. -/
structure FillsBy (b : Buffer) (s : Source) (f : Filled) (kept lost : Bytes) : Prop where
  content : f.buffer.content = b.content ++ kept
  data : s.data = kept ++ lost ++ f.source.data
  lost : lost.length = if isRefusal f.outcome then 1 else 0

theorem fillsBy_probe (b : Buffer) (s : Source) (moved : Nat) :
    ∃ lost, FillsBy b s (b.probe s moved) [] lost := by
  unfold probe
  split
  · rename_i rest hr
    exact ⟨[], (List.append_nil _).symm, Source.data_of_read_ok hr, rfl⟩
  · rename_i x xs rest hr
    have hlength := Source.length_of_read hr
    rw [List.length_cons] at hlength
    refine ⟨x :: xs, (List.append_nil _).symm, Source.data_of_read_ok hr, ?_⟩
    rw [List.length_cons]
    show xs.length + 1 = 1
    omega
  · rename_i e rest hr
    exact ⟨[], (List.append_nil _).symm, Source.data_of_read_error hr, rfl⟩

theorem content_widened (hw : (if b.room = 0 then b.makeRoom 1 else .ok b) = .ok grown) :
    grown.content = b.content := by
  split at hw
  · exact content_makeRoom hw
  · cases hw
    rfl

theorem fillsBy_fillOn (b : Buffer) (s : Source) (budget : Option Nat) (moved : Nat) :
    ∃ kept lost, FillsBy b s (b.fillOn s budget moved) kept lost := by
  fun_induction fillOn b s budget moved with
  | case1 => exact ⟨[], [], (List.append_nil _).symm, rfl, rfl⟩
  | case2 b s budget moved hspent hfits halt hwidened =>
    -- what fits is not refused, so only an overflow can keep room from being made
    have hoverflow : halt = .overflow := by
      split at hwidened
      · exact makeRoom_error hfits hwidened
      · cases hwidened
    rw [hoverflow]
    exact ⟨[], [], (List.append_nil _).symm, rfl, rfl⟩
  | case3 b s budget moved hspent hfits grown hwidened rest hr =>
    refine ⟨[], [], ?_, Source.data_of_read_ok hr, rfl⟩
    rw [content_widened hwidened, List.append_nil]
  | case4 b s budget moved hspent hfits grown hwidened x xs rest hr ih =>
    obtain ⟨kept, lost, hcontent, hdata, hlost⟩ := ih
    refine ⟨x :: xs ++ kept, lost, ?_, ?_, hlost⟩
    · rw [hcontent, content_put, content_widened hwidened, List.append_assoc]
    · rw [Source.data_of_read_ok hr, hdata]
      simp only [List.append_assoc]
  | case5 b s budget moved hspent hfits grown hwidened e rest hr =>
    refine ⟨[], [], ?_, Source.data_of_read_error hr, rfl⟩
    rw [content_widened hwidened, List.append_nil]
  | case6 b s budget moved hspent hfull =>
    obtain ⟨lost, hprobe⟩ := fillsBy_probe b s moved
    exact ⟨[], lost, hprobe⟩

/-- A filling adds to the content what its client can tell that it appended. -/
theorem fill_content (b : Buffer) (s : Source) (budget : Option Nat) :
    (b.fill s budget).buffer.content =
      b.content ++ fillAppended s (b.fill s budget).source (blobOutcome (b.fill s budget).outcome)
      := by
  obtain ⟨kept, lost, hcontent, hdata, hlost⟩ := fillsBy_fillOn b s budget 0
  have hspent := Source.spent_of_data (kept ++ lost) hdata
  change (b.fill s budget).buffer.content = b.content ++ kept at hcontent
  change s.spent (b.fill s budget).source = kept ++ lost at hspent
  change lost.length = if isRefusal (b.fill s budget).outcome = true then 1 else 0 at hlost
  rw [hcontent]
  congr 1
  -- only a refusal has read a byte that it did not keep, and the client leaves out that byte
  generalize (b.fill s budget).outcome = outcome at hlost ⊢
  by_cases hrefusal : isRefusal outcome = true
  · rw [if_pos hrefusal] at hlost
    obtain ⟨byte, rfl⟩ := List.length_eq_one_iff.1 hlost
    match outcome, hrefusal with
    | .error (.failed (.capacityExceeded _ _)), _ =>
      show kept = (s.spent (b.fill s budget).source).dropLast
      rw [hspent, List.dropLast_concat]
  · rw [if_neg hrefusal] at hlost
    obtain rfl := List.eq_nil_of_length_eq_zero hlost
    rw [List.append_nil] at hspent
    match outcome, hrefusal with
    | .ok _, _ => exact hspent.symm
    | .error .overflow, _ => exact hspent.symm
    | .error (.failed (.channel _)), _ => exact hspent.symm
    | .error (.failed (.capacityExceeded _ _)), hno => exact absurd rfl hno

/-! ## Scripts -/

theorem content_give {bytes : Bytes} (hg : b.give bytes = .ok grown) :
    grown.content = b.content ++ bytes :=
  content_append (append_of_give hg)

theorem content_giveNoted {bytes : Bytes} {note : Note}
    (hg : b.giveNoted bytes = .ok (grown, note)) : grown.content = b.content ++ bytes := by
  unfold giveNoted at hg
  cases ha : b.give bytes with
  | error halt =>
    rw [ha] at hg
    cases hg
  | ok after =>
    rw [ha] at hg
    cases hg
    exact content_give ha

theorem perform_content {i : Instruction} {note : Note} (hp : b.perform i = .ok (grown, note)) :
    grown.content = b.content ++ i.appended note := by
  cases i with
  | put bytes => exact content_giveNoted hp
  | putByte value => exact content_giveNoted hp
  | putWord value => exact content_giveNoted hp
  | writeAll bytes => exact content_giveNoted hp
  | writeOnce bytes =>
    simp only [perform] at hp
    cases ha : b.give bytes with
    | error halt =>
      rw [ha] at hp
      cases hp
    | ok after =>
      rw [ha] at hp
      cases hp
      rw [content_give ha, Instruction.appended, List.take_length]
  | tryPut bytes =>
    simp only [perform] at hp
    split at hp
    · rename_i after ha
      cases hp
      exact content_append ha
    · cases hp
      exact (List.append_nil _).symm
    · cases hp
  | flush =>
    cases hp
    exact (List.append_nil _).symm
  | fail e => cases hp

theorem run_content (b : Buffer) (script : List Instruction) :
    (b.run script).buffer.content = b.content ++ scriptAppended script (b.run script).notes := by
  induction script generalizing b with
  | nil => exact (List.append_nil _).symm
  | cons i rest ih =>
    cases hp : b.perform i with
    | error halt =>
      simp only [run, hp]
      exact (List.append_nil _).symm
    | ok performed =>
      obtain ⟨after, note⟩ := performed
      simp only [run, hp]
      rw [ih after, perform_content hp, List.append_assoc]
      rfl

end Buffer

/-! ## Draining -/

namespace Sink

/-- A fair sink takes the front of what it is offered, as much as it reports. -/
def TakesFairly (chunk : Bytes) : Except ChannelError Nat → (taken : Bytes) → Prop
  | .ok count, taken => count ≤ chunk.length ∧ taken = chunk.take count
  | .error _, taken => taken = []

theorem answer_fair (most : Option Nat) (chunk : Bytes) (steps : List SinkStep) :
    ∃ used, steps = used ++ (answer most chunk steps).steps ∧
      (used.all SinkStep.isFair = true →
        TakesFairly chunk (answer most chunk steps).result (answer most chunk steps).taken) := by
  fun_induction answer most chunk steps with
  | case1 count => exact ⟨[], rfl, fun _ => ⟨atMost_le most chunk.length, rfl⟩⟩
  | case2 n rest => exact ⟨[.take n], rfl, fun _ => ⟨Nat.min_le_right _ _, rfl⟩⟩
  | case3 extra rest =>
    refine ⟨[.over extra], rfl, fun hfair => ?_⟩
    have hextra : extra = 0 := by simpa [SinkStep.isFair] using hfair
    subst hextra
    exact ⟨Nat.le_refl _, (List.take_length).symm⟩
  | case4 e rest _ later ih =>
    obtain ⟨used, hsteps, htakes⟩ := ih
    refine ⟨.failure e :: used, congrArg (SinkStep.failure e :: ·) hsteps, fun hfair => ?_⟩
    exact htakes hfair
  | case5 e rest => exact ⟨[.failure e], rfl, fun _ => rfl⟩

theorem write_fair {chunk : Bytes} {s rest : Sink} {result : Except ChannelError Nat}
    (hw : s.write chunk = (result, rest)) :
    ∃ used taken, s.steps = used ++ rest.steps ∧ rest.stored = s.stored ++ taken ∧
      (used.all SinkStep.isFair = true → TakesFairly chunk result taken) := by
  obtain ⟨used, hsteps, htakes⟩ := answer_fair s.most chunk s.steps
  cases hw
  exact ⟨used, (answer s.most chunk s.steps).taken, hsteps, rfl, htakes⟩

/-- The steps that a sink has used up are those in front of what it has left. -/
theorem isFairTo_of_append {s after : Sink} {used : List SinkStep}
    (h : s.steps = used ++ after.steps) : s.isFairTo after = used.all SinkStep.isFair := by
  have hlength : s.steps.length - after.steps.length = used.length := by
    rw [h, List.length_append]
    omega
  unfold isFairTo
  rw [hlength, h, List.take_left]

end Sink

namespace Cursor

/-- A drain moves the cursor on, within the content, and the sink gets what lies between. -/
structure Delivers (c : Cursor) (b : Buffer) (s : Sink) (d : Drained) : Prop where
  onward : c.position ≤ d.cursor.position
  within : d.cursor.position ≤ b.content.length
  stored : d.sink.stored =
    s.stored ++ (b.content.drop c.position).take (d.cursor.position - c.position)

theorem delivers_nothing {c : Cursor} {b : Buffer} {s rest : Sink}
    {outcome : Except BufferError Nat} (hc : c.position ≤ b.content.length)
    (hstored : rest.stored = s.stored) : Delivers c b s ⟨c, rest, outcome⟩ := by
  refine ⟨Nat.le_refl _, hc, ?_⟩
  show rest.stored = s.stored ++ (b.content.drop c.position).take (c.position - c.position)
  rw [hstored, Nat.sub_self, List.take_zero, List.append_nil]

theorem delivers_drainOn (c : Cursor) (b : Buffer) (s : Sink) (target moved : Nat) :
    ∃ used, s.steps = used ++ (c.drainOn b s target moved).sink.steps ∧
      (used.all SinkStep.isFair = true → c.position ≤ b.content.length →
        Delivers c b s (c.drainOn b s target moved)) := by
  fun_induction drainOn c b s target moved with
  | case1 c s moved hmore rest hw =>
    obtain ⟨used, taken, hsteps, hstored, htakes⟩ := Sink.write_fair hw
    refine ⟨used, hsteps, fun hfair hc => delivers_nothing hc ?_⟩
    rw [hstored, (htakes hfair).2, List.take_zero, List.append_nil]
  | case2 c s moved hmore n rest hw ih =>
    obtain ⟨used, taken, hsteps, hstored, htakes⟩ := Sink.write_fair hw
    obtain ⟨later, hlater, hrest⟩ := ih
    refine ⟨used ++ later, ?_, fun hfair hc => ?_⟩
    · rw [hsteps, hlater, List.append_assoc]
    · rw [List.all_append, Bool.and_eq_true] at hfair
      obtain ⟨hcount, htaken⟩ := htakes hfair.1
      have hwhole : n + 1 ≤ b.content.length - c.position := by
        rw [List.length_take, Buffer.bytesFrom, List.length_drop] at hcount
        omega
      have hchunk : taken = (b.content.drop c.position).take (n + 1) := by
        rw [List.length_take] at hcount
        rw [htaken, List.take_take, Buffer.bytesFrom]
        congr 1
        omega
      obtain ⟨honward, hwithin, hdelivered⟩ := hrest hfair.2 (by show c.position + (n + 1) ≤ _; omega)
      change c.position + (n + 1) ≤ _ at honward
      refine ⟨by omega, hwithin, ?_⟩
      rw [hdelivered, hstored, hchunk, List.append_assoc]
      congr 1
      -- the first write delivered the first `n + 1` bytes, the others those behind them
      show (b.content.drop c.position).take (n + 1) ++
        (b.content.drop (c.position + (n + 1))).take (_ - (c.position + (n + 1))) = _
      rw [← List.drop_drop, ← List.take_add]
      congr 1
      omega
  | case3 c s moved hmore e rest hw =>
    obtain ⟨used, taken, hsteps, hstored, htakes⟩ := Sink.write_fair hw
    refine ⟨used, hsteps, fun hfair hc => delivers_nothing hc ?_⟩
    rw [hstored, htakes hfair, List.append_nil]
  | case4 c s moved hmore => exact ⟨[], rfl, fun _ hc => delivers_nothing hc rfl⟩

/-- A drain into a sink that stays fair delivers what lies between the two positions. -/
theorem drain_delivers (c : Cursor) (b : Buffer) (s : Sink) (limit : Option Nat)
    (hc : c.position ≤ b.content.length)
    (hfair : s.isFairTo (c.drain b s limit).sink = true) : Delivers c b s (c.drain b s limit) := by
  obtain ⟨used, hsteps, hdelivers⟩ := delivers_drainOn c b s (atMost limit (c.ahead b)) 0
  refine hdelivers ?_ hc
  rw [← Sink.isFairTo_of_append hsteps]
  exact hfair

end Cursor

end BlobExchange
