import BlobExchange.Proofs.BufferLifetime
/-! # Ways of appending

Writing decides before it writes, filling goes from window to window until a byte too many shows
up. They accept the same bytes (`ways_of_appending_agree`). -/

namespace BlobExchange

/-! ## Sources that deliver -/

/-- Steps that hold the bytes in whatever fragments, interrupted at will, and then the end. -/
inductive SourceStep.Deliver : List SourceStep → Bytes → Prop where
  | spent : Deliver [] []
  | ended (rest : List SourceStep) : Deliver (.ended :: rest) []
  | data (fragment : Bytes) {rest : List SourceStep} {bytes : Bytes} (h : Deliver rest bytes) :
    Deliver (.data fragment :: rest) (fragment ++ bytes)
  | again {e : ChannelError} (interrupted : e.isInterruption = true) {rest : List SourceStep}
    {bytes : Bytes} (h : Deliver rest bytes) : Deliver (.failure e :: rest) bytes

namespace Source

/-- A source that gives just these bytes until it ends. -/
structure Delivers (s : Source) (bytes : Bytes) : Prop where
  steps : SourceStep.Deliver s.steps bytes
  chunk : s.chunk ≠ some 0

variable {s : Source} {bytes : Bytes} {window : Nat}

theorem answer_deliver {most : Nat} {steps : List SourceStep} (h : SourceStep.Deliver steps bytes)
    (hmost : 0 < most) :
    bytes = [] ∧ (answer most steps).result = .ok [] ∨
      ∃ x xs later, bytes = x :: xs ++ later ∧ (answer most steps).result = .ok (x :: xs) ∧
        SourceStep.Deliver (answer most steps).steps later := by
  induction h with
  | spent => exact Or.inl ⟨rfl, rfl⟩
  | ended rest => exact Or.inl ⟨rfl, rfl⟩
  | @data fragment rest bytes h ih =>
    cases fragment with
    | nil => exact ih
    | cons x xs =>
      obtain ⟨n, rfl⟩ := Nat.exists_eq_succ_of_ne_zero (Nat.pos_iff_ne_zero.1 hmost)
      refine Or.inr ⟨x, xs.take n, xs.drop n ++ bytes, ?_, rfl, .data (xs.drop n) h⟩
      rw [List.cons_append, List.cons_append, ← List.append_assoc, List.take_append_drop]
  | again interrupted h ih =>
    rw [answer, if_pos interrupted]
    exact ih

/-- A read gets the next bytes, or there are none left. -/
theorem read_delivers (h : s.Delivers bytes) (hwindow : 0 < window) :
    bytes = [] ∧ (s.read window).1 = .ok [] ∨
      ∃ x xs later, bytes = x :: xs ++ later ∧ (s.read window).1 = .ok (x :: xs) ∧
        (s.read window).2.Delivers later := by
  have hmost : 0 < atMost s.chunk window := by
    cases hchunk : s.chunk with
    | none => exact hwindow
    | some n =>
      have hn : n ≠ 0 := fun hzero => h.chunk (hchunk.trans (congrArg some hzero))
      rw [atMost_some]
      omega
  rcases answer_deliver h.steps hmost with hnone | ⟨x, xs, later, hbytes, hresult, hlater⟩
  · exact Or.inl hnone
  · exact Or.inr ⟨x, xs, later, hbytes, hresult, hlater, h.chunk⟩

end Source

namespace Buffer

variable {b : Buffer} {s : Source} {bytes : Bytes}

/-! ## All at once and window by window -/

/-- What a filling does with the bytes of a source: it appends those for which there is room, and
fails if there are more. -/
theorem fillOn_delivers (hs : s.Delivers bytes) (hb : b.length ≤ b.policy.limit) (moved : Nat)
    (hno : (b.fillOn s none moved).outcome ≠ .error .overflow) :
    (b.fillOn s none moved).buffer.content =
        b.content ++ bytes.take (b.policy.limit - b.length) ∧
      (b.fillOn s none moved).outcome =
        if b.length + bytes.length ≤ b.policy.limit then .ok (moved + bytes.length)
        else .error (.failed (.capacityExceeded (Size.addHeld b.policy.limit 1) b.policy.limit)) := by
  generalize hbudget : (none : Option Nat) = budget at hno ⊢
  fun_induction fillOn b s budget moved generalizing bytes with
  | case1 => cases hbudget
  | case2 b s budget moved hspent hfits halt hwidened =>
    refine absurd (congrArg Except.error ?_) hno
    split at hwidened
    · exact makeRoom_error hfits hwidened
    · cases hwidened
  | case3 b s budget moved hspent hfits grown hwidened rest hr =>
    have hwindow := window_pos hspent hfits hwidened
    rcases Source.read_delivers hs hwindow with ⟨rfl, -⟩ | ⟨x, xs, later, -, hsome, -⟩
    · rw [content_widened hwidened]
      simp [hb]
    · rw [hr] at hsome
      cases hsome
  | case4 b s budget moved hspent hfits grown hwidened x xs rest hr ih =>
    have hwindow := window_pos hspent hfits hwidened
    rcases Source.read_delivers hs hwindow with ⟨-, hnone⟩ | ⟨y, ys, later, rfl, hsome, hlater⟩
    · rw [hr] at hnone
      cases hnone
    · rw [hr] at hsome hlater
      cases hsome
      -- the window was within what is permitted, so the rest is filled as if it came by itself
      subst hbudget
      have hpolicy := (Grows.widened hwidened).policy
      have hlength : grown.length = b.length := congrArg List.length (content_widened hwidened)
      have hread : (x :: xs).length ≤ b.policy.limit - b.length := by
        have hmost := Source.length_of_read hr
        unfold window at hmost
        rw [hpolicy, hlength] at hmost
        omega
      have hroom : (grown.put (x :: xs)).length ≤ (grown.put (x :: xs)).policy.limit := by
        rw [length_put, policy_put, hpolicy, hlength]
        omega
      obtain ⟨hcontent, houtcome⟩ := ih hlater hroom rfl hno
      rw [hcontent, houtcome, length_put, content_put, policy_put, hpolicy, hlength,
        content_widened hwidened, List.take_append, List.take_of_length_le hread]
      constructor
      · rw [List.append_assoc, Nat.sub_sub]
      · rw [List.length_append, Nat.add_assoc b.length, Nat.add_assoc moved]
  | case5 b s budget moved hspent hfits grown hwidened e rest hr =>
    have hwindow := window_pos hspent hfits hwidened
    rcases Source.read_delivers hs hwindow with ⟨-, hnone⟩ | ⟨x, xs, later, -, hsome, -⟩
    · rw [hr] at hnone
      cases hnone
    · rw [hr] at hsome
      cases hsome
  | case6 b s budget moved hspent hfull =>
    -- the buffer is at its limit, and the probe tells whether the source has more
    rw [fits_iff] at hfull
    have hlength : b.length = b.policy.limit := by omega
    have hread := Source.read_delivers hs Nat.one_pos
    unfold probe
    cases hr : s.read 1 with
    | mk result rest =>
      rw [hr] at hread
      rcases hread with ⟨rfl, rfl⟩ | ⟨x, xs, later, rfl, rfl, -⟩
      · simp [hb]
      · have hmore : ¬ b.length + (x :: xs ++ later).length ≤ b.policy.limit := by
          rw [List.length_append, List.length_cons]
          omega
        rw [if_neg hmore, hlength, Nat.sub_self, List.take_zero, List.append_nil]
        exact ⟨rfl, rfl⟩

theorem append_of_ne_nil (h : bytes ≠ []) :
    b.append bytes = (b.makeRoom bytes.length).map (·.put bytes) := by
  unfold append
  rw [if_neg (by simpa using h)]
  cases b.makeRoom bytes.length <;> rfl

theorem append_iff (hb : b.length ≤ b.policy.limit) (hno : b.append bytes ≠ .error .overflow) :
    (∃ after, b.append bytes = .ok after) ↔ b.fits bytes.length = true := by
  by_cases hnil : bytes = []
  · subst hnil
    have hfits : b.fits ([] : Bytes).length = true := fits_iff.2 hb
    exact ⟨fun _ => hfits, fun _ => ⟨b, rfl⟩⟩
  · rw [append_of_ne_nil hnil] at hno ⊢
    constructor
    · rintro ⟨after, h⟩
      cases hroom : b.makeRoom bytes.length with
      | error halt =>
        rw [hroom] at h
        cases h
      | ok grown => exact fits_of_makeRoom hroom
    · intro hfits
      cases hroom : b.makeRoom bytes.length with
      | error halt =>
        rw [hroom, makeRoom_error hfits hroom] at hno
        exact absurd rfl hno
      | ok grown => exact ⟨grown.put bytes, rfl⟩

/-- A script that only writes does what appending does. -/
theorem run_writeAll (b : Buffer) (bytes : Bytes) :
    (b.run [.writeAll bytes]).buffer = b.after (.append bytes) ∧
      ((b.run [.writeAll bytes]).outcome = .ok () ↔ ∃ after, b.append bytes = .ok after) := by
  cases happended : b.append bytes with
  | ok grown => simp [run, perform, giveNoted, give, after, happended, Except.map, Except.toOption]
  | error halt => simp [run, perform, giveNoted, give, after, happended, Except.map, Except.toOption]

/-! ## Taking up a filling -/

/-- Byte by byte, a filling whose budget is spent is gone on with by the next one. -/
theorem fillOn_resumed {t : Source} {a c moved : Nat} (hsteps : t.steps = s.steps)
    (hchunk : t.chunk = s.chunk) (hsingle : ∃ n, s.chunk = some n ∧ n ≤ 1)
    (h : (b.fillOn s (some a) moved).outcome = .ok (moved + a)) :
    SameFilling
      ((b.fillOn s (some a) moved).buffer.fillOn (b.fillOn s (some a) moved).source (some c)
        (moved + a))
      (b.fillOn t (some (a + c)) moved) := by
  generalize hbudget : some a = budget at h ⊢
  fun_induction fillOn b s budget moved generalizing a t with
  | case1 b s moved =>
    obtain rfl : a = 0 := Option.some.inj hbudget
    obtain ⟨n, hn, hle⟩ := hsingle
    rw [Nat.zero_add, Nat.add_zero]
    apply fillOn_singly b s (some c) moved hsteps
    rw [hchunk, hn, atMost_some, Nat.min_eq_left hle]
  | case2 => cases h
  | case3 b s budget moved hspent hfits grown hwidened rest hr =>
    have hnone : a = 0 := by
      have hmoved := Except.ok.inj h
      omega
    exact absurd (hbudget.symm.trans (congrArg some hnone)) hspent
  | case4 b s budget moved hspent hfits grown hwidened x xs rest hr ih =>
    subst hbudget
    have hspent' : some (a + c) ≠ some 0 := by
      simp only [ne_eq, Option.some.injEq] at hspent ⊢
      omega
    have hread : (x :: xs).length ≤ a := by
      have hmost := Source.length_of_read hr
      unfold window at hmost
      rw [atMost_some] at hmost
      omega
    -- the source gives the same for the larger budget, as it gives one byte at a time
    obtain ⟨hresult, hleft⟩ := Source.read_single hsteps hchunk hsingle
      (window_pos hspent hfits hwidened) (window_pos hspent' hfits hwidened)
    have hkept := Source.chunk_read t (grown.window (some (a + c)))
    have hrest := Source.chunk_read s (grown.window (some a))
    rw [fillOn_read hspent' hfits hwidened]
    rw [hr] at hresult hleft hrest
    generalize t.read (grown.window (some (a + c))) = q at hresult hleft hkept ⊢
    obtain ⟨_, rest'⟩ := q
    cases hresult
    have hmoved : moved + (x :: xs).length + (a - (x :: xs).length) = moved + a := by omega
    have hbudget : a + c - (x :: xs).length = a - (x :: xs).length + c := by omega
    have hnext := ih (a := a - (x :: xs).length) hleft (hkept.trans (hchunk.trans hrest.symm))
      (hrest ▸ hsingle) rfl (hmoved ▸ h)
    rw [hmoved] at hnext
    simp only [Option.map_some, hbudget]
    exact hnext
  | case5 => cases h
  | case6 b s budget moved hspent hfull =>
    refine absurd (hbudget.symm.trans (congrArg some ?_)) hspent
    unfold probe at h
    split at h
    · have hmoved := Except.ok.inj h
      omega
    · cases h
    · cases h

theorem fillOn_counted (b : Buffer) (s : Source) (budget : Option Nat) (moved before : Nat) :
    b.fillOn s budget (before + moved) =
      { b.fillOn s budget moved with
        outcome := (b.fillOn s budget moved).outcome.map (before + ·) } := by
  fun_induction fillOn b s budget moved with
  | case1 b s moved =>
    rw [fillOn_spent]
    rfl
  | case2 b s budget moved hspent hfits halt hwidened =>
    rw [fillOn_halt hspent hfits hwidened]
    rfl
  | case3 b s budget moved hspent hfits grown hwidened rest hr =>
    rw [fillOn_read hspent hfits hwidened, hr]
    rfl
  | case4 b s budget moved hspent hfits grown hwidened x xs rest hr ih =>
    rw [fillOn_read hspent hfits hwidened, hr, ← ih, ← Nat.add_assoc]
  | case5 b s budget moved hspent hfits grown hwidened e rest hr =>
    rw [fillOn_read hspent hfits hwidened, hr]
    rfl
  | case6 b s budget moved hspent hfull =>
    rw [fillOn_full hspent hfull]
    unfold probe
    split <;> rfl

end Buffer

/-- A filling that is taken up again where it stopped. -/
def Filled.resume (f : Filled) (budget : Option Nat) : Filled := f.buffer.fill f.source budget

/-- The later of two fillings leaves what the whole one leaves, and ends as it does; the whole one
counts the bytes that the first one moved before. -/
structure Filled.Completes (before : Nat) (later whole : Filled) : Prop where
  buffer : later.buffer = whole.buffer
  source : later.source.unasked = whole.source.unasked
  outcome : later.outcome.map (before + ·) = whole.outcome

namespace Buffer

variable {b : Buffer} {s : Source} {bytes : Bytes}

/-- When its budget is spent, a filling can be taken up with another, as if it had had both. -/
theorem fill_resumed {a : Nat} (c : Nat) (h : (b.fill s (some a)).outcome = .ok a) :
    Filled.Completes a ((b.fill s (some a)).resume (some c)) (b.fill s (some (a + c))) := by
  have hfirst := fillOn_singly b s (some a) 0 (t := s.singly) rfl rfl
  have hwhole := fillOn_singly b s (some (a + c)) 0 (t := s.singly) rfl rfl
  have hspent : (b.fillOn s.singly (some a) 0).outcome = .ok (0 + a) := by
    rw [hfirst.outcome, Nat.zero_add]
    exact h
  have hresumed := fillOn_resumed (c := c) (t := s.singly) rfl rfl ⟨_, rfl, atMost_le _ _⟩ hspent
  have hlater := fillOn_singly (b.fill s (some a)).buffer (b.fill s (some a)).source (some c) 0
    (t := (b.fillOn s.singly (some a) 0).source) hfirst.steps
    (by rw [chunk_fillOn, fill, chunk_fillOn]; rfl)
  rw [hfirst.buffer, Nat.add_comm 0 a, fillOn_counted] at hresumed
  refine ⟨?_, Source.unasked_eq_iff.2 ⟨?_, ?_⟩, ?_⟩
  · exact hlater.buffer.symm.trans (hresumed.buffer.symm.trans hwhole.buffer)
  · exact hlater.steps.symm.trans (hresumed.steps.symm.trans hwhole.steps)
  · simp only [Filled.resume, fill, chunk_fillOn]
  · calc ((b.fill s (some a)).resume (some c)).outcome.map (a + ·)
        = (b.fillOn s.singly (some (a + c)) 0).outcome := by
          rw [hresumed.outcome]
          exact congrArg _ hlater.outcome.symm
      _ = (b.fill s (some (a + c))).outcome := hwhole.outcome

/-- Of the three ways to append bytes each takes just those that fit. What is taken is appended. If
the bytes do not fit, only a filling changes the buffer: it appends as many as there is room for. -/
structure AppendsAlike (b : Buffer) (bytes : Bytes) (s : Source) : Prop where
  append : (∃ after, b.append bytes = .ok after) ↔ b.fits bytes.length = true
  run : (b.run [.writeAll bytes]).outcome = .ok () ↔ b.fits bytes.length = true
  fill : (b.fill s none).outcome = .ok bytes.length ↔ b.fits bytes.length = true
  taken : b.fits bytes.length = true →
    (b.after (.append bytes)).content = b.content ++ bytes ∧
      (b.run [.writeAll bytes]).buffer.content = b.content ++ bytes ∧
        (b.fill s none).buffer.content = b.content ++ bytes
  untaken : b.fits bytes.length = false →
    b.after (.append bytes) = b ∧ (b.run [.writeAll bytes]).buffer = b ∧
      (b.fill s none).buffer.content = b.content ++ bytes.take (b.policy.limit - b.length)

theorem appendsAlike (hb : b.length ≤ b.policy.limit) (hs : s.Delivers bytes)
    (happend : b.append bytes ≠ .error .overflow)
    (hfill : (b.fill s none).outcome ≠ .error .overflow) : b.AppendsAlike bytes s := by
  have happendIff := append_iff hb happend
  obtain ⟨hrun, hrunIff⟩ := run_writeAll b bytes
  obtain ⟨hcontent, houtcome⟩ := fillOn_delivers hs hb 0 hfill
  rw [Nat.zero_add] at houtcome
  refine ⟨happendIff, hrunIff.trans happendIff, ?_, ?_, ?_⟩
  · show (b.fillOn s none 0).outcome = .ok bytes.length ↔ b.fits bytes.length = true
    rw [houtcome, fits_iff]
    by_cases hroom : b.length + bytes.length ≤ b.policy.limit <;> simp [hroom]
  · intro hfits
    obtain ⟨grown, hgrown⟩ := happendIff.2 hfits
    have hafter : b.after (.append bytes) = grown := by simp [after, hgrown, Except.toOption]
    have hroom : bytes.length ≤ b.policy.limit - b.length := by
      rw [fits_iff] at hfits
      omega
    rw [hrun, hafter, content_append hgrown]
    refine ⟨rfl, rfl, hcontent.trans ?_⟩
    rw [List.take_of_length_le hroom]
  · intro hno
    have hafter : b.after (.append bytes) = b := by
      cases happended : b.append bytes with
      | error halt => simp [after, happended, Except.toOption]
      | ok grown =>
        rw [happendIff.1 ⟨grown, happended⟩] at hno
        cases hno
    rw [hrun]
    exact ⟨hafter, hafter, hcontent⟩

/-- However bytes are appended to a buffer, the same bytes are taken, and taken whole; and it makes
no difference where a budget interrupts a filling. -/
theorem ways_of_appending_agree {b : Buffer} (hb : b.Reachable) :
    (∀ bytes s, s.Delivers bytes → b.append bytes ≠ .error .overflow →
      (b.fill s none).outcome ≠ .error .overflow → b.AppendsAlike bytes s) ∧
      ∀ s a c, (b.fill s (some a)).outcome = .ok a →
        Filled.Completes a ((b.fill s (some a)).resume (some c)) (b.fill s (some (a + c))) :=
  ⟨fun _ _ hs happend hfill => appendsAlike hb.sound.permitted hs happend hfill,
    fun _ _ c h => fill_resumed c h⟩

/-- With room for two bytes, two are taken in two fragments, three are not, and a filling of two can
be had in two fillings of one. -/
theorem two_taken_and_three_refused :
    let b : Buffer := ⟨[], 2, ⟨Binary64.two, some 2⟩⟩
    let two := Source.ofSteps [.data [1], .failure (.bare .interrupted), .data [2]] none
    let three := Source.ofSteps [.data [1, 2, 3], .ended] (some 2)
    b.Reachable ∧ (b.fits 2 = true ∧ b.AppendsAlike [1, 2] two) ∧
      (b.fits 3 = false ∧ b.AppendsAlike [1, 2, 3] three) ∧
        Filled.Completes 1 ((b.fill two (some 1)).resume (some 1)) (b.fill two (some 2)) := by
  intro b two three
  have hb : b.Reachable := .created (rfl : create 2 ⟨Binary64.two, some 2⟩ = .ok b)
  obtain ⟨halike, hcompletes⟩ := ways_of_appending_agree hb
  have htwo : two.Delivers [1, 2] := ⟨.data [1] (.again rfl (.data [2] .spent)), nofun⟩
  have hthree : three.Delivers [1, 2, 3] := ⟨.data [1, 2, 3] (.ended []), nofun⟩
  have hno : ∀ {α : Type} {r : Except (Halt BufferError) α}, r.toOption.isSome = true →
      r ≠ .error .overflow := by
    rintro α r h rfl
    cases h
  have hrefused : b.append [1, 2, 3] ≠ .error .overflow := by
    intro h
    cases h
  have hfilled : (b.fill three none).outcome ≠ .error .overflow := by
    intro h
    have hrefusal : isRefusal (b.fill three none).outcome = true := by decide +kernel
    rw [h] at hrefusal
    cases hrefusal
  have hone : (b.fill two (some 1)).outcome = .ok 1 := by
    have hvalue : (b.fill two (some 1)).outcome.toOption = some 1 := by decide +kernel
    cases houtcome : (b.fill two (some 1)).outcome with
    | error halt =>
      rw [houtcome] at hvalue
      cases hvalue
    | ok n =>
      rw [houtcome] at hvalue
      rw [Option.some.inj hvalue]
  exact ⟨hb, ⟨by decide, halike _ _ htwo (hno (by decide +kernel)) (hno (by decide +kernel))⟩,
    ⟨by decide, halike _ _ hthree hrefused hfilled⟩, hcompletes two 1 1 hone⟩

end Buffer

end BlobExchange
