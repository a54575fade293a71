import BlobExchange.Proofs.BufferGrowth
import BlobExchange.Proofs.Content
/-! # Buffers that differ in capacity only

Twins are filled in step byte by byte (`fillOn_twin`), and a filling does what it would do byte by
byte (`fillOn_singly`). -/

namespace BlobExchange

/-! ## Reading byte by byte -/

@[simp] theorem atMost_none (n : Nat) : atMost none n = n := rfl

@[simp] theorem atMost_some (m n : Nat) : atMost (some m) n = min m n := rfl

namespace Source

/-- The source without the record of the windows that it was asked for. -/
def unasked (s : Source) : Source := { s with asked := [] }

/-- The source that gives its bytes one at a time. -/
def singly (s : Source) : Source := { s with chunk := some (atMost s.chunk 1) }

variable {s t : Source} {most window : Nat} {steps : List SourceStep} {x : UInt8} {xs : Bytes}

theorem unasked_eq_iff : s.unasked = t.unasked ↔ s.steps = t.steps ∧ s.chunk = t.chunk := by
  simp [unasked]

theorem chunk_read (s : Source) (window : Nat) : (s.read window).2.chunk = s.chunk := rfl

/-- The first of several bytes comes alone if only one is asked for, and the others stay. -/
theorem answer_one (h : (answer most steps).result = .ok (x :: xs)) :
    ∃ later rest, (answer most steps).steps = .data later :: rest ∧
      (answer 1 steps).result = .ok [x] ∧
      (answer 1 steps).steps = .data (xs ++ later) :: rest := by
  fun_induction answer most steps with
  | case1 => cases h
  | case2 rest ih => exact ih h
  | case3 b bs rest =>
    obtain ⟨n, rfl⟩ : ∃ n, most = n + 1 := by
      apply Nat.exists_eq_succ_of_ne_zero
      rintro rfl
      cases h
    simp only [List.take_succ_cons, Except.ok.injEq, List.cons.injEq] at h
    obtain ⟨rfl, rfl⟩ := h
    refine ⟨bs.drop n, rest, rfl, rfl, ?_⟩
    rw [List.take_append_drop]
    rfl
  | case4 rest => cases h
  | case5 e rest hagain later ih =>
    obtain ⟨left, rest', hsteps, hresult, hone⟩ := ih h
    refine ⟨left, rest', hsteps, ?_⟩
    rw [answer, if_pos hagain]
    exact ⟨hresult, hone⟩
  | case6 => cases h

/-- An answer without bytes does not depend on how many were asked for, if any were. -/
theorem answer_none (hmost : 0 < most) (h : ∀ x xs, (answer most steps).result ≠ .ok (x :: xs)) :
    (answer 1 steps).result = (answer most steps).result ∧
      (answer 1 steps).steps = (answer most steps).steps := by
  fun_induction answer most steps with
  | case1 => exact ⟨rfl, rfl⟩
  | case2 rest ih => exact ih h
  | case3 b bs rest =>
    obtain ⟨n, rfl⟩ := Nat.exists_eq_succ_of_ne_zero (Nat.pos_iff_ne_zero.1 hmost)
    exact absurd rfl (h b (bs.take n))
  | case4 rest => exact ⟨rfl, rfl⟩
  | case5 e rest hagain later ih =>
    rw [answer, if_pos hagain]
    exact ih h
  | case6 e rest hlasting =>
    rw [answer, if_neg hlasting]
    exact ⟨rfl, rfl⟩

/-- A source that gives its bytes one at a time answers like `s` if `s` gives none. -/
theorem read_none (hsteps : t.steps = s.steps) (hchunk : t.chunk = some (atMost s.chunk 1))
    (hwindow : 0 < window) (h : ∀ x xs, (s.read window).1 ≠ .ok (x :: xs)) :
    (t.read window).1 = (s.read window).1 ∧ (t.read window).2.steps = (s.read window).2.steps := by
  have hsame : atMost t.chunk window = atMost s.chunk window ∨
      atMost t.chunk window = 1 ∧ 0 < atMost s.chunk window := by
    rw [hchunk]
    cases s.chunk <;> simp only [atMost_none, atMost_some] <;> omega
  unfold read at h ⊢
  rw [hsteps]
  rcases hsame with hsame | ⟨hone, hmost⟩
  · rw [hsame]
    exact ⟨rfl, rfl⟩
  · rw [hone]
    exact answer_none hmost h

/-- If `s` gives bytes, it gives the first of them, and the others are next. -/
theorem read_one {rest : Source} (hsteps : t.steps = s.steps)
    (hchunk : t.chunk = some (atMost s.chunk 1)) (hr : s.read window = (.ok (x :: xs), rest)) :
    ∃ later tail next, rest.steps = .data later :: tail ∧ t.read window = (.ok [x], next) ∧
      next.steps = .data (xs ++ later) :: tail ∧ next.chunk = some 1 ∧ atMost rest.chunk 1 = 1 := by
  have hanswer : (answer (atMost s.chunk window) s.steps).result = .ok (x :: xs) :=
    congrArg Prod.fst hr
  have hrest : (s.read window).2 = rest := congrArg Prod.snd hr
  obtain ⟨later, tail, hafter, hfirst, hothers⟩ := answer_one hanswer
  have hlength := length_answer hanswer
  rw [List.length_cons] at hlength
  have hone : atMost s.chunk 1 = 1 ∧ atMost t.chunk window = 1 := by
    rw [hchunk]
    cases hc : s.chunk with
    | none =>
      rw [hc, atMost_none] at hlength
      refine ⟨rfl, ?_⟩
      simp only [atMost_none, atMost_some]
      omega
    | some n =>
      rw [hc, atMost_some] at hlength
      simp only [atMost_some]
      omega
  refine ⟨later, tail, (t.read window).2, ?_, Prod.ext ?_ rfl, ?_, ?_, ?_⟩
  · rw [← hrest]
    exact hafter
  · show (answer (atMost t.chunk window) t.steps).result = _
    rw [hone.2, hsteps, hfirst]
  · show (answer (atMost t.chunk window) t.steps).steps = _
    rw [hone.2, hsteps, hothers]
  · rw [chunk_read, hchunk, hone.1]
  · rw [← hrest, chunk_read, hone.1]

/-- A source that gives single bytes answers all windows alike. -/
theorem read_single {other : Nat} (hsteps : t.steps = s.steps) (hchunk : t.chunk = s.chunk)
    (hsingle : ∃ n, s.chunk = some n ∧ n ≤ 1) (hwindow : 0 < window) (hother : 0 < other) :
    (t.read other).1 = (s.read window).1 ∧ (t.read other).2.steps = (s.read window).2.steps := by
  obtain ⟨n, hn, hle⟩ := hsingle
  have hmost : atMost t.chunk other = atMost s.chunk window := by
    rw [hchunk, hn, atMost_some, atMost_some]
    omega
  unfold read
  rw [hmost, hsteps]
  exact ⟨rfl, rfl⟩

end Source

namespace Buffer

/-! ## One round of a filling -/

section Round

variable {b grown : Buffer} {s : Source} {budget : Option Nat} {moved : Nat}

theorem fillOn_spent (b : Buffer) (s : Source) (moved : Nat) :
    b.fillOn s (some 0) moved = ⟨b, s, .ok moved⟩ := by
  rw [fillOn, if_pos rfl]

theorem fillOn_full (hbudget : budget ≠ some 0) (hfull : ¬ b.fits 1 = true) :
    b.fillOn s budget moved = b.probe s moved := by
  rw [fillOn, if_neg hbudget, if_neg hfull]

theorem fillOn_halt {halt : Halt BufferError} (hbudget : budget ≠ some 0) (hfits : b.fits 1 = true)
    (hwidened : (if b.room = 0 then b.makeRoom 1 else .ok b) = .error halt) :
    b.fillOn s budget moved = ⟨b, s, .error halt⟩ := by
  rw [fillOn, if_neg hbudget, if_pos hfits, hwidened]

/-- With room for a byte a filling reads, and goes on from what it got. -/
theorem fillOn_read (hbudget : budget ≠ some 0) (hfits : b.fits 1 = true)
    (hwidened : (if b.room = 0 then b.makeRoom 1 else .ok b) = .ok grown) :
    b.fillOn s budget moved = match s.read (grown.window budget) with
      | (.ok [], rest) => ⟨grown, rest, .ok moved⟩
      | (.ok (x :: xs), rest) =>
        fillOn (grown.put (x :: xs)) rest (budget.map (· - (x :: xs).length))
          (moved + (x :: xs).length)
      | (.error e, rest) => ⟨grown, rest, .error (.failed (.channel e))⟩ := by
  rw [fillOn, if_neg hbudget, if_pos hfits, hwidened]
  simp only
  split <;> (rename_i heq; rw [heq])

theorem room_widened (hwidened : (if b.room = 0 then b.makeRoom 1 else .ok b) = .ok grown) :
    grown.room ≠ 0 := by
  split at hwidened
  · obtain ⟨capacity, rfl, hlarge, -⟩ := makeRoom_ok hwidened
    show capacity - b.length ≠ 0
    omega
  · rename_i hroom
    cases hwidened
    exact hroom

theorem window_pos (hbudget : budget ≠ some 0) (hfits : b.fits 1 = true)
    (hwidened : (if b.room = 0 then b.makeRoom 1 else .ok b) = .ok grown) :
    0 < grown.window budget := by
  have hpermitted := fits_iff.1 hfits
  have hlength : grown.length = b.length := congrArg List.length (content_widened hwidened)
  have hpolicy := (Grows.widened hwidened).policy
  have hroom := room_widened hwidened
  have hatMost : 0 < atMost budget grown.room := by
    cases budget with
    | none => exact Nat.pos_of_ne_zero hroom
    | some n =>
      have hn : n ≠ 0 := fun heq => hbudget (congrArg some heq)
      rw [atMost_some]
      omega
  unfold window largestWindow
  rw [hpolicy, hlength]
  omega

end Round

/-! ## Byte by byte -/

section Bytes

variable {b : Buffer} {budget : Option Nat} {x : UInt8} {xs : Bytes} {moved : Nat}

theorem put_cons (b : Buffer) (x : UInt8) (xs : Bytes) : (b.put [x]).put xs = b.put (x :: xs) := by
  simp [put]

theorem sub_cons (budget : Option Nat) (x : UInt8) (xs : Bytes) :
    (budget.map (· - 1)).map (· - xs.length) = budget.map (· - (x :: xs).length) := by
  cases budget with
  | none => rfl
  | some n => simp [Nat.sub_sub, Nat.add_comm]

theorem add_cons (moved : Nat) (x : UInt8) (xs : Bytes) :
    moved + 1 + xs.length = moved + (x :: xs).length := by
  rw [List.length_cons]
  omega

/-- Where several bytes are asked for, the others can be asked for after the first. -/
theorem window_put (hroom : xs.length + 1 ≤ b.window budget) :
    xs.length ≤ (b.put [x]).window (budget.map (· - 1)) := by
  unfold window room at hroom ⊢
  rw [length_put, capacity_put, policy_put, List.length_singleton]
  cases budget with
  | none =>
    simp only [Option.map_none, atMost_none] at hroom ⊢
    omega
  | some n =>
    simp only [Option.map_some, atMost_some] at hroom ⊢
    omega

end Bytes

/-- A buffer with room takes the bytes of a source one by one. -/
theorem fillOn_bytes (xs later : Bytes) (rest : List SourceStep) {b : Buffer} {s : Source}
    {budget : Option Nat} (hsteps : s.steps = .data (xs ++ later) :: rest)
    (hchunk : s.chunk = some 1) (hroom : xs.length ≤ b.window budget) (moved : Nat) :
    ∃ after : Source, after.steps = .data later :: rest ∧ after.chunk = some 1 ∧
      b.fillOn s budget moved =
        (b.put xs).fillOn after (budget.map (· - xs.length)) (moved + xs.length) := by
  induction xs generalizing b s budget moved with
  | nil =>
    refine ⟨s, hsteps, hchunk, ?_⟩
    have hbudget : budget.map (· - ([] : Bytes).length) = budget := by cases budget <;> rfl
    rw [hbudget]
    simp [put]
  | cons x xs ih =>
    rw [List.length_cons] at hroom
    -- a window that takes the bytes shows that there is room, permission and budget for the first
    have hlimits : b.room ≠ 0 ∧ b.length + 1 ≤ b.policy.limit ∧ budget ≠ some 0 := by
      unfold window at hroom
      refine ⟨?_, by omega, ?_⟩
      · intro hzero
        cases budget <;> simp [atMost, hzero] at hroom
      · rintro rfl
        simp [atMost] at hroom
    obtain ⟨hb, hfits, hbudget⟩ := hlimits
    have hone : atMost s.chunk (b.window budget) = 1 := by
      rw [hchunk, atMost_some]
      omega
    obtain ⟨next, hread, hleft, hnextChunk⟩ : ∃ next : Source,
        s.read (b.window budget) = (.ok [x], next) ∧
          next.steps = .data (xs ++ later) :: rest ∧ next.chunk = some 1 := by
      unfold Source.read
      rw [hone, hsteps]
      exact ⟨_, rfl, rfl, hchunk⟩
    obtain ⟨after, hafter, hafterChunk, hih⟩ :=
      ih hleft hnextChunk (window_put hroom) (moved + 1)
    refine ⟨after, hafter, hafterChunk, ?_⟩
    rw [fillOn_read hbudget (fits_iff.2 hfits) (if_neg hb), hread]
    simp only [List.length_singleton]
    rw [hih, put_cons, sub_cons, add_cons]

/-- What a filling comes to, but for the windows that the source was asked for. -/
structure SameFilling (f g : Filled) : Prop where
  buffer : g.buffer = f.buffer
  outcome : g.outcome = f.outcome
  steps : g.source.steps = f.source.steps

theorem probe_same {s t : Source} (hsteps : t.steps = s.steps)
    (hmost : atMost t.chunk 1 = atMost s.chunk 1) (b : Buffer) (moved : Nat) :
    SameFilling (b.probe s moved) (b.probe t moved) := by
  have hresult : (t.read 1).1 = (s.read 1).1 := by
    unfold Source.read
    rw [hsteps, hmost]
  have hleft : (t.read 1).2.steps = (s.read 1).2.steps := by
    unfold Source.read
    rw [hsteps, hmost]
  unfold probe
  generalize s.read 1 = r at hresult hleft ⊢
  generalize t.read 1 = q at hresult hleft ⊢
  obtain ⟨result, rest⟩ := r
  obtain ⟨_, rest'⟩ := q
  cases hresult
  match result with
  | .ok [] => exact ⟨rfl, rfl, hleft⟩
  | .ok (_ :: _) => exact ⟨rfl, rfl, hleft⟩
  | .error e => exact ⟨rfl, rfl, hleft⟩

/-- A filling does what it would do byte by byte, and the buffer grows alike. -/
theorem fillOn_singly (b : Buffer) (s : Source) (budget : Option Nat) (moved : Nat) {t : Source}
    (hsteps : t.steps = s.steps) (hchunk : t.chunk = some (atMost s.chunk 1)) :
    SameFilling (b.fillOn s budget moved) (b.fillOn t budget moved) := by
  -- The induction is on the rounds of the filling with large reads. A round of it that reads several
  -- bytes is as many rounds of the other, of which only the first can make the buffer grow.
  fun_induction fillOn b s budget moved generalizing t with
  | case1 b s moved =>
    rw [fillOn_spent]
    exact ⟨rfl, rfl, hsteps⟩
  | case2 b s budget moved hbudget hfits halt hwidened =>
    rw [fillOn_halt hbudget hfits hwidened]
    exact ⟨rfl, rfl, hsteps⟩
  | case3 b s budget moved hbudget hfits grown hwidened rest hr =>
    have hwindow := window_pos hbudget hfits hwidened
    obtain ⟨hresult, hleft⟩ := Source.read_none hsteps hchunk hwindow (by rw [hr]; simp)
    rw [fillOn_read hbudget hfits hwidened]
    rw [hr] at hresult hleft
    generalize t.read (grown.window budget) = q at hresult hleft ⊢
    obtain ⟨_, rest'⟩ := q
    cases hresult
    exact ⟨rfl, rfl, hleft⟩
  | case4 b s budget moved hbudget hfits grown hwidened x xs rest hr ih =>
    obtain ⟨later, tail, next, hrest, hread, hnext, hnextChunk, hrestChunk⟩ :=
      Source.read_one hsteps hchunk hr
    -- the first byte comes now, the others of the same read one by one
    have hlength := Source.length_of_read hr
    have hroom : xs.length ≤ (grown.put [x]).window (budget.map (· - 1)) := by
      rw [List.length_cons] at hlength
      exact window_put hlength
    obtain ⟨after, hafter, hafterChunk, hbytes⟩ :=
      fillOn_bytes xs later tail hnext hnextChunk hroom (moved + 1)
    have hsame := ih (t := after) (hafter.trans hrest.symm) (by rw [hafterChunk, hrestChunk])
    have hone : b.fillOn t budget moved =
        (grown.put (x :: xs)).fillOn after (budget.map (· - (x :: xs).length))
          (moved + (x :: xs).length) := by
      rw [fillOn_read hbudget hfits hwidened, hread]
      simp only [List.length_singleton]
      rw [hbytes, put_cons, sub_cons, add_cons]
    rw [hone]
    exact hsame
  | case5 b s budget moved hbudget hfits grown hwidened e rest hr =>
    have hwindow := window_pos hbudget hfits hwidened
    obtain ⟨hresult, hleft⟩ := Source.read_none hsteps hchunk hwindow (by rw [hr]; simp)
    rw [fillOn_read hbudget hfits hwidened]
    rw [hr] at hresult hleft
    generalize t.read (grown.window budget) = q at hresult hleft ⊢
    obtain ⟨_, rest'⟩ := q
    cases hresult
    exact ⟨rfl, rfl, hleft⟩
  | case6 b s budget moved hbudget hfull =>
    rw [fillOn_full hbudget hfull]
    apply probe_same hsteps
    rw [hchunk, atMost_some]
    apply Nat.min_eq_left
    cases s.chunk <;> simp only [atMost_none, atMost_some] <;> omega

/-! ## Twins -/

/-- Buffers of the same content and policy, of whatever capacity. -/
structure Twin (b c : Buffer) : Prop where
  content : b.content = c.content
  policy : b.policy = c.policy

namespace Twin

variable {b c d e : Buffer} {bytes : Bytes}

theorem length (h : b.Twin c) : b.length = c.length := congrArg List.length h.content

theorem put (h : b.Twin c) (bytes : Bytes) : (b.put bytes).Twin (c.put bytes) :=
  ⟨congrArg (· ++ bytes) h.content, h.policy⟩

theorem fits (h : b.Twin c) (additional : Nat) : b.fits additional = c.fits additional := by
  rw [Bool.eq_iff_iff, fits_iff, fits_iff, h.length, h.policy]

theorem grow (h : b.Twin c) (hb : b.Grows d) (hbd : d.content = b.content)
    (hc : c.Grows e) (hce : e.content = c.content) : d.Twin e :=
  ⟨hbd.trans (h.content.trans hce.symm), hb.policy.trans (h.policy.trans hc.policy.symm)⟩

/-- Where one twin has room for a byte or gets it, so does the other, or it overflows. -/
theorem widened (h : b.Twin c) (hfits : b.fits 1 = true)
    (hb : (if b.room = 0 then b.makeRoom 1 else .ok b) = .ok d) :
    (if c.room = 0 then c.makeRoom 1 else .ok c) = .error .overflow ∨
      ∃ e, (if c.room = 0 then c.makeRoom 1 else .ok c) = .ok e ∧ d.Twin e := by
  cases hc : (if c.room = 0 then c.makeRoom 1 else .ok c) with
  | error halt =>
    left
    split at hc
    · rw [h.fits] at hfits
      rw [makeRoom_error hfits hc]
    · cases hc
  | ok e =>
    refine Or.inr ⟨e, rfl, ?_⟩
    exact h.grow (.widened hb) (content_widened hb) (.widened hc) (content_widened hc)

end Twin

/-- Two fillings come to the same, up to the capacity of the buffer and the windows asked for. -/
structure TwinFilling (f g : Filled) : Prop where
  buffer : f.buffer.Twin g.buffer
  outcome : f.outcome = g.outcome
  steps : f.source.steps = g.source.steps

/-- With room for a byte twins read the same from sources that give single bytes. -/
theorem fillOn_twin_read {b c grown : Buffer} {s t : Source} {budget : Option Nat} {moved : Nat}
    (hbc : b.Twin c) (hsteps : t.steps = s.steps) (hchunk : t.chunk = s.chunk)
    (hsingle : ∃ n, s.chunk = some n ∧ n ≤ 1) (hbudget : budget ≠ some 0)
    (hfits : b.fits 1 = true)
    (hwidened : (if b.room = 0 then b.makeRoom 1 else .ok b) = .ok grown)
    (hc : (c.fillOn t budget moved).outcome ≠ .error .overflow) :
    ∃ grown' rest', grown.Twin grown' ∧ rest'.steps = (s.read (grown.window budget)).2.steps ∧
      rest'.chunk = s.chunk ∧
      c.fillOn t budget moved = match (s.read (grown.window budget)).1 with
        | .ok [] => ⟨grown', rest', .ok moved⟩
        | .ok (x :: xs) =>
          fillOn (grown'.put (x :: xs)) rest' (budget.map (· - (x :: xs).length))
            (moved + (x :: xs).length)
        | .error e => ⟨grown', rest', .error (.failed (.channel e))⟩ := by
  have hfits' := hfits
  rw [hbc.fits] at hfits'
  rcases hbc.widened hfits hwidened with hover | ⟨grown', hwidened', htwin⟩
  · rw [fillOn_halt hbudget hfits' hover] at hc
    exact absurd rfl hc
  · obtain ⟨hresult, hleft⟩ := Source.read_single hsteps hchunk hsingle
      (window_pos hbudget hfits hwidened) (window_pos hbudget hfits' hwidened')
    have hkept := Source.chunk_read t (grown'.window budget)
    rw [fillOn_read hbudget hfits' hwidened']
    generalize t.read (grown'.window budget) = q at hresult hleft hkept ⊢
    obtain ⟨result, rest'⟩ := q
    refine ⟨grown', rest', htwin, hleft, hkept.trans hchunk, ?_⟩
    rw [← hresult]
    match result with
    | .ok [] => rfl
    | .ok (_ :: _) => rfl
    | .error _ => rfl

/-- Byte by byte, twins are filled in step. -/
theorem fillOn_twin {b c : Buffer} {s t : Source} {budget : Option Nat} {moved : Nat}
    (hbc : b.Twin c) (hsteps : t.steps = s.steps) (hchunk : t.chunk = s.chunk)
    (hsingle : ∃ n, s.chunk = some n ∧ n ≤ 1)
    (hb : (b.fillOn s budget moved).outcome ≠ .error .overflow)
    (hc : (c.fillOn t budget moved).outcome ≠ .error .overflow) :
    TwinFilling (b.fillOn s budget moved) (c.fillOn t budget moved) := by
  -- with single bytes the rounds of both fillings match one to one
  fun_induction fillOn b s budget moved generalizing c t with
  | case1 b s moved =>
    rw [fillOn_spent]
    exact ⟨hbc, rfl, hsteps.symm⟩
  | case2 b s budget moved hbudget hfits halt hwidened =>
    refine absurd (congrArg Except.error ?_) hb
    split at hwidened
    · exact makeRoom_error hfits hwidened
    · cases hwidened
  | case3 b s budget moved hbudget hfits grown hwidened rest hr =>
    obtain ⟨grown', rest', htwin, hleft, -, heq⟩ :=
      fillOn_twin_read hbc hsteps hchunk hsingle hbudget hfits hwidened hc
    rw [hr] at hleft heq
    rw [heq]
    exact ⟨htwin, rfl, hleft.symm⟩
  | case4 b s budget moved hbudget hfits grown hwidened x xs rest hr ih =>
    obtain ⟨grown', rest', htwin, hleft, hkept, heq⟩ :=
      fillOn_twin_read hbc hsteps hchunk hsingle hbudget hfits hwidened hc
    have hrest := Source.chunk_read s (grown.window budget)
    rw [hr] at hleft heq hrest
    rw [heq] at hc ⊢
    rw [← hrest] at hkept hsingle
    exact ih (htwin.put _) hleft hkept hsingle hb hc
  | case5 b s budget moved hbudget hfits grown hwidened e rest hr =>
    obtain ⟨grown', rest', htwin, hleft, -, heq⟩ :=
      fillOn_twin_read hbc hsteps hchunk hsingle hbudget hfits hwidened hc
    rw [hr] at hleft heq
    rw [heq]
    exact ⟨htwin, rfl, hleft.symm⟩
  | case6 b s budget moved hbudget hfull =>
    have hfull' := hfull
    rw [hbc.fits] at hfull'
    rw [fillOn_full hbudget hfull']
    have hprobe := probe_same hsteps (congrArg (atMost · 1) hchunk) b moved
    have hcapacity : TwinFilling (b.probe t moved) (c.probe t moved) := by
      unfold probe
      rw [hbc.length, hbc.policy]
      rcases t.read 1 with ⟨e | _ | ⟨x, xs⟩, rest⟩
      · exact ⟨hbc, rfl, rfl⟩
      · exact ⟨hbc, rfl, rfl⟩
      · exact ⟨hbc, rfl, rfl⟩
    refine ⟨?_, hprobe.outcome.symm.trans hcapacity.outcome,
      hprobe.steps.symm.trans hcapacity.steps⟩
    rw [← hprobe.buffer]
    exact hcapacity.buffer

theorem chunk_fillOn (b : Buffer) (s : Source) (budget : Option Nat) (moved : Nat) :
    (b.fillOn s budget moved).source.chunk = s.chunk := by
  have hread : ∀ {s rest : Source} {window : Nat} {result : Except ChannelError Bytes},
      s.read window = (result, rest) → rest.chunk = s.chunk := by
    intro s rest window result hr
    have hrest : (s.read window).2 = rest := congrArg Prod.snd hr
    rw [← hrest, Source.chunk_read]
  fun_induction fillOn b s budget moved with
  | case1 => rfl
  | case2 => rfl
  | case3 b s budget moved hbudget hfits grown hwidened rest hr => exact hread hr
  | case4 b s budget moved hbudget hfits grown hwidened x xs rest hr ih => exact ih.trans (hread hr)
  | case5 b s budget moved hbudget hfits grown hwidened e rest hr => exact hread hr
  | case6 b s budget moved hbudget hfull =>
    unfold probe
    split <;> (rename_i hr; exact hread hr)

variable {b c : Buffer}

theorem fill_twin (hbc : b.Twin c) (s : Source) (budget : Option Nat)
    (hb : (b.fill s budget).outcome ≠ .error .overflow)
    (hc : (c.fill s budget).outcome ≠ .error .overflow) :
    (b.fill s budget).buffer.Twin (c.fill s budget).buffer ∧
      (b.fill s budget).outcome = (c.fill s budget).outcome ∧
      (b.fill s budget).source.unasked = (c.fill s budget).source.unasked := by
  have hleft := fillOn_singly b s budget 0 (t := s.singly) rfl rfl
  have hright := fillOn_singly c s budget 0 (t := s.singly) rfl rfl
  have hsingle : atMost s.chunk 1 ≤ 1 := atMost_le s.chunk 1
  unfold fill at hb hc ⊢
  rw [← hleft.outcome] at hb
  rw [← hright.outcome] at hc
  have htwin := fillOn_twin hbc (s := s.singly) rfl rfl ⟨_, rfl, hsingle⟩ hb hc
  refine ⟨?_, ?_, Source.unasked_eq_iff.2 ⟨?_, ?_⟩⟩
  · rw [← hleft.buffer, ← hright.buffer]
    exact htwin.buffer
  · rw [← hleft.outcome, ← hright.outcome]
    exact htwin.outcome
  · rw [← hleft.steps, ← hright.steps]
    exact htwin.steps
  · rw [chunk_fillOn, chunk_fillOn]

/-! ## Scripts -/

/-- Two results are the same, or one of them is an overflow. -/
inductive Concur {ε α : Type} (same : α → α → Prop) :
    Except (Halt ε) α → Except (Halt ε) α → Prop where
  | ok {a b : α} (h : same a b) : Concur same (.ok a) (.ok b)
  | failed (e : ε) : Concur same (.error (.failed e)) (.error (.failed e))
  | left (r : Except (Halt ε) α) : Concur same (.error .overflow) r
  | right (r : Except (Halt ε) α) : Concur same r (.error .overflow)

/-- Room that is not permitted is refused, whatever the capacity. -/
theorem makeRoom_refused {additional : Nat} (h : ¬ b.fits additional = true) :
    b.makeRoom additional =
      .error (.failed (.capacityExceeded (Size.addHeld b.length additional) b.policy.limit)) := by
  rw [fits_iff, Nat.not_le] at h
  unfold makeRoom Size.addHeld
  cases hsize : Size.add? b.length additional with
  | none =>
    rw [Size.add?_eq_none_iff] at hsize
    rw [Nat.min_eq_right (Nat.le_of_lt hsize)]
  | some required =>
    obtain ⟨hle, rfl⟩ := Size.add?_eq_some_iff.1 hsize
    rw [Nat.min_eq_left hle]
    simp only [h, if_true]

theorem fits_of_makeRoom {grown : Buffer} {additional : Nat}
    (h : b.makeRoom additional = .ok grown) : b.fits additional = true := by
  by_cases hfits : b.fits additional = true
  · exact hfits
  · rw [makeRoom_refused hfits] at h
    cases h

theorem makeRoom_twin (hbc : b.Twin c) (additional : Nat) :
    Concur Twin (b.makeRoom additional) (c.makeRoom additional) := by
  by_cases hfits : b.fits additional = true
  · have hfits' := hfits
    rw [hbc.fits] at hfits'
    cases hb : b.makeRoom additional with
    | error halt =>
      rw [makeRoom_error hfits hb]
      exact .left _
    | ok d =>
      cases hc : c.makeRoom additional with
      | error halt =>
        rw [makeRoom_error hfits' hc]
        exact .right _
      | ok e =>
        have htwin := hbc.grow (.makeRoom hb) (content_makeRoom hb) (.makeRoom hc)
          (content_makeRoom hc)
        exact .ok htwin
  · have hfits' := hfits
    rw [hbc.fits] at hfits'
    rw [makeRoom_refused hfits, makeRoom_refused hfits', hbc.length, hbc.policy]
    exact .failed _

theorem append_twin (hbc : b.Twin c) (bytes : Bytes) :
    Concur Twin (b.append bytes) (c.append bytes) := by
  unfold append
  split
  · exact .ok hbc
  · have hroom := makeRoom_twin hbc bytes.length
    generalize b.makeRoom bytes.length = r at hroom ⊢
    generalize c.makeRoom bytes.length = q at hroom ⊢
    cases hroom with
    | ok h => exact .ok (h.put bytes)
    | failed e => exact .failed e
    | left => exact .left _
    | right => exact .right _

theorem give_twin (hbc : b.Twin c) (bytes : Bytes) :
    Concur Twin (b.give bytes) (c.give bytes) := by
  have hwritten := append_twin hbc bytes
  unfold give
  generalize b.append bytes = r at hwritten ⊢
  generalize c.append bytes = q at hwritten ⊢
  cases hwritten with
  | ok h => exact .ok h
  | failed e => exact .failed _
  | left => exact .left _
  | right => exact .right _

/-- The same note on twins. -/
def SameNote (p q : Buffer × Note) : Prop := p.1.Twin q.1 ∧ p.2 = q.2

theorem giveNoted_twin (hbc : b.Twin c) (bytes : Bytes) :
    Concur SameNote (b.giveNoted bytes) (c.giveNoted bytes) := by
  have hgiven := give_twin hbc bytes
  unfold giveNoted
  generalize b.give bytes = r at hgiven ⊢
  generalize c.give bytes = q at hgiven ⊢
  cases hgiven with
  | ok h => exact .ok ⟨h, congrArg Note.written h.length⟩
  | failed e => exact .failed e
  | left => exact .left _
  | right => exact .right _

theorem perform_twin (hbc : b.Twin c) (i : Instruction) :
    Concur SameNote (b.perform i) (c.perform i) := by
  cases i with
  | put bytes => exact giveNoted_twin hbc bytes
  | putByte value => exact giveNoted_twin hbc _
  | putWord value => exact giveNoted_twin hbc _
  | writeAll bytes => exact giveNoted_twin hbc bytes
  | writeOnce bytes =>
    have hgiven := give_twin hbc bytes
    simp only [perform]
    generalize b.give bytes = r at hgiven ⊢
    generalize c.give bytes = q at hgiven ⊢
    cases hgiven with
    | ok h => exact .ok ⟨h, rfl⟩
    | failed e => exact .failed e
    | left => exact .left _
    | right => exact .right _
  | tryPut bytes =>
    have hwritten := append_twin hbc bytes
    simp only [perform]
    generalize b.append bytes = r at hwritten ⊢
    generalize c.append bytes = q at hwritten ⊢
    cases hwritten with
    | ok h => exact .ok ⟨h, congrArg Note.written h.length⟩
    | failed e => exact .ok ⟨hbc, rfl⟩
    | left => exact .left _
    | right => exact .right _
  | flush => exact .ok ⟨hbc, congrArg Note.written hbc.length⟩
  | fail e => exact .failed e

theorem run_twin (hbc : b.Twin c) (script : List Instruction)
    (hb : (b.run script).outcome ≠ .error .overflow)
    (hc : (c.run script).outcome ≠ .error .overflow) :
    (b.run script).buffer.Twin (c.run script).buffer ∧
      (b.run script).notes = (c.run script).notes ∧
      (b.run script).outcome = (c.run script).outcome := by
  induction script generalizing b c with
  | nil => exact ⟨hbc, rfl, rfl⟩
  | cons i rest ih =>
    have hperformed := perform_twin hbc i
    unfold run at hb hc ⊢
    generalize b.perform i = r at hperformed hb ⊢
    generalize c.perform i = q at hperformed hc ⊢
    cases hperformed with
    | ok h =>
      rename_i p p'
      obtain ⟨after, note⟩ := p
      obtain ⟨after', note'⟩ := p'
      obtain ⟨htwin, hnote⟩ := h
      cases hnote
      obtain ⟨hbuffer, hnotes, houtcome⟩ := ih htwin hb hc
      exact ⟨hbuffer, congrArg (note :: ·) hnotes, houtcome⟩
    | failed e => exact ⟨hbc, rfl, rfl⟩
    | left => exact absurd rfl hb
    | right => exact absurd rfl hc

end Buffer

end BlobExchange
