import BlobExchange.Proofs.ReclaimsOldest
/-! # Idle buffers wait in line

`Line.Serves` says what a pool does to its clients without slots, generations or counts. -/

namespace BlobExchange

/-! ## What is asked of a pool -/

/-- What a client or others ask of a pool. -/
inductive PoolCommand where
  | park (buffer : Buffer)
  | take (handle : Handle)
  | reclaim (keep : Nat)
  | withhold (handle : Handle)
  | deliver (handle : Handle)
  | fetch

/-- What the pool answers. -/
inductive PoolAnswer where
  | parked (handle : Handle)
  | taken (buffer : Option Buffer)
  | reclaimed (yield : Reclaimed)
  | withheld (done : Bool)
  | delivered
  | fetched (reports : List Handle)

namespace Pool

def perform (p : Pool) : PoolCommand → PoolAnswer × Pool
  | .park b => (.parked (p.park b).1, (p.park b).2)
  | .take h =>
    match p.take h with
    | some (b, after) => (.taken (some b), after)
    | none => (.taken none, p)
  | .reclaim keep => (.reclaimed (p.reclaimDownTo keep).1, (p.reclaimDownTo keep).2)
  | .withhold h =>
    match p.reclaimSilently h with
    | some (_, after) => (.withheld true, after)
    | none => (.withheld false, p)
  | .deliver h => (.delivered, p.deliver h)
  | .fetch => (.fetched p.fetch.1, p.fetch.2)

/-- Carries out one command after the other, each as `step` does. -/
def runBy (step : Pool → PoolCommand → PoolAnswer × Pool) (p : Pool) :
    List PoolCommand → List PoolAnswer × Pool
  | [] => ([], p)
  | c :: rest =>
    let later := (step p c).2.runBy step rest
    ((step p c).1 :: later.1, later.2)

/-- The pool with a buffer in the next slot and its handle in the queue, which is not swept yet. -/
def queued (p : Pool) (b : Buffer) : Pool :=
  let placed := p.place b
  { placed with
    order := placed.order ++ [p.vacancy]
    idleBytes := placed.idleBytes + b.capacity
    idleBuffers := placed.idleBuffers + 1 }

/-- Parks a buffer, and sweeps the queue if `tidy` says so, however long it is. -/
def parkTidily (tidy : Pool → Bool) (p : Pool) (b : Buffer) : Handle × Pool :=
  let after := p.queued b
  (p.vacancy, if tidy after then { after with order := after.order.filter after.isLive } else after)

/-- Carries out a command, with sweeps of its own. -/
def performTidily (tidy : Pool → Bool) (p : Pool) : PoolCommand → PoolAnswer × Pool
  | .park b => (.parked (p.parkTidily tidy b).1, (p.parkTidily tidy b).2)
  | command => p.perform command

end Pool

/-! ## The line -/

/-- The idle buffers in the order in which they were parked, each under its handle, the handles
whose reports wait to be fetched, are withheld or were fetched, and all that were given out. -/
structure Line where
  waiting : List (Handle × Buffer)
  reports : List Handle
  withheld : List Handle
  fetched : List Handle
  issued : List Handle

namespace Line

/-- The line before its first buffer. -/
def empty : Line := ⟨[], [], [], [], []⟩

/-- How a line answers a command, and what it is then. Of the handles that a line may give to a new
buffer nothing is said but that they are new. -/
inductive Serves : Line → PoolCommand → PoolAnswer → Line → Prop where
  | park {l : Line} {b : Buffer} {h : Handle} (new : h ∉ l.issued) :
    Serves l (.park b) (.parked h)
      { l with waiting := l.waiting ++ [(h, b)], issued := l.issued ++ [h] }
  | take {l : Line} {front back : List (Handle × Buffer)} {h : Handle} {b : Buffer}
    (listed : l.waiting = front ++ (h, b) :: back) :
    Serves l (.take h) (.taken (some b)) { l with waiting := front ++ back }
  | miss {l : Line} {h : Handle} (unlisted : h ∉ l.waiting.map Prod.fst) :
    Serves l (.take h) (.taken none) l
  | reclaim {l : Line} {keep : Nat} {gone left : List (Handle × Buffer)}
    (listed : l.waiting = gone ++ left) (light : weight left ≤ keep)
    (fewest : ∀ fewer back, gone = fewer ++ back → back ≠ [] → keep < weight (back ++ left)) :
    Serves l (.reclaim keep) (.reclaimed ⟨gone.length, weight gone⟩)
      { l with waiting := left, reports := l.reports ++ gone.map Prod.fst }
  | withhold {l : Line} {front back : List (Handle × Buffer)} {h : Handle} {b : Buffer}
    (listed : l.waiting = front ++ (h, b) :: back) :
    Serves l (.withhold h) (.withheld true)
      { l with waiting := front ++ back, withheld := l.withheld ++ [h] }
  | spare {l : Line} {h : Handle} (unlisted : h ∉ l.waiting.map Prod.fst) :
    Serves l (.withhold h) (.withheld false) l
  | deliver {l : Line} {h : Handle} (due : h ∈ l.withheld) :
    Serves l (.deliver h) .delivered
      { l with reports := l.reports ++ [h], withheld := l.withheld.erase h }
  | hush {l : Line} {h : Handle} (undue : h ∉ l.withheld) : Serves l (.deliver h) .delivered l
  | fetch {l : Line} :
    Serves l .fetch (.fetched l.reports) { l with reports := [], fetched := l.fetched ++ l.reports }

/-- How a line answers one command after the other. -/
inductive ServesAll : Line → List PoolCommand → List PoolAnswer → Line → Prop where
  | done (l : Line) : ServesAll l [] [] l
  | next {l m n : Line} {command : PoolCommand} {answer : PoolAnswer} {rest : List PoolCommand}
    {answers : List PoolAnswer} (first : l.Serves command answer m)
    (later : m.ServesAll rest answers n) : ServesAll l (command :: rest) (answer :: answers) n

/-- The handles of which a line knows what became of them: their buffers wait or were reclaimed. -/
def known (l : Line) : List Handle :=
  l.waiting.map Prod.fst ++ (l.withheld ++ (l.reports ++ l.fetched))

/-- No handle is given out twice, and each is waiting, withheld, to be fetched or fetched at most
once. -/
structure Orderly (l : Line) : Prop where
  once : l.known.Nodup
  issued : l.known ⊆ l.issued
  distinct : l.issued.Nodup

theorem orderly_empty : empty.Orderly :=
  ⟨List.nodup_nil, List.Subset.refl _, List.nodup_nil⟩

namespace Orderly

variable {l m : Line}

theorem waiting (hl : l.Orderly) : (l.waiting.map Prod.fst).Nodup :=
  hl.once.sublist (List.sublist_append_left _ _)

/-- Handles may come to another place. -/
theorem regroup (hl : l.Orderly) (issued : m.issued = l.issued) (known : m.known.Perm l.known) :
    m.Orderly := by
  refine ⟨known.nodup_iff.2 hl.once, ?_, ?_⟩
  · rw [issued]
    exact List.Subset.trans known.subset hl.issued
  · rw [issued]
    exact hl.distinct

theorem forget (hl : l.Orderly) (issued : m.issued = l.issued) (known : m.known.Sublist l.known) :
    m.Orderly := by
  refine ⟨hl.once.sublist known, ?_, ?_⟩
  · rw [issued]
    exact List.Subset.trans known.subset hl.issued
  · rw [issued]
    exact hl.distinct

theorem join (hl : l.Orderly) {h : Handle} (b : Buffer) (new : h ∉ l.issued) :
    { l with waiting := l.waiting ++ [(h, b)], issued := l.issued ++ [h] }.Orderly := by
  have hperm : (h :: l.known).Perm
      { l with waiting := l.waiting ++ [(h, b)], issued := l.issued ++ [h] }.known := by
    unfold known
    rw [List.map_append, List.append_assoc]
    exact List.perm_middle.symm
  have hnew : h ∉ l.known := fun hk => new (hl.issued hk)
  refine ⟨hperm.nodup_iff.1 (List.nodup_cons.2 ⟨hnew, hl.once⟩), ?_, ?_⟩
  · intro j hj
    rw [List.mem_append, List.mem_singleton]
    rcases List.mem_cons.1 (hperm.symm.subset hj) with rfl | hj
    · exact Or.inr rfl
    · exact Or.inl (hl.issued hj)
  · apply List.nodup_append.2
    refine ⟨hl.distinct, List.nodup_singleton h, ?_⟩
    intro j hj k hk heq
    rw [List.mem_singleton.1 hk] at heq
    exact new (heq ▸ hj)

theorem serves {command : PoolCommand} {answer : PoolAnswer} (hl : l.Orderly)
    (h : l.Serves command answer m) : m.Orderly := by
  cases h with
  | park new => exact hl.join _ new
  | take listed =>
    refine hl.forget rfl ?_
    unfold known
    rw [listed]
    simp
  | miss unlisted => exact hl
  | @reclaim keep gone left listed light fewest =>
    refine hl.regroup rfl ?_
    unfold known
    rw [List.perm_iff_count, listed]
    intro j
    simp only [List.map_append, List.count_append]
    omega
  | @withhold front back h b listed =>
    refine hl.regroup rfl ?_
    unfold known
    rw [List.perm_iff_count, listed]
    intro j
    simp only [List.map_append, List.map_cons, List.count_append, List.count_cons, List.count_nil]
    omega
  | spare unlisted => exact hl
  | @deliver h due =>
    refine hl.regroup rfl ?_
    have hdue := List.perm_cons_erase due
    unfold known
    rw [List.perm_iff_count] at hdue ⊢
    intro j
    have hcount := hdue j
    simp only [List.count_append, List.count_cons, List.count_nil] at hcount ⊢
    omega
  | hush undue => exact hl
  | fetch =>
    refine hl.regroup rfl ?_
    unfold known
    rw [List.perm_iff_count]
    intro j
    simp only [List.count_append, List.count_nil]
    omega

theorem servesAll {commands : List PoolCommand} {answers : List PoolAnswer} (hl : l.Orderly)
    (h : l.ServesAll commands answers m) : m.Orderly := by
  induction h with
  | done l => exact hl
  | next first later ih => exact ih (hl.serves first)

end Orderly

end Line

/-! ## Reclaiming off the front -/

namespace Pool

variable {p q : Pool} {h : Handle} {b : Buffer} {keep : Nat}

/-- A buffer that a handle claims is counted, so it can be taken off the counts. -/
def Covers (p : Pool) (h : Handle) : Prop :=
  ∀ b, p.claimed? h = some b → b.capacity ≤ p.idleBytes ∧ 0 < p.idleBuffers

/-- Along a queue, reclaiming takes no more off the counts than is on them, and does not come to
the end while more than `keep` bytes are idle. -/
def SafeAlong (keep : Nat) (p : Pool) : List Handle → Prop
  | [] => p.idleBytes ≤ keep
  | h :: rest => p.idleBytes ≤ keep ∨ p.Covers h ∧
    match p.reclaim h with
    | some (_, after) => SafeAlong keep after rest
    | none => SafeAlong keep p rest

theorem Tallied.covers (hp : p.Tallied) (h : Handle) : p.Covers h := by
  intro b hb
  cases ht : p.take h with
  | none =>
    rw [take_eq_none_iff.1 ht] at hb
    cases hb
  | some taken =>
    obtain ⟨c, rest⟩ := taken
    rw [claimed?_of_take ht] at hb
    cases hb
    obtain ⟨hbuffers, hbytes⟩ := hp.tally_take ht
    omega

theorem CountsAlong.covers {rest : List Handle} (hp : p.CountsAlong (h :: rest)) :
    p.Covers h := by
  intro b hb
  have hfirst : p.idleAlong (h :: rest) = (h, b) :: p.idleAlong rest := by
    simp [idleAlong, hb]
  have hbuffers := hp.idleBuffers
  have hbytes := hp.idleBytes
  rw [hfirst] at hbuffers hbytes
  rw [weight_cons] at hbytes
  rw [List.length_cons] at hbuffers
  constructor
  · rw [hbytes]
    exact Nat.le_add_right _ _
  · omega

/-- While the counts are those of the idle buffers along the queue, reclaiming along it is safe. -/
theorem CountsAlong.safeAlong (keep : Nat) {queue : List Handle} (hp : p.CountsAlong queue) :
    p.SafeAlong keep queue := by
  induction queue generalizing p with
  | nil =>
    show p.idleBytes ≤ keep
    rw [hp.idleBytes]
    exact Nat.zero_le keep
  | cons h rest ih =>
    refine Or.inr ⟨hp.covers, ?_⟩
    cases hr : p.reclaim h with
    | none => exact ih (hp.skip hr).2
    | some reclaimed =>
      obtain ⟨_, -, -, -, hrest⟩ := hp.go hr
      exact ih hrest

/-- The handles of those given up are reported, in the order in which they waited. -/
theorem reports_reclaimAlong (keep : Nat) (p : Pool) (done : Reclaimed) (queue : List Handle)
    (hp : p.CountsAlong queue) :
    (reclaimAlong keep p done queue).2.reports =
      p.reports ++ (surplus keep (p.idleAlong queue)).map Prod.fst := by
  induction queue generalizing p done with
  | nil => exact (List.append_nil _).symm
  | cons h rest ih =>
    unfold reclaimAlong
    split
    · rename_i hlight
      rw [hp.idleBytes] at hlight
      rw [surplus_of_le hlight]
      exact (List.append_nil _).symm
    · rename_i hheavy
      rw [hp.idleBytes] at hheavy
      cases hr : p.reclaim h with
      | none =>
        obtain ⟨hskip, hrest⟩ := hp.skip hr
        rw [hskip]
        exact ih p done hrest
      | some reclaimed =>
        obtain ⟨bytes, after⟩ := reclaimed
        obtain ⟨b, -, hfirst, hreports, hrest⟩ := hp.go hr
        rw [hfirst] at hheavy ⊢
        simp only
        rw [ih after _ hrest, hreports, surplus, if_neg hheavy, List.append_assoc]
        rfl

theorem reports_reclaimDownTo (hp : p.Tallied) (keep : Nat) :
    (p.reclaimDownTo keep).2.reports = p.reports ++ (surplus keep p.idle).map Prod.fst := by
  rw [idle_eq p]
  exact reports_reclaimAlong keep p ⟨0, 0⟩ p.order hp.countsAlong

/-- What reclaiming says that it reclaimed is how many were given up, and their bytes. -/
theorem yield_reclaimDownTo (hp : p.Tallied) (keep : Nat) :
    (p.reclaimDownTo keep).1 = ⟨(surplus keep p.idle).length, weight (surplus keep p.idle)⟩ := by
  obtain ⟨hbuffers, hbytes⟩ := hp.reclaimDownTo keep
  have hafter : (p.reclaimDownTo keep).2.Tallied := hp.sufferAll [.downTo keep]
  have hsplit := surplus_append_lighter keep p.idle
  have hlength := congrArg List.length hsplit
  have hweight := congrArg weight hsplit
  rw [List.length_append] at hlength
  rw [weight_append] at hweight
  rw [hafter.idleBuffers, hp.idleBuffers, idle_reclaimDownTo hp] at hbuffers
  rw [hafter.idleBytes, hp.idleBytes, idle_reclaimDownTo hp] at hbytes
  generalize (p.reclaimDownTo keep).1 = yield at hbuffers hbytes ⊢
  obtain ⟨buffers, bytes⟩ := yield
  simp only at hbuffers hbytes
  rw [Reclaimed.mk.injEq]
  omega

theorem withheld_reclaimDownTo (p : Pool) (keep : Nat) :
    (p.reclaimDownTo keep).2.withheld = p.withheld := by
  apply reclaimDownTo_induction (P := fun q => q.withheld = p.withheld) ⟨?_, ?_⟩ keep rfl
  · intro q order _ hq
    exact hq
  · intro q j bytes r hq hr
    obtain ⟨b, rest, taken, -, rfl⟩ := take_of_reclaim hr
    rw [eq_of_take taken]
    exact hq

/-! ## The line in a pool -/

/-- All these handles were given out: each is live, or past for ever. -/
def HasIssued (p : Pool) (issued : List Handle) : Prop :=
  ∀ j ∈ issued, p.isLive j = true ∨ p.Past j

theorem HasIssued.take {issued : List Handle} (hp : p.HasIssued issued)
    (ht : p.take h = some (b, q)) : q.HasIssued issued := by
  intro j hj
  rw [isLive_take ht, past_take ht]
  by_cases hjh : j = h
  · exact Or.inr (Or.inr hjh)
  · exact (hp j hj).imp (fun hlive => ⟨hlive, hjh⟩) Or.inl

theorem HasIssued.park {issued : List Handle} (hp : p.HasIssued issued) (sound : p.Sound)
    (b : Buffer) : (p.park b).2.HasIssued (issued ++ [p.vacancy]) := by
  intro j hj
  rw [sound.isLive_park, sound.past_park]
  rcases List.mem_append.1 hj with hj | hj
  · exact (hp j hj).imp_left Or.inl
  · exact Or.inl (Or.inr (List.mem_singleton.1 hj))

theorem HasIssued.new {issued : List Handle} (hp : p.HasIssued issued) (sound : p.Sound) :
    p.vacancy ∉ issued := by
  intro hissued
  rcases hp _ hissued with hlive | hpast
  · rw [isLive_eq_false_iff.2 sound.claimed?_vacancy] at hlive
    cases hlive
  · exact sound.not_past_vacancy hpast

/-- Reclaiming keeps a pool sound, and handles that were given out live or past. -/
theorem kept_issued (issued : List Handle) :
    KeptByReclaiming fun p => p.Sound ∧ p.HasIssued issued where
  order _ _ horder hp := ⟨hp.1.congr rfl rfl horder, hp.2⟩
  reclaim p j bytes q hp hr := by
    obtain ⟨b, rest, taken, -, rfl⟩ := take_of_reclaim hr
    have hissued := hp.2.take taken
    exact ⟨(hp.1.take taken).congr rfl rfl (List.Subset.refl _), hissued⟩

/-- A pool shows a line: its idle buffers are those that wait, in their order, its counts are theirs,
and it has the line's reports. Its slots, its free list and its queue are sound. -/
structure Shows (p : Pool) (l : Line) : Prop where
  sound : p.Sound
  idle : p.idle = l.waiting
  claimed : ∀ h b, p.claimed? h = some b ↔ (h, b) ∈ l.waiting
  idleBuffers : p.idleBuffers = l.waiting.length
  idleBytes : p.idleBytes = weight l.waiting
  reports : p.reports = l.reports
  withheld : p.withheld = l.withheld
  issued : p.HasIssued l.issued

namespace Shows

variable {l : Line}

theorem tallied (hp : p.Shows l) (hl : l.Orderly) : p.Tallied := by
  refine ⟨?_, ?_, ?_, ?_⟩
  · intro j c hj
    rw [hp.idle]
    exact (hp.claimed j c).1 hj
  · rw [hp.idle]
    exact hl.waiting
  · rw [hp.idle]
    exact hp.idleBuffers
  · rw [hp.idle]
    exact hp.idleBytes

theorem of_tallied (hp : p.Tallied) (sound : p.Sound) (issued : p.HasIssued l.issued)
    (idle : p.idle = l.waiting) (reports : p.reports = l.reports)
    (withheld : p.withheld = l.withheld) : p.Shows l where
  sound := sound
  idle := idle
  claimed h b := by rw [← idle, hp.complete.mem_idle]
  idleBuffers := by rw [← idle, hp.idleBuffers]
  idleBytes := by rw [← idle, hp.idleBytes]
  reports := reports
  withheld := withheld
  issued := issued

theorem empty : Pool.empty.Shows Line.empty := by
  have hnone : ∀ h, Pool.empty.claimed? h = none := fun h => rfl
  refine ⟨sound_empty, rfl, ?_, rfl, rfl, rfl, rfl, fun _ hj => absurd hj List.not_mem_nil⟩
  intro h b
  rw [hnone]
  simp [Line.empty]

/-- What is told of handles has no say in which buffers wait. -/
theorem retell (hp : p.Shows l) {reports reports' withheld withheld' : List Handle}
    (fetched : List Handle) (total : Nat) (sameReports : reports = reports')
    (sameWithheld : withheld = withheld') :
    { p with reports := reports, withheld := withheld, reclaimedTotal := total }.Shows
      { l with reports := reports', withheld := withheld', fetched := fetched } where
  sound := hp.sound.congr rfl rfl (List.Subset.refl _)
  idle := hp.idle
  claimed := hp.claimed
  idleBuffers := hp.idleBuffers
  idleBytes := hp.idleBytes
  reports := sameReports
  withheld := sameWithheld
  issued := hp.issued

/-- A handle that claims nothing is not in the line. -/
theorem unlisted_iff (hp : p.Shows l) :
    h ∉ l.waiting.map Prod.fst ↔ p.claimed? h = none := by
  rw [Option.eq_none_iff_forall_ne_some]
  constructor
  · intro hno b hb
    exact hno (List.mem_map_of_mem ((hp.claimed h b).1 hb))
  · intro hnone hmem
    obtain ⟨⟨j, b⟩, hj, rfl⟩ := List.mem_map.1 hmem
    exact hnone b ((hp.claimed j b).2 hj)

/-! ## What each command does -/

theorem park (hp : p.Shows l) (hl : l.Orderly) (b : Buffer) : (p.park b).2.Shows
    { l with waiting := l.waiting ++ [(p.vacancy, b)], issued := l.issued ++ [p.vacancy] } := by
  obtain ⟨hbuffers, hbytes⟩ := tally_park p b
  have hidle := idle_park hp.sound b
  have hcomplete := complete_park hp.sound (hp.tallied hl).complete b
  rw [hp.idle] at hidle
  rw [hp.idleBuffers] at hbuffers
  rw [hp.idleBytes] at hbytes
  refine ⟨hp.sound.park b, hidle, ?_, ?_, ?_, ?_, ?_, hp.issued.park hp.sound b⟩
  · intro j c
    show _ ↔ (j, c) ∈ l.waiting ++ [(p.vacancy, b)]
    rw [← hidle]
    exact hcomplete.mem_idle.symm
  · rw [hbuffers, List.length_append, List.length_singleton]
  · rw [hbytes, weight_append]
    rfl
  · exact (reports_park p b).trans hp.reports
  · exact (withheld_park p b).trans hp.withheld

theorem take (hp : p.Shows l) (hl : l.Orderly) (ht : p.take h = some (b, q)) :
    ∃ front back, l.waiting = front ++ (h, b) :: back ∧
      q.Shows { l with waiting := front ++ back } := by
  have hwaits := (hp.claimed h b).1 (claimed?_of_take ht)
  obtain ⟨front, back, hsplit⟩ := List.append_of_mem hwaits
  have hdistinct := hl.waiting
  rw [hsplit, List.map_append, List.map_cons, List.nodup_middle, List.nodup_cons,
    ← List.map_append] at hdistinct
  -- no other buffer waits under this handle
  have hothers : (front ++ back).filter (fun e => decide (e.1 ∉ [h])) = front ++ back := by
    apply List.filter_eq_self.2
    intro e he
    rw [decide_eq_true_iff, List.mem_singleton]
    intro heq
    exact hdistinct.1 (heq ▸ List.mem_map.2 ⟨e, he, rfl⟩)
  have hidle : q.idle = front ++ back := by
    rw [List.filter_append] at hothers
    rw [(Loses.take ht).idle, hp.idle, hsplit, List.filter_append,
      List.filter_cons_of_neg (by simp)]
    exact hothers
  have hkeeps : q.reports = p.reports ∧ q.withheld = p.withheld := by
    rw [eq_of_take ht]
    exact ⟨rfl, rfl⟩
  have htallied := (hp.tallied hl).take ht
  have hissued := hp.issued.take ht
  exact ⟨front, back, hsplit, of_tallied htallied (hp.sound.take ht) hissued hidle
    (hkeeps.1.trans hp.reports) (hkeeps.2.trans hp.withheld)⟩

theorem reclaim (hp : p.Shows l) (hl : l.Orderly) (keep : Nat) : (p.reclaimDownTo keep).2.Shows
    { l with
      waiting := lighter keep l.waiting
      reports := l.reports ++ (surplus keep l.waiting).map Prod.fst } := by
  have htallied := hp.tallied hl
  have hafter : (p.reclaimDownTo keep).2.Tallied := htallied.sufferAll [.downTo keep]
  obtain ⟨hsound, hissued⟩ :=
    reclaimDownTo_induction (kept_issued l.issued) keep ⟨hp.sound, hp.issued⟩
  have hidle := idle_reclaimDownTo htallied keep
  have hreports := reports_reclaimDownTo htallied keep
  rw [hp.idle] at hidle hreports
  rw [hp.reports] at hreports
  exact of_tallied hafter hsound hissued hidle hreports
    ((withheld_reclaimDownTo p keep).trans hp.withheld)

theorem perform (hp : p.Shows l) (hl : l.Orderly) (command : PoolCommand) :
    ∃ m, l.Serves command (p.perform command).1 m ∧ (p.perform command).2.Shows m := by
  cases command with
  | park b => exact ⟨_, .park (hp.issued.new hp.sound), hp.park hl b⟩
  | take h =>
    cases ht : p.take h with
    | none =>
      simp only [Pool.perform, ht]
      exact ⟨l, .miss (hp.unlisted_iff.2 (take_eq_none_iff.1 ht)), hp⟩
    | some taken =>
      simp only [Pool.perform, ht]
      obtain ⟨front, back, hsplit, hshows⟩ := hp.take hl ht
      exact ⟨_, .take hsplit, hshows⟩
  | reclaim keep =>
    have hyield := yield_reclaimDownTo (hp.tallied hl) keep
    rw [hp.idle] at hyield
    simp only [Pool.perform, hyield]
    refine ⟨_, .reclaim ?_ (weight_lighter keep l.waiting) ?_, hp.reclaim hl keep⟩
    · exact (surplus_append_lighter keep l.waiting).symm
    · intro fewer back hsplit hback
      exact surplus_needed hsplit hback
  | withhold h =>
    cases hr : p.reclaimSilently h with
    | none =>
      simp only [Pool.perform, hr]
      exact ⟨l, .spare (hp.unlisted_iff.2 (reclaimSilently_eq_none_iff.1 hr)), hp⟩
    | some reclaimed =>
      simp only [Pool.perform, hr]
      obtain ⟨b, rest, taken, -, hrest⟩ := take_of_reclaimSilently hr
      obtain ⟨front, back, hsplit, hshows⟩ := hp.take hl taken
      rw [hrest]
      exact ⟨_, .withhold hsplit, hshows.retell _ _ hshows.reports
        (congrArg (· ++ [h]) hshows.withheld)⟩
  | deliver h =>
    by_cases hdue : h ∈ p.withheld
    · simp only [Pool.perform, deliver, hdue, if_true]
      refine ⟨_, .deliver (hp.withheld ▸ hdue), hp.retell _ _ ?_ ?_⟩
      · exact congrArg (· ++ [h]) hp.reports
      · exact congrArg (·.erase h) hp.withheld
    · simp only [Pool.perform, deliver, hdue, if_false]
      exact ⟨l, .hush (hp.withheld ▸ hdue), hp⟩
  | fetch =>
    simp only [Pool.perform, Pool.fetch, hp.reports]
    exact ⟨_, .fetch, hp.retell _ _ rfl hp.withheld⟩

/-- A pool does what the line does, command after command. -/
theorem runBy_perform (hp : p.Shows l) (hl : l.Orderly) (commands : List PoolCommand) :
    ∃ m, l.ServesAll commands (p.runBy Pool.perform commands).1 m ∧
      (p.runBy Pool.perform commands).2.Shows m := by
  induction commands generalizing p l with
  | nil => exact ⟨l, .done l, hp⟩
  | cons command rest ih =>
    obtain ⟨m, hserves, hshows⟩ := hp.perform hl command
    obtain ⟨n, hrest, hlast⟩ := ih hshows (hl.serves hserves)
    exact ⟨n, .next hserves hrest, hlast⟩

end Shows

/-! ## Sweeping -/

theorem Sound.queued (hp : p.Sound) (b : Buffer) : (p.queued b).Sound := by
  have hswept : (p.queued b).sweep.Sound := hp.park b
  refine ⟨?_, ?_, ?_⟩
  · intro i
    have hfree := hswept.mem_free i
    rw [free_sweep, slots_sweep] at hfree
    exact hfree
  · have hdistinct := hswept.nodup_free
    rw [free_sweep] at hdistinct
    exact hdistinct
  · intro j hj
    rw [← isLive_congr (slots_sweep (p.queued b)), ← past_congr (slots_sweep (p.queued b))]
    show (p.park b).2.isLive j = true ∨ (p.park b).2.Past j
    rw [hp.isLive_park, hp.past_park]
    change j ∈ (p.place b).order ++ [p.vacancy] at hj
    rw [order_place, List.mem_append, List.mem_singleton] at hj
    rcases hj with hj | hj
    · exact (hp.parked j hj).imp_left Or.inl
    · exact Or.inl (Or.inr hj)

/-- Two pools differ at most in the dead handles of their queues. -/
structure Tidied (p q : Pool) : Prop where
  alike : p.Alike q
  reports : p.reports = q.reports
  withheld : p.withheld = q.withheld

namespace Tidied

variable {r u : Pool} {l : Line}

theorem refl (p : Pool) : p.Tidied p := ⟨.refl p, rfl, rfl⟩

theorem trans (hpq : p.Tidied q) (hqr : q.Tidied r) : p.Tidied r :=
  ⟨hpq.alike.trans hqr.alike, hpq.reports.trans hqr.reports, hpq.withheld.trans hqr.withheld⟩

theorem swept (p : Pool) : p.sweep.Tidied p :=
  ⟨⟨core_sweep p, liveOrder_sweep p⟩, reports_sweep p, withheld_sweep p⟩

theorem filtered (p : Pool) : p.Tidied { p with order := p.order.filter p.isLive } :=
  ⟨⟨rfl, (liveOrder_filter p).symm⟩, rfl, rfl⟩

/-- What a pool shows is also shown by one that is tidied. -/
theorem shows (hpq : p.Tidied q) (hp : p.Shows l) (hl : l.Orderly) (sound : q.Sound) :
    q.Shows l := by
  refine .of_tallied ((hp.tallied hl).alike hpq.alike) sound ?_ ?_ ?_ ?_
  · have hslots : q.slots = p.slots :=
      show q.core.slots = p.core.slots by rw [hpq.alike.core]
    intro j hj
    rw [isLive_congr hslots, past_congr hslots]
    exact hp.issued j hj
  · rw [← hpq.alike.idle, hp.idle]
  · rw [← hpq.reports, hp.reports]
  · rw [← hpq.withheld, hp.withheld]

theorem take (hpq : p.Tidied q) (ht : p.take h = some (b, r)) :
    ∃ u, q.take h = some (b, u) ∧ r.Tidied u := by
  obtain ⟨u, hu, halike⟩ := hpq.alike.take ht
  refine ⟨u, hu, halike, ?_, ?_⟩
  · rw [eq_of_take ht, eq_of_take hu]
    exact hpq.reports
  · rw [eq_of_take ht, eq_of_take hu]
    exact hpq.withheld

theorem claimed?_eq (hpq : p.Tidied q) : p.claimed? = q.claimed? := claimed?_of_core hpq.alike.core

theorem perform (tidy : Pool → Bool) (hpq : p.Tidied q) (hp : p.Tallied) (sound : p.Sound)
    (sound' : q.Sound) (command : PoolCommand) :
    (performTidily tidy q command).1 = (p.perform command).1 ∧
      (p.perform command).2.Tidied (performTidily tidy q command).2 ∧
      (performTidily tidy q command).2.Sound := by
  cases command with
  | park b =>
    obtain ⟨hhandle, halike⟩ := hpq.alike.park sound sound' b
    have hparked : (p.park b).2.Tidied (q.park b).2 := by
      refine ⟨halike, ?_, ?_⟩
      · rw [reports_park, reports_park, hpq.reports]
      · rw [withheld_park, withheld_park, hpq.withheld]
    -- both sweeps only take dead handles out of the queue
    have hqueued : (p.park b).2.Tidied (q.queued b) := hparked.trans (swept _)
    simp only [performTidily, parkTidily, Pool.perform]
    refine ⟨congrArg _ hhandle.symm, ?_, ?_⟩
    · split
      · exact hqueued.trans (filtered _)
      · exact hqueued
    · split
      · exact (sound'.queued b).congr rfl rfl (List.filter_subset_self _)
      · exact sound'.queued b
  | take h =>
    simp only [performTidily, Pool.perform]
    cases ht : p.take h with
    | none =>
      rw [take_eq_none_iff, hpq.claimed?_eq, ← take_eq_none_iff] at ht
      rw [ht]
      exact ⟨rfl, hpq, sound'⟩
    | some taken =>
      obtain ⟨u, hu, hrest⟩ := hpq.take ht
      rw [hu]
      exact ⟨rfl, hrest, sound'.take hu⟩
  | reclaim keep =>
    obtain ⟨hyield, halike⟩ := hpq.alike.reclaimDownTo keep
    have hreports := reports_reclaimDownTo hp keep
    have hreports' := reports_reclaimDownTo (hp.alike hpq.alike) keep
    -- what is given up is told by the idle buffers, which are the same on both sides
    rw [hpq.reports, hpq.alike.idle, ← hreports'] at hreports
    simp only [performTidily, Pool.perform]
    refine ⟨congrArg _ hyield.symm, ⟨halike, hreports, ?_⟩, ?_⟩
    · rw [withheld_reclaimDownTo, withheld_reclaimDownTo, hpq.withheld]
    · exact (reclaimDownTo_induction (kept_issued []) keep
        ⟨sound', fun _ hj => absurd hj List.not_mem_nil⟩).1
  | withhold h =>
    simp only [performTidily, Pool.perform]
    cases ht : p.take h with
    | none =>
      have hnone := ht
      rw [take_eq_none_iff, hpq.claimed?_eq, ← take_eq_none_iff] at hnone
      simp only [reclaimSilently, ht, hnone]
      exact ⟨trivial, hpq, sound'⟩
    | some taken =>
      obtain ⟨u, hu, hrest⟩ := hpq.take ht
      simp only [reclaimSilently, ht, hu]
      have htotal : taken.2.reclaimedTotal = u.reclaimedTotal := hrest.alike.reclaimedTotal
      refine ⟨trivial, ⟨⟨?_, hrest.alike.order⟩, hrest.reports, ?_⟩,
        (sound'.take hu).congr rfl rfl (List.Subset.refl _)⟩
      · show { taken.2.core with reclaimedTotal := taken.2.reclaimedTotal + 1 } =
          { u.core with reclaimedTotal := u.reclaimedTotal + 1 }
        rw [hrest.alike.core, htotal]
      · exact congrArg (· ++ [h]) hrest.withheld
  | deliver h =>
    simp only [performTidily, Pool.perform, deliver, ← hpq.withheld]
    split
    · refine ⟨trivial, ⟨⟨hpq.alike.core, hpq.alike.order⟩, congrArg (· ++ [h]) hpq.reports, rfl⟩, ?_⟩
      exact sound'.congr rfl rfl (List.Subset.refl _)
    · exact ⟨trivial, hpq, sound'⟩
  | fetch =>
    simp only [performTidily, Pool.perform, Pool.fetch]
    refine ⟨congrArg _ hpq.reports.symm, ⟨⟨hpq.alike.core, hpq.alike.order⟩, rfl, hpq.withheld⟩, ?_⟩
    exact sound'.congr rfl rfl (List.Subset.refl _)

/-- Whenever queues are swept, every run gets the same answers. -/
theorem runBy_tidily (tidy : Pool → Bool) (hpq : p.Tidied q) (hp : p.Shows l) (hl : l.Orderly)
    (sound : q.Sound) (commands : List PoolCommand) :
    (q.runBy (performTidily tidy) commands).1 = (p.runBy Pool.perform commands).1 ∧
      (p.runBy Pool.perform commands).2.Tidied (q.runBy (performTidily tidy) commands).2 ∧
      (q.runBy (performTidily tidy) commands).2.Sound := by
  induction commands generalizing p q l with
  | nil => exact ⟨rfl, hpq, sound⟩
  | cons command rest ih =>
    obtain ⟨hanswer, hafter, hsound⟩ := hpq.perform tidy (hp.tallied hl) hp.sound sound command
    obtain ⟨m, hserves, hshows⟩ := hp.perform hl command
    obtain ⟨hanswers, hlast⟩ := ih hafter hshows (hl.serves hserves) hsound
    simp only [runBy]
    exact ⟨by rw [hanswer, hanswers], hlast⟩

end Tidied

/-- The subtractions in a pool are covered, also those on the way when it is reclaimed, and then the
queue does not end too early. What has no handle in the line cannot be taken, and trying leaves the
pool as it is. -/
structure IsSafe (p : Pool) (l : Line) : Prop where
  covers : ∀ h, p.Covers h
  along : ∀ keep, p.SafeAlong keep p.order
  refuses : ∀ h, h ∉ l.waiting.map Prod.fst → p.perform (.take h) = (.taken none, p)

theorem Shows.isSafe {l : Line} (hp : p.Shows l) (hl : l.Orderly) : p.IsSafe l := by
  have htallied := hp.tallied hl
  refine ⟨htallied.covers, fun keep => htallied.countsAlong.safeAlong keep, ?_⟩
  intro h hno
  have hnone := take_eq_none_iff.2 (hp.unlisted_iff.1 hno)
  simp only [Pool.perform, hnone]

/-- A pool is a line of idle buffers, whatever is asked of it: its answers are those of the line, it
shows the line afterwards, and it would have given the same answers however its queue was swept. -/
theorem idle_buffers_wait_in_line (commands : List PoolCommand) :
    let served := empty.runBy Pool.perform commands
    ∃ line, Line.empty.ServesAll commands served.1 line ∧ line.Orderly ∧ served.2.Shows line ∧
      served.2.IsSafe line ∧
      ∀ tidy, (empty.runBy (performTidily tidy) commands).1 = served.1 ∧
        (empty.runBy (performTidily tidy) commands).2.Shows line := by
  intro served
  obtain ⟨line, hserves, hshows⟩ := Shows.empty.runBy_perform Line.orderly_empty commands
  have hline : line.Orderly := Line.orderly_empty.servesAll hserves
  refine ⟨line, hserves, hline, hshows, hshows.isSafe hline, ?_⟩
  intro tidy
  obtain ⟨hanswers, htidied, hsound⟩ :=
    (Tidied.refl empty).runBy_tidily tidy Shows.empty Line.orderly_empty sound_empty commands
  exact ⟨hanswers, htidied.shows hshows hline hsound⟩

end Pool

end BlobExchange
