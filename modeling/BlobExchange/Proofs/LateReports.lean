import BlobExchange.Proofs.AlikeOperations
import BlobExchange.Proofs.Reports
/-! # Late reports make no difference

Sessions stay alike when requests and reclamations are the same (`alike_step`, `alike_aside`). -/

namespace BlobExchange

/-- An answer without what depends on when reports come. -/
def Reply.timeless : Reply → Reply
  | .statistics snapshot => .statistics snapshot.timeless
  | .shelved _ => .shelved 0
  | reply => reply

/-- Whether a command only counts, catches up with reports, or lets others do something. -/
def Command.isAside : Command → Bool
  | .activeBlobs => true
  | .shelved => true
  | .statistics => true
  | .meanwhile _ => true
  | _ => false

namespace Session

/-- The idle buffer in which a command constructs a blob, with its place on the shelf, if there is
one that fits. -/
def reuses (s : Session) (others : Interference) : Command → Option (Hit Buffer)
  | .construct size => (s.exchange.catchUp others).shelf.fit size (s.exchange.catchUp others).pool
  | .write size _ => (s.exchange.catchUp others).shelf.fit size (s.exchange.catchUp others).pool
  | _ => none

/-- The same buffers were reclaimed at the same moments on the way from `s` to `t` and on the way
from `s'` to `t'`. -/
def StruckAlike (s t s' t' : Session) : Prop :=
  s.exchange.StruckAlike t.exchange s'.exchange t'.exchange

/-- The same buffers were reclaimed, one after the other, on the way from `s` to `t` and on the way
from `s'` to `t'`. -/
def LostAlike (s t s' t' : Session) : Prop :=
  ∃ blows blows', t.exchange.strikes = s.exchange.strikes ++ blows ∧
    t'.exchange.strikes = s'.exchange.strikes ++ blows' ∧ blows.flatten = blows'.flatten

/-- Two runs that differ only in when reports come. Either clients make the same request in both,
and others reclaim the same buffers at the same moments of it. Or nothing but counting, catching up
and others' doing takes place in either, as often as may be, and the same buffers are reclaimed. -/
inductive Abreast (settings : Settings) (supplier : Supplier) : List Move → List Move → Prop where
  | start : Abreast settings supplier [] []
  | request {moves moves' : List Move} (command : Command) (others others' : Interference)
      (before : Abreast settings supplier moves moves')
      (struck : StruckAlike
        ((Session.start settings supplier).run moves)
        ((Session.start settings supplier).run (moves ++ [⟨command, others⟩]))
        ((Session.start settings supplier).run moves')
        ((Session.start settings supplier).run (moves' ++ [⟨command, others'⟩]))) :
      Abreast settings supplier (moves ++ [⟨command, others⟩]) (moves' ++ [⟨command, others'⟩])
  | aside {moves moves' : List Move} (between between' : List Move)
      (before : Abreast settings supplier moves moves')
      (only : ∀ m ∈ between ++ between', m.command.isAside = true)
      (lost : LostAlike
        ((Session.start settings supplier).run moves)
        ((Session.start settings supplier).run (moves ++ between))
        ((Session.start settings supplier).run moves')
        ((Session.start settings supplier).run (moves' ++ between'))) :
      Abreast settings supplier (moves ++ between) (moves' ++ between')

theorem run_append (s : Session) (first later : List Move) :
    s.run (first ++ later) = (s.run first).run later :=
  List.foldl_append

/-- The handles are the same, and the exchanges are in sync and alike. -/
structure Alike (s s' : Session) : Prop where
  exchange : s.exchange.Alike s'.exchange
  left : s.exchange.InSync [] none
  right : s'.exchange.InSync [] none
  writers : s.writers = s'.writers
  readers : s.readers = s'.readers

variable {s s' : Session} {others others' : Interference}

/-! ## Requests -/

theorem Alike.welcome {x x' : Exchange} (h : s.Alike s') (hx : x.Alike x') {ε : Type}
    (claimed : Except ε Consumer) (hleft : x.InSync [] none) (hright : x'.InSync [] none) :
    (s.welcome x claimed).1 = (s'.welcome x' claimed).1 ∧
      (s.welcome x claimed).2.Alike (s'.welcome x' claimed).2 := by
  cases claimed with
  | error e => exact ⟨rfl, hx, hleft, hright, h.writers, h.readers⟩
  | ok c =>
    refine ⟨rfl, hx, hleft, hright, h.writers, ?_⟩
    show s.readers ++ _ = s'.readers ++ _
    rw [h.readers]

theorem Alike.writer? (h : s.Alike s') (place : Nat) : s.writer? place = s'.writer? place := by
  unfold Session.writer?
  rw [h.writers]

theorem Alike.reader? (h : s.Alike s') (place : Nat) : s.reader? place = s'.reader? place := by
  unfold Session.reader?
  rw [h.readers]

/-- Both answer alike and are alike afterwards. -/
def AnswerAlike (a b : Reply × Session) : Prop := a.1.timeless = b.1.timeless ∧ a.2.Alike b.2

theorem alike_construct (h : s.Alike s') (size : Nat)
    (hblow : s.exchange.blow others = s'.exchange.blow others') :
    AnswerAlike (s.construct size others) (s'.construct size others') := by
  obtain ⟨answer, x, x', hleft, hright, hafter⟩ :=
    (h.exchange.constructProducer h.left h.right size hblow).cases
  have hsx := h.left.constructProducer size others
  have hsx' := h.right.constructProducer size others'
  rw [hleft] at hsx
  rw [hright] at hsx'
  unfold construct
  rw [hleft, hright]
  cases answer with
  | error halt => exact ⟨rfl, hafter, hsx, hsx', h.writers, h.readers⟩
  | ok p =>
    refine ⟨rfl, hafter, hsx, hsx', ?_, h.readers⟩
    show s.writers ++ _ = s'.writers ++ _
    rw [h.writers]

theorem alike_write (h : s.Alike s') (size : Nat) (script : List Instruction)
    (hstruck : s.exchange.StruckAlike (Consumer.ofScript s.exchange size script others).exchange
      s'.exchange (Consumer.ofScript s'.exchange size script others').exchange) :
    AnswerAlike (s.write size script others) (s'.write size script others') := by
  obtain ⟨hproducer, hnotes, houtcome, hafter⟩ :=
    h.exchange.ofScript h.left h.right size script hstruck
  have hleft := h.left.ofScript size script others
  have hright := h.right.ofScript size script others'
  unfold Session.write
  generalize Consumer.ofScript s.exchange size script others = left at *
  generalize Consumer.ofScript s'.exchange size script others' = right at *
  obtain ⟨x, producer, notes, outcome⟩ := left
  obtain ⟨x', producer', notes', outcome'⟩ := right
  cases hproducer
  cases hnotes
  cases houtcome
  let newWriters := producer.toList.map fun p => (⟨p, false, scriptAppended script notes⟩ : Writer)
  have hwriters : s.writers ++ newWriters = s'.writers ++ newWriters := by rw [h.writers]
  have hgiven : Alike { s with writers := s.writers ++ newWriters }
      { s' with writers := s'.writers ++ newWriters } :=
    ⟨h.exchange, h.left, h.right, hwriters, h.readers⟩
  obtain ⟨hanswer, hwelcomed⟩ := hgiven.welcome hafter outcome hleft hright
  exact ⟨congrArg (Reply.written notes) hanswer, hwelcomed⟩

theorem alike_claim (h : s.Alike s') (id : BlobId) :
    AnswerAlike (s.step others (.claim id)) (s'.step others' (.claim id)) := by
  obtain ⟨hanswer, hafter⟩ := h.exchange.claimConsumer id
  have hwelcomed := h.welcome hafter (Consumer.claim s.exchange id).1 (h.left.claimConsumer id)
    (h.right.claimConsumer id)
  simp only [step]
  rw [← hanswer]
  exact ⟨congrArg Reply.claimed hwelcomed.1, hwelcomed.2⟩

theorem alike_claimFrom (h : s.Alike s') (message : Message) :
    AnswerAlike (s.step others (.claimFrom message)) (s'.step others' (.claimFrom message)) := by
  obtain ⟨hanswer, hrest, hafter⟩ := h.exchange.claimConsumerFrom message
  have hwelcomed := h.welcome hafter (Consumer.claimFrom s.exchange message).1
    (h.left.claimConsumerFrom message) (h.right.claimConsumerFrom message)
  simp only [step]
  rw [← hanswer, ← hrest]
  exact ⟨congrArg (Reply.claimedFrom _) hwelcomed.1, hwelcomed.2⟩

theorem alike_toWriter (h : s.Alike s') (place : Nat) (command : WriteCommand) :
    AnswerAlike (s.toWriter place command) (s'.toWriter place command) := by
  unfold toWriter
  rw [h.writer? place]
  cases s'.writer? place with
  | none => exact ⟨rfl, h⟩
  | some w =>
    obtain ⟨hreply, hafter⟩ := h.exchange.write w.producer command
    simp only
    rw [hreply, h.writers]
    refine ⟨rfl, hafter, ?_, ?_, rfl, h.readers⟩
    · exact h.left.write w.producer command
    · exact h.right.write w.producer command

theorem alike_toReader (h : s.Alike s') (place : Nat) (command : ReadCommand) :
    AnswerAlike (s.toReader place command) (s'.toReader place command) := by
  unfold toReader
  rw [h.reader? place]
  cases s'.reader? place with
  | none => exact ⟨rfl, h⟩
  | some r =>
    have hreply := h.exchange.read r.consumer command
    simp only
    rw [hreply, h.readers]
    exact ⟨rfl, h.exchange, h.left, h.right, h.writers, rfl⟩

theorem alike_finishWriter (h : s.Alike s') (place : Nat)
    (hstruck : StruckAlike s (s.finishWriter place others).2 s' (s'.finishWriter place others').2) :
    AnswerAlike (s.finishWriter place others) (s'.finishWriter place others') := by
  unfold finishWriter at hstruck ⊢
  rw [h.writer? place] at hstruck ⊢
  cases hw : s'.writer? place with
  | none => exact ⟨rfl, h⟩
  | some w =>
    rw [hw] at hstruck
    obtain ⟨hproducer, hafter⟩ := h.exchange.finishProducer h.left h.right w.producer hstruck
    simp only
    rw [hproducer, h.writers]
    refine ⟨rfl, hafter, ?_, ?_, rfl, h.readers⟩
    · exact h.left.finishProducer w.producer others
    · exact h.right.finishProducer w.producer others'

theorem alike_finishReader (h : s.Alike s') (place : Nat)
    (hstruck : StruckAlike s (s.finishReader place others).2 s' (s'.finishReader place others').2) :
    AnswerAlike (s.finishReader place others) (s'.finishReader place others') := by
  unfold finishReader at hstruck ⊢
  rw [h.reader? place] at hstruck ⊢
  cases hr : s'.reader? place with
  | none => exact ⟨rfl, h⟩
  | some r =>
    rw [hr] at hstruck
    obtain ⟨hconsumer, hafter⟩ := h.exchange.finishConsumer h.left h.right r.consumer hstruck
    simp only
    rw [hconsumer, h.readers]
    refine ⟨rfl, hafter, ?_, ?_, h.writers, rfl⟩
    · exact h.left.finishConsumer r.consumer others
    · exact h.right.finishConsumer r.consumer others'

theorem alike_dropWriter (h : s.Alike s') (place : Nat) :
    AnswerAlike (s.dropWriter place) (s'.dropWriter place) := by
  unfold dropWriter
  rw [h.writer? place]
  cases s'.writer? place with
  | none => exact ⟨rfl, h⟩
  | some w =>
    simp only
    rw [h.writers]
    refine ⟨rfl, h.exchange.dropProducer w.producer, ?_, ?_, rfl, h.readers⟩
    · exact h.left.dropProducer w.producer
    · exact h.right.dropProducer w.producer

theorem alike_dropReader (h : s.Alike s') (place : Nat) :
    AnswerAlike (s.dropReader place) (s'.dropReader place) := by
  unfold dropReader
  rw [h.reader? place]
  cases s'.reader? place with
  | none => exact ⟨rfl, h⟩
  | some r =>
    simp only
    rw [h.readers]
    refine ⟨rfl, h.exchange.dropConsumer r.consumer, ?_, ?_, h.writers, rfl⟩
    · exact h.left.dropConsumer r.consumer
    · exact h.right.dropConsumer r.consumer

theorem Alike.catchUp (h : s.Alike s') (hblow : s.exchange.blow others = s'.exchange.blow others') :
    Alike { s with exchange := s.exchange.catchUp others }
      { s' with exchange := s'.exchange.catchUp others' } :=
  ⟨h.exchange.catchUp h.left h.right hblow, h.left.catchUp others, h.right.catchUp others',
    h.writers, h.readers⟩

theorem exchange_construct (s : Session) (size : Nat) (others : Interference) :
    (s.construct size others).2.exchange = (Producer.construct s.exchange size others).2 := by
  unfold construct
  split <;> (rename_i heq; rw [heq])

theorem Alike.blow_of_construct {size : Nat}
    (hstruck : StruckAlike s (s.construct size others).2 s' (s'.construct size others').2) :
    s.exchange.blow others = s'.exchange.blow others' := by
  unfold StruckAlike at hstruck
  rw [exchange_construct, exchange_construct] at hstruck
  have hblows := (Exchange.struckAlike_iff (Exchange.strikes_construct s.exchange size others)
    (Exchange.strikes_construct s'.exchange size others')).1 hstruck
  exact List.head_eq_of_cons_eq hblows

theorem Alike.blow_of_catchUp (hstruck : StruckAlike s
      { s with exchange := s.exchange.catchUp others } s'
      { s' with exchange := s'.exchange.catchUp others' }) :
    s.exchange.blow others = s'.exchange.blow others' := by
  have hblows := (Exchange.struckAlike_iff (Exchange.strikes_catchUp s.exchange others)
    (Exchange.strikes_catchUp s'.exchange others')).1 hstruck
  exact List.head_eq_of_cons_eq hblows

/-- The same request has the same answer, and sessions that were alike stay alike. -/
theorem alike_step (h : s.Alike s') (command : Command)
    (hstruck : StruckAlike s (s.step others command).2 s' (s'.step others' command).2) :
    AnswerAlike (s.step others command) (s'.step others' command) := by
  cases command with
  | construct size => exact alike_construct h size (Alike.blow_of_construct hstruck)
  | write size script =>
    apply alike_write h size script
    unfold StruckAlike at hstruck
    simp only [step, write, exchange_welcome] at hstruck
    exact hstruck
  | claim id => exact alike_claim h id
  | claimFrom message => exact alike_claimFrom h message
  | toWriter place command => exact alike_toWriter h place command
  | finishWriter place => exact alike_finishWriter h place hstruck
  | dropWriter place => exact alike_dropWriter h place
  | toReader place command => exact alike_toReader h place command
  | finishReader place => exact alike_finishReader h place hstruck
  | dropReader place => exact alike_dropReader h place
  | activeBlobs =>
    refine ⟨congrArg Reply.activeBlobs ?_, h⟩
    show s.exchange.registry.size = s'.exchange.registry.size
    rw [h.exchange.registry]
  | shelved => exact ⟨rfl, h.catchUp (Alike.blow_of_catchUp hstruck)⟩
  | statistics =>
    -- the shelves may differ in stale entries, and the snapshots only in what counts those
    have hafter := h.catchUp (Alike.blow_of_catchUp hstruck)
    exact ⟨congrArg Reply.statistics hafter.exchange.statistics, hafter⟩
  | shrink =>
    obtain ⟨hbytes, hafter⟩ := h.exchange.shrink h.left h.right hstruck
    refine ⟨congrArg Reply.shrunk hbytes, hafter, ?_, ?_, h.writers, h.readers⟩
    · exact h.left.shrink others
    · exact h.right.shrink others'
  | reclaim keep =>
    obtain ⟨hyield, hafter⟩ := h.exchange.reclaimIdle keep
    refine ⟨congrArg Reply.reclaimed hyield, hafter, ?_, ?_, h.writers, h.readers⟩
    · exact h.left.reclaimIdle keep
    · exact h.right.reclaimIdle keep
  | meanwhile deeds =>
    have hlosses := (Exchange.struckAlike_iff (Exchange.strikes_amid s.exchange deeds)
      (Exchange.strikes_amid s'.exchange deeds)).1 hstruck
    refine ⟨rfl, h.exchange.amid (List.head_eq_of_cons_eq hlosses), ?_, ?_, h.writers, h.readers⟩
    · exact h.left.amid deeds
    · exact h.right.amid deeds

/-- What a command constructs a blob in is the same on both sides. -/
theorem reuses_alike (h : s.Alike s') (command : Command)
    (hstruck : StruckAlike s (s.step others command).2 s' (s'.step others' command).2) :
    s.reuses others command = s'.reuses others' command := by
  have hfit : s.exchange.blow others = s'.exchange.blow others' → ∀ size,
      (s.exchange.catchUp others).shelf.fit size (s.exchange.catchUp others).pool =
        (s'.exchange.catchUp others').shelf.fit size (s'.exchange.catchUp others').pool := by
    intro hblow size
    have hcaught := h.catchUp hblow
    exact hcaught.exchange.fit hcaught.left hcaught.right size
  cases command with
  | construct size => exact hfit (Alike.blow_of_construct hstruck) size
  | write size script =>
    refine hfit ?_ size
    unfold StruckAlike at hstruck
    simp only [step, write, exchange_welcome] at hstruck
    exact hstruck.blow_of_ofScript
  | _ => rfl

/-! ## On the side -/

/-- What a run on the side comes to: the loss of some buffers. -/
structure Bereaves (s t : Session) (blows : List (List Handle)) : Prop where
  strikes : t.exchange.strikes = s.exchange.strikes ++ blows
  exchange : t.exchange.Alike (s.exchange.without blows.flatten)
  inSync : t.exchange.InSync [] none
  writers : t.writers = s.writers
  readers : t.readers = s.readers

theorem bereaves_move (hs : s.exchange.InSync [] none) {m : Move}
    (hm : m.command.isAside = true) : ∃ blows, s.Bereaves (s.move m) blows := by
  obtain ⟨command, others⟩ := m
  have hcaught : s.Bereaves { s with exchange := s.exchange.catchUp others }
      [s.exchange.blow others] := by
    refine ⟨Exchange.strikes_catchUp s.exchange others, ?_, hs.catchUp others, rfl, rfl⟩
    rw [List.flatten_singleton]
    exact Exchange.Alike.caughtUp hs others
  cases command with
  | activeBlobs => exact ⟨[], (List.append_nil _).symm, .refl _, hs, rfl, rfl⟩
  | shelved => exact ⟨_, hcaught⟩
  | statistics => exact ⟨_, hcaught⟩
  | meanwhile deeds =>
    refine ⟨_, Exchange.strikes_amid s.exchange deeds, ?_, hs.amid deeds, rfl, rfl⟩
    rw [List.flatten_singleton]
    exact Exchange.Alike.struck s.exchange deeds
  | _ => cases hm

theorem bereaves_run (hs : s.exchange.InSync [] none) (moves : List Move)
    (only : ∀ m ∈ moves, m.command.isAside = true) : ∃ blows, s.Bereaves (s.run moves) blows := by
  induction moves generalizing s with
  | nil => exact ⟨[], (List.append_nil _).symm, .refl _, hs, rfl, rfl⟩
  | cons m rest ih =>
    obtain ⟨blows, hfirst⟩ := bereaves_move hs (only m List.mem_cons_self)
    obtain ⟨later, hlater⟩ := ih hfirst.inSync fun m' hm => only m' (List.mem_cons_of_mem m hm)
    refine ⟨blows ++ later, ?_, ?_, hlater.inSync, hlater.writers.trans hfirst.writers,
      hlater.readers.trans hfirst.readers⟩
    · rw [← List.append_assoc, ← hfirst.strikes]
      exact hlater.strikes
    · -- losing what was lost later besides what was lost first
      have hboth : (s.exchange.without blows.flatten).without later.flatten =
          s.exchange.without (blows ++ later).flatten := by
        unfold Exchange.without
        rw [List.flatten_append, Pool.surrenderAll_append]
      rw [← hboth]
      exact hlater.exchange.trans (hfirst.exchange.without later.flatten)

/-- Runs on the side in which the same buffers are lost leave sessions alike. -/
theorem alike_aside (h : s.Alike s') {moves moves' : List Move}
    (only : ∀ m ∈ moves ++ moves', m.command.isAside = true)
    (hlost : LostAlike s (s.run moves) s' (s'.run moves')) : (s.run moves).Alike (s'.run moves') := by
  obtain ⟨blows, hleft⟩ := bereaves_run h.left moves fun m hm =>
    only m (List.mem_append_left _ hm)
  obtain ⟨blows', hright⟩ := bereaves_run h.right moves' fun m hm =>
    only m (List.mem_append_right _ hm)
  obtain ⟨lost, lost', hstrikes, hstrikes', hsame⟩ := hlost
  have heq : blows = lost := List.append_cancel_left (hleft.strikes.symm.trans hstrikes)
  have heq' : blows' = lost' := List.append_cancel_left (hright.strikes.symm.trans hstrikes')
  rw [← heq, ← heq'] at hsame
  have hlostAlike := h.exchange.without blows.flatten
  rw [hsame] at hlostAlike
  have hexchange := hleft.exchange
  rw [hsame] at hexchange
  refine ⟨hexchange.trans (hlostAlike.trans hright.exchange.symm), hleft.inSync, hright.inSync, ?_,
    ?_⟩
  · rw [hleft.writers, hright.writers, h.writers]
  · rw [hleft.readers, hright.readers, h.readers]

variable {settings : Settings} {supplier : Supplier} {moves moves' : List Move}

/-- Runs that are abreast lead to sessions that are alike. -/
theorem alike_of_abreast (h : Abreast settings supplier moves moves') :
    ((start settings supplier).run moves).Alike ((start settings supplier).run moves') := by
  induction h with
  | start =>
    have hstart := Exchange.InSync.assemble settings supplier
    exact ⟨.refl _, hstart, hstart, rfl, rfl⟩
  | request command others others' _ struck ih =>
    rw [run_append, run_append] at struck ⊢
    exact (alike_step ih command struck).2
  | aside between between' _ only lost ih =>
    rw [run_append, run_append] at lost ⊢
    exact alike_aside ih only lost

/-! ## What clients can tell -/

/-- The same handles, with what was written and read through them, the same blobs, and the same
statistics but for what depends on when reports come. Once no report is outstanding, the shelves
are the same and nothing is awaited. -/
structure SameToClients (s s' : Session) : Prop where
  writers : s.writers = s'.writers
  readers : s.readers = s'.readers
  registry : s.exchange.registry = s'.exchange.registry
  blobIds : s.exchange.blobIds = s'.exchange.blobIds
  requests : s.exchange.requests = s'.exchange.requests
  statistics : s.exchange.statistics.timeless = s'.exchange.statistics.timeless
  idle : ∀ h, s.exchange.pool.claimed? h = s'.exchange.pool.claimed? h
  settled : s.exchange.pool.reports = [] → s.exchange.pool.withheld = [] →
    s'.exchange.pool.reports = [] → s'.exchange.pool.withheld = [] →
    s.exchange.shelf.entries = s'.exchange.shelf.entries ∧
      (∀ h, s.exchange.shelf.keys.get? h = s'.exchange.shelf.keys.get? h) ∧
      s.exchange.shelf.awaited = [] ∧ s'.exchange.shelf.awaited = []

/-- When no report is outstanding every entry is live. -/
theorem liveEntries_of_quiet {x : Exchange} (hx : x.InSync [] none) (reports : x.pool.reports = [])
    (withheld : x.pool.withheld = []) :
    x.shelf.liveEntries x.pool = x.shelf.entries ∧ x.shelf.awaited = [] := by
  obtain ⟨hawaited, hheld⟩ := hx.agreesWhenQuiet reports withheld
  refine ⟨?_, hawaited⟩
  apply List.filter_eq_self.2
  intro e he
  exact (hheld e.2).2.1 (List.mem_map_of_mem he)

theorem Alike.sameToClients (h : s.Alike s') : s.SameToClients s' where
  writers := h.writers
  readers := h.readers
  registry := h.exchange.registry
  blobIds := h.exchange.blobIds
  requests := h.exchange.requests
  statistics := h.exchange.statistics
  idle := fun j => by
    show s.exchange.pool.core.claimed? j = s'.exchange.pool.core.claimed? j
    rw [h.exchange.pool.core]
  settled := by
    intro hreports hwithheld hreports' hwithheld'
    -- with no report outstanding the live entries are all that there are
    obtain ⟨hlive, hawaited⟩ := liveEntries_of_quiet h.left hreports hwithheld
    obtain ⟨hlive', hawaited'⟩ := liveEntries_of_quiet h.right hreports' hwithheld'
    have hentries : s.exchange.shelf.entries = s'.exchange.shelf.entries := by
      rw [← hlive, ← hlive']
      exact h.exchange.entries
    refine ⟨hentries, fun j => ?_, hawaited, hawaited'⟩
    have hsound := Exchange.Alike.shelf_sound h.left
    have hsound' := Exchange.Alike.shelf_sound h.right
    apply Option.ext
    intro key
    rw [← hsound.inverse key j, ← hsound'.inverse key j, hentries]

/-- Two sessions are the same to clients, and so are the answers to whatever is asked next and the
idle buffer that is reused for it, if others reclaim the same buffers meanwhile. -/
structure Indistinguishable (s s' : Session) : Prop where
  same : s.SameToClients s'
  reuses : ∀ command others others',
    StruckAlike s (s.step others command).2 s' (s'.step others' command).2 →
      s.reuses others command = s'.reuses others' command
  answers : ∀ command others others',
    StruckAlike s (s.step others command).2 s' (s'.step others' command).2 →
      (s.step others command).1.timeless = (s'.step others' command).1.timeless

/-- Clients cannot tell runs apart that differ only in when reports come. -/
theorem late_reports_make_no_difference (h : Abreast settings supplier moves moves') :
    ((start settings supplier).run moves).Indistinguishable
      ((start settings supplier).run moves') := by
  have halike := alike_of_abreast h
  refine ⟨halike.sameToClients, ?_, ?_⟩
  · intro command others others' hstruck
    exact reuses_alike halike command hstruck
  · intro command others others' hstruck
    exact (alike_step halike command hstruck).1

/-- Two blobs end, and their buffers lie idle. -/
def twoIdle : List Move :=
  [⟨.construct 8, .absent⟩, ⟨.construct 8, .absent⟩, ⟨.finishWriter 0, .absent⟩,
    ⟨.finishWriter 1, .absent⟩]

/-- The first of two idle buffers is reclaimed and reported at once. -/
def promptReport : List Move :=
  twoIdle ++ [⟨.meanwhile [.downTo 8], .absent⟩] ++ [⟨.construct 8, .absent⟩]

/-- Its report is withheld until a search has found it gone, and fetched for a snapshot. -/
def lateReport : List Move :=
  twoIdle ++ [⟨.meanwhile [.silently ⟨0, 0⟩], .absent⟩] ++ [⟨.construct 8, .absent⟩] ++
    [⟨.meanwhile [.deliver ⟨0, 0⟩], .absent⟩, ⟨.statistics, .absent⟩]

theorem late_report_after_a_search :
    Abreast Settings.standard (.exact .standard) promptReport lateReport ∧
      ((start Settings.standard (.exact .standard)).run promptReport).Indistinguishable
        ((start Settings.standard (.exact .standard)).run lateReport) := by
  have hstart : Abreast Settings.standard (.exact .standard) [] [] := .start
  have hfirst := hstart.request (.construct 8) .absent .absent ⟨[[]], by decide, by decide⟩
  have hsecond := hfirst.request (.construct 8) .absent .absent ⟨[[]], by decide, by decide⟩
  have hended := hsecond.request (.finishWriter 0) .absent .absent
    ⟨[[], []], by decide, by decide⟩
  have hidle : Abreast Settings.standard (.exact .standard) twoIdle twoIdle :=
    hended.request (.finishWriter 1) .absent .absent ⟨[[], []], by decide, by decide⟩
  have hreclaimed := hidle.aside [⟨.meanwhile [.downTo 8], .absent⟩]
    [⟨.meanwhile [.silently ⟨0, 0⟩], .absent⟩] (by decide)
    ⟨[[⟨0, 0⟩]], [[⟨0, 0⟩]], by decide, by decide, rfl⟩
  have hreused := hreclaimed.request (.construct 8) .absent .absent
    ⟨[[]], by decide, by decide⟩
  have hlate : Abreast Settings.standard (.exact .standard) promptReport lateReport :=
    hreused.aside [] [⟨.meanwhile [.deliver ⟨0, 0⟩], .absent⟩, ⟨.statistics, .absent⟩] (by decide)
      ⟨[], [[], []], by decide, by decide, rfl⟩
  exact ⟨hlate, late_reports_make_no_difference hlate⟩

end Session

end BlobExchange
