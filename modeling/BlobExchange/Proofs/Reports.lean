import BlobExchange.Proofs.StruckSearch
import BlobExchange.Proofs.Synchrony
/-! # What becomes of a report

The shelf knows each report in exactly one way when its turn comes (`reports_always_known`). -/

namespace BlobExchange

namespace Exchange

variable (x : Exchange) (id : BlobId) (others : Interference)

theorem fetched_issue (size : Nat) (b : Buffer) (reused : Bool) :
    (x.issue size b reused).2.fetched = x.fetched := by
  unfold issue
  split
  · rfl
  · exact (fetched_note _ _).trans (List.append_nil _)

theorem fetched_construct (size : Nat) :
    (x.construct size others).2.fetched = x.fetched ++ x.pool.reports := by
  obtain ⟨y, hy, ⟨halt, heq⟩ | ⟨b, reused, heq⟩⟩ := construct_cases x size others
  · rw [heq]
    exact hy.fetched
  · rw [heq, fetched_issue]
    exact hy.fetched

theorem fetched_claim : (x.claim id).2.fetched = x.fetched := by
  unfold claim
  split
  · exact (fetched_note _ _).trans (List.append_nil _)
  · exact (fetched_note _ _).trans (List.append_nil _)

theorem fetched_dispose : (x.dispose id others).fetched = x.fetched := by
  cases htaken : x.registry.takeBuffer id with
  | none => rw [dispose_of_none htaken]
  | some taken =>
    rw [(dispose_of_takeBuffer htaken others).fetched, List.append_nil, fetched_note]
    exact List.append_nil _

theorem fetched_settle (release : Release) :
    (x.settle id release others).fetched = x.fetched := by
  cases release with
  | last => exact fetched_dispose x id others
  | retained => exact (fetched_note _ _).trans (List.append_nil _)
  | absent => rfl

theorem fetched_endProducer : (x.endProducer id others).fetched = x.fetched :=
  fetched_settle _ id others _

theorem fetched_endConsumer : (x.endConsumer id others).fetched = x.fetched :=
  fetched_settle _ id others _

end Exchange

section Handles

variable (p : Producer) (c : Consumer) (x : Exchange) (others : Interference)

theorem Producer.fetched_perform (command : WriteCommand) :
    (p.perform x command).2.fetched = x.fetched := by
  cases command with
  | fill source budget =>
    simp only [perform, fill]
    split <;> rfl
  | run script =>
    simp only [perform, run]
    split <;> rfl
  | announce message =>
    simp only [perform]
    split <;> rfl
  | held => rfl
  | capacity => rfl
  | fits additional => rfl

theorem Producer.fetched_finish : (p.finish x others).2.fetched = x.fetched := by
  unfold finish
  split
  · rfl
  · exact Exchange.fetched_endProducer x p.id others

theorem Consumer.fetched_finish : (c.finish x others).2.fetched = x.fetched := by
  unfold finish
  split
  · rfl
  · exact Exchange.fetched_endConsumer x c.id others

theorem Producer.fetched_drop : (p.drop x).fetched = x.fetched := by
  unfold drop
  split
  · rfl
  · exact (Exchange.fetched_note _ _).trans (List.append_nil _)

theorem Consumer.fetched_drop : (c.drop x).fetched = x.fetched := by
  unfold drop
  split
  · rfl
  · exact (Exchange.fetched_note _ _).trans (List.append_nil _)

theorem Producer.fetched_construct (size : Nat) :
    (Producer.construct x size others).2.fetched = x.fetched ++ x.pool.reports := by
  rw [← Exchange.fetched_construct x others size]
  unfold construct
  split <;> (rename_i heq; rw [heq])

theorem Consumer.fetched_claim (id : BlobId) : (Consumer.claim x id).2.fetched = x.fetched := by
  rw [← Exchange.fetched_claim x id]
  unfold claim
  split <;> (rename_i heq; rw [heq])

theorem Consumer.fetched_claimFrom (message : Message) :
    (Consumer.claimFrom x message).2.2.fetched = x.fetched := by
  unfold claimFrom
  split
  · rfl
  · exact fetched_claim x _

theorem Consumer.fetched_ofScript (size : Nat) (script : List Instruction) :
    (Consumer.ofScript x size script others).exchange.fetched = x.fetched ++ x.pool.reports := by
  rw [← Producer.fetched_construct x others size]
  unfold ofScript
  split
  · rename_i heq
    rw [heq]
  · rename_i producer y heq
    rw [heq]
    have hran : (producer.run y script).exchange.fetched = y.fetched :=
      producer.fetched_perform y (.run script)
    simp only
    split
    · rw [Producer.fetched_drop, hran]
    · rw [Producer.fetched_finish, hran]
    · rw [Producer.fetched_finish, Consumer.fetched_claim, hran]

end Handles

namespace Session

variable (s : Session) (others : Interference)

/-- The exchange at the moment at which a command catches up with the reports, if it does. -/
def catchingUp : Command → Option Exchange
  | .construct _ => some s.exchange
  | .write _ _ => some s.exchange
  | .shelved => some s.exchange
  | .statistics => some s.exchange
  | .shrink =>
    some ({ s.exchange with pool := (s.exchange.pool.reclaimDownTo 0).2 }.amid others.afterShrink)
  | _ => none

/-- The reports that a command finds when it catches up, none if it does not. -/
def found (command : Command) : List Handle :=
  match s.catchingUp others command with
  | some x => x.pool.reports
  | none => []

variable {s others} {command : Command} {x : Exchange}

theorem fetched_catchingUp (hx : s.catchingUp others command = some x) :
    (s.step others command).2.exchange.fetched = s.exchange.fetched ++ x.pool.reports := by
  cases command with
  | construct size =>
    cases hx
    rw [← Producer.fetched_construct s.exchange others size]
    simp only [step, construct]
    split <;> (rename_i heq; rw [heq])
  | write size script =>
    cases hx
    simp only [step, write, exchange_welcome]
    exact Consumer.fetched_ofScript s.exchange others size script
  | shelved =>
    cases hx
    exact (Exchange.Backstage.catchUp s.exchange others).fetched
  | statistics =>
    cases hx
    exact (Exchange.Backstage.catchUp s.exchange others).fetched
  | shrink =>
    cases hx
    -- everything is reclaimed before the reports are fetched, so they are among what is found
    let reclaimed := { s.exchange with pool := (s.exchange.pool.reclaimDownTo 0).2 }
    have hstruck : Exchange.Backstage s.exchange (reclaimed.amid others.afterShrink) [] :=
      (Exchange.Backstage.withPool s.exchange _).after (.amid reclaimed others.afterShrink)
    exact ((hstruck.after (.catchUp _ others)).before (.note _ _ rfl)).fetched
  | _ => cases hx

/-- A command that does not catch up fetches nothing. -/
theorem fetched_apart (hnone : s.catchingUp others command = none) :
    (s.step others command).2.exchange.fetched = s.exchange.fetched := by
  cases command with
  | claim id =>
    simp only [step, exchange_welcome]
    exact Consumer.fetched_claim s.exchange id
  | claimFrom message =>
    simp only [step, exchange_welcome]
    exact Consumer.fetched_claimFrom s.exchange message
  | toWriter place command =>
    simp only [step, toWriter]
    split
    · rfl
    · exact Producer.fetched_perform _ s.exchange command
  | finishWriter place =>
    simp only [step, finishWriter]
    split
    · rfl
    · exact Producer.fetched_finish _ s.exchange others
  | dropWriter place =>
    simp only [step, dropWriter]
    split
    · rfl
    · exact Producer.fetched_drop _ s.exchange
  | toReader place command =>
    simp only [step, toReader]
    split <;> rfl
  | finishReader place =>
    simp only [step, finishReader]
    split
    · rfl
    · exact Consumer.fetched_finish _ s.exchange others
  | dropReader place =>
    simp only [step, dropReader]
    split
    · rfl
    · exact Consumer.fetched_drop _ s.exchange
  | activeBlobs => rfl
  | reclaim keep =>
    rw [← List.append_nil s.exchange.fetched]
    exact (Exchange.Backstage.reclaimIdle s.exchange keep).fetched
  | meanwhile deeds => exact Exchange.fetched_amid s.exchange deeds
  | _ => cases hnone

variable (s others) in
/-- What a command fetches is what it finds when it catches up. -/
theorem fetched_step (command : Command) :
    (s.step others command).2.exchange.fetched =
      s.exchange.fetched ++ s.found others command := by
  unfold found
  cases hx : s.catchingUp others command with
  | some x => exact fetched_catchingUp hx
  | none => exact (fetched_apart hx).trans (List.append_nil _).symm

theorem inSync_catchingUp (hs : s.exchange.InSync [] none)
    (hx : s.catchingUp others command = some x) : x.InSync [] none := by
  cases command with
  | shrink =>
    cases hx
    exact (hs.reclaimDownTo 0).amid others.afterShrink
  | construct size => cases hx; exact hs
  | write size script => cases hx; exact hs
  | shelved => cases hx; exact hs
  | statistics => cases hx; exact hs
  | _ => cases hx

end Session

namespace Exchange

/-- The shelf knows every report that catching up fetches, in exactly one way when its turn comes,
and so can acknowledge it. -/
def KnowsReports (x : Exchange) (others : Interference) : Prop :=
  ∀ first h later, (x.fetchAmid others).1 = first ++ h :: later →
    let shelf := ((x.fetchAmid others).2.acknowledge first).shelf
    (shelf.Holds h ∨ h ∈ shelf.awaited) ∧ ¬ (shelf.Holds h ∧ h ∈ shelf.awaited) ∧
      ∃ after, shelf.acknowledge h = some after

/-- While no report is outstanding, nothing is awaited, and the handles on the shelf are those of
the buffers in the pool. -/
def AgreesWhenQuiet (x : Exchange) : Prop :=
  x.pool.reports = [] → x.pool.withheld = [] →
    x.shelf.awaited = [] ∧ ∀ h, (x.shelf.Holds h ↔ x.pool.isLive h = true) ∧
      (h ∈ x.shelf.entries.map Prod.snd ↔ x.pool.isLive h = true)

namespace InSync

variable {x : Exchange}

theorem knowsReports (hx : x.InSync [] none) (others : Interference) : x.KnowsReports others := by
  intro first h later heq
  have hfetched := hx.fetchAmid others
  rw [heq] at hfetched
  -- with those before it acknowledged, the report is the next that is due
  have hdue := hfetched.acknowledge first
  obtain ⟨done, -, ht⟩ := hdue.tracks
  obtain ⟨after, hafter, -⟩ := ht.acknowledge
  obtain ⟨hone, hnotboth⟩ := ht.exactly_one
  exact ⟨hone, hnotboth, after, hafter⟩

theorem agreesWhenQuiet (hx : x.InSync [] none) : x.AgreesWhenQuiet := by
  intro hreports hwithheld
  obtain ⟨done, -, ht⟩ := hx.tracks
  obtain ⟨hawaited, hheld⟩ := ht.caughtUp hreports hwithheld
  refine ⟨hawaited, fun h => ⟨hheld h, ?_⟩⟩
  rw [← ht.shelf.holds_iff]
  exact hheld h

theorem nodup_reported (hx : x.InSync [] none) :
    (x.fetched ++ x.pool.reports ++ x.pool.withheld).Nodup := by
  obtain ⟨done, hdone, ht⟩ := hx.tracks
  have hnodup := ht.nodup
  rw [List.append_nil] at hdone hnodup
  rw [hdone, List.append_assoc]
  exact hnodup

/-- What others do during a search keeps shelf and pool in sync, since it amounts to what they may do
before. -/
theorem takeIdleAmid (hx : x.InSync [] none) (others : Interference) (size : Nat)
    (tries : List (List Reclamation)) :
    ((x.catchUp others).takeIdleAmid size tries).2.InSync [] none := by
  obtain ⟨count, heq⟩ := takeIdle_amid x others size tries
  rw [heq]
  exact ((hx.catchUp _).takeIdle size).congr rfl rfl rfl rfl rfl

end InSync

end Exchange

namespace Session

/-- Whatever clients asked and others did, no report was unknown and no handle was reported twice.
What a command fetches are the reports that it finds when it catches up. At that moment the shelf
knows each of them in exactly one way, and afterwards shelf and pool agree unless a report is
outstanding. So they do between commands, and after a search, even if others strike before each of
its tries. -/
theorem reports_always_known (settings : Settings) (supplier : Supplier) (moves : List Move) :
    let s := (start settings supplier).run moves
    s.exchange.orphan = none ∧
    (s.exchange.fetched ++ s.exchange.pool.reports ++ s.exchange.pool.withheld).Nodup ∧
    s.exchange.AgreesWhenQuiet ∧
    (∀ others command, (s.step others command).2.exchange.fetched =
      s.exchange.fetched ++ s.found others command) ∧
    (∀ others command x, s.catchingUp others command = some x →
      x.KnowsReports others ∧ (x.catchUp others).orphan = none ∧
        (x.catchUp others).AgreesWhenQuiet) ∧
    ∀ others size tries, let x := ((s.exchange.catchUp others).takeIdleAmid size tries).2
      x.orphan = none ∧ (x.fetched ++ x.pool.reports ++ x.pool.withheld).Nodup ∧
        x.AgreesWhenQuiet := by
  intro s
  have hs : s.exchange.InSync [] none := inSync_run settings supplier moves
  refine ⟨hs.trusted, hs.nodup_reported, hs.agreesWhenQuiet, fetched_step s, ?_, ?_⟩
  · intro others command x hx
    have hat := inSync_catchingUp hs hx
    have hafter := hat.catchUp others
    exact ⟨hat.knowsReports others, hafter.trusted, hafter.agreesWhenQuiet⟩
  · intro others size tries x
    have hx : x.InSync [] none := hs.takeIdleAmid others size tries
    exact ⟨hx.trusted, hx.nodup_reported, hx.agreesWhenQuiet⟩

end Session

end BlobExchange
