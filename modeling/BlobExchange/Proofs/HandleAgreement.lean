import BlobExchange.Proofs.Access
import BlobExchange.Proofs.Synchrony
import Mathlib.Data.List.Nodup
/-! # What the handles tell of a blob

Every move keeps the exchange in agreement with the handles that the session gave out
(`consistent_step`). -/

namespace BlobExchange

section Lists

variable {α β : Type} {l : List α} {place : Nat} {a b : α} {f : α → β}

theorem set_same (h : l[place]? = some a) : l.set place a = l := by
  obtain ⟨hlt, rfl⟩ := List.getElem?_eq_some_iff.1 h
  exact List.set_getElem_self hlt

theorem map_set_same (h : l[place]? = some a) (hf : f b = f a) :
    (l.set place b).map f = l.map f := by
  rw [List.map_set, hf]
  apply set_same
  rw [List.getElem?_map, h]
  rfl

end Lists

namespace Session

def openReaders (readers : List Reader) (id : BlobId) : Nat :=
  readers.countP fun r => r.isOpen && decide (r.id = id)

def claimsOf (w : Writer) (readers : List Reader) : Claims := ⟨w.isOpen, openReaders readers w.id⟩

/-- How a blob stands, going by the handles. -/
def standing (writers : List Writer) (readers : List Reader) (id : BlobId) : Standing :=
  match writers.find? fun w => decide (w.id = id) with
  | none => .unissued
  | some w => .of (claimsOf w readers) w.log

section Standing

variable {writers : List Writer} {readers : List Reader} {w v : Writer} {r q : Reader}
  {place : Nat} {id : BlobId}

theorem find_writer (distinct : (writers.map Writer.id).Nodup) (hw : w ∈ writers) :
    writers.find? (fun v => decide (v.id = w.id)) = some w := by
  induction writers with
  | nil => cases hw
  | cons a rest ih =>
    rw [List.map_cons, List.nodup_cons] at distinct
    rcases List.mem_cons.1 hw with rfl | hw
    · exact List.find?_cons_of_pos (decide_eq_true rfl)
    · have hne : ¬ a.id = w.id := fun heq => distinct.1 (heq ▸ List.mem_map_of_mem hw)
      rw [List.find?_cons_of_neg (by simpa using hne)]
      exact ih distinct.2 hw

theorem standing_of_mem (distinct : (writers.map Writer.id).Nodup) (hw : w ∈ writers) :
    standing writers readers w.id = .of (claimsOf w readers) w.log := by
  unfold standing
  rw [find_writer distinct hw]

theorem standing_of_not_mem (hid : ∀ w ∈ writers, w.id ≠ id) :
    standing writers readers id = .unissued := by
  have hnone : writers.find? (fun v => decide (v.id = id)) = none := by
    rw [List.find?_eq_none]
    intro w hw
    simpa using hid w hw
  unfold standing
  rw [hnone]

theorem standing_append_writer (hid : w.id ≠ id) :
    standing (writers ++ [w]) readers id = standing writers readers id := by
  unfold standing
  rw [List.find?_append]
  cases writers.find? fun v => decide (v.id = id) with
  | none => simp [hid]
  | some v => rfl

theorem standing_set_writer (hw : writers[place]? = some w) (hv : v.id = w.id) (hid : w.id ≠ id) :
    standing (writers.set place v) readers id = standing writers readers id := by
  have hfind : (writers.set place v).find? (fun u => decide (u.id = id)) =
      writers.find? (fun u => decide (u.id = id)) := by
    induction writers generalizing place with
    | nil => rfl
    | cons a rest ih =>
      cases place with
      | zero =>
        cases hw
        have hva : ¬ v.id = id := fun heq => hid (hv ▸ heq)
        rw [List.set_cons_zero, List.find?_cons_of_neg (by simpa using hva),
          List.find?_cons_of_neg (by simpa using hid)]
      | succ k =>
        rw [List.set_cons_succ, List.find?_cons, List.find?_cons, ih hw]
  unfold standing
  rw [hfind]

theorem openReaders_append (readers : List Reader) (r : Reader) (id : BlobId) :
    openReaders (readers ++ [r]) id =
      openReaders readers id + if r.isOpen && decide (r.id = id) then 1 else 0 := by
  unfold openReaders
  rw [List.countP_append, List.countP_singleton]

theorem openReaders_set (hr : readers[place]? = some r) (id : BlobId) :
    openReaders (readers.set place q) id =
      openReaders readers id - (if r.isOpen && decide (r.id = id) then 1 else 0) +
        if q.isOpen && decide (q.id = id) then 1 else 0 := by
  obtain ⟨hlt, heq⟩ := List.getElem?_eq_some_iff.1 hr
  unfold openReaders
  rw [List.countP_set hlt, heq]

/-- A reader that stays open or closed counts as before. -/
theorem openReaders_set_same (hr : readers[place]? = some r) (hid : q.id = r.id)
    (hopen : q.isOpen = r.isOpen) (id : BlobId) :
    openReaders (readers.set place q) id = openReaders readers id := by
  rw [openReaders_set hr, hid, hopen]
  by_cases hcounts : (r.isOpen && decide (r.id = id)) = true
  · have hpos : 0 < openReaders readers id := by
      unfold openReaders
      rw [List.countP_pos_iff]
      exact ⟨r, List.mem_of_getElem? hr, hcounts⟩
    rw [if_pos hcounts]
    omega
  · rw [if_neg hcounts]
    omega

/-- Readers count through the claims that they make. -/
theorem standing_congr {others : List Reader}
    (h : openReaders others id = openReaders readers id) :
    standing writers others id = standing writers readers id := by
  unfold standing
  cases hfind : writers.find? fun v => decide (v.id = id) with
  | none => rfl
  | some w =>
    have hw : w.id = id := by simpa using List.find?_some hfind
    simp only [claimsOf, hw, h]

end Standing

/-- A reader has been delivered what lies before its cursor, which is within the content. -/
def Reads (r : Reader) (content : Bytes) : Prop :=
  r.consumer.cursor.position ≤ content.length ∧ r.log = content.take r.consumer.cursor.position

theorem Reads.append {r : Reader} {content : Bytes} (hr : Reads r content) (more : Bytes) :
    Reads r (content ++ more) := by
  obtain ⟨hposition, hlog⟩ := hr
  refine ⟨?_, ?_⟩
  · rw [List.length_append]
    omega
  · rw [List.take_append_of_le_length hposition]
    exact hlog

/-- Exchange and handles agree. -/
structure Consistent (s : Session) : Prop where
  numbered : s.writers.map Writer.id =
    (List.range s.writers.length).map fun k => ⟨Int64.ofNat (k + 1)⟩
  upcoming : s.exchange.blobIds.upcoming = s.writers.length + 1
  bounded : s.writers.length + 1 ≤ Size.largest
  issued : ∀ r ∈ s.readers, ∃ w ∈ s.writers, w.id = r.id
  stands : ∀ id, s.exchange.Stands id (standing s.writers s.readers id)
  reads : ∀ r ∈ s.readers, r.isOpen = true → r.fair = true →
    ∀ w ∈ s.writers, w.id = r.id → Reads r w.log

namespace Consistent

variable {s : Session} {x : Exchange} {w v : Writer} {r q : Reader} {place : Nat} {id : BlobId}

theorem start (settings : Settings) (supplier : Supplier) :
    (Session.start settings supplier).Consistent where
  numbered := rfl
  upcoming := rfl
  bounded := show 0 + 1 ≤ Size.largest by decide
  issued := fun _ hr => absurd hr List.not_mem_nil
  stands := fun _ => ⟨rfl, rfl, rfl⟩
  reads := fun _ hr => absurd hr List.not_mem_nil

theorem ofNat_injective {m n : Nat} (hm : m ≤ Size.largest) (hn : n ≤ Size.largest)
    (h : Int64.ofNat m = Int64.ofNat n) : m = n := by
  have h64 := congrArg Int64.toUInt64 h
  have hnat : m % (Size.largest + 1) = n % (Size.largest + 1) := congrArg UInt64.toNat h64
  rw [Nat.mod_eq_of_lt (Nat.lt_succ_of_le hm), Nat.mod_eq_of_lt (Nat.lt_succ_of_le hn)] at hnat
  exact hnat

/-- Identifiers are distinct as long as the counter has not run out. -/
theorem distinct (hs : s.Consistent) : (s.writers.map Writer.id).Nodup := by
  rw [hs.numbered]
  refine List.Nodup.map_on ?_ List.nodup_range
  intro m hm n hn heq
  have hbound := hs.bounded
  rw [List.mem_range] at hm hn
  have hraw := ofNat_injective (m := m + 1) (n := n + 1) (by omega) (by omega)
    (congrArg BlobId.raw heq)
  omega

theorem next_new (hs : s.Consistent) :
    ∀ w ∈ s.writers, w.id ≠ s.exchange.blobIds.nextId.1 := by
  intro w hw heq
  have hmem : w.id ∈ s.writers.map Writer.id := List.mem_map_of_mem hw
  rw [hs.numbered, List.mem_map] at hmem
  obtain ⟨k, hk, hid⟩ := hmem
  rw [List.mem_range] at hk
  have hbound := hs.bounded
  rw [← hid, Sequence.nextId, hs.upcoming] at heq
  have hraw := ofNat_injective (m := k + 1) (n := s.writers.length + 1) (by omega) (by omega)
    (congrArg BlobId.raw heq)
  omega

/-! ## Handles given out -/

theorem backstage (hs : s.Consistent) {reports : List Handle}
    (hx : Exchange.Backstage s.exchange x reports) : { s with exchange := x }.Consistent where
  numbered := hs.numbered
  upcoming := (congrArg Sequence.upcoming hx.blobIds).trans hs.upcoming
  bounded := hs.bounded
  issued := hs.issued
  stands := fun id => hx.stands (hs.stands id)
  reads := hs.reads

theorem note (hs : s.Consistent) (e : Event) (quiet : e.ended = []) :
    { s with exchange := s.exchange.note e }.Consistent :=
  hs.backstage (.note _ e quiet)

/-- The next blob has no readers, because readers are readers of issued blobs. -/
theorem openReaders_next (hs : s.Consistent) :
    openReaders s.readers s.exchange.blobIds.nextId.1 = 0 := by
  unfold openReaders
  rw [List.countP_eq_zero]
  intro r hr
  obtain ⟨w, hw, hwr⟩ := hs.issued r hr
  have hne := hs.next_new w hw
  rw [hwr] at hne
  simp [hne]

/-- With a writer of its own the next blob is active and empty. -/
theorem standing_next (hs : s.Consistent) (held : Bool) :
    standing (s.writers ++ [⟨⟨s.exchange.blobIds.nextId.1, false⟩, held, []⟩]) s.readers
      s.exchange.blobIds.nextId.1 = .active ⟨true, 0⟩ [] := by
  have hnone : s.writers.find? (fun w => decide (w.id = s.exchange.blobIds.nextId.1)) = none :=
    List.find?_eq_none.2 (by simpa using hs.next_new)
  unfold standing
  rw [List.find?_append, hnone]
  simp [Writer.id, claimsOf, hs.openReaders_next, Writer.isOpen, Standing.of, Claims.released]

/-- A blob that is issued gets an open writer. -/
theorem issue (hs : s.Consistent) {size : Nat} {b : Buffer} {reused held : Bool}
    (hx : s.exchange.issue size b reused = (.ok id, x)) :
    Consistent ⟨x, s.writers ++ [⟨⟨id, false⟩, held, []⟩], s.readers⟩ := by
  have hnew := hs.next_new
  cases hspent : s.exchange.blobIds.isSpent with
  | true =>
    rw [Exchange.issue_of_spent hspent] at hx
    cases hx
  | false =>
    have hunissued := hs.stands s.exchange.blobIds.nextId.1
    rw [standing_of_not_mem hnew] at hunissued
    obtain ⟨hid, hstands, hsame, hids⟩ := Exchange.stands_issue hspent hunissued size b reused
    rw [hx] at hid hstands hsame hids
    cases hid
    have hfresh : Int64.ofNat (s.writers.length + 1) = s.exchange.blobIds.nextId.1.raw := by
      rw [Sequence.nextId, hs.upcoming]
    refine ⟨?_, ?_, ?_, ?_, ?_, ?_⟩
    · rw [List.map_append, hs.numbered, List.length_append, List.length_singleton,
        List.range_succ, List.map_append, List.map_singleton, List.map_singleton, hfresh]
      rfl
    · rw [List.length_append, List.length_singleton, ← hs.upcoming]
      exact congrArg Sequence.upcoming hids
    · -- a counter that is not spent has room for one more
      have hroom := hs.upcoming ▸ of_decide_eq_false hspent
      rw [List.length_append, List.length_singleton]
      omega
    · intro r hr
      obtain ⟨w, hw, hwr⟩ := hs.issued r hr
      exact ⟨w, List.mem_append_left _ hw, hwr⟩
    · intro j
      by_cases hj : j = s.exchange.blobIds.nextId.1
      · subst hj
        rw [hs.standing_next held]
        exact hstands
      · rw [standing_append_writer (fun heq => hj heq.symm)]
        exact hsame j _ hj (hs.stands j)
    · intro r hr hopen hfair w hw hwr
      rcases List.mem_append.1 hw with hw | hw
      · exact hs.reads r hr hopen hfair w hw hwr
      · -- no reader reads the new blob
        obtain ⟨v, hv, hvr⟩ := hs.issued r hr
        obtain rfl := List.mem_singleton.1 hw
        exact absurd (hvr.trans hwr.symm) (hnew v hv)

/-- A blob with claims entered has a writer, whose content it holds. -/
theorem active_of_claims (hs : s.Consistent) {claims : Claims}
    (hclaims : s.exchange.registry.claims.get? id = some claims) :
    ∃ w ∈ s.writers, w.id = id ∧ claims = claimsOf w s.readers ∧
      s.exchange.Stands id (.active claims w.log) := by
  have hstands := hs.stands id
  cases hfind : s.writers.find? fun v => decide (v.id = id) with
  | none =>
    rw [standing, hfind] at hstands
    obtain ⟨hnone, -⟩ := hstands
    rw [hclaims] at hnone
    cases hnone
  | some w =>
    have hw : w.id = id := by simpa using List.find?_some hfind
    rw [standing, hfind] at hstands
    simp only [Standing.of] at hstands
    split at hstands
    · obtain ⟨hnone, -⟩ := hstands
      rw [hclaims] at hnone
      cases hnone
    · have hactive := hstands
      obtain ⟨-, heq, -⟩ := hactive
      rw [hclaims, Option.some.injEq] at heq
      refine ⟨w, List.mem_of_find?_eq_some hfind, hw, heq, ?_⟩
      rw [heq]
      exact hstands

theorem claim_of_ok (hok : (s.exchange.claim id).1 = .ok ()) :
    Consumer.claim s.exchange id = (.ok ⟨id, Cursor.start, false⟩, (s.exchange.claim id).2) := by
  unfold Consumer.claim
  generalize s.exchange.claim id = claimed at hok ⊢
  obtain ⟨outcome, y⟩ := claimed
  cases hok
  rfl

theorem openReaders_welcome (readers : List Reader) (id j : BlobId) :
    openReaders (readers ++ [Reader.ofConsumer ⟨id, Cursor.start, false⟩]) j =
      openReaders readers j + if id = j then 1 else 0 := by
  rw [openReaders_append]
  by_cases hj : id = j
  · simp [Reader.ofConsumer, Reader.isOpen, Reader.id, hj]
  · simp [Reader.ofConsumer, Reader.isOpen, Reader.id, hj]

theorem claim (hs : s.Consistent) {c : Consumer}
    (hx : Consumer.claim s.exchange id = (.ok c, x)) :
    Consistent ⟨x, s.writers, s.readers ++ [Reader.ofConsumer c]⟩ := by
  cases hclaims : s.exchange.registry.claims.get? id with
  | none =>
    unfold Consumer.claim at hx
    rw [Exchange.claim_of_unknown hclaims] at hx
    cases hx
  | some claims =>
    obtain ⟨w, hw, rfl, rfl, hactive⟩ := hs.active_of_claims hclaims
    obtain ⟨hok, hstands⟩ := Exchange.stands_claim hactive
    have hsame := Exchange.sameBut_claim s.exchange w.id
    have hids : (s.exchange.claim w.id).2.blobIds = s.exchange.blobIds := by
      unfold Exchange.claim
      split <;> rfl
    rw [claim_of_ok hok] at hx
    cases hx
    have hmore := openReaders_welcome s.readers w.id
    refine ⟨hs.numbered, (congrArg Sequence.upcoming hids).trans hs.upcoming, hs.bounded, ?_, ?_, ?_⟩
    · intro r hr
      rcases List.mem_append.1 hr with hr | hr
      · exact hs.issued r hr
      · obtain rfl := List.mem_singleton.1 hr
        exact ⟨w, hw, rfl⟩
    · intro j
      by_cases hj : j = w.id
      · subst hj
        rw [standing_of_mem hs.distinct hw]
        have hclaims := hmore w.id
        rw [if_pos rfl] at hclaims
        simp only [claimsOf, hclaims, Standing.of, Claims.released]
        simpa [claimsOf] using hstands
      · -- the readers of another blob are as many as before
        have hcount := hmore j
        rw [if_neg (fun heq => hj heq.symm)] at hcount
        rw [standing_congr hcount]
        exact hsame j _ hj (hs.stands j)
    · intro r hr hopen hfair v hv hvr
      rcases List.mem_append.1 hr with hr | hr
      · exact hs.reads r hr hopen hfair v hv hvr
      · obtain rfl := List.mem_singleton.1 hr
        exact ⟨Nat.zero_le _, rfl⟩

theorem claim_refused (hs : s.Consistent) {e : BlobError}
    (hx : Consumer.claim s.exchange id = (.error e, x)) :
    Consistent ⟨x, s.writers, s.readers⟩ := by
  cases hclaims : s.exchange.registry.claims.get? id with
  | none =>
    unfold Consumer.claim at hx
    rw [Exchange.claim_of_unknown hclaims] at hx
    cases hx
    exact hs.note _ rfl
  | some claims =>
    -- a blob with claims entered does not refuse another
    obtain ⟨w, -, -, -, hactive⟩ := hs.active_of_claims hclaims
    obtain ⟨hok, -⟩ := Exchange.stands_claim hactive
    unfold Consumer.claim at hx
    split at hx
    · cases hx
    · rename_i heq
      rw [heq] at hok
      cases hok

/-! ## Handles in use -/

/-- An open writer's blob is active with the claims of its handles and what was appended. -/
theorem active_of_writer (hs : s.Consistent) (hw : w ∈ s.writers) (hopen : w.isOpen = true) :
    s.exchange.Stands w.id (.active (claimsOf w s.readers) w.log) := by
  have hstands := hs.stands w.id
  have hheld : (claimsOf w s.readers).released = false := by
    simp [claimsOf, Claims.released, hopen]
  rw [standing_of_mem hs.distinct hw, Standing.of, hheld] at hstands
  exact hstands

theorem active_of_reader (hs : s.Consistent) (hr : r ∈ s.readers) (hopen : r.isOpen = true)
    (hw : w ∈ s.writers) (hwr : w.id = r.id) :
    s.exchange.Stands w.id (.active (claimsOf w s.readers) w.log) := by
  have hstands := hs.stands w.id
  have hcount : 0 < openReaders s.readers w.id := by
    unfold openReaders
    rw [List.countP_pos_iff]
    exact ⟨r, hr, by simp [hopen, hwr]⟩
  have hheld : (claimsOf w s.readers).released = false := by
    simp only [claimsOf, Claims.released, Bool.and_eq_false_iff, beq_eq_false_iff_ne]
    exact Or.inr (Nat.ne_of_gt hcount)
  rw [standing_of_mem hs.distinct hw, Standing.of, hheld] at hstands
  exact hstands

/-- A writer may be replaced by another state of itself, if the exchange follows. -/
theorem set_writer (hs : s.Consistent) (hw : s.writers[place]? = some w) (hv : v.id = w.id)
    {more : Bytes} (hlog : v.log = w.log ++ more)
    (hids : x.blobIds = s.exchange.blobIds) (hsame : Exchange.SameBut s.exchange x w.id)
    (hstands : x.Stands w.id (.of (claimsOf v s.readers) v.log)) :
    Consistent ⟨x, s.writers.set place v, s.readers⟩ := by
  obtain ⟨hlt, hget⟩ := List.getElem?_eq_some_iff.1 hw
  have hidList : (s.writers.set place v).map Writer.id = s.writers.map Writer.id := by
    rw [List.map_set, hv, ← hget, ← List.getElem_map Writer.id (h := by simpa using hlt),
      List.set_getElem_self]
  have hmem : v ∈ s.writers.set place v := List.mem_set hlt v
  refine ⟨?_, ?_, ?_, ?_, ?_, ?_⟩
  · rw [hidList, List.length_set]
    exact hs.numbered
  · rw [List.length_set]
    exact (congrArg Sequence.upcoming hids).trans hs.upcoming
  · rw [List.length_set]
    exact hs.bounded
  · intro r hr
    obtain ⟨u, hu, hur⟩ := hs.issued r hr
    have hin : u.id ∈ (s.writers.set place v).map Writer.id :=
      hidList ▸ List.mem_map_of_mem hu
    obtain ⟨u', hu', heq⟩ := List.mem_map.1 hin
    exact ⟨u', hu', heq.trans hur⟩
  · intro j
    by_cases hj : j = w.id
    · subst hj
      have hfind : standing (s.writers.set place v) s.readers v.id =
          .of (claimsOf v s.readers) v.log := standing_of_mem (hidList ▸ hs.distinct) hmem
      rw [hv] at hfind
      rw [hfind]
      exact hstands
    · rw [standing_set_writer hw hv (fun heq => hj heq.symm)]
      exact hsame j _ hj (hs.stands j)
  · -- what a reader has read is not touched by what is appended behind it
    intro r hr hopen hfair u hu hur
    rcases List.mem_or_eq_of_mem_set hu with hu | rfl
    · exact hs.reads r hr hopen hfair u hu hur
    · rw [hlog]
      exact (hs.reads r hr hopen hfair w (List.mem_of_getElem? hw) (hv ▸ hur)).append more

theorem set_reader (hs : s.Consistent) (hr : s.readers[place]? = some r) (hq : q.id = r.id)
    (hids : x.blobIds = s.exchange.blobIds) (hsame : Exchange.SameBut s.exchange x r.id)
    (hstands : x.Stands r.id (standing s.writers (s.readers.set place q) r.id))
    (hreads : q.isOpen = true → q.fair = true → ∀ w ∈ s.writers, w.id = r.id → Reads q w.log) :
    Consistent ⟨x, s.writers, s.readers.set place q⟩ := by
  refine ⟨hs.numbered, (congrArg Sequence.upcoming hids).trans hs.upcoming, hs.bounded, ?_, ?_, ?_⟩
  · intro a ha
    rcases List.mem_or_eq_of_mem_set ha with ha | rfl
    · exact hs.issued a ha
    · rw [hq]
      exact hs.issued r (List.mem_of_getElem? hr)
  · intro j
    by_cases hj : j = r.id
    · subst hj
      exact hstands
    · have hcount : openReaders (s.readers.set place q) j = openReaders s.readers j := by
        have hne : ¬ r.id = j := fun heq => hj heq.symm
        rw [openReaders_set hr, hq]
        simp [hne]
      rw [standing_congr hcount]
      exact hsame j _ hj (hs.stands j)
  · intro a ha hopen hfair w hw hwa
    rcases List.mem_or_eq_of_mem_set ha with ha | rfl
    · exact hs.reads a ha hopen hfair w hw hwa
    · exact hreads hopen hfair w hw (hwa.trans hq)

/-- A reader that stays open or closed changes no claims. -/
theorem set_reader_same (hs : s.Consistent) (hr : s.readers[place]? = some r) (hq : q.id = r.id)
    (hopen : q.isOpen = r.isOpen) {reports : List Handle}
    (hx : Exchange.Backstage s.exchange x reports)
    (hreads : q.isOpen = true → q.fair = true → ∀ w ∈ s.writers, w.id = r.id → Reads q w.log) :
    Consistent ⟨x, s.writers, s.readers.set place q⟩ := by
  refine hs.set_reader hr hq hx.blobIds (hx.sameBut _) ?_ hreads
  rw [standing_congr (openReaders_set_same hr hq hopen r.id)]
  exact hx.stands (hs.stands r.id)

theorem write (hs : s.Consistent) (hw : s.writers[place]? = some w) (command : WriteCommand) :
    let performed := w.producer.perform s.exchange command
    Consistent ⟨performed.2,
      s.writers.set place { w with log := w.log ++ command.appended performed.1 }, s.readers⟩ := by
  have hmem := List.mem_of_getElem? hw
  cases hfinished : w.producer.finished with
  | true =>
    rw [Producer.perform_of_finished hfinished]
    have hstands := hs.stands w.id
    rw [standing_of_mem hs.distinct hmem] at hstands
    have hnothing := command.appended_refused w.producer.id command.operation
    refine hs.set_writer hw rfl rfl rfl (.refl _ _) ?_
    simp only [hnothing, List.append_nil]
    exact hstands
  | false =>
    have hopen : w.isOpen = true := by simp [Writer.isOpen, hfinished]
    have hactive := hs.active_of_writer hmem hopen
    have hdone := Producer.perform_of_open hfinished hactive command
    refine hs.set_writer hw rfl rfl hdone.blobIds hdone.same ?_
    have hheld : (claimsOf w s.readers).released = false := hactive.1
    have hof : Standing.of (claimsOf w s.readers) =
        Standing.active (claimsOf w s.readers) := by
      funext content
      rw [Standing.of, hheld]
      rfl
    show Exchange.Stands _ _ (Standing.of (claimsOf w s.readers) _)
    rw [hof]
    exact hdone.stands

theorem finishWriter (hs : s.Consistent) (hw : s.writers[place]? = some w)
    (others : Interference) :
    let finished := w.producer.finish s.exchange others
    Consistent ⟨finished.2, s.writers.set place { w with producer := finished.1 }, s.readers⟩ := by
  have hmem := List.mem_of_getElem? hw
  unfold Producer.finish
  cases hfinished : w.producer.finished with
  | true =>
    have hstands := hs.stands w.id
    rw [standing_of_mem hs.distinct hmem] at hstands
    exact hs.set_writer hw rfl (List.append_nil _).symm rfl (.refl _ _) hstands
  | false =>
    have hopen : w.isOpen = true := by simp [Writer.isOpen, hfinished]
    have hactive := hs.active_of_writer hmem hopen
    obtain ⟨hstands, hsame, hids, -⟩ := Exchange.stands_endProducer hactive others
    exact hs.set_writer hw rfl (List.append_nil _).symm hids hsame hstands

theorem dropWriter (hs : s.Consistent) (hw : s.writers[place]? = some w) :
    Consistent ⟨w.producer.drop s.exchange, s.writers.set place { w with held := false },
      s.readers⟩ := by
  have hmem := List.mem_of_getElem? hw
  have hdropped : ∃ reports, Exchange.Backstage s.exchange (w.producer.drop s.exchange) reports := by
    unfold Producer.drop
    split
    · exact ⟨[], .refl _⟩
    · exact ⟨_, .note _ _ rfl⟩
  obtain ⟨reports, hdropped⟩ := hdropped
  have hstands := hs.stands w.id
  rw [standing_of_mem hs.distinct hmem] at hstands
  exact hs.set_writer hw rfl (List.append_nil _).symm hdropped.blobIds (hdropped.sameBut _)
    (hdropped.stands hstands)

theorem read (hs : s.Consistent) (hr : s.readers[place]? = some r) (command : ReadCommand) :
    let performed := r.consumer.perform s.exchange command
    Consistent ⟨s.exchange, s.writers, s.readers.set place { r with
      consumer := performed.2
      log := command.delivered r.log performed.1
      fair := command.keepsFair r.fair performed.1 }⟩ := by
  have hmem := List.mem_of_getElem? hr
  cases hfinished : r.consumer.finished with
  | true =>
    have hclosed : ¬ r.isOpen = true := by simp [Reader.isOpen, hfinished]
    rw [Consumer.perform_of_finished hfinished]
    exact hs.set_reader_same hr rfl rfl (.refl _) (fun hopen => absurd hopen hclosed)
  | false =>
    have hopen : r.isOpen = true := by simp [Reader.isOpen, hfinished]
    obtain ⟨w, hw, hwr⟩ := hs.issued r hmem
    have hactive := hs.active_of_reader hmem hopen hw hwr
    rw [hwr] at hactive
    have hdone := Consumer.perform_of_open hfinished hactive r.log r.fair command
    refine hs.set_reader_same hr hdone.id (congrArg (!·) hdone.finished) (.refl _) ?_
    intro _ hfair v hv hvr
    have hsame := List.inj_on_of_nodup_map hs.distinct hv hw (hvr.trans hwr.symm)
    subst hsame
    exact hdone.reads (fun hfair => hs.reads r hmem hopen hfair v hv hvr) hfair

theorem finishReader (hs : s.Consistent) (hr : s.readers[place]? = some r)
    (others : Interference) :
    let finished := r.consumer.finish s.exchange others
    Consistent ⟨finished.2, s.writers, s.readers.set place { r with consumer := finished.1 }⟩ := by
  have hmem := List.mem_of_getElem? hr
  unfold Consumer.finish
  cases hfinished : r.consumer.finished with
  | true =>
    exact hs.set_reader_same hr rfl rfl (.refl _) (hs.reads r hmem)
  | false =>
    simp only [Bool.false_eq_true, if_false]
    have hopen : r.isOpen = true := by simp [Reader.isOpen, hfinished]
    obtain ⟨w, hw, hwr⟩ := hs.issued r hmem
    have hactive := hs.active_of_reader hmem hopen hw hwr
    rw [hwr] at hactive
    obtain ⟨hstands, hsame, hids, -⟩ := Exchange.stands_endConsumer hactive others
    refine hs.set_reader hr rfl hids hsame ?_ (fun hopen => absurd hopen Bool.false_ne_true)
    have hcount : openReaders (s.readers.set place { r with
        consumer := { r.consumer with finished := true } }) w.id =
          openReaders s.readers w.id - 1 := by
      rw [openReaders_set hr]
      simp [Reader.isOpen, hfinished, hwr]
    rw [← hwr, standing_of_mem hs.distinct hw]
    simp only [claimsOf, hcount]
    have hrw : r.consumer.id = w.id := hwr.symm
    rw [hrw]
    rw [← hwr] at hstands
    exact hstands

theorem dropReader (hs : s.Consistent) (hr : s.readers[place]? = some r) :
    Consistent ⟨r.consumer.drop s.exchange, s.writers,
      s.readers.set place { r with held := false }⟩ := by
  have hmem := List.mem_of_getElem? hr
  have hdropped : ∃ reports, Exchange.Backstage s.exchange (r.consumer.drop s.exchange) reports := by
    unfold Consumer.drop
    split
    · exact ⟨[], .refl _⟩
    · exact ⟨_, .note _ _ rfl⟩
  obtain ⟨reports, hdropped⟩ := hdropped
  exact hs.set_reader_same hr rfl rfl hdropped (hs.reads r hmem)

end Consistent

/-! ## Moves -/

variable {s : Session}

theorem writer?_eq_some {place : Nat} {w : Writer} :
    s.writer? place = some w ↔ s.writers[place]? = some w ∧ w.held = true := by
  unfold writer?
  cases s.writers[place]? with
  | none => simp
  | some v =>
    by_cases hheld : v.held = true
    · simp only [hheld, if_true, Option.some.injEq]
      exact ⟨fun heq => ⟨heq, heq ▸ hheld⟩, And.left⟩
    · simp only [hheld, if_false, Option.some.injEq, Bool.false_eq_true, reduceCtorEq, false_iff]
      rintro ⟨rfl, h⟩
      exact hheld h

theorem reader?_eq_some {place : Nat} {r : Reader} :
    s.reader? place = some r ↔ s.readers[place]? = some r ∧ r.held = true := by
  unfold reader?
  cases s.readers[place]? with
  | none => simp
  | some q =>
    by_cases hheld : q.held = true
    · simp only [hheld, if_true, Option.some.injEq]
      exact ⟨fun heq => ⟨heq, heq ▸ hheld⟩, And.left⟩
    · simp only [hheld, if_false, Option.some.injEq, Bool.false_eq_true, reduceCtorEq, false_iff]
      rintro ⟨rfl, h⟩
      exact hheld h

/-- A construction gives out an open writer, or fails behind the scenes. -/
theorem consistent_construct (hs : s.Consistent) (size : Nat) (others : Interference)
    (held : Bool) :
    match Producer.construct s.exchange size others with
    | (.ok p, x) => p.finished = false ∧ Consistent ⟨x, s.writers ++ [⟨p, held, []⟩], s.readers⟩
    | (.error _, x) => Consistent ⟨x, s.writers, s.readers⟩ := by
  obtain ⟨y, hy, ⟨halt, heq⟩ | ⟨b, reused, heq⟩⟩ := Exchange.construct_cases s.exchange size others
  · unfold Producer.construct
    rw [heq]
    exact hs.backstage hy
  · have hbefore := hs.backstage hy
    unfold Producer.construct
    rw [heq]
    cases hissued : y.issue size b reused with
    | mk outcome x =>
      cases outcome with
      | ok id => exact ⟨rfl, hbefore.issue hissued⟩
      | error halt =>
        cases hspent : y.blobIds.isSpent with
        | true =>
          rw [Exchange.issue_of_spent hspent] at hissued
          cases hissued
          exact hbefore
        | false =>
          unfold Exchange.issue at hissued
          rw [hspent] at hissued
          cases hissued

theorem consistent_welcome (hs : s.Consistent) {id : BlobId} {x : Exchange}
    {claimed : Except BlobError Consumer} (hx : Consumer.claim s.exchange id = (claimed, x)) :
    (s.welcome x claimed).2.Consistent := by
  cases claimed with
  | ok c => exact hs.claim hx
  | error e => exact hs.claim_refused hx

/-- A whole blob is written as its parts would be one after the other: a construction, a script, a
claim, and the producer's end. -/
theorem consistent_write (hs : s.Consistent) (size : Nat) (script : List Instruction)
    (others : Interference) : (s.write size script others).2.Consistent := by
  have hconstructed := consistent_construct hs size others false
  unfold write Consumer.ofScript
  generalize Producer.construct s.exchange size others = constructed at hconstructed ⊢
  obtain ⟨outcome, y⟩ := constructed
  cases outcome with
  | error halt =>
    simp only [Option.toList_none, List.map_nil, List.append_nil]
    exact hconstructed
  | ok p =>
    obtain ⟨-, hgiven⟩ := hconstructed
    have hlast : ∀ w : Writer, (s.writers ++ [w])[s.writers.length]? = some w := fun w => by simp
    have hset : ∀ v w : Writer, (s.writers ++ [v]).set s.writers.length w = s.writers ++ [w] :=
      fun v w => by simp
    have hran := hgiven.write (hlast _) (.run script)
    simp only [hset] at hran
    -- the writer of the blob is the last one, and no client holds it
    change Consistent ⟨(p.run y script).exchange,
      s.writers ++ [⟨p, false, scriptAppended script (p.run y script).notes⟩], s.readers⟩ at hran
    simp only
    generalize p.run y script = ran at hran ⊢
    obtain ⟨z, notes, ended⟩ := ran
    match ended with
    | .error .overflow =>
      have hdropped := hran.dropWriter (hlast _)
      simp only [hset] at hdropped
      exact hdropped
    | .error (.failed e) =>
      have hfinished := hran.finishWriter (hlast _) others
      simp only [hset] at hfinished
      exact hfinished
    | .ok () =>
      generalize hclaim : Consumer.claim z p.id = claimed
      obtain ⟨claim, z'⟩ := claimed
      cases claim with
      | ok c =>
        have hfinished := (hran.claim hclaim).finishWriter (hlast _) others
        simp only [hset] at hfinished
        exact hfinished
      | error e =>
        have hfinished := (hran.claim_refused hclaim).finishWriter (hlast _) others
        simp only [hset] at hfinished
        exact hfinished

theorem consistent_step (hs : s.Consistent) (others : Interference) (command : Command) :
    (s.step others command).2.Consistent := by
  cases command with
  | construct size =>
    have hconstructed := consistent_construct hs size others true
    simp only [step, construct]
    split
    · rename_i p x heq
      rw [heq] at hconstructed
      exact hconstructed.2
    · rename_i halt x heq
      rw [heq] at hconstructed
      exact hconstructed
  | write size script => exact consistent_write hs size script others
  | claim id => exact consistent_welcome hs rfl
  | claimFrom message =>
    simp only [step, Consumer.claimFrom]
    split
    · exact hs
    · exact consistent_welcome hs rfl
  | toWriter place command =>
    simp only [step, toWriter]
    split
    · exact hs
    · rename_i w hw
      exact hs.write (writer?_eq_some.1 hw).1 command
  | finishWriter place =>
    simp only [step, finishWriter]
    split
    · exact hs
    · rename_i w hw
      exact hs.finishWriter (writer?_eq_some.1 hw).1 others
  | dropWriter place =>
    simp only [step, dropWriter]
    split
    · exact hs
    · rename_i w hw
      exact hs.dropWriter (writer?_eq_some.1 hw).1
  | toReader place command =>
    simp only [step, toReader]
    split
    · exact hs
    · rename_i r hr
      exact hs.read (reader?_eq_some.1 hr).1 command
  | finishReader place =>
    simp only [step, finishReader]
    split
    · exact hs
    · rename_i r hr
      exact hs.finishReader (reader?_eq_some.1 hr).1 others
  | dropReader place =>
    simp only [step, dropReader]
    split
    · exact hs
    · rename_i r hr
      exact hs.dropReader (reader?_eq_some.1 hr).1
  | activeBlobs => exact hs
  | shelved => exact hs.backstage (.catchUp s.exchange others)
  | statistics => exact hs.backstage (.catchUp s.exchange others)
  | shrink =>
    have hreclaimed := Exchange.Backstage.withPool s.exchange (s.exchange.pool.reclaimDownTo 0).2
    have hstruck := hreclaimed.after (.amid _ others.afterShrink)
    exact hs.backstage ((hstruck.after (.catchUp _ others)).before (.note _ _ rfl))
  | reclaim keep => exact hs.backstage (.reclaimIdle s.exchange keep)
  | meanwhile deeds => exact hs.backstage (.amid s.exchange deeds)

theorem Consistent.run (hs : s.Consistent) (moves : List Move) : (s.run moves).Consistent :=
  run_induction (P := Consistent) hs (fun _ m hs => consistent_step hs m.others m.command) moves

theorem consistent_run (settings : Settings) (supplier : Supplier) (moves : List Move) :
    ((start settings supplier).run moves).Consistent :=
  (Consistent.start settings supplier).run moves

end Session

end BlobExchange
