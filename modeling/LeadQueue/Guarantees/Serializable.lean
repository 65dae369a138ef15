import LeadQueue.Library.Prophecy
import LeadQueue.Sessions.Serial

/-!
# Overlapping transactions do what one after the other would

In the service a transaction is one step. Here every call runs statement by
statement beside any number of others, and yet the committed state is one the
service reaches. Most calls take effect at their commit. A record whose update
finds no row takes effect when it looks: later the row may be one that its worker
holds again, and a record at the commit would then change it. Whether such a
record will commit is not known when it looks, so the run is followed with a
guess, from its end backwards.
-/

namespace LeadQueue

open Relational Transition RowLocks

namespace Server

variable {ι : Type} {settings : Settings} {s : Server ι} {g : Guess} {t : Service} {i j : ι}
  {session : Session} {tx : Tx Delivery DeliveryId QueueOp}

/-! ## Guesses through a step -/

section Guesses

variable {s' : Server ι} {g' : Guess}

theorem scheduledNextAt_nil (op : QueueOp) : QueueCall.scheduledNextAt settings op [] = none := by
  unfold QueueCall.scheduledNextAt
  split <;> rfl

/-- One record of an attempt is open at a time. -/
theorem Inv.missed_unique (h : s.Inv settings) {r r' : Recording} {entry : Attempt}
    (hi : s.sessions i = some session) (hr : session.call = .record r)
    (hj : s.Missed settings j r' entry) (hkey : r'.claim.key = r.claim.key) : j = i ∧ r' = r := by
  obtain ⟨session', tx', hopen, hr', _⟩ := hj
  have hij : j = i := by
    by_contra hne
    exact h.apart j i session' session r' r hne hopen.1 hi hr' hr hkey
  subst hij
  obtain rfl : session = session' := Option.some.inj (hi.symm.trans hopen.1)
  rw [hr] at hr'
  exact ⟨rfl, (QueueCall.record.inj hr').symm⟩

/-- A step that commits nothing and in which no record comes too late. -/
theorem Valid.of_silent (hg' : s'.Valid settings g')
    (hmissed : ∀ j r entry, s'.Missed settings j r entry → s.Missed settings j r entry) :
    s.Valid settings g' := by
  intro k x hx
  obtain ⟨hkey, j, hj⟩ := hg' k x hx
  exact ⟨hkey, j, hmissed j x.1 x.2 hj⟩

/-- A record comes too late: if it is going to commit, it takes effect here. -/
theorem Inv.follow_missed {r : Recording} (h' : s'.Inv settings)
    (hsame : s'.committed = s.committed) (hopen : s'.Open i session tx)
    (hr : session.call = .record r)
    (hothers : ∀ j r entry, j ≠ i → s'.Missed settings j r entry → s.Missed settings j r entry)
    (hlate : tx.todo = [] → tx.taken = [] → ∀ op, r.op settings = .ok op →
      (s.committed.db.deliveries.get? r.claim.delivery.deliveryId).filter op.cond = none)
    (hg' : s'.Valid settings g') :
    ∃ g, s.Valid settings g ∧ ∀ t, (service settings).Reachable t → Serial g s.committed t →
      ∃ t', (service settings).Later t t' ∧ Serial g' s'.committed t' := by
  refine ⟨Function.update g' r.claim.key none, fun k x hx => ?_, fun t _ hserial => ?_⟩
  · have hk : k ≠ r.claim.key := by
      rintro rfl
      rw [Function.update_self] at hx
      cases hx
    rw [Function.update_of_ne hk] at hx
    obtain ⟨hkey, j, hj⟩ := hg' k x hx
    refine ⟨hkey, j, hothers j x.1 x.2 ?_ hj⟩
    rintro rfl
    obtain ⟨session', tx', hopen', hr', _⟩ := hj
    obtain rfl : session = session' := Option.some.inj (hopen.1.symm.trans hopen'.1)
    rw [hr] at hr'
    rw [← hkey, ← QueueCall.record.inj hr'] at hk
    exact hk rfl
  · cases hfree : g' r.claim.key with
    | none =>
        rw [← hfree, Function.update_eq_self] at hserial
        exact ⟨t, .refl, hsame ▸ hserial⟩
    | some x =>
        obtain ⟨hkey, j, hj⟩ := hg' _ x hfree
        obtain ⟨rfl, hxr⟩ := h'.missed_unique hopen.1 hr hj hkey
        obtain ⟨session', tx', hopen', hr', htodo, htaken, hentry⟩ := hj
        obtain rfl : tx = tx' := Option.some.inj (hopen.2.symm.trans hopen'.2)
        obtain ⟨r', entry⟩ := x
        obtain rfl : r' = r := hxr
        have hsound := h'.sound j session tx hopen
        have hop : r'.op settings = .ok tx.op := by
          have hop := hsound.op_eq
          rwa [hr] at hop
        have hmade : Made s.committed (.record r') := by
          have hmade := hsound.made
          rwa [hr, hsame] at hmade
        have hnow : r'.now ≤ s.committed.clock := by
          have hnow := hsound.now_le
          rwa [hr, hsame] at hnow
        have hnone : (s.committed.db.deliveries.get? r'.claim.delivery.deliveryId).filter
            tx.op.cond = ([] : List Delivery).head? := hlate htodo htaken tx.op hop
        obtain ⟨db, hstep, hrequests, hdeliveries, hafter⟩ := record_step hserial hmade hnow
          (Function.update_self ..) hop hnone (by rw [scheduledNextAt_nil]; exact hentry)
        have htable :
            s.committed.db.deliveries.update (tx.op.run settings) (tx.op.id_run settings) =
              s.committed.db.deliveries := by
          refine Table.update_eq_self fun d hd => ?_
          unfold QueueOp.run
          split
          · rename_i hcond
            have hget := Table.get?_of_mem hd
            rw [r'.id_of_cond hop hcond] at hget
            rw [hget, Option.filter_some, if_pos hcond] at hnone
            cases hnone
          · rfl
        refine ⟨_, .step .refl trivial hstep, ?_⟩
        rw [hsame]
        refine ⟨hserial.clock, hrequests.trans hserial.requests, hdeliveries.trans htable,
          hserial.claims, fun k => ?_, fun id n => ?_⟩
        · rw [hafter]
          by_cases hk : k = r'.claim.key
          · rw [if_pos hk, hk, hfree]
            rfl
          · rw [if_neg hk, hserial.journal, Function.update_of_ne hk]
        · rw [result?_record hserial hmade]
          by_cases hk : r'.claim.key = (id, n)
          · rw [if_pos hk, ← hk, Function.update_self, hfree]
            rfl
          · rw [if_neg hk, hserial.results, Function.update_of_ne (Ne.symm hk)]

end Guesses

section Steps

variable [DecidableEq ι] {s' : Server ι} {g' : Guess} {written : List Attempt} {l : ServerLabel ι}

/-- What is open after a commit was open before, in another session. -/
theorem open_of_published {session' : Session} {tx' : Tx Delivery DeliveryId QueueOp}
    (h : (s.published settings i session tx written).Open j session' tx') :
    j ≠ i ∧ s.Open j session' tx' := by
  rcases open_of_update rfl rfl h with ⟨_, ho, _⟩ | hold
  · cases ho
  · exact hold

/-- The commit of a record that came too late: the guess was right. -/
theorem Inv.follow_late_commit {r : Recording} (h : s.Inv settings) (hopen : s.Open i session tx)
    (hwritten : session.written = some written) (hr : session.call = .record r)
    (htaken : tx.taken = []) (hg' : (s.published settings i session tx written).Valid settings g') :
    ∃ g, s.Valid settings g ∧ ∀ t, (service settings).Reachable t → Serial g s.committed t →
      ∃ t', (service settings).Later t t' ∧
        Serial g' (s.published settings i session tx written).committed t' := by
  have hsound := h.sound i session tx hopen
  obtain ⟨e, he, _, _, hjournal⟩ := hsound.written_record hr hwritten
  rw [htaken, scheduledNextAt_nil] at he
  have htodo := hsound.todo_eq_nil hr (hsound.written written hwritten).1
  have hmade : Made s.committed (.record r) := hr ▸ hsound.made
  have hfree : g' r.claim.key = none := by
    cases hkey : g' r.claim.key with
    | none => rfl
    | some x =>
        obtain ⟨hxkey, j, session', tx', hopen', hr', _⟩ := hg' _ x hkey
        obtain ⟨hji, hold⟩ := open_of_published hopen'
        exact absurd hxkey (h.apart j i session' session x.1 r hji hold.1 hopen.1 hr' hr)
  refine ⟨Function.update g' r.claim.key (some (r, e)), fun k x hx => ?_, fun t _ hserial => ?_⟩
  · by_cases hk : k = r.claim.key
    · subst hk
      rw [Function.update_self] at hx
      cases hx
      exact ⟨rfl, i, session, tx, hopen, hr, htodo, htaken, he⟩
    · rw [Function.update_of_ne hk] at hx
      obtain ⟨hkey, j, session', tx', hopen', hrest⟩ := hg' k x hx
      exact ⟨hkey, j, session', tx', (open_of_published hopen').2, hrest⟩
  · have htable : committedBy settings s.rows.committed tx = s.rows.committed := by
      refine Table.update_eq_self fun d _ => ?_
      rw [htaken]
      rfl
    refine ⟨t, .refl, hserial.clock, hserial.requests, hserial.deliveries.trans htable.symm, ?_,
      fun k => ?_, fun id n => ?_⟩
    · show t.claims = s.claims ++ session.call.handsOut settings session.requests tx.taken
      rw [hserial.claims, hr]
      exact (List.append_nil _).symm
    · show t.db.deliveryAttempts.get? k = (g' k).elim ((s.journal.putAll written).get? k)
        fun x => some (journalAfter x.2 ((s.journal.putAll written).get? k))
      have hput : (s.journal.putAll written).get? k = _ := hjournal k
      rw [hput, hserial.journal]
      by_cases hk : k = r.claim.key
      · rw [hk, Function.update_self, hfree, if_pos rfl]
        rfl
      · rw [Function.update_of_ne hk, if_neg hk]
    · rw [hserial.results, result?_published hr hmade]
      by_cases hk : r.claim.key = (id, n)
      · rw [if_pos hk, ← hk, Function.update_self, hfree]
        rfl
      · rw [if_neg hk, Function.update_of_ne (Ne.symm hk)]

/-- A commit that is matched by one event of the service, whatever the guess. -/
theorem Inv.follow_commit (h : s.Inv settings) (hopen : s.Open i session tx)
    (hwritten : session.written = some written)
    (hg' : (s.published settings i session tx written).Valid settings g') :
    ∃ g, s.Valid settings g ∧ ∀ t, (service settings).Reachable t → Serial g s.committed t →
      ∃ t', (service settings).Later t t' ∧
        Serial g' (s.published settings i session tx written).committed t' := by
  have hvalid : s.Valid settings g' := hg'.of_silent fun j r entry hmissed => by
    obtain ⟨session', tx', hopen', hrest⟩ := hmissed
    exact ⟨session', tx', (open_of_published hopen').2, hrest⟩
  have hevent : (∀ t, Serial g' s.committed t → ∃ t',
      Service.step settings t (session.call.event tx.taken) = some t' ∧
        Serial g' (s.published settings i session tx written).committed t') →
      ∃ g, s.Valid settings g ∧ ∀ t, (service settings).Reachable t → Serial g s.committed t →
        ∃ t', (service settings).Later t t' ∧
          Serial g' (s.published settings i session tx written).committed t' := by
    intro hmatch
    refine ⟨g', hvalid, fun t _ hserial => ?_⟩
    obtain ⟨t', hstep, hserial'⟩ := hmatch t hserial
    exact ⟨t', .step .refl trivial hstep, hserial'⟩
  cases hcall : session.call with
  | claim call => exact hevent fun t => h.publish_claim hvalid hopen hwritten hcall
  | record r =>
      by_cases htaken : tx.taken = []
      · exact h.follow_late_commit hopen hwritten hcall htaken hg'
      · exact hevent fun t => h.publish_record hvalid hopen hwritten hcall htaken
  | requeueRequest call requestId recipients includeDelivered =>
      exact hevent fun t => h.publish_requeueRequest hopen hwritten hcall
  | requeueBulk call filter limit =>
      exact hevent fun t => h.publish_requeueBulk hopen hwritten hcall

/-- A step that commits nothing, and whose session is not left as a record that has
found no row. -/
theorem Valid.follow_silent (hg' : s'.Valid settings g') {o : Option Session}
    {o' : Option (Tx Delivery DeliveryId QueueOp)}
    (hsessions : s'.sessions = Function.update s.sessions i o)
    (htxs : s'.rows.txs = Function.update s.rows.txs i o') (hsame : s'.committed = s.committed)
    (hmissed : ∀ session tx r entry, o = some session → o' = some tx → session.call = .record r →
      tx.todo = [] → tx.taken = [] → r.entry settings none = .ok entry →
      s.Missed settings i r entry) :
    ∃ g, s.Valid settings g ∧ ∀ t, (service settings).Reachable t → Serial g s.committed t →
      ∃ t', (service settings).Later t t' ∧ Serial g' s'.committed t' := by
  refine ⟨g', hg'.of_silent ?_, fun t _ hserial => ⟨t, .refl, hsame ▸ hserial⟩⟩
  rintro j r entry ⟨session, tx, hopen, hr, htodo, htaken, hentry⟩
  rcases open_of_update hsessions htxs hopen with ⟨rfl, ho, ho'⟩ | ⟨_, hold⟩
  · exact hmissed session tx r entry ho ho' hr htodo htaken hentry
  · exact ⟨session, tx, hold, hr, htodo, htaken, hentry⟩

omit [DecidableEq ι] in
/-- A transaction of intake, with whatever stands in the journal. -/
theorem follow_stored {e : Event} {db : Database} {now : Instant} (hext : Extends now s.db db)
    (hg' : (s.stored db).Valid settings g')
    (hstep : ∀ t : Service, t.clock = s.clock → ∀ journal, t.db = s.db.withJournal journal →
      Service.step settings t e = some { t with db := db.withJournal journal }) :
    ∃ g, s.Valid settings g ∧ ∀ t, (service settings).Reachable t → Serial g s.committed t →
      ∃ t', (service settings).Later t t' ∧ Serial g' (s.stored db).committed t' := by
  refine ⟨g', hg', fun t _ hserial => ?_⟩
  have hdb : t.db = s.db.withJournal t.db.deliveryAttempts := by
    obtain ⟨⟨requests, deliveries, journal⟩, clock, claims, results⟩ := t
    obtain rfl : requests = s.requests := hserial.requests
    obtain rfl : deliveries = s.rows.committed := hserial.deliveries
    rfl
  refine ⟨_, .step .refl trivial (hstep t hserial.clock _ hdb), hserial.clock, rfl, rfl,
    hserial.claims, fun k => ?_, hserial.results⟩
  show t.db.deliveryAttempts.get? k = (g' k).elim (db.deliveryAttempts.get? k)
    fun x => some (journalAfter x.2 (db.deliveryAttempts.get? k))
  rw [hext.journal]
  exact hserial.journal k

theorem Inv.follow_step (h : s.Inv settings) (hknown : s.committed.Known)
    (hstep : ServerStep settings s l s') (hg' : s'.Valid settings g') :
    ∃ g, s.Valid settings g ∧ ∀ t, (service settings).Reachable t → Serial g s.committed t →
      ∃ t', (service settings).Later t t' ∧ Serial g' s'.committed t' := by
  have h' := h.step hknown hstep
  cases hstep with
  | @advance time htime =>
      refine ⟨g', hg', fun t _ hserial => ⟨{ t with clock := time }, ?_, rfl, hserial.requests,
        hserial.deliveries, hserial.claims, hserial.journal, hserial.results⟩⟩
      refine .step .refl trivial (Service.step_advance.mpr ⟨?_, rfl⟩ : Service.step settings t
        (.advance time) = _)
      rw [hserial.clock]
      exact htime
  | @accept gen req db answer hnow haccept =>
      refine follow_stored (e := .accept gen req) (acceptRequest_extends haccept) hg' ?_
      intro t hclock journal hdb
      refine Service.step_accept.mpr ⟨hclock.symm ▸ hnow, _, answer, ?_, rfl⟩
      rw [hdb]
      exact acceptRequest_withJournal haccept journal
  | @attach gen requestId recipients db answer hnow hattach =>
      refine follow_stored (e := .attach gen requestId recipients)
        (attachRecipients_extends hattach) hg' ?_
      intro t hclock journal hdb
      refine Service.step_attach.mpr ⟨hclock.symm ▸ hnow, _, answer, ?_, rfl⟩
      rw [hdb]
      exact attachRecipients_withJournal hattach journal
  | @begin i call op plan hfree hnow hmakes hop hscans =>
      cases call with
      | record r =>
          refine h'.follow_missed (i := i) rfl ⟨Function.update_self .., Function.update_self ..⟩
            rfl ?_ ?_ hg'
          · rintro j r' entry hj ⟨session, tx, hopen, hrest⟩
            rcases open_of_update (s := s) rfl rfl hopen with ⟨hji, _⟩ | ⟨_, hold⟩
            · exact absurd hji hj
            · exact ⟨session, tx, hold, hrest⟩
          · -- no stored row meets the condition
            intro hplan _ op' hop'
            obtain rfl : op = op' := Except.ok.inj (hop.symm.trans hop')
            obtain rfl : plan = [] := hplan
            rw [Option.filter_eq_none_iff]
            intro d hd hcond
            have hscan : ([] : List DeliveryId) =
              (s.rows.committed.rows.filter op.cond).map Delivery.id := hscans
            have hmem : d.id ∈ (s.rows.committed.rows.filter op.cond).map Delivery.id :=
              List.mem_map.mpr ⟨d, List.mem_filter.mpr ⟨Table.mem_of_get? hd, hcond⟩, rfl⟩
            rw [← hscan] at hmem
            cases hmem
      | claim | requeueRequest | requeueBulk =>
          refine hg'.follow_silent rfl rfl rfl ?_
          rintro _ _ r _ ⟨⟩ _ ⟨⟩
  | @skip i session tx id rest hsession hwritten htx htodo hskips _ =>
      have hsessions : s.sessions = Function.update s.sessions i (some session) := by
        rw [← hsession, Function.update_eq_self]
      refine hg'.follow_silent hsessions rfl rfl ?_
      rintro _ _ r _ ⟨⟩ _ hr
      have hop := (h.sound i session tx ⟨hsession, htx⟩).op_eq
      rw [hr] at hop
      rw [r.not_skipsLocked hop] at hskips
      cases hskips
  | @take i session tx id rest d hsession hwritten htx htodo hroom hfree _ hget hcond =>
      have hsessions : s.sessions = Function.update s.sessions i (some session) := by
        rw [← hsession, Function.update_eq_self]
      refine hg'.follow_silent hsessions rfl rfl ?_
      rintro _ _ r _ ⟨⟩ ⟨⟩ _ _ htaken
      exact absurd htaken (List.append_ne_nil_of_right_ne_nil _ (List.cons_ne_nil _ _))
  | @drop i session tx id rest held hsession hwritten htx htodo hfree _ hfails hheld =>
      have hsessions : s.sessions = Function.update s.sessions i (some session) := by
        rw [← hsession, Function.update_eq_self]
      have hsound := h.sound i session tx ⟨hsession, htx⟩
      cases hcall : session.call with
      | record r =>
          refine h'.follow_missed (i := i) rfl ⟨hsession, Function.update_self ..⟩ hcall ?_ ?_ hg'
          · rintro j r' entry hj ⟨session', tx', hopen, hrest⟩
            rcases open_of_update (s := s) (by exact hsessions) rfl hopen with ⟨hji, _⟩ | ⟨_, hold⟩
            · exact absurd hji hj
            · exact ⟨session', tx', hold, hrest⟩
          · -- its one candidate does not meet the condition any more
            intro _ _ op hop
            have hop' := hsound.op_eq
            have hplanned := hsound.planned
            rw [hcall] at hop' hplanned
            obtain rfl : tx.op = op := Except.ok.inj (hop'.symm.trans hop)
            have hid : id ∈ tx.plan := (h.rows.sound i tx htx).ordered.subset
              (List.mem_append_right _ (htodo ▸ List.mem_cons_self))
            rw [Option.filter_eq_none_iff]
            intro d hd hcond
            rw [hfails d (by rw [hplanned id hid]; exact hd)] at hcond
            cases hcond
      | claim | requeueRequest | requeueBulk =>
          refine hg'.follow_silent hsessions rfl rfl ?_
          rintro _ _ r _ ⟨⟩ _ hr
          rw [hcall] at hr
          cases hr
  | @write i session tx entries hsession hwritten htx hscanned hentries _ _ =>
      have htxs : s.rows.txs = Function.update s.rows.txs i (some tx) := by
        rw [← htx, Function.update_eq_self]
      refine hg'.follow_silent rfl htxs rfl ?_
      rintro _ _ r entry ⟨⟩ ⟨⟩ hr htodo htaken hentry
      exact ⟨session, tx, ⟨hsession, htx⟩, hr, htodo, htaken, hentry⟩
  | commit hsession hwritten htx => exact h.follow_commit ⟨hsession, htx⟩ hwritten hg'
  | @abort i session hsession =>
      refine hg'.follow_silent rfl rfl rfl ?_
      rintro _ _ _ _ ⟨⟩

/-! ## Runs -/

omit [DecidableEq ι] in
theorem Valid.eq_none (hg : s.Valid settings g) (hs : ∀ i, s.sessions i = none) :
    g = Guess.none := by
  funext k
  cases hk : g k with
  | none => rfl
  | some x =>
      obtain ⟨_, i, _, _, hopen, _⟩ := hg k x hk
      have hsession := hopen.1
      rw [hs i] at hsession
      cases hsession

omit [DecidableEq ι] in
theorem valid_none : s.Valid settings Guess.none := by
  intro k x hx
  cases hx

/-- The server does what the service does, one call at a time. -/
theorem guided : Machine.Guided (server settings ι) (service settings) (Inv settings)
    (Valid settings) (fun s g t => Serial g s.committed t) where
  init := by
    rintro _ ⟨clock, rfl⟩
    refine ⟨inv_empty clock, fun g hg => ⟨.empty clock, ⟨clock, rfl⟩, ?_⟩⟩
    rw [hg.eq_none fun _ => rfl]
    exact .refl _
  step := by
    intro s l s' h hall hstep
    obtain ⟨t, ht, hserial⟩ := hall Guess.none valid_none
    have hknown := (Service.known_of_reachable ht).of_serial hserial
    exact ⟨h.step hknown hstep, fun g' hg' => h.follow_step hknown hstep hg'⟩

end Steps

end Server

/-- With no record in between, the two states hold the same of every delivery. -/
theorem Serial.life_eq {s t : Service} (h : Serial Guess.none s t) (id : DeliveryId) :
    s.life id = t.life id := by
  have hclaims : s.claim? id = t.claim? id := by
    ext n
    rw [Service.claim?, Service.claim?, h.claims]
  have hresults : s.result? id = t.result? id := funext fun n => (h.results id n).symm
  have hjournal : (fun n => s.db.deliveryAttempts.get? (id, n)) =
      fun n => t.db.deliveryAttempts.get? (id, n) := funext fun n => (h.journal (id, n)).symm
  unfold Service.life
  rw [hclaims, hresults, hjournal, h.clock, h.deliveries]

namespace Serializable

open Server

/-- The database after one lead has been accepted. -/
def accepted : Database :=
  ((acceptRequest ⟨0, 0, fun i => BitVec.ofNat 128 (i + 1)⟩ Move.lead .empty).toOption.map
    Prod.fst).getD .empty

/-- Its one delivery. -/
def row : Delivery := (accepted.deliveries.get? Move.first).getD
  (newDelivery 0 0 Move.first ⟨none, ⟨[], by decide⟩, ⟨[], by decide⟩⟩)

theorem get?_row : accepted.deliveries.get? Move.first = some row := by decide +kernel

def scan (workerId : WorkerId) : ClaimCall :=
  .unlocked .default workerId 1 0 accepted.deliveries

theorem accepted_eq : ∃ answer, acceptRequest ⟨0, 0, fun i => BitVec.ofNat 128 (i + 1)⟩ Move.lead
    .empty = .ok (accepted, answer) := by
  have hok : (acceptRequest ⟨0, 0, fun i => BitVec.ofNat 128 (i + 1)⟩ Move.lead
      .empty).toOption.isSome := by decide +kernel
  unfold accepted
  cases h : acceptRequest ⟨0, 0, fun i => BitVec.ofNat 128 (i + 1)⟩ Move.lead .empty with
  | ok p => exact ⟨p.2, rfl⟩
  | error e =>
      rw [h] at hok
      cases hok

/-- Worker A or B has asked for one delivery. -/
def asking (workerId : WorkerId) : Session := ⟨.claim (scan workerId), accepted.requests, none, []⟩

/-- Its statement with the delivery ahead, locked, or passed over. -/
def ahead (workerId : WorkerId) : Tx Delivery DeliveryId QueueOp :=
  ⟨.claim workerId 1 0, [Move.first], [Move.first], [], []⟩

def locked (workerId : WorkerId) : Tx Delivery DeliveryId QueueOp :=
  ⟨.claim workerId 1 0, [Move.first], [], [Move.first], [row]⟩

def passed (workerId : WorkerId) : Tx Delivery DeliveryId QueueOp :=
  ⟨.claim workerId 1 0, [Move.first], [], [], []⟩

def start : Server Bool := (empty 0).stored accepted

/-- Session `i` opens for a claim. -/
def begun (s : Server Bool) (i : Bool) (workerId : WorkerId) : Server Bool :=
  (s.moved i (ahead workerId)).withSession i (some (asking workerId))

theorem begin_claim {s : Server Bool} (i : Bool) (workerId : WorkerId) (hi : s.sessions i = none)
    (hclock : 0 ≤ s.clock) (hdb : s.db = accepted) :
    ServerStep .default s (.begin i (.claim (scan workerId))) (begun s i workerId) := by
  have hlease : timedelta Settings.default.leaseSeconds = .ok 90000000 := by decide +kernel
  have horder : (scan Move.workerA).order.map RankedRow.id = [Move.first] := by decide +kernel
  have hrequests : s.requests = accepted.requests := congrArg Database.requests hdb
  have hcommitted : s.rows.committed = accepted.deliveries := congrArg Database.deliveries hdb
  unfold begun asking
  rw [← hrequests]
  refine .begin hi hclock trivial ?_ ⟨hcommitted.symm, ClaimCall.unlocked_valid .., horder.symm⟩
  simp only [QueueCall.op, hlease]
  rfl

/-- Both sessions are open. -/
def waiting : Server Bool := begun (begun start true Move.workerA) false Move.workerB

def written (s : Server Bool) (i : Bool) (workerId : WorkerId) : Server Bool :=
  s.withSession i (some { asking workerId with written := some [] })

/-- Both have looked at the delivery, and A has it. -/
def decided : Server Bool :=
  (waiting.moved true (locked Move.workerA)).moved false (passed Move.workerB)

def ready : Server Bool := written (written decided true Move.workerA) false Move.workerB

def handedOut : Server Bool :=
  ready.published .default true { asking Move.workerA with written := some [] }
    (locked Move.workerA) []

def done : Server Bool :=
  handedOut.published .default false { asking Move.workerB with written := some [] }
    (passed Move.workerB) []

theorem reachable_start : (server .default Bool).Reachable start := by
  obtain ⟨answer, haccept⟩ := accepted_eq
  exact .step (.init ⟨0, rfl⟩) trivial (.accept le_rfl haccept)

theorem later_waiting : (server .default Bool).Later start waiting :=
  .step (.step .refl trivial (begin_claim true Move.workerA rfl le_rfl rfl)) trivial
    (begin_claim false Move.workerB rfl le_rfl rfl)

/-- A locks the delivery, and B passes over it. -/
theorem later_decided : (server .default Bool).Later waiting decided := by
  have htake : ServerStep .default waiting (.take true)
      (waiting.moved true (locked Move.workerA)) := by
    refine @ServerStep.take _ _ _ waiting true (asking Move.workerA) (ahead Move.workerA)
      Move.first [] row rfl rfl rfl rfl ?_ ?_ ?_ get?_row (by decide +kernel)
    · rintro _ ⟨⟩
      exact Nat.one_pos
    · rintro ⟨_ | _, tx, hj, htx, hmem⟩
      · cases htx
        cases hmem
      · exact hj rfl
    · rintro _ ⟨_ | _, session, hj, hsession, hmem⟩
      · cases hsession
        cases hmem
      · exact hj rfl
  have hskip : ServerStep .default (waiting.moved true (locked Move.workerA)) (.skip false)
      decided :=
    @ServerStep.skip _ _ _ _ false (asking Move.workerB) (ahead Move.workerB) Move.first [] rfl rfl
      rfl rfl rfl (.inl ⟨true, locked Move.workerA, nofun, rfl, .head _⟩)
  exact .step (.step .refl trivial htake) trivial hskip

theorem later_done : (server .default Bool).Later decided done := by
  have hnone : ((joined accepted.requests [row]).map ClaimedRow.prev).filter reclaimed = [] := by
    decide +kernel
  have hentries : (asking Move.workerA).call.entries .default accepted.requests
      (locked Move.workerA).op [row] = .ok [] :=
    congrArg (List.mapM (lostAttempt Move.workerA 0)) hnone
  have hwriteA : ServerStep .default decided (.write true)
      (written decided true Move.workerA) :=
    @ServerStep.write _ _ _ decided true (asking Move.workerA) (locked Move.workerA) [] rfl rfl rfl
      (.inl rfl) hentries (List.forall_mem_nil _) (List.forall_mem_nil _)
  have hwriteB : ServerStep .default (written decided true Move.workerA) (.write false)
      ready :=
    @ServerStep.write _ _ _ _ false (asking Move.workerB) (passed Move.workerB) [] rfl rfl rfl
      (.inl rfl) rfl (List.forall_mem_nil _) (List.forall_mem_nil _)
  have hcommitA : ServerStep .default ready (.commit true) handedOut := .commit rfl rfl rfl
  have hcommitB : ServerStep .default handedOut (.commit false) done := .commit rfl rfl rfl
  exact .step (.step (.step (.step .refl trivial hwriteA) trivial hwriteB) trivial
    hcommitA) trivial hcommitB

end Serializable

section Main

variable {ι : Type} [DecidableEq ι] {settings : Settings} {s s' : Server ι}

/-- However the transactions of the queue overlap, what they commit is what the
service does with one call at a time. -/
theorem transactions_serialize (hs : (server settings ι).Reachable s)
    (h : (server settings ι).Later s s') :
    ∃ g t t', s.Valid settings g ∧ (service settings).Reachable t ∧ Serial g s.committed t ∧
      (service settings).Later t t' ∧ Serial Guess.none s'.committed t' := by
  obtain ⟨g, hg, hfollow⟩ := Server.guided.later hs h Guess.none Server.valid_none
  obtain ⟨t, ht, hserial⟩ := (Server.guided.reachable hs).2 g hg
  obtain ⟨t', hlater, hserial'⟩ := hfollow t ht hserial
  exact ⟨g, t, t', hg, ht, hserial, hlater, hserial'⟩

open Serializable in
/-- Two claims of one delivery side by side: it is handed out once. -/
theorem transactions_serialize_skipped :
    (∀ i, (waiting.sessions i).isSome) ∧ (∀ i, done.sessions i = none) ∧
      done.claims.map (fun c => (c.workerId, c.delivery.deliveryId)) =
        [(Move.workerA, Move.first)] ∧
      ∃ g t t', waiting.Valid .default g ∧ (service .default).Reachable t ∧
        Serial g waiting.committed t ∧ (service .default).Later t t' ∧
        Serial Guess.none done.committed t' :=
  ⟨by decide, by decide, by decide +kernel,
    transactions_serialize (later_waiting.reachable reachable_start)
      (later_decided.trans later_done)⟩

/-- A delivery goes through the states it goes through when nothing overlaps. -/
theorem lives_serialize (hs : (server settings ι).Reachable s) {id : DeliveryId} {x : Life}
    (hx : s.committed.life id = some x) :
    ((life settings).Reachable x ∧ x.Inv settings) ∧
      ∀ s', (server settings ι).Later s s' → (∀ i, s.sessions i = none) →
        ∃ y, s'.committed.life id = some y ∧ (life settings).Later x y := by
  refine ⟨?_, fun s' h hidle => ?_⟩
  · obtain ⟨t, ht, hserial⟩ := (Server.guided.reachable hs).2 Guess.none Server.valid_none
    rw [hserial.life_eq] at hx
    exact ⟨life_of_reachable ht hx, inv_of_reachable ht hx⟩
  · obtain ⟨g, hg, hfollow⟩ := Server.guided.later hs h Guess.none Server.valid_none
    obtain rfl := hg.eq_none hidle
    obtain ⟨t, ht, hserial⟩ := (Server.guided.reachable hs).2 Guess.none hg
    obtain ⟨t', hlater, hserial'⟩ := hfollow t ht hserial
    rw [hserial.life_eq] at hx
    obtain ⟨y, hy, hxy⟩ := life_later ht (Service.everywhere_of_later hlater) hx
    exact ⟨y, (hserial'.life_eq id).trans hy, hxy.mono fun _ _ _ => trivial⟩

open Serializable in
theorem lives_serialize_skipped : ∃ x y, start.committed.life Move.first = some x ∧
    done.committed.life Move.first = some y ∧ x.row.totalAttempts + 1 = y.row.totalAttempts ∧
    (life .default).Later x y := by
  have hx : start.committed.life Move.first = some ⟨0, row, start.committed.claim? Move.first,
      start.committed.result? Move.first,
      fun n => start.committed.db.deliveryAttempts.get? (Move.first, n)⟩ :=
    Service.life_eq_some_iff.mpr ⟨row, get?_row, rfl⟩
  obtain ⟨y, hy, hxy⟩ := (lives_serialize reachable_start hx).2 done
    ((later_waiting.trans later_decided).trans later_done) (fun _ => rfl)
  refine ⟨_, y, hx, hy, ?_, hxy⟩
  have hrow := (Service.parts_of_life hy).2.1
  have hafter : done.committed.db.deliveries.get? Move.first =
    some (claimRow Move.workerA 0 Settings.default.lease row) := by decide +kernel
  rw [← Option.some.inj (hafter.symm.trans hrow)]
  rfl

end Main

end LeadQueue
