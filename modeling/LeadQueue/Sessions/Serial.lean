import LeadQueue.Sessions.Commit

/-!
# A commit as a step of the service

`Serial g s t` relates what the server has committed to a state of the service:
`t` has also performed the records of `g`, which have found no row and are still
open. A commit is matched by the service's step for the call, with the rows the
transaction passed over counted as locked.
-/

namespace LeadQueue

open Relational Transition RowLocks

/-- The event a call is in the service, given the rows it took. -/
def QueueCall.event (taken : List Delivery) : QueueCall → Event
  | .claim call => .claim { call with locked := fun id => decide (id ∉ taken.map Delivery.id) }
  | .record r => .record r.claim.delivery.deliveryId r.claim.attemptNumber r.result r.draw r.now
  | .requeueRequest call requestId recipients includeDelivered =>
      .requeueRequest { call with locked := fun id => decide (id ∉ taken.map Delivery.id) }
        requestId recipients includeDelivered
  | .requeueBulk call filter limit =>
      .requeueBulk { call with locked := fun id => decide (id ∉ taken.map Delivery.id) } filter
        limit

/-- The records that have found no row and are going to commit, by journal key, with
the journal row each proposes. -/
abbrev Guess := DeliveryId × ℕ → Option (Recording × Attempt)

/-- Nothing is in between. -/
def Guess.none : Guess := fun _ => Option.none

/-- `t` is `s` with the records of `g` committed as well. Row order in the journal,
and the order of the results, carry no meaning. -/
structure Serial (g : Guess) (s t : Service) : Prop where
  clock : t.clock = s.clock
  requests : t.db.requests = s.db.requests
  deliveries : t.db.deliveries = s.db.deliveries
  claims : t.claims = s.claims
  journal : ∀ k, t.db.deliveryAttempts.get? k = (g k).elim (s.db.deliveryAttempts.get? k)
    fun x => some (journalAfter x.2 (s.db.deliveryAttempts.get? k))
  results : ∀ id n, t.result? id n = (g (id, n)).elim (s.result? id n) fun x => some x.1.result

theorem Serial.refl (s : Service) : Serial Guess.none s s :=
  ⟨rfl, rfl, rfl, rfl, fun _ => rfl, fun _ _ => rfl⟩

theorem Service.Known.of_serial {g : Guess} {s t : Service} (h : Serial g s t) (ht : t.Known) :
    s.Known where
  referenced d hd := by
    obtain ⟨lead, hlead⟩ := ht.referenced d (h.deliveries ▸ hd)
    exact ⟨lead, h.requests ▸ hlead⟩
  claimed := by
    intro id n c hc
    unfold Service.claim? at hc
    rw [← h.claims] at hc
    obtain ⟨d, hd, hle⟩ := ht.claimed hc
    exact ⟨d, h.deliveries ▸ hd, hle⟩
  holder := by
    intro id d hd hst
    obtain ⟨c, hc, hlocked⟩ := ht.holder (h.deliveries.symm ▸ hd) hst
    unfold Service.claim? at hc ⊢
    exact ⟨c, h.claims ▸ hc, hlocked⟩

namespace Server

variable {ι : Type} {settings : Settings} {s : Server ι} {g : Guess} {t : Service} {i j : ι}
  {session : Session} {tx : Tx Delivery DeliveryId QueueOp}

/-- Session `i` records `r`, has found no row, and proposes `entry`. -/
def Missed (settings : Settings) (s : Server ι) (i : ι) (r : Recording) (entry : Attempt) : Prop :=
  ∃ session tx, s.Open i session tx ∧ session.call = .record r ∧ tx.todo = [] ∧ tx.taken = [] ∧
    r.entry settings none = .ok entry

/-- The guess is of records that are open and have found no row. -/
def Valid (settings : Settings) (s : Server ι) (g : Guess) : Prop :=
  ∀ k x, g k = some x → x.1.claim.key = k ∧ ∃ i, s.Missed settings i x.1 x.2

/-! ## What a commit takes along -/

/-- The rows a session has taken have leads it has seen. -/
theorem Inv.exists_lead (h : s.Inv settings) (hopen : s.Open i session tx) {d : Delivery}
    (hd : d ∈ tx.taken) : ∃ lead, session.requests.get? d.requestId = some lead ∧
      s.requests.get? d.requestId = some lead := by
  have hrows := h.rows.sound i tx hopen.2
  have hsound := h.sound i session tx hopen
  have hplan : d.id ∈ tx.plan := hrows.ordered.subset
    (List.mem_append_left _ (List.mem_map.mpr ⟨d, hd, rfl⟩))
  obtain ⟨d', lead, hd', hlead⟩ := hsound.leads d.id hplan
  obtain rfl : d = d' := Option.some.inj ((hrows.current d hd).symm.trans hd')
  exact ⟨lead, hlead, hsound.seen _ _ hlead⟩

theorem Inv.joined_eq (h : s.Inv settings) (hopen : s.Open i session tx) :
    joined s.requests tx.taken = joined session.requests tx.taken := by
  apply List.filterMap_congr
  intro d hd
  obtain ⟨lead, hseen, hlead⟩ := h.exists_lead hopen hd
  rw [hseen, hlead]

/-- A valid guess names no journal row that a session other than the ones it names
inserts. -/
theorem Inv.guess_apart (h : s.Inv settings) (hg : s.Valid settings g) (hopen : s.Open i session tx)
    (hscanned : Scanned settings tx) (hnot : ∀ r entry, ¬ s.Missed settings i r entry)
    {entries : List Attempt}
    (hentries : session.call.entries settings session.requests tx.op tx.taken = .ok entries)
    {e : Attempt} (he : e ∈ entries) : g e.key = none := by
  cases hkey : g e.key with
  | none => rfl
  | some x =>
      obtain ⟨hxkey, j, session', tx', hj, hr, htodo, htaken, hentry⟩ := hg _ x hkey
      have hij : i ≠ j := by
        rintro rfl
        exact hnot x.1 x.2 ⟨session', tx', hj, hr, htodo, htaken, hentry⟩
      have hnone : QueueCall.scheduledNextAt settings tx'.op tx'.taken = none := by
        rw [htaken]
        unfold QueueCall.scheduledNextAt
        split <;> rfl
      have hentries' : session'.call.entries settings session'.requests tx'.op tx'.taken =
          .ok [x.2] := by
        rw [hr]
        exact Fallible.bind_eq_ok_iff.mpr ⟨x.2, by rw [hnone]; exact hentry, rfl⟩
      refine absurd ?_ (h.entries_apart hij hopen hj hscanned (Or.inl htodo) hentries hentries' he
        (List.mem_singleton_self x.2))
      rw [hr] at hentries'
      obtain ⟨y, _, hy, hykey⟩ := key_of_mem_entries_record hentries'
      rw [List.singleton_inj.mp hy, hykey, hxkey]

/-! ## The calls in the service -/

/-- A record, in the service: `taken` is what its update finds. -/
theorem record_step {c : Service} {r : Recording} {op : QueueOp} {entry : Attempt}
    {taken : List Delivery} (h : Serial g c t) (hmade : Made c (.record r))
    (hnow : r.now ≤ c.clock) (hfree : g r.claim.key = none) (hop : r.op settings = .ok op)
    (htaken : (c.db.deliveries.get? r.claim.delivery.deliveryId).filter op.cond = taken.head?)
    (hentry : r.entry settings (QueueCall.scheduledNextAt settings op taken) = .ok entry) :
    ∃ db, Service.step settings t ((QueueCall.record r).event taken) =
        some { t with db := db, results := t.results ++ [(r.claim.key, r.result)] } ∧
      db.requests = t.db.requests ∧
      db.deliveries = c.db.deliveries.update (op.run settings) (op.id_run settings) ∧
      ∀ k, db.deliveryAttempts.get? k =
        if k = r.claim.key then some (journalAfter entry (c.db.deliveryAttempts.get? k))
        else t.db.deliveryAttempts.get? k := by
  obtain ⟨hclaim, hnone⟩ := hmade
  rw [← h.deliveries] at htaken
  obtain ⟨db, hrecord, hrequests, hdeliveries, hjournal⟩ := recordResult_eq hop htaken hentry
  have hclaim' : t.claim? r.claim.delivery.deliveryId r.claim.attemptNumber = some r.claim := by
    unfold Service.claim? at hclaim ⊢
    rw [h.claims]
    exact hclaim
  have hnone' : t.result? r.claim.delivery.deliveryId r.claim.attemptNumber = none := by
    rw [h.results]
    have hkey : g (r.claim.delivery.deliveryId, r.claim.attemptNumber) = none := hfree
    rw [hkey]
    exact hnone
  refine ⟨db, ?_, hrequests, h.deliveries ▸ hdeliveries, fun k => ?_⟩
  · exact Service.step_record.mpr ⟨h.clock.symm ▸ hnow, hnone', r.claim, db, hclaim', hrecord, rfl⟩
  · rw [hjournal]
    split
    · rename_i hk
      rw [h.journal, hk, hfree]
      rfl
    · rfl

/-- The results after a record. -/
theorem result?_record {c : Service} {r : Recording} (h : Serial g c t)
    (hmade : Made c (.record r)) (db : Database) (id : DeliveryId) (n : ℕ) :
    Service.result? { t with db := db, results := t.results ++ [(r.claim.key, r.result)] } id n =
      if r.claim.key = (id, n) then (g (id, n)).elim (some r.result) fun x => some x.1.result
      else t.result? id n := by
  rw [Service.result?_append, h.results]
  split
  · rename_i hkey
    have hnone : c.result? id n = none := by
      obtain ⟨rfl, rfl⟩ := Prod.mk.inj hkey
      exact hmade.2
    rw [hnone]
    cases g (id, n) <;> simp
  · cases g (id, n) <;> simp

/-- What a record has written, once it has. -/
theorem Sound.written_record {c : Service} {r : Recording} {written : List Attempt}
    (h : Sound settings c session tx) (hr : session.call = .record r)
    (hwritten : session.written = some written) :
    ∃ e, r.entry settings (QueueCall.scheduledNextAt settings tx.op tx.taken) = .ok e ∧
      e.key = r.claim.key ∧ session.call.entries settings session.requests tx.op tx.taken =
        .ok [e] ∧
      ∀ k, (c.db.deliveryAttempts.putAll written).get? k =
        if k = r.claim.key then some (journalAfter e (c.db.deliveryAttempts.get? k))
        else c.db.deliveryAttempts.get? k := by
  obtain ⟨_, entries, hentries, rfl⟩ := h.written written hwritten
  have hentries' := hentries
  rw [hr] at hentries'
  obtain ⟨e, he, rfl, hkey⟩ := key_of_mem_entries_record hentries'
  refine ⟨e, he, hkey, hentries, fun k => ?_⟩
  have hput : ([e].filterMap fun e => session.call.resolve (c.db.deliveryAttempts.get? e.key) e) =
      [journalAfter e (c.db.deliveryAttempts.get? r.claim.key)] := by
    rw [hr, ← hkey]
    rfl
  have hnew : (journalAfter e (c.db.deliveryAttempts.get? r.claim.key)).key = r.claim.key :=
    (key_journalAfter fun o ho => (Table.key_of_get? ho).trans hkey.symm).trans hkey
  rw [hput]
  show (c.db.deliveryAttempts.put _).get? k = _
  rw [Table.get?_put, hnew]
  split
  · rename_i hk
    rw [hk]
  · rfl

section Publish

variable [DecidableEq ι] {written : List Attempt}

/-- The results after a record has committed. -/
theorem result?_published {r : Recording} (hr : session.call = .record r)
    (hmade : Made s.committed (.record r)) (id : DeliveryId) (n : ℕ) :
    (s.published settings i session tx written).committed.result? id n =
      if r.claim.key = (id, n) then some r.result else s.committed.result? id n := by
  have hresults : (s.published settings i session tx written).committed.results =
      s.committed.results ++ [(r.claim.key, r.result)] := by
    show s.results ++ session.call.reports = _
    rw [hr]
    rfl
  have hafter := result?_record (Serial.refl s.committed) hmade s.db id n
  unfold Service.result? at hafter ⊢
  rw [hresults]
  exact hafter

theorem result?_published_of_ne_record (hr : ∀ r, session.call ≠ .record r) (id : DeliveryId)
    (n : ℕ) : (s.published settings i session tx written).committed.result? id n =
      s.committed.result? id n := by
  have hresults : (s.published settings i session tx written).committed.results =
      s.committed.results := by
    show s.results ++ session.call.reports = s.results
    cases hcall : session.call with
    | record r => exact absurd hcall (hr r)
    | claim | requeueRequest | requeueBulk => exact List.append_nil _
  unfold Service.result?
  rw [hresults]

/-- A record that has its row. -/
theorem Inv.publish_record {r : Recording} (h : s.Inv settings) (hg : s.Valid settings g)
    (hopen : s.Open i session tx) (hwritten : session.written = some written)
    (hr : session.call = .record r) (htaken : tx.taken ≠ []) (hserial : Serial g s.committed t) :
    ∃ t', Service.step settings t (session.call.event tx.taken) = some t' ∧
      Serial g (s.published settings i session tx written).committed t' := by
  have hsound := h.sound i session tx hopen
  have hrows := h.rows.sound i tx hopen.2
  have hop : r.op settings = .ok tx.op := by
    have hop := hsound.op_eq
    rwa [hr] at hop
  have hmade : Made s.committed (.record r) := hr ▸ hsound.made
  have hnow : r.now ≤ s.clock := by
    have hnow := hsound.now_le
    rwa [hr] at hnow
  obtain ⟨e, he, hkey, hentries, hjournal⟩ := hsound.written_record hr hwritten
  have hfree : g r.claim.key = none := by
    rw [← hkey]
    refine h.guess_apart hg hopen (hsound.written written hwritten).1 ?_ hentries
      (List.mem_singleton_self e)
    rintro r' entry ⟨_, tx', hopen', _, _, hnil, _⟩
    obtain rfl : tx = tx' := Option.some.inj (hopen.2.symm.trans hopen'.2)
    exact htaken hnil
  have hrow : (s.committed.db.deliveries.get? r.claim.delivery.deliveryId).filter tx.op.cond =
      tx.taken.head? := by
    cases hcons : tx.taken with
    | nil => exact absurd hcons htaken
    | cons v vs =>
        have hv : v ∈ tx.taken := hcons ▸ List.mem_cons_self
        have hcond : tx.op.cond v = true := hrows.checked v hv
        have hcur : s.committed.db.deliveries.get? v.id = some v := hrows.current v hv
        rw [← r.id_of_cond hop hcond, hcur, Option.filter_some, if_pos hcond]
        rfl
  obtain ⟨db, hstep, hrequests, hdeliveries, hafter⟩ :=
    record_step hserial hmade hnow hfree hop hrow he
  have htable : s.committed.db.deliveries.update (tx.op.run settings) (tx.op.id_run settings) =
      committedBy settings s.rows.committed tx := by
    refine Table.update_eq_of_get? fun id => ?_
    rw [Table.get?_update]
    exact (@commit_update settings tx s.db _ hrows (fun d hd => r.id_of_cond hop hd) htaken
      id).symm
  have hcall : session.call.event tx.taken = (QueueCall.record r).event tx.taken := by rw [hr]
  refine ⟨{ t with db := db, results := t.results ++ [(r.claim.key, r.result)] }, hcall ▸ hstep,
    hserial.clock, hrequests.trans hserial.requests, hdeliveries.trans htable, ?_, fun k => ?_,
    fun id n => ?_⟩
  · show t.claims = s.claims ++ session.call.handsOut settings session.requests tx.taken
    rw [hserial.claims, hr]
    exact (List.append_nil _).symm
  · show db.deliveryAttempts.get? k = (g k).elim ((s.journal.putAll written).get? k)
      fun x => some (journalAfter x.2 ((s.journal.putAll written).get? k))
    rw [hafter, hserial.journal]
    have hput : (s.journal.putAll written).get? k = _ := hjournal k
    rw [hput]
    split
    · rename_i hk
      rw [hk, hfree]
      rfl
    · rfl
  · rw [result?_record hserial hmade, result?_published hr hmade]
    split
    · rfl
    · exact hserial.results id n

omit [DecidableEq ι] in
/-- The journal rows of a claim have different keys. -/
theorem Inv.lost_unique {call : ClaimCall} {entries : List Attempt} (h : s.Inv settings)
    (hopen : s.Open i session tx)
    (hentries : (QueueCall.claim call).entries settings session.requests tx.op tx.taken =
      .ok entries) :
    ∀ e ∈ entries, ∀ e' ∈ entries, e'.key = e.key → e' = e := by
  intro e he e' he' hkey
  have hrows := h.rows.sound i tx hopen.2
  obtain ⟨d, hd, hlost⟩ := Fallible.exists_of_mem_mapM hentries he
  obtain ⟨d', hd', hlost'⟩ := Fallible.exists_of_mem_mapM hentries he'
  have htaken : ∀ {x : Delivery}, x ∈ ((joined session.requests tx.taken).map
      ClaimedRow.prev).filter reclaimed → s.rows.committed.get? x.id = some x := by
    intro x hx
    obtain ⟨row, hrow, rfl⟩ := List.mem_map.mp (List.mem_of_mem_filter hx)
    exact hrows.current _ (mem_taken_of_mem_joined hrow)
  have hid : d'.id = d.id := by
    rw [Service.key_of_lostAttempt hlost, Service.key_of_lostAttempt hlost'] at hkey
    exact congrArg Prod.fst hkey
  have hsame := htaken hd'
  rw [hid, htaken hd] at hsame
  obtain rfl := Option.some.inj hsame
  exact Except.ok.inj (hlost'.symm.trans hlost)

/-- A claim. -/
theorem Inv.publish_claim {call : ClaimCall} (h : s.Inv settings) (hg : s.Valid settings g)
    (hopen : s.Open i session tx) (hwritten : session.written = some written)
    (hcall : session.call = .claim call) (hserial : Serial g s.committed t) :
    ∃ t', Service.step settings t (session.call.event tx.taken) = some t' ∧
      Serial g (s.published settings i session tx written).committed t' := by
  have hsound := h.sound i session tx hopen
  obtain ⟨hscanned, entries, hentries, hnew⟩ := hsound.written written hwritten
  have hplanned := hsound.planned
  have hnow := hsound.now_le
  have hop := hsound.op_eq
  have hapart : ∀ e ∈ entries, g e.key = none := by
    intro e he
    refine h.guess_apart hg hopen hscanned ?_ hentries he
    rintro r entry ⟨session', _, hopen', hr, _⟩
    obtain rfl : session = session' := Option.some.inj (hopen.1.symm.trans hopen'.1)
    rw [hcall] at hr
    cases hr
  rw [hcall] at hplanned hnow hop hentries
  obtain ⟨hlease, hop⟩ := QueueCall.op_claim hop
  have hrows : tx.Sound (queueLocks settings) t.db.deliveries := by
    rw [hserial.deliveries]
    exact h.rows.sound i tx hopen.2
  -- the claim of the service, with the rows passed over as locked
  obtain ⟨call', hcall'⟩ : ∃ call' : ClaimCall, call' =
    { call with locked := fun id => decide (id ∉ tx.taken.map Delivery.id) } := ⟨_, rfl⟩
  have hop' : tx.op = .claim call'.workerId call'.limit call'.now := by rw [hcall', hop]
  have hplan : call'.order.map RankedRow.id = tx.plan := by rw [hcall', hplanned.2]
  have hlocked : call'.locked = fun id => decide (id ∉ tx.taken.map Delivery.id) := by rw [hcall']
  have hjoined : claimedRows call' t.db = joined session.requests tx.taken := by
    rw [← h.joined_eq hopen, claimedRows, taken_eq_picked hrows hop' hplan hlocked,
      hserial.requests]
    rfl
  have hlost : (((claimedRows call' t.db).map ClaimedRow.prev).filter reclaimed).mapM
      (lostAttempt call'.workerId call'.now) = .ok entries := by
    rw [hjoined, hcall']
    exact hentries
  obtain ⟨db, claimed, hclaim, f, hf, hupdate⟩ := exists_claimBatch hlease ⟨entries, hlost⟩
  obtain ⟨lost, hspec⟩ := claimBatch_spec hclaim
  obtain rfl := Except.ok.inj (hlost.symm.trans hspec.lost_entries)
  have hdeliveries : db.deliveries = committedBy settings s.rows.committed tx := by
    have hrow := (commit_claim hrows hop' hplan hlocked (fun d hd => by
      obtain ⟨lead, _, hlead⟩ := h.exists_lead hopen hd
      exact ⟨lead, hserial.requests ▸ hlead⟩) hclaim).2
    rw [hupdate] at hrow ⊢
    rw [hserial.deliveries] at hrow ⊢
    exact Table.update_eq_of_get? hrow
  have hstep : Service.step settings t (.claim call') = some
      { t with db := db, claims := t.claims ++ newClaims settings call' claimed } := by
    refine Service.step_claim.mpr ⟨?_, ?_, db, claimed, hclaim, rfl⟩
    · rw [hserial.clock, hcall']
      exact hnow
    · rw [hcall']
      exact ⟨hplanned.1.scan_perm, hplanned.1.scan_sorted, hplanned.1.order_perm,
        hplanned.1.order_sorted⟩
  have hevent : session.call.event tx.taken = .claim call' := by
    rw [hcall, hcall']
    rfl
  refine ⟨{ t with db := db, claims := t.claims ++ newClaims settings call' claimed },
    hevent ▸ hstep, hserial.clock, hspec.requests.trans hserial.requests, hdeliveries, ?_,
    fun k => ?_, fun id n => ?_⟩
  · show _ = s.claims ++ session.call.handsOut settings session.requests tx.taken
    rw [hserial.claims, hspec.returned, hjoined, hcall, hcall']
    rfl
  · have hput : (s.journal.putAll written).get? k =
        (s.journal.get? k).or (entries.find? fun e => e.key = k) := by
      rw [hnew, hcall, ← Table.get?_putAll_new (h.lost_unique hopen hentries),
        ← List.filterMap_eq_filter]
      rfl
    show db.deliveryAttempts.get? k = (g k).elim ((s.journal.putAll written).get? k)
      fun x => some (journalAfter x.2 ((s.journal.putAll written).get? k))
    rw [hput, hspec.journal, hserial.journal]
    cases hk : g k with
    | none => rfl
    | some x =>
        have hnone : (entries.find? fun e => e.key = k) = none := by
          refine List.find?_eq_none.mpr fun e he hkey => ?_
          have hfree := hapart e he
          rw [of_decide_eq_true hkey, hk] at hfree
          cases hfree
        rw [hnone, Option.or_none, Option.or_none]
        rfl
  · have hresult := hserial.results id n
    show t.result? id n = _
    rw [hresult, result?_published_of_ne_record]
    rintro r hr
    rw [hcall] at hr
    cases hr

/-- A requeue, whichever filter it has. -/
theorem Inv.serial_requeue {call : RequeueScan} {where_ : Delivery → Bool}
    {includeDelivered : Bool} {limit : Option ℕ} (h : s.Inv settings)
    (hopen : s.Open i session tx) (hwritten : session.written = some written)
    (hnone : session.call.entries settings session.requests tx.op tx.taken = .ok [])
    (hhands : session.call.handsOut settings session.requests tx.taken = [])
    (hrecord : ∀ r, session.call ≠ .record r)
    (hop : tx.op = .requeue where_ includeDelivered limit call.now)
    (hplan : call.scan.map Delivery.id = tx.plan)
    (hlocked : call.locked = fun id => decide (id ∉ tx.taken.map Delivery.id))
    (hserial : Serial g s.committed t) :
    Serial g (s.published settings i session tx written).committed
      { t with db := (requeue call where_ includeDelivered limit t.db).1 } := by
  have hrows : tx.Sound (queueLocks settings) t.db.deliveries := by
    rw [hserial.deliveries]
    exact h.rows.sound i tx hopen.2
  have hjournal : s.journal.putAll written = s.journal := by
    obtain ⟨_, entries, hentries, rfl⟩ := (h.sound i session tx hopen).written written hwritten
    obtain rfl := Except.ok.inj (hnone.symm.trans hentries)
    rfl
  refine ⟨hserial.clock, hserial.requests, ?_, ?_, fun k => ?_, fun id n => ?_⟩
  · show _ = committedBy settings s.rows.committed tx
    have hrow := @commit_requeue settings tx t.db call where_ includeDelivered limit hrows hop
      hplan hlocked
    have hcommitted : t.db.deliveries = s.rows.committed := hserial.deliveries
    obtain ⟨f, hf, hupdate⟩ := requeue_update call where_ includeDelivered limit t.db
    rw [hupdate] at hrow ⊢
    rw [← hcommitted]
    exact Table.update_eq_of_get? hrow
  · show t.claims = s.claims ++ session.call.handsOut settings session.requests tx.taken
    rw [hserial.claims, hhands]
    exact (List.append_nil _).symm
  · show t.db.deliveryAttempts.get? k = (g k).elim ((s.journal.putAll written).get? k)
      fun x => some (journalAfter x.2 ((s.journal.putAll written).get? k))
    rw [hjournal]
    exact hserial.journal k
  · rw [result?_published_of_ne_record hrecord]
    exact hserial.results id n

omit [DecidableEq ι] in
/-- The filter of a bulk requeue sees the leads of its candidates. -/
theorem Inv.bulkWhere_eq (h : s.Inv settings) (hopen : s.Open i session tx)
    (hserial : Serial g s.committed t) (filter : BulkFilter) {id : DeliveryId} (hid : id ∈ tx.plan)
    {d : Delivery} (hd : t.db.deliveries.get? id = some d) :
    bulkWhere filter t.db d = bulkWhere filter ⟨session.requests, .empty, .empty⟩ d := by
  have hsound := h.sound i session tx hopen
  obtain ⟨d', lead, hd', hlead⟩ := hsound.leads id hid
  rw [hserial.deliveries] at hd
  obtain rfl : d = d' := Option.some.inj (hd.symm.trans hd')
  have hlead' : t.db.requests.get? d.requestId = some lead := by
    rw [hserial.requests]
    exact hsound.seen _ _ hlead
  unfold bulkWhere
  simp only [hlead, hlead']

theorem Inv.publish_requeueRequest {call : RequeueScan} {requestId : RequestId}
    {recipients : Option (List PyStr)} {includeDelivered : Bool} (h : s.Inv settings)
    (hopen : s.Open i session tx) (hwritten : session.written = some written)
    (hcall : session.call = .requeueRequest call requestId recipients includeDelivered)
    (hserial : Serial g s.committed t) :
    ∃ t', Service.step settings t (session.call.event tx.taken) = some t' ∧
      Serial g (s.published settings i session tx written).committed t' := by
  have hsound := h.sound i session tx hopen
  have hplanned := hsound.planned
  have hnow := hsound.now_le
  have hop := hsound.op_eq
  have hmade := hsound.made
  rw [hcall] at hplanned hnow hop hmade
  obtain ⟨named, hnamed, hop⟩ := QueueCall.op_requeueRequest hop
  obtain ⟨call', hcall'⟩ : ∃ call' : RequeueScan, call' =
    { call with locked := fun id => decide (id ∉ tx.taken.map Delivery.id) } := ⟨_, rfl⟩
  refine ⟨{ t with db := (requeue call' (requestWhere requestId named) includeDelivered none
    t.db).1 }, ?_, ?_⟩
  · have hevent : session.call.event tx.taken =
        .requeueRequest call' requestId recipients includeDelivered := by
      rw [hcall, hcall']
      rfl
    have hnow' : call'.now ≤ t.clock := by
      rw [hcall', hserial.clock]
      exact hnow
    have hknown : ¬ (t.db.requests.get? requestId).isNone = true := by
      have hsome : (s.committed.db.requests.get? requestId).isSome := hmade
      rw [hserial.requests, ← Option.not_isSome, hsome]
      decide
    have hrun : requeueRequest call' requestId recipients includeDelivered t.db =
        .ok (some (requeue call' (requestWhere requestId named) includeDelivered none t.db)) := by
      unfold requeueRequest
      rw [if_neg hknown, hnamed]
      rfl
    rw [hevent]
    simp only [Service.step, if_pos hnow', hrun]
  · refine h.serial_requeue hopen hwritten (by rw [hcall]; rfl) (by rw [hcall]; rfl) ?_ ?_ ?_ ?_
      hserial
    · intro r hr
      rw [hcall] at hr
      cases hr
    · rw [hcall', hop]
    · rw [hcall']
      exact hplanned.symm
    · rw [hcall']

theorem Inv.publish_requeueBulk {call : RequeueScan} {filter : BulkFilter} {limit : ℕ}
    (h : s.Inv settings) (hopen : s.Open i session tx) (hwritten : session.written = some written)
    (hcall : session.call = .requeueBulk call filter limit) (hserial : Serial g s.committed t) :
    ∃ t', Service.step settings t (session.call.event tx.taken) = some t' ∧
      Serial g (s.published settings i session tx written).committed t' := by
  have hsound := h.sound i session tx hopen
  have hplanned := hsound.planned
  have hnow := hsound.now_le
  have hop := hsound.op_eq
  rw [hcall] at hplanned hnow hop
  obtain ⟨⟨origin, horigin⟩, ⟨part, hpart⟩, hop⟩ := QueueCall.op_requeueBulk hop
  obtain ⟨call', hcall'⟩ : ∃ call' : RequeueScan, call' =
    { call with locked := fun id => decide (id ∉ tx.taken.map Delivery.id) } := ⟨_, rfl⟩
  have hscan : call'.scan.map Delivery.id = tx.plan := by
    rw [hcall']
    exact hplanned.symm
  -- the leads of the candidates are the ones the statement saw
  have hsame : requeue call' (bulkWhere filter t.db) true (some limit) t.db =
      requeue call' (bulkWhere filter ⟨session.requests, .empty, .empty⟩) true (some limit)
        t.db := by
    refine requeue_congr fun id hid d hd => ?_
    rw [hscan] at hid
    exact h.bulkWhere_eq hopen hserial filter hid hd
  refine ⟨{ t with db := (requeue call' (bulkWhere filter ⟨session.requests, .empty, .empty⟩) true
    (some limit) t.db).1 }, ?_, ?_⟩
  · have hevent : session.call.event tx.taken = .requeueBulk call' filter limit := by
      rw [hcall, hcall']
      rfl
    have hnow' : call'.now ≤ t.clock := by
      rw [hcall', hserial.clock]
      exact hnow
    have hrun : requeueBulk call' filter limit t.db = .ok (requeue call'
        (bulkWhere filter ⟨session.requests, .empty, .empty⟩) true (some limit) t.db) := by
      unfold requeueBulk
      rw [horigin, hpart, ← hsame]
      rfl
    rw [hevent]
    simp only [Service.step, if_pos hnow', hrun]
  · refine h.serial_requeue hopen hwritten (by rw [hcall]; rfl) (by rw [hcall]; rfl) ?_ ?_ hscan ?_
      hserial
    · intro r hr
      rw [hcall] at hr
      cases hr
    · rw [hcall', hop]
    · rw [hcall']

end Publish

end Server

end LeadQueue
