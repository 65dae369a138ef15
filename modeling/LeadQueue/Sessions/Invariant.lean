import LeadQueue.Life.Invariant
import LeadQueue.Sessions

/-!
# What holds with transactions open

The invariant of the server says of every open transaction what it has seen and
what it is going to do. Its one fact about two transactions is that no journal
key is written by both; its one fact about a record that found no row is that
the attempt has stopped being the one in flight, for good.
-/

namespace LeadQueue

open Relational Transition RowLocks

/-- A new version keeps the target columns; it is in flight only if it is the old
version or a later claim of it. -/
theorem QueueOp.newVersion_cases (settings : Settings) (op : QueueOp) (d : Delivery) :
    d.SameTarget ((op.effect settings d).getD d) ∧
      d.totalAttempts ≤ ((op.effect settings d).getD d).totalAttempts ∧
      (((op.effect settings d).getD d).status = .inFlight →
        (op.effect settings d).getD d = d ∨
          d.totalAttempts < ((op.effect settings d).getD d).totalAttempts) := by
  cases op with
  | claim workerId limit now =>
      exact ⟨⟨rfl, rfl, rfl, rfl, rfl⟩, Nat.le_succ _, fun _ => Or.inr (Nat.lt_succ_self _)⟩
  | success id result now => exact ⟨⟨rfl, rfl, rfl, rfl, rfl⟩, le_rfl, fun h => by cases h⟩
  | failure id workerId result lastError exhausted delay now =>
      refine ⟨⟨rfl, rfl, rfl, rfl, rfl⟩, le_rfl, fun h => ?_⟩
      cases exhausted <;> cases h
  | requeue where_ includeDelivered limit now =>
      simp only [QueueOp.effect]
      split
      · exact ⟨⟨rfl, rfl, rfl, rfl, rfl⟩, le_rfl, fun h => by cases h⟩
      · exact ⟨.refl d, le_rfl, fun _ => Or.inl rfl⟩

/-! ## What the committed state says -/

/-- Every claim handed out is of a stored delivery and has been counted there, and
an in-flight row is held by the worker of its latest claim. -/
structure Service.Known (s : Service) : Prop where
  referenced : s.db.Referenced
  claimed : ∀ {id : DeliveryId} {n : ℕ} {c : Claim}, s.claim? id n = some c →
    ∃ d, s.db.deliveries.get? id = some d ∧ n ≤ d.totalAttempts
  holder : ∀ {id : DeliveryId} {d : Delivery}, s.db.deliveries.get? id = some d →
    d.status = .inFlight → ∃ c, s.claim? id d.totalAttempts = some c ∧
      d.lockedBy = some c.workerId

theorem Service.known_of_reachable {settings : Settings} {s : Service}
    (h : (service settings).Reachable s) : s.Known where
  referenced := referenced_of_reachable h
  claimed := by
    intro id n c hc
    cases hrow : s.db.deliveries.get? id with
    | none =>
        rw [(tidy_of_reachable h id hrow n).1] at hc
        cases hc
    | some d =>
        have hinv := inv_of_reachable h (life_eq_some_iff.mpr ⟨d, hrow, rfl⟩)
        exact ⟨d, rfl, ((hinv.claims_iff n).mp (Option.isSome_iff_exists.mpr ⟨c, hc⟩)).2⟩
  holder := by
    intro id d hrow hst
    have hinv := inv_of_reachable h (life_eq_some_iff.mpr ⟨d, hrow, rfl⟩)
    obtain ⟨c, hc, hholds, _⟩ := hinv.held hst
    exact ⟨c, hc, hholds.lockedBy⟩

namespace Server

variable {ι : Type} {settings : Settings} {s : Server ι}

/-- Session `i` is open and runs its statements as `tx`. -/
def Open (s : Server ι) (i : ι) (session : Session) (tx : Tx Delivery DeliveryId QueueOp) : Prop :=
  s.sessions i = some session ∧ s.rows.txs i = some tx

/-- The candidates a call started with. -/
def Planned (settings : Settings) (tx : Tx Delivery DeliveryId QueueOp) : QueueCall → Prop
  | .claim call => call.Valid settings ∧ tx.plan = call.order.map RankedRow.id
  | .record r => ∀ id ∈ tx.plan, id = r.claim.delivery.deliveryId
  | .requeueRequest call .. | .requeueBulk call .. => tx.plan = call.scan.map Delivery.id

/-- What remains true of the check the program made before the call. -/
def Made (t : Service) : QueueCall → Prop
  | .record r =>
      t.claim? r.claim.delivery.deliveryId r.claim.attemptNumber = some r.claim ∧
      t.result? r.claim.delivery.deliveryId r.claim.attemptNumber = none
  | .requeueRequest _ requestId .. => (t.db.requests.get? requestId).isSome
  | _ => True

/-- The statement that takes rows is over. -/
def Scanned (settings : Settings) (tx : Tx Delivery DeliveryId QueueOp) : Prop :=
  tx.todo = [] ∨ ¬ (queueLocks settings).Room tx

/-- What holds of an open transaction, `t` being what is committed. -/
structure Sound (settings : Settings) (t : Service) (session : Session)
    (tx : Tx Delivery DeliveryId QueueOp) : Prop where
  op_eq : session.call.op settings session.requests = .ok tx.op
  now_le : session.call.now ≤ t.clock
  planned : Planned settings tx session.call
  made : Made t session.call
  seen : ∀ id lead, session.requests.get? id = some lead → t.db.requests.get? id = some lead
  leads : ∀ id ∈ tx.plan, ∃ d lead, t.db.deliveries.get? id = some d ∧
    session.requests.get? d.requestId = some lead
  written : ∀ written, session.written = some written → Scanned settings tx ∧ ∃ entries,
    session.call.entries settings session.requests tx.op tx.taken = .ok entries ∧
    written = entries.filterMap fun e => session.call.resolve (t.db.deliveryAttempts.get? e.key) e

/-- The attempt is not the one in flight. -/
def Settled (t : Service) (r : Recording) : Prop :=
  ∀ d, t.db.deliveries.get? r.claim.delivery.deliveryId = some d →
    ¬ (d.status = .inFlight ∧ d.totalAttempts = r.claim.attemptNumber)

structure Inv (settings : Settings) (s : Server ι) : Prop where
  rows : RowLocks.Inv (queueLocks settings) s.rows
  paired : ∀ i, s.sessions i = none ↔ s.rows.txs i = none
  sound : ∀ i session tx, s.Open i session tx → Sound settings s.committed session tx
  apart : ∀ i j session session' r r', i ≠ j → s.sessions i = some session →
    s.sessions j = some session' → session.call = .record r → session'.call = .record r' →
    r.claim.key ≠ r'.claim.key
  /-- A record that found no row to update. -/
  settled : ∀ i session tx r, s.Open i session tx → session.call = .record r → tx.todo = [] →
    tx.taken = [] → Settled s.committed r

/-! ## One session at a time -/

/-- Commits that leave what a session relies on leave the session sound. -/
theorem Sound.mono {t t' : Service} {session : Session} {tx : Tx Delivery DeliveryId QueueOp}
    (h : Sound settings t session tx) (hclock : t.clock ≤ t'.clock)
    (hrequests : ∀ id lead, t.db.requests.get? id = some lead →
      t'.db.requests.get? id = some lead)
    (hrows : ∀ id d, t.db.deliveries.get? id = some d →
      ∃ d', t'.db.deliveries.get? id = some d' ∧ d'.requestId = d.requestId)
    (hmade : Made t session.call → Made t' session.call)
    (hjournal : ∀ entries, Scanned settings tx →
      session.call.entries settings session.requests tx.op tx.taken = .ok entries →
      ∀ e ∈ entries, t'.db.deliveryAttempts.get? e.key = t.db.deliveryAttempts.get? e.key) :
    Sound settings t' session tx where
  op_eq := h.op_eq
  now_le := h.now_le.trans hclock
  planned := h.planned
  made := hmade h.made
  seen id lead hlead := hrequests id lead (h.seen id lead hlead)
  leads id hid := by
    obtain ⟨d, lead, hd, hlead⟩ := h.leads id hid
    obtain ⟨d', hd', hreq⟩ := hrows id d hd
    exact ⟨d', lead, hd', hreq ▸ hlead⟩
  written written hwritten := by
    obtain ⟨hscanned, entries, hentries, rfl⟩ := h.written written hwritten
    refine ⟨hscanned, entries, hentries, List.filterMap_congr fun e he => ?_⟩
    rw [hjournal entries hscanned hentries e he]

/-- A record whose update matches no row comes too late. -/
theorem Sound.settled_of_fails {t : Service} {session : Session}
    {tx : Tx Delivery DeliveryId QueueOp} {r : Recording} (h : Sound settings t session tx)
    (hknown : t.Known) (hr : session.call = .record r)
    (hfails : ∀ d, t.db.deliveries.get? r.claim.delivery.deliveryId = some d →
      tx.op.cond d = false) : Settled t r := by
  rintro d hd ⟨hst, hn⟩
  have hop := h.op_eq
  have hmade := h.made
  rw [hr] at hop hmade
  obtain ⟨c, hc, hlocked⟩ := hknown.holder hd hst
  rw [hn, hmade.1] at hc
  obtain rfl := Option.some.inj hc
  have hcond := r.cond_of_held hop (Table.key_of_get? hd) hst hlocked
  rw [hfails d hd] at hcond
  cases hcond

/-! ## No two sessions write one journal key -/

theorem key_of_mem_entries_record {r : Recording} {requests : Table Request.id} {op : QueueOp}
    {taken : List Delivery} {entries : List Attempt}
    (h : (QueueCall.record r).entries settings requests op taken = .ok entries) :
    ∃ e, r.entry settings (QueueCall.scheduledNextAt settings op taken) = .ok e ∧
      entries = [e] ∧ e.key = r.claim.key := by
  obtain ⟨e, he, h⟩ := Fallible.bind_eq_ok_iff.mp h
  refine ⟨e, he, (Fallible.pure_eq_ok_iff.mp h).symm, ?_⟩
  obtain ⟨ms, _, he⟩ := Fallible.bind_eq_ok_iff.mp he
  obtain ⟨text, _, he⟩ := Fallible.bind_eq_ok_iff.mp he
  rw [← Fallible.pure_eq_ok_iff.mp he]
  rfl

theorem mem_taken_of_mem_joined {requests : Table Request.id} {taken : List Delivery}
    {row : ClaimedRow} (h : row ∈ joined requests taken) : row.prev ∈ taken := by
  obtain ⟨p, hp, hrow⟩ := List.mem_filterMap.mp h
  obtain ⟨req, _, rfl⟩ := Option.map_eq_some_iff.mp hrow
  exact hp

/-- A claim journals the in-flight rows it has taken. -/
theorem exists_taken_of_mem_entries {call : ClaimCall} {requests : Table Request.id} {op : QueueOp}
    {taken : List Delivery} {entries : List Attempt}
    (h : (QueueCall.claim call).entries settings requests op taken = .ok entries) {e : Attempt}
    (he : e ∈ entries) : ∃ d ∈ taken, d.status = .inFlight ∧ e.key = (d.id, d.totalAttempts) := by
  obtain ⟨d, hd, hlost⟩ := Fallible.exists_of_mem_mapM h he
  obtain ⟨hmem, hrec⟩ := List.mem_filter.mp hd
  obtain ⟨row, hrow, rfl⟩ := List.mem_map.mp hmem
  simp only [reclaimed, Bool.and_eq_true, beq_iff_eq] at hrec
  exact ⟨row.prev, mem_taken_of_mem_joined hrow, hrec.1, Service.key_of_lostAttempt hlost⟩

section Pair

variable {i j : ι} {session session' : Session}
  {tx tx' : Tx Delivery DeliveryId QueueOp} {entries entries' : List Attempt}

/-- A record has looked at all its candidates when its statement is over. -/
theorem Sound.todo_eq_nil {r : Recording} {t : Service} (h : Sound settings t session tx)
    (hr : session.call = .record r) (hscanned : Scanned settings tx) : tx.todo = [] := by
  rcases hscanned with htodo | hfull
  · exact htodo
  · have hop := h.op_eq
    rw [hr] at hop
    refine absurd (fun n hn => ?_) hfull
    have hcap : tx.op.cap = some n := hn
    rw [r.cap_eq_none hop] at hcap
    cases hcap

/-- A row is taken by one transaction. -/
theorem Inv.taken_apart (h : s.Inv settings) (hij : i ≠ j) (hi : s.Open i session tx)
    (hj : s.Open j session' tx') {d d' : Delivery} (hd : d ∈ tx.taken) (hd' : d' ∈ tx'.taken) :
    d.id ≠ d'.id := by
  intro heq
  refine h.rows.exclusive i j tx tx' hi.2 hj.2 hij d.id ((h.rows.sound i tx hi.2).held d hd) ?_
  rw [heq]
  exact (h.rows.sound j tx' hj.2).held d' hd'

/-- The attempt a claim takes over is not being recorded. -/
theorem Inv.lost_apart (h : s.Inv settings) (hij : i ≠ j) (hi : s.Open i session tx)
    (hj : s.Open j session' tx') {r : Recording} (hr : session'.call = .record r)
    (hscanned : Scanned settings tx') {d : Delivery} (hd : d ∈ tx.taken)
    (hst : d.status = .inFlight) : (d.id, d.totalAttempts) ≠ r.claim.key := by
  intro heq
  obtain ⟨hid, hn⟩ := Prod.mk.inj heq
  have hsound := h.sound j session' tx' hj
  have hop := hsound.op_eq
  rw [hr] at hop
  have hcur := (h.rows.sound i tx hi.2).current d hd
  cases htaken : tx'.taken with
  | nil =>
      refine h.settled j session' tx' r hj hr (hsound.todo_eq_nil hr hscanned) htaken d ?_ ⟨hst, hn⟩
      rw [← hid]
      exact hcur
  | cons v vs =>
      have hv : v ∈ tx'.taken := htaken ▸ List.mem_cons_self
      have hvid := r.id_of_cond hop ((h.rows.sound j tx' hj.2).checked v hv)
      exact h.taken_apart hij hi hj hd hv (hid.trans hvid.symm)

theorem Inv.claim_apart (h : s.Inv settings) (hij : i ≠ j) (hi : s.Open i session tx)
    (hj : s.Open j session' tx') {call : ClaimCall} (hcall : session.call = .claim call)
    (hscanned' : Scanned settings tx')
    (hentries : session.call.entries settings session.requests tx.op tx.taken = .ok entries)
    (hentries' : session'.call.entries settings session'.requests tx'.op tx'.taken = .ok entries')
    {e e' : Attempt} (he : e ∈ entries) (he' : e' ∈ entries') : e.key ≠ e'.key := by
  rw [hcall] at hentries
  obtain ⟨d, hd, hst, hkey⟩ := exists_taken_of_mem_entries hentries he
  rw [hkey]
  cases hcall' : session'.call with
  | claim call' =>
      rw [hcall'] at hentries'
      obtain ⟨d', hd', _, hkey'⟩ := exists_taken_of_mem_entries hentries' he'
      rw [hkey']
      exact fun heq => h.taken_apart hij hi hj hd hd' (congrArg Prod.fst heq)
  | record r =>
      rw [hcall'] at hentries'
      obtain ⟨x, _, rfl, hkey'⟩ := key_of_mem_entries_record hentries'
      obtain rfl := List.mem_singleton.mp he'
      rw [hkey']
      exact h.lost_apart hij hi hj hcall' hscanned' hd hst
  | requeueRequest | requeueBulk =>
      rw [hcall'] at hentries'
      cases hentries'
      cases he'

/-- Two sessions insert under different journal keys. -/
theorem Inv.entries_apart (h : s.Inv settings) (hij : i ≠ j) (hi : s.Open i session tx)
    (hj : s.Open j session' tx') (hscanned : Scanned settings tx)
    (hscanned' : Scanned settings tx')
    (hentries : session.call.entries settings session.requests tx.op tx.taken = .ok entries)
    (hentries' : session'.call.entries settings session'.requests tx'.op tx'.taken = .ok entries')
    {e e' : Attempt} (he : e ∈ entries) (he' : e' ∈ entries') : e.key ≠ e'.key := by
  cases hcall : session.call with
  | claim call => exact h.claim_apart hij hi hj hcall hscanned' hentries hentries' he he'
  | record r =>
      cases hcall' : session'.call with
      | claim call' =>
          exact (h.claim_apart hij.symm hj hi hcall' hscanned hentries' hentries he' he).symm
      | record r' =>
          rw [hcall] at hentries
          rw [hcall'] at hentries'
          obtain ⟨x, _, rfl, hkey⟩ := key_of_mem_entries_record hentries
          obtain ⟨x', _, rfl, hkey'⟩ := key_of_mem_entries_record hentries'
          obtain rfl := List.mem_singleton.mp he
          obtain rfl := List.mem_singleton.mp he'
          rw [hkey, hkey']
          exact h.apart i j session session' r r' hij hi.1 hj.1 hcall hcall'
      | requeueRequest | requeueBulk =>
          rw [hcall'] at hentries'
          cases hentries'
          cases he'
  | requeueRequest | requeueBulk =>
      rw [hcall] at hentries
      cases hentries
      cases he

end Pair

/-! ## Steps that commit nothing -/

section Sessions

variable [DecidableEq ι] {i j : ι} {session session' : Session}
  {tx tx' : Tx Delivery DeliveryId QueueOp}

/-- A session after a step of session `i`. -/
theorem open_of_update {s' : Server ι} {o : Option Session}
    {o' : Option (Tx Delivery DeliveryId QueueOp)}
    (hsessions : s'.sessions = Function.update s.sessions i o)
    (htxs : s'.rows.txs = Function.update s.rows.txs i o') (h : s'.Open j session tx) :
    (j = i ∧ o = some session ∧ o' = some tx) ∨ (j ≠ i ∧ s.Open j session tx) := by
  obtain ⟨hsession, htx⟩ := h
  rw [hsessions] at hsession
  rw [htxs] at htx
  by_cases hj : j = i
  · subst hj
    rw [Function.update_self] at hsession htx
    exact Or.inl ⟨rfl, hsession, htx⟩
  · rw [Function.update_of_ne hj] at hsession htx
    exact Or.inr ⟨hj, hsession, htx⟩

theorem Inv.update (h : s.Inv settings) {s' : Server ι} {o : Option Session}
    {o' : Option (Tx Delivery DeliveryId QueueOp)}
    (hsessions : s'.sessions = Function.update s.sessions i o)
    (htxs : s'.rows.txs = Function.update s.rows.txs i o') (hsame : s'.committed = s.committed)
    (hrows : RowLocks.Inv (queueLocks settings) s'.rows) (hpaired : o = none ↔ o' = none)
    (hsound : ∀ session tx, o = some session → o' = some tx →
      Sound settings s.committed session tx)
    (hapart : ∀ session r, o = some session → session.call = .record r → ∀ j session' r', j ≠ i →
      s.sessions j = some session' → session'.call = .record r' → r.claim.key ≠ r'.claim.key)
    (hsettled : ∀ session tx r, o = some session → o' = some tx → session.call = .record r →
      tx.todo = [] → tx.taken = [] → Settled s.committed r) : s'.Inv settings where
  rows := hrows
  paired j := by
    rw [hsessions, htxs]
    by_cases hj : j = i
    · subst hj
      rwa [Function.update_self, Function.update_self]
    · rw [Function.update_of_ne hj, Function.update_of_ne hj]
      exact h.paired j
  sound j session tx hj := by
    rw [hsame]
    rcases open_of_update hsessions htxs hj with ⟨_, ho, ho'⟩ | ⟨_, hold⟩
    · exact hsound session tx ho ho'
    · exact h.sound j session tx hold
  apart j k session session' r r' hjk hj hk hr hr' := by
    rw [hsessions] at hj hk
    by_cases hji : j = i
    · subst hji
      rw [Function.update_self] at hj
      rw [Function.update_of_ne hjk.symm] at hk
      exact hapart session r hj hr k session' r' hjk.symm hk hr'
    · rw [Function.update_of_ne hji] at hj
      by_cases hki : k = i
      · subst hki
        rw [Function.update_self] at hk
        exact (hapart session' r' hk hr' j session r hji hj hr).symm
      · rw [Function.update_of_ne hki] at hk
        exact h.apart j k session session' r r' hjk hj hk hr hr'
  settled j session tx r hj hr htodo htaken := by
    rw [hsame]
    rcases open_of_update hsessions htxs hj with ⟨_, ho, ho'⟩ | ⟨_, hold⟩
    · exact hsettled session tx r ho ho' hr htodo htaken
    · exact h.settled j session tx r hold hr htodo htaken

theorem Inv.moved (h : s.Inv settings) (hopen : s.Open i session tx)
    (hwritten : session.written = none) (hop : tx'.op = tx.op) (hplan : tx'.plan = tx.plan)
    (hrows : RowLocks.Inv (queueLocks settings) (s.moved i tx').rows)
    (hsettled : ∀ r, session.call = .record r → tx'.todo = [] → tx'.taken = [] →
      Settled s.committed r) : (s.moved i tx').Inv settings := by
  have hsound := h.sound i session tx hopen
  have hsessions : s.sessions = Function.update s.sessions i (some session) := by
    rw [← hopen.1, Function.update_eq_self]
  refine h.update hsessions rfl rfl hrows (by simp) ?_ ?_ ?_
  · rintro _ _ ⟨⟩ ⟨⟩
    refine ⟨hop ▸ hsound.op_eq, hsound.now_le, ?_, hsound.made, hsound.seen, hplan ▸ hsound.leads,
      fun written hw => ?_⟩
    · have hplanned := hsound.planned
      cases hcall : session.call <;> rw [hcall] at hplanned
      · exact ⟨hplanned.1, hplan.trans hplanned.2⟩
      · exact fun id hid => hplanned id (hplan ▸ hid)
      · exact hplan.trans hplanned
      · exact hplan.trans hplanned
    · rw [hwritten] at hw
      cases hw
  · rintro _ r ⟨⟩ hr j session' r' hj hj' hr'
    exact h.apart i j session session' r r' hj.symm hopen.1 hj' hr hr'
  · rintro _ _ r ⟨⟩ ⟨⟩ hr htodo htaken
    exact hsettled r hr htodo htaken

theorem Inv.begun (h : s.Inv settings) (hknown : s.committed.Known) {call : QueueCall}
    {op : QueueOp} {plan : List DeliveryId}
    (hnow : call.now ≤ s.clock) (hmakes : s.Makes call) (hop : call.op settings s.requests = .ok op)
    (hscans : call.Scans settings s.rows.committed op plan) :
    ((s.moved i ⟨op, plan, plan, [], []⟩).withSession i
      (some ⟨call, s.requests, none, []⟩)).Inv settings := by
  have hsound : Sound settings s.committed ⟨call, s.requests, none, []⟩
      ⟨op, plan, plan, [], []⟩ := by
    refine ⟨hop, hnow, ?_, ?_, fun _ _ hlead => hlead, fun id hid => ?_, fun _ hw => by cases hw⟩
    · cases call with
      | claim call => exact hscans.2
      | record r =>
          intro id hid
          obtain rfl : plan = _ := hscans
          obtain ⟨d, hd, rfl⟩ := List.mem_map.mp hid
          exact r.id_of_cond hop (List.of_mem_filter hd)
      | requeueRequest | requeueBulk => exact hscans.2.2
    · cases call with
      | record r => exact ⟨hmakes.1, hmakes.2.1⟩
      | requeueRequest => exact hmakes
      | claim | requeueBulk => trivial
    · obtain ⟨d, hd⟩ := hscans.exists_row hop hid
      obtain ⟨lead, hlead⟩ := hknown.referenced d (Table.mem_of_get? hd)
      exact ⟨d, lead, hd, hlead⟩
  refine h.update rfl rfl rfl (h.rows.begun (hscans.plans hop)) (by simp) ?_ ?_ ?_
  · rintro _ _ ⟨⟩ ⟨⟩
    exact hsound
  · rintro _ r ⟨⟩ hr j session' r' _ hj hr'
    obtain rfl : call = .record r := hr
    exact (hmakes.2.2 j session' r' hj hr').symm
  · rintro _ _ r ⟨⟩ ⟨⟩ hr htodo _
    refine hsound.settled_of_fails hknown hr fun d hd => ?_
    obtain rfl : call = .record r := hr
    by_contra hcond
    rw [Bool.not_eq_false] at hcond
    have hmem : d.id ∈ plan := by
      obtain rfl : plan = _ := hscans
      exact List.mem_map.mpr ⟨d, List.mem_filter.mpr ⟨Table.mem_of_get? hd, hcond⟩, rfl⟩
    obtain rfl : plan = [] := htodo
    cases hmem

theorem Inv.wrote (h : s.Inv settings) (hopen : s.Open i session tx)
    (hscanned : Scanned settings tx) {entries : List Attempt} {shared : List DeliveryId}
    (hentries : session.call.entries settings session.requests tx.op tx.taken = .ok entries) :
    (s.withSession i (some { session with
      written := some (entries.filterMap fun e => session.call.resolve (s.journal.get? e.key) e)
      shared := shared })).Inv settings := by
  have hsound := h.sound i session tx hopen
  have htxs : s.rows.txs = Function.update s.rows.txs i (some tx) := by
    rw [← hopen.2, Function.update_eq_self]
  refine h.update rfl htxs rfl h.rows (by simp) ?_ ?_ ?_
  · rintro _ _ ⟨⟩ ⟨⟩
    refine ⟨hsound.op_eq, hsound.now_le, hsound.planned, hsound.made, hsound.seen, hsound.leads, ?_⟩
    rintro written ⟨⟩
    exact ⟨hscanned, entries, hentries, rfl⟩
  · rintro _ r ⟨⟩ hr j session' r' hj hj' hr'
    exact h.apart i j session session' r r' hj.symm hopen.1 hj' hr hr'
  · rintro _ _ r ⟨⟩ ⟨⟩ hr htodo htaken
    exact h.settled i session tx r hopen hr htodo htaken

theorem Inv.aborted (h : s.Inv settings) (i : ι) : (s.aborted i).Inv settings := by
  refine h.update rfl rfl rfl (h.rows.close i) (by simp) ?_ ?_ ?_
  · rintro _ _ ⟨⟩
  · rintro _ _ ⟨⟩
  · rintro _ _ _ ⟨⟩

end Sessions

/-! ## Commits -/

/-- Either rule writes the new row, or what the record makes of the old one. -/
theorem eq_of_resolve {call : QueueCall} {old : Option Attempt} {e a : Attempt}
    (h : call.resolve old e = some a) : a = journalAfter e old := by
  cases call with
  | record r => exact (Option.some.inj h).symm
  | claim | requeueRequest | requeueBulk =>
      cases old with
      | none => exact (Option.some.inj h).symm
      | some o => cases h

theorem key_journalAfter {e : Attempt} {old : Option Attempt} (hold : ∀ o ∈ old, o.key = e.key) :
    (journalAfter e old).key = e.key := by
  cases old with
  | none => rfl
  | some o => exact (replaceUnknown_key e o).trans (hold o rfl)

/-- What a call writes stands under the keys it inserts. -/
theorem exists_entry_of_mem_written {call : QueueCall} {journal : Table Attempt.key}
    {entries : List Attempt} {a : Attempt}
    (h : a ∈ entries.filterMap fun e => call.resolve (journal.get? e.key) e) :
    ∃ e ∈ entries, a.key = e.key := by
  obtain ⟨e, he, ha⟩ := List.mem_filterMap.mp h
  refine ⟨e, he, ?_⟩
  rw [eq_of_resolve ha]
  exact key_journalAfter fun o ho => Table.key_of_get? ho

theorem Inv.advanced (h : s.Inv settings) {time : Instant} (htime : s.clock ≤ time) :
    Inv settings { s with clock := time } where
  rows := h.rows
  paired := h.paired
  sound i session tx hi :=
    (h.sound i session tx hi).mono htime (fun _ _ hlead => hlead) (fun _ d hd => ⟨d, hd, rfl⟩)
      (fun hmade => by cases hcall : session.call <;> rw [hcall] at hmade <;> exact hmade)
      fun _ _ _ _ _ => rfl
  apart := h.apart
  settled := h.settled

theorem Inv.stored (h : s.Inv settings) (hknown : s.committed.Known) {now : Instant}
    {db : Database} (hext : Extends now s.db db) : (s.stored db).Inv settings := by
  have hrows : ∀ id d, s.rows.committed.get? id = some d → db.deliveries.get? id = some d := by
    intro id d hd
    rcases hext.deliveries id with hsame | ⟨hnone, _⟩
    · exact hsame.trans hd
    · have hnone' : s.rows.committed.get? id = none := hnone
      rw [hd] at hnone'
      cases hnone'
  refine ⟨h.rows.extended hrows, h.paired, fun i session tx hi => ?_, h.apart, ?_⟩
  · refine (h.sound i session tx hi).mono le_rfl hext.requests
      (fun id d hd => ⟨d, hrows id d hd, rfl⟩) (fun hmade => ?_) fun _ _ _ e _ => ?_
    · cases hcall : session.call <;> rw [hcall] at hmade
      case requeueRequest => exact hext.isSome hmade
      all_goals exact hmade
    · exact congrArg (fun journal => Table.get? journal e.key) hext.journal
  · intro i session tx r hi hr htodo htaken d hd
    have hmade := (h.sound i session tx hi).made
    rw [hr] at hmade
    obtain ⟨d', hd', _⟩ := hknown.claimed hmade.1
    obtain rfl : d' = d := Option.some.inj ((hrows _ _ hd').symm.trans hd)
    exact h.settled i session tx r hi hr htodo htaken d' hd'

section Published

variable [DecidableEq ι] {i j : ι} {session session' : Session}
  {tx tx' : Tx Delivery DeliveryId QueueOp} {written : List Attempt}

omit [DecidableEq ι] in
/-- A commit leaves a row alone or makes a new version of it. -/
theorem Inv.exists_version (h : s.Inv settings) (hopen : s.Open i session tx) {id : DeliveryId}
    {d : Delivery} (hd : s.rows.committed.get? id = some d) :
    ∃ d', (committedBy settings s.rows.committed tx).get? id = some d' ∧
      (d' = d ∨ d' = (tx.op.effect settings d).getD d) := by
  rw [get?_committedBy (h.rows.sound i tx hopen.2), hd, Option.map_some]
  refine ⟨_, rfl, ?_⟩
  split
  · exact Or.inr rfl
  · exact Or.inl rfl

omit [DecidableEq ι] in
/-- A commit leaves the journal entries of the other sessions alone. -/
theorem Inv.journal_published (h : s.Inv settings) (hopen : s.Open i session tx)
    (hwritten : session.written = some written) (hij : j ≠ i) (hj : s.Open j session' tx')
    (hscanned : Scanned settings tx') {entries : List Attempt}
    (hentries : session'.call.entries settings session'.requests tx'.op tx'.taken = .ok entries)
    {e : Attempt} (he : e ∈ entries) :
    (s.journal.putAll written).get? e.key = s.journal.get? e.key := by
  obtain ⟨hscanned', entries', hentries', rfl⟩ := (h.sound i session tx hopen).written _ hwritten
  apply Table.get?_putAll_of_notMem
  intro hmem
  obtain ⟨a, ha, hkey⟩ := List.mem_map.mp hmem
  obtain ⟨e', he', hkey'⟩ := exists_entry_of_mem_written ha
  exact h.entries_apart hij hj hopen hscanned hscanned' hentries hentries' he he'
    (hkey.symm.trans hkey')

omit [DecidableEq ι] in
/-- A commit leaves what the program knew when it made another call. -/
theorem Inv.made_published (h : s.Inv settings) (hopen : s.Open i session tx) (hij : j ≠ i)
    (hj : s.Open j session' tx') (hmade : Made s.committed session'.call) (db : Database)
    (hdb : db.requests = s.requests) :
    Made ⟨db, s.clock, s.claims ++ session.call.handsOut settings session.requests tx.taken,
      s.results ++ session.call.reports⟩ session'.call := by
  cases hcall' : session'.call with
  | record r' =>
      rw [hcall'] at hmade
      refine ⟨?_, ?_⟩
      · have hclaim := Service.claim?_append s.committed db
          (session.call.handsOut settings session.requests tx.taken)
          r'.claim.delivery.deliveryId r'.claim.attemptNumber
        rw [hmade.1, Option.some_or] at hclaim
        exact hclaim
      · cases hcall : session.call with
        | record r =>
            have hresult := Service.result?_append s.committed db r.claim.key r.result
              r'.claim.delivery.deliveryId r'.claim.attemptNumber
            rw [hmade.2, Option.none_or, if_neg] at hresult
            · exact hresult
            · exact h.apart i j session session' r r' hij.symm hopen.1 hj.1 hcall hcall'
        | claim | requeueRequest | requeueBulk =>
            simp only [QueueCall.reports, List.append_nil]
            exact hmade.2
  | requeueRequest call requestId recipients includeDelivered =>
      rw [hcall'] at hmade
      show (db.requests.get? requestId).isSome
      rw [hdb]
      exact hmade
  | claim | requeueBulk => trivial

theorem Inv.published (h : s.Inv settings) (hknown : s.committed.Known)
    (hopen : s.Open i session tx) (hwritten : session.written = some written) :
    (s.published settings i session tx written).Inv settings where
  rows := h.rows.committed hopen.2
  paired j := by
    show Function.update s.sessions i none j = none ↔ Function.update s.rows.txs i none j = none
    by_cases hj : j = i
    · subst hj
      simp
    · rw [Function.update_of_ne hj, Function.update_of_ne hj]
      exact h.paired j
  sound j session' tx' hj := by
    rcases open_of_update rfl rfl hj with ⟨_, ho, _⟩ | ⟨hji, hold⟩
    · cases ho
    · have hsound := h.sound j session' tx' hold
      refine hsound.mono le_rfl (fun _ _ hlead => hlead) (fun id d hd => ?_)
        (fun hmade => h.made_published hopen hji hold hmade _ rfl)
        fun entries hscanned hentries e he =>
          h.journal_published hopen hwritten hji hold hscanned hentries he
      obtain ⟨d', hd', rfl | rfl⟩ := h.exists_version hopen hd
      · exact ⟨d', hd', rfl⟩
      · exact ⟨_, hd', (tx.op.newVersion_cases settings d).1.requestId⟩
  apart j k session' session'' r r' hjk hj hk hr hr' := by
    have hopenOf : ∀ {l : ι} {u : Session}, Function.update s.sessions i none l = some u →
        s.sessions l = some u := by
      intro l u hl
      by_cases hli : l = i
      · subst hli
        simp at hl
      · rwa [Function.update_of_ne hli] at hl
    exact h.apart j k session' session'' r r' hjk (hopenOf hj) (hopenOf hk) hr hr'
  settled j session' tx' r hj hr htodo htaken d' hd' := by
    rcases open_of_update rfl rfl hj with ⟨_, ho, _⟩ | ⟨_, hold⟩
    · cases ho
    · have hmade := (h.sound j session' tx' hold).made
      rw [hr] at hmade
      obtain ⟨d, hd, hle⟩ := hknown.claimed hmade.1
      have hbefore := h.settled j session' tx' r hold hr htodo htaken d hd
      obtain ⟨x, hx, hversion⟩ := h.exists_version hopen hd
      obtain rfl : x = d' := Option.some.inj (hx.symm.trans hd')
      obtain ⟨_, hmono, hflight⟩ := tx.op.newVersion_cases settings d
      rintro ⟨hst, hn⟩
      rcases hversion with rfl | rfl
      · exact hbefore ⟨hst, hn⟩
      · -- a row that is in flight again is so under a later claim
        rcases hflight hst with hsame | hlt
        · rw [hsame] at hst hn
          exact hbefore ⟨hst, hn⟩
        · omega

end Published

theorem Inv.step [DecidableEq ι] {s' : Server ι} {l : ServerLabel ι} (h : s.Inv settings)
    (hknown : s.committed.Known) (hstep : ServerStep settings s l s') : s'.Inv settings := by
  cases hstep with
  | advance htime => exact h.advanced htime
  | accept _ haccept => exact h.stored hknown (acceptRequest_extends haccept)
  | attach _ hattach => exact h.stored hknown (attachRecipients_extends hattach)
  | begin _ hnow hmakes hop hscans => exact h.begun hknown hnow hmakes hop hscans
  | @skip i session tx id rest hsession hwritten htx htodo hskips _ =>
      have hopen : s.Open i session tx := ⟨hsession, htx⟩
      refine h.moved hopen hwritten rfl rfl ?_ fun r hr _ _ => ?_
      · exact h.rows.update htx ((h.rows.sound i tx htx).pass htodo (List.Subset.refl _))
          fun k hk => Or.inl hk
      · -- a record does not skip
        have hop := (h.sound i session tx hopen).op_eq
        rw [hr] at hop
        rw [r.not_skipsLocked hop] at hskips
        cases hskips
  | @take i session tx id rest d hsession hwritten htx htodo hroom hfree _ hget hcond =>
      refine h.moved ⟨hsession, htx⟩ hwritten rfl rfl ?_ fun r _ _ htaken => ?_
      · apply h.rows.update htx ((h.rows.sound i tx htx).took htodo hroom hget hcond)
        intro k hk
        rcases List.mem_cons.mp hk with rfl | hk
        · exact Or.inr hfree
        · exact Or.inl hk
      · exact absurd htaken (List.append_ne_nil_of_right_ne_nil _ (List.cons_ne_nil _ _))
  | @drop i session tx id rest held hsession hwritten htx htodo hfree _ hfails hheld =>
      have hsound := h.sound i session tx ⟨hsession, htx⟩
      refine h.moved ⟨hsession, htx⟩ hwritten rfl rfl ?_ fun r hr _ _ => ?_
      · refine h.rows.update htx ((h.rows.sound i tx htx).pass htodo ?_) fun k hk => ?_
        · rcases hheld with rfl | rfl
          · exact List.Subset.refl _
          · exact List.subset_cons_self _ _
        · rcases hheld with rfl | rfl
          · exact Or.inl hk
          · rcases List.mem_cons.mp hk with rfl | hk
            · exact Or.inr hfree
            · exact Or.inl hk
      · -- the candidate of a record is its delivery
        refine hsound.settled_of_fails hknown hr fun d hd => hfails d ?_
        have hplanned := hsound.planned
        rw [hr] at hplanned
        have hid : id ∈ tx.plan := (h.rows.sound i tx htx).ordered.subset
          (List.mem_append_right _ (htodo ▸ List.mem_cons_self))
        rw [hplanned id hid]
        exact hd
  | write hsession _ htx hscanned hentries _ _ =>
      exact h.wrote ⟨hsession, htx⟩ hscanned hentries
  | commit hsession hwritten htx => exact h.published hknown ⟨hsession, htx⟩ hwritten
  | abort _ => exact h.aborted _

theorem inv_empty (clock : Instant) : (empty clock : Server ι).Inv settings where
  rows := by
    refine ⟨?_, ?_, fun _ => trivial, ?_⟩
    · intro i tx htx
      cases htx
    · intro i j tx tx' htx
      cases htx
    · intro c hc
      cases hc
  paired i := by simp [empty]
  sound i session tx hi := by cases hi.1
  apart i j session session' r r' _ hi := by cases hi
  settled i session tx r hi := by cases hi.1

end Server

end LeadQueue
