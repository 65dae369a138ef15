import LeadQueue.Library.Paging
import LeadQueue.Queue.Like
import LeadQueue.Service

/-!
# What a bulk retry selects

The filter of a bulk retry against its plain reading. They select the same
deliveries for every body but two kinds: an empty origin, which the code takes
for no origin, and a part of a URL with one of the characters `LIKE` reads in
its own way.
-/

namespace LeadQueue

open Relational Transition

/-- `BulkRetryRequest`, with the bounds its fields declare. -/
structure BulkRetryRequest where
  filter : BulkFilter
  limit : ℕ
  contains_length : ∀ s ∈ filter.recipientUrlContains, s.length ≤ 500
  limit_pos : 0 < limit
  limit_le : limit ≤ 100000

/-- The plain reading of the filter. -/
def BulkFilter.selects (filter : BulkFilter) (db : Database) (d : Delivery) : Bool :=
  let received (test : Instant → Bool) : Bool :=
    (db.requests.get? d.requestId).any fun r => test r.receivedAt
  filter.statuses.contains d.status &&
  filter.recipientOrigin.all (fun s => d.recipientOrigin.str == s) &&
  filter.recipientUrlContains.all (fun s => decide (s <:+: d.recipientUrl.str)) &&
  filter.receivedAfter.all (fun t => received fun r => decide (t ≤ r)) &&
  filter.receivedBefore.all (fun t => received fun r => decide (r ≤ t))

/-- In flight with a running lease. -/
def Delivery.live (now : Instant) (d : Delivery) : Bool :=
  d.status == .inFlight && d.leaseExpiresAt.any fun lease => decide (now < lease)

/-- The retry took the first `limit` of the deliveries `pool` in an order by
`created_at`: it reset those that are not in flight with a running lease,
counted the others, and changed nothing else. -/
def TakesFirst (now : Instant) (limit : ℕ) (pool : List Delivery) (db db' : Database)
    (outcome : RequeueOutcome) : Prop :=
  ∃ order, Paging.Ordered Delivery.createdAt pool order ∧
    outcome.requeuedIds = ((order.take limit).filter fun d => !d.live now).map Delivery.id ∧
    outcome.skippedInFlight = (order.take limit).countP (Delivery.live now) ∧
    outcome.skippedDelivered = 0 ∧ ResetsOnly now outcome.requeuedIds db db'

/-- The call does what its filter says. A call that raises resets nothing. -/
def BulkRetryRequest.DoesWhatItSays (body : BulkRetryRequest) (call : RequeueScan)
    (db : Database) : Prop :=
  match requeueBulk call body.filter body.limit db with
  | .ok (db', outcome) =>
      TakesFirst call.now body.limit (db.deliveries.rows.filter (body.filter.selects db)) db db'
        outcome
  | .error _ => db.deliveries.rows.filter (body.filter.selects db) = []

/-- A call that meets no lock and reads the current state. -/
structure RequeueScan.Current (call : RequeueScan) (where_ : Delivery → Bool) (db : Database) :
    Prop where
  snapshot : call.snapshot = db.deliveries
  unlocked : ∀ id, call.locked id = false
  valid : call.Valid where_

/-! ## The statement, without locks -/

theorem classify_opt_in (now : Instant) (d : Delivery) :
    classify now true d = if d.live now then .skipInFlight else .requeue := by
  unfold classify Delivery.live
  by_cases hlive : d.status = .inFlight ∧ d.leaseExpiresAt.any fun lease => decide (now < lease)
  · rw [if_pos hlive, hlive.1, hlive.2]
    rfl
  · rw [if_neg hlive, if_neg (by simp), if_neg]
    rwa [Bool.and_eq_true, beq_iff_eq]

theorem RequeueScan.Current.target_eq {call : RequeueScan} {where_ : Delivery → Bool}
    {db : Database} (h : call.Current where_ db) (limit : ℕ) :
    target call where_ (some limit) db = call.scan.take limit := by
  have hrows : ∀ d ∈ call.scan, db.deliveries.get? d.id = some d ∧ where_ d = true := by
    intro d hd
    obtain ⟨hmem, hwhere⟩ := List.mem_filter.mp (h.valid.scan_perm.mem_iff.mp hd)
    rw [h.snapshot] at hmem
    exact ⟨Table.get?_of_mem hmem, hwhere⟩
  unfold target
  rw [Table.lockRows_some, Table.lockRows_of_current hrows, List.filter_eq_self.mpr]
  intro d _
  rw [h.unlocked]
  rfl

theorem RequeueScan.Current.ordered {call : RequeueScan} {where_ : Delivery → Bool}
    {db : Database} (h : call.Current where_ db) :
    Paging.Ordered Delivery.createdAt (db.deliveries.rows.filter where_) call.scan :=
  ⟨h.snapshot ▸ h.valid.scan_perm, h.valid.scan_sorted⟩

/-- What the statement does with the rows it takes. -/
theorem requeue_takesFirst {call : RequeueScan} {where_ : Delivery → Bool} {db : Database}
    (h : call.Current where_ db) (limit : ℕ) :
    TakesFirst call.now limit (db.deliveries.rows.filter where_) db
      (requeue call where_ true (some limit) db).1
      (requeue call where_ true (some limit) db).2 := by
  refine ⟨call.scan, h.ordered, ?_, ?_, ?_, requeue_resetsOnly _ _ _ _ _⟩
  · unfold requeue
    dsimp only
    rw [h.target_eq, List.filter_map, List.map_map]
    show List.map Delivery.id _ = _
    congr 1
    apply List.filter_congr
    intro d _
    show (classify call.now true d == .requeue) = _
    rw [classify_opt_in]
    cases d.live call.now <;> rfl
  · unfold requeue
    dsimp only
    rw [h.target_eq, List.countP_map]
    apply List.countP_congr
    intro d _
    show (classify call.now true d == .skipInFlight) = true ↔ _
    rw [classify_opt_in]
    cases d.live call.now <;> simp
  · unfold requeue
    dsimp only
    rw [List.countP_map, List.countP_eq_zero]
    intro d _
    show ¬ (classify call.now true d == .skipDelivered) = true
    rw [classify_opt_in]
    cases d.live call.now <;> simp

/-! ## The two readings -/

/-- The filter names a text that no column can hold. -/
def BulkFilter.HasNul (filter : BulkFilter) : Prop :=
  ∃ s, (filter.recipientOrigin = some s ∨ filter.recipientUrlContains = some s) ∧
    (0 : CodePoint) ∈ s

theorem requeueBulk_of_noNul {call : RequeueScan} {filter : BulkFilter} {limit : ℕ}
    {db : Database} (h : ¬ filter.HasNul) :
    requeueBulk call filter limit db =
      .ok (requeue call (bulkWhere filter db) true (some limit) db) := by
  obtain ⟨origin, horigin⟩ := (textParam?_isOk_iff filter.recipientOrigin).mpr
    fun s hs hnul => h ⟨s, Or.inl hs, hnul⟩
  obtain ⟨part, hpart⟩ := (textParam?_isOk_iff filter.recipientUrlContains).mpr
    fun s hs hnul => h ⟨s, Or.inr hs, hnul⟩
  unfold requeueBulk
  rw [horigin, hpart]
  rfl

theorem requeueBulk_of_nul {call : RequeueScan} {filter : BulkFilter} {limit : ℕ}
    {db : Database} (h : filter.HasNul) : ∃ e, requeueBulk call filter limit db = .error e := by
  obtain ⟨s, hs, hnul⟩ := h
  cases hresult : requeueBulk call filter limit db with
  | error e => exact ⟨e, rfl⟩
  | ok result =>
      unfold requeueBulk at hresult
      obtain ⟨origin, horigin, hresult⟩ := Fallible.bind_eq_ok_iff.mp hresult
      obtain ⟨part, hpart, _⟩ := Fallible.bind_eq_ok_iff.mp hresult
      rcases hs with hs | hs
      · exact absurd hnul ((textParam?_isOk_iff _).mp ⟨origin, horigin⟩ s hs)
      · exact absurd hnul ((textParam?_isOk_iff _).mp ⟨part, hpart⟩ s hs)

/-- What the plain reading asks of a delivery. -/
theorem BulkFilter.selects_iff {filter : BulkFilter} {db : Database} {d : Delivery} :
    filter.selects db d = true ↔ d.status ∈ filter.statuses ∧
      (∀ s, filter.recipientOrigin = some s → d.recipientOrigin.str = s) ∧
      (∀ s, filter.recipientUrlContains = some s → s <:+: d.recipientUrl.str) ∧
      (∀ t, filter.receivedAfter = some t →
        ∃ r, db.requests.get? d.requestId = some r ∧ t ≤ r.receivedAt) ∧
      (∀ t, filter.receivedBefore = some t →
        ∃ r, db.requests.get? d.requestId = some r ∧ r.receivedAt ≤ t) := by
  simp only [BulkFilter.selects, Bool.and_eq_true, List.contains_iff_mem, Option.all_eq_true,
    beq_iff_eq, decide_eq_true_eq, Option.any_eq_true, and_assoc]

/-- What the statement asks of it. -/
theorem bulkWhere_iff {filter : BulkFilter} {db : Database} {d : Delivery} :
    bulkWhere filter db d = true ↔ d.status ∈ filter.statuses ∧
      (∀ s, filter.recipientOrigin = some s → s = [] ∨ d.recipientOrigin.str = s) ∧
      (∀ s, filter.recipientUrlContains = some s →
        s = [] ∨ like ([Like.percent] ++ s ++ [Like.percent]) d.recipientUrl.str = true) ∧
      (∀ t, filter.receivedAfter = some t →
        ∃ r, db.requests.get? d.requestId = some r ∧ t ≤ r.receivedAt) ∧
      (∀ t, filter.receivedBefore = some t →
        ∃ r, db.requests.get? d.requestId = some r ∧ r.receivedAt ≤ t) := by
  have htext : ∀ (value : Option PyStr) (test : PyStr → Bool), textFilter value test = true ↔
      ∀ s, value = some s → s = [] ∨ test s = true := by
    intro value test
    cases value <;> simp [textFilter]
  simp only [bulkWhere, Bool.and_eq_true, List.contains_iff_mem, htext, Option.all_eq_true,
    beq_iff_eq, decide_eq_true_eq, Option.any_eq_true, and_assoc]
  rfl

/-- The bodies that are read as they are written: no empty origin and no special
character, or a filter that nothing can pass in either reading. -/
def BulkFilter.Literal (filter : BulkFilter) : Prop :=
  filter.statuses = [] ∨
  (∃ after before, filter.receivedAfter = some after ∧ filter.receivedBefore = some before ∧
    before < after) ∨
  filter.HasNul ∨
  (filter.recipientOrigin ≠ some [] ∧ ∀ s, filter.recipientUrlContains = some s → Like.Plain s)

/-- Nothing passes bounds that exclude each other. -/
theorem not_received_of_lt {db : Database} {requestId : RequestId} {after before : Instant}
    (hlt : before < after)
    (hafter : ∃ r, db.requests.get? requestId = some r ∧ after ≤ r.receivedAt)
    (hbefore : ∃ r, db.requests.get? requestId = some r ∧ r.receivedAt ≤ before) : False := by
  obtain ⟨r, hr, hle⟩ := hafter
  obtain ⟨r', hr', hle'⟩ := hbefore
  obtain rfl : r' = r := Option.some.inj (hr'.symm.trans hr)
  exact absurd (hle.trans hle') (not_le.mpr hlt)

theorem bulkWhere_eq_selects {filter : BulkFilter} (h : filter.Literal) (hnul : ¬ filter.HasNul)
    (db : Database) (d : Delivery) : bulkWhere filter db d = filter.selects db d := by
  rw [Bool.eq_iff_iff, bulkWhere_iff, BulkFilter.selects_iff]
  rcases h with hnone | ⟨after, before, hafter, hbefore, hlt⟩ | hnul' | ⟨horigin, hplain⟩
  · refine iff_of_false (fun h => ?_) (fun h => ?_) <;> exact absurd (hnone ▸ h.1) List.not_mem_nil
  · refine iff_of_false (fun h => ?_) (fun h => ?_) <;>
      exact not_received_of_lt hlt (h.2.2.2.1 after hafter) (h.2.2.2.2 before hbefore)
  · exact absurd hnul' hnul
  · refine and_congr_right fun _ => and_congr (forall₂_congr fun s hs => ?_)
      (and_congr_left fun _ => forall₂_congr fun s hs => ?_)
    · exact or_iff_right fun hempty => horigin (hempty ▸ hs)
    · rw [Like.like_plain_iff_isInfix (hplain s hs)]
      exact or_iff_right_of_imp fun hempty => hempty ▸ List.nil_infix

theorem selects_of_nul {filter : BulkFilter} (h : filter.HasNul) (db : Database) (d : Delivery) :
    filter.selects db d = false := by
  obtain ⟨s, hs, hnul⟩ := h
  by_contra hselects
  obtain ⟨_, horigin, hpart, _⟩ := BulkFilter.selects_iff.mp (Bool.not_eq_false _ ▸ hselects)
  rcases hs with hs | hs
  · exact d.recipientOrigin.noNul (horigin s hs ▸ hnul)
  · exact d.recipientUrl.noNul ((hpart s hs).subset hnul)

/-! ## A delivery the readings disagree on -/

namespace BulkRetry

/-- One lead. -/
def lead (receivedAt : Instant) : Request :=
  ⟨0, ⟨[], List.not_mem_nil⟩, ⟨[], List.not_mem_nil⟩, ⟨.null, rfl⟩, receivedAt⟩

/-- Its one delivery. -/
def delivery (receivedAt : Instant) (status : DeliveryStatus) (url origin : PgText) : Delivery :=
  { newDelivery receivedAt 0 1 ⟨none, url, origin⟩ with status := status }

def database (receivedAt : Instant) (d : Delivery) : Database :=
  ⟨⟨[lead receivedAt], List.nodup_singleton _⟩, ⟨[d], List.nodup_singleton _⟩, .empty⟩

theorem get?_lead (receivedAt : Instant) (d : Delivery) :
    (database receivedAt d).requests.get? 0 = some (lead receivedAt) := rfl

end BulkRetry

open BulkRetry in
theorem exists_disagreement {filter : BulkFilter} (h : ¬ filter.Literal) :
    ∃ db d, db.deliveries.rows = [d] ∧ d.leaseExpiresAt = none ∧
      bulkWhere filter db d = true ∧ filter.selects db d = false := by
  simp only [BulkFilter.Literal, not_or] at h
  obtain ⟨hstatuses, hbounds, hnul, hspecial⟩ := h
  obtain ⟨status, hstatus⟩ := List.exists_mem_of_ne_nil _ hstatuses
  -- a date within the bounds
  obtain ⟨received, hafter, hbefore⟩ : ∃ received,
      (∀ t, filter.receivedAfter = some t → t ≤ received) ∧
      ∀ t, filter.receivedBefore = some t → received ≤ t := by
    cases hlow : filter.receivedAfter with
    | none =>
        refine ⟨filter.receivedBefore.getD 0, fun t ht => (nomatch ht), fun t ht => ?_⟩
        rw [ht]
        exact le_rfl
    | some after =>
        refine ⟨after, fun t ht => (Option.some.inj ht).ge, fun t ht => ?_⟩
        exact not_lt.mp fun hlt => hbounds ⟨after, t, hlow, ht, hlt⟩
  -- the origin asked for, and another one where it is empty
  obtain ⟨origin, horigin, hempty⟩ : ∃ origin : PgText,
      (∀ s, filter.recipientOrigin = some s → s = [] ∨ origin.str = s) ∧ origin.str ≠ [] := by
    cases hasked : filter.recipientOrigin with
    | none => exact ⟨⟨[0x61], by decide⟩, fun s hs => (nomatch hs), by decide⟩
    | some asked =>
        by_cases hnil : asked = []
        · refine ⟨⟨[0x61], by decide⟩, fun s hs => Or.inl ?_, by decide⟩
          rw [← Option.some.inj hs, hnil]
        · refine ⟨⟨asked, fun hin => hnul ⟨asked, Or.inl hasked, hin⟩⟩, fun s hs => Or.inr ?_, hnil⟩
          exact Option.some.inj hs
  -- a URL that the pattern matches
  obtain ⟨url, hlike, hpart⟩ : ∃ url : PgText,
      (∀ s, filter.recipientUrlContains = some s →
        like ([Like.percent] ++ s ++ [Like.percent]) url.str = true) ∧
      ∀ s, filter.recipientUrlContains = some s → ¬ Like.Plain s → ¬ s <:+: url.str := by
    cases hasked : filter.recipientUrlContains with
    | none => exact ⟨⟨[], List.not_mem_nil⟩, fun s hs => (nomatch hs), fun s hs => (nomatch hs)⟩
    | some asked =>
        have hasked' : (0 : CodePoint) ∉ asked := fun hin => hnul ⟨asked, Or.inr hasked, hin⟩
        by_cases hplain : Like.Plain asked
        · refine ⟨⟨asked, hasked'⟩, fun s hs => ?_, fun s hs hnot => ?_⟩
          · rw [← Option.some.inj hs]
            exact (Like.like_plain_iff_isInfix hplain).mpr List.infix_rfl
          · exact absurd (Option.some.inj hs ▸ hplain) hnot
        · obtain ⟨hlike, hnot⟩ := Like.exists_like_not_isInfix hplain
          refine ⟨⟨Like.sample asked, Like.noNul_sample hasked'⟩, fun s hs => ?_, fun s hs _ => ?_⟩
          · rw [← Option.some.inj hs]
            exact hlike
          · rw [← Option.some.inj hs]
            exact hnot
  have hlead := get?_lead received (delivery received status url origin)
  refine ⟨database received (delivery received status url origin), _, rfl, rfl, ?_, ?_⟩
  · exact bulkWhere_iff.mpr ⟨hstatus, horigin, fun s hs => Or.inr (hlike s hs),
      fun t ht => ⟨_, hlead, hafter t ht⟩, fun t ht => ⟨_, hlead, hbefore t ht⟩⟩
  · by_contra hselects
    obtain ⟨_, hsame, hinside, _⟩ := BulkFilter.selects_iff.mp (Bool.not_eq_false _ ▸ hselects)
    refine hspecial ⟨fun hasked => hempty (hsame [] hasked), fun s hs => ?_⟩
    by_contra hplain
    exact hpart s hs hplain (hinside s hs)

/-! ## The bodies that do what they say -/

theorem BulkRetryRequest.doesWhatItSays_of_literal {body : BulkRetryRequest}
    (h : body.filter.Literal) {call : RequeueScan} {db : Database}
    (hcall : call.Current (bulkWhere body.filter db) db) : body.DoesWhatItSays call db := by
  unfold BulkRetryRequest.DoesWhatItSays
  by_cases hnul : body.filter.HasNul
  · obtain ⟨e, he⟩ := @requeueBulk_of_nul call body.filter body.limit db hnul
    rw [he]
    exact List.filter_eq_nil_iff.mpr fun d _ => by simp [selects_of_nul hnul]
  · rw [requeueBulk_of_noNul hnul]
    have hsame : bulkWhere body.filter db = body.filter.selects db :=
      funext (bulkWhere_eq_selects h hnul db)
    show TakesFirst _ _ _ _ _ _
    rw [← hsame]
    exact requeue_takesFirst hcall body.limit

/-- A bulk retry requeues or skips the first `limit` deliveries of the plain
reading, in every state, exactly when the filter is literal. -/
theorem bulk_retry_does_what_it_says_iff (body : BulkRetryRequest) :
    (∀ (db : Database) (call : RequeueScan), call.Current (bulkWhere body.filter db) db →
      body.DoesWhatItSays call db) ↔ body.filter.Literal := by
  constructor
  · intro hall
    by_contra hnot
    obtain ⟨db, d, hrows, hlease, hwhere, hselects⟩ := exists_disagreement hnot
    have hnul : ¬ body.filter.HasNul := fun hnul => hnot (Or.inr (Or.inr (Or.inl hnul)))
    have hcurrent : (RequeueScan.unlocked 0 (bulkWhere body.filter db) db.deliveries).Current
        (bulkWhere body.filter db) db :=
      ⟨rfl, fun _ => rfl, RequeueScan.unlocked_valid _ _ _⟩
    have hdoes := hall db _ hcurrent
    unfold BulkRetryRequest.DoesWhatItSays at hdoes
    rw [requeueBulk_of_noNul hnul] at hdoes
    obtain ⟨order, horder, hids, _⟩ := hdoes
    -- the plain reading selects nothing, the statement takes the delivery
    rw [hrows, List.filter_cons_of_neg (by simp [hselects]), List.filter_nil] at horder
    rw [List.perm_nil.mp horder.perm] at hids
    obtain ⟨order', horder', hids', _⟩ := requeue_takesFirst hcurrent body.limit
    rw [hrows, List.filter_cons_of_pos hwhere, List.filter_nil] at horder'
    have hlive : d.live 0 = false := by
      unfold Delivery.live
      rw [hlease]
      exact Bool.and_false _
    rw [List.perm_singleton.mp horder'.perm,
      List.take_of_length_le (Nat.succ_le_of_lt body.limit_pos),
      List.filter_cons_of_pos (by rw [RequeueScan.unlocked, hlive]; rfl)] at hids'
    exact List.cons_ne_nil _ _ (hids'.symm.trans (hids.trans (by simp)))
  · exact fun h db call hcall => BulkRetryRequest.doesWhatItSays_of_literal h hcall

namespace BulkRetry

/-- The part of a URL that is asked for: `a_example`. -/
def underscored : BulkRetryRequest where
  filter := ⟨[.pending], none, some (PyStr.ofString "a_example"), none, none⟩
  limit := 1000
  contains_length := by decide
  limit_pos := by decide
  limit_le := by decide

end BulkRetry

open BulkRetry in
/-- A delivery to `https://a.example/hook` is sent again. -/
theorem bulk_retry_takes_unselected :
    ¬ ∀ (settings : Settings) (s : Service) (body : BulkRetryRequest) (call : RequeueScan),
      settings.Validated → (service settings).Reachable s →
      call.Current (bulkWhere body.filter s.db) s.db → body.DoesWhatItSays call s.db := by
  intro h
  obtain ⟨s, hs, hp⟩ := exists_reachable_of_moves .default [Move.accept 0 Move.lead]
    (fun s => decide (s.db.deliveries.rows.filter (underscored.filter.selects s.db) = []) &&
      (requeueBulk (.unlocked s.clock (bulkWhere underscored.filter s.db) s.db.deliveries)
        underscored.filter underscored.limit s.db).toOption.any
          fun result : Database × RequeueOutcome => decide (result.2.requeuedIds ≠ []))
    (by decide +kernel)
  obtain ⟨hnone, hp⟩ := Bool.and_eq_true_iff.mp hp
  obtain ⟨⟨db', outcome⟩, hok, hsome⟩ := Fallible.exists_ok_of_any hp
  have hdoes := h .default s underscored _ Settings.default_validated hs
    ⟨rfl, fun _ => rfl, RequeueScan.unlocked_valid s.clock _ _⟩
  unfold BulkRetryRequest.DoesWhatItSays at hdoes
  rw [hok] at hdoes
  obtain ⟨order, horder, hids, _⟩ := hdoes
  rw [of_decide_eq_true hnone] at horder
  rw [List.perm_nil.mp horder.perm] at hids
  exact of_decide_eq_true hsome (hids.trans (by simp))

end LeadQueue
