import LeadQueue.Guarantees.AcceptedOnce
import LeadQueue.Guarantees.RecipientView

/-!
# What the stub's own books say

`GET /received/{name}/summary` counts repeats among the requests the endpoint
accepted. Each record is that of one request, and key and attempt number tell the
requests apart, so in a clean run the count is zero; and as long as nothing was
cleared, the books show a delivered lead exactly once.
-/

namespace LeadQueue

open Relational Transition Stub

namespace Network

variable {settings : Settings} {sends : HttpRequest → Bool} {route : PgText → Option PyStr}
  {n n' : Network}

/-- The stub keeps its records. -/
def Remembers : NetworkEvent → Prop
  | .clearReceived _ | .restart => False
  | _ => True

instance (e : NetworkEvent) : Decidable (Remembers e) := by
  unfold Remembers
  split <;> infer_instance

/-- A record is made for a request that is answered with it. -/
structure Books (n n' : Network) (route : PgText → Option PyStr) (name : PyStr)
    (key : DeliveryId × ℕ) (q : Posted) (r : ReceivedRecord) : Prop where
  received : (n'.endpoints name).received = (n.endpoints name).received ++ [r]
  before : n.posted key = some q
  open_ : ∀ a, q.stage ≠ .answered a
  after : n'.posted key = some ⟨q.request, .answered r.respondedWith⟩
  routed : route q.request.url = some name
  record : r = recordOf q.request r.body r.respondedWith

/-- An event that answers a request enters it in the books of its endpoint; a
request that is put to sleep is entered nowhere. -/
theorem books_of_answers {e : NetworkEvent} (h : n.step settings sends route e = some n')
    {key : DeliveryId × ℕ} (hans : e.Answers key) :
    (∃ name q r, Books n n' route name key q r ∧
      ∀ m, m ≠ name → (n'.endpoints m).received = (n.endpoints m).received) ∨
    (∀ m, (n'.endpoints m).received = (n.endpoints m).received) ∧
      ∃ q, n'.posted key = some q ∧ ∀ a, q.stage ≠ .answered a := by
  rcases hans with rfl | ⟨complete, rfl⟩
  · obtain ⟨request, body, name, hold, hroute, rfl⟩ := step_wake.mp h
    refine Or.inl ⟨name, ⟨request, .sleeping body⟩, recordOf request body (.status 200), ?_,
      fun m hm => by rw [set_endpoints, endpoints_update_of_ne hm]⟩
    exact ⟨by simp [receiveSlow], hold, by rintro a ⟨⟩, posted_set_self, hroute, rfl⟩
  · obtain ⟨request, behaviour, name, body, hold, hroute, _, ⟨r, rfl⟩ | rfl⟩ := step_read h
    · refine Or.inl ⟨name, ⟨request, .reading behaviour⟩, recordOf request body r, ?_,
        fun m hm => by rw [set_endpoints, endpoints_update_of_ne hm]⟩
      exact ⟨by simp, hold, by rintro a ⟨⟩, posted_set_self, hroute, rfl⟩
    · refine Or.inr ⟨fun m => ?_, _, posted_set_self, by rintro a ⟨⟩⟩
      by_cases hm : m = name
      · subst hm
        rw [set_endpoints, endpoints_update_self]
      · rw [set_endpoints, endpoints_update_of_ne hm]

/-- What a step does to the books of an endpoint. -/
theorem received_cases {e : NetworkEvent} (h : n.step settings sends route e = some n')
    (name : PyStr) :
    (n'.endpoints name).received = (n.endpoints name).received ∨
    (¬ Remembers e ∧ (n'.endpoints name).received = []) ∨
    ∃ key q r, Books n n' route name key q r := by
  have hanswers : ∀ key, e.Answers key →
      (n'.endpoints name).received = (n.endpoints name).received ∨
      (¬ Remembers e ∧ (n'.endpoints name).received = []) ∨
      ∃ key q r, Books n n' route name key q r := by
    intro key hans
    rcases books_of_answers h hans with ⟨name', q, r, hbooks, hother⟩ | ⟨hsame, _⟩
    · by_cases hname : name = name'
      · subst hname
        exact Or.inr (Or.inr ⟨key, q, r, hbooks⟩)
      · exact Or.inl (hother name hname)
    · exact Or.inl (hsame name)
  cases e with
  | fleet e =>
      obtain ⟨_, f, _, rfl⟩ := step_fleet.mp h
      exact Or.inl rfl
  | post w key =>
      obtain ⟨p, claim, _, _, _, _, rfl⟩ := step_post.mp h
      exact Or.inl rfl
  | reach key =>
      obtain ⟨request, name', _, _, rfl⟩ := step_reach.mp h
      exact Or.inl rfl
  | read key complete => exact hanswers key (Or.inr ⟨complete, rfl⟩)
  | wake key => exact hanswers key (Or.inl rfl)
  | setBehaviour name' behaviour =>
      cases h
      by_cases hname : name = name'
      · subst hname
        exact Or.inl (by rw [endpoints_update_self]; rfl)
      · exact Or.inl (by rw [endpoints_update_of_ne hname])
  | clearReceived name' =>
      cases h
      by_cases hname : name = name'
      · subst hname
        exact Or.inr (Or.inl ⟨not_false, by rw [endpoints_update_self]; rfl⟩)
      · exact Or.inl (by rw [endpoints_update_of_ne hname])
  | restart =>
      cases h
      exact Or.inr (Or.inl ⟨not_false, rfl⟩)

/-! ## The books of an endpoint -/

/-- The headers that tell requests apart. -/
def tag (r : ReceivedRecord) : Option PyStr × Option PyStr := (r.idempotencyKey, r.attempt)

/-- The tag of an attempt. -/
def tagOf (key : DeliveryId × ℕ) : Option PyStr × Option PyStr :=
  (some key.1.str, some (.ofNat key.2))

theorem tagOf_injective : Function.Injective tagOf := by
  intro j k h
  obtain ⟨hid, hnumber⟩ := Prod.mk.inj h
  exact Prod.ext (Uuid.str_injective (Option.some.inj hid))
    (PyStr.ofNat_injective (Option.some.inj hnumber))

/-- `r` is the record of the attempt, at this endpoint. -/
structure RecordOf (route : PgText → Option PyStr) (n : Network) (name : PyStr)
    (r : ReceivedRecord) (key : DeliveryId × ℕ) : Prop where
  posted : ∃ q, n.posted key = some q ∧ q.stage = .answered r.respondedWith ∧
    route q.request.url = some name
  tag : tag r = tagOf key

theorem Inv.tag_recordOf (h : n.Inv settings route) {key : DeliveryId × ℕ} {q : Posted}
    (hq : n.posted key = some q) (body : Option Body) (a : RespondedWith) :
    tag (recordOf q.request body a) = tagOf key := by
  obtain ⟨c, hc, hrequest⟩ := h.posted key q hq
  obtain ⟨_, hid, hnumber⟩ := Service.claim?_eq_some hc
  have hnumber : c.delivery.attemptNumber = key.2 := hnumber
  rw [hrequest, tagOf, ← hid, ← hnumber]
  rfl

theorem RecordOf.step {e : NetworkEvent} (hstep : n.step settings sends route e = some n')
    {name : PyStr} {r : ReceivedRecord} {key : DeliveryId × ℕ} (h : RecordOf route n name r key) :
    RecordOf route n' name r key := by
  obtain ⟨q, hq, hstage, hroute⟩ := h.posted
  obtain ⟨q', hq', hrequest, hfinal⟩ := step_posted hstep hq
  exact ⟨⟨q', hq', hfinal _ hstage, hrequest.symm ▸ hroute⟩, h.tag⟩

/-- Every record is of a request, and no two are of one. -/
structure Kept (route : PgText → Option PyStr) (n : Network) : Prop where
  known : ∀ name, ∀ r ∈ (n.endpoints name).received, ∃ key, RecordOf route n name r key
  nodup : ∀ name, ((n.endpoints name).received.map tag).Nodup

theorem kept_empty (clock : Instant) : (empty clock).Kept route where
  known _ _ h := by cases h
  nodup _ := List.nodup_nil

theorem Kept.step (h : n.Kept route) (hinv : n.Inv settings route) {e : NetworkEvent}
    (hstep : n.step settings sends route e = some n') : n'.Kept route := by
  have hold : ∀ name, ∀ r ∈ (n.endpoints name).received, ∃ key, RecordOf route n' name r key := by
    intro name r hr
    obtain ⟨key, hrecord⟩ := h.known name r hr
    exact ⟨key, hrecord.step hstep⟩
  have hnew : ∀ {name key q r}, Books n n' route name key q r → tag r = tagOf key := by
    intro name key q r hbooks
    rw [hbooks.record]
    exact hinv.tag_recordOf hbooks.before _ _
  constructor
  · intro name r hr
    rcases received_cases hstep name with hsame | ⟨_, hnil⟩ | ⟨key, q, new, hbooks⟩
    · exact hold name r (hsame ▸ hr)
    · rw [hnil] at hr
      cases hr
    · rw [hbooks.received] at hr
      rcases List.mem_append.mp hr with hr | hr
      · exact hold name r hr
      · obtain rfl := List.mem_singleton.mp hr
        exact ⟨key, ⟨_, hbooks.after, rfl, hbooks.routed⟩, hnew hbooks⟩
  · intro name
    rcases received_cases hstep name with hsame | ⟨_, hnil⟩ | ⟨key, q, new, hbooks⟩
    · rw [hsame]
      exact h.nodup name
    · rw [hnil]
      exact List.nodup_nil
    · rw [hbooks.received, List.map_append]
      refine (h.nodup name).append (List.nodup_singleton _) fun t ht hmem => ?_
      -- a record with the new tag would be of a request that is not answered yet
      obtain rfl := List.mem_singleton.mp hmem
      obtain ⟨r, hr, htag⟩ := List.mem_map.mp ht
      obtain ⟨key', hrecord⟩ := h.known name r hr
      obtain rfl : key' = key :=
        tagOf_injective (hrecord.tag.symm.trans (htag.trans (hnew hbooks)))
      obtain ⟨q', hq', hstage, _⟩ := hrecord.posted
      obtain rfl : q' = q := Option.some.inj (hq'.symm.trans hbooks.before)
      exact hbooks.open_ _ hstage

/-- No answer to a request of the endpoint is missing from its books. -/
def Complete (route : PgText → Option PyStr) (n : Network) : Prop :=
  ∀ key q a name, n.posted key = some q → q.stage = .answered a → route q.request.url = some name →
    ∃ r ∈ (n.endpoints name).received, r.respondedWith = a ∧ tag r = tagOf key

theorem Complete.step (h : n.Complete route) (hinv : n.Inv settings route) {e : NetworkEvent}
    (hstep : n.step settings sends route e = some n') (hremembers : Remembers e) :
    n'.Complete route := by
  intro key q' a name hq' hstage hroute
  have hkeep : ∀ r ∈ (n.endpoints name).received, r ∈ (n'.endpoints name).received := by
    intro r hr
    rcases received_cases hstep name with hsame | ⟨hforgets, _⟩ | ⟨_, _, _, hbooks⟩
    · exact hsame ▸ hr
    · exact absurd hremembers hforgets
    · exact hbooks.received ▸ List.mem_append_left _ hr
  rcases posted_cases hstep hq' with ⟨q, hq, hrequest, hold⟩ | ⟨_, _, _, _, _, _, _, rfl⟩
  · rcases hold a hstage with hbefore | hans
    · obtain ⟨r, hr, hwith, htag⟩ := h key q a name hq hbefore (hrequest ▸ hroute)
      exact ⟨r, hkeep r hr, hwith, htag⟩
    · rcases books_of_answers hstep hans with ⟨name', q₀, r, hbooks, _⟩ | ⟨_, q₀, hq₀, hopen⟩
      · -- the record just made is the one
        obtain rfl := Option.some.inj (hbooks.after.symm.trans hq')
        obtain rfl : name' = name := Option.some.inj (hbooks.routed.symm.trans hroute)
        refine ⟨r, hbooks.received ▸ List.mem_append_right _ (List.mem_singleton_self r),
          RequestStage.answered.inj hstage, ?_⟩
        rw [hbooks.record]
        exact hinv.tag_recordOf hbooks.before _ _
      · obtain rfl : q₀ = q' := Option.some.inj (hq₀.symm.trans hq')
        exact absurd hstage (hopen a)
  · cases hstage

end Network

theorem kept_of_reachable {settings : Settings} {sends : HttpRequest → Bool}
    {route : PgText → Option PyStr} {ok : Network → NetworkEvent → Prop} {n : Network}
    (h : (network settings sends route).ReachableBy ok n) : n.Kept route := by
  refine h.invariant (fun n hinit => ?_)
    fun _ _ _ hn hkept _ hstep => hkept.step (network_inv hn) hstep
  obtain ⟨clock, rfl⟩ := hinit
  exact Network.kept_empty clock

theorem complete_of_remembering {settings : Settings} {sends : HttpRequest → Bool}
    {route : PgText → Option PyStr} {ok : Network → NetworkEvent → Prop} {n : Network}
    (h : (network settings sends route).ReachableBy ok n)
    (hok : ∀ n e, ok n e → Network.Remembers e) : n.Complete route := by
  refine h.invariant (fun n hinit => ?_)
    fun _ _ _ hn hcomplete hstepOk hstep => hcomplete.step (network_inv hn) hstep (hok _ _ hstepOk)
  obtain ⟨clock, rfl⟩ := hinit
  rintro _ _ _ _ ⟨⟩

namespace Network

variable {settings : Settings} {sends : HttpRequest → Bool} {route : PgText → Option PyStr}
  {n : Network}
  {I : DeliveryId → Prop} {name : PyStr}

theorem RecordOf.accepted {r : ReceivedRecord} {key : DeliveryId × ℕ}
    (h : RecordOf route n name r key) (hconfirms : r.respondedWith.Confirms) : n.Accepted key := by
  obtain ⟨q, hq, hstage, _⟩ := h.posted
  exact ⟨q, hq, r.respondedWith, Posted.answer?_eq_some.mpr hstage, hconfirms⟩

/-- Two confirmations under one key are one. -/
theorem Kept.tag_eq (hkept : n.Kept route) (honce : n.Once I) {r r' : ReceivedRecord}
    {id : DeliveryId} (hid : I id) (hr : r ∈ (n.endpoints name).received)
    (hr' : r' ∈ (n.endpoints name).received) (hconfirms : r.respondedWith.Confirms)
    (hconfirms' : r'.respondedWith.Confirms) (hkey : r.idempotencyKey = some id.str)
    (hkey' : r'.idempotencyKey = some id.str) : tag r = tag r' := by
  have hof : ∀ {r : ReceivedRecord}, r ∈ (n.endpoints name).received →
      r.respondedWith.Confirms → r.idempotencyKey = some id.str →
      ∃ k, n.Accepted (id, k) ∧ tag r = tagOf (id, k) := by
    intro r hr hconfirms hkey
    obtain ⟨⟨id', k⟩, hrecord⟩ := hkept.known name r hr
    have htag : r.idempotencyKey = some id'.str := congrArg Prod.fst hrecord.tag
    obtain rfl : id' = id := Uuid.str_injective (Option.some.inj (htag.symm.trans hkey))
    exact ⟨k, hrecord.accepted hconfirms, hrecord.tag⟩
  obtain ⟨j, hj, htag⟩ := hof hr hconfirms hkey
  obtain ⟨k, hk, htag'⟩ := hof hr' hconfirms' hkey'
  rw [htag, htag', honce.unique id hid j k hj hk]

/-- An accepted key is that of a record the stub answered with 200. -/
theorem mem_keyOf {r : ReceivedRecord} {key : PyStr} (h : key ∈ keyOf r) :
    r.idempotencyKey = some key := (Option.filter_eq_some_iff.mp h).1

end Network

/-- In a clean run no endpoint counts a duplicate delivery. -/
theorem clean_runs_count_no_duplicates {settings : Settings} {sends : HttpRequest → Bool}
    {route : PgText → Option PyStr} {n : Network}
    (h : (network settings sends route).ReachableBy
      (Network.Clean settings sends route fun _ => True) n)
    (name : PyStr) : (getSummary (n.endpoints name)).duplicateDeliveries = 0 := by
  have hkept := kept_of_reachable h
  have honce := once_of_clean_run h
  apply duplicateDeliveries_eq_zero
  have hdistinct : (n.endpoints name).received.Pairwise
      fun r r' => Network.tag r ≠ Network.tag r' := List.pairwise_map.mp (hkept.nodup name)
  refine List.pairwise_filterMap.mpr ((hdistinct.filter _).imp_of_mem ?_)
  intro r r' hr hr' hne key hkey key' hkey' heq
  obtain ⟨hr, hok⟩ := List.mem_filter.mp hr
  obtain ⟨hr', hok'⟩ := List.mem_filter.mp hr'
  obtain ⟨⟨id, k⟩, hrecord⟩ := hkept.known name r hr
  -- both keys are that of the delivery
  have hid : r.idempotencyKey = some id.str := congrArg Prod.fst hrecord.tag
  have hid' : r'.idempotencyKey = some id.str := by
    rw [Network.mem_keyOf hkey', ← heq, ← Network.mem_keyOf hkey, hid]
  have hconfirms : r.respondedWith.Confirms := by
    rw [of_decide_eq_true hok]
    decide
  have hconfirms' : r'.respondedWith.Confirms := by
    rw [of_decide_eq_true hok']
    decide
  exact hne (hkept.tag_eq honce trivial hr hr' hconfirms hconfirms' hid hid')

/-- In a clean run in which the stub keeps its records, the books of its endpoint
show a delivered lead as confirmed exactly once. -/
theorem delivered_exactly_once {settings : Settings} {sends : HttpRequest → Bool}
    {route : PgText → Option PyStr} {I : DeliveryId → Prop} {n : Network}
    (h : (network settings sends route).ReachableBy
      (fun n e => n.Clean settings sends route I e ∧ Network.Remembers e) n)
    (hdeadline : settings.attemptDeadlineSeconds < silentHoldSeconds) {row : Delivery}
    (hrow : row ∈ n.fleet.service.db.deliveries.rows) (hI : I row.id)
    (hdelivered : row.status = .delivered) {name : PyStr}
    (hroute : route row.recipientUrl = some name) :
    ((n.endpoints name).received.countP fun r =>
      decide (r.idempotencyKey = some row.id.str ∧ r.respondedWith.Confirms)) = 1 := by
  have hkept := kept_of_reachable h
  have honce := once_of_clean_run (h.mono fun _ _ hok => hok.1)
  obtain ⟨k, _, q, _, hq, hurl, _, _, hconfirmed⟩ :=
    (journal_matches_recipient h.reachable hdeadline).2 row hrow hdelivered
  obtain ⟨a, hstage, hconfirms⟩ := hconfirmed name hroute
  obtain ⟨r, hr, hwith, htag⟩ := complete_of_remembering h (fun _ _ hok => hok.2) _ q a name hq
    hstage (hurl ▸ hroute)
  have hkey : r.idempotencyKey = some row.id.str := congrArg Prod.fst htag
  have hconfirms : r.respondedWith.Confirms := hwith.symm ▸ hconfirms
  -- the records counted are those with the tag of `r`
  have hsame : ∀ y ∈ (n.endpoints name).received,
      decide (y.idempotencyKey = some row.id.str ∧ y.respondedWith.Confirms) =
        decide (Network.tag y = Network.tag r) := by
    intro y hy
    rw [decide_eq_decide]
    constructor
    · rintro ⟨hykey, hyconfirms⟩
      exact hkept.tag_eq honce hI hy hr hyconfirms hconfirms hykey hkey
    · intro htags
      obtain rfl := List.inj_on_of_nodup_map (hkept.nodup name) hy hr htags
      exact ⟨hkey, hconfirms⟩
  rw [List.countP_eq_length_filter, List.filter_congr hsame,
    filter_key_eq_singleton (hkept.nodup name) hr]
  rfl

/-- The stub failed the lead once and accepted it once. -/
theorem clean_runs_count_no_duplicates_secondTime :
    ∃ n, (network .default Network.Move.anyRequest Network.Move.crm).Reachable n ∧
      (n.endpoints (.ofString "crm")).received.length = 2 ∧
      (getSummary (n.endpoints (.ofString "crm"))).duplicateDeliveries = 0 := by
  obtain ⟨n, hn, hp⟩ := exists_networkBy_of_moves .default Network.Move.anyRequest Network.Move.crm
    (Network.Clean .default Network.Move.anyRequest Network.Move.crm fun _ => True)
    AcceptedOnce.secondTime
    (fun n => decide ((n.endpoints (.ofString "crm")).received.length = 2)) (by decide +kernel)
  exact ⟨n, hn.reachable, of_decide_eq_true hp, clean_runs_count_no_duplicates hn _⟩

theorem delivered_exactly_once_secondTime :
    ∃ n row, (network .default Network.Move.anyRequest Network.Move.crm).Reachable n ∧
      row ∈ n.fleet.service.db.deliveries.rows ∧ row.status = .delivered ∧
      ((n.endpoints (.ofString "crm")).received.countP fun r =>
        decide (r.idempotencyKey = some row.id.str ∧ r.respondedWith.Confirms)) = 1 := by
  obtain ⟨n, hn, hp⟩ := exists_networkBy_of_moves .default Network.Move.anyRequest Network.Move.crm
    (fun n e => n.Clean .default Network.Move.anyRequest Network.Move.crm (fun _ => True) e ∧
      Network.Remembers e)
    AcceptedOnce.secondTime
    (fun n => n.fleet.service.db.deliveries.rows.any fun d => decide (d.status = .delivered))
    (by decide +kernel)
  obtain ⟨row, hrow, hp⟩ := List.any_eq_true.mp hp
  have hdelivered := of_decide_eq_true hp
  exact ⟨n, row, hn.reachable, hrow, hdelivered,
    delivered_exactly_once hn (by decide +kernel) hrow trivial hdelivered rfl⟩

end LeadQueue
