import LeadQueue.Intake

/-!
# What intake leaves behind

Both transactions in closed form: the recipients that survive the
deduplication, the rows the insert appends, and the answer. The two unique
constraints of the schema hold because of the conflict rules alone.
-/

namespace LeadQueue

open Relational

/-! ## Deduplication -/

theorem mem_dedupeFrom {seen : List PyStr} {rs : List RecipientIn} {r : RecipientIn}
    (h : r ∈ dedupeFrom seen rs) :
    r.url ∉ seen ∧ rs.find? (fun r' => decide (r'.url = r.url)) = some r := by
  induction rs generalizing seen with
  | nil => cases h
  | cons x xs ih =>
      rw [dedupeFrom] at h
      split at h
      · rename_i hseen
        obtain ⟨hnew, hfind⟩ := ih h
        refine ⟨hnew, ?_⟩
        rw [List.find?_cons_of_neg, hfind]
        intro heq
        exact hnew (of_decide_eq_true heq ▸ hseen)
      · rename_i hx
        rcases List.mem_cons.mp h with rfl | hmem
        · exact ⟨hx, by simp⟩
        · obtain ⟨hnew, hfind⟩ := ih hmem
          rw [List.mem_cons, not_or] at hnew
          refine ⟨hnew.2, ?_⟩
          rw [List.find?_cons_of_neg, hfind]
          simpa using Ne.symm hnew.1

/-- Of every URL the first mention survives. -/
theorem mem_dedupe {rs : List RecipientIn} {r : RecipientIn} (h : r ∈ dedupe rs) :
    rs.find? (fun r' => decide (r'.url = r.url)) = some r := (mem_dedupeFrom h).2

theorem url_mem_dedupeFrom {seen : List PyStr} {rs : List RecipientIn} {url : PyStr} :
    url ∈ (dedupeFrom seen rs).map RecipientIn.url ↔
      url ∉ seen ∧ url ∈ rs.map RecipientIn.url := by
  induction rs generalizing seen with
  | nil => simp [dedupeFrom]
  | cons x xs ih =>
      rw [dedupeFrom, List.map_cons, List.mem_cons]
      split
      · rename_i hx
        rw [ih]
        constructor
        · rintro ⟨hnew, hmem⟩
          exact ⟨hnew, Or.inr hmem⟩
        · rintro ⟨hnew, rfl | hmem⟩
          · exact absurd hx hnew
          · exact ⟨hnew, hmem⟩
      · rename_i hx
        rw [List.map_cons, List.mem_cons, ih, List.mem_cons, not_or]
        constructor
        · rintro (rfl | ⟨⟨_, hnew⟩, hmem⟩)
          · exact ⟨hx, Or.inl rfl⟩
          · exact ⟨hnew, Or.inr hmem⟩
        · rintro ⟨hnew, rfl | hmem⟩
          · exact Or.inl rfl
          · by_cases heq : url = x.url
            · exact Or.inl heq
            · exact Or.inr ⟨⟨heq, hnew⟩, hmem⟩

theorem url_mem_dedupe {rs : List RecipientIn} {url : PyStr} :
    url ∈ (dedupe rs).map RecipientIn.url ↔ url ∈ rs.map RecipientIn.url := by
  rw [dedupe, url_mem_dedupeFrom]
  simp

theorem dedupeFrom_nodup (seen : List PyStr) (rs : List RecipientIn) :
    ((dedupeFrom seen rs).map RecipientIn.url).Nodup := by
  induction rs generalizing seen with
  | nil => exact List.nodup_nil
  | cons x xs ih =>
      rw [dedupeFrom]
      split
      · exact ih seen
      · rw [List.map_cons, List.nodup_cons]
        refine ⟨fun hmem => ?_, ih _⟩
        exact (url_mem_dedupeFrom.mp hmem).1 List.mem_cons_self

theorem dedupe_nodup (rs : List RecipientIn) : ((dedupe rs).map RecipientIn.url).Nodup :=
  dedupeFrom_nodup [] rs

/-- As many as there are distinct URLs. -/
theorem length_dedupe (rs : List RecipientIn) :
    (dedupe rs).length = (rs.map RecipientIn.url).toFinset.card := by
  have hset : ((dedupe rs).map RecipientIn.url).toFinset = (rs.map RecipientIn.url).toFinset := by
    ext url
    rw [List.mem_toFinset, List.mem_toFinset, url_mem_dedupe]
  rw [← hset, List.toFinset_card_of_nodup (dedupe_nodup rs), List.length_map]

/-! ## The insert of deliveries -/

/-- A row of the lead `requestId` for this URL. -/
def Delivery.isFor (requestId : RequestId) (url : PgText) (d : Delivery) : Bool :=
  d.requestId == requestId && d.recipientUrl == url

theorem Delivery.isFor_iff {requestId : RequestId} {url : PgText} {d : Delivery} :
    d.isFor requestId url = true ↔ d.requestId = requestId ∧ d.recipientUrl = url := by
  simp [Delivery.isFor]

/-- The proposed rows that meet no conflict. -/
def newTargets (requestId : RequestId) (db : Database)
    (proposed : List (RecipientRow × DeliveryId)) : List (RecipientRow × DeliveryId) :=
  proposed.filter fun p => !db.deliveries.rows.any (Delivery.isFor requestId p.1.url)

/-- `proposed` was inserted into `db`: the rows without a conflict, in order. -/
structure Inserted (now : Instant) (requestId : RequestId)
    (proposed : List (RecipientRow × DeliveryId)) (db db' : Database) (ids : List DeliveryId) :
    Prop where
  requests : db'.requests = db.requests
  journal : db'.deliveryAttempts = db.deliveryAttempts
  deliveries : db'.deliveries.rows = db.deliveries.rows ++
    (newTargets requestId db proposed).map fun p => newDelivery now requestId p.2 p.1
  ids_eq : ids = (newTargets requestId db proposed).map Prod.snd

theorem insertDelivery_cases {now : Instant} {requestId : RequestId}
    {acc acc' : Database × List DeliveryId} {p : RecipientRow × DeliveryId}
    (h : insertDelivery now requestId acc p = .ok acc') :
    (acc.1.deliveries.rows.any (Delivery.isFor requestId p.1.url) = true ∧ acc' = acc) ∨
    (acc.1.deliveries.rows.any (Delivery.isFor requestId p.1.url) = false ∧
      acc'.1.requests = acc.1.requests ∧ acc'.1.deliveryAttempts = acc.1.deliveryAttempts ∧
      acc'.1.deliveries.rows = acc.1.deliveries.rows ++ [newDelivery now requestId p.2 p.1] ∧
      acc'.2 = acc.2 ++ [p.2]) := by
  unfold insertDelivery at h
  split at h
  · rename_i hany
    cases h
    exact Or.inl ⟨hany, rfl⟩
  · rename_i hany
    split at h
    · cases h
    · rename_i deliveries hins
      cases h
      exact Or.inr ⟨by simpa [Delivery.isFor] using hany, rfl, rfl, Table.rows_insert? hins, rfl⟩

/-- A row inserted for one URL is no conflict for another. -/
theorem any_isFor_append {now : Instant} {requestId : RequestId} {rows : List Delivery}
    {p : RecipientRow × DeliveryId} {url : PgText} (hne : p.1.url ≠ url) :
    (rows ++ [newDelivery now requestId p.2 p.1]).any (Delivery.isFor requestId url) =
      rows.any (Delivery.isFor requestId url) := by
  have hnot : (newDelivery now requestId p.2 p.1).isFor requestId url = false := by
    rw [← Bool.not_eq_true, Delivery.isFor_iff]
    exact fun h => hne h.2
  rw [List.any_append, List.any_cons, hnot]
  simp

theorem foldlM_insertDelivery {now : Instant} {requestId : RequestId}
    {proposed : List (RecipientRow × DeliveryId)} {db db' : Database} {ids ids' : List DeliveryId}
    (hurls : (proposed.map fun p => p.1.url).Nodup)
    (h : proposed.foldlM (insertDelivery now requestId) (db, ids) = .ok (db', ids')) :
    ∃ new, ids' = ids ++ new ∧ Inserted now requestId proposed db db' new := by
  induction proposed generalizing db ids with
  | nil =>
      cases h
      exact ⟨[], by simp, rfl, rfl, by simp [newTargets], rfl⟩
  | cons p ps ih =>
      rw [List.foldlM_cons] at h
      obtain ⟨⟨db₁, ids₁⟩, hfirst, hrest⟩ := Fallible.bind_eq_ok_iff.mp h
      rw [List.map_cons, List.nodup_cons] at hurls
      obtain ⟨new, hids, hins⟩ := ih hurls.2 hrest
      rcases insertDelivery_cases hfirst with ⟨hany, heq⟩ | ⟨hany, hreq, hjour, hrows, happ⟩
      · obtain ⟨rfl, rfl⟩ := Prod.mk.inj heq
        have hsame : newTargets requestId db₁ (p :: ps) = newTargets requestId db₁ ps := by
          rw [newTargets, List.filter_cons_of_neg (by simp [hany])]
          rfl
        exact ⟨new, hids, hins.requests, hins.journal, hsame ▸ hins.deliveries,
          hsame ▸ hins.ids_eq⟩
      · -- the other rows meet the same conflicts as before: their URLs differ
        have hothers : newTargets requestId db₁ ps = newTargets requestId db ps := by
          apply List.filter_congr
          intro q hq
          rw [hrows, any_isFor_append fun heq => hurls.1 (heq ▸ List.mem_map.mpr ⟨q, hq, rfl⟩)]
        have hsame : newTargets requestId db (p :: ps) = p :: newTargets requestId db ps := by
          rw [newTargets, List.filter_cons_of_pos (by simp [hany])]
          rfl
        refine ⟨p.2 :: new, ?_, hins.requests.trans hreq, hins.journal.trans hjour, ?_, ?_⟩
        · rw [hids, show ids₁ = ids ++ [p.2] from happ, List.append_assoc]
          rfl
        · rw [hins.deliveries, hrows, hothers, hsame, List.append_assoc]
          rfl
        · rw [hins.ids_eq, hothers, hsame]
          rfl

/-- The rows proposed for validated recipients. -/
def proposedRows (gen : Generated) (rows : List RecipientRow) : List (RecipientRow × DeliveryId) :=
  rows.zipIdx.map fun p => (p.1, gen.deliveryId p.2)

theorem map_fst_proposedRows (gen : Generated) (rows : List RecipientRow) :
    (proposedRows gen rows).map Prod.fst = rows := by
  simp [proposedRows, Function.comp_def]

theorem textParam_str {s : PyStr} {t : PgText} (h : textParam s = .ok t) : t.str = s := by
  unfold textParam at h
  split at h
  · cases h
  · cases h
    rfl

theorem textParam?_str {s : Option PyStr} {t : Option PgText} (h : textParam? s = .ok t) :
    t.map PgText.str = s := by
  cases s with
  | none =>
      cases h
      rfl
  | some s =>
      obtain ⟨t', ht', rfl⟩ := Fallible.map_eq_ok_iff.mp h
      rw [Option.map_some, textParam_str ht']

theorem utf8Param_str {s : PyStr} {t : PgText} (h : utf8Param s = .ok t) : t.str = s := by
  unfold utf8Param at h
  split at h
  · exact textParam_str h
  · cases h

/-- What is stored of a recipient is what was given. -/
theorem bindRecipient_spec {r : RecipientIn} {row : RecipientRow} (h : bindRecipient r = .ok row) :
    row.url.str = r.url ∧ row.name.map PgText.str = r.name ∧ row.origin.str = r.origin := by
  unfold bindRecipient at h
  obtain ⟨name, hname, h⟩ := Fallible.bind_eq_ok_iff.mp h
  obtain ⟨url, hurl, h⟩ := Fallible.bind_eq_ok_iff.mp h
  obtain ⟨origin, horigin, h⟩ := Fallible.bind_eq_ok_iff.mp h
  cases h
  exact ⟨utf8Param_str hurl, textParam?_str hname, utf8Param_str horigin⟩

/-- Recipients and the rows they are bound to. -/
abbrev Bound (recipients : List RecipientIn) (rows : List RecipientRow) : Prop :=
  List.Forall₂ (fun r row => bindRecipient r = .ok row) recipients rows

theorem Bound.urls {recipients : List RecipientIn} {rows : List RecipientRow}
    (h : Bound recipients rows) :
    rows.map (fun row => row.url.str) = recipients.map RecipientIn.url := by
  induction h with
  | nil => rfl
  | cons hrow _ ih => rw [List.map_cons, List.map_cons, ih, (bindRecipient_spec hrow).1]

/-- Every row comes from a recipient, and the other way round. -/
theorem Bound.exists_of_mem {recipients : List RecipientIn} {rows : List RecipientRow}
    (h : Bound recipients rows) {row : RecipientRow} (hrow : row ∈ rows) :
    ∃ r ∈ recipients, bindRecipient r = .ok row := by
  induction h with
  | nil => cases hrow
  | cons hfirst _ ih =>
      rcases List.mem_cons.mp hrow with rfl | hrow
      · exact ⟨_, List.mem_cons_self, hfirst⟩
      · obtain ⟨r, hr, hbind⟩ := ih hrow
        exact ⟨r, List.mem_cons_of_mem _ hr, hbind⟩

theorem Bound.nodup {recipients : List RecipientIn} {rows : List RecipientRow} {gen : Generated}
    (h : Bound recipients rows) (hurls : (recipients.map RecipientIn.url).Nodup) :
    ((proposedRows gen rows).map fun p => p.1.url).Nodup := by
  have hrows : (rows.map fun row => row.url.str).Nodup := h.urls ▸ hurls
  have hmap : (proposedRows gen rows).map (fun p => p.1.url) = rows.map RecipientRow.url := by
    rw [← map_fst_proposedRows gen rows, List.map_map, map_fst_proposedRows]
    rfl
  rw [hmap]
  exact List.Nodup.of_map PgText.str (by rwa [List.map_map])

/-- A row is proposed for every URL. -/
theorem Bound.exists_proposed {recipients : List RecipientIn} {rows : List RecipientRow}
    {gen : Generated} (h : Bound (dedupe recipients) rows) {url : PyStr}
    (hurl : url ∈ recipients.map RecipientIn.url) :
    ∃ p ∈ proposedRows gen rows, p.1.url.str = url := by
  rw [← url_mem_dedupe, ← h.urls, ← map_fst_proposedRows gen rows, List.map_map] at hurl
  exact List.mem_map.mp hurl

theorem insertDeliveries_spec {gen : Generated} {requestId : RequestId}
    {recipients : List RecipientIn} {db db' : Database} {ids : List DeliveryId}
    (hurls : (recipients.map RecipientIn.url).Nodup)
    (h : insertDeliveries gen requestId recipients db = .ok (db', ids)) :
    ∃ rows, Bound recipients rows ∧
      Inserted gen.now requestId (proposedRows gen rows) db db' ids := by
  obtain ⟨rows, hrows, h⟩ := Fallible.bind_eq_ok_iff.mp h
  have hbound : Bound recipients rows := (Fallible.mapM_eq_ok_iff _ _ _).mp hrows
  obtain ⟨new, hids, hins⟩ := foldlM_insertDelivery (hbound.nodup hurls) h
  rw [List.nil_append] at hids
  exact ⟨rows, hbound, hids ▸ hins⟩

/-! ## The two transactions -/

/-- The lead stored under a key. -/
def Request.hasKey (sourceId idempotencyKey : PgText) (r : Request) : Bool :=
  r.sourceId == sourceId && r.idempotencyKey == idempotencyKey

theorem Request.hasKey_iff {sourceId idempotencyKey : PgText} {r : Request} :
    r.hasKey sourceId idempotencyKey = true ↔
      r.sourceId = sourceId ∧ r.idempotencyKey = idempotencyKey := by
  simp [Request.hasKey]

/-- What a committed `acceptRequest` is: a repeat, which changes nothing, or a
new lead with its deliveries. -/
inductive Accepted (gen : Generated) (req : IntakeRequest) (db : Database) :
    Database → IntakeAccepted → Prop where
  | duplicate {sourceId idempotencyKey : PgText} {existing : Request} :
      textParam req.sourceId = .ok sourceId →
      textParam req.idempotencyKey = .ok idempotencyKey →
      existing ∈ db.requests.rows → existing.hasKey sourceId idempotencyKey = true →
      Accepted gen req db db
        ⟨existing.id, true, existing.receivedAt,
          db.deliveries.rows.countP fun d => d.requestId == existing.id⟩
  | new {sourceId idempotencyKey : PgText} {payload : Jsonb} {requests : Table Request.id}
      {rows : List RecipientRow} {db' : Database} {ids : List DeliveryId} :
      textParam req.sourceId = .ok sourceId →
      textParam req.idempotencyKey = .ok idempotencyKey →
      jsonbParam req.payload = .ok payload →
      (∀ r ∈ db.requests.rows, r.hasKey sourceId idempotencyKey = false) →
      db.requests.insert? ⟨gen.requestId, sourceId, idempotencyKey, payload, gen.now⟩ =
        some requests →
      Bound (dedupe req.recipients) rows →
      Inserted gen.now gen.requestId (proposedRows gen rows) { db with requests := requests }
        db' ids →
      Accepted gen req db db' ⟨gen.requestId, false, gen.now, ids.length⟩

theorem acceptRequest_spec {gen : Generated} {req : IntakeRequest} {db db' : Database}
    {answer : IntakeAccepted} (h : acceptRequest gen req db = .ok (db', answer)) :
    Accepted gen req db db' answer := by
  unfold acceptRequest at h
  obtain ⟨sourceId, hsource, h⟩ := Fallible.bind_eq_ok_iff.mp h
  obtain ⟨key, hkey, h⟩ := Fallible.bind_eq_ok_iff.mp h
  obtain ⟨payload, hpayload, h⟩ := Fallible.bind_eq_ok_iff.mp h
  split at h
  · rename_i existing hfind
    cases h
    exact .duplicate hsource hkey (List.mem_of_find?_eq_some hfind) (List.find?_some hfind)
  · rename_i hfind
    split at h
    · cases h
    · rename_i requests hins
      obtain ⟨⟨db₁, ids⟩, hdel, h⟩ := Fallible.bind_eq_ok_iff.mp h
      cases h
      obtain ⟨rows, hbound, hspec⟩ := insertDeliveries_spec (dedupe_nodup _) hdel
      refine .new hsource hkey hpayload (fun r hr => ?_) hins hbound hspec
      exact Bool.not_eq_true _ ▸ List.find?_eq_none.mp hfind r hr

theorem attachRecipients_spec {gen : Generated} {requestId : RequestId}
    {recipients : List RecipientIn} {db db' : Database} {answer : AttachRecipientsResponse}
    (h : attachRecipients gen requestId recipients db = .ok (some (db', answer))) :
    (db.requests.get? requestId).isSome ∧ ∃ rows, Bound (dedupe recipients) rows ∧
      Inserted gen.now requestId (proposedRows gen rows) db db' answer.deliveryIds := by
  unfold attachRecipients at h
  split at h
  · cases h
  · rename_i hknown
    obtain ⟨⟨db₁, ids⟩, hdel, h⟩ := Fallible.bind_eq_ok_iff.mp h
    cases h
    obtain ⟨rows, hbound, hspec⟩ := insertDeliveries_spec (dedupe_nodup _) hdel
    refine ⟨?_, rows, hbound, hspec⟩
    simpa [Option.isSome_iff_ne_none] using hknown

end LeadQueue
