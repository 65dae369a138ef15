import LeadQueue.Fleet
import LeadQueue.Stub

/-!
# The fleet and the stub

Workers and the stub's endpoints, with the requests between them. A task posts
once. Its request may reach the stub much later or not at all, the answer need not
reach the worker, and the stub may be told to behave differently, or be restarted,
at any time. Two parameters stand for what is outside: which requests the HTTP
client puts on the wire (for the others `post` raises), and which endpoint a URL
leads to, if any; any other recipient may answer anything.
-/

namespace LeadQueue

open Relational Transition Stub

/-- How far a request has come. -/
inductive RequestStage where
  | wire
  /-- In `receive`, waiting for the body; the behaviour is fixed. -/
  | reading (behaviour : Behaviour)
  /-- In the sleep of a slow endpoint. -/
  | sleeping (body : Option Body)
  | answered (respondedWith : RespondedWith)
  /-- The stub was restarted before it answered. -/
  | lost

structure Posted where
  request : HttpRequest
  stage : RequestStage

/-- What a restart of the stub does to a request. -/
def Posted.afterRestart (q : Posted) : Posted :=
  match q.stage with
  | .reading _ | .sleeping _ => { q with stage := .lost }
  | _ => q

structure Network where
  fleet : Fleet
  endpoints : PyStr → EndpointState
  /-- The request of each attempt. -/
  posted : DeliveryId × ℕ → Option Posted

inductive NetworkEvent where
  | fleet (e : FleetEvent)
  | post (w : WorkerId) (key : DeliveryId × ℕ)
  /-- `receive` is called. -/
  | reach (key : DeliveryId × ℕ)
  /-- `request.json()` returns, or raises. -/
  | read (key : DeliveryId × ℕ) (complete : Bool)
  /-- The sleep of a slow endpoint ends. -/
  | wake (key : DeliveryId × ℕ)
  | setBehaviour (name : PyStr) (behaviour : Behaviour)
  | clearReceived (name : PyStr)
  | restart

/-- The event by which the stub comes to an answer. -/
def NetworkEvent.Answers (key : DeliveryId × ℕ) (e : NetworkEvent) : Prop :=
  e = .wake key ∨ ∃ complete, e = .read key complete

/-- `SILENT_HOLD_SECONDS`. -/
def Stub.silentHoldSeconds : ℚ := 3600

/-- The answer the stub gave. -/
def Posted.answer? (q : Posted) : Option RespondedWith :=
  match q.stage with
  | .answered r => some r
  | _ => none

theorem Posted.answer?_eq_some {q : Posted} {r : RespondedWith} :
    q.answer? = some r ↔ q.stage = .answered r := by
  unfold answer?
  cases q.stage <;> simp

/-- The status a client gets that waits long enough. A silent endpoint answers too,
after its hold; that is too late for any shorter deadline. -/
def Stub.RespondedWith.given? (settings : Settings) : RespondedWith → Option ℕ
  | .status code => some code
  | .silent => if silentHoldSeconds ≤ settings.attemptDeadlineSeconds then some 200 else none

namespace Network

variable (settings : Settings) (sends : HttpRequest → Bool) (route : PgText → Option PyStr)

def empty (clock : Instant) : Network := ⟨.empty clock, fun _ => .new, fun _ => none⟩

def set (n : Network) (key : DeliveryId × ℕ) (q : Posted) : Network :=
  { n with posted := fun k => if k = key then some q else n.posted k }

def update (n : Network) (name : PyStr) (state : EndpointState) : Network :=
  { n with endpoints := fun m => if m = name then state else n.endpoints m }

/-- What `post` may end with: the stub's answers are those it gave. -/
def Delivers (n : Network) (key : DeliveryId × ℕ) : Exchange → Prop
  | .answered response => ∃ q ∈ n.posted key, ∀ _name ∈ route q.request.url,
      ∃ r ∈ q.answer?, r.given? settings = some response.statusCode
  | _ => True

instance (n : Network) (key : DeliveryId × ℕ) (exchange : Exchange) :
    Decidable (n.Delivers settings route key exchange) := by
  unfold Delivers
  split <;> infer_instance

/-- Events of the fleet happen as before, but for the answers. -/
def Allows (n : Network) : FleetEvent → Prop
  | .own _ (.sent key _ _ exchange) => n.Delivers settings route key exchange
  | _ => True

instance (n : Network) (e : FleetEvent) : Decidable (n.Allows settings route e) := by
  unfold Allows
  split <;> infer_instance

def step (n : Network) : NetworkEvent → Option Network
  | .fleet e =>
      if n.Allows settings route e then
        (n.fleet.step settings e).map fun f => { n with fleet := f }
      else none
  | .post w key =>
      (n.fleet.workers w).bind fun p =>
        match p.task? key with
        | some ⟨claim, .sending⟩ =>
            if n.posted key = none ∧ sends (httpRequest settings claim) = true then
              some (n.set key ⟨httpRequest settings claim, .wire⟩)
            else none
        | _ => none
  | .reach key =>
      match n.posted key with
      | some ⟨request, .wire⟩ =>
          (route request.url).map fun name =>
            n.set key ⟨request, .reading (n.endpoints name).behaviour⟩
      | _ => none
  | .read key complete =>
      match n.posted key with
      | some ⟨request, .reading behaviour⟩ =>
          (route request.url).map fun name =>
            let state := n.endpoints name
            let body := if complete then some request.body else none
            (n.update name (receive behaviour request body state)).set key
              ⟨request, (respondAtOnce behaviour (state.handled + 1)).elim (.sleeping body)
                .answered⟩
      | _ => none
  | .wake key =>
      match n.posted key with
      | some ⟨request, .sleeping body⟩ =>
          (route request.url).map fun name =>
            (n.update name (receiveSlow request body (n.endpoints name))).set key
              ⟨request, .answered (.status 200)⟩
      | _ => none
  | .setBehaviour name behaviour =>
      some (n.update name (setBehaviour behaviour (n.endpoints name)))
  | .clearReceived name => some (n.update name (clearReceived (n.endpoints name)))
  | .restart =>
      some { n with
        endpoints := fun _ => .new
        posted := fun key => (n.posted key).map Posted.afterRestart }

/-! ## What a step can do -/

variable {settings sends route} {n n' : Network}

section Set

variable {key k : DeliveryId × ℕ} {q : Posted} {name m : PyStr} {state : EndpointState}

@[simp] theorem set_fleet : (n.set key q).fleet = n.fleet := rfl

@[simp] theorem set_endpoints : (n.set key q).endpoints = n.endpoints := rfl

@[simp] theorem posted_set_self : (n.set key q).posted key = some q := if_pos rfl

theorem posted_set_of_ne (h : k ≠ key) : (n.set key q).posted k = n.posted k := if_neg h

@[simp] theorem update_fleet : (n.update name state).fleet = n.fleet := rfl

@[simp] theorem update_posted : (n.update name state).posted = n.posted := rfl

@[simp] theorem endpoints_update_self : (n.update name state).endpoints name = state := if_pos rfl

theorem endpoints_update_of_ne (h : m ≠ name) :
    (n.update name state).endpoints m = n.endpoints m := if_neg h

end Set

theorem step_fleet {e : FleetEvent} : n.step settings sends route (.fleet e) = some n' ↔
    n.Allows settings route e ∧ ∃ f, n.fleet.step settings e = some f ∧
      n' = { n with fleet := f } := by
  simp only [step]
  constructor
  · intro h
    split at h
    · rename_i hallows
      obtain ⟨f, hf, rfl⟩ := Option.map_eq_some_iff.mp h
      exact ⟨hallows, f, hf, rfl⟩
    · cases h
  · rintro ⟨hallows, f, hf, rfl⟩
    rw [if_pos hallows, hf, Option.map_some]

theorem step_post {w : WorkerId} {key : DeliveryId × ℕ} :
    n.step settings sends route (.post w key) = some n' ↔
      ∃ p claim, n.fleet.workers w = some p ∧ p.task? key = some ⟨claim, .sending⟩ ∧
        n.posted key = none ∧ sends (httpRequest settings claim) = true ∧
        n' = n.set key ⟨httpRequest settings claim, .wire⟩ := by
  simp only [step, Option.bind_eq_some_iff]
  constructor
  · rintro ⟨p, hp, h⟩
    split at h
    · rename_i claim htask
      split at h
      · rename_i hguard
        cases h
        exact ⟨p, claim, hp, htask, hguard.1, hguard.2, rfl⟩
      · cases h
    · cases h
  · rintro ⟨p, claim, hp, htask, hnew, hsends, rfl⟩
    exact ⟨p, hp, by simp only [htask, if_pos (And.intro hnew hsends)]⟩

theorem step_reach {key : DeliveryId × ℕ} : n.step settings sends route (.reach key) = some n' ↔
    ∃ request name, n.posted key = some ⟨request, .wire⟩ ∧ route request.url = some name ∧
      n' = n.set key ⟨request, .reading (n.endpoints name).behaviour⟩ := by
  simp only [step]
  constructor
  · intro h
    split at h
    · rename_i request hposted
      obtain ⟨name, hname, rfl⟩ := Option.map_eq_some_iff.mp h
      exact ⟨request, name, hposted, hname, rfl⟩
    · cases h
  · rintro ⟨request, name, hposted, hname, rfl⟩
    simp only [hposted, hname, Option.map_some]

/-- A request is answered, or the endpoint sleeps; the former leaves a record. -/
theorem step_read {key : DeliveryId × ℕ} {complete : Bool}
    (h : n.step settings sends route (.read key complete) = some n') :
    ∃ request behaviour name body, n.posted key = some ⟨request, .reading behaviour⟩ ∧
      route request.url = some name ∧ body = (if complete then some request.body else none) ∧
      ((∃ r, n' = (n.update name ⟨(n.endpoints name).behaviour,
            (n.endpoints name).received ++ [recordOf request body r],
            (n.endpoints name).handled + 1⟩).set key ⟨request, .answered r⟩) ∨
        n' = (n.update name ⟨(n.endpoints name).behaviour, (n.endpoints name).received,
            (n.endpoints name).handled + 1⟩).set key ⟨request, .sleeping body⟩) := by
  simp only [step] at h
  split at h
  · rename_i request behaviour hposted
    obtain ⟨name, hname, rfl⟩ := Option.map_eq_some_iff.mp h
    refine ⟨request, behaviour, name, _, hposted, hname, rfl, ?_⟩
    simp only [receive]
    cases respondAtOnce behaviour ((n.endpoints name).handled + 1) with
    | some r => exact Or.inl ⟨r, rfl⟩
    | none =>
        refine Or.inr ?_
        simp
  · cases h

theorem step_wake {key : DeliveryId × ℕ} : n.step settings sends route (.wake key) = some n' ↔
    ∃ request body name, n.posted key = some ⟨request, .sleeping body⟩ ∧
      route request.url = some name ∧
      n' = (n.update name (receiveSlow request body (n.endpoints name))).set key
        ⟨request, .answered (.status 200)⟩ := by
  simp only [step]
  constructor
  · intro h
    split at h
    · rename_i request body hposted
      obtain ⟨name, hname, rfl⟩ := Option.map_eq_some_iff.mp h
      exact ⟨request, body, name, hposted, hname, rfl⟩
    · cases h
  · rintro ⟨request, body, name, hposted, hname, rfl⟩
    simp only [hposted, hname, Option.map_some]

/-- What becomes of a request: it stays the same, and an answer is final. -/
theorem step_posted {e : NetworkEvent} (h : n.step settings sends route e = some n')
    {k : DeliveryId × ℕ} {q : Posted} (hq : n.posted k = some q) :
    ∃ q', n'.posted k = some q' ∧ q'.request = q.request ∧
      ∀ r, q.stage = .answered r → q'.stage = .answered r := by
  have hsame : ∃ q', n.posted k = some q' ∧ q'.request = q.request ∧
      ∀ r, q.stage = .answered r → q'.stage = .answered r := ⟨q, hq, rfl, fun _ => id⟩
  -- another request is set
  have hset : ∀ {m : Network} {key q₀ q₁}, m.posted = n.posted → n.posted key = some q₀ →
      q₁.request = q₀.request → (∀ r, q₀.stage = .answered r → q₁.stage = .answered r) →
      ∃ q', (m.set key q₁).posted k = some q' ∧ q'.request = q.request ∧
        ∀ r, q.stage = .answered r → q'.stage = .answered r := by
    intro m key q₀ q₁ hm hold hrequest hstage
    by_cases hk : k = key
    · subst hk
      obtain rfl : q = q₀ := Option.some.inj (hq.symm.trans hold)
      exact ⟨q₁, posted_set_self, hrequest, hstage⟩
    · rw [posted_set_of_ne hk, hm]
      exact hsame
  cases e with
  | fleet e =>
      obtain ⟨_, f, _, rfl⟩ := step_fleet.mp h
      exact hsame
  | post w key =>
      obtain ⟨p, claim, _, _, hnew, _, rfl⟩ := step_post.mp h
      by_cases hk : k = key
      · subst hk
        cases hq.symm.trans hnew
      · rw [posted_set_of_ne hk]
        exact hsame
  | reach key =>
      obtain ⟨request, name, hold, _, rfl⟩ := step_reach.mp h
      exact hset rfl hold rfl (by rintro r ⟨⟩)
  | read key complete =>
      obtain ⟨request, behaviour, name, body, hold, _, _, ⟨r, rfl⟩ | rfl⟩ := step_read h
      all_goals exact hset rfl hold rfl (by rintro r ⟨⟩)
  | wake key =>
      obtain ⟨request, body, name, hold, _, rfl⟩ := step_wake.mp h
      exact hset rfl hold rfl (by rintro r ⟨⟩)
  | setBehaviour name behaviour =>
      cases h
      exact hsame
  | clearReceived name =>
      cases h
      exact hsame
  | restart =>
      cases h
      obtain ⟨request, stage⟩ := q
      refine ⟨Posted.afterRestart ⟨request, stage⟩, by simp [hq], ?_⟩
      cases stage <;> exact ⟨rfl, by rintro r ⟨⟩ <;> rfl⟩

/-- Where a request comes from, and its answer. -/
theorem posted_cases {e : NetworkEvent} (h : n.step settings sends route e = some n')
    {k : DeliveryId × ℕ} {q' : Posted} (hq' : n'.posted k = some q') :
    (∃ q, n.posted k = some q ∧ q'.request = q.request ∧
      ∀ r, q'.stage = .answered r → q.stage = .answered r ∨ e.Answers k) ∨
    ∃ w p claim, e = .post w k ∧ n.fleet.workers w = some p ∧
      p.task? k = some ⟨claim, .sending⟩ ∧ n.posted k = none ∧
      q' = ⟨httpRequest settings claim, .wire⟩ := by
  have hsame : ∀ q, n.posted k = some q → q' = q → ∃ q, n.posted k = some q ∧
      q'.request = q.request ∧ ∀ r, q'.stage = .answered r → q.stage = .answered r ∨ e.Answers k :=
    fun q hq heq => ⟨q, hq, heq ▸ rfl, fun r hr => Or.inl (heq ▸ hr)⟩
  have hset : ∀ {m : Network} {key q₀ q₁}, m.posted = n.posted → n.posted key = some q₀ →
      (m.set key q₁).posted k = some q' → q₁.request = q₀.request →
      (∀ r, q₁.stage = .answered r → e.Answers key) →
      ∃ q, n.posted k = some q ∧ q'.request = q.request ∧
        ∀ r, q'.stage = .answered r → q.stage = .answered r ∨ e.Answers k := by
    intro m key q₀ q₁ hm hold hnew hrequest hstage
    by_cases hk : k = key
    · subst hk
      obtain rfl : q₁ = q' := Option.some.inj (posted_set_self.symm.trans hnew)
      exact ⟨q₀, hold, hrequest, fun r hr => Or.inr (hstage r hr)⟩
    · rw [posted_set_of_ne hk, hm] at hnew
      exact hsame q' hnew rfl
  cases e with
  | fleet e =>
      obtain ⟨_, f, _, rfl⟩ := step_fleet.mp h
      exact Or.inl (hsame q' hq' rfl)
  | post w key =>
      obtain ⟨p, claim, hp, htask, hnew, _, rfl⟩ := step_post.mp h
      by_cases hk : k = key
      · subst hk
        obtain rfl := Option.some.inj (posted_set_self.symm.trans hq')
        exact Or.inr ⟨w, p, claim, rfl, hp, htask, hnew, rfl⟩
      · rw [posted_set_of_ne hk] at hq'
        exact Or.inl (hsame q' hq' rfl)
  | reach key =>
      obtain ⟨request, name, hold, _, rfl⟩ := step_reach.mp h
      exact Or.inl (hset rfl hold hq' rfl (by rintro r ⟨⟩))
  | read key complete =>
      obtain ⟨request, behaviour, name, body, hold, _, _, ⟨r, rfl⟩ | rfl⟩ := step_read h
      all_goals exact Or.inl (hset rfl hold hq' rfl fun _ _ => Or.inr ⟨complete, rfl⟩)
  | wake key =>
      obtain ⟨request, body, name, hold, _, rfl⟩ := step_wake.mp h
      exact Or.inl (hset rfl hold hq' rfl fun _ _ => Or.inl rfl)
  | setBehaviour name behaviour =>
      cases h
      exact Or.inl (hsame q' hq' rfl)
  | clearReceived name =>
      cases h
      exact Or.inl (hsame q' hq' rfl)
  | restart =>
      cases h
      obtain ⟨⟨request, stage⟩, hq, rfl⟩ := Option.map_eq_some_iff.mp hq'
      refine Or.inl ⟨_, hq, ?_⟩
      cases stage <;> exact ⟨rfl, by rintro r ⟨⟩ <;> exact Or.inl rfl⟩

/-- Only events of the fleet change it. -/
theorem step_fleet_cases {e : NetworkEvent} (h : n.step settings sends route e = some n') :
    n'.fleet = n.fleet ∨ ∃ d, e = .fleet d ∧ n.Allows settings route d ∧
      n.fleet.step settings d = some n'.fleet ∧ n'.posted = n.posted := by
  cases e with
  | fleet e =>
      obtain ⟨hallows, f, hf, rfl⟩ := step_fleet.mp h
      exact Or.inr ⟨e, rfl, hallows, hf, rfl⟩
  | post w key =>
      obtain ⟨p, claim, _, _, _, _, rfl⟩ := step_post.mp h
      exact Or.inl rfl
  | reach key =>
      obtain ⟨request, name, _, _, rfl⟩ := step_reach.mp h
      exact Or.inl rfl
  | read key complete =>
      obtain ⟨request, behaviour, name, body, _, _, _, ⟨r, rfl⟩ | rfl⟩ := step_read h
      all_goals exact Or.inl rfl
  | wake key =>
      obtain ⟨request, body, name, _, _, rfl⟩ := step_wake.mp h
      exact Or.inl rfl
  | setBehaviour name behaviour =>
      cases h
      exact Or.inl rfl
  | clearReceived name =>
      cases h
      exact Or.inl rfl
  | restart =>
      cases h
      exact Or.inl rfl

end Network

/-- Every endpoint starts unconfigured. -/
def network (settings : Settings) (sends : HttpRequest → Bool)
    (route : PgText → Option PyStr) : Machine Network NetworkEvent :=
  .ofFun (fun n => ∃ clock, n = .empty clock) (Network.step settings sends route)

/-! ## Moves -/

/-- A run from the empty database, computed. -/
theorem exists_networkBy_of_moves (settings : Settings) (sends : HttpRequest → Bool)
    (route : PgText → Option PyStr)
    (ok : Network → NetworkEvent → Prop) [∀ n e, Decidable (ok n e)]
    (moves : List (Network → NetworkEvent)) (p : Network → Bool)
    (h : (Machine.play (Network.step settings sends route) ok (.empty 0) moves).any p = true) :
    ∃ n, (network settings sends route).ReachableBy ok n ∧ p n = true :=
  Machine.exists_reachableBy_of_play ⟨0, rfl⟩ h

namespace Network.Move

def fleet (move : Fleet → FleetEvent) (n : Network) : NetworkEvent := .fleet (move n.fleet)

/-- A client that sends whatever it is given. -/
def anyRequest (_ : HttpRequest) : Bool := true

/-- One endpoint for every URL. -/
def crm (_ : PgText) : Option PyStr := some (.ofString "crm")

/-- A lead is accepted and claimed. -/
def claimed : List (Network → NetworkEvent) :=
  [Fleet.Move.queue (LeadQueue.Move.accept 0 LeadQueue.Move.lead),
    Fleet.Move.start LeadQueue.Move.workerA, Fleet.Move.own LeadQueue.Move.workerA .tick,
    Fleet.Move.claimed .default LeadQueue.Move.workerA].map fleet

/-- An attempt is posted, and the stub answers it at once. -/
def posted (w : WorkerId) (key : DeliveryId × ℕ) : List (Network → NetworkEvent) :=
  [fun _ => .post w key, fun _ => .reach key, fun _ => .read key true]

/-- Its answer arrives and is recorded. -/
def finished (w : WorkerId) (key : DeliveryId × ℕ) (exchange : Exchange) :
    List (Network → NetworkEvent) :=
  [Fleet.Move.own w (.sent key 0 0 exchange), Fleet.Move.recorded w key].map fleet

/-- One attempt, confirmed. -/
def confirmed : List (Network → NetworkEvent) :=
  claimed ++ posted LeadQueue.Move.workerA (LeadQueue.Move.first, 1) ++
    finished LeadQueue.Move.workerA (LeadQueue.Move.first, 1) Fleet.Move.ok

end Network.Move

end LeadQueue
