import LeadQueue.Library.Machine
import LeadQueue.Library.Table
import Mathlib.Data.List.Sublists
import Mathlib.Logic.Function.Basic

/-!
# Transactions that write rows under locks

Any number of transactions run side by side on one keyed table. A statement
settles on its candidates from a committed snapshot, without locks. It then
takes the candidates one by one: a row that another transaction holds is
skipped or waited for; a free row is locked, and its latest committed version
is checked once more. On commit the new versions of the rows taken become
visible and the locks are released.

Two facts carry everything else. A row taken is still the committed version
when its transaction commits. And the committed versions of a row form a
chain: each change starts from the version the change before it left.
-/

namespace RowLocks

open Relational Transition

/-- What the operations of a program do to the rows they lock. -/
structure Discipline {ρ κ : Type} (key : ρ → κ) (ω : Type) where
  /-- Rows that may be inserted. -/
  fresh : ρ → Prop
  /-- The candidates a statement may settle on, from the snapshot it reads. -/
  plans : ω → Table key → List κ → Prop
  plans_nodup : ∀ {op t plan}, plans op t plan → plan.Nodup
  /-- The number of rows to take at most. -/
  limit : ω → Option ℕ
  /-- Skip rows that others hold instead of waiting for them. -/
  skips : ω → Bool
  /-- The condition checked on the latest version, under the lock. -/
  recheck : ω → ρ → Bool
  /-- The new version of a row; `none` leaves it as it is. -/
  change : ω → ρ → Option ρ
  key_change : ∀ {op r r'}, change op r = some r' → key r' = key r

/-- An open transaction. -/
structure Tx (ρ κ ω : Type) where
  op : ω
  plan : List κ
  /-- Candidates not looked at yet. -/
  todo : List κ
  /-- Keys locked. -/
  held : List κ
  /-- Versions that passed the check, in the order taken. -/
  taken : List ρ

/-- A committed change of one row. -/
structure Change (ρ ω : Type) where
  op : ω
  before : ρ
  after : ρ

structure State {ρ κ : Type} (key : ρ → κ) (ω ι : Type) where
  committed : Table key
  txs : ι → Option (Tx ρ κ ω)
  /-- The changes made so far, newest first. -/
  history : List (Change ρ ω)

inductive Label (ρ ω ι : Type) where
  | insert (r : ρ)
  | begin (i : ι) (op : ω)
  | skip (i : ι)
  | take (i : ι)
  | drop (i : ι)
  | commit (i : ι)
  | abort (i : ι)

variable {ρ κ ω ι : Type} {key : ρ → κ}

/-! ## The rules -/

namespace Discipline

variable (D : Discipline key ω)

/-- The version a row taken is left in. -/
def newVersion (op : ω) (r : ρ) : ρ := (D.change op r).getD r

theorem key_newVersion (op : ω) (r : ρ) : key (D.newVersion op r) = key r := by
  unfold newVersion
  cases h : D.change op r with
  | none => rfl
  | some r' => exact D.key_change h

variable [DecidableEq κ] [DecidableEq ι]

/-- The effect of a commit on a row. -/
def rewrite (op : ω) (taken : List ρ) (r : ρ) : ρ :=
  match taken.find? (fun v => key v = key r) with
  | some v => D.newVersion op v
  | none => r

theorem key_rewrite (op : ω) (taken : List ρ) (r : ρ) : key (D.rewrite op taken r) = key r := by
  unfold rewrite
  split
  · rename_i v hv
    rw [D.key_newVersion]
    simpa using List.find?_some hv
  · rfl

/-- The changes a commit adds to the history. -/
def changes (op : ω) (taken : List ρ) : List (Change ρ ω) :=
  taken.filterMap fun v => (D.change op v).map fun r => ⟨op, v, r⟩

/-- There is room for one more row. -/
def Room (tx : Tx ρ κ ω) : Prop := ∀ n ∈ D.limit tx.op, tx.taken.length < n

/-- Key `k` is locked by a transaction other than `i`. -/
def HeldByOther (s : State key ω ι) (i : ι) (k : κ) : Prop :=
  ∃ j tx, j ≠ i ∧ s.txs j = some tx ∧ k ∈ tx.held

/-- One step of one transaction. -/
inductive Step : State key ω ι → Label ρ ω ι → State key ω ι → Prop where
  | insert {s : State key ω ι} {r : ρ} {t : Table key} :
      D.fresh r → s.committed.insert? r = some t →
      Step s (.insert r) { s with committed := t }
  | begin {s : State key ω ι} {i : ι} {op : ω} {plan : List κ} :
      s.txs i = none → D.plans op s.committed plan →
      Step s (.begin i op) { s with txs := Function.update s.txs i (some ⟨op, plan, plan, [], []⟩) }
  | skip {s : State key ω ι} {i : ι} {tx : Tx ρ κ ω} {k : κ} {rest : List κ} :
      s.txs i = some tx → tx.todo = k :: rest → D.skips tx.op = true → HeldByOther s i k →
      Step s (.skip i) { s with txs := Function.update s.txs i (some { tx with todo := rest }) }
  | take {s : State key ω ι} {i : ι} {tx : Tx ρ κ ω} {k : κ} {rest : List κ} {v : ρ} :
      s.txs i = some tx → tx.todo = k :: rest → D.Room tx → ¬ HeldByOther s i k →
      s.committed.get? k = some v → D.recheck tx.op v = true →
      Step s (.take i) { s with
        txs := Function.update s.txs i
          (some { tx with todo := rest, held := k :: tx.held, taken := tx.taken ++ [v] }) }
  | drop {s : State key ω ι} {i : ι} {tx : Tx ρ κ ω} {k : κ} {rest held : List κ} :
      s.txs i = some tx → tx.todo = k :: rest → ¬ HeldByOther s i k →
      (∀ v, s.committed.get? k = some v → D.recheck tx.op v = false) →
      -- the lock on a row that fails the check may be kept
      held = tx.held ∨ held = k :: tx.held →
      Step s (.drop i) { s with
        txs := Function.update s.txs i (some { tx with todo := rest, held := held }) }
  | commit {s : State key ω ι} {i : ι} {tx : Tx ρ κ ω} :
      s.txs i = some tx → tx.todo = [] ∨ ¬ D.Room tx →
      Step s (.commit i)
        ⟨s.committed.update (D.rewrite tx.op tx.taken) (D.key_rewrite tx.op tx.taken),
          Function.update s.txs i none, D.changes tx.op tx.taken ++ s.history⟩
  | abort {s : State key ω ι} {i : ι} {tx : Tx ρ κ ω} :
      s.txs i = some tx →
      Step s (.abort i) { s with txs := Function.update s.txs i none }

/-- Runs start with no rows and no transactions. -/
def machine (ι : Type) [DecidableEq ι] : Machine (State key ω ι) (Label ρ ω ι) where
  init s := s = ⟨.empty, fun _ => none, []⟩
  step := D.Step

end Discipline

/-! ## Chains of versions -/

/-- The changes of one row, newest first, lead to its latest version. -/
def Linked : Option ρ → List (Change ρ ω) → Prop
  | _, [] => True
  | latest, c :: cs => latest = some c.after ∧ Linked (some c.before) cs

/-- Of two successive changes of a row the newer starts where the older ended. -/
theorem Linked.adjacent {latest : Option ρ} {newer older : List (Change ρ ω)}
    {c₂ c₁ : Change ρ ω} (h : Linked latest (newer ++ c₂ :: c₁ :: older)) :
    c₂.before = c₁.after := by
  induction newer generalizing latest with
  | nil => exact Option.some.inj h.2.1
  | cons c cs ih => exact ih h.2

theorem Linked.nil_of_none {changes : List (Change ρ ω)} (h : Linked (none : Option ρ) changes) :
    changes = [] := by
  cases changes with
  | nil => rfl
  | cons c cs => cases h.1

/-- The changes of the row with key `k`. -/
def changesOf [DecidableEq κ] (key : ρ → κ) (k : κ) (history : List (Change ρ ω)) :
    List (Change ρ ω) :=
  history.filter fun c => key c.before = k

variable {D : Discipline key ω} [DecidableEq κ] [DecidableEq ι]

/-- A commit makes at most one change of a row. -/
theorem changesOf_changes {op : ω} {taken : List ρ} (hnodup : (taken.map key).Nodup) {v : ρ}
    (hv : v ∈ taken) : changesOf key (key v) (D.changes op taken) =
      ((D.change op v).map fun r => Change.mk op v r).toList := by
  induction taken with
  | nil => cases hv
  | cons w ws ih =>
      rw [List.map_cons, List.nodup_cons] at hnodup
      have hsplit : D.changes op (w :: ws) =
          ((D.change op w).map fun r => Change.mk op w r).toList ++ D.changes op ws := by
        unfold Discipline.changes
        rw [List.filterMap_cons]
        cases D.change op w <;> rfl
      rw [hsplit, changesOf, List.filter_append]
      rcases List.mem_cons.mp hv with rfl | hv
      · have hrest : (D.changes op ws).filter (fun c => key c.before = key v) = [] := by
          refine List.filter_eq_nil_iff.mpr fun c hc hkey => hnodup.1 ?_
          obtain ⟨u, hu, hcu⟩ := List.mem_filterMap.mp hc
          obtain ⟨r, _, rfl⟩ := Option.map_eq_some_iff.mp hcu
          exact List.mem_map.mpr ⟨u, hu, of_decide_eq_true hkey⟩
        rw [hrest, List.append_nil]
        cases D.change op v <;> simp
      · have hne : key w ≠ key v := fun heq => hnodup.1 (List.mem_map.mpr ⟨v, hv, heq.symm⟩)
        have hfirst : (((D.change op w).map fun r => Change.mk op w r).toList).filter
            (fun c => key c.before = key v) = [] := by
          cases D.change op w <;> simp [hne]
        rw [hfirst, List.nil_append]
        exact ih hnodup.2 hv

theorem changesOf_changes_of_notMem {op : ω} {taken : List ρ} {k : κ}
    (hk : k ∉ taken.map key) : changesOf key k (D.changes op taken) = [] := by
  refine List.filter_eq_nil_iff.mpr fun c hc hkey => hk ?_
  obtain ⟨u, hu, hcu⟩ := List.mem_filterMap.mp hc
  obtain ⟨r, _, rfl⟩ := Option.map_eq_some_iff.mp hcu
  exact List.mem_map.mpr ⟨u, hu, of_decide_eq_true hkey⟩

/-! ## The invariant -/

/-- What holds of one open transaction. -/
structure Tx.Sound (D : Discipline key ω) (committed : Table key) (tx : Tx ρ κ ω) : Prop where
  plan_nodup : tx.plan.Nodup
  /-- The rows taken and the candidates left are in the order of the plan. -/
  ordered : (tx.taken.map key ++ tx.todo).Sublist tx.plan
  held : ∀ v ∈ tx.taken, key v ∈ tx.held
  current : ∀ v ∈ tx.taken, committed.get? (key v) = some v
  checked : ∀ v ∈ tx.taken, D.recheck tx.op v = true
  within : ∀ n ∈ D.limit tx.op, tx.taken.length ≤ n

structure Inv (D : Discipline key ω) (s : State key ω ι) : Prop where
  sound : ∀ i tx, s.txs i = some tx → tx.Sound D s.committed
  exclusive : ∀ i j tx tx', s.txs i = some tx → s.txs j = some tx' → i ≠ j →
    ∀ k ∈ tx.held, k ∉ tx'.held
  linked : ∀ k, Linked (s.committed.get? k) (changesOf key k s.history)
  legal : ∀ c ∈ s.history, D.recheck c.op c.before = true ∧ D.change c.op c.before = some c.after

theorem Tx.Sound.taken_nodup {committed : Table key} {tx : Tx ρ κ ω}
    (h : tx.Sound D committed) : (tx.taken.map key).Nodup :=
  h.plan_nodup.sublist ((List.sublist_append_left _ _).trans h.ordered)

/-- A transaction stays sound while the rows it has taken stay as they are. -/
theorem Tx.Sound.mono {committed committed' : Table key} {tx : Tx ρ κ ω}
    (h : tx.Sound D committed)
    (hsame : ∀ v ∈ tx.taken, committed'.get? (key v) = committed.get? (key v)) :
    tx.Sound D committed' where
  plan_nodup := h.plan_nodup
  ordered := h.ordered
  held := h.held
  current v hv := (hsame v hv).trans (h.current v hv)
  checked := h.checked
  within := h.within

/-- Replacing one transaction by a sound one whose locks are new or its own. -/
theorem Inv.update {s : State key ω ι} (h : Inv D s) {i : ι} {tx tx' : Tx ρ κ ω}
    (htx : s.txs i = some tx) (hsound : tx'.Sound D s.committed)
    (hheld : ∀ k ∈ tx'.held, k ∈ tx.held ∨ ¬ Discipline.HeldByOther s i k) :
    Inv D { s with txs := Function.update s.txs i (some tx') } where
  sound j u hu := by
    by_cases hj : j = i
    · subst hj
      obtain rfl : tx' = u := by simpa using hu
      exact hsound
    · exact h.sound j u (by simpa [hj] using hu)
  exclusive j j' u u' hu hu' hne k hk hk' := by
    by_cases hj : j = i
    · subst hj
      obtain rfl : tx' = u := by simpa using hu
      have hu' : s.txs j' = some u' := by simpa [Ne.symm hne] using hu'
      rcases hheld k hk with hold | hfree
      · exact h.exclusive j j' tx u' htx hu' hne k hold hk'
      · exact hfree ⟨j', u', Ne.symm hne, hu', hk'⟩
    · have hopen : s.txs j = some u := by simpa [hj] using hu
      by_cases hj' : j' = i
      · subst hj'
        obtain rfl : tx' = u' := by simpa using hu'
        rcases hheld k hk' with hold | hfree
        · exact h.exclusive j j' u tx hopen htx hne k hk hold
        · exact hfree ⟨j, u, hne, hopen, hk⟩
      · exact h.exclusive j j' u u' hopen (by simpa [hj'] using hu') hne k hk hk'
  linked := h.linked
  legal := h.legal

/-- Closing a transaction without a change. -/
theorem Inv.close {s : State key ω ι} (h : Inv D s) (i : ι) :
    Inv D { s with txs := Function.update s.txs i none } where
  sound j u hu := by
    by_cases hj : j = i
    · subst hj
      simp at hu
    · exact h.sound j u (by simpa [hj] using hu)
  exclusive j j' u u' hu hu' hne := by
    by_cases hj : j = i
    · subst hj
      simp at hu
    · by_cases hj' : j' = i
      · subst hj'
        simp at hu'
      · exact h.exclusive j j' u u' (by simpa [hj] using hu) (by simpa [hj'] using hu') hne
  linked := h.linked
  legal := h.legal

/-! ## What a commit does -/

/-- The committed table after a commit, row by row. -/
theorem get?_commit {committed : Table key} {tx : Tx ρ κ ω} (h : tx.Sound D committed) (k : κ) :
    (committed.update (D.rewrite tx.op tx.taken) (D.key_rewrite tx.op tx.taken)).get? k =
      (committed.get? k).map fun r =>
        if k ∈ tx.taken.map key then D.newVersion tx.op r else r := by
  rw [Table.get?_update]
  cases hget : committed.get? k with
  | none => rfl
  | some r =>
      have hkey := Table.key_of_get? hget
      simp only [Option.map_some, Option.some.injEq]
      unfold Discipline.rewrite
      by_cases hmem : k ∈ tx.taken.map key
      · rw [if_pos hmem]
        obtain ⟨v, hv, hvk⟩ := List.mem_map.mp hmem
        -- the version taken is the committed one
        have hsame : ∀ u ∈ tx.taken, key u = key r → u = r := by
          intro u hu huk
          have hcur := h.current u hu
          rw [huk, hkey, hget] at hcur
          exact (Option.some.inj hcur).symm
        cases hfind : tx.taken.find? (fun u => key u = key r) with
        | none =>
            exact absurd (decide_eq_true (hvk.trans hkey.symm))
              (List.find?_eq_none.mp hfind v hv)
        | some u =>
            have huk : key u = key r := by simpa using List.find?_some hfind
            rw [hsame u (List.mem_of_find?_eq_some hfind) huk]
      · rw [if_neg hmem]
        cases hfind : tx.taken.find? (fun u => key u = key r) with
        | none => rfl
        | some u =>
            have huk : key u = key r := by simpa using List.find?_some hfind
            exact absurd (List.mem_map.mpr ⟨u, List.mem_of_find?_eq_some hfind, huk.trans hkey⟩)
              hmem

omit [DecidableEq ι] in
theorem Inv.linked_commit {s : State key ω ι} (h : Inv D s) {tx : Tx ρ κ ω}
    (hsound : tx.Sound D s.committed) (k : κ) :
    Linked ((s.committed.update (D.rewrite tx.op tx.taken) (D.key_rewrite tx.op tx.taken)).get? k)
      (changesOf key k (D.changes tx.op tx.taken ++ s.history)) := by
  have hold := h.linked k
  rw [get?_commit hsound, changesOf, List.filter_append]
  by_cases hmem : k ∈ tx.taken.map key
  · obtain ⟨v, hv, rfl⟩ := List.mem_map.mp hmem
    have hnew : changesOf key (key v) (D.changes tx.op tx.taken) = _ :=
      changesOf_changes hsound.taken_nodup hv
    rw [changesOf] at hnew
    rw [hnew, hsound.current v hv] at *
    simp only [Option.map_some, if_pos hmem]
    cases hchange : D.change tx.op v with
    | none => simpa [Discipline.newVersion, hchange, changesOf] using hold
    | some r => exact ⟨by simp [Discipline.newVersion, hchange], hold⟩
  · have hnew : changesOf key k (D.changes tx.op tx.taken) = [] :=
      changesOf_changes_of_notMem hmem
    rw [changesOf] at hnew
    rw [hnew, List.nil_append]
    simpa [hmem, changesOf] using hold

theorem Inv.committed {s : State key ω ι} (h : Inv D s) {i : ι} {tx : Tx ρ κ ω}
    (htx : s.txs i = some tx) :
    Inv D ⟨s.committed.update (D.rewrite tx.op tx.taken) (D.key_rewrite tx.op tx.taken),
      Function.update s.txs i none, D.changes tx.op tx.taken ++ s.history⟩ where
  sound j u hu := by
    have hsound := h.sound i tx htx
    by_cases hj : j = i
    · subst hj
      simp at hu
    · have hu : s.txs j = some u := by simpa [hj] using hu
      apply (h.sound j u hu).mono
      intro v hv
      -- the row is locked by `j`, so `i` has not taken it
      have hfree : key v ∉ tx.taken.map key := by
        intro hmem
        obtain ⟨w, hw, hkey⟩ := List.mem_map.mp hmem
        exact h.exclusive j i u tx hu htx hj (key v) ((h.sound j u hu).held v hv)
          (hkey ▸ hsound.held w hw)
      rw [get?_commit hsound]
      simp only [hfree, if_false, Option.map_id']
  exclusive := (h.close i).exclusive
  linked k := h.linked_commit (h.sound i tx htx) k
  legal c hc := by
    rcases List.mem_append.mp hc with hc | hc
    · obtain ⟨v, hv, hcv⟩ := List.mem_filterMap.mp hc
      obtain ⟨r, hr, rfl⟩ := Option.map_eq_some_iff.mp hcv
      exact ⟨(h.sound i tx htx).checked v hv, hr⟩
    · exact h.legal c hc

/-! ## Every step keeps the invariant -/

omit [DecidableEq ι] in
/-- New rows, the old ones left alone. -/
theorem Inv.extended {s : State key ω ι} (h : Inv D s) {t : Table key}
    (ht : ∀ k r, s.committed.get? k = some r → t.get? k = some r) :
    Inv D { s with committed := t } where
  sound i tx htx := by
    apply (h.sound i tx htx).mono
    intro v hv
    have hcur := (h.sound i tx htx).current v hv
    rw [ht _ _ hcur, hcur]
  exclusive := h.exclusive
  linked k := by
    have hold := h.linked k
    show Linked (t.get? k) (changesOf key k s.history)
    cases hget : s.committed.get? k with
    | some r =>
        rw [ht _ _ hget, ← hget]
        exact hold
    | none =>
        rw [hget] at hold
        rw [hold.nil_of_none]
        trivial
  legal := h.legal

omit [DecidableEq ι] in
theorem Inv.inserted {s : State key ω ι} (h : Inv D s) {r : ρ} {t : Table key}
    (ht : s.committed.insert? r = some t) : Inv D { s with committed := t } := by
  refine h.extended fun k r' hr' => ?_
  rw [Table.get?_insert? ht, if_neg, hr']
  rintro rfl
  rw [Table.get?_eq_none_of_insert? ht] at hr'
  cases hr'

theorem Inv.begun {s : State key ω ι} (h : Inv D s) {i : ι} {op : ω} {plan : List κ}
    (hplan : D.plans op s.committed plan) :
    Inv D { s with txs := Function.update s.txs i (some ⟨op, plan, plan, [], []⟩) } where
  sound j u hu := by
    by_cases hj : j = i
    · subst hj
      obtain rfl : (⟨op, plan, plan, [], []⟩ : Tx ρ κ ω) = u := by simpa using hu
      exact ⟨D.plans_nodup hplan, by simp, by simp, by simp, by simp, by simp⟩
    · exact h.sound j u (by simpa [hj] using hu)
  exclusive j j' u u' hu hu' hne k hk hk' := by
    by_cases hj : j = i
    · subst hj
      obtain rfl : (⟨op, plan, plan, [], []⟩ : Tx ρ κ ω) = u := by simpa using hu
      cases hk
    · by_cases hj' : j' = i
      · subst hj'
        obtain rfl : (⟨op, plan, plan, [], []⟩ : Tx ρ κ ω) = u' := by simpa using hu'
        cases hk'
      · exact h.exclusive j j' u u' (by simpa [hj] using hu) (by simpa [hj'] using hu') hne k hk hk'
  linked := h.linked
  legal := h.legal

/-- Passing over the next candidate. -/
theorem Tx.Sound.pass {committed : Table key} {tx : Tx ρ κ ω} (h : tx.Sound D committed) {k : κ}
    {rest held : List κ} (htodo : tx.todo = k :: rest) (hheld : tx.held ⊆ held) :
    Tx.Sound D committed { tx with todo := rest, held := held } where
  plan_nodup := h.plan_nodup
  ordered := by
    refine List.Sublist.trans ?_ (htodo ▸ h.ordered)
    exact (List.sublist_cons_self k rest).append_left _
  held v hv := hheld (h.held v hv)
  current := h.current
  checked := h.checked
  within := h.within

/-- Taking the next candidate. -/
theorem Tx.Sound.took {committed : Table key} {tx : Tx ρ κ ω} (h : tx.Sound D committed) {k : κ}
    {rest : List κ} {v : ρ} (htodo : tx.todo = k :: rest) (hroom : D.Room tx)
    (hget : committed.get? k = some v) (hcheck : D.recheck tx.op v = true) :
    Tx.Sound D committed
      { tx with todo := rest, held := k :: tx.held, taken := tx.taken ++ [v] } where
  plan_nodup := h.plan_nodup
  ordered := by
    have hkey := Table.key_of_get? hget
    have hord := h.ordered
    rw [htodo] at hord
    simpa [hkey] using hord
  held u hu := by
    rcases List.mem_append.mp hu with hu | hu
    · exact List.mem_cons_of_mem _ (h.held u hu)
    · obtain rfl := List.mem_singleton.mp hu
      rw [Table.key_of_get? hget]
      exact List.mem_cons_self
  current u hu := by
    rcases List.mem_append.mp hu with hu | hu
    · exact h.current u hu
    · obtain rfl := List.mem_singleton.mp hu
      rw [Table.key_of_get? hget]
      exact hget
  checked u hu := by
    rcases List.mem_append.mp hu with hu | hu
    · exact h.checked u hu
    · obtain rfl := List.mem_singleton.mp hu
      exact hcheck
  within n hn := by
    rw [List.length_append, List.length_singleton]
    exact hroom n hn

theorem Inv.step {s t : State key ω ι} {l : Label ρ ω ι} (h : Inv D s) (hstep : D.Step s l t) :
    Inv D t := by
  cases hstep with
  | insert _ ht => exact h.inserted ht
  | begin _ hplan => exact h.begun hplan
  | skip htx htodo _ _ =>
      exact h.update htx ((h.sound _ _ htx).pass htodo (List.Subset.refl _))
        fun k hk => Or.inl hk
  | take htx htodo hroom hfree hget hcheck =>
      apply h.update htx ((h.sound _ _ htx).took htodo hroom hget hcheck)
      intro k hk
      rcases List.mem_cons.mp hk with rfl | hk
      · exact Or.inr hfree
      · exact Or.inl hk
  | drop htx htodo hfree _ hheld =>
      refine h.update htx ((h.sound _ _ htx).pass htodo ?_) fun k hk => ?_
      · rcases hheld with rfl | rfl
        · exact List.Subset.refl _
        · exact List.subset_cons_self _ _
      · rcases hheld with rfl | rfl
        · exact Or.inl hk
        · rcases List.mem_cons.mp hk with rfl | hk
          · exact Or.inr hfree
          · exact Or.inl hk
  | commit htx _ => exact h.committed htx
  | abort _ => exact h.close _

theorem inv_of_reachable {s : State key ω ι} (h : (D.machine ι).Reachable s) : Inv D s := by
  induction h with
  | init h0 =>
      subst h0
      refine ⟨?_, ?_, fun _ => trivial, ?_⟩
      · intro i tx htx
        cases htx
      · intro i j tx tx' htx
        cases htx
      · intro c hc
        cases hc
  | step _ _ hstep ih => exact ih.step hstep

/-! ## What the invariant gives -/

/-- A row taken is the committed version and meets the condition, whatever has
been committed since it was locked. -/
theorem taken_current {s : State key ω ι} (h : (D.machine ι).Reachable s) {i : ι}
    {tx : Tx ρ κ ω} (htx : s.txs i = some tx) {v : ρ} (hv : v ∈ tx.taken) :
    s.committed.get? (key v) = some v ∧ D.recheck tx.op v = true :=
  ⟨((inv_of_reachable h).sound i tx htx).current v hv,
    ((inv_of_reachable h).sound i tx htx).checked v hv⟩

omit [DecidableEq ι] in
/-- The versions a commit leaves, and both ends of its changes, keep what every
legal change keeps. -/
theorem Tx.Sound.forall_newVersion {committed : Table key} {tx : Tx ρ κ ω}
    (h : tx.Sound D committed) {P : ρ → Prop} (hrows : ∀ r ∈ committed.rows, P r)
    (hchange : ∀ op r r', P r → D.recheck op r = true → D.change op r = some r' → P r') :
    (∀ v ∈ tx.taken, P v ∧ P (D.newVersion tx.op v)) ∧
      ∀ c ∈ D.changes tx.op tx.taken, P c.before ∧ P c.after := by
  have htaken : ∀ v ∈ tx.taken, P v := fun v hv => hrows v (Table.mem_of_get? (h.current v hv))
  constructor
  · intro v hv
    refine ⟨htaken v hv, ?_⟩
    unfold Discipline.newVersion
    cases hnew : D.change tx.op v with
    | none => exact htaken v hv
    | some r' => exact hchange tx.op v r' (htaken v hv) (h.checked v hv) hnew
  · intro c hc
    obtain ⟨v, hv, hcv⟩ := List.mem_filterMap.mp hc
    obtain ⟨r, hr, rfl⟩ := Option.map_eq_some_iff.mp hcv
    exact ⟨htaken v hv, hchange tx.op v r (htaken v hv) (h.checked v hv) hr⟩

/-- A condition on rows that insertion and every legal change establish holds
of every committed row, and of both ends of every change. -/
theorem forall_rows {s : State key ω ι} (h : (D.machine ι).Reachable s) {P : ρ → Prop}
    (hfresh : ∀ r, D.fresh r → P r)
    (hchange : ∀ op r r', P r → D.recheck op r = true → D.change op r = some r' → P r') :
    (∀ r ∈ s.committed.rows, P r) ∧ ∀ c ∈ s.history, P c.before ∧ P c.after := by
  induction h with
  | init h0 =>
      subst h0
      exact ⟨fun r hr => absurd hr List.not_mem_nil, fun c hc => absurd hc List.not_mem_nil⟩
  | @step s t l hs _ hstep ih =>
      obtain ⟨hrows, hhist⟩ := ih
      cases hstep with
      | insert hr ht =>
          refine ⟨fun r' hr' => ?_, hhist⟩
          rcases (Table.mem_insert? ht).mp hr' with hold | rfl
          · exact hrows r' hold
          · exact hfresh _ hr
      | @commit i tx htx _ =>
          obtain ⟨hnew, hchanges⟩ :=
            ((inv_of_reachable hs).sound i tx htx).forall_newVersion hrows hchange
          constructor
          · intro r' hr'
            obtain ⟨r, hr, rfl⟩ :=
              (@Table.mem_update _ _ _ s.committed _ (D.key_rewrite tx.op tx.taken) _).mp hr'
            unfold Discipline.rewrite
            split
            · rename_i v hfind
              exact (hnew v (List.mem_of_find?_eq_some hfind)).2
            · exact hrows r hr
          · intro c hc
            rcases List.mem_append.mp hc with hc | hc
            · exact hchanges c hc
            · exact hhist c hc
      | begin _ _ => exact ⟨hrows, hhist⟩
      | skip _ _ _ _ => exact ⟨hrows, hhist⟩
      | take _ _ _ _ _ _ => exact ⟨hrows, hhist⟩
      | drop _ _ _ _ _ => exact ⟨hrows, hhist⟩
      | abort _ => exact ⟨hrows, hhist⟩

/-- The changes of a row between two of its changes, as part of its chain. -/
theorem linked_between {s : State key ω ι} (h : (D.machine ι).Reachable s)
    {newer between older : List (Change ρ ω)} {c₂ c₁ : Change ρ ω}
    (hsplit : s.history = newer ++ c₂ :: between ++ c₁ :: older)
    (hkey : key c₂.before = key c₁.before) :
    ∃ newer' older', Linked (s.committed.get? (key c₁.before))
      (newer' ++ c₂ :: (changesOf key (key c₁.before) between ++ c₁ :: older')) := by
  have hlinked := (inv_of_reachable h).linked (key c₁.before)
  have hlist : changesOf key (key c₁.before) s.history =
      changesOf key (key c₁.before) newer ++ c₂ ::
        (changesOf key (key c₁.before) between ++ c₁ :: changesOf key (key c₁.before) older) := by
    unfold changesOf
    rw [hsplit]
    simp [hkey]
  rw [hlist] at hlinked
  exact ⟨_, _, hlinked⟩

/-- Reading a list's members off a longer list of keys. -/
theorem filterMap_eq_of_sublist {taken : List ρ} {plan : List κ} {f : κ → Option ρ}
    (hsub : (taken.map key).Sublist plan) (hnodup : plan.Nodup)
    (hsome : ∀ v ∈ taken, f (key v) = some v)
    (hnone : ∀ k ∈ plan, k ∉ taken.map key → f k = none) : plan.filterMap f = taken := by
  induction plan generalizing taken with
  | nil =>
      have hnil : taken.map key = [] := List.eq_nil_of_sublist_nil hsub
      rw [List.map_eq_nil_iff.mp hnil, List.filterMap_nil]
  | cons k ks ih =>
      rw [List.nodup_cons] at hnodup
      by_cases hk : k ∈ taken.map key
      · cases taken with
        | nil => cases hk
        | cons v vs =>
            have hkey : key v = k := by
              rcases List.sublist_cons_iff.mp hsub with hrest | ⟨rest, heq, _⟩
              · exact absurd (hrest.subset hk) hnodup.1
              · exact (List.cons.inj heq).1
            subst hkey
            have hrest : (vs.map key).Sublist ks := List.cons_sublist_cons.mp hsub
            rw [List.filterMap_cons_some (hsome v List.mem_cons_self)]
            refine congrArg _ (ih hrest hnodup.2
              (fun u hu => hsome u (List.mem_cons_of_mem _ hu)) fun k' hk' hnot => ?_)
            apply hnone k' (List.mem_cons_of_mem _ hk')
            intro hmem
            rcases List.mem_cons.mp hmem with rfl | hmem
            · exact hnodup.1 hk'
            · exact hnot hmem
      · rw [List.filterMap_cons_none (hnone k List.mem_cons_self hk)]
        refine ih ?_ hnodup.2 hsome fun k' hk' => hnone k' (List.mem_cons_of_mem _ hk')
        rcases List.sublist_cons_iff.mp hsub with hrest | ⟨rest, heq, _⟩
        · exact hrest
        · exact absurd (heq ▸ List.mem_cons_self) hk

/-- The rows taken, read off the plan: the candidates among them, at their
committed versions. -/
theorem Tx.Sound.taken_eq_lockRows {committed : Table key} {tx : Tx ρ κ ω}
    (hsound : tx.Sound D committed) :
    committed.lockRows (fun k => decide (k ∉ tx.taken.map key)) (D.recheck tx.op)
      (D.limit tx.op) tx.plan = tx.taken := by
  have hfound : tx.plan.filterMap (fun k => if decide (k ∉ tx.taken.map key) then none
      else (committed.get? k).filter (D.recheck tx.op)) = tx.taken := by
    apply filterMap_eq_of_sublist ((List.sublist_append_left _ _).trans hsound.ordered)
      hsound.plan_nodup
    · intro v hv
      have hmem : key v ∈ tx.taken.map key := List.mem_map.mpr ⟨v, hv, rfl⟩
      simp only [hmem, not_true_eq_false, decide_false, Bool.false_eq_true, if_false]
      rw [hsound.current v hv, Option.filter_some, if_pos (hsound.checked v hv)]
    · intro k _ hk
      simp only [hk, not_false_iff, decide_true, if_true]
  unfold Table.lockRows
  rw [hfound]
  cases hlimit : D.limit tx.op with
  | none => rfl
  | some n => exact List.take_of_length_le (hsound.within n hlimit)

/-! ## A transaction that meets no other -/

/-- With no other transaction open the candidates are locked in turn, up to the
limit. -/
theorem exists_scanned {s : State key ω ι} (hidle : ∀ j, s.txs j = none) {i : ι} {todo : List κ} :
    ∀ {tx : Tx ρ κ ω},
      (D.machine ι).Reachable { s with txs := Function.update s.txs i (some tx) } →
      tx.todo = todo → ∃ tx',
        (D.machine ι).Reachable { s with txs := Function.update s.txs i (some tx') } ∧
        tx'.op = tx.op ∧ (tx'.todo = [] ∨ ¬ D.Room tx') ∧
        tx'.taken = tx.taken ++ s.committed.lockRows (fun _ => false) (D.recheck tx.op)
          ((D.limit tx.op).map (· - tx.taken.length)) todo := by
  induction todo with
  | nil =>
      intro tx htx htodo
      refine ⟨tx, htx, rfl, Or.inl htodo, ?_⟩
      rw [Table.lockRows_nil, List.append_nil]
  | cons k rest ih =>
      intro tx htx htodo
      have hfree : ∀ u, ¬ Discipline.HeldByOther
          { s with txs := Function.update s.txs i (some u) } i k := by
        rintro u ⟨j, u', hj, hu', _⟩
        simp [hj, hidle] at hu'
      by_cases hroom : D.Room tx
      · cases hget : (s.committed.get? k).filter (D.recheck tx.op) with
        | some v =>
            obtain ⟨hv, hcheck⟩ := Option.filter_eq_some_iff.mp hget
            have hstep := Machine.ReachableBy.step htx trivial
              (Discipline.Step.take (by simp) htodo hroom (hfree tx) hv hcheck)
            rw [Function.update_idem] at hstep
            obtain ⟨tx', htx', hop, hdone, htaken⟩ := ih hstep rfl
            refine ⟨tx', htx', hop, hdone, ?_⟩
            rw [htaken, Table.lockRows_cons_of_some rfl hget]
            · simp [Function.comp_def, Nat.sub_sub]
            · intro n hn
              obtain ⟨m, hm, rfl⟩ := Option.map_eq_some_iff.mp hn
              exact Nat.sub_pos_of_lt (hroom m hm)
        | none =>
            have hfail : ∀ v, s.committed.get? k = some v → D.recheck tx.op v = false := by
              intro v hv
              rw [hv, Option.filter_eq_none_iff] at hget
              simpa using hget v rfl
            have hstep := Machine.ReachableBy.step htx trivial
              (Discipline.Step.drop (by simp) htodo (hfree tx) hfail (Or.inl rfl))
            rw [Function.update_idem] at hstep
            obtain ⟨tx', htx', hop, hdone, htaken⟩ := ih hstep rfl
            refine ⟨tx', htx', hop, hdone, ?_⟩
            rw [htaken, Table.lockRows_cons_of_none hget]
      · -- the limit is reached: the rest is not looked at
        obtain ⟨n, hn, hfull⟩ : ∃ n, D.limit tx.op = some n ∧ n ≤ tx.taken.length := by
          simpa [Discipline.Room] using hroom
        refine ⟨tx, htx, rfl, Or.inr hroom, ?_⟩
        rw [hn, Option.map_some, Nat.sub_eq_zero_of_le hfull, Table.lockRows_zero, List.append_nil]

/-- Such a transaction commits the rows it locks. -/
theorem reachable_alone {s : State key ω ι} (h : (D.machine ι).Reachable s)
    (hidle : ∀ j, s.txs j = none) (i : ι) {op : ω} {plan : List κ}
    (hplan : D.plans op s.committed plan) {taken : List ρ}
    (htaken : s.committed.lockRows (fun _ => false) (D.recheck op) (D.limit op) plan = taken) :
    (D.machine ι).Reachable ⟨s.committed.update (D.rewrite op taken) (D.key_rewrite op taken),
      s.txs, D.changes op taken ++ s.history⟩ := by
  obtain ⟨tx, htx, hop, hdone, hscan⟩ :=
    exists_scanned hidle (.step h trivial (Discipline.Step.begin (hidle i) hplan)) rfl
  have hrows : tx.taken = taken := by
    rw [hscan, ← htaken]
    cases D.limit op <;> simp
  have hopen : Function.update s.txs i (some tx) i = some tx := Function.update_self ..
  have hstep := Machine.ReachableBy.step htx trivial (Discipline.Step.commit hopen hdone)
  have htxs : Function.update (Function.update s.txs i (some tx)) i none = s.txs := by
    rw [Function.update_idem, ← hidle i, Function.update_eq_self]
  obtain rfl : tx.op = op := hop
  subst hrows
  rw [← htxs]
  exact hstep

end RowLocks
