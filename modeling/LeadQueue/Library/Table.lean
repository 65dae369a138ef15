import Mathlib.Data.List.Nodup
import Mathlib.Data.List.Perm.Basic

/-!
# Keyed tables

A relation with a unique key, as a list of rows no two of which share a key.
The operations are the ones an SQL program uses: look a row up by key, update
every row, insert with a conflict rule, and read rows through row locks. Every
operation has one lookup lemma, and later proofs use only those.
-/

namespace Relational

/-- Rows with pairwise distinct keys. Row order carries no meaning. -/
structure Table {ρ κ : Type*} (key : ρ → κ) where
  rows : List ρ
  nodup : (rows.map key).Nodup

namespace Table

variable {ρ κ : Type*} {key : ρ → κ}

def empty : Table key := ⟨[], List.nodup_nil⟩

instance : Inhabited (Table key) := ⟨empty⟩

/-- Apply a key-preserving change to every row: `UPDATE ... SET`. A `WHERE` is
a change that leaves the other rows alone. -/
def update (t : Table key) (f : ρ → ρ) (hf : ∀ r, key (f r) = key r) : Table key where
  rows := t.rows.map f
  nodup := by simpa [List.map_map, Function.comp_def, hf] using t.nodup

theorem mem_update {t : Table key} {f : ρ → ρ} {hf : ∀ r, key (f r) = key r} {r : ρ} :
    r ∈ (t.update f hf).rows ↔ ∃ r₀ ∈ t.rows, f r₀ = r := by
  simp [update]

/-- Two rows of one table with the same key are the same row. -/
theorem eq_of_key_eq {t : Table key} {r r' : ρ} (h : r ∈ t.rows) (h' : r' ∈ t.rows)
    (hk : key r = key r') : r = r' :=
  List.inj_on_of_nodup_map t.nodup h h' hk

theorem update_eq_self {t : Table key} {f : ρ → ρ} {hf : ∀ r, key (f r) = key r}
    (h : ∀ r ∈ t.rows, f r = r) : t.update f hf = t := by
  have hrows : t.rows.map f = t.rows := by
    rw [List.map_congr_left h, List.map_id']
  obtain ⟨rows, hnodup⟩ := t
  simp only [update, hrows]

variable [DecidableEq κ]

/-- Lookup by key. -/
def get? (t : Table key) (k : κ) : Option ρ := t.rows.find? (fun r => key r = k)

@[simp] theorem get?_empty (k : κ) : (empty : Table key).get? k = none := rfl

theorem get?_eq_some_iff {t : Table key} {k : κ} {r : ρ} :
    t.get? k = some r ↔ r ∈ t.rows ∧ key r = k := by
  constructor
  · intro h
    exact ⟨List.mem_of_find?_eq_some h, by simpa using List.find?_some h⟩
  · rintro ⟨hr, hk⟩
    have hsome : (t.get? k).isSome := by
      rw [get?, List.find?_isSome]
      exact ⟨r, hr, by simpa using hk⟩
    obtain ⟨r', h'⟩ := Option.isSome_iff_exists.mp hsome
    have hr' := List.mem_of_find?_eq_some h'
    have hk' : key r' = k := by simpa using List.find?_some h'
    rw [h', eq_of_key_eq hr' hr (hk'.trans hk.symm)]

theorem key_of_get? {t : Table key} {k : κ} {r : ρ} (h : t.get? k = some r) : key r = k :=
  (get?_eq_some_iff.mp h).2

theorem mem_of_get? {t : Table key} {k : κ} {r : ρ} (h : t.get? k = some r) : r ∈ t.rows :=
  (get?_eq_some_iff.mp h).1

theorem get?_of_mem {t : Table key} {r : ρ} (h : r ∈ t.rows) : t.get? (key r) = some r :=
  get?_eq_some_iff.mpr ⟨h, rfl⟩

theorem get?_eq_none_iff {t : Table key} {k : κ} :
    t.get? k = none ↔ ∀ r ∈ t.rows, key r ≠ k := by
  simp [get?, List.find?_eq_none]

@[simp] theorem get?_update (t : Table key) (f : ρ → ρ) (hf : ∀ r, key (f r) = key r) (k : κ) :
    (t.update f hf).get? k = (t.get? k).map f := by
  simp only [get?, update, List.find?_map]
  congr 2
  funext r
  simp [hf]

/-- Two updates that leave the same row under every key are one update. -/
theorem update_eq_of_get? {t : Table key} {f g : ρ → ρ} {hf : ∀ r, key (f r) = key r}
    {hg : ∀ r, key (g r) = key r} (h : ∀ k, (t.update f hf).get? k = (t.update g hg).get? k) :
    t.update f hf = t.update g hg := by
  have hrows : t.rows.map f = t.rows.map g := by
    apply List.map_congr_left
    intro r hr
    have hrow := h (key r)
    rw [get?_update, get?_update, get?_of_mem hr] at hrow
    exact Option.some.inj hrow
  simp only [update, hrows]

/-- Append a row whose key is new; `none` is a violation of the key. -/
def insert? (t : Table key) (r : ρ) : Option (Table key) :=
  if h : key r ∈ t.rows.map key then none
  else
    some ⟨t.rows ++ [r], by
      rw [List.map_append, List.map_singleton]
      exact t.nodup.append (List.nodup_singleton _)
        (by simpa [List.disjoint_singleton] using h)⟩

theorem exists_insert? {t : Table key} {r : ρ} (h : t.get? (key r) = none) :
    ∃ t', t.insert? r = some t' := by
  have hnew : ¬ key r ∈ t.rows.map key := by
    intro hmem
    obtain ⟨r', hr', heq⟩ := List.mem_map.mp hmem
    exact get?_eq_none_iff.mp h r' hr' heq
  exact ⟨_, dif_neg hnew⟩

theorem get?_insert? {t t' : Table key} {r : ρ} (h : t.insert? r = some t') (k : κ) :
    t'.get? k = if k = key r then some r else t.get? k := by
  unfold insert? at h
  split at h
  · cases h
  · rename_i hnew
    cases h
    have hnone : t.get? (key r) = none := get?_eq_none_iff.mpr
      (fun r' hr' heq => hnew (List.mem_map.mpr ⟨r', hr', heq⟩))
    simp only [get?, List.find?_append] at hnone ⊢
    by_cases hk : k = key r
    · subst hk
      simp [hnone]
    · simp [hk, Ne.symm hk]

theorem get?_eq_none_of_insert? {t t' : Table key} {r : ρ} (h : t.insert? r = some t') :
    t.get? (key r) = none := by
  unfold insert? at h
  split at h
  · cases h
  · rename_i hnew
    exact get?_eq_none_iff.mpr (fun r' hr' heq => hnew (List.mem_map.mpr ⟨r', hr', heq⟩))

theorem mem_insert? {t t' : Table key} {r r' : ρ} (h : t.insert? r = some t') :
    r' ∈ t'.rows ↔ r' ∈ t.rows ∨ r' = r := by
  unfold insert? at h
  split at h
  · cases h
  · cases h
    simp

theorem rows_insert? {t t' : Table key} {r : ρ} (h : t.insert? r = some t') :
    t'.rows = t.rows ++ [r] := by
  unfold insert? at h
  split at h
  · cases h
  · cases h
    rfl

/-- Two tables in which the same keys have a row that satisfies `p` have the
same number of such rows. -/
theorem countP_eq_of_get? {t t' : Table key} {p : ρ → Bool}
    (h : ∀ k, (∃ r, t.get? k = some r ∧ p r = true) ↔ ∃ r, t'.get? k = some r ∧ p r = true) :
    t.rows.countP p = t'.rows.countP p := by
  have hmem : ∀ (u : Table key) k, k ∈ (u.rows.filter p).map key ↔
      ∃ r, u.get? k = some r ∧ p r = true := by
    intro u k
    simp only [List.mem_map, List.mem_filter, get?_eq_some_iff]
    constructor
    · rintro ⟨r, ⟨hr, hp⟩, hk⟩
      exact ⟨r, ⟨hr, hk⟩, hp⟩
    · rintro ⟨r, ⟨hr, hk⟩, hp⟩
      exact ⟨r, ⟨hr, hp⟩, hk⟩
  have hnodup : ∀ u : Table key, ((u.rows.filter p).map key).Nodup := fun u =>
    u.nodup.sublist (List.filter_sublist.map _)
  have hperm : ((t.rows.filter p).map key).Perm ((t'.rows.filter p).map key) := by
    rw [List.perm_ext_iff_of_nodup (hnodup t) (hnodup t')]
    intro k
    rw [hmem, hmem, h]
  simpa [List.countP_eq_length_filter] using hperm.length_eq

/-- `INSERT ... ON CONFLICT (key) DO UPDATE`: append the row when its key is
new, otherwise let `resolve` rewrite the row that holds the key. `DO NOTHING`
is `resolve := id`. -/
def insertOnConflict (t : Table key) (r : ρ) (resolve : ρ → ρ)
    (hr : ∀ old, key (resolve old) = key old) : Table key :=
  match t.insert? r with
  | some t' => t'
  | none =>
      t.update (fun old => if key old = key r then resolve old else old)
        (by intro old; split <;> simp [hr])

theorem get?_insertOnConflict (t : Table key) (r : ρ) (resolve : ρ → ρ)
    (hr : ∀ old, key (resolve old) = key old) (k : κ) :
    (t.insertOnConflict r resolve hr).get? k =
      if k = key r then some (((t.get? k).map resolve).getD r) else t.get? k := by
  unfold insertOnConflict
  cases hins : t.insert? r with
  | some t' =>
      dsimp only
      rw [get?_insert? hins]
      by_cases hk : k = key r
      · subst hk
        simp [get?_eq_none_of_insert? hins]
      · simp [hk]
  | none =>
      dsimp only
      rw [get?_update]
      have hmem : key r ∈ t.rows.map key := by
        unfold insert? at hins
        split at hins
        · assumption
        · cases hins
      obtain ⟨old, hold, hkey⟩ := List.mem_map.mp hmem
      have hget : t.get? (key r) = some old := get?_eq_some_iff.mpr ⟨hold, hkey⟩
      by_cases hk : k = key r
      · subst hk
        simp [hget, hkey]
      · rw [if_neg hk]
        cases hg : t.get? k with
        | none => rfl
        | some r' =>
            have hne : key r' ≠ key r := by rw [key_of_get? hg]; exact hk
            simp [hne]

/-- Store a row under its key, whatever stands there. -/
def put (t : Table key) (r : ρ) : Table key :=
  t.insertOnConflict r (fun old => if key old = key r then r else old)
    (by intro old; split <;> simp_all)

@[simp] theorem get?_put (t : Table key) (r : ρ) (k : κ) :
    (t.put r).get? k = if k = key r then some r else t.get? k := by
  rw [put, get?_insertOnConflict]
  by_cases hk : k = key r
  · subst hk
    cases hget : t.get? (key r) with
    | none => simp
    | some old => simp [key_of_get? hget]
  · simp [hk]

def putAll (t : Table key) (rs : List ρ) : Table key := rs.foldl put t

@[simp] theorem putAll_nil (t : Table key) : t.putAll [] = t := rfl

theorem get?_putAll_of_notMem {t : Table key} {rs : List ρ} {k : κ} (hk : k ∉ rs.map key) :
    (t.putAll rs).get? k = t.get? k := by
  induction rs generalizing t with
  | nil => rfl
  | cons r rs ih =>
      rw [List.map_cons, List.mem_cons, not_or] at hk
      show ((t.put r).putAll rs).get? k = _
      rw [ih hk.2, get?_put, if_neg hk.1]

theorem get?_putAll {t : Table key} {rs : List ρ} {r : ρ} (hr : r ∈ rs)
    (huniq : ∀ r' ∈ rs, key r' = key r → r' = r) : (t.putAll rs).get? (key r) = some r := by
  induction rs generalizing t with
  | nil => cases hr
  | cons r' rs ih =>
      show ((t.put r').putAll rs).get? (key r) = _
      by_cases hlater : r ∈ rs
      · exact ih hlater fun u hu => huniq u (List.mem_cons_of_mem _ hu)
      · obtain rfl : r = r' := (List.mem_cons.mp hr).resolve_right hlater
        rw [get?_putAll_of_notMem, get?_put, if_pos rfl]
        intro hmem
        obtain ⟨u, hu, hkey⟩ := List.mem_map.mp hmem
        exact hlater (huniq u (List.mem_cons_of_mem _ hu) hkey ▸ hu)

/-- Storing the rows whose keys are new is inserting them all with the others
ignored. -/
theorem get?_putAll_new {t : Table key} {rs : List ρ}
    (huniq : ∀ r ∈ rs, ∀ r' ∈ rs, key r' = key r → r' = r) (k : κ) :
    (t.putAll (rs.filter fun r => (t.get? (key r)).isNone)).get? k =
      (t.get? k).or (rs.find? fun r => key r = k) := by
  cases hget : t.get? k with
  | some old =>
      rw [get?_putAll_of_notMem, hget, Option.some_or]
      intro hmem
      obtain ⟨r, hr, rfl⟩ := List.mem_map.mp hmem
      have hnone := List.of_mem_filter hr
      rw [hget] at hnone
      cases hnone
  | none =>
      rw [Option.none_or]
      cases hfind : rs.find? (fun r => key r = k) with
      | none =>
          rw [get?_putAll_of_notMem, hget]
          intro hmem
          obtain ⟨r, hr, hkey⟩ := List.mem_map.mp hmem
          exact List.find?_eq_none.mp hfind r (List.mem_of_mem_filter hr) (decide_eq_true hkey)
      | some r =>
          have hkey : key r = k := by simpa using List.find?_some hfind
          have hmem := List.mem_of_find?_eq_some hfind
          subst hkey
          apply get?_putAll
          · exact List.mem_filter.mpr ⟨hmem, by rw [hget]; rfl⟩
          · exact fun r' hr' => huniq r hmem r' (List.mem_of_mem_filter hr')

/-- `INSERT ... ON CONFLICT DO NOTHING`. -/
def insertIgnore (t : Table key) (r : ρ) : Table key :=
  t.insertOnConflict r id (fun _ => rfl)

theorem get?_insertIgnore (t : Table key) (r : ρ) (k : κ) :
    (t.insertIgnore r).get? k = (t.get? k).or (if k = key r then some r else none) := by
  rw [insertIgnore, get?_insertOnConflict]
  by_cases hk : k = key r
  · subst hk
    cases t.get? (key r) <;> simp
  · simp [hk]

/-- Insert several rows, each ignored when its key is already there. -/
def insertAllIgnore (t : Table key) (rs : List ρ) : Table key := rs.foldl insertIgnore t

@[simp] theorem insertAllIgnore_nil (t : Table key) : t.insertAllIgnore [] = t := rfl

theorem get?_insertAllIgnore (t : Table key) (rs : List ρ) (k : κ) :
    (t.insertAllIgnore rs).get? k = (t.get? k).or (rs.find? (fun r => key r = k)) := by
  induction rs generalizing t with
  | nil => simp
  | cons r rs ih =>
      show ((t.insertIgnore r).insertAllIgnore rs).get? k = _
      rw [ih, get?_insertIgnore, List.find?_cons]
      by_cases hk : k = key r
      · simp [hk]
      · simp [hk, Ne.symm hk]

/-- `FOR UPDATE SKIP LOCKED` below a `LIMIT`: walk the candidates in order,
skip the ones another transaction holds, re-check the condition on the latest
version of the others, stop after `limit` rows (`none` is no limit). -/
def lockRows (latest : Table key) (locked : κ → Bool) (recheck : ρ → Bool)
    (limit : Option ℕ) (candidates : List κ) : List ρ :=
  let found := candidates.filterMap fun k =>
    if locked k then none else (latest.get? k).filter recheck
  match limit with
  | none => found
  | some n => found.take n

/-- An unlocked candidate that passes the re-check is taken while there is room. -/
theorem lockRows_cons_of_some {latest : Table key} {locked : κ → Bool} {recheck : ρ → Bool}
    {limit : Option ℕ} {k : κ} {rest : List κ} {r : ρ} (hfree : locked k = false)
    (hget : (latest.get? k).filter recheck = some r) (hroom : ∀ n ∈ limit, 0 < n) :
    latest.lockRows locked recheck limit (k :: rest) =
      r :: latest.lockRows locked recheck (limit.map (· - 1)) rest := by
  unfold lockRows
  cases limit with
  | none => simp [hfree, hget]
  | some n =>
      cases n with
      | zero => exact absurd (hroom 0 rfl) (Nat.lt_irrefl 0)
      | succ m => simp [hfree, hget]

theorem lockRows_cons_of_none {latest : Table key} {locked : κ → Bool} {recheck : ρ → Bool}
    {limit : Option ℕ} {k : κ} {rest : List κ} (hget : (latest.get? k).filter recheck = none) :
    latest.lockRows locked recheck limit (k :: rest) =
      latest.lockRows locked recheck limit rest := by
  unfold lockRows
  cases limit <;> simp [hget]

theorem lockRows_nil {latest : Table key} {locked : κ → Bool} {recheck : ρ → Bool}
    {limit : Option ℕ} : latest.lockRows locked recheck limit [] = [] := by
  cases limit <;> simp [lockRows]

theorem lockRows_zero {latest : Table key} {locked : κ → Bool} {recheck : ρ → Bool}
    {candidates : List κ} : latest.lockRows locked recheck (some 0) candidates = [] := rfl

/-- Candidates that have not changed are handed out unless they are locked. -/
theorem lockRows_of_current {latest : Table key} {locked : κ → Bool} {recheck : ρ → Bool}
    {rows : List ρ} (h : ∀ r ∈ rows, latest.get? (key r) = some r ∧ recheck r = true) :
    latest.lockRows locked recheck none (rows.map key) =
      rows.filter fun r => !locked (key r) := by
  unfold lockRows
  dsimp only
  induction rows with
  | nil => rfl
  | cons r rest ih =>
      have hget : (latest.get? (key r)).filter recheck = some r :=
        Option.filter_eq_some_iff.mpr (h r List.mem_cons_self)
      rw [List.map_cons, List.filterMap_cons, List.filter_cons,
        ih fun r' hr' => h r' (List.mem_cons_of_mem _ hr'), hget]
      cases locked (key r) <;> rfl

theorem lockRows_some (latest : Table key) (locked : κ → Bool) (recheck : ρ → Bool) (n : ℕ)
    (candidates : List κ) : latest.lockRows locked recheck (some n) candidates =
      (latest.lockRows locked recheck none candidates).take n := rfl

theorem lockRows_subset_found {latest : Table key} {locked : κ → Bool} {recheck : ρ → Bool}
    {limit : Option ℕ} {candidates : List κ} {r : ρ}
    (h : r ∈ latest.lockRows locked recheck limit candidates) :
    r ∈ candidates.filterMap fun k =>
      if locked k then none else (latest.get? k).filter recheck := by
  unfold lockRows at h
  cases limit with
  | none => exact h
  | some n => exact List.mem_of_mem_take h

/-- Every row handed out is the latest version of an unlocked candidate and
passes the re-check. -/
theorem mem_lockRows {latest : Table key} {locked : κ → Bool} {recheck : ρ → Bool}
    {limit : Option ℕ} {candidates : List κ} {r : ρ}
    (h : r ∈ latest.lockRows locked recheck limit candidates) :
    latest.get? (key r) = some r ∧ key r ∈ candidates ∧ locked (key r) = false ∧
      recheck r = true := by
  obtain ⟨k, hk, hf⟩ := List.mem_filterMap.mp (lockRows_subset_found h)
  split at hf
  · cases hf
  · rename_i hl
    obtain ⟨hget, hre⟩ := Option.filter_eq_some_iff.mp hf
    have hkey := key_of_get? hget
    subst hkey
    exact ⟨hget, hk, by simpa using hl, hre⟩

/-- Only the latest versions of the candidates are re-checked. -/
theorem lockRows_congr {latest : Table key} {locked : κ → Bool} {recheck recheck' : ρ → Bool}
    {limit : Option ℕ} {candidates : List κ}
    (h : ∀ k ∈ candidates, ∀ r, latest.get? k = some r → recheck r = recheck' r) :
    latest.lockRows locked recheck limit candidates =
      latest.lockRows locked recheck' limit candidates := by
  have hfound : candidates.filterMap (fun k => if locked k then none
      else (latest.get? k).filter recheck) = candidates.filterMap fun k =>
        if locked k then none else (latest.get? k).filter recheck' := by
    apply List.filterMap_congr
    intro k hk
    cases hget : latest.get? k with
    | none => rfl
    | some r => rw [Option.filter_some, Option.filter_some, h k hk r hget]
  unfold lockRows
  rw [hfound]

/-- The keys handed out appear in the order of the candidates. -/
theorem lockRows_keys_sublist (latest : Table key) (locked : κ → Bool) (recheck : ρ → Bool)
    (limit : Option ℕ) (candidates : List κ) :
    ((latest.lockRows locked recheck limit candidates).map key).Sublist candidates := by
  have hfound : ((candidates.filterMap fun k =>
      if locked k then none else (latest.get? k).filter recheck).map key).Sublist candidates := by
    induction candidates with
    | nil => exact List.Sublist.refl _
    | cons k ks ih =>
        rw [List.filterMap_cons]
        split
        · exact ih.cons k
        · rename_i r hr
          split at hr
          · cases hr
          · have hkey := key_of_get? (Option.filter_eq_some_iff.mp hr).1
            rw [List.map_cons, hkey]
            exact ih.cons_cons k
  unfold lockRows
  cases limit with
  | none => exact hfound
  | some n => exact ((List.take_sublist _ _).map key).trans hfound

end Table

/-! ## Joins -/

/-- An inner join on a key of the other table repeats no row. -/
theorem join_sublist {ρ σ τ : Type*} (f : ρ → Option σ) (pair : ρ → σ → τ) (left : τ → ρ)
    (hleft : ∀ r s, left (pair r s) = r) (rows : List ρ) :
    ((rows.filterMap fun r => (f r).map (pair r)).map left).Sublist rows := by
  induction rows with
  | nil => exact List.Sublist.refl _
  | cons r rs ih =>
      rw [List.filterMap_cons]
      cases f r with
      | none => exact ih.cons r
      | some s =>
          show (left (pair r s) :: _).Sublist (r :: rs)
          rw [hleft]
          exact ih.cons_cons r

end Relational
