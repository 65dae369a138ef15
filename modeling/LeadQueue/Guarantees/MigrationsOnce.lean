import LeadQueue.Migrations

/-!
# Each migration is applied once

Only the run that holds the lock writes, and it read `schema_migrations` after
it got the lock: a name is missing from what it read, and from what it applied,
exactly if the file is not applied. The transaction records the name along with
the SQL, so this stays true wherever the run stops.
-/

namespace LeadQueue

open Transition

variable {ι σ : Type} {dir : MigrationsDir σ} {schema₀ : σ}

/-! ## One pass over the files -/

/-- A run between two files. `names` are the files applied so far by anyone,
`own` those this run committed. -/
structure MigrationPass (dir : MigrationsDir σ) (names own : List PyStr)
    (todo : List (MigrationFile σ)) (done applied : List PyStr) : Prop where
  own_eq : own = applied
  mem_names : ∀ name, name ∈ names ↔ name ∈ done ∨ name ∈ applied
  split : ∃ before, dir.migrationFiles = before ++ todo ∧ (∀ f ∈ before, f.name ∈ names) ∧
    ∀ name ∈ applied, ∃ f ∈ before, f.name = name

namespace MigrationPass

variable {names own done applied : List PyStr} {todo : List (MigrationFile σ)}
  {f : MigrationFile σ}

theorem start (dir : MigrationsDir σ) (names : List PyStr) :
    MigrationPass dir names [] dir.migrationFiles names [] where
  own_eq := rfl
  mem_names name := by simp
  split := ⟨[], rfl, by simp, by simp⟩

theorem lt_of_mem (h : MigrationPass dir names own (f :: todo) done applied) :
    ∀ name ∈ applied, name < f.name := by
  obtain ⟨before, hfiles, _, happlied⟩ := h.split
  intro name hname
  obtain ⟨g, hg, rfl⟩ := happlied name hname
  have hsorted := dir.migrationFiles_sorted
  rw [hfiles, List.map_append, List.pairwise_append] at hsorted
  apply hsorted.2.2 g.name (List.mem_map_of_mem hg) f.name
  exact List.mem_map_of_mem List.mem_cons_self

/-- What the run read, together with what it did, decides what is applied. -/
theorem fresh (h : MigrationPass dir names own (f :: todo) done applied) (hdone : f.name ∉ done) :
    f.name ∉ names := by
  rw [h.mem_names]
  rintro (hmem | hmem)
  · exact hdone hmem
  · exact lt_irrefl _ (h.lt_of_mem f.name hmem)

theorem mem_files (h : MigrationPass dir names own (f :: todo) done applied) : f ∈ dir.files := by
  obtain ⟨before, hfiles, _⟩ := h.split
  rw [← MigrationsDir.mem_migrationFiles, hfiles]
  exact List.mem_append_right before List.mem_cons_self

theorem skip (h : MigrationPass dir names own (f :: todo) done applied) (hdone : f.name ∈ done) :
    MigrationPass dir names own todo done applied where
  own_eq := h.own_eq
  mem_names := h.mem_names
  split := by
    obtain ⟨before, hfiles, hbefore, happlied⟩ := h.split
    refine ⟨before ++ [f], by rw [hfiles]; simp, ?_, ?_⟩
    · intro g hg
      rcases List.mem_append.mp hg with hg | hg
      · exact hbefore g hg
      · rw [List.mem_singleton.mp hg, h.mem_names]
        exact .inl hdone
    · intro name hname
      obtain ⟨g, hg, heq⟩ := happlied name hname
      exact ⟨g, List.mem_append_left _ hg, heq⟩

theorem commit (h : MigrationPass dir names own (f :: todo) done applied) :
    MigrationPass dir (names ++ [f.name]) (own ++ [f.name]) todo done (applied ++ [f.name]) where
  own_eq := by rw [h.own_eq]
  mem_names name := by
    rw [List.mem_append, List.mem_append, h.mem_names name, or_assoc]
  split := by
    obtain ⟨before, hfiles, hbefore, happlied⟩ := h.split
    refine ⟨before ++ [f], by rw [hfiles]; simp, ?_, ?_⟩
    · intro g hg
      rcases List.mem_append.mp hg with hg | hg
      · exact List.mem_append_left _ (hbefore g hg)
      · rw [List.mem_singleton.mp hg]
        exact List.mem_append_right _ (List.mem_singleton_self _)
    · intro name hname
      rcases List.mem_append.mp hname with hname | hname
      · obtain ⟨g, hg, heq⟩ := happlied name hname
        exact ⟨g, List.mem_append_left _ hg, heq⟩
      · exact ⟨f, List.mem_append_right _ (List.mem_singleton_self f),
          (List.mem_singleton.mp hname).symm⟩

theorem complete (h : MigrationPass dir names own [] done applied) :
    ∀ f ∈ dir.files, f.name ∈ names := by
  obtain ⟨before, hfiles, hbefore, _⟩ := h.split
  rw [List.append_nil] at hfiles
  intro f hf
  rw [← MigrationsDir.mem_migrationFiles, hfiles] at hf
  exact hbefore f hf

end MigrationPass

/-! ## The invariant -/

/-- What the place of a run says, in a database with this schema to which
`names` are applied, about the files `own` it committed. -/
def MigrationRun.Coherent (dir : MigrationsDir σ) (schema : σ) (names own : List PyStr) :
    MigrationRun σ → Prop
  | .idle | .waiting | .locked | .created => own = []
  | .scanning todo done applied => MigrationPass dir names own todo done applied
  | .executed f todo done applied schema' | .inserted f todo done applied schema' =>
      MigrationPass dir names own (f :: todo) done applied ∧ f.name ∉ done ∧
        f.sql schema = some schema'
  | .unlocking applied raising =>
      own = applied ∧ (raising = false → ∀ f ∈ dir.files, f.name ∈ names)
  | .returned applied => own = applied ∧ ∀ f ∈ dir.files, f.name ∈ names
  | .raised | .crashed => True

/-- A run without the lock does not mind what others commit. -/
theorem MigrationRun.Coherent.of_not_critical {run : MigrationRun σ} {schema schema' : σ}
    {names own : List PyStr} (h : run.Coherent dir schema names own) (hout : ¬ run.Critical)
    (name : PyStr) : run.Coherent dir schema' (names ++ [name]) own := by
  cases run with
  | idle | waiting | raised | crashed => exact h
  | returned applied =>
      exact ⟨h.1, fun f hf => List.mem_append_left _ (h.2 f hf)⟩
  | locked | created | scanning | executed | inserted | unlocking => exact absurd trivial hout

/-- The exception leaves the files that are committed, and those only. -/
theorem MigrationRun.Coherent.own_eq {run : MigrationRun σ} {schema : σ}
    {names own applied : List PyStr} (h : run.Coherent dir schema names own)
    (htry : run.trying? = some applied) : own = applied := by
  cases run with
  | locked | created =>
      cases htry
      exact h
  | scanning todo done applied =>
      cases htry
      exact MigrationPass.own_eq h
  | executed f todo done applied schema | inserted f todo done applied schema =>
      cases htry
      exact h.1.own_eq
  | idle | waiting | unlocking | returned | raised | crashed => cases htry

theorem MigrationRun.critical_of_trying {run : MigrationRun σ} {applied : List PyStr}
    (htry : run.trying? = some applied) : run.Critical := by
  cases run with
  | locked | created | scanning | executed | inserted => trivial
  | idle | waiting | unlocking | returned | raised | crashed => cases htry

variable [DecidableEq ι]

namespace MigrationState

/-- The committed files, oldest first. -/
def committed (s : MigrationState ι σ) : List PyStr := s.history.map Prod.snd

/-- The files a run committed, oldest first. -/
def committedBy (s : MigrationState ι σ) (i : ι) : List PyStr :=
  (s.history.filter fun e => decide (e.1 = i)).map Prod.snd

structure Inv (dir : MigrationsDir σ) (schema₀ : σ) (s : MigrationState ι σ) : Prop where
  nodup : s.committed.Nodup
  recorded : s.recorded.getD [] = s.committed
  replay : dir.replay schema₀ s.committed = some s.schema
  holder : ∀ i, (s.runs i).Critical ↔ s.lock = some i
  sorted : ∀ i, (s.committedBy i).Pairwise (· < ·)
  coherent : ∀ i, (s.runs i).Coherent dir s.schema s.committed (s.committedBy i)

theorem mem_committedBy {s : MigrationState ι σ} {i : ι} {name : PyStr} :
    name ∈ s.committedBy i ↔ (i, name) ∈ s.history := by
  simp [committedBy]

theorem mem_committed {s : MigrationState ι σ} {name : PyStr} :
    name ∈ s.committed ↔ ∃ i, name ∈ s.committedBy i := by
  simp [committed, mem_committedBy]

theorem Inv.initial (dir : MigrationsDir σ) (schema : σ) :
    Inv dir schema (MigrationState.initial ι schema) where
  nodup := List.nodup_nil
  recorded := rfl
  replay := rfl
  holder i := ⟨fun h => h.elim, fun h => by cases h⟩
  sorted i := List.Pairwise.nil
  coherent i := rfl

variable {s : MigrationState ι σ} {i : ι}

theorem holder_update {run : MigrationRun σ} {lock : Option ι}
    (h : ∀ j, (s.runs j).Critical ↔ s.lock = some j) (hself : run.Critical ↔ lock = some i)
    (hother : ∀ j, j ≠ i → (s.lock = some j ↔ lock = some j)) (j : ι) :
    (Function.update s.runs i run j).Critical ↔ lock = some j := by
  rcases eq_or_ne j i with rfl | hji
  · rw [Function.update_self]
    exact hself
  · rw [Function.update_of_ne hji, h j]
    exact hother j hji

/-- A run that moves without committing anything. -/
theorem Inv.moved (h : s.Inv dir schema₀) (run : MigrationRun σ)
    (recorded : Option (List PyStr)) (lock : Option ι)
    (hrecorded : recorded.getD [] = s.recorded.getD []) (hself : run.Critical ↔ lock = some i)
    (hother : ∀ j, j ≠ i → (s.lock = some j ↔ lock = some j))
    (hrun : run.Coherent dir s.schema s.committed (s.committedBy i)) :
    Inv dir schema₀
      { s with recorded := recorded, lock := lock, runs := Function.update s.runs i run } where
  nodup := h.nodup
  recorded := hrecorded.trans h.recorded
  replay := h.replay
  holder := holder_update h.holder hself hother
  sorted := h.sorted
  coherent j := by
    show (Function.update s.runs i run j).Coherent dir s.schema s.committed (s.committedBy j)
    rcases eq_or_ne j i with rfl | hji
    · rw [Function.update_self]
      exact hrun
    · rw [Function.update_of_ne hji]
      exact h.coherent j

theorem Inv.coherent_of_eq {run : MigrationRun σ} (h : s.Inv dir schema₀) (hrun : s.runs i = run) :
    run.Coherent dir s.schema s.committed (s.committedBy i) := hrun ▸ h.coherent i

theorem Inv.lock_eq {run : MigrationRun σ} (h : s.Inv dir schema₀) (hrun : s.runs i = run)
    (hin : run.Critical) : s.lock = some i := (h.holder i).mp (hrun ▸ hin)

/-- A run that moves and keeps the lock, if it has it. -/
theorem Inv.set {before run : MigrationRun σ} (h : s.Inv dir schema₀) (hbefore : s.runs i = before)
    (hcritical : run.Critical ↔ before.Critical)
    (hrun : run.Coherent dir s.schema s.committed (s.committedBy i)) :
    (s.set i run).Inv dir schema₀ := by
  apply h.moved run s.recorded s.lock rfl _ (fun _ _ => Iff.rfl) hrun
  rw [hcritical, ← hbefore]
  exact h.holder i

/-- A run that has the lock gives it back. -/
theorem Inv.release {before run : MigrationRun σ} (h : s.Inv dir schema₀)
    (hbefore : s.runs i = before) (hin : before.Critical) (hout : ¬ run.Critical)
    (hrun : run.Coherent dir s.schema s.committed (s.committedBy i)) :
    Inv dir schema₀ { s.set i run with lock := none } := by
  have hlock : s.lock = some i := h.lock_eq hbefore hin
  apply h.moved run s.recorded none rfl _ _ hrun
  · exact ⟨fun hrun => absurd hrun hout, fun hnone => by cases hnone⟩
  · intro j hji
    rw [hlock, Option.some_inj]
    exact ⟨fun hij => absurd hij.symm hji, fun hnone => by cases hnone⟩

theorem Inv.commit {f : MigrationFile σ} {todo : List (MigrationFile σ)}
    {done applied names : List PyStr} {schema : σ} (h : s.Inv dir schema₀)
    (hrun : s.runs i = .inserted f todo done applied schema) (hnames : s.recorded = some names) :
    Inv dir schema₀
      { schema := schema
        recorded := some (names ++ [f.name])
        lock := s.lock
        runs := Function.update s.runs i (.scanning todo done (applied ++ [f.name]))
        history := s.history ++ [(i, f.name)] } := by
  have hcoherent := h.coherent i
  rw [hrun] at hcoherent
  obtain ⟨hpass, hdone, hsql⟩ := hcoherent
  have hlock : s.lock = some i := (h.holder i).mp (by rw [hrun]; trivial)
  have hnames : names = s.committed := by simpa [hnames] using h.recorded
  have hcommitted : (s.history ++ [(i, f.name)]).map Prod.snd = s.committed ++ [f.name] := by
    simp [committed]
  have hself : ((s.history ++ [(i, f.name)]).filter fun e => decide (e.1 = i)).map Prod.snd =
      s.committedBy i ++ [f.name] := by
    simp [committedBy]
  have hothers : ∀ j, j ≠ i →
      ((s.history ++ [(i, f.name)]).filter fun e => decide (e.1 = j)).map Prod.snd =
        s.committedBy j := by
    intro j hji
    simp [committedBy, hji.symm]
  constructor
  case nodup =>
    show ((s.history ++ [(i, f.name)]).map Prod.snd).Nodup
    rw [hcommitted, List.nodup_append]
    refine ⟨h.nodup, List.nodup_singleton _, ?_⟩
    intro name hname other hother heq
    rw [List.mem_singleton.mp hother] at heq
    exact hpass.fresh hdone (heq ▸ hname)
  case recorded =>
    exact (congrArg (· ++ [f.name]) hnames).trans hcommitted.symm
  case replay =>
    show dir.replay schema₀ ((s.history ++ [(i, f.name)]).map Prod.snd) = some schema
    rw [hcommitted]
    exact MigrationsDir.replay_append_singleton h.replay hpass.mem_files hsql
  case holder =>
    exact holder_update h.holder (iff_of_true trivial hlock) fun _ _ => Iff.rfl
  case sorted =>
    intro j
    show (((s.history ++ [(i, f.name)]).filter fun e => decide (e.1 = j)).map Prod.snd).Pairwise _
    rcases eq_or_ne j i with rfl | hji
    · rw [hself, List.pairwise_append]
      refine ⟨h.sorted j, List.pairwise_singleton _ _, ?_⟩
      intro name hname other hother
      rw [List.mem_singleton.mp hother]
      exact hpass.lt_of_mem name (hpass.own_eq ▸ hname)
    · rw [hothers j hji]
      exact h.sorted j
  case coherent =>
    intro j
    show (Function.update s.runs i _ j).Coherent dir schema
      ((s.history ++ [(i, f.name)]).map Prod.snd)
      (((s.history ++ [(i, f.name)]).filter fun e => decide (e.1 = j)).map Prod.snd)
    rw [hcommitted]
    rcases eq_or_ne j i with rfl | hji
    · rw [Function.update_self, hself]
      exact hpass.commit
    · rw [Function.update_of_ne hji, hothers j hji]
      apply (h.coherent j).of_not_critical
      rw [h.holder j, hlock, Option.some_inj]
      exact hji.symm

theorem Inv.step {t : MigrationState ι σ} (h : s.Inv dir schema₀)
    (hstep : MigrationStep dir s i t) : t.Inv dir schema₀ := by
  cases hstep with
  | call hrun =>
      have hown : s.committedBy i = [] := h.coherent_of_eq hrun
      exact h.set hrun Iff.rfl hown
  | timeout hrun => exact h.set hrun Iff.rfl trivial
  | acquire hrun hlock =>
      have hown : s.committedBy i = [] := h.coherent_of_eq hrun
      apply h.moved .locked s.recorded (some i) rfl (iff_of_true trivial rfl) _ hown
      intro j hji
      rw [hlock, Option.some_inj]
      exact ⟨fun hnone => (by cases hnone), fun hij => absurd hij.symm hji⟩
  | create hrun =>
      have hown : s.committedBy i = [] := h.coherent_of_eq hrun
      have hlock : s.lock = some i := h.lock_eq hrun trivial
      exact h.moved .created (some (s.recorded.getD [])) s.lock rfl (iff_of_true trivial hlock)
        (fun _ _ => Iff.rfl) hown
  | @fetch names hrun hnames =>
      have hown : s.committedBy i = [] := h.coherent_of_eq hrun
      have hnames : names = s.committed := by simpa [hnames] using h.recorded
      refine h.set hrun Iff.rfl ?_
      rw [hnames, hown]
      exact .start dir s.committed
  | skip hrun hdone =>
      have hpass : MigrationPass .. := h.coherent_of_eq hrun
      exact h.set hrun Iff.rfl (hpass.skip hdone)
  | execute hrun hdone hsql =>
      exact h.set hrun Iff.rfl ⟨h.coherent_of_eq hrun, hdone, hsql⟩
  | insert hrun _ _ =>
      obtain ⟨hpass, hdone, hsql⟩ := h.coherent_of_eq hrun
      exact h.set hrun Iff.rfl ⟨hpass, hdone, hsql⟩
  | commit hrun hnames => exact h.commit hrun hnames
  | finish hrun =>
      have hpass : MigrationPass .. := h.coherent_of_eq hrun
      exact h.set hrun Iff.rfl ⟨hpass.own_eq, fun _ => hpass.complete⟩
  | fail htry =>
      refine h.set rfl ⟨fun _ => MigrationRun.critical_of_trying htry, fun _ => trivial⟩ ?_
      exact ⟨(h.coherent i).own_eq htry, fun hraising => by cases hraising⟩
  | @unlock applied raising hrun =>
      obtain ⟨hown, hall⟩ := h.coherent_of_eq hrun
      cases raising with
      | false => exact h.release hrun trivial id ⟨hown, hall rfl⟩
      | true => exact h.release hrun trivial id trivial
  | reset hrun => exact h.release hrun trivial id trivial
  | crash _ =>
      apply h.moved .crashed s.recorded (if s.lock = some i then none else s.lock) rfl _ _ trivial
      · refine ⟨fun hcrashed => hcrashed.elim, ?_⟩
        split
        · exact fun hnone => by cases hnone
        · exact fun hlock => absurd hlock ‹_›
      · intro j hji
        split
        · rename_i hlock
          rw [hlock, Option.some_inj]
          exact ⟨fun hij => absurd hij.symm hji, fun hnone => by cases hnone⟩
        · exact Iff.rfl

theorem inv_of_reachable (hs : (migrations dir schema₀).Reachable s) : s.Inv dir schema₀ := by
  apply hs.invariant
  · rintro _ rfl
    exact .initial dir schema₀
  · exact fun _ _ _ _ h _ hstep => h.step hstep

/-- No two runs committed the same file. -/
theorem Inv.eq_of_mem_committedBy (h : s.Inv dir schema₀) {j : ι} {name : PyStr}
    (hi : name ∈ s.committedBy i) (hj : name ∈ s.committedBy j) : i = j := by
  have heq := List.inj_on_of_nodup_map h.nodup (mem_committedBy.mp hi) (mem_committedBy.mp hj) rfl
  exact congrArg Prod.fst heq

/-! ## A run with nothing to do -/

@[simp] theorem set_set {run run' : MigrationRun σ} : (s.set i run).set i run' = s.set i run' := by
  rw [set, set, Function.update_idem]
  rfl

theorem set_eq_self {run : MigrationRun σ} (hrun : s.runs i = run) : s.set i run = s := by
  rw [set, ← hrun, Function.update_eq_self]

/-- Every file still to come is recorded. -/
theorem later_skipped {todo : List (MigrationFile σ)} {done applied : List PyStr}
    (hrun : s.runs i = .scanning todo done applied) (hall : ∀ f ∈ todo, f.name ∈ done) :
    (migrations dir schema₀).Later s (s.set i (.scanning [] done applied)) := by
  induction todo generalizing s with
  | nil =>
      rw [set_eq_self hrun]
      exact .refl
  | cons f todo ih =>
      have hskip : (migrations dir schema₀).Later s (s.set i (.scanning todo done applied)) :=
        .step .refl trivial (.skip hrun (hall f List.mem_cons_self))
      have hrest : (migrations dir schema₀).Later (s.set i (.scanning todo done applied))
          ((s.set i (.scanning todo done applied)).set i (.scanning [] done applied)) :=
        ih (Function.update_self ..) fun g hg => hall g (List.mem_cons_of_mem f hg)
      rw [set_set] at hrest
      exact hskip.trans hrest

/-- Where every file is recorded, a run can go through, returns the empty list
and leaves the database as it was. -/
theorem later_returned_nil {names : List PyStr} (hrun : s.runs i = .idle) (hlock : s.lock = none)
    (hnames : s.recorded = some names) (hall : ∀ f ∈ dir.files, f.name ∈ names) :
    (migrations dir schema₀).Later s (s.set i (.returned [])) := by
  have hdone : ∀ f ∈ dir.migrationFiles, f.name ∈ s.recorded.getD [] := by
    intro f hf
    rw [hnames]
    exact hall f (MigrationsDir.mem_migrationFiles.mp hf)
  have hwaiting : (migrations dir schema₀).Later s _ := .step .refl trivial (.call hrun)
  have hlocked := Machine.LaterBy.step hwaiting trivial (.acquire (Function.update_self ..) hlock)
  have hcreated := Machine.LaterBy.step hlocked trivial (.create (Function.update_self ..))
  have hscanning := Machine.LaterBy.step hcreated trivial (.fetch (Function.update_self ..) rfl)
  have hskipped := hscanning.trans (later_skipped (Function.update_self ..) hdone)
  have hunlocking := Machine.LaterBy.step hskipped trivial (.finish (Function.update_self ..))
  have hreturned := Machine.LaterBy.step hunlocking trivial (.unlock (Function.update_self ..))
  have hkept : some (s.recorded.getD []) = s.recorded := by rw [hnames]; rfl
  -- what is left differs from `s` in the place of the run only
  simpa [set, hkept, ← hlock] using hreturned

end MigrationState

/-! ## Applied once -/

/-- Runs of `applyMigrations` on one database, as many as there may be and cut
off at any statement: a file's SQL is committed at most once, by one run;
`schema_migrations` has the names of the committed files; a run that returns
has left all of them applied, and returns those it committed, in their order,
which no other run returns. -/
theorem migrations_applied_once {s : MigrationState ι σ}
    (hs : (migrations dir schema₀).Reachable s) :
    s.committed.Nodup ∧
      s.recorded.getD [] = s.committed ∧
      dir.replay schema₀ s.committed = some s.schema ∧
      (∀ i applied, s.runs i = .returned applied → ∀ f ∈ dir.files, f.name ∈ s.committed) ∧
      (∀ i, (s.committedBy i).Pairwise (· < ·)) ∧
      (∀ name ∈ s.committed, ∃! i, name ∈ s.committedBy i) ∧
      ∀ i applied, s.runs i = .returned applied → applied = s.committedBy i ∧
        ∀ name ∈ applied, ∀ j other, s.runs j = .returned other → name ∈ other → j = i := by
  have h := MigrationState.inv_of_reachable hs
  have hreturned : ∀ {i : ι} {applied : List PyStr}, s.runs i = .returned applied →
      s.committedBy i = applied ∧ ∀ f ∈ dir.files, f.name ∈ s.committed := by
    intro i applied hrun
    exact h.coherent_of_eq hrun
  refine ⟨h.nodup, h.recorded, h.replay, fun i applied hrun => (hreturned hrun).2, h.sorted,
    ?_, ?_⟩
  · intro name hname
    obtain ⟨i, hi⟩ := MigrationState.mem_committed.mp hname
    exact ⟨i, hi, fun j hj => h.eq_of_mem_committedBy hj hi⟩
  · intro i applied hrun
    obtain ⟨rfl, _⟩ := hreturned hrun
    refine ⟨rfl, ?_⟩
    intro name hname j other hother hmem
    obtain ⟨rfl, _⟩ := hreturned hother
    exact h.eq_of_mem_committedBy hmem hname

/-! ## One file, two runs -/

/-- A directory of one file, whose SQL counts. -/
def initDir : MigrationsDir ℕ where
  files := [⟨PyStr.ofString "001_init.sql", fun schema => some (schema + 1)⟩]
  nodup := List.nodup_singleton _

/-- The first run has committed the file and stands at `run`. -/
def initApplied (run : MigrationRun ℕ) (lock : Option ℕ) : MigrationState ℕ ℕ where
  schema := 1
  recorded := some [PyStr.ofString "001_init.sql"]
  lock := lock
  runs := Function.update (fun _ => .idle) 0 run
  history := [(0, PyStr.ofString "001_init.sql")]

theorem initDir_migrationFiles : initDir.migrationFiles = initDir.files :=
  List.mergeSort_singleton _

theorem reachable_committed : (migrations initDir 0).Reachable
    (initApplied (.scanning [] [] [PyStr.ofString "001_init.sql"]) (some 0)) := by
  have hwaiting : (migrations initDir 0).Reachable _ :=
    .step (.init rfl) trivial (.call (i := (0 : ℕ)) rfl)
  have hlocked := Machine.ReachableBy.step hwaiting trivial
    (.acquire (Function.update_self ..) rfl)
  have hcreated := Machine.ReachableBy.step hlocked trivial (.create (Function.update_self ..))
  have hscanning := Machine.ReachableBy.step hcreated trivial
    (.fetch (Function.update_self ..) rfl)
  rw [initDir_migrationFiles] at hscanning
  have hexecuted := Machine.ReachableBy.step hscanning trivial
    (.execute (Function.update_self ..) List.not_mem_nil rfl)
  have hinserted := Machine.ReachableBy.step hexecuted trivial
    (.insert (Function.update_self ..) rfl List.not_mem_nil)
  have hcommitted := Machine.ReachableBy.step hinserted trivial
    (.commit (Function.update_self ..) rfl)
  simpa [initApplied, MigrationState.set, MigrationState.initial] using hcommitted

/-- The second run begins when the first has ended. -/
theorem reachable_second_returned {run : MigrationRun ℕ}
    (hs : (migrations initDir 0).Reachable (initApplied run none)) :
    (migrations initDir 0).Reachable ((initApplied run none).set 1 (.returned [])) := by
  have hall : ∀ f ∈ initDir.files, f.name ∈ [PyStr.ofString "001_init.sql"] := by
    intro f hf
    rw [List.mem_singleton.mp hf]
    exact List.mem_singleton_self _
  have hidle : (initApplied run none).runs 1 = .idle := rfl
  exact (MigrationState.later_returned_nil hidle rfl rfl hall).reachable hs

/-- Both runs return, the first with the file and the second with nothing. -/
theorem migrations_applied_once_two_runs :
    ∃ s : MigrationState ℕ ℕ, s.runs 0 = .returned [PyStr.ofString "001_init.sql"] ∧
      s.runs 1 = .returned [] ∧
      (∀ i applied, s.runs i = .returned applied → ∀ f ∈ initDir.files, f.name ∈ s.committed) ∧
      ∀ name ∈ s.committed, ∃! i, name ∈ s.committedBy i := by
  have hunlocking := Machine.ReachableBy.step reachable_committed trivial
    (.finish (i := 0) rfl)
  have hreturned := Machine.ReachableBy.step hunlocking trivial (.unlock (Function.update_self ..))
  have hfirst : (migrations initDir 0).Reachable
      (initApplied (.returned [PyStr.ofString "001_init.sql"]) none) := by
    simpa [initApplied, MigrationState.set] using hreturned
  obtain ⟨_, _, _, hall, _, hunique, _⟩ :=
    migrations_applied_once (reachable_second_returned hfirst)
  exact ⟨_, rfl, rfl, hall, hunique⟩

/-- The first run crashes between its commit and its return, the second finds
nothing to do: the file is applied, and in no returned list. -/
theorem migrations_crashed_after_commit :
    ¬ ∀ s : MigrationState ℕ ℕ, (migrations initDir 0).Reachable s →
      (∀ i, ¬ (s.runs i).Alive) → ∀ name ∈ s.committed,
        ∃! i, ∃ applied, s.runs i = .returned applied ∧ name ∈ applied := by
  intro hclaim
  have hcrash := Machine.ReachableBy.step reachable_committed trivial (.crash (i := 0) trivial)
  have hcrashed : (migrations initDir 0).Reachable (initApplied .crashed none) := by
    simpa [initApplied, MigrationState.set] using hcrash
  have hruns : ∀ i run, ((initApplied .crashed none).set 1 (.returned [])).runs i = run →
      run = .crashed ∨ run = .returned [] ∨ run = .idle := by
    rintro i _ rfl
    rcases i with _ | _ | i
    · exact .inl rfl
    · exact .inr (.inl rfl)
    · exact .inr (.inr rfl)
  have hended : ∀ i, ¬ (((initApplied .crashed none).set 1 (.returned [])).runs i).Alive := by
    intro i halive
    rcases hruns i _ rfl with hrun | hrun | hrun <;> rw [hrun] at halive <;> exact halive
  obtain ⟨i, ⟨applied, hrun, hmem⟩, _⟩ := hclaim _ (reachable_second_returned hcrashed) hended
    (PyStr.ofString "001_init.sql") (List.mem_singleton_self _)
  rcases hruns i _ hrun with hcase | hcase | hcase
  · cases hcase
  · cases hcase
    cases hmem
  · cases hcase

end LeadQueue
