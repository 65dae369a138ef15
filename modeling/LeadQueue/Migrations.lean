import LeadQueue.Library.Machine
import LeadQueue.Python
import Mathlib.Data.List.Lex
import Mathlib.Data.List.Sort
import Mathlib.Logic.Function.Basic

/-!
# Schema migrations

`applyMigrations`, statement by statement, for any number of runs side by side;
a process that calls it again is another run. The advisory lock belongs to the
session: it is given back by the `finally`, or by the crash that ends the
session. A crash also rolls the open transaction back.
-/

namespace LeadQueue

open Transition

/-- A migration file. `sql` is what its statements make of the schema, `none`
when one of them fails; the bookkeeping table is not theirs to change. -/
structure MigrationFile (σ : Type) where
  name : PyStr
  sql : σ → Option σ

/-- The `*.sql` files of a directory. -/
structure MigrationsDir (σ : Type) where
  files : List (MigrationFile σ)
  nodup : (files.map MigrationFile.name).Nodup

namespace MigrationsDir

variable {σ : Type}

/-- `_migration_files`. -/
def migrationFiles (dir : MigrationsDir σ) : List (MigrationFile σ) :=
  dir.files.mergeSort fun f g => decide (f.name ≤ g.name)

theorem mem_migrationFiles {dir : MigrationsDir σ} {f : MigrationFile σ} :
    f ∈ dir.migrationFiles ↔ f ∈ dir.files := List.mem_mergeSort

/-- The names in the order of the runs, which is strict. -/
theorem migrationFiles_sorted (dir : MigrationsDir σ) :
    (dir.migrationFiles.map MigrationFile.name).Pairwise (· < ·) := by
  have hle : (dir.migrationFiles.map MigrationFile.name).Pairwise (· ≤ ·) := by
    rw [List.pairwise_map]
    have htrans : ∀ f g h : MigrationFile σ, decide (f.name ≤ g.name) = true →
        decide (g.name ≤ h.name) = true → decide (f.name ≤ h.name) = true := by
      intro f g h hfg hgh
      exact decide_eq_true ((of_decide_eq_true hfg).trans (of_decide_eq_true hgh))
    have htotal : ∀ f g : MigrationFile σ,
        (decide (f.name ≤ g.name) || decide (g.name ≤ f.name)) = true := by
      intro f g
      simpa using le_total f.name g.name
    exact (List.pairwise_mergeSort htrans htotal dir.files).imp of_decide_eq_true
  have hnodup : (dir.migrationFiles.map MigrationFile.name).Nodup :=
    ((List.mergeSort_perm dir.files _).map MigrationFile.name).nodup_iff.mpr dir.nodup
  exact (hle.and hnodup).imp fun h => lt_of_le_of_ne h.1 h.2

/-- The file of a name. -/
def file? (dir : MigrationsDir σ) (name : PyStr) : Option (MigrationFile σ) :=
  dir.files.find? fun f => decide (f.name = name)

theorem file?_of_mem {dir : MigrationsDir σ} {f : MigrationFile σ} (h : f ∈ dir.files) :
    dir.file? f.name = some f := by
  obtain ⟨g, hg⟩ : ∃ g, dir.file? f.name = some g := by
    rw [← Option.isSome_iff_exists, file?, List.find?_isSome]
    exact ⟨f, h, decide_eq_true rfl⟩
  have hname : g.name = f.name := by
    rw [file?] at hg
    simpa using List.find?_some hg
  rw [hg, List.inj_on_of_nodup_map dir.nodup (List.mem_of_find?_eq_some hg) h hname]

/-- The schema after the SQL of these files, one after the other. -/
def replay (dir : MigrationsDir σ) (schema : σ) (names : List PyStr) : Option σ :=
  names.foldlM (fun schema name => (dir.file? name).bind fun f => f.sql schema) schema

theorem replay_append_singleton {dir : MigrationsDir σ} {schema before after : σ}
    {names : List PyStr} {f : MigrationFile σ} (hbefore : dir.replay schema names = some before)
    (hf : f ∈ dir.files) (hsql : f.sql before = some after) :
    dir.replay schema (names ++ [f.name]) = some after := by
  rw [replay, List.foldlM_append]
  rw [replay] at hbefore
  rw [hbefore]
  simp [file?_of_mem hf, hsql]

end MigrationsDir

/-- Where a run of `applyMigrations` stands. -/
inductive MigrationRun (σ : Type) where
  | idle
  /-- It has asked for the lock. -/
  | waiting
  | locked
  /-- `schema_migrations` exists. -/
  | created
  /-- Between two files: those to come, the names read, the names applied. -/
  | scanning (todo : List (MigrationFile σ)) (done applied : List PyStr)
  /-- The transaction of `file` has run the SQL, which makes `schema`. -/
  | executed (file : MigrationFile σ) (todo : List (MigrationFile σ)) (done applied : List PyStr)
      (schema : σ)
  /-- It has inserted the name as well. -/
  | inserted (file : MigrationFile σ) (todo : List (MigrationFile σ)) (done applied : List PyStr)
      (schema : σ)
  /-- In the `finally`, after the loop or with an exception. -/
  | unlocking (applied : List PyStr) (raising : Bool)
  | returned (applied : List PyStr)
  | raised
  | crashed

namespace MigrationRun

variable {σ : Type}

/-- What the run has applied when a statement of the `try` raises. -/
def trying? : MigrationRun σ → Option (List PyStr)
  | locked | created => some []
  | scanning _ _ applied | executed _ _ _ applied _ | inserted _ _ _ applied _ => some applied
  | _ => none

/-- The run holds the lock. -/
def Critical : MigrationRun σ → Prop
  | locked | created | scanning .. | executed .. | inserted .. | unlocking .. => True
  | _ => False

/-- The run is under way. -/
def Alive : MigrationRun σ → Prop
  | idle | returned _ | raised | crashed => False
  | _ => True

end MigrationRun

structure MigrationState (ι σ : Type) where
  schema : σ
  /-- The rows of `schema_migrations`; `none` while there is no such table. -/
  recorded : Option (List PyStr)
  /-- The session that holds the advisory lock. -/
  lock : Option ι
  runs : ι → MigrationRun σ
  /-- The files whose SQL was committed, with the run that did it, oldest first. -/
  history : List (ι × PyStr)

variable {ι σ : Type} [DecidableEq ι]

def MigrationState.set (s : MigrationState ι σ) (i : ι) (run : MigrationRun σ) :
    MigrationState ι σ :=
  { s with runs := Function.update s.runs i run }

/-- One statement of one run, or its end. -/
inductive MigrationStep (dir : MigrationsDir σ) :
    MigrationState ι σ → ι → MigrationState ι σ → Prop where
  | call {s : MigrationState ι σ} {i : ι} :
      s.runs i = .idle → MigrationStep dir s i (s.set i .waiting)
  | timeout {s : MigrationState ι σ} {i : ι} :
      -- the lock is asked for outside the `try`
      s.runs i = .waiting → MigrationStep dir s i (s.set i .raised)
  | acquire {s : MigrationState ι σ} {i : ι} :
      s.runs i = .waiting → s.lock = none →
      MigrationStep dir s i { s.set i .locked with lock := some i }
  | create {s : MigrationState ι σ} {i : ι} :
      s.runs i = .locked →
      MigrationStep dir s i { s.set i .created with recorded := some (s.recorded.getD []) }
  | fetch {s : MigrationState ι σ} {i : ι} {names : List PyStr} :
      s.runs i = .created → s.recorded = some names →
      MigrationStep dir s i (s.set i (.scanning dir.migrationFiles names []))
  | skip {s : MigrationState ι σ} {i : ι} {f : MigrationFile σ} {todo : List (MigrationFile σ)}
      {done applied : List PyStr} :
      s.runs i = .scanning (f :: todo) done applied → f.name ∈ done →
      MigrationStep dir s i (s.set i (.scanning todo done applied))
  | execute {s : MigrationState ι σ} {i : ι} {f : MigrationFile σ}
      {todo : List (MigrationFile σ)} {done applied : List PyStr} {schema : σ} :
      s.runs i = .scanning (f :: todo) done applied → f.name ∉ done →
      f.sql s.schema = some schema →
      MigrationStep dir s i (s.set i (.executed f todo done applied schema))
  | insert {s : MigrationState ι σ} {i : ι} {f : MigrationFile σ}
      {todo : List (MigrationFile σ)} {done applied names : List PyStr} {schema : σ} :
      s.runs i = .executed f todo done applied schema → s.recorded = some names →
      f.name ∉ names →
      MigrationStep dir s i (s.set i (.inserted f todo done applied schema))
  | commit {s : MigrationState ι σ} {i : ι} {f : MigrationFile σ}
      {todo : List (MigrationFile σ)} {done applied names : List PyStr} {schema : σ} :
      s.runs i = .inserted f todo done applied schema → s.recorded = some names →
      MigrationStep dir s i
        { schema := schema
          recorded := some (names ++ [f.name])
          lock := s.lock
          runs := Function.update s.runs i (.scanning todo done (applied ++ [f.name]))
          history := s.history ++ [(i, f.name)] }
  | finish {s : MigrationState ι σ} {i : ι} {done applied : List PyStr} :
      s.runs i = .scanning [] done applied →
      MigrationStep dir s i (s.set i (.unlocking applied false))
  | fail {s : MigrationState ι σ} {i : ι} {applied : List PyStr} :
      -- any statement may raise: the open transaction is rolled back
      (s.runs i).trying? = some applied →
      MigrationStep dir s i (s.set i (.unlocking applied true))
  | unlock {s : MigrationState ι σ} {i : ι} {applied : List PyStr} {raising : Bool} :
      s.runs i = .unlocking applied raising →
      MigrationStep dir s i
        { s.set i (if raising then .raised else .returned applied) with lock := none }
  | reset {s : MigrationState ι σ} {i : ι} {applied : List PyStr} {raising : Bool} :
      -- the unlocking raises, and the pool resets the session it gets back
      s.runs i = .unlocking applied raising →
      MigrationStep dir s i { s.set i .raised with lock := none }
  | crash {s : MigrationState ι σ} {i : ι} :
      (s.runs i).Alive →
      MigrationStep dir s i
        { s.set i .crashed with lock := if s.lock = some i then none else s.lock }

/-- No run has begun, and no file has been applied. -/
def MigrationState.initial (ι : Type) (schema : σ) : MigrationState ι σ :=
  ⟨schema, none, none, fun _ => .idle, []⟩

/-- Runs on a database whose schema was `schema` before the first migration. -/
def migrations (dir : MigrationsDir σ) (schema : σ) : Machine (MigrationState ι σ) ι where
  init s := s = .initial ι schema
  step := MigrationStep dir

end LeadQueue
