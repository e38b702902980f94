import HydraClient.Proofs.Generation
import HydraClient.Proofs.Reconciliation

/-! # What reports say of failures

Whatever a synchronisation comes across, its report has one error for each record of a failure. A
run that is stopped by an error of its document or by a failing step has not come to the
synchronisation, and has the disk and the report to show for it.
-/
namespace HydraClient

open Metadata (Document)

namespace Sync

variable {t : Target} {p p' : Progress} {name : String} {path : FilePath} {d d' : Disk}

/-- The errors of a report are those that its records tell of. -/
def Report.Tallied (r : Report) : Prop := r.told = failures r.records

theorem failures_append (rs rs' : List Record) :
    failures (rs ++ rs') = failures rs ++ failures rs' := by
  simp [failures]

theorem tallied_of_deals (h : Deals name path p p') (hp : p.report.Tallied) :
    p'.report.Tallied := by
  cases h with
  | record d r hname hpath hr =>
    change p.report.told = failures (p.report.records ++ [r])
    rw [failures_append, ← hp]
    simp [failures, hr]
  | fail d verb f =>
    rw [Report.Tallied, Progress.fail, failures_append, ← hp]
    simp [failures, Report.told]

/-- Dry or not, and whatever names are produced, the errors of a synchronisation are those that its
records tell of. -/
theorem tallied_synchronize {files : OrderedMap String String} {report : Report}
    (h : synchronize t d files = (d', .ok report)) : report.Tallied :=
  synchronize_induction (P := fun p => p.report.Tallied) h rfl
    (fun _ _ _ _ hp hs => tallied_of_deals (deals_syncFile hs) hp)
    fun _ _ _ _ _ _ _ q hq => tallied_of_deals (deals_removeFile t q _ _) hq

theorem Report.Tallied.errors_eq_nil_iff {report : Report} (h : report.Tallied) :
    report.errors = [] ↔ report.named .failed = [] := by
  have hfailed : report.errors = [] ↔ failures report.records = [] := by
    rw [← h, told, List.map_eq_nil_iff]
  rw [hfailed, failures, named, List.map_eq_nil_iff, List.map_eq_nil_iff]

end Sync

def Report.failed (r : Report) : List String := (r.sync.map (·.named .failed)).getD []

namespace Pipeline

variable {doc : Document} {output : Option FilePath} {o : Options} {disk after : Disk}
  {report : Report}

/-- A run whose report has an error of the document or of a step has left the disk as it was and
produced nothing, and a run has succeeded exactly if its report has neither of them and no file
failed. -/
theorem nothing_written_of_fatal (h : generate doc output o disk = (after, .ok report)) :
    (report.errors ≠ [] ∨ report.failure ≠ none →
      after = disk ∧ report.files = .empty ∧ report.sync = none) ∧
    (report.success = true ↔ report.errors = [] ∧ report.failure = none ∧ report.failed = []) := by
  have hrun := runsTo_generate doc output o disk
  rw [h] at hrun
  cases hrun with
  | refused _ herrors hhalted =>
    refine ⟨fun _ => ⟨rfl, hhalted.files, hhalted.sync⟩, ?_⟩
    simp [hhalted.failed, herrors]
  | failed _ _ _ hfailure hhalted =>
    refine ⟨fun _ => ⟨rfl, hhalted.files, hhalted.sync⟩, ?_⟩
    simp [hhalted.failed, hfailure]
  | delivered _ _ _ hsync hdelivers =>
    constructor
    · rintro (herrors | hfailure)
      · exact absurd hdelivers.errors herrors
      · exact absurd hdelivers.failure hfailure
    · have tallied := Sync.tallied_synchronize hsync
      rw [hdelivers.success, tallied.errors_eq_nil_iff, Report.failed, hdelivers.sync]
      simp [hdelivers.errors, hdelivers.failure]

theorem exists_report_of_test {x : Disk × Except Failure Report} {p : Report → Bool}
    (h : x.2.toOption.any p = true) :
    ∃ after report, x = (after, .ok report) ∧ p report = true := by
  obtain ⟨after, f | report⟩ := x
  · cases h
  · exact ⟨after, report, rfl, h⟩

def unclassified : Document where
  classes := [{
    className := "App\\Entity\\Post"
    fields := [{ name := "rating", types := [{ builtin := "resource" }] }]
    exposures := [{ shortName := "Post" }] }]

/-- The failing step leaves a directory alone that has files to be removed. -/
theorem nothing_written_unclassified : ∃ report,
    generate unclassified (some (.ofText "out")) { clock := .ofSeconds 0 } Sync.sampleDisk =
      (Sync.sampleDisk, .ok report) ∧
    report.failure ≠ none ∧ report.files = .empty ∧ report.sync = none ∧ report.success ≠ true := by
  obtain ⟨after, report, hrun, hfails⟩ := exists_report_of_test
    (x := generate unclassified (some (.ofText "out")) { clock := .ofSeconds 0 } Sync.sampleDisk)
    (p := fun r => r.failure.isSome) (by decide +kernel)
  have hfailure : report.failure ≠ none := Option.isSome_iff_ne_none.1 hfails
  obtain ⟨hnothing, hsuccess⟩ := nothing_written_of_fatal hrun
  obtain ⟨rfl, hfiles, hsync⟩ := hnothing (.inr hfailure)
  exact ⟨report, hrun, hfailure, hfiles, hsync, fun h => hfailure (hsuccess.1 h).2.1⟩

end Pipeline

end HydraClient
