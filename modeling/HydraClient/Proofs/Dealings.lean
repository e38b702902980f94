import HydraClient.Proofs.Disks
import HydraClient.Sync

/-! # What dealing with one file can do

A file that is produced is left, written, or not to be dealt with; one that is no longer produced
is kept, removed, or not to be dealt with. Each way is taken under its own circumstances and leaves
one record.
-/
namespace HydraClient.Sync

open Disk

variable {t : Target} {p p' : Progress} {name body content : String} {path : FilePath} {d : Disk}

theorem existing_some_iff {h : Header} :
    existing d path = .ok (some h) ↔
      d.exists? path = .ok true ∧ ∃ s, d.readText path = .ok s ∧ h = Header.parse s := by
  rw [existing]
  rcases d.exists? path with e | b
  · simp
  · cases b with
    | false => simp
    | true =>
      cases d.readText path with
      | error f => simp [Except.map]
      | ok s => simp [Except.map, eq_comm]

theorem existing_of_readText {s : String} (h : d.readText path = .ok s) :
    existing d path = .ok (some (Header.parse s)) := by
  refine existing_some_iff.2 ⟨?_, s, h, rfl⟩
  obtain ⟨c, _, hc, -⟩ := readText_ok_iff.1 h
  obtain ⟨hn, hl⟩ := readBytes_ok_iff.1 hc
  rw [exists?, hn, status_ok_iff.2 hl]
  rfl

theorem existing_none_iff : existing d path = .ok none ↔ d.exists? path = .ok false := by
  rw [existing]
  rcases d.exists? path with e | b
  · simp
  · cases b with
    | false => simp
    | true => cases d.readText path <;> simp [Except.map]

def MayWrite (d : Disk) (path : FilePath) : Prop :=
  existing d path = .ok none ∨ ∃ h, existing d path = .ok (some h) ∧ h.isFrozen = false

theorem writeFile_cases (t : Target) (p : Progress) (name : String) (path : FilePath)
    (content : String) :
    (t.dryRun = true ∧ ∃ size, writeFile t p name path content =
      .ok (p.record ⟨name, path.text, .written, size, Text.countLines content⟩)) ∨
    (t.dryRun = false ∧ ∃ disk r, p.disk.writeText path content = (disk, r) ∧
      ((∃ size, r = .ok size ∧ writeFile t p name path content =
          .ok ({ p with disk }.record
            ⟨name, path.text, .written, size, Text.countLines content⟩)) ∨
        (r = .error .unnameable ∧ writeFile t p name path content = .error disk) ∨
        ∃ f, f ≠ .unnameable ∧ r = .error f ∧
          writeFile t p name path content = .ok ({ p with disk }.fail name path "write" f))) := by
  rw [writeFile]
  cases hdry : t.dryRun with
  | true => exact .inl ⟨rfl, _, rfl⟩
  | false =>
    rcases hw : p.disk.writeText path content with ⟨disk, r⟩
    refine .inr ⟨rfl, disk, r, rfl, ?_⟩
    cases r with
    | ok size => exact .inl ⟨size, rfl, by simp⟩
    | error f =>
      by_cases hf : f = .unnameable
      · subst hf
        exact .inr (.inl ⟨rfl, by simp⟩)
      · refine .inr (.inr ⟨f, hf, rfl, ?_⟩)
        cases f with
        | unnameable => exact absurd rfl hf
        | refused e q => simp
        | undecodable g => simp

theorem syncFile_cases (t : Target) (p : Progress) (name body : String) :
    (∃ f, existing p.disk (t.pathOf name) = .error f ∧
      syncFile t p name body = .ok (p.fail name (t.pathOf name) "write" f)) ∨
    (∃ h, existing p.disk (t.pathOf name) = .ok (some h) ∧ h.body = body ∧
      syncFile t p name body =
        .ok (p.record ⟨name, (t.pathOf name).text, .unchanged, 0, 0⟩)) ∨
    (∃ h, existing p.disk (t.pathOf name) = .ok (some h) ∧ h.isFrozen = true ∧
      syncFile t p name body = .ok (p.record ⟨name, (t.pathOf name).text, .frozen, 0, 0⟩)) ∨
    (MayWrite p.disk (t.pathOf name) ∧
      syncFile t p name body = writeFile t p name (t.pathOf name)
        (Header.write (Header.banner t.command t.clock) body)) := by
  rw [syncFile]
  rcases he : existing p.disk (t.pathOf name) with f | _ | h
  · exact .inl ⟨f, rfl, by simp⟩
  · exact .inr (.inr (.inr ⟨.inl he, by simp⟩))
  · by_cases hbody : h.body = body
    · exact .inr (.inl ⟨h, rfl, hbody, by simp [hbody]⟩)
    · cases hfrozen : h.isFrozen with
      | true => exact .inr (.inr (.inl ⟨h, rfl, hfrozen, by simp [hbody, hfrozen]⟩))
      | false =>
        exact .inr (.inr (.inr ⟨.inr ⟨h, he, hfrozen⟩, by simp [hbody, hfrozen]⟩))

theorem removeFile_cases (t : Target) (p : Progress) (name : String) (path : FilePath) :
    (∃ f, p.disk.readText path = .error f ∧
      removeFile t p name path = p.fail name path "remove" f) ∨
    (∃ s, p.disk.readText path = .ok s ∧ (Header.parse s).isFrozen = true ∧
      removeFile t p name path = p.record ⟨name, path.text, .frozen, 0, 0⟩) ∨
    ∃ s, p.disk.readText path = .ok s ∧ (Header.parse s).isFrozen = false ∧
      ((t.dryRun = true ∧
          removeFile t p name path = p.record ⟨name, path.text, .removed, 0, 0⟩) ∨
        (t.dryRun = false ∧ ∃ disk, p.disk.remove path = (disk, .ok ()) ∧
          removeFile t p name path =
            { p with disk }.record ⟨name, path.text, .removed, 0, 0⟩) ∨
        (t.dryRun = false ∧ ∃ disk f, p.disk.remove path = (disk, .error f) ∧
          removeFile t p name path = { p with disk }.fail name path "remove" f)) := by
  rw [removeFile]
  rcases hr : p.disk.readText path with f | s
  · exact .inl ⟨f, rfl, by simp⟩
  · cases hfrozen : (Header.parse s).isFrozen with
    | true => exact .inr (.inl ⟨s, rfl, hfrozen, by simp [hfrozen]⟩)
    | false =>
      refine .inr (.inr ⟨s, rfl, hfrozen, ?_⟩)
      cases hdry : t.dryRun with
      | true => exact .inl ⟨rfl, by simp [hfrozen]⟩
      | false =>
        rcases hrm : p.disk.remove path with ⟨disk, f | u⟩
        · exact .inr (.inr ⟨rfl, disk, f, rfl, by simp [hfrozen]⟩)
        · exact .inr (.inl ⟨rfl, disk, rfl, by simp [hfrozen]⟩)

/-- A file is dealt with by one record, along with an error if that tells of a failure. -/
inductive Deals (name : String) (path : FilePath) (p : Progress) : Progress → Prop
  | record (d : Disk) (r : Record) : r.name = name → r.path = path.text → r.action ≠ .failed →
    Deals name path p ({ p with disk := d }.record r)
  | fail (d : Disk) (verb : String) (f : DiskFault) :
    Deals name path p ({ p with disk := d }.fail name path verb f)

theorem deals_syncFile (h : syncFile t p name body = .ok p') : Deals name (t.pathOf name) p p' := by
  rcases syncFile_cases t p name body with
    ⟨f, -, hp⟩ | ⟨head, -, -, hp⟩ | ⟨head, -, -, hp⟩ | ⟨-, hp⟩
  · obtain rfl := Except.ok.inj (hp.symm.trans h)
    exact .fail p.disk "write" f
  · obtain rfl := Except.ok.inj (hp.symm.trans h)
    exact .record p.disk _ rfl rfl (by simp)
  · obtain rfl := Except.ok.inj (hp.symm.trans h)
    exact .record p.disk _ rfl rfl (by simp)
  · rw [hp] at h
    rcases writeFile_cases t p name (t.pathOf name)
      (Header.write (Header.banner t.command t.clock) body) with
      ⟨-, size, hp⟩ | ⟨-, disk, r, -, ⟨size, -, hp⟩ | ⟨-, hp⟩ | ⟨f, -, -, hp⟩⟩
    · obtain rfl := Except.ok.inj (hp.symm.trans h)
      exact .record p.disk _ rfl rfl (by simp)
    · obtain rfl := Except.ok.inj (hp.symm.trans h)
      exact .record disk _ rfl rfl (by simp)
    · rw [hp] at h
      cases h
    · obtain rfl := Except.ok.inj (hp.symm.trans h)
      exact .fail disk "write" f

theorem deals_removeFile (t : Target) (p : Progress) (name : String) (path : FilePath) :
    Deals name path p (removeFile t p name path) := by
  rcases removeFile_cases t p name path with
    ⟨f, -, hp⟩ | ⟨s, -, -, hp⟩ | ⟨s, -, -, ⟨-, hp⟩ | ⟨-, disk, -, hp⟩ | ⟨-, disk, f, -, hp⟩⟩
  · rw [hp]
    exact .fail p.disk "remove" f
  · rw [hp]
    exact .record p.disk _ rfl rfl (by simp)
  · rw [hp]
    exact .record p.disk _ rfl rfl (by simp)
  · rw [hp]
    exact .record disk _ rfl rfl (by simp)
  · rw [hp]
    exact .fail disk "remove" f

theorem Deals.errors (h : Deals name path p p') : p.report.errors <+: p'.report.errors := by
  cases h with
  | record => exact List.prefix_refl _
  | fail => exact List.prefix_append ..

variable {produced : List String} {m : String}

theorem syncFiles_induction {P : Progress → Prop} {entries : List (String × String)}
    (produce : ∀ e ∈ entries, ∀ p p', P p → syncFile t p e.1 e.2 = .ok p' → P p')
    (h : entries.foldlM (fun p e => syncFile t p e.1 e.2) p = .ok p') (hp : P p) : P p' := by
  induction entries generalizing p with
  | nil => exact Except.ok.inj h ▸ hp
  | cons e rest ih =>
    rw [List.foldlM_cons] at h
    obtain ⟨p₁, hsync, hfold⟩ := exists_of_bind_ok h
    exact ih (fun e he => produce e (List.mem_cons_of_mem _ he)) hfold
      (produce e (List.mem_cons_self ..) p p₁ hp hsync)

theorem errors_syncFiles {entries : List (String × String)}
    (h : entries.foldlM (fun p e => syncFile t p e.1 e.2) p = .ok p') :
    p.report.errors <+: p'.report.errors :=
  syncFiles_induction (P := fun q => p.report.errors <+: q.report.errors)
    (fun _ _ _ _ hq hs => hq.trans (deals_syncFile hs).errors) h (List.prefix_refl _)

theorem removeStale_induction {P : Progress → Prop} (hp : P p)
    (clear : ∀ way ∈ p.disk.search (t.directory / m) extension,
      nameOf (m :: way) ∉ produced → ∀ q, P q → P (removeFile t q (nameOf (m :: way))
        { t.directory / m with segments := (t.directory / m).segments ++ way })) :
    P (removeStale t produced p m) := by
  rw [removeStale]
  dsimp only
  split
  · exact hp
  · refine List.foldlRecOn _ _ hp fun q hq way hway => ?_
    split
    · exact hq
    · rename_i hproduced
      exact clear way hway (by simpa using hproduced) q hq

theorem errors_removeStale (t : Target) (produced : List String) (p : Progress) (m : String) :
    p.report.errors <+: (removeStale t produced p m).report.errors :=
  removeStale_induction (P := fun q => p.report.errors <+: q.report.errors) (List.prefix_refl _)
    fun _ _ _ q hq => hq.trans (deals_removeFile t q _ _).errors

theorem sweep_ok_iff : sweep t produced p m = .ok p' ↔
    p.disk.unsearchable? (t.directory / m) = none ∧ removeStale t produced p m = p' := by
  unfold sweep
  split <;> simp_all

theorem sweep_of_searchable (h : p.disk.unsearchable? (t.directory / m) = none) :
    sweep t produced p m = .ok (removeStale t produced p m) :=
  sweep_ok_iff.2 ⟨h, rfl⟩

theorem removeStales_of_sweeps {ms : List String} (h : ms.foldlM (sweep t produced) p = .ok p') :
    ms.foldl (removeStale t produced) p = p' := by
  induction ms generalizing p with
  | nil => exact Except.ok.inj h
  | cons m rest ih =>
    rw [List.foldlM_cons] at h
    obtain ⟨p₁, hsweep, hrest⟩ := exists_of_bind_ok h
    rw [List.foldl_cons, (sweep_ok_iff.1 hsweep).2]
    exact ih hrest

theorem synchronize_ok {files : OrderedMap String String} {report : Report} {d' : Disk}
    (h : synchronize t d files = (d', .ok report)) : ∃ p,
      files.entries.foldlM (fun p e => syncFile t p e.1 e.2)
        ⟨d, { directory := t.directory.text, dryRun := t.dryRun }⟩ = .ok p ∧
      managed.foldlM (sweep t files.keys) p = .ok ⟨d', report⟩ := by
  unfold synchronize at h
  dsimp only at h
  split at h
  · cases (Prod.mk.inj h).2
  · rename_i p hwritten
    split at h
    · cases (Prod.mk.inj h).2
    · rename_i p' hswept
      obtain ⟨rfl, hreport⟩ := Prod.mk.inj h
      exact ⟨p, hwritten, Except.ok.inj hreport ▸ hswept⟩

/-- What both kinds of dealings preserve holds after a synchronisation. What is stale is found when
its directory is turned to. -/
theorem synchronize_induction {P : Progress → Prop} {files : OrderedMap String String}
    {report : Report} {d' : Disk} (h : synchronize t d files = (d', .ok report))
    (start : P ⟨d, { directory := t.directory.text, dryRun := t.dryRun }⟩)
    (produce : ∀ e ∈ files.entries, ∀ p p', P p → syncFile t p e.1 e.2 = .ok p' → P p')
    (clear : ∀ m ∈ managed, ∀ p, P p → ∀ way ∈ p.disk.search (t.directory / m) extension,
      nameOf (m :: way) ∉ files.keys → ∀ q, P q → P (removeFile t q (nameOf (m :: way))
        { t.directory / m with segments := (t.directory / m).segments ++ way })) :
    P ⟨d', report⟩ := by
  obtain ⟨p, hwritten, hswept⟩ := synchronize_ok h
  rw [← removeStales_of_sweeps hswept]
  exact List.foldlRecOn managed _ (syncFiles_induction produce hwritten start) fun q hq m hm =>
    removeStale_induction hq (clear m hm q hq)

/-- The disk after dealing with a file, also when that breaks the synchronisation off. -/
def diskOf : Except Disk Progress → Disk
  | .ok p => p.disk
  | .error d => d

theorem diskOf_syncFile (t : Target) (p : Progress) (name body : String) :
    diskOf (syncFile t p name body) = p.disk ∨ MayWrite p.disk (t.pathOf name) ∧
      ∃ text, diskOf (syncFile t p name body) = (p.disk.writeText (t.pathOf name) text).1 := by
  rcases syncFile_cases t p name body with
    ⟨f, -, h⟩ | ⟨head, -, -, h⟩ | ⟨head, -, -, h⟩ | ⟨hm, h⟩
  · exact .inl (by rw [h]; rfl)
  · exact .inl (by rw [h]; rfl)
  · exact .inl (by rw [h]; rfl)
  · rw [h]
    rcases writeFile_cases t p name (t.pathOf name)
      (Header.write (Header.banner t.command t.clock) body) with
      ⟨-, size, h⟩ | ⟨-, disk, r, hw, ⟨size, -, h⟩ | ⟨-, h⟩ | ⟨f, -, -, h⟩⟩
    · exact .inl (by rw [h]; rfl)
    all_goals exact .inr ⟨hm, _, by rw [h, hw]; rfl⟩

theorem disk_removeFile (t : Target) (p : Progress) (name : String) (path : FilePath) :
    (removeFile t p name path).disk = p.disk ∨
      ∃ s, p.disk.readText path = .ok s ∧ (Header.parse s).isFrozen = false ∧
        (removeFile t p name path).disk = (p.disk.remove path).1 := by
  rcases removeFile_cases t p name path with
    ⟨f, -, h⟩ | ⟨s, -, -, h⟩ | ⟨s, hs, hthawed, ⟨-, h⟩ | ⟨-, disk, hd, h⟩ | ⟨-, disk, f, hd, h⟩⟩
  · exact .inl (by rw [h]; rfl)
  · exact .inl (by rw [h]; rfl)
  · exact .inl (by rw [h]; rfl)
  all_goals exact .inr ⟨s, hs, hthawed, by rw [h, hd]; rfl⟩

theorem diskOf_syncFiles_induction {P : Disk → Prop} {entries : List (String × String)}
    (hp : P p.disk) (write : ∀ e ∈ entries, ∀ d, P d → MayWrite d (t.pathOf e.1) →
      ∀ text, P (d.writeText (t.pathOf e.1) text).1) :
    P (diskOf (entries.foldlM (fun p e => syncFile t p e.1 e.2) p)) := by
  induction entries generalizing p with
  | nil => exact hp
  | cons e rest ih =>
    have step : P (diskOf (syncFile t p e.1 e.2)) := by
      rcases diskOf_syncFile t p e.1 e.2 with hd | ⟨hm, text, hd⟩
      · rwa [hd]
      · rw [hd]
        exact write e (List.mem_cons_self ..) p.disk hp hm text
    rw [List.foldlM_cons]
    cases hs : syncFile t p e.1 e.2 with
    | error d =>
      rw [hs] at step
      exact step
    | ok p' =>
      rw [hs] at step
      exact ih step fun e he => write e (List.mem_cons_of_mem _ he)

def sweptDisk : Except (Disk × FilePath) Progress → Disk
  | .ok p => p.disk
  | .error (d, _) => d

theorem sweptDisk_sweep (t : Target) (produced : List String) (p : Progress) (m : String) :
    sweptDisk (sweep t produced p m) = p.disk ∨
      sweptDisk (sweep t produced p m) = (removeStale t produced p m).disk := by
  unfold sweep
  split
  · exact .inl rfl
  · exact .inr rfl

theorem sweptDisk_sweeps_induction {P : Disk → Prop} {ms : List String} (hp : P p.disk)
    (clear : ∀ m ∈ ms, ∀ p : Progress, P p.disk → P (removeStale t produced p m).disk) :
    P (sweptDisk (ms.foldlM (sweep t produced) p)) := by
  induction ms generalizing p with
  | nil => exact hp
  | cons m rest ih =>
    have step : P (sweptDisk (sweep t produced p m)) := by
      rcases sweptDisk_sweep t produced p m with hd | hd
      · rwa [hd]
      · rw [hd]
        exact clear m (List.mem_cons_self ..) p hp
    rw [List.foldlM_cons]
    cases hs : sweep t produced p m with
    | error e =>
      rw [hs] at step
      exact step
    | ok p' =>
      rw [hs] at step
      exact ih step fun m hm => clear m (List.mem_cons_of_mem _ hm)

theorem fst_synchronize {files : OrderedMap String String}
    (h : files.entries.foldlM (fun p e => syncFile t p e.1 e.2)
      ⟨d, { directory := t.directory.text, dryRun := t.dryRun }⟩ = .ok p) :
    (synchronize t d files).1 = sweptDisk (managed.foldlM (sweep t files.keys) p) := by
  unfold synchronize
  dsimp only
  rw [h]
  dsimp only
  cases managed.foldlM (sweep t files.keys) p <;> rfl

/-- What writing a produced file and removing a stale one preserve, every synchronisation preserves,
dry or not, and whether or not it comes to an end. -/
theorem disk_synchronize_induction {P : Disk → Prop} {files : OrderedMap String String}
    (start : P d)
    (write : ∀ n ∈ files.keys, ∀ d, P d → MayWrite d (t.pathOf n) →
      ∀ text, P (d.writeText (t.pathOf n) text).1)
    (remove : ∀ m ∈ managed, ∀ d, P d → ∀ way ∈ d.search (t.directory / m) extension,
      nameOf (m :: way) ∉ files.keys → ∀ d, P d → ∀ s,
        d.readText { t.directory / m with segments := (t.directory / m).segments ++ way } = .ok s →
        (Header.parse s).isFrozen = false →
        P (d.remove { t.directory / m with segments := (t.directory / m).segments ++ way }).1) :
    P (synchronize t d files).1 := by
  have written := diskOf_syncFiles_induction (t := t)
    (p := ⟨d, { directory := t.directory.text, dryRun := t.dryRun }⟩) start
    fun e he => write e.1 (List.mem_map_of_mem he)
  have cleared : ∀ m ∈ managed, ∀ p : Progress, P p.disk →
      P (removeStale t files.keys p m).disk := by
    intro m hm p hp
    refine removeStale_induction (P := fun p => P p.disk) hp fun way hway hstale q hq => ?_
    rcases disk_removeFile t q (nameOf (m :: way))
      { t.directory / m with segments := (t.directory / m).segments ++ way } with
      hd | ⟨s, hs, hthawed, hd⟩
    · rwa [hd]
    · rw [hd]
      exact remove m hm p.disk hp way hway hstale q.disk hq s hs hthawed
  cases hs : files.entries.foldlM (fun p e => syncFile t p e.1 e.2)
    ⟨d, { directory := t.directory.text, dryRun := t.dryRun }⟩ with
  | error d' =>
    rw [hs] at written
    unfold synchronize
    dsimp only
    rwa [hs]
  | ok p =>
    rw [hs] at written
    rw [fst_synchronize hs]
    exact sweptDisk_sweeps_induction written cleared

def sampleTarget : Target where
  directory := .ofText "out"
  command := "apigen-ts"
  clock := .ofSeconds 0

end HydraClient.Sync
