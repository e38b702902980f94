import HydraClient.Proofs.Assembly
import HydraClient.Proofs.InterfaceText
import HydraClient.Proofs.PlacedFiles
import HydraClient.Proofs.PropertyKeys
import HydraClient.Proofs.Reconciliation
import Mathlib.Data.List.Infix

/-! # Running again

A synchronisation that meets its own output has nothing left to do, as long as what it wrote is what
it reads. Line breaks are unified on the way back, so a body with a carriage return is written again
by every run.
-/
namespace HydraClient

namespace Sync

open Disk FilePath

variable {t : Target} {files : OrderedMap String String} {p p' p'' : Progress} {d d' : Disk}
  {name body : String} {path : FilePath}

/-- Every file that is produced has its body or opts out, and every other script opts out. -/
structure Settled (t : Target) (files : OrderedMap String String) (d : Disk) : Prop where
  produced : ∀ n body, files.get? n = some body →
    Reads d (t.pathOf n) fun h => h.body = body ∨ h.isFrozen = true
  stale : ∀ m ∈ managed, ∀ n ∈ stale t files.keys d m, Reads d (t.pathOf n) (·.isFrozen = true)

structure Idle (p p' : Progress) : Prop where
  disk : p'.disk = p.disk
  errors : p'.report.errors = p.report.errors
  records : ∃ rs, p'.report.records = p.report.records ++ rs ∧
    ∀ r ∈ rs, r.action = .unchanged ∨ r.action = .frozen

namespace Idle

theorem refl (p : Progress) : Idle p p := ⟨rfl, rfl, [], by simp, by simp⟩

theorem trans (h : Idle p p') (h' : Idle p' p'') : Idle p p'' := by
  obtain ⟨rs, hrs, hidle⟩ := h.records
  obtain ⟨rs', hrs', hidle'⟩ := h'.records
  refine ⟨h'.disk.trans h.disk, h'.errors.trans h.errors, rs ++ rs', ?_,
    List.forall_mem_append.2 ⟨hidle, hidle'⟩⟩
  rw [hrs', hrs, List.append_assoc]

theorem record {r : Record} (h : r.action = .unchanged ∨ r.action = .frozen) :
    Idle p (p.record r) :=
  ⟨rfl, rfl, [r], rfl, by simpa using h⟩

theorem syncFile (h : Reads p.disk (t.pathOf name) fun h => h.body = body ∨ h.isFrozen = true) :
    ∃ p', Sync.syncFile t p name body = .ok p' ∧ Idle p p' := by
  obtain ⟨s, hs, hkept⟩ := h
  rw [Sync.syncFile, existing_of_readText hs]
  dsimp only
  by_cases hbody : (Header.parse s).body = body
  · rw [if_pos hbody]
    exact ⟨_, rfl, .record (.inl rfl)⟩
  · rw [if_neg hbody, if_pos (hkept.resolve_left hbody)]
    exact ⟨_, rfl, .record (.inr rfl)⟩

theorem removeFile (h : Reads p.disk path (·.isFrozen = true)) (t : Target) (name : String) :
    Idle p (removeFile t p name path) := by
  obtain ⟨s, hs, hfrozen⟩ := h
  rw [Sync.removeFile, hs]
  dsimp only
  rw [if_pos hfrozen]
  exact .record (.inr rfl)

theorem foldl {α : Type} {f : Progress → α → Progress} {l : List α}
    (h : ∀ a ∈ l, ∀ q, q.disk = p.disk → Idle q (f q a)) : Idle p (l.foldl f p) := by
  induction l generalizing p with
  | nil => exact .refl p
  | cons a rest ih =>
    have step := h a List.mem_cons_self p rfl
    refine step.trans (ih fun b hb q hq => ?_)
    exact h b (List.mem_cons_of_mem _ hb) q (hq.trans step.disk)

theorem syncFiles (files : List (String × String))
    (h : ∀ e ∈ files, Reads p.disk (t.pathOf e.1) fun h => h.body = e.2 ∨ h.isFrozen = true) :
    ∃ p', files.foldlM (fun p e => Sync.syncFile t p e.1 e.2) p = .ok p' ∧ Idle p p' := by
  induction files generalizing p with
  | nil => exact ⟨p, rfl, .refl p⟩
  | cons e rest ih =>
    obtain ⟨p₁, hsync, step⟩ := syncFile (h e List.mem_cons_self)
    obtain ⟨p', hfold, hrest⟩ := ih (p := p₁) fun e he =>
      step.disk ▸ h e (List.mem_cons_of_mem _ he)
    exact ⟨p', by rw [List.foldlM_cons, hsync]; exact hfold, step.trans hrest⟩

theorem sweeps (produced ms : List String)
    (hsearch : ∀ m ∈ ms, p.disk.unsearchable? (t.directory / m) = none)
    (h : ∀ m ∈ ms, ∀ q, q.disk = p.disk → Idle q (removeStale t produced q m)) :
    ∃ p', ms.foldlM (sweep t produced) p = .ok p' ∧ Idle p p' := by
  induction ms generalizing p with
  | nil => exact ⟨p, rfl, .refl p⟩
  | cons m rest ih =>
    have step := h m List.mem_cons_self p rfl
    obtain ⟨p', hfold, hrest⟩ := ih (p := removeStale t produced p m)
      (fun m' hm' => step.disk ▸ hsearch m' (List.mem_cons_of_mem _ hm'))
      fun m' hm' q hq => h m' (List.mem_cons_of_mem _ hm') q (hq.trans step.disk)
    refine ⟨p', ?_, step.trans hrest⟩
    rw [List.foldlM_cons, sweep_of_searchable (hsearch m List.mem_cons_self)]
    exact hfold

end Idle

namespace Settled

theorem of_directory (h : Settled t files d) (t' : Target) (hdir : t'.directory = t.directory) :
    Settled t' files d := by
  obtain ⟨directory, command, clock, dryRun⟩ := t'
  subst hdir
  exact ⟨h.produced, h.stale⟩

/-- On a settled disk whose managed directories can be searched, no run does anything, dry or
not. -/
theorem synchronize (h : Settled t files d) (hd : Named d)
    (hsearch : ∀ m ∈ managed, d.unsearchable? (t.directory / m) = none) :
    ∃ report, synchronize t d files = (d, .ok report) ∧ report.errors = [] ∧
      ∀ r ∈ report.records, r.action = .unchanged ∨ r.action = .frozen := by
  obtain ⟨p, hwritten, hwrote⟩ := Idle.syncFiles (t := t)
    (p := ⟨d, { directory := t.directory.text, dryRun := t.dryRun }⟩) files.entries
    fun e he => h.produced e.1 e.2 (OrderedMap.mem_entries_iff.1 he)
  obtain ⟨p', hswept, hcleared⟩ := Idle.sweeps (t := t) (p := p) files.keys managed
    (hwrote.disk ▸ hsearch) fun m hm q hq => by
      have hq : q.disk = d := hq.trans hwrote.disk
      rw [removeStale_eq files.keys hm (hq ▸ hd), hq]
      exact .foldl fun n hn q' hq' => .removeFile (hq'.trans hq ▸ h.stale m hm n hn) t n
  have idle := hwrote.trans hcleared
  obtain ⟨rs, hrecords, hidle⟩ := idle.records
  refine ⟨p'.report, ?_, idle.errors, ?_⟩
  · unfold Sync.synchronize
    dsimp only
    rw [hwritten]
    dsimp only
    rw [hswept]
    dsimp only
    rw [idle.disk]
  · rw [hrecords]
    simpa using hidle

end Settled

theorem no_return_of_reads (h : Reads d path (·.body = body)) : '\r' ∉ body.toList := by
  obtain ⟨s, hs, rfl⟩ := h
  obtain ⟨c, text, -, -, rfl⟩ := readText_ok_iff.1 hs
  refine Header.no_return_body ?_
  rw [String.toList_ofList]
  exact Text.no_return_unifyBreaks _

theorem Report.mem_named_iff {r : Report} {a : Action} {n : String} :
    n ∈ r.named a ↔ ∃ x ∈ r.records, x.action = a ∧ x.name = n := by
  simp [Report.named, and_assoc]

namespace Passed

variable {ws ss : List Record} {p₁ : Progress} {r : Record}

theorem errors_eq_nil_iff (h : Passed t files ws ss p p₁ p') (herrors : p.report.errors = []) :
    p'.report.errors = [] ↔ ∀ r ∈ ws ++ ss, r.action ≠ .failed := by
  have htold : p'.report.told = failures (ws ++ ss) := by
    rw [h.course.errors, Report.told, herrors]
    rfl
  rw [← List.map_eq_nil_iff (f := fun e : Diagnostic => (e.category, e.context)), ← Report.told,
    htold, failures, List.map_eq_nil_iff, List.filter_eq_nil_iff]
  simp

theorem exists_record (h : Passed t files ws ss p p₁ p') {n : String}
    (hn : files.get? n = some body) : ∃ r ∈ ws, r.name = n := by
  have hkey : n ∈ ws.map (·.name) :=
    h.wrote.names ▸ List.mem_map_of_mem (OrderedMap.mem_entries_iff.2 hn)
  exact List.mem_map.1 hkey

theorem tells (h : Passed t files ws ss p p₁ p') (hr : r ∈ ws) (ha : r.action ≠ .failed)
    (hbody : files.get? r.name = some body) :
    Reads p'.disk (t.pathOf r.name) (Tells body r.action) := by
  obtain ⟨body', hbody', hreads⟩ := h.reads hr ha
  obtain rfl := Option.some.inj (hbody.symm.trans hbody')
  exact hreads

theorem reads_frozen (h : Passed t files ws ss p p₁ p') (hr : r ∈ ss) (ha : r.action = .frozen) :
    Reads p'.disk (t.pathOf r.name) (·.isFrozen = true) := by
  refine h.cleared.course.reads (h.cleared.frozen r hr ha) fun r' hr' hc hplace => ?_
  obtain rfl := h.eq_of_place (List.mem_append_right ws hr') (List.mem_append_right ws hr) hplace
  rcases hc with hc | hc <;> simp [ha] at hc

/-- A run that nothing fails in leaves a settled disk, if no carriage return was written. -/
theorem settled (h : Passed t files ws ss p p₁ p') (hok : ∀ r ∈ ws ++ ss, r.action ≠ .failed)
    (hplain : ∀ r ∈ ws, r.action = .written → ∀ body, files.get? r.name = some body →
      '\r' ∉ body.toList) : Settled t files p'.disk where
  produced := by
    intro n body hbody
    obtain ⟨r, hr, rfl⟩ := h.exists_record hbody
    have hr' := List.mem_append_left ss hr
    have htells := h.tells hr (hok r hr') hbody
    refine htells.mono fun head htells => ?_
    cases ha : r.action with
    | written =>
      rw [ha] at htells
      exact .inl (htells.1.trans (Text.unified_eq_self_iff.2 (hplain r hr ha body hbody)))
    | unchanged => exact .inl (by rwa [ha] at htells)
    | frozen => exact .inr (by rwa [ha] at htells)
    | removed => exact absurd ha (h.wrote.not_removed r hr)
    | failed => exact absurd ha (hok r hr')
  stale := by
    intro m hm n hn
    obtain ⟨hproduced, l, hscript, hl⟩ := Sync.mem_stale_iff.1 hn
    have hscript₁ := h.cleared.scriptBelow.1 hscript
    have hl₁ : p₁.disk.find? l ≠ none := mt h.cleared.none_of_none hl
    obtain ⟨r, hr, rfl⟩ := List.mem_map.1 ((h.stale n).2 ⟨hproduced, m, hm, l, hscript₁, hl₁⟩)
    rcases h.cleared.actions r hr with ha | ha | ha
    · exact h.reads_frozen hr ha
    · have hgone := h.cleared.gone r hr ha
      rw [← (hscript₁.spells hm h.named hl₁).1] at hgone
      exact absurd hgone hl
    · exact absurd ha (hok r (List.mem_append_right ws hr))

theorem overwritable (h : Passed t files ws ss p p₁ p') (hr : r ∈ ws) (ha : r.action = .written) :
    Overwritable p.disk.home (t.pathOf r.name) := by
  obtain ⟨way, hway⟩ := h.spells (List.mem_append_left ss hr)
  have hname : (t.pathOf r.name).name = way.getLast hway.nonempty := by
    rw [hway.pathOf, FilePath.name, List.getLast?_append_of_ne_nil _ hway.nonempty,
      List.getLast?_eq_some_getLast hway.nonempty]
    rfl
  refine ⟨by simp [hway.pathOf, hway.nonempty], ?_, h.wrote.room r hr ha⟩
  rw [hname]
  exact (hway.names _ (List.getLast_mem hway.nonempty)).2.2.1

end Passed

theorem isNameable_of_reads {P : Header → Prop} (h : Reads d path P) : path.isNameable = true := by
  obtain ⟨s, hs, -⟩ := h
  obtain ⟨c, _, hbytes, -⟩ := readText_ok_iff.1 hs
  exact (readBytes_ok_iff.1 hbytes).1

/-- A synchronisation succeeds where every file that it produces is there to be written over, every
other script can be read and the managed directories can be searched. -/
theorem synchronize_succeeds (ho : Orderly t files d)
    (hover : ∀ n ∈ files.keys,
      Overwritable d.home (t.pathOf n) ∧ Reads d (t.pathOf n) fun _ => True)
    (hscripts : ∀ m ∈ managed, ∀ n way, Spells n (m :: way) →
      d.find? (d.placeOf (t.pathOf n)) ≠ none → Reads d (t.pathOf n) fun _ => True)
    (hr : d.Reaches t.directory) (hsearch : ∀ m ∈ managed, d.Searchable (t.directory / m)) :
    ∃ d' report, synchronize t d files = (d', .ok report) ∧ report.errors = [] := by
  obtain ⟨report, hreport⟩ := (exists_synchronize_iff files fun n hn =>
    isNameable_of_reads (hover n hn).2).2 fun m hm =>
      (searchable_synchronize hr ho.names hm (hsearch m hm)).unsearchable?
  have hrun : synchronize t d files = ((synchronize t d files).1, .ok report) :=
    Prod.ext rfl hreport
  generalize (synchronize t d files).1 = d' at hrun
  obtain ⟨ws, ss, p, p₁, p', hpassed, rfl, -, herrors, rfl, rfl⟩ :=
    passed_of_synchronize ho hrun
  have hkeys : ∀ r ∈ ws, r.name ∈ files.keys := fun r hr => by
    have hmem : r.name ∈ ws.map (·.name) := List.mem_map_of_mem hr
    rwa [hpassed.wrote.names] at hmem
  have hfine : ∀ r ∈ ws ++ ss, r.action ≠ .failed := by
    intro r hr hfailed
    rcases List.mem_append.1 hr with hws | hss
    · obtain ⟨hpath, hreads⟩ := hover r.name (hkeys r hws)
      exact hpassed.wrote.overwrites r hws hpath hreads hfailed
    · obtain ⟨-, m, hm, l, hscript, hl⟩ := (hpassed.stale r.name).1 (List.mem_map_of_mem hss)
      obtain ⟨hplace, way, hway⟩ := hscript.spells hm hpassed.named hl
      have hthere := hpassed.wrote.within (fun r hr => hover r.name (hkeys r hr)) l hl
      rw [hplace, hpassed.wrote.course.alters.placeOf] at hthere
      refine hpassed.cleared.fails r hss hfailed (hpassed.reads_kept hr ?_
        (hscripts m hm r.name way hway hthere))
      simp [Record.Changes, hfailed]
  exact ⟨_, _, hrun, (hpassed.errors_eq_nil_iff herrors).2 hfine⟩

theorem not_frozen_of_reads {report : Report} (ho : Orderly t files d)
    (hrun : synchronize t d files = (d', .ok report)) (hbody : files.get? name = some body)
    (hreads : Reads d (t.pathOf name) (·.isFrozen = false)) : name ∉ report.named .frozen := by
  obtain ⟨ws, ss, p, p₁, p', hpassed, rfl, hrecords, -, -, rfl⟩ := passed_of_synchronize ho hrun
  intro hmem
  obtain ⟨r, hr, ha, rfl⟩ := Report.mem_named_iff.1 hmem
  rw [hpassed.course.records, hrecords, List.nil_append] at hr
  obtain ⟨r', hr', hname⟩ := hpassed.exists_record hbody
  obtain rfl := hpassed.unique (List.mem_append_left ss hr') hr hname
  have htells := hpassed.tells hr' (by simp [ha]) hbody
  rw [ha] at htells
  obtain ⟨s, htext, hthawed⟩ := hpassed.reads_kept hr (by simp [Record.Changes, ha]) hreads
  obtain ⟨s', htext', hfrozen⟩ := htells
  obtain rfl := Except.ok.inj (htext.symm.trans htext')
  exact absurd (hfrozen.symm.trans hthawed) (by decide)

theorem written_of_reads {report : Report} (ho : Orderly t files d)
    (hrun : synchronize t d files = (d', .ok report)) (hbody : files.get? name = some body)
    (hover : Overwritable d.home (t.pathOf name))
    (hreads : Reads d (t.pathOf name) fun h => h.isFrozen = false ∧ h.body ≠ body) :
    name ∈ report.named .written := by
  have hthawed := not_frozen_of_reads ho hrun hbody (hreads.mono fun _ h => h.1)
  obtain ⟨ws, ss, p, p₁, p', hpassed, rfl, hrecords, -, -, rfl⟩ := passed_of_synchronize ho hrun
  obtain ⟨r, hr, rfl⟩ := hpassed.exists_record hbody
  have hr' := List.mem_append_left ss hr
  have hrecorded : r ∈ p'.report.records := by
    rw [hpassed.course.records, hrecords]
    exact hr'
  cases ha : r.action with
  | written => exact Report.mem_named_iff.2 ⟨r, hrecorded, ha, rfl⟩
  | unchanged =>
    have htells := hpassed.tells hr (by simp [ha]) hbody
    rw [ha] at htells
    obtain ⟨s, htext, -, hother⟩ := hpassed.reads_kept hr' (by simp [Record.Changes, ha]) hreads
    obtain ⟨s', htext', hsame⟩ := htells
    obtain rfl := Except.ok.inj (htext.symm.trans htext')
    exact absurd hsame hother
  | frozen => exact absurd (Report.mem_named_iff.2 ⟨r, hrecorded, ha, rfl⟩) hthawed
  | removed => exact absurd ha (hpassed.wrote.not_removed r hr)
  | failed => exact absurd ha (hpassed.wrote.overwrites r hr hover (hreads.mono fun _ _ => trivial))

theorem written_again {report : Report} (ho : Orderly t files d)
    (hrun : synchronize t d files = (d', .ok report)) (hbody : files.get? name = some body)
    (hreturn : '\r' ∈ body.toList) (hover : Overwritable d.home (t.pathOf name))
    (hreads : Reads d (t.pathOf name) (·.isFrozen = false)) : name ∈ report.named .written := by
  obtain ⟨s, hs, hthawed⟩ := hreads
  refine written_of_reads ho hrun hbody hover ⟨s, hs, hthawed, fun hsame => ?_⟩
  exact no_return_of_reads ⟨s, hs, hsame⟩ hreturn

/-- After a run that nothing fails in, a file whose body has a carriage return opts out, or has just
been written and lacks the carriage return. -/
theorem frozen_or_written {report : Report} (ho : Orderly t files d)
    (hrun : synchronize t d files = (d', .ok report)) (hok : report.errors = [])
    (hbody : files.get? name = some body) (hreturn : '\r' ∈ body.toList) :
    name ∈ report.named .frozen ∨
      Overwritable d'.home (t.pathOf name) ∧ Reads d' (t.pathOf name) (Tells body .written) := by
  obtain ⟨ws, ss, p, p₁, p', hpassed, rfl, hrecords, herrors, rfl, rfl⟩ :=
    passed_of_synchronize ho hrun
  obtain ⟨r, hr, rfl⟩ := hpassed.exists_record hbody
  have hr' := List.mem_append_left ss hr
  have hfine := (hpassed.errors_eq_nil_iff herrors).1 hok r hr'
  have htells := hpassed.tells hr hfine hbody
  cases ha : r.action with
  | frozen =>
    refine .inl (Report.mem_named_iff.2 ⟨r, ?_, ha, rfl⟩)
    rw [hpassed.course.records, hrecords]
    exact hr'
  | unchanged =>
    rw [ha] at htells
    exact absurd hreturn (no_return_of_reads htells)
  | removed => exact absurd ha (hpassed.wrote.not_removed r hr)
  | failed => exact absurd ha hfine
  | written =>
    exact .inr ⟨hpassed.course.alters.home ▸ hpassed.overwritable hr ha, ha ▸ htells⟩

theorem Orderly.again {report : Report} (ho : Orderly t files d)
    (hrun : synchronize t d files = (d', .ok report)) (clock : Timestamp) :
    Orderly { t with clock } files d' := by
  obtain ⟨ws, ss, p, p₁, p', hpassed, -, -, -, rfl, -⟩ := passed_of_synchronize ho hrun
  exact ⟨ho.not_dry, ho.command, ho.directory, hpassed.cleared.named hpassed.named, ho.names⟩

/-- Another run leaves everything as the run before left it, and reports no change, exactly if every
file whose body has a carriage return opts out. -/
theorem synchronize_again {report : Report} (ho : Orderly t files d)
    (hrun : synchronize t d files = (d', .ok report)) (hok : report.errors = [])
    (clock : Timestamp) :
    (∃ again, synchronize { t with clock } d' files = (d', .ok again) ∧ again.errors = [] ∧
      again.named .written = [] ∧ again.named .removed = []) ↔
    ∀ n body, files.get? n = some body → '\r' ∈ body.toList → n ∈ report.named .frozen := by
  have hnext := ho.again hrun clock
  constructor
  · rintro ⟨again, hagain, -, hwritten, -⟩ n body hbody hreturn
    refine (frozen_or_written ho hrun hok hbody hreturn).resolve_right ?_
    rintro ⟨hover, hreads⟩
    have hmem := written_again hnext hagain hbody hreturn hover (hreads.mono fun _ h => h.2)
    rw [hwritten] at hmem
    cases hmem
  · intro hfrozen
    have hsettled : Settled t files d' := by
      obtain ⟨ws, ss, p, p₁, p', hpassed, rfl, hrecords, herrors, rfl, rfl⟩ :=
        passed_of_synchronize ho hrun
      refine hpassed.settled ((hpassed.errors_eq_nil_iff herrors).1 hok)
        fun r hr ha body hbody hreturn => ?_
      obtain ⟨r', hr', ha', hname⟩ := Report.mem_named_iff.1 (hfrozen r.name body hbody hreturn)
      rw [hpassed.course.records, hrecords, List.nil_append] at hr'
      obtain rfl := hpassed.unique hr' (List.mem_append_left ss hr) hname
      rw [ha] at ha'
      cases ha'
    have hsearch : ∀ m ∈ managed, d'.unsearchable? (t.directory / m) = none :=
      unsearchable?_of_synchronize hrun
    obtain ⟨again, hagain, herrors, hidle⟩ :=
      (hsettled.of_directory { t with clock } rfl).synchronize hnext.disk hsearch
    have hnone : ∀ a, a ≠ .unchanged → a ≠ .frozen → again.named a = [] := by
      intro a hunchanged hfrozen
      refine List.eq_nil_iff_forall_not_mem.2 fun n hn => ?_
      obtain ⟨r, hr, rfl, -⟩ := Report.mem_named_iff.1 hn
      exact (hidle r hr).elim hunchanged hfrozen
    exact ⟨again, hagain, herrors, hnone _ (by decide) (by decide), hnone _ (by decide) (by decide)⟩

theorem spells_of_isProper (h : IsProper (name ++ extension)) : ∃ way, Spells name way := by
  refine ⟨((name ++ extension).toList.splitOn '/').map String.ofList, by simp, ?_, ?_⟩
  · intro s hs
    obtain ⟨cs, hcs, rfl⟩ := List.mem_map.1 hs
    exact h cs hcs
  · rw [← String.toList_inj, String.toList_intercalate, List.map_map]
    simp [Function.comp_def]

end Sync

open Metadata

variable {doc : Document} {output : Option FilePath} {clock clock' : Timestamp}
  {disk disk' after : Disk} {d : Draft} {first report : Report} {sync : Sync.Report}

/-- The disk matters for what is built only by the helper that is read from it. -/
theorem Generates.of_helper (h : Generates doc disk d)
    (hhelper : BaseTypes.helper? doc.config disk' = BaseTypes.helper? doc.config disk) :
    Generates doc disk' d := by
  have hseed : BaseTypes.seed doc.config disk' = BaseTypes.seed doc.config disk := by
    unfold BaseTypes.seed
    rw [hhelper]
  obtain ⟨steps, hbuilt⟩ := h.built
  refine ⟨h.checked, steps, ?_⟩
  rw [← hbuilt]
  unfold Pipeline.build Pipeline.extraction
  rw [show (Catalog.ofDocument doc).config = doc.config from rfl, hseed]

theorem Generates.generate_of_synchronize (h : Generates doc disk d) (output : Option FilePath)
    (clock : Timestamp) (hplaced : d.files.unplaced? = none)
    (hsync : Sync.synchronize (doc.target output clock) disk d.files.assemble =
      (after, .ok sync)) :
    ∃ report, Pipeline.generate doc output { clock } disk = (after, .ok report) ∧
      report.Delivers d.files.assemble sync := by
  obtain ⟨steps, hbuilt⟩ := h.built
  have hrun := Pipeline.runsTo_generate doc output { clock } disk
  rcases hout : Pipeline.generate doc output { clock } disk with ⟨after', outcome⟩
  rw [hout] at hrun
  cases hrun with
  | refused herrors =>
    rw [h.checked] at herrors
    cases herrors
  | failed _ hfailed => cases hfailed.symm.trans hbuilt
  | broken _ hfailed => cases hfailed.symm.trans hbuilt
  | unplaced _ hbuilt' hplaced' =>
    cases hbuilt'.symm.trans hbuilt
    cases hplaced'.symm.trans hplaced
  | delivered _ hbuilt' _ hsync' hdelivers =>
    cases hbuilt'.symm.trans hbuilt
    cases hsync'.symm.trans hsync
    exact ⟨_, rfl, hdelivers⟩
  | interrupted _ hbuilt' hsync' =>
    cases hbuilt'.symm.trans hbuilt
    cases hsync'.symm.trans hsync

theorem Generates.synchronize_of_generate (h : Generates doc disk d)
    (hgenerate : Pipeline.generate doc output { clock } disk = (after, .ok report)) :
    d.files.unplaced? = none ∧
      ∃ sync, Sync.synchronize (doc.target output clock) disk d.files.assemble =
        (after, .ok sync) ∧ report.Delivers d.files.assemble sync := by
  obtain ⟨steps, hbuilt⟩ := h.built
  have hrun := Pipeline.runsTo_generate doc output { clock } disk
  rw [hgenerate] at hrun
  cases hrun with
  | refused herrors =>
    rw [h.checked] at herrors
    cases herrors
  | failed _ hfailed => cases hfailed.symm.trans hbuilt
  | delivered _ hbuilt' hplaced hsync hdelivers =>
    cases hbuilt'.symm.trans hbuilt
    exact ⟨hplaced, _, hsync, hdelivers⟩

/-- Running again does nothing, exactly if every file whose text has a carriage return opts out. -/
theorem generate_again (hdisk : disk.Named) (houtput : ∀ p, output = some p → p.IsSpelled)
    (hcommand : Header.Unbroken doc.config.commandName)
    (h : Pipeline.generate doc output { clock } disk = (after, .ok first))
    (hok : first.success = true) (hsync : first.sync = some sync)
    (hnames : ∀ n ∈ first.files.keys, Sync.IsProper (n ++ Sync.extension))
    (hhelper : BaseTypes.helper? doc.config after = BaseTypes.helper? doc.config disk) :
    (∃ second again, Pipeline.generate doc output { clock := clock' } after = (after, .ok second) ∧
      second.success = true ∧ second.sync = some again ∧ again.named .written = [] ∧
      again.named .removed = []) ↔
    ∀ n body, first.files.get? n = some body → '\r' ∈ body.toList → n ∈ sync.named .frozen := by
  obtain ⟨d, hd, -⟩ := generates_of_generate rfl h hok
  obtain ⟨hplaced, sync', hdone, hdelivers⟩ := hd.synchronize_of_generate h
  obtain rfl := Option.some.inj (hdelivers.sync.symm.trans hsync)
  rw [hdelivers.files] at hnames ⊢
  have hdirectory : (doc.target output clock).directory.IsSpelled := by
    cases output with
    | none => exact FilePath.isSpelled_ofText doc.config.outputDir
    | some p => exact houtput p rfl
  have ho : Sync.Orderly (doc.target output clock) d.files.assemble disk :=
    ⟨rfl, hcommand, hdirectory, hdisk, fun n hn => Sync.spells_of_isProper (hnames n hn)⟩
  have hd' : Generates doc after d := hd.of_helper hhelper
  rw [← Sync.synchronize_again ho hdone (hdelivers.success.1 hok) clock']
  constructor
  · rintro ⟨second, again, hsecond, hok', hagain, hunchanged⟩
    obtain ⟨-, again', hdone', hdelivers'⟩ := hd'.synchronize_of_generate hsecond
    obtain rfl := Option.some.inj (hdelivers'.sync.symm.trans hagain)
    exact ⟨again', hdone', hdelivers'.success.1 hok', hunchanged⟩
  · rintro ⟨again, hrun', herrors, hunchanged⟩
    obtain ⟨second, hsecond, hdelivers'⟩ :=
      hd'.generate_of_synchronize output clock' hplaced hrun'
    exact ⟨second, again, hsecond, hdelivers'.success.2 herrors, hdelivers'.sync, hunchanged⟩

theorem not_mem_intercalate {c : Char} {sep : String} {texts : List String}
    (hsep : c ∉ sep.toList) (h : ∀ text ∈ texts, c ∉ text.toList) :
    c ∉ (String.intercalate sep texts).toList := by
  induction texts with
  | nil => simp
  | cons text rest ih =>
    obtain ⟨htext, hrest⟩ := List.forall_mem_cons.1 h
    by_cases hnil : rest = []
    · subst hnil
      simpa using htext
    · rw [String.intercalate_cons_of_ne_nil hnil, String.toList_append, String.toList_append,
        List.mem_append, List.mem_append]
      exact not_or.2 ⟨not_or.2 ⟨htext, hsep⟩, ih hrest⟩

/-- A fragment without a carriage return in what is written of it. -/
structure Fragment.Plain (f : Fragment) : Prop where
  body : '\r' ∉ f.body.toList
  names : ∀ g ∈ f.imports.toList, ∀ n ∈ g.2.toList, '\r' ∉ n.toList

instance (f : Fragment) : Decidable f.Plain :=
  decidable_of_iff ('\r' ∉ f.body.toList ∧ ∀ g ∈ f.imports.toList, ∀ n ∈ g.2.toList,
    '\r' ∉ n.toList) ⟨fun h => ⟨h.1, h.2⟩, fun h => ⟨h.body, h.names⟩⟩

theorem SourceFile.no_return_assemble {file : String} {fragments : List Fragment}
    (h : ∀ f ∈ fragments, f.Plain) : '\r' ∉ (assemble file fragments).toList := by
  have layout := layout_ordered file fragments
  have hstatement : ∀ g ∈ groupsOf file (importsOf fragments),
      '\r' ∉ (statement file g).toList := by
    intro g hg
    have hnames : '\r' ∉ (String.intercalate ", " g.2).toList := by
      refine not_mem_intercalate (by decide) fun n hn => ?_
      obtain ⟨-, f, hf, g', hg', -, htakes⟩ := (layout.gathers.mem_names hg n).1 hn
      exact (h f hf).names g' hg' n htakes
    simp only [statement, String.toList_append, List.mem_append, not_or]
    exact ⟨⟨⟨⟨by decide, hnames⟩, by decide⟩, Json.no_break_quote _ (.inr rfl)⟩, by decide⟩
  have hparts : ∀ f ∈ ordered file fragments, '\r' ∉ f.body.toList := by
    intro f hf
    rcases List.mem_append.1 (layout.perm.subset hf) with hf | hf
    · exact (h f hf).body
    · rw [importFragment] at hf
      split at hf
      · cases hf
      · obtain rfl := List.mem_singleton.1 hf
        refine not_mem_intercalate (by decide) fun text htext => ?_
        obtain ⟨g, hg, rfl⟩ := List.mem_map.1 htext
        exact hstatement g hg
  rw [assemble_eq]
  split
  · simp
  · rw [String.toList_append, List.mem_append]
    refine not_or.2 ⟨not_mem_intercalate (by decide) fun text htext hmem => ?_, by decide⟩
    obtain ⟨f, hf, rfl⟩ := List.mem_map.1 (List.mem_filter.1 htext).1
    rw [Text.trimLines, String.toList_ofList, Text.trimWhere, List.mem_reverse] at hmem
    have hmem := List.mem_reverse.1 ((List.dropWhile_suffix _).subset hmem)
    exact hparts f hf ((List.dropWhile_suffix _).subset hmem)

/-- The guard of a book goes over two lines. -/
def guarded : Document where
  classes := [{
    className := "App\\Entity\\Book"
    exposures := [{
      shortName := "Book"
      security := some "a\r\nb"
      operations := [{ type := some "Get" }] }] }]

def guardedFiles : List String :=
  ["interfaces/ApiTypes", "interfaces/Enum", "interfaces/Book", "endpoint/Book"]

theorem guarded_fragment {file : String} {f : Fragment} (hf : f ∈ d.files.fragments file)
    (hr : Rendered (.ofDocument guarded) {} (extraction (.ofDocument guarded) {}) d) :
    file ∈ guardedFiles ∧ (file = "interfaces/Book" → f.Plain) := by
  cases hr.fragments.1 hf with
  | seed hhelper hf =>
    obtain rfl := Except.ok.inj hhelper
    simp only [BaseTypes.seededFiles, FileSet.mem_fragments_add] at hf
    rcases hf with (hf | ⟨rfl, -⟩) | ⟨rfl, -⟩
    · cases hf
    · exact ⟨by decide, fun hbook => absurd hbook (by decide)⟩
    · exact ⟨by decide, fun hbook => absurd hbook (by decide)⟩
  | payload hf =>
    obtain ⟨t, ht, -⟩ := hf
    rw [hr.types] at ht
    have hnone : ((extraction (.ofDocument guarded) {}).types.toList.filter
      Payload.isShaped).isEmpty = true := by decide +kernel
    rw [List.isEmpty_iff.1 hnone] at ht
    cases ht
  | types hf =>
    obtain ⟨e, he, rfl, hfragment⟩ := hf
    rw [hr.types] at he hfragment
    have hall : ∀ e ∈ (extraction (.ofDocument guarded) {}).types.byFile.entries,
        e.1 ∈ guardedFiles ∧ (e.1 = "interfaces/Book" →
          ∀ f ∈ (Render.typeFragment (extraction (.ofDocument guarded) {}).types e.2).toOption,
            f.Plain) := by
      decide +kernel
    exact ⟨(hall e he).1, fun hbook => (hall e he).2 hbook f (by rw [hfragment]; rfl)⟩
  | endpoint hf =>
    obtain ⟨e, he, _, _, -, rfl, -⟩ := hf
    rw [hr.operations] at he
    have hall : ∀ e ∈ (extraction (.ofDocument guarded) {}).operations.values,
        e.file ∈ guardedFiles ∧ e.file ≠ "interfaces/Book" := by decide +kernel
    exact ⟨(hall e he).1, fun hbook => absurd hbook (hall e he).2⟩
  | routes _ hf =>
    obtain ⟨lines, hlines, hf, -⟩ := hf
    obtain rfl : [] = lines := Except.ok.inj hlines
    cases hf

theorem mem_guardedFiles {n : String} (hn : n ∈ d.files.assemble.keys)
    (hr : Rendered (.ofDocument guarded) {} (extraction (.ofDocument guarded) {}) d) :
    n ∈ guardedFiles := by
  obtain ⟨f, hf⟩ := FileSet.exists_fragment_of_mem_keys hn
  exact (guarded_fragment hf hr).1

theorem no_return_book {body : String} (hbody : d.files.assemble.get? "interfaces/Book" = some body)
    (hr : Rendered (.ofDocument guarded) {} (extraction (.ofDocument guarded) {}) d) :
    '\r' ∉ body.toList := by
  obtain ⟨-, fragments, hfragments, rfl⟩ := FileSet.get?_assemble.1 hbody
  refine SourceFile.no_return_assemble fun f hf => ?_
  have hmem : f ∈ d.files.fragments "interfaces/Book" := by rwa [FileSet.fragments, hfragments]
  exact (guarded_fragment hmem hr).2 rfl

theorem solid_return : Solid "\r" :=
  ⟨⟨'\r', [], by decide, by decide⟩, ⟨[], '\r', by decide, by decide⟩⟩

/-- What is generated for the book. Only its endpoint has the line break of the guard. -/
structure BookProduced (d : Draft) : Prop where
  placed : d.files.unplaced? = none
  keys : ∀ n ∈ d.files.assemble.keys, n ∈ guardedFiles
  interface : ∃ body, d.files.assemble.get? "interfaces/Book" = some body ∧ '\r' ∉ body.toList
  endpoint : ∃ body, d.files.assemble.get? "endpoint/Book" = some body ∧ '\r' ∈ body.toList

theorem exists_generates_guarded (disk : Disk) :
    ∃ d, Generates guarded disk d ∧ BookProduced d := by
  obtain ⟨d, hd, -⟩ := exists_generates_of_isGenerated
    (show guarded.isGenerated = true by decide +kernel)
  obtain ⟨_, _, _, -, hr⟩ := hd.rendered
  refine ⟨d, hd.of_helper rfl, hd.unplaced?_eq_none (by decide +kernel),
    fun n hn => mem_guardedFiles hn hr, ?_, ?_⟩
  · have htyped : ((extraction (.ofDocument guarded) {}).types.get? "Book").map
        (fun t => (t.isRendered, t.kind, t.file)) =
          some (true, .interface, some "interfaces/Book") := by
      decide +kernel
    rw [← hr.types] at htyped
    obtain ⟨t, ht, heq⟩ := Option.map_eq_some_iff.1 htyped
    obtain ⟨hrendered, hkind, hfile⟩ : t.isRendered = true ∧ t.kind = .interface ∧
        t.file = some "interfaces/Book" := by simpa using heq
    obtain ⟨file, text, hfile', htext, -⟩ := hr.writes ht hrendered hkind
    obtain rfl := Option.some.inj (hfile.symm.trans hfile')
    exact ⟨text, htext, no_return_book htext hr⟩
  · have hserved : ∃ e ∈ (extraction (.ofDocument guarded) {}).operations.values,
        e.file = "endpoint/Book" ∧ ∃ b ∈ e.bindings.values, b.isExposed = true ∧
          ∃ line ∈ Render.objectLines b, '\r' ∈ line.toList := by
      decide +kernel
    obtain ⟨e, he, hfile, b, hb, hexposed, line, hline, hreturn⟩ := hserved
    obtain ⟨k, hb⟩ := OrderedMap.mem_values_iff.1 hb
    obtain ⟨body, imports, hendpoint⟩ := Render.endpoint?_of_exposed hb hexposed
    obtain ⟨lines, rfl, hobject, -⟩ := Render.mem_endpoint hendpoint hb hexposed
    have hguard : StandsIn "\r" line := (List.singleton_infix_iff ..).2 hreturn
    rw [← hr.operations] at he
    have hf := hr.fragments.2 (.endpoint ⟨e, he, _, imports, hendpoint, hfile.symm, rfl⟩)
    obtain ⟨text, htext, hstands⟩ := FileSet.exists_text_of_fragment
      (StandsIn.assembled solid_return) hf (hguard.intercalate (hobject line hline))
    exact ⟨text, htext, (List.singleton_infix_iff ..).1 hstands⟩

/-- A directory in which everything that is produced is there, with a text of its own in the
interface of the book. -/
def shelf (book others : String) : Disk where
  entries := .ofList [(["out"], .directory), (["out", "interfaces"], .directory),
    (["out", "endpoint"], .directory),
    (["out", "interfaces", "ApiTypes.ts"], .file others.toByteArray),
    (["out", "interfaces", "Enum.ts"], .file others.toByteArray),
    (["out", "interfaces", "Book.ts"], .file book.toByteArray),
    (["out", "endpoint", "Book.ts"], .file others.toByteArray)]

def shelfTarget (clock : Timestamp) : Sync.Target :=
  guarded.target (some (.ofText "out")) clock

theorem mem_guardedFiles_of_spells {book others m n : String} {way : List String}
    (h : Sync.Spells n (m :: way)) (hfound : (shelf book others).find?
      ((shelf book others).placeOf ((shelfTarget clock).pathOf n)) ≠ none) : n ∈ guardedFiles := by
  have hkeys : (shelf book others).entries.keys =
      [["out"], ["out", "interfaces"], ["out", "endpoint"],
    ["out", "interfaces", "ApiTypes.ts"], ["out", "interfaces", "Enum.ts"],
    ["out", "interfaces", "Book.ts"], ["out", "endpoint", "Book.ts"]] := rfl
  rw [h.placeOf] at hfound
  have hmem : "out" :: m :: way ∈ (shelf book others).entries.keys :=
    OrderedMap.mem_keys_iff.2 (Option.ne_none_iff_exists'.1 hfound)
  have htext := h.text
  rw [← h.nameOf] at htext ⊢
  simp only [hkeys, List.mem_cons, List.cons.injEq, reduceCtorEq, and_false, true_and,
    List.not_mem_nil, or_false, false_or] at hmem
  rcases hmem with ⟨rfl, rfl⟩ | ⟨rfl, rfl⟩ | ⟨rfl, rfl⟩ | ⟨rfl, rfl⟩ | ⟨rfl, rfl⟩ | ⟨rfl, rfl⟩
  · revert htext; decide
  · revert htext; decide
  all_goals decide

theorem named_shelf (book others : String) : Disk.Named (shelf book others) := of_decide_eq_true rfl

theorem isProper_guardedFiles : ∀ n ∈ guardedFiles, Sync.IsProper (n ++ Sync.extension) := by decide

theorem searchable_shelf (clock : Timestamp) (book others : String) :
    ∀ m ∈ Sync.managed, (shelf book others).Searchable ((shelfTarget clock).directory / m) :=
  of_decide_eq_true rfl

theorem reaches_shelf (clock : Timestamp) (disk : Disk) :
    disk.Reaches (shelfTarget clock).directory :=
  Disk.reaches_of_no_steps (by decide : ".." ∉ (FilePath.ofText "out").segments)

theorem orderly_shelf (clock : Timestamp) (book others : String)
    (hkeys : ∀ n ∈ d.files.assemble.keys, n ∈ guardedFiles) :
    Sync.Orderly (shelfTarget clock) d.files.assemble (shelf book others) where
  not_dry := rfl
  command := show Header.Unbroken guarded.config.commandName by decide
  directory := FilePath.isSpelled_ofText "out"
  disk := named_shelf book others
  names n hn := Sync.spells_of_isProper (isProper_guardedFiles n (hkeys n hn))

theorem overwritable_shelf (clock : Timestamp) (others : String)
    (hothers : others ∈ ["", "// @no-regenerate\nmine\n"]) {n : String}
    (hn : n ∈ guardedFiles) :
    Disk.Overwritable (shelf "" others).home ((shelfTarget clock).pathOf n) ∧
      Sync.Reads (shelf "" others) ((shelfTarget clock).pathOf n) fun _ => True := by
  have hall : ∀ others ∈ ["", "// @no-regenerate\nmine\n"], ∀ n ∈ guardedFiles,
      Disk.Overwritable (shelf "" others).home ((shelfTarget (.ofSeconds 0)).pathOf n) ∧
      Sync.Reads (shelf "" others) ((shelfTarget (.ofSeconds 0)).pathOf n) fun _ => True := by
    decide +kernel
  exact hall others hothers n hn

theorem synchronize_shelf (clock : Timestamp) (others : String)
    (hothers : others ∈ ["", "// @no-regenerate\nmine\n"])
    (hkeys : ∀ n ∈ d.files.assemble.keys, n ∈ guardedFiles) :
    ∃ after sync, Sync.synchronize (shelfTarget clock) (shelf "" others) d.files.assemble =
      (after, .ok sync) ∧ sync.errors = [] :=
  Sync.synchronize_succeeds (orderly_shelf clock "" others hkeys)
    (fun n hn => overwritable_shelf clock others hothers (hkeys n hn))
    (fun _ _ _ _ hway hl =>
      (overwritable_shelf clock others hothers (mem_guardedFiles_of_spells hway hl)).2)
    (reaches_shelf clock _) (searchable_shelf clock "" others)

theorem frozen_of_shelf {clock : Timestamp} {outcome : Except Failure Sync.Report}
    (hkeys : ∀ n ∈ d.files.assemble.keys, n ∈ guardedFiles)
    (hrun : Sync.synchronize (shelfTarget clock) (shelf "" "// @no-regenerate\nmine\n")
      d.files.assemble = (after, outcome)) {n s : String} (hn : n ∈ guardedFiles)
    (hbook : n ≠ "interfaces/Book") (hs : after.readText ((shelfTarget clock).pathOf n) = .ok s) :
    (Header.parse s).isFrozen = true := by
  have hall : ∀ n ∈ guardedFiles, ".." ∉ ((shelfTarget (.ofSeconds 0)).pathOf n).segments ∧
      (n ≠ "interfaces/Book" → (shelf "" "// @no-regenerate\nmine\n").status
        ((shelfTarget (.ofSeconds 0)).pathOf n) =
          .ok (.file "// @no-regenerate\nmine\n".toByteArray)) := by
    decide +kernel
  obtain ⟨l, hl, hfile⟩ := Disk.status_ok_iff.1 ((hall n hn).2 hbook)
  have untouched := Sync.Untouched.synchronize
    (⟨by decide +kernel, .refl _ _⟩ : Sync.Untouched l (shelf "" "// @no-regenerate\nmine\n") _)
    hfile Sync.optsOut_keptDisk (shelfTarget clock) d.files.assemble
    fun n hn => Disk.reaches_of_no_steps (hall n (hkeys n hn)).1
  rw [hrun] at untouched
  exact Sync.Untouched.isFrozen_of_readText (untouched.content hfile) Sync.optsOut_keptDisk
    (untouched.alters.locate hl) hs

/-- A guard over two lines does no harm where the endpoint opts out. The interface of the book is
written by the first run and found by the second one. -/
theorem generate_guarded_again : ∃ after first sync second again,
    Pipeline.generate guarded (some (.ofText "out")) { clock := .ofSeconds 0 }
      (shelf "" "// @no-regenerate\nmine\n") = (after, .ok first) ∧
    first.success = true ∧ first.sync = some sync ∧ "interfaces/Book" ∈ sync.named .written ∧
    Pipeline.generate guarded (some (.ofText "out")) { clock := .ofSeconds 60 } after =
      (after, .ok second) ∧
    second.success = true ∧ second.sync = some again ∧ again.named .written = [] ∧
    again.named .removed = [] := by
  obtain ⟨d, hd, hbook⟩ := exists_generates_guarded (shelf "" "// @no-regenerate\nmine\n")
  have ho := orderly_shelf (.ofSeconds 0) "" "// @no-regenerate\nmine\n" hbook.keys
  obtain ⟨after, sync, hrun, herrors⟩ := synchronize_shelf (.ofSeconds 0)
    "// @no-regenerate\nmine\n" (by simp) hbook.keys
  obtain ⟨first, hfirst, hdelivers⟩ :=
    hd.generate_of_synchronize (some (.ofText "out")) (.ofSeconds 0) hbook.placed hrun
  have hok := hdelivers.success.2 herrors
  have hwritten : "interfaces/Book" ∈ sync.named .written := by
    obtain ⟨body, hbody, -⟩ := hbook.interface
    have hreads : Sync.Reads (shelf "" "// @no-regenerate\nmine\n")
        ((shelfTarget (.ofSeconds 0)).pathOf "interfaces/Book")
        fun h => h.isFrozen = false ∧ h.body = "" := by decide +kernel
    refine Sync.written_of_reads ho hrun hbody (overwritable_shelf _ _ (by simp) (by decide)).1
      (hreads.mono fun h hread => ⟨hread.1, fun hsame => ?_⟩)
    exact (FileSet.get?_assemble.1 hbody).1 (hsame.symm.trans hread.2)
  obtain ⟨second, again, hsecond⟩ : ∃ second again,
      Pipeline.generate guarded (some (.ofText "out")) { clock := .ofSeconds 60 } after =
        (after, .ok second) ∧ second.success = true ∧ second.sync = some again ∧
        again.named .written = [] ∧ again.named .removed = [] :=
    (generate_again (named_shelf _ _)
      (fun p hp => Option.some.inj hp ▸ FilePath.isSpelled_ofText "out") (by decide) hfirst hok
      hdelivers.sync (fun n hn => isProper_guardedFiles n (hbook.keys n (hdelivers.files ▸ hn)))
      rfl).2 fun n body hbody hreturn => by
        rw [hdelivers.files] at hbody
        refine (Sync.frozen_or_written ho hrun herrors hbody hreturn).resolve_right ?_
        rintro ⟨-, s, hs, -, hthawed⟩
        have hn := hbook.keys n (OrderedMap.mem_keys_iff.2 ⟨body, hbody⟩)
        have hne : n ≠ "interfaces/Book" := by
          rintro rfl
          obtain ⟨body', hbody', hplain⟩ := hbook.interface
          exact hplain (Option.some.inj (hbody.symm.trans hbody') ▸ hreturn)
        rw [frozen_of_shelf hbook.keys hrun hn hne hs] at hthawed
        cases hthawed
  exact ⟨after, first, sync, second, again, hfirst, hok, hdelivers.sync, hwritten, hsecond⟩

/-- A guard over two lines is written by the second run as well. -/
theorem guarded_written_again : ∃ after first second again,
    Pipeline.generate guarded (some (.ofText "out")) { clock := .ofSeconds 0 } (shelf "" "") =
      (after, .ok first) ∧ first.success = true ∧
    (Pipeline.generate guarded (some (.ofText "out")) { clock := .ofSeconds 60 } after).2 =
      .ok second ∧ second.sync = some again ∧ "endpoint/Book" ∈ again.named .written := by
  obtain ⟨d, hd, hbook⟩ := exists_generates_guarded (shelf "" "")
  obtain ⟨body, hbody, hreturn⟩ := hbook.endpoint
  have ho := orderly_shelf (.ofSeconds 0) "" "" hbook.keys
  obtain ⟨after, sync, hrun, herrors⟩ :=
    synchronize_shelf (.ofSeconds 0) "" (by simp) hbook.keys
  obtain ⟨first, hfirst, hdelivers⟩ :=
    hd.generate_of_synchronize (some (.ofText "out")) (.ofSeconds 0) hbook.placed hrun
  have hthawed : Sync.Reads (shelf "" "") ((shelfTarget (.ofSeconds 0)).pathOf "endpoint/Book")
      (·.isFrozen = false) := by decide +kernel
  obtain ⟨hroom, hreads⟩ := (Sync.frozen_or_written ho hrun herrors hbody hreturn).resolve_left
    (Sync.not_frozen_of_reads ho hrun hbody hthawed)
  have hnext := ho.again hrun (.ofSeconds 60)
  have hsearch : ∀ m ∈ Sync.managed, after.Searchable (FilePath.ofText "out" / m) := fun m hm => by
    have hsearch := Sync.searchable_synchronize (t := shelfTarget (.ofSeconds 0))
      (reaches_shelf _ _) ho.names hm (searchable_shelf _ "" "" m hm)
    rw [hrun] at hsearch
    exact hsearch
  obtain ⟨again, hagain⟩ := (Sync.exists_synchronize_iff (t := shelfTarget (.ofSeconds 60))
    (d := after) d.files.assemble fun n hn => Sync.isNameable_of_reads
      (overwritable_shelf (.ofSeconds 60) "" (by simp) (hbook.keys n hn)).2).2
    fun m hm => (Sync.searchable_synchronize (reaches_shelf _ after) hnext.names hm
      (hsearch m hm)).unsearchable?
  have hrun' : Sync.synchronize (shelfTarget (.ofSeconds 60)) after d.files.assemble =
      ((Sync.synchronize (shelfTarget (.ofSeconds 60)) after d.files.assemble).1, .ok again) :=
    Prod.ext rfl hagain
  have hmem := Sync.written_again hnext hrun' hbody hreturn hroom
    (hreads.mono fun _ h => h.2)
  have hd' : Generates guarded after d := hd.of_helper rfl
  obtain ⟨second, hsecond, hdelivers'⟩ :=
    hd'.generate_of_synchronize (some (.ofText "out")) (.ofSeconds 60) hbook.placed hrun'
  exact ⟨after, first, second, again, hfirst, hdelivers.success.2 herrors, by rw [hsecond],
    hdelivers'.sync, hmem⟩

end HydraClient
