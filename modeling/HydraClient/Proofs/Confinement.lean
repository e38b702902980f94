import HydraClient.Proofs.FileNames
import HydraClient.Proofs.Repetition

/-! # Runs stay in their directory

As long as the names of files lead down from the output directory, a synchronisation touches nothing
outside, apart from the directories that it makes on the way there. What it writes is then found
again under the name that it was written by, so it is never taken for a file that is no longer
produced.
-/
namespace HydraClient

namespace Disk

variable {d d' d'' : Disk} {root : Place} {onWay : Place → Prop} {p : FilePath}

/-- Outside a place nothing has changed, except that directories were made on the way. -/
structure Confined (root : Place) (onWay : Place → Prop) (d d' : Disk) : Prop where
  home : d'.home = d.home
  outside : ∀ l, ¬root <+: l → d'.find? l = d.find? l ∨
    onWay l ∧ d.find? l = none ∧ d'.find? l = some .directory

def Within (root : Place) (onWay : Place → Prop) (l : Place) : Prop := root <+: l ∨ onWay l

namespace Confined

theorem refl (root : Place) (onWay : Place → Prop) (d : Disk) : Confined root onWay d d :=
  ⟨rfl, fun _ _ => .inl rfl⟩

theorem trans (h : Confined root onWay d d') (h' : Confined root onWay d' d'') :
    Confined root onWay d d'' := by
  refine ⟨h'.home.trans h.home, fun l hl => ?_⟩
  rcases h.outside l hl with hsame | ⟨hway, hnone, hmade⟩
  · rw [← hsame]
    exact h'.outside l hl
  · rcases h'.outside l hl with hsame | ⟨-, hnone', -⟩
    · exact .inr ⟨hway, hnone, hsame.trans hmade⟩
    · rw [hmade] at hnone'
      cases hnone'

theorem placeOf (h : Confined root onWay d d') (p : FilePath) : d'.placeOf p = d.placeOf p := by
  rw [Disk.placeOf, Disk.placeOf, h.home]

theorem put {l : Place} (hl : root <+: l) (e : Entry) : Confined root onWay d (d.put l e) := by
  refine ⟨rfl, fun k hk => .inl ?_⟩
  have hkl : k ≠ l := fun hkl => hk (hkl ▸ hl)
  rw [find?_put, if_neg fun h => hkl h.1]

theorem put_directory {l : Place} (hl : Within root onWay l) (hnone : d.find? l = none) :
    Confined root onWay d (d.put l .directory) := by
  rcases hl with hl | hl
  · exact put hl .directory
  · refine ⟨rfl, fun k hk => ?_⟩
    rw [find?_put]
    split
    · rename_i hkl
      rw [hkl.1]
      exact .inr ⟨hl, hnone, rfl⟩
    · exact .inl rfl

theorem drop {l : Place} (hl : root <+: l) : Confined root onWay d (d.drop l) := by
  refine ⟨rfl, fun k hk => .inl ?_⟩
  have hkl : k ≠ l := fun hkl => hk (hkl ▸ hl)
  rw [find?_drop, if_neg fun h => hkl h.1]

theorem ensureDirectory (h : ∀ ts, ts <+: p.segments →
    Within root onWay (d.placeOf { p with segments := ts })) :
    Confined root onWay d (d.ensureDirectory p).1 := by
  have made : (d.ensureDirectory p).1.home = d.home ∧
      Confined root onWay d (d.ensureDirectory p).1 := by
    refine ensureDirectory_induction (P := fun a b => a.home = d.home →
        b.home = d.home ∧ Confined root onWay a b) p (fun a ha => ⟨ha, .refl _ _ a⟩) ?_ ?_ d rfl
    · intro a b c hab hbc ha
      obtain ⟨hb, hab⟩ := hab ha
      exact ⟨(hbc hb).1, hab.trans (hbc hb).2⟩
    · intro a b ts hts hmake ha
      obtain ⟨l, hl, hnone, rfl⟩ := makeDirectory_ok hmake
      refine ⟨ha, put_directory ?_ hnone⟩
      rw [eq_placeOf hl, Disk.placeOf, ha]
      exact h ts hts
  exact made.2

theorem writeText (h : ∀ ts, ts <+: p.segments →
    Within root onWay (d.placeOf { p with segments := ts })) (hp : root <+: d.placeOf p)
    (text : String) : Confined root onWay d (d.writeText p text).1 := by
  have above : Confined root onWay d (d.ensureDirectory p.parent).1 :=
    ensureDirectory fun ts hts => h ts (hts.trans (List.dropLast_prefix _))
  rcases writeText_cases d p text with ⟨f, hw, -⟩ | ⟨l, hl, -, -, -, hw⟩
  · rwa [hw]
  · rw [hw]
    refine above.trans (put ?_ _)
    rwa [eq_placeOf hl, above.placeOf]

theorem remove (hp : root <+: d.placeOf p) : Confined root onWay d (d.remove p).1 := by
  rcases remove_cases d p with ⟨f, hr⟩ | ⟨l, c, hl, -, hr⟩
  · rw [hr]
    exact .refl _ _ d
  · rw [hr]
    exact drop (eq_placeOf hl ▸ hp)

end Confined

theorem find?_of_writeText {text : String} {size : Nat}
    (h : d.writeText p text = (d', .ok size)) :
    d'.find? (d.placeOf p) = some (.file text.toByteArray) := by
  obtain ⟨l, hl, hdir, rfl⟩ := writeText_ok h
  have hne : l ≠ [] := fun h => hdir (h ▸ find?_nil _)
  rw [← (alters_ensureDirectory d p.parent).placeOf, ← eq_placeOf hl, find?_put,
    if_pos ⟨rfl, hne⟩]

end Disk

namespace Sync

open Disk

variable {t : Target} {d d' : Disk} {files : OrderedMap String String} {name : String}
  {way : List String} {p p' : Progress} {report : Report}

def OnWay (t : Target) (d : Disk) (l : Place) : Prop :=
  ∃ ts, ts <+: t.directory.segments ∧ l = d.placeOf { t.directory with segments := ts }

theorem Spells.within (h : Spells name way) {ts : List String}
    (hts : ts <+: (t.pathOf name).segments) :
    Within (d.placeOf t.directory) (OnWay t d)
      (d.placeOf { t.pathOf name with segments := ts }) := by
  rw [h.pathOf] at hts ⊢
  dsimp only at hts ⊢
  rcases le_total ts.length t.directory.segments.length with hle | hle
  · exact .inr ⟨ts, List.prefix_of_prefix_length_le hts (List.prefix_append ..) hle, rfl⟩
  · obtain ⟨below, rfl⟩ := List.prefix_of_prefix_length_le (List.prefix_append ..) hts hle
    have hsteps : ".." ∉ below := fun hmem =>
      (h.names _ (((List.prefix_append_right_inj _).1 hts).subset hmem)).2.2.1 rfl
    rw [placeOf_append hsteps]
    exact .inl (List.prefix_append ..)

/-- A synchronisation whose names lead down changes nothing outside the output directory, also when
it breaks off. -/
theorem confined_synchronize (t : Target) (hd : Named d) (ht : t.directory.IsSpelled)
    (hfiles : ∀ n ∈ files.keys, ∃ way, Spells n way) :
    Confined (d.placeOf t.directory) (OnWay t d) d (synchronize t d files).1 := by
  have hrun : Named (synchronize t d files).1 ∧
      Confined (d.placeOf t.directory) (OnWay t d) d (synchronize t d files).1 := by
    refine disk_synchronize_induction
      (P := fun a => Named a ∧ Confined (d.placeOf t.directory) (OnWay t d) d a)
      ⟨hd, .refl _ _ d⟩ ?_ ?_
    · rintro n hn a ⟨hnamed, hconfined⟩ - text
      obtain ⟨way, hway⟩ := hfiles n hn
      refine ⟨hnamed.writeText (hway.isSpelled ht) text, hconfined.trans (.writeText ?_ ?_ text)⟩
      · intro ts hts
        rw [hconfined.placeOf]
        exact hway.within hts
      · rw [hconfined.placeOf, hway.placeOf]
        exact List.prefix_append ..
    · rintro m hm a ⟨hnamed, -⟩ way hway - b ⟨hnamed', hconfined⟩ s - -
      obtain ⟨l, -, hfind, hend⟩ := mem_search_iff.1 hway
      have hspells := spells_found hm hnamed hfind hend
      refine ⟨hnamed'.remove _, hconfined.trans (.remove ?_)⟩
      rw [← hspells.pathOf_managed hm t, hconfined.placeOf, hspells.placeOf]
      exact List.prefix_append ..
  exact hrun.2

def Target.text (t : Target) (body : String) : String :=
  Header.write (Header.banner t.command t.clock) body

/-- What has become of the produced files so far: those that were written are in their places, and
no file in one of these places is gone. -/
structure Keeps (t : Target) (files : OrderedMap String String) (d : Disk) (p : Progress) :
    Prop where
  named : Named p.disk
  home : p.disk.home = d.home
  written : t.dryRun = false → ∀ r ∈ p.report.records, r.action = .written → ∃ body,
    files.get? r.name = some body ∧ p.disk.find? (d.placeOf (t.pathOf r.name)) =
      some (.file (t.text body).toByteArray)
  kept : ∀ n body c, files.get? n = some body →
    d.find? (d.placeOf (t.pathOf n)) = some (.file c) →
      p.disk.find? (d.placeOf (t.pathOf n)) = some (.file c) ∨
        p.disk.find? (d.placeOf (t.pathOf n)) = some (.file (t.text body).toByteArray)

namespace Keeps

theorem start (hd : Named d) (r : Report) (hr : r.records = []) : Keeps t files d ⟨d, r⟩ where
  named := hd
  home := rfl
  written _ r' hr' := by simp [hr] at hr'
  kept _ _ _ _ hc := .inl hc

theorem of_alters {there : Place → Prop} (h : Keeps t files d p) (hn : Named p'.disk)
    (ha : Alters there p.disk p'.disk)
    (hthere : ∀ n ∈ files.keys, ¬there (d.placeOf (t.pathOf n)))
    (hrecords : t.dryRun = false →
      ∀ r ∈ p'.report.records, r.action = .written → r ∈ p.report.records) :
    Keeps t files d p' where
  named := hn
  home := ha.home.trans h.home
  written hdry r hr hw := by
    obtain ⟨body, hbody, hfile⟩ := h.written hdry r (hrecords hdry r hr hw) hw
    have hkey : r.name ∈ files.keys := OrderedMap.mem_keys_iff.2 ⟨body, hbody⟩
    exact ⟨body, hbody, (ha.files _ _ (hthere r.name hkey)).2 hfile⟩
  kept n body c hbody hc := by
    have hkey : n ∈ files.keys := OrderedMap.mem_keys_iff.2 ⟨body, hbody⟩
    have hsame := fun c' => ha.files (d.placeOf (t.pathOf n)) c' (hthere n hkey)
    exact (h.kept n body c hbody hc).imp (hsame _).2 (hsame _).2

theorem record (h : Keeps t files d p) {r : Record} (hr : t.dryRun = false → r.action ≠ .written) :
    Keeps t files d (p.record r) := by
  refine h.of_alters h.named (.refl (fun _ => False) _) (fun _ _ => id) ?_
  intro hdry r' hr' hw
  rcases List.mem_append.1 hr' with hr' | hr'
  · exact hr'
  · rw [List.mem_singleton.1 hr'] at hw
    exact absurd hw (hr hdry)

theorem fail {there : Place → Prop} (h : Keeps t files d p) (hn : Named d')
    (ha : Alters there p.disk d') (hthere : ∀ n ∈ files.keys, ¬there (d.placeOf (t.pathOf n)))
    (name : String) (path : FilePath) (verb : String) (f : DiskFault) :
    Keeps t files d ({ p with disk := d' }.fail name path verb f) := by
  refine h.of_alters hn ha hthere fun _ r hr hw => ?_
  rcases List.mem_append.1 hr with hr | hr
  · exact hr
  · rw [List.mem_singleton.1 hr] at hw
    cases hw

variable (hfiles : ∀ n ∈ files.keys, ∃ way, Spells n way)
include hfiles

theorem write {body : String} {size lines : Nat} (h : Keeps t files d p)
    (ht : t.directory.IsSpelled) (hbody : files.get? name = some body)
    (hw : p.disk.writeText (t.pathOf name) (t.text body) = (d', .ok size)) :
    Keeps t files d ({ p with disk := d' }.record
      ⟨name, (t.pathOf name).text, .written, size, lines⟩) := by
  obtain ⟨way, hway⟩ := hfiles name (OrderedMap.mem_keys_iff.2 ⟨body, hbody⟩)
  have hplace : ∀ q, p.disk.placeOf q = d.placeOf q := fun q => by
    rw [placeOf, placeOf, h.home]
  have hnamed := h.named.writeText (hway.isSpelled ht) (t.text body)
  have hput := find?_of_writeText hw
  have altered := alters_writeText p.disk (t.pathOf name) (t.text body)
  rw [hw] at hnamed altered
  rw [hplace] at hput
  have hfiled : ∀ {n : String} {content : String} {c : ByteArray},
      files.get? n = some content → p.disk.find? (d.placeOf (t.pathOf n)) = some (.file c) →
      d'.find? (d.placeOf (t.pathOf n)) = some (.file c) ∨
        d'.find? (d.placeOf (t.pathOf n)) = some (.file (t.text content).toByteArray) := by
    intro n content c hcontent hc
    by_cases hn : n = name
    · subst hn
      obtain rfl := Option.some.inj (hbody.symm.trans hcontent)
      exact .inr hput
    · obtain ⟨way', hway'⟩ := hfiles n (OrderedMap.mem_keys_iff.2 ⟨content, hcontent⟩)
      refine .inl ((altered.files _ _ fun hsame => ?_).2 hc)
      rw [hplace] at hsame
      exact hn (hway'.name_eq hway hsame)
  refine ⟨hnamed, altered.home.trans h.home, fun hdry r hr hwritten => ?_, ?_⟩
  · rcases List.mem_append.1 hr with hr | hr
    · obtain ⟨content, hcontent, hc⟩ := h.written hdry r hr hwritten
      exact ⟨content, hcontent, (hfiled hcontent hc).elim id id⟩
    · rw [List.mem_singleton.1 hr]
      exact ⟨body, hbody, hput⟩
  · intro n content c hcontent hc
    rcases h.kept n content c hcontent hc with hc | hc
    · exact hfiled hcontent hc
    · exact .inr ((hfiled hcontent hc).elim id id)

theorem syncFile {body : String} (h : Keeps t files d p) (ht : t.directory.IsSpelled)
    (hbody : files.get? name = some body) (hs : Sync.syncFile t p name body = .ok p') :
    Keeps t files d p' := by
  rcases syncFile_cases t p name body with
    ⟨f, -, hp⟩ | ⟨head, -, -, hp⟩ | ⟨head, -, -, hp⟩ | ⟨-, hp⟩
  · obtain rfl := Except.ok.inj (hp.symm.trans hs)
    exact h.fail h.named (.refl (fun _ => False) _) (fun _ _ => id) _ _ _ f
  · obtain rfl := Except.ok.inj (hp.symm.trans hs)
    exact h.record (by simp)
  · obtain rfl := Except.ok.inj (hp.symm.trans hs)
    exact h.record (by simp)
  · rw [hp] at hs
    rcases writeFile_cases t p name (t.pathOf name)
      (Header.write (Header.banner t.command t.clock) body) with
      ⟨hdry, size, hp⟩ | ⟨-, disk, r, hw, ⟨size, rfl, hp⟩ | ⟨-, hp⟩ | ⟨f, -, rfl, hp⟩⟩
    · obtain rfl := Except.ok.inj (hp.symm.trans hs)
      exact h.record (by simp [hdry])
    · obtain rfl := Except.ok.inj (hp.symm.trans hs)
      exact h.write hfiles ht hbody hw
    · rw [hp] at hs
      cases hs
    · obtain rfl := Except.ok.inj (hp.symm.trans hs)
      obtain ⟨way, hway⟩ := hfiles name (OrderedMap.mem_keys_iff.2 ⟨body, hbody⟩)
      have hnamed := h.named.writeText (hway.isSpelled ht) (t.text body)
      have hdisk : (p.disk.writeText (t.pathOf name) (t.text body)).1 = disk := by
        rw [Target.text, hw]
      exact h.fail (hdisk ▸ hnamed) (writeText_error hw).1 (fun _ _ => id) _ _ _ f

theorem removeFile {way : List String} (h : Keeps t files d p) (hway : Spells name way)
    (hstale : name ∉ files.keys) : Keeps t files d (Sync.removeFile t p name (t.pathOf name)) := by
  have apart : ∀ n ∈ files.keys, d.placeOf (t.pathOf n) ≠ p.disk.placeOf (t.pathOf name) := by
    intro n hn hsame
    obtain ⟨way', hway'⟩ := hfiles n hn
    rw [placeOf, placeOf, h.home] at hsame
    exact hstale (hway'.name_eq (d := d) hway hsame ▸ hn)
  have altered := alters_remove p.disk (t.pathOf name)
  have hnamed := h.named.remove (t.pathOf name)
  rcases removeFile_cases t p name (t.pathOf name) with
    ⟨f, -, hp⟩ | ⟨s, -, -, hp⟩ | ⟨s, -, -, ⟨-, hp⟩ | ⟨-, disk, hd, hp⟩ | ⟨-, disk, f, hd, hp⟩⟩
  · rw [hp]
    exact h.fail h.named (.refl (fun _ => False) _) (fun _ _ => id) _ _ _ f
  · rw [hp]
    exact h.record (by simp)
  · rw [hp]
    exact h.record (by simp)
  · rw [hp]
    rw [hd] at altered hnamed
    have hdropped : Keeps t files d { p with disk := disk } :=
      h.of_alters hnamed altered apart fun _ _ hr _ => hr
    exact hdropped.record (by simp)
  · rw [hp]
    rw [hd] at altered hnamed
    exact h.fail hnamed altered apart _ _ _ f

end Keeps

/-- Where the produced files are after a synchronisation: what is reported as written has its place
below the directory, and no file in the place of a produced one is gone. -/
structure InPlace (t : Target) (files : OrderedMap String String) (report : Report)
    (before after : Disk) : Prop where
  written : t.dryRun = false → ∀ r ∈ report.records, r.action = .written → ∃ body,
    files.get? r.name = some body ∧
    before.placeOf t.directory <+: before.placeOf (t.pathOf r.name) ∧
    after.find? (before.placeOf (t.pathOf r.name)) = some (.file (t.text body).toByteArray)
  kept : ∀ n body c, files.get? n = some body →
    before.find? (before.placeOf (t.pathOf n)) = some (.file c) →
    after.find? (before.placeOf (t.pathOf n)) = some (.file c) ∨
      after.find? (before.placeOf (t.pathOf n)) = some (.file (t.text body).toByteArray)

theorem inPlace_synchronize (hd : Named d) (ht : t.directory.IsSpelled)
    (hfiles : ∀ n ∈ files.keys, ∃ way, Spells n way)
    (h : synchronize t d files = (d', .ok report)) : InPlace t files report d d' := by
  have hkeeps : Keeps t files d ⟨d', report⟩ := by
    refine synchronize_induction (P := Keeps t files d) h (.start hd _ rfl) ?_ ?_
    · intro e he p p' hp hs
      exact hp.syncFile hfiles ht (OrderedMap.mem_entries_iff.1 he) hs
    · intro m hm p hp way hway hstale q hq
      obtain ⟨l, -, hfind, hend⟩ := mem_search_iff.1 hway
      have hspells := spells_found hm hp.named hfind hend
      rw [← hspells.pathOf_managed hm t]
      exact hq.removeFile hfiles hspells hstale
  refine ⟨fun hdry r hr hwritten => ?_, hkeeps.kept⟩
  obtain ⟨body, hbody, hfile⟩ := hkeeps.written hdry r hr hwritten
  obtain ⟨way, hway⟩ := hfiles r.name (OrderedMap.mem_keys_iff.2 ⟨body, hbody⟩)
  refine ⟨body, hbody, ?_, hfile⟩
  rw [hway.placeOf]
  exact List.prefix_append ..

/-- A name that steps up on its way is written outside the directory. A name that stays where it is
on its way is written and then found under another one, so that it counts as no longer produced. -/
theorem names_astray :
    (synchronize sampleTarget {} (.ofList [("interfaces/../../Book", "x")])).1.find? ["Book.ts"] ≠
      none ∧
    stale sampleTarget ["interfaces/./Book"]
      (diskOf (syncFile sampleTarget ⟨{}, {}⟩ "interfaces/./Book" "x")) "interfaces" =
        ["interfaces/Book"] := by
  decide +kernel

end Sync

open Metadata Sync

variable {doc : Document} {output : Option FilePath} {o : Options} {disk : Disk}

namespace Pipeline

/-- As long as the names that classes may take lead down from a directory, a run changes nothing
outside the output directory but for the directories on the way there, also when it breaks off.
Every file that it reports as written is there at the end, below the directory and with the reported
body after its banner, and no file that it produces is taken away. -/
theorem generate_stays_in_place (hhooks : o.hooks = {}) (hdisk : disk.Named)
    (houtput : ∀ p, output = some p → p.IsSpelled)
    (hnames : ∀ c ∈ doc.classes, ∀ n ∈ Model.nameCandidates doc.config c, Descends n) :
    Disk.Confined (disk.placeOf (doc.targetOf output o).directory)
      (OnWay (doc.targetOf output o) disk) disk (generate doc output o disk).1 ∧
    ∀ report sync, (generate doc output o disk).2 = .ok report → report.sync = some sync →
      InPlace (doc.targetOf output o) report.files sync disk (generate doc output o disk).1 := by
  have hspelled : (doc.targetOf output o).directory.IsSpelled := by
    cases output with
    | none => exact FilePath.isSpelled_ofText doc.config.outputDir
    | some p => exact houtput p rfl
  have hstays : ∀ d, Generates doc disk d → ∀ n ∈ d.files.assemble.keys, ∃ way, Spells n way :=
    fun d hd n hn =>
      spells_of_isProper (hd.names handedOn_descends (Metadata.Document.names hnames) n hn)
  have hrun := runsTo_generate doc output o disk
  rcases hout : generate doc output o disk with ⟨after, outcome⟩
  rw [hout] at hrun
  cases hrun with
  | refused _ _ hhalted =>
    refine ⟨.refl _ _ disk, fun report sync hok hsync => ?_⟩
    obtain rfl := Except.ok.inj hok
    rw [hhalted.sync] at hsync
    cases hsync
  | failed _ _ _ _ hhalted =>
    refine ⟨.refl _ _ disk, fun report sync hok hsync => ?_⟩
    obtain rfl := Except.ok.inj hok
    rw [hhalted.sync] at hsync
    cases hsync
  | broken =>
    refine ⟨.refl _ _ disk, fun report sync hok _ => ?_⟩
    cases hok
  | unplaced =>
    refine ⟨.refl _ _ disk, fun report sync hok _ => ?_⟩
    cases hok
  | delivered hchecked hbuilt _ hdone hdelivers =>
    have hfiles := hstays _ (.of_build hhooks hchecked hbuilt)
    rw [Options.produced_eq hhooks] at hdone hdelivers
    have hconfined := confined_synchronize (doc.targetOf output o) hdisk hspelled hfiles
    rw [hdone] at hconfined
    refine ⟨hconfined, fun report sync hok hsync => ?_⟩
    obtain rfl := Except.ok.inj hok
    obtain rfl := Option.some.inj (hdelivers.sync.symm.trans hsync)
    rw [hdelivers.files]
    exact inPlace_synchronize hdisk hspelled hfiles hdone
  | interrupted hchecked hbuilt hdone =>
    rw [Options.produced_eq hhooks] at hdone
    have hconfined := confined_synchronize (doc.targetOf output o) hdisk hspelled
      (hstays _ (.of_build hhooks hchecked hbuilt))
    rw [hdone] at hconfined
    refine ⟨hconfined, fun report sync hok _ => ?_⟩
    cases hok

/-- The endpoint of the guarded book is written into the directory. -/
theorem guarded_stays_in_place : ∃ after report sync body,
    generate guarded (some (.ofText "out")) { clock := .ofSeconds 0 } (shelf "" "") =
      (after, .ok report) ∧ report.sync = some sync ∧ "endpoint/Book" ∈ sync.named .written ∧
    report.files.get? "endpoint/Book" = some body ∧
    after.find? ["out", "endpoint", "Book.ts"] =
      some (.file ((shelfTarget (.ofSeconds 0)).text body).toByteArray) ∧
    ∀ l, ¬["out"] <+: l → after.find? l = (shelf "" "").find? l := by
  obtain ⟨d, hd, hbook⟩ := exists_generates_guarded (shelf "" "")
  obtain ⟨body, hbody, hreturn⟩ := hbook.endpoint
  have ho := orderly_shelf (.ofSeconds 0) "" "" hbook.keys
  obtain ⟨after, sync, hrun, herrors⟩ :=
    synchronize_shelf (.ofSeconds 0) "" (by simp) hbook.keys
  obtain ⟨report, hreport, hdelivers⟩ :=
    hd.generate_of_synchronize (some (.ofText "out")) (.ofSeconds 0) hbook.placed hrun
  have hthawed : Sync.Reads (shelf "" "") ((shelfTarget (.ofSeconds 0)).pathOf "endpoint/Book")
      (·.isFrozen = false) := by decide +kernel
  have hwritten := Sync.written_again ho hrun hbody hreturn
    (overwritable_shelf _ _ (by simp) (by decide)).1 hthawed
  obtain ⟨hconfined, hplaces⟩ := @generate_stays_in_place guarded
    (some (.ofText "out")) { clock := .ofSeconds 0 } (shelf "" "") rfl (named_shelf "" "")
    (by rintro p ⟨⟩; exact FilePath.isSpelled_ofText "out") (by decide)
  rw [hreport] at hconfined hplaces
  obtain ⟨r, hr, ha, hname⟩ := Sync.Report.mem_named_iff.1 hwritten
  obtain ⟨body', hbody', -, hfile⟩ := (hplaces report sync rfl hdelivers.sync).written rfl r hr ha
  rw [hname] at hbody' hfile
  refine ⟨after, report, sync, body', hreport, hdelivers.sync, hwritten, hbody',
    hfile, fun l hl => ?_⟩
  refine (hconfined.outside l hl).resolve_right ?_
  rintro ⟨⟨ts, hts, rfl⟩, hnone, -⟩
  have hts : ts <+: ["out"] := hts
  rcases List.prefix_cons_iff.1 hts with rfl | ⟨rest, rfl, hrest⟩
  · cases hnone
  · obtain rfl := List.prefix_nil.1 hrest
    exact hl (List.prefix_refl _)

end Pipeline
end HydraClient
