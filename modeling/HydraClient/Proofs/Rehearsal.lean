import HydraClient.Proofs.OptOut
import HydraClient.Proofs.Reports
import Mathlib.Data.String.Basic

/-! # Dry runs

A dry run decides everything on the disk as it is, a real one on the disk as it has become so far.
They decide alike, since each file is dealt with once and no dealing shows at the places of the
others. Directories that the real run makes are the exception: a path may lead somewhere only
because of them, unless it steps up out of directories alone that were there before.
-/
namespace HydraClient

namespace Place

variable {a b c : Place}

theorem atMost_total (a b : Place) : (atMost a b || atMost b a) = true := by
  induction a generalizing b with
  | nil => simp [atMost]
  | cons s rest ih =>
    cases b with
    | nil => simp [atMost]
    | cons s' rest' =>
      by_cases hs : s = s'
      · subst hs
        simpa [atMost] using ih rest'
      · simpa [atMost, hs, Ne.symm hs] using lt_or_gt_of_ne hs

theorem atMost_trans (h : atMost a b = true) (h' : atMost b c = true) : atMost a c = true := by
  induction a generalizing b c with
  | nil => simp [atMost]
  | cons s rest ih =>
    obtain _ | ⟨s', rest'⟩ := b
    · cases h
    obtain _ | ⟨s'', rest''⟩ := c
    · cases h'
    by_cases hs : s = s'
    · subst hs
      by_cases hs' : s = s''
      · subst hs'
        simp only [atMost, if_true] at h h' ⊢
        exact ih h h'
      · simpa [atMost, hs'] using h'
    · have hlt : s < s' := by simpa [atMost, hs] using h
      have hlt' : s < s'' := by
        by_cases hs' : s' = s''
        · exact hs' ▸ hlt
        · exact hlt.trans (by simpa [atMost, hs'] using h')
      simpa [atMost, hlt'.ne] using hlt'

theorem atMost_antisymm (h : atMost a b = true) (h' : atMost b a = true) : a = b := by
  induction a generalizing b with
  | nil =>
    cases b with
    | nil => rfl
    | cons s rest => cases h'
  | cons s rest ih =>
    obtain _ | ⟨s', rest'⟩ := b
    · cases h
    by_cases hs : s = s'
    · subst hs
      simp only [atMost, if_true] at h h'
      rw [ih h h']
    · have hlt : s < s' := by simpa [atMost, hs] using h
      have hlt' : s' < s := by simpa [atMost, Ne.symm hs] using h'
      exact absurd hlt' hlt.asymm

end Place

namespace Disk

variable {d d' : Disk} {there : Place → Prop} {l : Place} {p : FilePath} {ss : List String}

theorem pairwise_search (d : Disk) (p : FilePath) (ending : String) :
    (d.search p ending).Pairwise fun a b => Place.atMost a b = true := by
  rw [search]
  split
  · rename_i l _
    refine List.Pairwise.filter _ (List.pairwise_map.2 ?_)
    rw [contents]
    apply List.pairwise_mergeSort
    · exact fun _ _ _ => Place.atMost_trans
    · exact fun a b => Place.atMost_total a.1 b.1
  · exact .nil

theorem filter_search_congr {ending : String} {test : List String → Bool}
    (h : ∀ way, test way = true → (way ∈ d.search p ending ↔ way ∈ d'.search p ending)) :
    (d.search p ending).filter test = (d'.search p ending).filter test := by
  refine List.Perm.eq_of_pairwise (fun _ _ _ _ => Place.atMost_antisymm)
    ((pairwise_search d p ending).filter _) ((pairwise_search d' p ending).filter _) ?_
  rw [List.perm_ext_iff_of_nodup ((nodup_search d p ending).filter _)
    ((nodup_search d' p ending).filter _)]
  intro way
  rw [List.mem_filter, List.mem_filter]
  exact and_congr_left (h way)

theorem Reaches.append (hr : d.Reaches p) (hs : ".." ∉ ss) :
    d.Reaches { p with segments := p.segments ++ ss } := by
  obtain ⟨above, below, l, hp, hb, hl⟩ := hr
  refine ⟨above, below ++ ss, l, ?_, ?_, hl⟩
  · rw [hp, List.append_assoc]
  · rw [List.mem_append, not_or]
    exact ⟨hb, hs⟩

theorem Reaches.readText (hr : d.Reaches p) (hd : d.Rooted) (ha : Alters there d d')
    (hp : ¬there (d.placeOf p)) {s : String} (h : d'.readText p = .ok s) :
    d.readText p = .ok s := by
  obtain ⟨c, text, hbytes, htext, rfl⟩ := readText_ok_iff.1 h
  obtain ⟨hn, l, hl, hfile⟩ := readBytes_ok_iff.1 hbytes
  have hplace : l = d.placeOf p := (eq_placeOf hl).trans (ha.placeOf p)
  have hfile : d.find? l = some (.file c) := (ha.files l c (hplace ▸ hp)).1 hfile
  exact readText_ok_iff.2 ⟨c, text, readBytes_ok_iff.2 ⟨hn, l, hr.locate hd ha hl hfile, hfile⟩,
    htext, rfl⟩

theorem Alters.status {e : Entry} (ha : Alters there d d') (hp : ¬there (d.placeOf p))
    (h : d.status p = .ok e) : d'.status p = .ok e := by
  obtain ⟨l, hl, he⟩ := status_ok_iff.1 h
  refine status_ok_iff.2 ⟨l, ha.locate hl, ?_⟩
  cases e with
  | directory => exact ha.directories l he
  | file c => exact (ha.files l c (eq_placeOf hl ▸ hp)).2 he

theorem exists?_of_alters (ha : Alters there d d') (hp : ¬there (d.placeOf p))
    (h : d'.exists? p = .ok false) : d.exists? p = .ok false := by
  rw [exists?] at h ⊢
  split
  · rfl
  · rename_i hn
    rw [if_neg hn] at h
    split
    · rename_i e he
      rw [ha.status hp he] at h
      cases h
    · rename_i htoo
      rw [status_nameTooLong ha.home ha.directories htoo] at h
      cases h
    · rfl

theorem size_of_writeText {text : String} {size : Nat}
    (h : d.writeText p text = (d', .ok size)) : size = text.utf8ByteSize := by
  rcases writeText_cases d p text with ⟨f, hw, -⟩ | ⟨l, -, -, -, -, hw⟩
  · cases (Prod.mk.inj (hw.symm.trans h)).2
  · rw [← String.size_toByteArray]
    exact (Except.ok.inj (Prod.mk.inj (hw.symm.trans h)).2).symm

end Disk

namespace Sync

open Disk

variable {t : Target} {p p' q q' : Progress} {name body m : String} {path : FilePath}
  {d d' : Disk} {there : Place → Prop} {done : List String} {way : List String}

theorem existing_of_alters (hr : d.Reaches path) (hd : d.Rooted) (ha : Alters there d d')
    (hp : ¬there (d.placeOf path)) {found : Option Header} (h : existing d' path = .ok found) :
    existing d path = .ok found := by
  cases found with
  | none => exact existing_none_iff.2 (exists?_of_alters ha hp (existing_none_iff.1 h))
  | some head =>
    obtain ⟨-, s, hs, rfl⟩ := existing_some_iff.1 h
    exact existing_of_readText (hr.readText hd ha hp hs)

theorem Spells.reaches (h : Spells name way) (hr : d.Reaches t.directory) :
    d.Reaches (t.pathOf name) := by
  rw [h.pathOf]
  exact hr.append fun hmem => (h.names _ hmem).2.2.1 rfl

theorem reaches_managed (hm : m ∈ managed) (hr : d.Reaches t.directory) :
    d.Reaches (t.directory / m) := by
  rw [managed_directory hm]
  exact hr.append (no_steps_of_managed hm)

theorem errors_removeFiles (names : List String) (q : Progress) : q.report.errors <+:
    (names.foldl (fun q n => removeFile t q n (t.pathOf n)) q).report.errors :=
  List.foldlRecOn (motive := fun x : Progress => q.report.errors <+: x.report.errors) names _
    (List.prefix_refl _) fun _ hx _ _ => hx.trans (deals_removeFile t _ _ _).errors

theorem errors_removeStales (ms : List String) (q : Progress) {produced : List String} :
    q.report.errors <+: (ms.foldl (removeStale t produced) q).report.errors :=
  List.foldlRecOn (motive := fun x : Progress => q.report.errors <+: x.report.errors) ms _
    (List.prefix_refl _) fun _ hx _ _ => hx.trans (errors_removeStale t produced _ _)

theorem reads_of_removeFiles (hdry : t.dryRun = false) {names : List String}
    (herrors : (names.foldl (fun q n => removeFile t q n (t.pathOf n)) q).report.errors = []) :
    ∀ n ∈ names, Reads q.disk (t.pathOf n) fun _ => True := by
  induction names generalizing q with
  | nil => simp
  | cons n rest ih =>
    obtain ⟨r, -, hr⟩ := exists_discarded hdry q n
    have herrors₁ : (removeFile t q n (t.pathOf n)).report.errors = [] :=
      List.prefix_nil.1 (herrors ▸ errors_removeFiles rest _)
    refine List.forall_mem_cons.2 ⟨?_, fun n' hn' => ?_⟩
    · rcases removeFile_cases t q n (t.pathOf n) with ⟨f, -, hq⟩ | ⟨s, hs, -⟩ | ⟨s, hs, -⟩
      · rw [hq] at herrors₁
        simp [Progress.fail] at herrors₁
      · exact ⟨s, hs, trivial⟩
      · exact ⟨s, hs, trivial⟩
    · exact (ih herrors n' hn').of_within hr.alters.home hr.within

/-- A dry run `p` and a real run `q` have dealt with the same files from the same disk, and the real
one has changed nothing but the files it dealt with. -/
structure Rehearses (t : Target) (d : Disk) (done : List String) (p q : Progress) : Prop where
  disk : p.disk = d
  records : p.report.records = q.report.records
  named : Named q.disk
  spelled : ∀ n ∈ done, ∃ way, Spells n way
  alters : Alters (fun l => ∃ n ∈ done, l = d.placeOf (t.pathOf n)) d q.disk

def Fresh (m : String) (produced done : List String) : Prop :=
  ∀ n way, Spells n (m :: way) → n ∉ produced → n ∉ done

namespace Rehearses

theorem untouched (h : Rehearses t d done p q) (hway : Spells name way) (hnew : name ∉ done) :
    ¬∃ n ∈ done, d.placeOf (t.pathOf name) = d.placeOf (t.pathOf n) := by
  rintro ⟨n, hn, hplace⟩
  obtain ⟨way', hway'⟩ := h.spelled n hn
  exact hnew (hway.name_eq hway' hplace ▸ hn)

theorem record (h : Rehearses t d done p q) (hway : Spells name way) (hnamed : Named d')
    (ha : Alters (· = q.disk.placeOf (t.pathOf name)) q.disk d') (r : Record) :
    Rehearses t d (done ++ [name]) (p.record r) ({ q with disk := d' }.record r) where
  disk := h.disk
  records := congrArg (· ++ [r]) h.records
  named := hnamed
  spelled := by
    intro n hn
    rcases List.mem_append.1 hn with hn | hn
    · exact h.spelled n hn
    · exact ⟨way, List.mem_singleton.1 hn ▸ hway⟩
  alters := by
    refine (h.alters.mono ?_).trans (ha.mono ?_)
    · rintro l ⟨n, hn, hl⟩
      exact ⟨n, List.mem_append_left _ hn, hl⟩
    · rintro l rfl
      exact ⟨name, by simp, h.alters.placeOf _⟩

theorem found (h : Rehearses t d done p q) (hd : d.Rooted) (hr : d.Reaches t.directory)
    (hway : Spells name way) (hnew : name ∉ done) {found : Option Header}
    (hfound : existing q.disk (t.pathOf name) = .ok found) :
    existing p.disk (t.pathOf name) = .ok found := by
  rw [h.disk]
  exact existing_of_alters (hway.reaches hr) hd h.alters (h.untouched hway hnew) hfound

theorem readText (h : Rehearses t d done p q) (hd : d.Rooted) (hr : d.Reaches t.directory)
    (hway : Spells name way) (hnew : name ∉ done) {s : String}
    (hs : q.disk.readText (t.pathOf name) = .ok s) : p.disk.readText (t.pathOf name) = .ok s := by
  rw [h.disk]
  exact (hway.reaches hr).readText hd h.alters (h.untouched hway hnew) hs

theorem writeFile {content : String} (h : Rehearses t d done p q) (hdry : t.dryRun = false)
    (hdir : t.directory.IsSpelled) (hway : Spells name way)
    (hw : Sync.writeFile t q name (t.pathOf name) content = .ok q')
    (herrors : q'.report.errors = []) :
    ∃ p', Sync.writeFile { t with dryRun := true } p name (t.pathOf name) content = .ok p' ∧
      Rehearses t d (done ++ [name]) p' q' := by
  rcases writeFile_cases t q name (t.pathOf name) content with
    ⟨hdry', -⟩ | ⟨-, disk, r, hwrite, ⟨size, rfl, hq⟩ | ⟨-, hq⟩ | ⟨f, -, -, hq⟩⟩
  · rw [hdry] at hdry'
    cases hdry'
  · obtain rfl := Except.ok.inj (hq.symm.trans hw)
    obtain rfl := size_of_writeText hwrite
    have named := h.named.writeText (hway.isSpelled hdir) content
    have altered := alters_writeText q.disk (t.pathOf name) content
    rw [hwrite] at named altered
    exact ⟨_, rfl, h.record hway named altered _⟩
  · rw [hq] at hw
    cases hw
  · obtain rfl := Except.ok.inj (hq.symm.trans hw)
    simp [Progress.fail] at herrors

theorem syncFile (h : Rehearses t d done p q) (hdry : t.dryRun = false) (hd : d.Rooted)
    (hdir : t.directory.IsSpelled) (hr : d.Reaches t.directory) (hway : Spells name way)
    (hnew : name ∉ done) (hs : Sync.syncFile t q name body = .ok q')
    (herrors : q'.report.errors = []) :
    ∃ p', Sync.syncFile { t with dryRun := true } p name body = .ok p' ∧
      Rehearses t d (done ++ [name]) p' q' := by
  rw [Sync.syncFile] at hs ⊢
  dsimp only at hs ⊢
  rcases he : existing q.disk (t.pathOf name) with f | found
  · rw [he] at hs
    obtain rfl := Except.ok.inj hs
    simp [Progress.fail] at herrors
  · have he' : existing p.disk (Target.pathOf { t with dryRun := true } name) = .ok found :=
      h.found hd hr hway hnew he
    rw [he] at hs
    rw [he']
    cases found with
    | none => exact h.writeFile hdry hdir hway hs herrors
    | some head =>
      dsimp only at hs ⊢
      split at hs
      · rename_i hbody
        rw [if_pos hbody]
        obtain rfl := Except.ok.inj hs
        exact ⟨_, rfl, h.record hway h.named (.refl _ _) _⟩
      · rename_i hbody
        rw [if_neg hbody]
        split at hs
        · rename_i hfrozen
          rw [if_pos hfrozen]
          obtain rfl := Except.ok.inj hs
          exact ⟨_, rfl, h.record hway h.named (.refl _ _) _⟩
        · rename_i hfrozen
          rw [if_neg hfrozen]
          exact h.writeFile hdry hdir hway hs herrors

theorem removeFile (h : Rehearses t d done p q) (hdry : t.dryRun = false) (hd : d.Rooted)
    (hr : d.Reaches t.directory) (hway : Spells name way) (hnew : name ∉ done)
    (herrors : (Sync.removeFile t q name (t.pathOf name)).report.errors = []) :
    Rehearses t d (done ++ [name])
      (Sync.removeFile { t with dryRun := true } p name (t.pathOf name))
      (Sync.removeFile t q name (t.pathOf name)) := by
  rcases removeFile_cases t q name (t.pathOf name) with
    ⟨f, -, hq⟩ | ⟨s, hs, hfrozen, hq⟩ |
      ⟨s, hs, hthawed, ⟨hdry', -⟩ | ⟨-, disk, hremove, hq⟩ | ⟨-, disk, f, -, hq⟩⟩
  · rw [hq] at herrors
    simp [Progress.fail] at herrors
  · rw [hq, Sync.removeFile, h.readText hd hr hway hnew hs]
    dsimp only
    rw [if_pos hfrozen]
    exact h.record hway h.named (.refl _ _) _
  · rw [hdry] at hdry'
    cases hdry'
  · have named := h.named.remove (t.pathOf name)
    have altered := alters_remove q.disk (t.pathOf name)
    rw [hremove] at named altered
    rw [hq, Sync.removeFile, h.readText hd hr hway hnew hs]
    dsimp only
    rw [if_neg (by simp [hthawed]), if_pos rfl]
    exact h.record hway named altered _
  · rw [hq] at herrors
    simp [Progress.fail] at herrors

theorem syncFiles {files : List (String × String)} (h : Rehearses t d done p q)
    (hdry : t.dryRun = false) (hd : d.Rooted) (hdir : t.directory.IsSpelled)
    (hr : d.Reaches t.directory) (hfiles : ∀ e ∈ files, ∃ way, Spells e.1 way)
    (hnew : (done ++ files.map Prod.fst).Nodup)
    (hs : files.foldlM (fun q e => Sync.syncFile t q e.1 e.2) q = .ok q')
    (herrors : q'.report.errors = []) :
    ∃ p', files.foldlM (fun p e => Sync.syncFile { t with dryRun := true } p e.1 e.2) p = .ok p' ∧
      Rehearses t d (done ++ files.map Prod.fst) p' q' := by
  induction files generalizing p q done with
  | nil =>
    obtain rfl := Except.ok.inj hs
    exact ⟨p, rfl, by simpa using h⟩
  | cons e rest ih =>
    obtain ⟨⟨way, hway⟩, hrest⟩ := List.forall_mem_cons.1 hfiles
    rw [List.foldlM_cons] at hs
    obtain ⟨q₁, hq₁, hs⟩ := exists_of_bind_ok hs
    have herrors₁ : q₁.report.errors = [] := List.prefix_nil.1 (herrors ▸ errors_syncFiles hs)
    have hfresh : e.1 ∉ done := by
      intro hmem
      exact (List.nodup_append.1 hnew).2.2 _ hmem _ (by simp) rfl
    obtain ⟨p₁, hp₁, h₁⟩ := h.syncFile hdry hd hdir hr hway hfresh hq₁ herrors₁
    rw [List.map_cons, List.append_cons] at hnew
    obtain ⟨p', hp', h'⟩ := ih h₁ hrest hnew hs
    refine ⟨p', ?_, ?_⟩
    · rw [List.foldlM_cons, hp₁]
      exact hp'
    · rwa [List.map_cons, List.append_cons]

theorem removeFiles {names : List String} (h : Rehearses t d done p q) (hdry : t.dryRun = false)
    (hd : d.Rooted) (hr : d.Reaches t.directory) (hnames : ∀ n ∈ names, ∃ way, Spells n way)
    (hnew : (done ++ names).Nodup)
    (herrors : (names.foldl (fun q n => Sync.removeFile t q n (t.pathOf n)) q).report.errors = []) :
    Rehearses t d (done ++ names)
      (names.foldl (fun p n => Sync.removeFile { t with dryRun := true } p n (t.pathOf n)) p)
      (names.foldl (fun q n => Sync.removeFile t q n (t.pathOf n)) q) := by
  induction names generalizing p q done with
  | nil => simpa using h
  | cons n rest ih =>
    obtain ⟨⟨way, hway⟩, hrest⟩ := List.forall_mem_cons.1 hnames
    have herrors₁ : (Sync.removeFile t q n (t.pathOf n)).report.errors = [] :=
      List.prefix_nil.1 (herrors ▸ errors_removeFiles rest _)
    have hfresh : n ∉ done := by
      intro hmem
      exact (List.nodup_append.1 hnew).2.2 _ hmem _ (by simp) rfl
    have h₁ := h.removeFile hdry hd hr hway hfresh herrors₁
    rw [List.append_cons] at hnew ⊢
    exact ih h₁ hrest hnew herrors

theorem find?_ne_none (h : Rehearses t d done p q) (hway : Spells name way) (hnew : name ∉ done)
    {l : Place} (hl : l = d.placeOf (t.pathOf name)) (hfind : d.find? l ≠ none) :
    q.disk.find? l ≠ none := by
  obtain ⟨e, he⟩ := Option.ne_none_iff_exists'.1 hfind
  cases e with
  | directory => simp [h.alters.directories l he]
  | file c => simp [(h.alters.files l c (hl ▸ h.untouched hway hnew)).2 he]

variable {produced : List String}

theorem mem_search (h : Rehearses t d done p q) (hd : d.Rooted) (hr : d.Reaches t.directory)
    (hm : m ∈ managed) (hfresh : Fresh m produced done)
    (hway : way ∈ q.disk.search (t.directory / m) extension)
    (hproduced : nameOf (m :: way) ∉ produced)
    (hreads : Reads q.disk (t.pathOf (nameOf (m :: way))) fun _ => True) :
    d.isDirectory (t.directory / m) = true ∧ way ∈ d.search (t.directory / m) extension := by
  obtain ⟨l, hl, hfind, hend⟩ := mem_search_iff.1 hway
  have hspells := spells_found hm h.named hfind hend
  have hnew := hfresh _ way hspells hproduced
  have hroot : l = d.placeOf (t.directory / m) := (eq_placeOf hl).trans (h.alters.placeOf _)
  have hplace : d.placeOf (t.pathOf (nameOf (m :: way))) = l ++ way := by
    rw [hspells.placeOf_managed hm, ← hroot]
  obtain ⟨s, hs, -⟩ := hreads
  have hs' := (hspells.reaches hr).readText hd h.alters (h.untouched hspells hnew) hs
  obtain ⟨c, -, hbytes, -⟩ := readText_ok_iff.1 hs'
  obtain ⟨-, k, hk, hfile⟩ := readBytes_ok_iff.1 hbytes
  rw [eq_placeOf hk, hplace] at hfile
  have hlength : l.length < (l ++ way).length := by
    obtain ⟨init, s, rfl⟩ := hend
    simp
  have hdir : d.find? l = some .directory := by
    simpa using hd.above_take hfile hlength
  have hlocate := (reaches_managed hm hr).locate hd h.alters hl hdir
  exact ⟨isDirectory_iff.2 ⟨l, hlocate, hdir⟩,
    mem_search_iff.2 ⟨l, hlocate, by simp [hfile], hend⟩⟩

theorem mem_search_real (h : Rehearses t d done p q) (hnamed : Named d) (hm : m ∈ managed)
    (hfresh : Fresh m produced done) (hway : way ∈ d.search (t.directory / m) extension)
    (hproduced : nameOf (m :: way) ∉ produced) :
    way ∈ q.disk.search (t.directory / m) extension := by
  obtain ⟨l, hl, hfind, hend⟩ := mem_search_iff.1 hway
  have hspells := spells_found hm hnamed hfind hend
  have hnew := hfresh _ way hspells hproduced
  have hplace : l ++ way = d.placeOf (t.pathOf (nameOf (m :: way))) := by
    rw [hspells.placeOf_managed hm, eq_placeOf hl]
  exact mem_search_iff.2 ⟨l, h.alters.locate hl, h.find?_ne_none hspells hnew hplace hfind, hend⟩

theorem stale_eq (h : Rehearses t d done p q) (hd : d.Rooted) (hnamed : Named d)
    (hr : d.Reaches t.directory) (hm : m ∈ managed) (hfresh : Fresh m produced done)
    (hreads : ∀ n ∈ stale t produced q.disk m, Reads q.disk (t.pathOf n) fun _ => True) :
    stale t produced d m = stale t produced q.disk m := by
  have hback : ∀ way ∈ q.disk.search (t.directory / m) extension,
      nameOf (m :: way) ∉ produced → q.disk.isDirectory (t.directory / m) = true →
      d.isDirectory (t.directory / m) = true ∧ way ∈ d.search (t.directory / m) extension := by
    intro way hway hproduced hdir
    refine h.mem_search hd hr hm hfresh hway hproduced (hreads _ ?_)
    rw [stale, if_pos hdir]
    exact List.mem_filter.2 ⟨List.mem_map_of_mem hway, by simpa using hproduced⟩
  by_cases hdir : d.isDirectory (t.directory / m) = true
  · have hdir' : q.disk.isDirectory (t.directory / m) = true := by
      obtain ⟨l, hl, hl'⟩ := isDirectory_iff.1 hdir
      exact isDirectory_iff.2 ⟨l, h.alters.locate hl, h.alters.directories l hl'⟩
    rw [stale, stale, if_pos hdir, if_pos hdir', List.filter_map, List.filter_map]
    refine congrArg (List.map _) (filter_search_congr fun way htest => ?_)
    have hproduced : nameOf (m :: way) ∉ produced := by simpa using htest
    exact ⟨fun hway => h.mem_search_real hnamed hm hfresh hway hproduced,
      fun hway => (hback way hway hproduced hdir').2⟩
  · -- without the directory nothing is stale in either run
    have hnone : stale t produced q.disk m = [] := by
      rw [List.eq_nil_iff_forall_not_mem]
      intro n hn
      rw [stale] at hn
      split at hn
      · rename_i hdir'
        obtain ⟨hn, hproduced⟩ := List.mem_filter.1 hn
        obtain ⟨way, hway, rfl⟩ := List.mem_map.1 hn
        exact hdir (hback way hway (by simpa using hproduced) hdir').1
      · cases hn
    rw [hnone, stale, if_neg hdir]

/-- Clearing a directory is rehearsed. -/
theorem removeStale (h : Rehearses t d done p q) (hdry : t.dryRun = false) (hd : d.Rooted)
    (hnamed : Named d) (hr : d.Reaches t.directory) (hm : m ∈ managed) (hdone : done.Nodup)
    (hfresh : Fresh m produced done)
    (herrors : (Sync.removeStale t produced q m).report.errors = []) :
    ∃ names, (done ++ names).Nodup ∧ (∀ n ∈ names, ∃ way, Spells n (m :: way)) ∧
      Rehearses t d (done ++ names) (Sync.removeStale { t with dryRun := true } produced p m)
        (Sync.removeStale t produced q m) := by
  have hnamed' : Named p.disk := h.disk ▸ hnamed
  rw [removeStale_eq produced hm h.named] at herrors ⊢
  rw [removeStale_eq produced hm hnamed']
  have hspells : ∀ n ∈ stale t produced q.disk m, n ∉ produced ∧ ∃ way, Spells n (m :: way) := by
    intro n hn
    obtain ⟨hproduced, l, hscript, hfind⟩ := mem_stale_iff.1 hn
    exact ⟨hproduced, (hscript.spells hm h.named hfind).2⟩
  have hnew : (done ++ stale t produced q.disk m).Nodup := by
    refine List.nodup_append.2 ⟨hdone, nodup_stale hm h.named, fun a ha b hb hab => ?_⟩
    obtain ⟨hproduced, way, hway⟩ := hspells b hb
    exact hfresh b way hway hproduced (hab ▸ ha)
  refine ⟨stale t produced q.disk m, hnew, fun n hn => (hspells n hn).2, ?_⟩
  have hnames : ∀ n ∈ stale t produced q.disk m, ∃ way, Spells n way := by
    intro n hn
    obtain ⟨-, way, hway⟩ := hspells n hn
    exact ⟨_, hway⟩
  have heq := h.stale_eq hd hnamed hr hm hfresh (reads_of_removeFiles hdry herrors)
  change Rehearses t d _ ((stale t produced p.disk m).foldl _ p) _
  rw [h.disk, heq]
  exact h.removeFiles hdry hd hr hnames hnew herrors

theorem removeStales {ms : List String} (h : Rehearses t d done p q) (hdry : t.dryRun = false)
    (hd : d.Rooted) (hnamed : Named d) (hr : d.Reaches t.directory) (hms : ms.Nodup)
    (hmanaged : ∀ m ∈ ms, m ∈ managed) (hdone : done.Nodup)
    (hfresh : ∀ m ∈ ms, Fresh m produced done)
    (herrors : (ms.foldl (Sync.removeStale t produced) q).report.errors = []) :
    ∃ done', Rehearses t d done'
      (ms.foldl (Sync.removeStale { t with dryRun := true } produced) p)
      (ms.foldl (Sync.removeStale t produced) q) := by
  induction ms generalizing p q done with
  | nil => exact ⟨done, h⟩
  | cons m rest ih =>
    rw [List.nodup_cons] at hms
    rw [List.foldl_cons] at herrors ⊢
    rw [List.foldl_cons]
    have herrors₁ : (Sync.removeStale t produced q m).report.errors = [] :=
      List.prefix_nil.1 (herrors ▸ errors_removeStales rest _)
    obtain ⟨names, hnodup, hspells, h₁⟩ := h.removeStale hdry hd hnamed hr
      (hmanaged m (List.mem_cons_self ..)) hdone (hfresh m (List.mem_cons_self ..)) herrors₁
    refine ih h₁ hms.2 (fun m' hm' => hmanaged m' (List.mem_cons_of_mem _ hm')) hnodup ?_ herrors
    -- what was cleared lies below another directory
    intro m' hm' n way hway hproduced hmem
    rcases List.mem_append.1 hmem with hmem | hmem
    · exact hfresh m' (List.mem_cons_of_mem _ hm') n way hway hproduced hmem
    · obtain ⟨way', hway'⟩ := hspells n hmem
      have hmm : m' = m := (List.cons.inj (hway.way_unique hway')).1
      exact hms.1 (hmm ▸ hm')

end Rehearses

variable {files : OrderedMap String String} {report : Report}

theorem exists_syncFiles_dry (hdry : t.dryRun = true) (entries : List (String × String))
    (p : Progress) : ∃ p', entries.foldlM (fun p e => syncFile t p e.1 e.2) p = .ok p' := by
  induction entries generalizing p with
  | nil => exact ⟨p, rfl⟩
  | cons e rest ih =>
    have hstep : ∃ p₁, syncFile t p e.1 e.2 = .ok p₁ := by
      rcases syncFile_cases t p e.1 e.2 with ⟨f, -, h⟩ | ⟨head, -, -, h⟩ | ⟨head, -, -, h⟩ | ⟨-, h⟩
      · exact ⟨_, h⟩
      · exact ⟨_, h⟩
      · exact ⟨_, h⟩
      · rw [h, writeFile, if_pos hdry]
        exact ⟨_, rfl⟩
    obtain ⟨p₁, hp₁⟩ := hstep
    obtain ⟨p', hp'⟩ := ih p₁
    exact ⟨p', by rw [List.foldlM_cons, hp₁]; exact hp'⟩

theorem disk_syncFile_dry (hdry : t.dryRun = true) (h : syncFile t p name body = .ok p') :
    p'.disk = p.disk := by
  rcases syncFile_cases t p name body with
    ⟨f, -, hp⟩ | ⟨head, -, -, hp⟩ | ⟨head, -, -, hp⟩ | ⟨-, hp⟩
  · exact Except.ok.inj (h.symm.trans hp) ▸ rfl
  · exact Except.ok.inj (h.symm.trans hp) ▸ rfl
  · exact Except.ok.inj (h.symm.trans hp) ▸ rfl
  · rw [writeFile, if_pos hdry] at hp
    exact Except.ok.inj (h.symm.trans hp) ▸ rfl

theorem disk_removeFile_dry (hdry : t.dryRun = true) (p : Progress) (name : String)
    (path : FilePath) : (removeFile t p name path).disk = p.disk := by
  rcases removeFile_cases t p name path with
    ⟨f, -, hp⟩ | ⟨s, -, -, hp⟩ | ⟨s, -, -, ⟨-, hp⟩ | ⟨hdry', -⟩ | ⟨hdry', -⟩⟩
  · exact hp ▸ rfl
  · exact hp ▸ rfl
  · exact hp ▸ rfl
  · rw [hdry] at hdry'
    cases hdry'
  · rw [hdry] at hdry'
    cases hdry'

theorem disk_synchronize_dry (hdry : t.dryRun = true) (files : OrderedMap String String)
    (d : Disk) : (synchronize t d files).1 = d := by
  obtain ⟨p, hwritten⟩ := exists_syncFiles_dry hdry files.entries
    ⟨d, { directory := t.directory.text, dryRun := t.dryRun }⟩
  have written : p.disk = d := syncFiles_induction (P := fun p => p.disk = d)
    (fun _ _ _ _ hp hs => (disk_syncFile_dry hdry hs).trans hp) hwritten rfl
  rw [fst_synchronize hwritten]
  exact sweptDisk_sweeps_induction (P := (· = d)) written fun _ _ p hp =>
    removeStale_induction (P := fun q => q.disk = d) hp fun _ _ _ q hq =>
      (disk_removeFile_dry hdry q _ _).trans hq

theorem exists_synchronize_dry_iff (hdry : t.dryRun = true) :
    (∃ plan, (synchronize t d files).2 = .ok plan) ↔
      ∀ m ∈ managed, d.unsearchable? (t.directory / m) = none := by
  have hdisk := disk_synchronize_dry hdry files d
  refine ⟨fun ⟨plan, h⟩ => ?_, fun hsearch => ?_⟩
  · have hsync : synchronize t d files = (d, .ok plan) := Prod.ext hdisk h
    exact unsearchable?_of_synchronize hsync
  · rcases hsync : synchronize t d files with ⟨d', e | plan⟩
    · have hd : d' = d := by rwa [hsync] at hdisk
      subst hd
      rcases synchronize_error hsync with ⟨-, hbroke⟩ | ⟨m, hm, path, -, hpath⟩
      · obtain ⟨p, hwritten⟩ := exists_syncFiles_dry hdry files.entries
          ⟨d', { directory := t.directory.text, dryRun := t.dryRun }⟩
        cases hbroke.symm.trans hwritten
      · cases (hsearch m hm).symm.trans hpath
    · exact ⟨plan, rfl⟩

/-- What a dry run reports is what the real run does, if that comes to an end without an error and
the directory steps up only out of directories that are there. -/
theorem records_synchronize_dry {plan : Report} (hdry : t.dryRun = false) (hd : d.Rooted)
    (hnamed : Named d) (hdir : t.directory.IsSpelled) (hr : d.Reaches t.directory)
    (hnames : ∀ n ∈ files.keys, ∃ way, Spells n way)
    (hplan : synchronize { t with dryRun := true } d files = (d, .ok plan))
    (hreport : synchronize t d files = (d', .ok report)) (herrors : report.errors = []) :
    plan.records = report.records := by
  obtain ⟨q, hq, hqs⟩ := synchronize_ok hreport
  have hq' := removeStales_of_sweeps hqs
  have start : Rehearses t d [] ⟨d, { directory := t.directory.text, dryRun := true }⟩
      ⟨d, { directory := t.directory.text, dryRun := t.dryRun }⟩ :=
    ⟨rfl, rfl, hnamed, by simp, .refl _ _⟩
  have hcleared : (managed.foldl (removeStale t files.keys) q).report.errors = [] := by
    rw [hq']
    exact herrors
  have hwritten : q.report.errors = [] :=
    List.prefix_nil.1 (hcleared ▸ errors_removeStales managed _)
  obtain ⟨p, hp, hrehearses⟩ := start.syncFiles hdry hd hdir hr
    (fun e he => hnames _ (List.mem_map_of_mem he)) files.distinct hq hwritten
  obtain ⟨p', hp', hps⟩ := synchronize_ok hplan
  obtain rfl := Except.ok.inj (hp.symm.trans hp')
  have hfresh : ∀ m ∈ managed, Fresh m files.keys ([] ++ files.entries.map Prod.fst) :=
    fun _ _ _ _ _ hproduced => hproduced
  obtain ⟨done, hdone⟩ := hrehearses.removeStales hdry hd hnamed hr (by decide)
    (fun _ => id) files.distinct hfresh hcleared
  have hrecords := hdone.records
  rwa [hq', removeStales_of_sweeps hps] at hrecords

/-- A dry run leaves the disk as it is, and comes to an end exactly if the managed directories can
be searched. If the directory steps up only out of directories that are there and the real run
succeeds, the dry run comes to an end with the same records. -/
theorem dry_run_predicts (t : Target) (files : OrderedMap String String) (d : Disk)
    (hd : d.Rooted) (hnamed : d.Named) (hdir : t.directory.IsSpelled)
    (hproper : ∀ n ∈ files.keys, IsProper n) :
    (synchronize { t with dryRun := true } d files).1 = d ∧
      ((∃ plan, (synchronize { t with dryRun := true } d files).2 = .ok plan) ↔
        ∀ m ∈ managed, d.unsearchable? (t.directory / m) = none) ∧
      (d.Reaches t.directory → ∀ report,
        (synchronize { t with dryRun := false } d files).2 = .ok report → report.success = true →
          ∃ plan, (synchronize { t with dryRun := true } d files).2 = .ok plan ∧
            plan.records = report.records) := by
  have hdisk : (synchronize { t with dryRun := true } d files).1 = d :=
    disk_synchronize_dry rfl files d
  have hended : (∃ plan, (synchronize { t with dryRun := true } d files).2 = .ok plan) ↔
      ∀ m ∈ managed, d.unsearchable? (t.directory / m) = none := exists_synchronize_dry_iff rfl
  refine ⟨hdisk, hended, fun hr report hreport hsuccess => ?_⟩
  have names : ∀ n ∈ files.keys, ∃ way, Spells n way := fun n hn => exists_spells (hproper n hn)
  have hran : synchronize { t with dryRun := false } d files =
      ((synchronize { t with dryRun := false } d files).1, .ok report) := Prod.ext rfl hreport
  have opened := opened_synchronize (t := { t with dryRun := false }) hr names
  obtain ⟨plan, hplan⟩ := hended.2 fun m hm =>
    opened.alters.unsearchable? (unsearchable?_of_synchronize hran m hm)
  exact ⟨plan, hplan, records_synchronize_dry (t := { t with dryRun := false }) rfl hd hnamed hdir
    hr names (Prod.ext hdisk hplan) hran (List.isEmpty_iff.1 hsuccess)⟩

def oldDisk : Disk where
  entries := .ofList [(["interfaces"], .directory),
    (["interfaces", "Old.ts"], .file "old\n".toByteArray)]

def newFiles : OrderedMap String String := .ofList [("Post", "x")]

def here : Target := { sampleTarget with directory := .ofText "." }

theorem dry_run_predicts_here : ∃ plan report,
    synchronize { here with dryRun := true } oldDisk newFiles = (oldDisk, .ok plan) ∧
    (synchronize here oldDisk newFiles).2 = .ok report ∧ report.success = true ∧
    "interfaces/Old" ∈ report.named .removed ∧ plan.records = report.records := by
  obtain ⟨hdisk, -, hpredicts⟩ := dry_run_predicts here newFiles oldDisk
    (by decide +kernel) (by decide +kernel) (by decide) (by decide +kernel)
  have hreaches : oldDisk.Reaches here.directory := reaches_of_no_steps (by decide)
  obtain ⟨report, hreport⟩ := (exists_synchronize_iff (t := here) (d := oldDisk)
    newFiles (by decide +kernel)).2 fun m hm => (searchable_synchronize hreaches
      (fun n hn => exists_spells ((by decide +kernel : ∀ n ∈ newFiles.keys, IsProper n) n hn)) hm
      ((by decide +kernel : ∀ m ∈ managed, oldDisk.Searchable (here.directory / m))
        m hm)).unsearchable?
  have htest : (synchronize here oldDisk newFiles).2.toOption.all (fun r =>
      r.success && (r.named .removed).contains "interfaces/Old") = true := by decide +kernel
  rw [hreport, Except.toOption, Option.all_some, Bool.and_eq_true, List.contains_iff_mem] at htest
  obtain ⟨plan, hplan, hrecords⟩ := hpredicts hreaches report hreport htest.1
  exact ⟨plan, report, Prod.ext hdisk hplan, hreport, htest.1, htest.2, hrecords⟩

/-- A target that steps up out of a directory which the first file that is written makes. -/
def detour : Target := { sampleTarget with directory := .ofText "new/.." }

/-- Only the real run gets at the stale script. -/
theorem dry_run_misses_removal :
    oldDisk.Rooted ∧ oldDisk.Named ∧ detour.directory.IsSpelled ∧
    (∀ n ∈ newFiles.keys, IsProper n) ∧
    ((synchronize { detour with dryRun := true } oldDisk newFiles).2.toOption.any
      fun plan => (plan.named .removed).isEmpty) = true ∧
    ((synchronize detour oldDisk newFiles).2.toOption.any
      fun report => report.success && report.named .removed == ["interfaces/Old"]) = true := by
  decide +kernel

end Sync

end HydraClient
