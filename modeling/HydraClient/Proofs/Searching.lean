import HydraClient.Proofs.OptOut
import HydraClient.Proofs.ScriptNames

/-! # Directories that can be searched

Whether a managed directory can be searched depends on the directories of the disk alone. Clearing
files adds none, and a synchronisation makes only those on the way to what it produces, by paths
that are short enough. So a directory that can be searched before a synchronisation can be searched
whenever that turns to it.
-/
namespace HydraClient

namespace Disk

variable {d d' : Disk} {there : Place → Prop} {l : Place} {p : FilePath} {ss : List String}

/-- A name that is too long stops every way that comes to it. -/
theorem follow_nameTooLong
    (hd : ∀ l, d.find? l = some .directory → d'.find? l = some .directory)
    (h : d.follow l ss = .error .nameTooLong) : d'.follow l ss = .error .nameTooLong := by
  induction ss generalizing l with
  | nil => cases h
  | cons s rest ih =>
    rw [follow] at h ⊢
    split at h
    · cases h
    · cases h
    · rename_i hl
      rw [hd l hl]
      dsimp only
      split at h
      · rename_i hs
        rw [if_pos hs]
        exact ih h
      · rename_i hs
        rw [if_neg hs]
        split at h
        · rename_i hf
          rw [if_pos hf]
          exact ih h
        · rename_i hf
          rw [if_neg hf]

theorem status_nameTooLong_iff :
    d.status p = .error .nameTooLong ↔ d.locate p = .error .nameTooLong := by
  rw [status]
  cases d.locate p with
  | error e => simp [bind, Except.bind]
  | ok l =>
    dsimp only [bind, Except.bind]
    cases d.find? l with
    | none => simp [throw, throwThe, MonadExceptOf.throw]
    | some e => simp [pure, Except.pure]

theorem status_nameTooLong (hh : d'.home = d.home)
    (hd : ∀ l, d.find? l = some .directory → d'.find? l = some .directory)
    (h : d.status p = .error .nameTooLong) : d'.status p = .error .nameTooLong := by
  rw [status_nameTooLong_iff] at h ⊢
  unfold locate at h ⊢
  split at h
  · rename_i hfits
    rw [if_pos hfits, start, hh]
    exact follow_nameTooLong hd h
  · rename_i hfits
    rw [if_neg hfits]

theorem refuses_iff :
    d.refuses p = true ↔ d.status p = .error .nameTooLong ∧ p.isNameable = true := by
  unfold refuses
  split
  · rename_i hstatus
    simp [hstatus]
  · rename_i hstatus
    exact iff_of_false Bool.false_ne_true fun h => hstatus h.1

theorem unsearchable?_eq_none_iff : d.unsearchable? p = none ↔ d.refuses p = false ∧
    ∀ l, d.locate p = .ok l → d.find? l = some .directory →
      ∀ way, d.find? (l ++ way) = some .directory →
        FilePath.fits { p with segments := p.segments ++ way } = true := by
  rw [unsearchable?]
  cases hrefuses : d.refuses p with
  | true => simp
  | false =>
    cases hl : d.locate p with
    | error e => simp
    | ok l =>
      by_cases hdir : d.find? l = some .directory
      · simp only [hdir, if_true, Bool.false_eq_true, if_false, List.findSome?_eq_none_iff,
          Except.ok.injEq, true_and, forall_eq', Prod.forall, mem_contents_iff]
        constructor
        · intro h _ way hway
          by_cases hnil : way = []
          · simpa [hnil] using (locate_ok_iff.1 hl).1
          · simpa using h way .directory ⟨hnil, hway⟩
        · rintro h way e ⟨-, hway⟩
          rw [ite_eq_right_iff]
          rintro ⟨rfl, hlong⟩
          rw [h trivial way hway] at hlong
          cases hlong
      · simp [hdir]

theorem unsearchable?_of_directories (hh : d'.home = d.home)
    (hd : ∀ l, d.find? l = some .directory → d'.find? l = some .directory)
    (h : d'.unsearchable? p = none) : d.unsearchable? p = none := by
  rw [unsearchable?_eq_none_iff] at h ⊢
  refine ⟨?_, fun l hl hdir way hway => ?_⟩
  · by_contra hrefuses
    obtain ⟨hstatus, hn⟩ := refuses_iff.1 (by simpa using hrefuses)
    rw [refuses_iff.2 ⟨status_nameTooLong hh hd hstatus, hn⟩] at h
    cases h.1
  · exact h.2 l (locate_of_directories hh hd hl) (hd l hdir) way (hd _ hway)

theorem Alters.unsearchable? (ha : Alters there d d') (h : d'.unsearchable? p = none) :
    d.unsearchable? p = none :=
  unsearchable?_of_directories ha.home ha.directories h

theorem follow_of_fits (h : ∀ s ∈ ss, nameFits s = true) :
    d.follow l ss ≠ .error .nameTooLong := by
  induction ss generalizing l with
  | nil =>
    intro hlong
    cases hlong
  | cons s rest ih =>
    have hrest := fun l => ih (l := l) fun s hs => h s (List.mem_cons_of_mem _ hs)
    rw [follow]
    split
    · intro hlong
      cases hlong
    · intro hlong
      cases hlong
    · split
      · exact hrest _
      · rw [if_pos (h s (List.mem_cons_self ..))]
        exact hrest _

theorem refuses_of_fits (hp : p.fits = true) (h : ∀ s ∈ p.segments, nameFits s = true) :
    d.refuses p = false := by
  by_contra hrefuses
  obtain ⟨hstatus, -⟩ := refuses_iff.1 (by simpa using hrefuses)
  rw [status_nameTooLong_iff, locate, if_pos hp] at hstatus
  exact follow_of_fits h hstatus

/-- A path is short enough to be searched, whether or not it leads to a directory yet, and so are
the paths of the directories below its place. -/
structure Searchable (d : Disk) (p : FilePath) : Prop where
  fits : p.fits = true
  names : ∀ s ∈ p.segments, nameFits s = true
  below : ∀ way, d.find? (d.placeOf p ++ way) = some .directory →
    FilePath.fits { p with segments := p.segments ++ way } = true

theorem searchable_iff : d.Searchable p ↔ p.fits = true ∧ (∀ s ∈ p.segments, nameFits s = true) ∧
    ∀ e ∈ d.entries.entries, e.2 = .directory → ∀ way ∈ below? (d.placeOf p) e.1,
      FilePath.fits { p with segments := p.segments ++ way } = true := by
  constructor
  · refine fun h => ⟨h.fits, h.names, fun e he hdir way hway => h.below way ?_⟩
    have heq : e.1 = d.placeOf p ++ way := below?_eq_some_iff.1 hway
    by_cases hnil : e.1 = []
    · simp [← heq, hnil]
    · rw [← heq, find?_of_mem he hnil, hdir]
  · refine fun ⟨hp, hnames, h⟩ => ⟨hp, hnames, fun way hway => ?_⟩
    by_cases hnil : d.placeOf p ++ way = []
    · simpa [(List.append_eq_nil_iff.1 hnil).2] using hp
    · exact h _ (mem_of_find? hway hnil) rfl way (below?_eq_some_iff.2 rfl)

instance (d : Disk) : DecidablePred d.Searchable := fun _ => decidable_of_iff _ searchable_iff.symm

theorem Searchable.unsearchable? (h : d.Searchable p) : d.unsearchable? p = none :=
  unsearchable?_eq_none_iff.2 ⟨refuses_of_fits h.fits h.names,
    fun _ hl _ way hway => h.below way (eq_placeOf hl ▸ hway)⟩

theorem placeOf_of_follow {above below : List String} (hp : p.segments = above ++ below)
    (hbelow : ".." ∉ below) (hl : d.follow (d.start p) above = .ok l) :
    d.placeOf p = l ++ below := by
  have hplace : d.placeOf p = FilePath.collapse (d.start p) (above ++ below) := by
    rw [← hp]
    rfl
  rw [hplace, eq_collapse_of_follow hl]
  exact List.foldl_append.trans (collapse_of_no_steps hbelow _)

/-- What is passed on the way along a path that steps up only out of directories that are there is
one of these, or lies above its place, or below. -/
theorem Reaches.passes {way ts : List String} (hr : d.Reaches p) (hway : ".." ∉ way)
    (hts : ts <+: p.segments ++ way)
    (hd : ∀ l, d.find? l = some .directory → d'.find? l = some .directory)
    (h : d'.follow (d.start p) ts = .ok l) :
    d.find? l = some .directory ∨ l <+: d.placeOf p ∨
      ∃ rest, ts = p.segments ++ rest ∧ l = d.placeOf p ++ rest := by
  obtain ⟨above, below, k, hp, hbelow, hk⟩ := hr
  rw [placeOf_of_follow hp hbelow hk]
  rw [hp, List.append_assoc] at hts
  rcases List.prefix_or_prefix_of_prefix hts (List.prefix_append ..) with ⟨rest, rfl⟩ | ⟨ss, rfl⟩
  · rw [follow_append] at hk
    obtain ⟨l', hl', hrest⟩ := exists_of_bind_ok hk
    obtain rfl := Except.ok.inj (h.symm.trans (follow_of_directories hd hl'))
    cases rest with
    | nil => exact .inr (.inl (Except.ok.inj hrest ▸ List.prefix_append ..))
    | cons s rest => exact .inl (follow_cons hrest).1
  · have hss : ss <+: below ++ way := (List.prefix_append_right_inj above).1 hts
    have hsteps : ".." ∉ ss := fun hmem => (List.mem_append.1 (hss.subset hmem)).elim hbelow hway
    rw [follow_append, follow_of_directories hd hk] at h
    obtain rfl : l = k ++ ss := (eq_collapse_of_follow h).trans (collapse_of_no_steps hsteps k)
    rcases List.prefix_or_prefix_of_prefix hss (List.prefix_append ..) with hss | ⟨rest, rfl⟩
    · exact .inr (.inl ((List.prefix_append_right_inj k).2 hss))
    · exact .inr (.inr ⟨rest, by rw [hp, List.append_assoc], (List.append_assoc ..).symm⟩)

structure Thinned (d d' : Disk) : Prop where
  home : d'.home = d.home
  directories : ∀ l, d'.find? l = some .directory → d.find? l = some .directory

theorem Thinned.remove {d₁ : Disk} (h : Thinned d d₁) (path : FilePath) :
    Thinned d (d₁.remove path).1 := by
  rcases remove_cases d₁ path with ⟨f, hr⟩ | ⟨k, c, -, -, hr⟩
  · rwa [hr]
  · rw [hr]
    refine ⟨h.home, fun l hl => h.directories l ?_⟩
    rw [find?_drop] at hl
    split at hl
    · cases hl
    · exact hl

/-- Directories have been made on the way to a path and below it only, the latter by paths that are
short enough. -/
structure Opened (p : FilePath) (d d' : Disk) : Prop where
  alters : Alters (fun _ => True) d d'
  directories : ∀ k, d'.find? k = some .directory → d.find? k = some .directory ∨
    k <+: d.placeOf p ∨ ∃ way, k = d.placeOf p ++ way ∧
      FilePath.fits { p with segments := p.segments ++ way } = true

namespace Opened

variable {way : List String}

theorem refl (p : FilePath) (d : Disk) : Opened p d d := ⟨.refl _ _, fun _ => .inl⟩

theorem makeDirectory {d₁ : Disk} (h : Opened p d d₁) (hr : d.Reaches p) (hway : ".." ∉ way)
    (hss : ss <+: p.segments ++ way) (hmake : d₁.makeDirectory ⟨p.root, ss⟩ = .ok d') :
    Opened p d d' := by
  obtain ⟨k, hk, hnone, rfl⟩ := makeDirectory_ok hmake
  refine ⟨h.alters.trans (.put_directory hnone), fun k' hk' => ?_⟩
  rw [find?_put] at hk'
  split at hk'
  · rename_i heq
    obtain ⟨hfits, hfollow⟩ := locate_ok_iff.1 hk
    have hfollow : d₁.follow (d.start p) ss = .ok k' := h.alters.start p ▸ heq.1 ▸ hfollow
    refine (hr.passes hway hss h.alters.directories hfollow).imp_right (.imp_right ?_)
    rintro ⟨rest, rfl, hrest⟩
    exact ⟨rest, hrest, hfits⟩
  · exact h.directories k' hk'

theorem writeText {d₁ : Disk} (h : Opened p d d₁) (hr : d.Reaches p) (hway : ".." ∉ way)
    (text : String) :
    Opened p d (d₁.writeText { p with segments := p.segments ++ way } text).1 := by
  have made : Opened p d (d₁.ensureDirectory
      (FilePath.parent { p with segments := p.segments ++ way })).1 := by
    refine ensureDirectory_induction (P := fun a b => Opened p d a → Opened p d b)
      (FilePath.parent { p with segments := p.segments ++ way }) (fun _ h => h)
      (fun h h' a => h' (h a)) (fun hts hmake ha => ha.makeDirectory hr hway ?_ hmake) d₁ h
    exact hts.trans (List.dropLast_prefix _)
  rcases writeText_cases d₁ { p with segments := p.segments ++ way } text with
    ⟨f, hw, -⟩ | ⟨l, -, hdir, -, -, hw⟩
  · rwa [hw]
  · rw [hw]
    refine ⟨made.alters.trans ((Alters.put_file hdir).mono fun _ _ => trivial), fun k hk => ?_⟩
    rw [find?_put] at hk
    split at hk
    · cases hk
    · exact made.directories k hk

theorem remove {d₁ : Disk} (h : Opened p d d₁) (path : FilePath) :
    Opened p d (d₁.remove path).1 where
  alters := h.alters.trans ((alters_remove d₁ path).mono fun _ _ => trivial)
  directories k hk := h.directories k ((Thinned.remove ⟨rfl, fun _ => id⟩ path).directories k hk)

theorem searchable {s : String} (h : Opened p d d') (hs : s ≠ "..")
    (hsearch : d.Searchable { p with segments := p.segments ++ [s] }) :
    d'.Searchable { p with segments := p.segments ++ [s] } := by
  refine ⟨hsearch.fits, hsearch.names, fun way hway => ?_⟩
  have hplace : d.placeOf { p with segments := p.segments ++ [s] } = d.placeOf p ++ [s] :=
    placeOf_append (by simpa using hs.symm) d p
  rw [h.alters.placeOf, hplace] at hway
  rcases h.directories _ hway with hold | habove | ⟨rest, hrest, hfits⟩
  · exact hsearch.below way (hplace ▸ hold)
  · have hle := habove.length_le
    simp only [List.length_append, List.length_singleton] at hle
    omega
  · obtain rfl : rest = s :: way := by simpa using hrest.symm
    simpa using hfits

end Opened

end Disk

namespace Sync

open Disk

variable {t : Target} {p p' : Progress} {d d' : Disk} {files : OrderedMap String String}
  {produced : List String}

theorem thinned_removeStale (h : Thinned d p.disk) (t : Target) (produced : List String)
    (m : String) : Thinned d (removeStale t produced p m).disk := by
  refine removeStale_induction (P := fun q => Thinned d q.disk) h fun way _ _ q hq => ?_
  rcases disk_removeFile t q (nameOf (m :: way))
    { t.directory / m with segments := (t.directory / m).segments ++ way } with
    hd | ⟨s, -, -, hd⟩
  · rwa [hd]
  · rw [hd]
    exact hq.remove _

theorem thinned_removeStales (h : Thinned d p.disk) (t : Target) (produced ms : List String) :
    Thinned d (ms.foldl (removeStale t produced) p).disk :=
  List.foldlRecOn (motive := fun q : Progress => Thinned d q.disk) ms _ h
    fun _ hq m _ => thinned_removeStale hq t produced m

/-- Directories are cleared up to the first one that cannot be searched. -/
theorem sweeps_cases (produced ms : List String) (p : Progress) :
    (∃ p', ms.foldlM (sweep t produced) p = .ok p' ∧
      ∀ m ∈ ms, p'.disk.unsearchable? (t.directory / m) = none) ∨
    ∃ m ∈ ms, ∃ d' path, ms.foldlM (sweep t produced) p = .error (d', path) ∧
      d'.unsearchable? (t.directory / m) = some path := by
  induction ms generalizing p with
  | nil => exact .inl ⟨p, rfl, by simp⟩
  | cons m rest ih =>
    rw [List.foldlM_cons]
    cases hp : p.disk.unsearchable? (t.directory / m) with
    | some path =>
      have hsweep : sweep t produced p m = .error (p.disk, path) := by
        unfold sweep
        rw [hp]
      rw [hsweep]
      exact .inr ⟨m, List.mem_cons_self .., p.disk, path, rfl, hp⟩
    | none =>
      rw [sweep_of_searchable hp]
      rcases ih (removeStale t produced p m) with
        ⟨p', hswept, hall⟩ | ⟨m', hm', d', path, hswept, hpath⟩
      · have thinned : Thinned p.disk p'.disk := removeStales_of_sweeps hswept ▸
          thinned_removeStales ⟨rfl, fun _ => id⟩ t produced (m :: rest)
        exact .inl ⟨p', hswept, List.forall_mem_cons.2
          ⟨unsearchable?_of_directories thinned.home.symm thinned.directories hp, hall⟩⟩
      · exact .inr ⟨m', List.mem_cons_of_mem m hm', d', path, hswept, hpath⟩

theorem synchronize_error {e : Failure} (h : synchronize t d files = (d', .error e)) :
    e = .unnameable ∧ files.entries.foldlM (fun p e => syncFile t p e.1 e.2)
        ⟨d, { directory := t.directory.text, dryRun := t.dryRun }⟩ = .error d' ∨
      ∃ m ∈ managed, ∃ path, e = .nameTooLong path ∧
        d'.unsearchable? (t.directory / m) = some path := by
  unfold synchronize at h
  dsimp only at h
  split at h
  · rename_i hwritten
    obtain ⟨rfl, he⟩ := Prod.mk.inj h
    exact .inl ⟨(Except.error.inj he).symm, hwritten⟩
  · rename_i p hwritten
    rcases sweeps_cases (t := t) files.keys managed p with
      ⟨p', hswept, -⟩ | ⟨m, hm, d₁, path, hswept, hpath⟩
    · rw [hswept] at h
      cases (Prod.mk.inj h).2
    · rw [hswept] at h
      obtain ⟨rfl, he⟩ := Prod.mk.inj h
      exact .inr ⟨m, hm, path, (Except.error.inj he).symm, hpath⟩

/-- A synchronisation that comes to an end leaves directories that can be searched. -/
theorem unsearchable?_of_synchronize {report : Report}
    (h : synchronize t d files = (d', .ok report)) :
    ∀ m ∈ managed, d'.unsearchable? (t.directory / m) = none := by
  obtain ⟨p, -, hswept⟩ := synchronize_ok h
  rcases sweeps_cases (t := t) files.keys managed p with
    ⟨p', hswept', hall⟩ | ⟨m, hm, d₁, path, hswept', -⟩
  · obtain rfl := Except.ok.inj (hswept.symm.trans hswept')
    exact hall
  · cases hswept.symm.trans hswept'

theorem opened_synchronize (hr : d.Reaches t.directory)
    (hnames : ∀ n ∈ files.keys, ∃ way, Spells n way) :
    Opened t.directory d (synchronize t d files).1 := by
  refine disk_synchronize_induction (.refl _ d) (fun n hn d₁ hd _ text => ?_)
    fun _ _ _ _ _ _ _ d₁ hd _ _ _ => hd.remove _
  obtain ⟨way, hway⟩ := hnames n hn
  rw [hway.pathOf]
  exact hd.writeText hr (fun hmem => (hway.names _ hmem).2.2.1 rfl) text

/-- A managed directory that can be searched when a synchronisation begins can be searched when that
turns to it. -/
theorem searchable_synchronize (hr : d.Reaches t.directory)
    (hnames : ∀ n ∈ files.keys, ∃ way, Spells n way) {m : String} (hm : m ∈ managed)
    (hsearch : d.Searchable (t.directory / m)) :
    (synchronize t d files).1.Searchable (t.directory / m) := by
  rw [managed_directory hm] at hsearch ⊢
  exact (opened_synchronize hr hnames).searchable (isName_of_managed hm).2.2.1 hsearch

end Sync
end HydraClient
