import HydraClient.Proofs.Searching

/-! # What a synchronisation leaves behind

Every file that is dealt with leaves one record and changes at most its own place. A pass over many
files is a course of such dealings, and what one of them did stays as long as the names of the
others are different ones.
-/
namespace HydraClient.Sync

open Disk FilePath

variable {t : Target} {r : Record} {rs rs' : List Record} {p p' p'' : Progress} {d d' : Disk}
  {name body : String} {path : FilePath}

def Record.Changes (r : Record) : Prop := r.action = .written ∨ r.action = .removed

def failures (rs : List Record) : List (Category × List (String × Json)) :=
  (rs.filter (·.action == .failed)).map fun r =>
    (.fileWrite, [("file", .str r.name), ("path", .str r.path)])

def Report.told (r : Report) : List (Category × List (String × Json)) :=
  r.errors.map fun d => (d.category, d.context)

/-- One file has been dealt with. There is a record of it, and an error if that says so, and at
most its own place has been changed, if the record says so. -/
structure Dealt (t : Target) (r : Record) (p p' : Progress) : Prop where
  path : r.path = (t.pathOf r.name).text
  records : p'.report.records = p.report.records ++ [r]
  errors : p'.report.told = p.report.told ++ failures [r]
  alters : Alters (fun l => r.Changes ∧ l = p.disk.placeOf (t.pathOf r.name)) p.disk p'.disk

theorem Dealt.of_record (hp : r.path = (t.pathOf r.name).text) (hf : r.action ≠ .failed)
    (ha : Alters (fun l => r.Changes ∧ l = p.disk.placeOf (t.pathOf r.name)) p.disk d) :
    Dealt t r p ({ p with disk := d }.record r) where
  path := hp
  records := rfl
  errors := by simp [failures, hf, Progress.record, Report.told]
  alters := ha

theorem Dealt.of_fail (hp : path = t.pathOf name) (verb : String) (f : DiskFault)
    (ha : Alters (fun _ => False) p.disk d) :
    Dealt t ⟨name, path.text, .failed, 0, 0⟩ p ({ p with disk := d }.fail name path verb f) where
  path := by rw [hp]
  records := rfl
  errors := by simp [failures, Progress.fail, Report.told]
  alters := ha.mono fun _ => False.elim

def Reads (d : Disk) (path : FilePath) (P : Header → Prop) : Prop :=
  ∃ s, d.readText path = .ok s ∧ P (Header.parse s)

instance (d : Disk) (path : FilePath) (P : Header → Prop) [DecidablePred P] :
    Decidable (Reads d path P) :=
  decidable_of_iff (∃ s ∈ (d.readText path).toOption, P (Header.parse s)) (by
    unfold Reads
    cases d.readText path <;> simp [Except.toOption])

theorem Reads.mono {P Q : Header → Prop} (h : Reads d path P) (hpq : ∀ h, P h → Q h) :
    Reads d path Q :=
  h.imp fun _ hs => ⟨hs.1, hpq _ hs.2⟩

theorem Reads.alters {there : Place → Prop} {P : Header → Prop} (h : Reads d path P)
    (ha : Alters there d d') (hp : ¬ there (d.placeOf path)) : Reads d' path P :=
  h.imp fun _ hs => ⟨ha.readText hp hs.1, hs.2⟩

theorem Reads.of_within {P : Header → Prop} (h : Reads d' path P) (hhome : d'.home = d.home)
    (hwithin : ∀ l e, d'.find? l = some e → d.find? l = some e) : Reads d path P := by
  obtain ⟨s, hs, hP⟩ := h
  obtain ⟨c, text, hbytes, htext⟩ := readText_ok_iff.1 hs
  obtain ⟨hn, l, hl, hfile⟩ := readBytes_ok_iff.1 hbytes
  have hlocate := locate_of_directories hhome.symm (fun k => hwithin k _) hl
  exact ⟨s, readText_ok_iff.2 ⟨c, text, readBytes_ok_iff.2 ⟨hn, l, hlocate, hwithin l _ hfile⟩,
    htext⟩, hP⟩

def ReadsBack (d : Disk) (path : FilePath) (body : String) : Prop :=
  ∃ s, d.readText path = .ok s ∧ (Header.parse s).body = body

/-- What a record says of the file of a body that is produced. What is written is read back with its
line breaks unified. -/
def Tells (body : String) (action : Action) (h : Header) : Prop :=
  match action with
  | .written => h.body = Text.unified body ∧ h.isFrozen = false
  | .unchanged => h.body = body
  | .frozen => h.isFrozen = true
  | .removed | .failed => False

/-- What is written is there to be read. -/
theorem reads_writeText (hn : path.isNameable = true) {l : Place} (hl : d.locate path = .ok l)
    (hd : d.find? l ≠ some .directory) (hc : Header.Unbroken t.command) :
    Reads (d.put l (.file
      (Header.write (Header.banner t.command t.clock) body).toByteArray)) path
      (Tells body .written) := by
  have hput : (d.put l (.file
      (Header.write (Header.banner t.command t.clock) body).toByteArray)).find? l =
      some (.file (Header.write (Header.banner t.command t.clock) body).toByteArray) := by
    have hne : l ≠ [] := fun h => hd (h ▸ find?_nil d)
    rw [find?_put, if_pos ⟨rfl, hne⟩]
  refine ⟨_, readText_ok_iff.2 ⟨_, _, readBytes_ok_iff.2
    ⟨hn, l, (Alters.put_file hd).locate hl, hput⟩, Text.decodeUtf8_toByteArray _, rfl⟩, ?_⟩
  rw [← Text.unified, Header.unified_write hc]
  exact Header.parse_write hc t.clock (Text.unified body)

structure Produced (t : Target) (name body : String) (r : Record) (p p' : Progress) : Prop
    extends Dealt t r p p' where
  name_eq : r.name = name
  not_removed : r.action ≠ .removed
  named : Named p.disk → (t.pathOf name).IsSpelled → Named p'.disk
  persists : ∀ l, p.disk.find? l ≠ none → p'.disk.find? l ≠ none
  reads : r.action ≠ .failed → Reads p'.disk (t.pathOf name) (Tells body r.action)
  room : r.action = .written → hasRoom p.disk.home (t.pathOf name) = true
  /-- A file that can be read and written over does not fail, and nothing is made on the way. -/
  overwrites : Overwritable p.disk.home (t.pathOf name) →
    Reads p.disk (t.pathOf name) (fun _ => True) →
    r.action ≠ .failed ∧ ∀ l, p'.disk.find? l ≠ none → p.disk.find? l ≠ none

theorem Produced.of_record {action : Action} (hr : action = .frozen ∨ action = .unchanged)
    (hreads : Reads p.disk (t.pathOf name) (Tells body action)) :
    Produced t name body ⟨name, (t.pathOf name).text, action, 0, 0⟩ p
      (p.record ⟨name, (t.pathOf name).text, action, 0, 0⟩) where
  toDealt := by
    refine Dealt.of_record rfl ?_ (.refl _ _)
    rcases hr with rfl | rfl <;> simp
  name_eq := rfl
  not_removed := by rcases hr with rfl | rfl <;> simp
  named := fun h _ => h
  persists := fun _ h => h
  reads := fun _ => hreads
  room := by rcases hr with rfl | rfl <;> simp
  overwrites := fun _ _ => ⟨by rcases hr with rfl | rfl <;> simp, fun _ h => h⟩

theorem Produced.of_fail (f : DiskFault) (ha : Alters (fun _ => False) p.disk d)
    (hn : Named p.disk → (t.pathOf name).IsSpelled → Named d)
    (hf : Overwritable p.disk.home (t.pathOf name) → ¬ Reads p.disk (t.pathOf name) fun _ => True) :
    Produced t name body ⟨name, (t.pathOf name).text, .failed, 0, 0⟩ p
      ({ p with disk := d }.fail name (t.pathOf name) "write" f) where
  toDealt := .of_fail rfl "write" f ha
  name_eq := rfl
  not_removed := by simp
  named := hn
  persists := fun _ => ha.persists
  reads := fun h => absurd rfl h
  room := by simp
  overwrites := fun hover hreads => absurd hreads (hf hover)

theorem Produced.of_written {size : Nat} (lines : Nat)
    (hw : p.disk.writeText (t.pathOf name)
      (Header.write (Header.banner t.command t.clock) body) = (d, .ok size))
    (hc : Header.Unbroken t.command) (hn : (t.pathOf name).isNameable = true) :
    Produced t name body ⟨name, (t.pathOf name).text, .written, size, lines⟩ p
      ({ p with disk := d }.record ⟨name, (t.pathOf name).text, .written, size, lines⟩) := by
  have made := alters_ensureDirectory p.disk (t.pathOf name).parent
  have written := alters_writeText p.disk (t.pathOf name)
    (Header.write (Header.banner t.command t.clock) body)
  obtain ⟨l, hl, hdir, hd⟩ := writeText_ok hw
  rw [hw] at written
  exact {
    toDealt := .of_record rfl (by simp) (written.mono fun l hl => ⟨.inl rfl, hl⟩)
    name_eq := rfl
    not_removed := by simp
    named := fun hnamed hp => by
      have named := hnamed.writeText hp (Header.write (Header.banner t.command t.clock) body)
      rwa [hw] at named
    persists := fun k hk => by
      rw [Progress.record, hd, find?_put]
      split
      · simp
      · exact made.persists hk
    reads := fun _ => hd ▸ reads_writeText hn hl hdir hc
    room := fun _ => hasRoom_of_writeText hw
    overwrites := by
      rintro hover ⟨s, hs, -⟩
      refine ⟨by simp, fun k hk => ?_⟩
      obtain ⟨c, _, hbytes, -⟩ := readText_ok_iff.1 hs
      obtain ⟨l', size', hl', hw'⟩ := exists_writeText hover hbytes
        (Header.write (Header.banner t.command t.clock) body)
      obtain ⟨rfl, -⟩ := Prod.mk.inj (hw.symm.trans hw')
      rw [Progress.record, find?_put] at hk
      split at hk
      · rename_i hkl
        exact hkl.1 ▸ hl'
      · exact hk }

theorem exists_syncFile (hn : (t.pathOf name).isNameable = true) (body : String) (p : Progress) :
    ∃ p', syncFile t p name body = .ok p' := by
  rcases syncFile_cases t p name body with ⟨f, -, h⟩ | ⟨head, -, -, h⟩ | ⟨head, -, -, h⟩ | ⟨-, h⟩
  · exact ⟨_, h⟩
  · exact ⟨_, h⟩
  · exact ⟨_, h⟩
  · rw [h]
    rcases writeFile_cases t p name (t.pathOf name)
      (Header.write (Header.banner t.command t.clock) body) with
      ⟨-, size, h⟩ | ⟨-, disk, _, hw, ⟨size, rfl, h⟩ | ⟨rfl, -⟩ | ⟨f, -, rfl, h⟩⟩
    · exact ⟨_, h⟩
    · exact ⟨_, h⟩
    · have hfalse := (writeText_error hw).2 rfl
      rw [hn] at hfalse
      cases hfalse
    · exact ⟨_, h⟩

theorem produced_of_syncFile (hdry : t.dryRun = false) (hc : Header.Unbroken t.command)
    (h : syncFile t p name body = .ok p') : ∃ r, Produced t name body r p p' := by
  rcases syncFile_cases t p name body with
    ⟨f, herror, hp⟩ | ⟨head, hsome, hbody, hp⟩ | ⟨head, hsome, hfrozen, hp⟩ | ⟨-, hp⟩
  · obtain rfl := Except.ok.inj (hp.symm.trans h)
    refine ⟨_, .of_fail f (.refl _ _) (fun h _ => h) fun _ ⟨s, hs, _⟩ => ?_⟩
    rw [existing_of_readText hs] at herror
    cases herror
  · obtain rfl := Except.ok.inj (hp.symm.trans h)
    obtain ⟨-, s, hs, rfl⟩ := existing_some_iff.1 hsome
    exact ⟨_, .of_record (.inr rfl) ⟨s, hs, hbody⟩⟩
  · obtain rfl := Except.ok.inj (hp.symm.trans h)
    obtain ⟨-, s, hs, rfl⟩ := existing_some_iff.1 hsome
    exact ⟨_, .of_record (.inl rfl) ⟨s, hs, hfrozen⟩⟩
  · rw [hp] at h
    rcases writeFile_cases t p name (t.pathOf name)
      (Header.write (Header.banner t.command t.clock) body) with
      ⟨hdry', -⟩ | ⟨-, disk, _, hw, ⟨size, rfl, hp⟩ | ⟨rfl, hp⟩ | ⟨f, -, rfl, hp⟩⟩
    · rw [hdry] at hdry'
      cases hdry'
    · obtain rfl := Except.ok.inj (hp.symm.trans h)
      exact ⟨_, .of_written _ hw hc (isNameable_of_writeText hw)⟩
    · rw [hp] at h
      cases h
    · obtain rfl := Except.ok.inj (hp.symm.trans h)
      refine ⟨_, .of_fail f (writeText_error hw).1 (fun hnamed hpath => ?_) fun hover hreads => ?_⟩
      · have named := hnamed.writeText hpath (Header.write (Header.banner t.command t.clock) body)
        rwa [hw] at named
      · obtain ⟨s, hs, -⟩ := hreads
        obtain ⟨c, _, hbytes, -⟩ := readText_ok_iff.1 hs
        obtain ⟨l, size, -, hw'⟩ := exists_writeText hover hbytes
          (Header.write (Header.banner t.command t.clock) body)
        cases (Prod.mk.inj (hw.symm.trans hw')).2

structure Discarded (t : Target) (r : Record) (p p' : Progress) : Prop
    extends Dealt t r p p' where
  action : r.action = .frozen ∨ r.action = .removed ∨ r.action = .failed
  within : ∀ l e, p'.disk.find? l = some e → p.disk.find? l = some e
  gone : r.action = .removed → p'.disk.find? (p.disk.placeOf (t.pathOf r.name)) = none
  frozen : r.action = .frozen → Reads p.disk (t.pathOf r.name) (·.isFrozen = true)
  fails : r.action = .failed → ¬ Reads p.disk (t.pathOf r.name) fun _ => True

theorem exists_discarded (hdry : t.dryRun = false) (p : Progress) (name : String) :
    ∃ r, r.name = name ∧ Discarded t r p (removeFile t p name (t.pathOf name)) := by
  rcases removeFile_cases t p name (t.pathOf name) with
    ⟨f, herror, h⟩ | ⟨s, hs, hfrozen, h⟩ |
      ⟨s, hs, -, ⟨hdry', -⟩ | ⟨-, disk, hd, h⟩ | ⟨-, disk, f, hd, h⟩⟩
  · rw [h]
    refine ⟨_, rfl, .of_fail rfl "remove" f (.refl _ _), .inr (.inr rfl), fun _ _ h => h, by simp,
      by simp, fun _ ⟨s, hs, _⟩ => ?_⟩
    rw [hs] at herror
    cases herror
  · rw [h]
    exact ⟨_, rfl, .of_record rfl (by simp) (.refl _ _), .inl rfl, fun _ _ h => h, by simp,
      fun _ => ⟨s, hs, hfrozen⟩, by simp⟩
  · rw [hdry] at hdry'
    cases hdry'
  · rw [h]
    rcases remove_cases p.disk (t.pathOf name) with ⟨f, hr⟩ | ⟨l, c, hl, hc, hr⟩
    · rw [hr] at hd
      cases hd
    · obtain ⟨rfl, -⟩ := Prod.mk.inj (hr.symm.trans hd)
      have altered := alters_remove p.disk (t.pathOf name)
      rw [hr] at altered
      refine ⟨⟨name, (t.pathOf name).text, .removed, 0, 0⟩, rfl,
        .of_record rfl (by simp) (altered.mono fun _ h => ⟨.inr rfl, h⟩), .inr (.inl rfl), ?_, ?_,
        by simp, by simp⟩
      · intro k e hk
        rw [Progress.record, find?_drop] at hk
        split at hk
        · cases hk
        · exact hk
      · intro _
        have hne : l ≠ [] := by
          rintro rfl
          simp at hc
        rw [← eq_placeOf hl, Progress.record, find?_drop, if_pos ⟨rfl, hne⟩]
  · rw [h]
    obtain ⟨c, _, hbytes, -⟩ := readText_ok_iff.1 hs
    obtain ⟨d', hr⟩ := exists_remove hbytes
    rw [hr] at hd
    cases hd

inductive Course (t : Target) : List Record → Progress → Progress → Prop
  | done (p : Progress) : Course t [] p p
  | next {r : Record} {rs : List Record} {p p' p'' : Progress} :
    Dealt t r p p' → Course t rs p' p'' → Course t (r :: rs) p p''

namespace Course

theorem append (h : Course t rs p p') (h' : Course t rs' p' p'') :
    Course t (rs ++ rs') p p'' := by
  induction h with
  | done => exact h'
  | next step _ ih => exact .next step (ih h')

theorem paths (h : Course t rs p p') : ∀ r ∈ rs, r.path = (t.pathOf r.name).text := by
  induction h with
  | done => simp
  | next step _ ih => exact List.forall_mem_cons.2 ⟨step.path, ih⟩

theorem records (h : Course t rs p p') : p'.report.records = p.report.records ++ rs := by
  induction h with
  | done => simp
  | next step _ ih => rw [ih, step.records, List.append_assoc, List.singleton_append]

theorem errors (h : Course t rs p p') : p'.report.told = p.report.told ++ failures rs := by
  induction h with
  | done => simp [failures]
  | next step _ ih =>
    rw [ih, step.errors, List.append_assoc]
    simp [failures, List.filter_cons]
    split <;> simp

theorem alters (h : Course t rs p p') :
    Alters (fun l => ∃ r ∈ rs, r.Changes ∧ l = p.disk.placeOf (t.pathOf r.name))
      p.disk p'.disk := by
  induction h with
  | done => exact .refl _ _
  | next step _ ih =>
    refine (step.alters.mono fun l hl => ⟨_, List.mem_cons_self .., hl⟩).trans (ih.mono ?_)
    rintro l ⟨r, hr, hc, hl⟩
    exact ⟨r, List.mem_cons_of_mem _ hr, hc, hl.trans (step.alters.placeOf _)⟩

theorem reads {P : Header → Prop} (h : Course t rs p p') (hP : Reads p.disk path P)
    (hr : ∀ r ∈ rs, r.Changes → p.disk.placeOf (t.pathOf r.name) ≠ p.disk.placeOf path) :
    Reads p'.disk path P :=
  hP.alters h.alters fun ⟨r, hmem, hc, hp⟩ => hr r hmem hc hp.symm

end Course

structure Wrote (t : Target) (files : List (String × String)) (rs : List Record)
    (p p' : Progress) : Prop where
  course : Course t rs p p'
  names : rs.map (·.name) = files.map Prod.fst
  not_removed : ∀ r ∈ rs, r.action ≠ .removed
  named : Named p.disk → Named p'.disk
  persists : ∀ l, p.disk.find? l ≠ none → p'.disk.find? l ≠ none
  reads : ∀ e ∈ files, ∀ r ∈ rs, r.name = e.1 → r.action ≠ .failed →
    Reads p'.disk (t.pathOf e.1) (Tells e.2 r.action)
  room : ∀ r ∈ rs, r.action = .written → hasRoom p.disk.home (t.pathOf r.name) = true
  overwrites : ∀ r ∈ rs, Overwritable p.disk.home (t.pathOf r.name) →
    Reads p.disk (t.pathOf r.name) (fun _ => True) → r.action ≠ .failed
  within : (∀ r ∈ rs, Overwritable p.disk.home (t.pathOf r.name) ∧
    Reads p.disk (t.pathOf r.name) fun _ => True) →
      ∀ l, p'.disk.find? l ≠ none → p.disk.find? l ≠ none

theorem exists_syncFiles (files : List (String × String))
    (hn : ∀ e ∈ files, (t.pathOf e.1).isNameable = true) (p : Progress) :
    ∃ p', files.foldlM (fun p e => syncFile t p e.1 e.2) p = .ok p' := by
  induction files generalizing p with
  | nil => exact ⟨p, rfl⟩
  | cons e rest ih =>
    obtain ⟨p₁, hsync⟩ := exists_syncFile (hn e (List.mem_cons_self ..)) e.2 p
    obtain ⟨p', hfold⟩ := ih (fun e he => hn e (List.mem_cons_of_mem _ he)) p₁
    exact ⟨p', by rw [List.foldlM_cons, hsync]; exact hfold⟩

namespace Wrote

variable {fs : List (String × String)}

theorem apart {way : List String} (h : Wrote t fs rs p p')
    (hfs : ∀ e ∈ fs, ∃ way, Spells e.1 way) (hway : Spells name way)
    (hnew : name ∉ fs.map Prod.fst) (hr : r ∈ rs) (d : Disk) :
    d.placeOf (t.pathOf r.name) ≠ d.placeOf (t.pathOf name) := by
  intro hplace
  have hmem : r.name ∈ fs.map Prod.fst := h.names ▸ List.mem_map_of_mem hr
  obtain ⟨e, he, hname⟩ := List.mem_map.1 hmem
  obtain ⟨way', hway'⟩ := hfs e he
  rw [hname] at hway'
  exact hnew (hway'.name_eq hway hplace ▸ hmem)

theorem nil (t : Target) (p : Progress) : Wrote t [] [] p p where
  course := .done p
  names := rfl
  not_removed := by simp
  named := id
  persists := fun _ => id
  reads := by simp
  room := by simp
  overwrites := by simp
  within := fun _ _ => id

theorem cons {e : String × String} {way : List String} (hr : Produced t e.1 e.2 r p p')
    (h : Wrote t fs rs p' p'') (hdir : t.directory.IsSpelled)
    (hfs : ∀ e ∈ fs, ∃ way, Spells e.1 way) (hway : Spells e.1 way)
    (hnew : e.1 ∉ fs.map Prod.fst) : Wrote t (e :: fs) (r :: rs) p p'' := by
  have apart : ∀ r' ∈ rs, ∀ d : Disk, d.placeOf (t.pathOf r'.name) ≠ d.placeOf (t.pathOf e.1) :=
    fun r' hr' => h.apart hfs hway hnew hr'
  have carried : ∀ r' ∈ rs, ∀ {P}, Reads p.disk (t.pathOf r'.name) P →
      Reads p'.disk (t.pathOf r'.name) P := fun r' hr' _ hP =>
    hP.alters hr.alters fun ⟨_, hplace⟩ => apart r' hr' _ (hr.name_eq ▸ hplace)
  have home := hr.alters.home
  exact {
    course := .next hr.toDealt h.course
    names := by rw [List.map_cons, List.map_cons, hr.name_eq, h.names]
    not_removed := List.forall_mem_cons.2 ⟨hr.not_removed, h.not_removed⟩
    named := fun hd => h.named (hr.named hd (hway.isSpelled hdir))
    persists := fun l hl => h.persists l (hr.persists l hl)
    reads := by
      intro e' he' r' hr' hname haction
      rcases List.mem_cons.1 he' with rfl | he'
      · rcases List.mem_cons.1 hr' with rfl | hr'
        · exact h.course.reads (hr.reads haction) fun r' hr' _ => apart r' hr' _
        · exact absurd (hname ▸ rfl) (apart r' hr' p.disk)
      · rcases List.mem_cons.1 hr' with rfl | hr'
        · rw [hr.name_eq] at hname
          exact absurd (hname ▸ List.mem_map_of_mem he') hnew
        · exact h.reads e' he' r' hr' hname haction
    room := List.forall_mem_cons.2 ⟨hr.name_eq ▸ hr.room, home ▸ h.room⟩
    overwrites := List.forall_mem_cons.2 ⟨fun hover hreads =>
        (hr.overwrites (hr.name_eq ▸ hover) (hr.name_eq ▸ hreads)).1,
      fun r' hr' hover hreads => h.overwrites r' hr' (home ▸ hover) (carried r' hr' hreads)⟩
    within := by
      intro hall l hl
      obtain ⟨⟨hover, hreads⟩, hall⟩ := List.forall_mem_cons.1 hall
      refine (hr.overwrites (hr.name_eq ▸ hover) (hr.name_eq ▸ hreads)).2 l (h.within ?_ l hl)
      exact fun r' hr' => ⟨home ▸ (hall r' hr').1, carried r' hr' (hall r' hr').2⟩ }

end Wrote

theorem wrote_of_syncFiles (hdry : t.dryRun = false) (hc : Header.Unbroken t.command)
    (hdir : t.directory.IsSpelled) {files : List (String × String)}
    (hnodup : (files.map Prod.fst).Nodup) (hfiles : ∀ e ∈ files, ∃ way, Spells e.1 way)
    (h : files.foldlM (fun p e => syncFile t p e.1 e.2) p = .ok p') :
    ∃ rs, Wrote t files rs p p' := by
  induction files generalizing p with
  | nil =>
    obtain rfl := Except.ok.inj h
    exact ⟨[], .nil t p⟩
  | cons e rest ih =>
    rw [List.map_cons, List.nodup_cons] at hnodup
    obtain ⟨⟨way, hway⟩, hrest⟩ := List.forall_mem_cons.1 hfiles
    rw [List.foldlM_cons] at h
    obtain ⟨p₁, hsync, hfold⟩ := exists_of_bind_ok h
    obtain ⟨r, hr⟩ := produced_of_syncFile hdry hc hsync
    obtain ⟨rs, hwrote⟩ := ih hnodup.2 hrest hfold
    exact ⟨r :: rs, .cons hr hwrote hdir hrest hway hnodup.1⟩

structure Cleared (t : Target) (rs : List Record) (p p' : Progress) : Prop where
  course : Course t rs p p'
  actions : ∀ r ∈ rs, r.action = .frozen ∨ r.action = .removed ∨ r.action = .failed
  within : ∀ l e, p'.disk.find? l = some e → p.disk.find? l = some e
  gone : ∀ r ∈ rs, r.action = .removed → p'.disk.find? (p.disk.placeOf (t.pathOf r.name)) = none
  frozen : ∀ r ∈ rs, r.action = .frozen → Reads p.disk (t.pathOf r.name) (·.isFrozen = true)
  /-- What fails could not be read, unless it was removed before. -/
  fails : ∀ r ∈ rs, r.action = .failed → ¬ Reads p'.disk (t.pathOf r.name) fun _ => True

namespace Cleared

theorem nil (t : Target) (p : Progress) : Cleared t [] p p :=
  ⟨.done p, by simp, fun _ _ => id, by simp, by simp, by simp⟩

theorem none_of_none (h : Cleared t rs p p') {l : Place} (hl : p.disk.find? l = none) :
    p'.disk.find? l = none := by
  cases hfind : p'.disk.find? l with
  | none => rfl
  | some e => exact hl ▸ (h.within l e hfind).symm

theorem append (h : Cleared t rs p p') (h' : Cleared t rs' p' p'') :
    Cleared t (rs ++ rs') p p'' where
  course := h.course.append h'.course
  actions := List.forall_mem_append.2 ⟨h.actions, h'.actions⟩
  within := fun l e hl => h.within l e (h'.within l e hl)
  gone := by
    intro r hr hremoved
    rcases List.mem_append.1 hr with hr | hr
    · exact h'.none_of_none (h.gone r hr hremoved)
    · exact h.course.alters.placeOf (t.pathOf r.name) ▸ h'.gone r hr hremoved
  frozen := List.forall_mem_append.2 ⟨h.frozen, fun r hr hfrozen =>
    (h'.frozen r hr hfrozen).of_within h.course.alters.home h.within⟩
  fails := List.forall_mem_append.2 ⟨fun r hr hfailed hreads => h.fails r hr hfailed
    (hreads.of_within h'.course.alters.home h'.within), h'.fails⟩

theorem of_discarded (h : Discarded t r p p') : Cleared t [r] p p' where
  course := .next h.toDealt (.done p')
  actions := by simpa using h.action
  within := h.within
  gone := by simpa using h.gone
  frozen := by simpa using h.frozen
  fails := by
    simpa using fun hfailed hreads => h.fails hfailed (hreads.of_within h.alters.home h.within)

theorem named (h : Cleared t rs p p') (hd : Named p.disk) : Named p'.disk :=
  ⟨fun l e hl => hd.entries l e (h.within l e hl), h.course.alters.home ▸ hd.home⟩

theorem isDirectory (h : Cleared t rs p p') (path : FilePath) :
    p'.disk.isDirectory path = p.disk.isDirectory path := by
  rw [Bool.eq_iff_iff, isDirectory_iff, isDirectory_iff]
  constructor
  · rintro ⟨l, hl, hdir⟩
    exact ⟨l, locate_of_directories h.course.alters.home.symm (fun k => h.within k _) hl,
      h.within l _ hdir⟩
  · rintro ⟨l, hl, hdir⟩
    exact ⟨l, h.course.alters.locate hl, h.course.alters.directories l hdir⟩

theorem scriptBelow (h : Cleared t rs p p') {m : String} {l : Place} {n : String} :
    ScriptBelow t p'.disk m l n ↔ ScriptBelow t p.disk m l n := by
  rw [ScriptBelow, ScriptBelow, h.isDirectory, h.course.alters.placeOf]

end Cleared

theorem exists_cleared_names (hdry : t.dryRun = false) (names : List String) (p : Progress) :
    ∃ rs, rs.map (·.name) = names ∧
      Cleared t rs p (names.foldl (fun p n => removeFile t p n (t.pathOf n)) p) := by
  induction names generalizing p with
  | nil => exact ⟨[], rfl, .nil t p⟩
  | cons n rest ih =>
    obtain ⟨r, hname, hr⟩ := exists_discarded hdry p n
    obtain ⟨rs, hnames, hrest⟩ := ih (removeFile t p n (t.pathOf n))
    exact ⟨r :: rs, by rw [List.map_cons, hname, hnames], (Cleared.of_discarded hr).append hrest⟩

theorem removeStale_eq (produced : List String) {m : String} (hm : m ∈ managed)
    (hd : Named p.disk) :
    removeStale t produced p m =
      (stale t produced p.disk m).foldl (fun p n => removeFile t p n (t.pathOf n)) p := by
  rw [removeStale, stale]
  cases hdir : p.disk.isDirectory (t.directory / m) with
  | false => simp
  | true =>
    simp only [Bool.not_true, Bool.false_eq_true, if_false, if_true]
    rw [List.foldl_filter, List.foldl_map]
    refine List.foldl_ext _ _ _ fun p₁ way hway => ?_
    obtain ⟨l, -, hfind, hend⟩ := mem_search_iff.1 hway
    rw [(spells_found hm hd hfind hend).pathOf_managed hm t]
    cases hcontains : produced.contains (nameOf (m :: way)) <;> simp

theorem ne_of_scriptBelow {m m' n n' : String} {l l' : Place} (hm : m ∈ managed)
    (hm' : m' ∈ managed) (hne : m ≠ m') (hd : Named d) (hd' : Named d')
    (h : ScriptBelow t d m l n) (hl : d.find? l ≠ none)
    (h' : ScriptBelow t d' m' l' n') (hl' : d'.find? l' ≠ none) : n ≠ n' := by
  rintro rfl
  obtain ⟨-, way, hway⟩ := h.spells hm hd hl
  obtain ⟨-, way', hway'⟩ := h'.spells hm' hd' hl'
  exact hne (List.cons.inj (hway.way_unique hway')).1

theorem Cleared.find?_ne_none (h : Cleared t rs p p') (hd : Named p.disk) {produced : List String}
    {m m' n : String} (hm : m ∈ managed) (hm' : m' ∈ managed) (hne : m ≠ m')
    (hnames : rs.map (·.name) = stale t produced p.disk m) {l : Place}
    (hscript : ScriptBelow t p.disk m' l n) :
    p'.disk.find? l ≠ none ↔ p.disk.find? l ≠ none := by
  refine ⟨mt h.none_of_none, fun hl => ?_⟩
  have untouched : ¬ ∃ r ∈ rs, r.Changes ∧ l = p.disk.placeOf (t.pathOf r.name) := by
    rintro ⟨r, hr, -, hplace⟩
    obtain ⟨-, l', hscript', hl'⟩ := mem_stale_iff.1 (hnames ▸ List.mem_map_of_mem hr)
    obtain ⟨hl₁, way, hway⟩ := hscript.spells hm' hd hl
    obtain ⟨-, way', hway'⟩ := hscript'.spells hm hd hl'
    exact ne_of_scriptBelow hm hm' hne hd hd hscript' hl' hscript hl
      (hway'.name_eq hway (hplace.symm.trans hl₁))
  obtain ⟨e, he⟩ := Option.ne_none_iff_exists'.1 hl
  cases e with
  | directory => simp [h.course.alters.directories l he]
  | file c => simp [(h.course.alters.files l c untouched).2 he]

theorem exists_cleared (hdry : t.dryRun = false) (produced : List String) (ms : List String)
    (hms : ms.Nodup) (hmanaged : ∀ m ∈ ms, m ∈ managed) (p : Progress) (hd : Named p.disk) :
    ∃ rs, Cleared t rs p (ms.foldl (removeStale t produced) p) ∧ (rs.map (·.name)).Nodup ∧
      ∀ n, n ∈ rs.map (·.name) ↔ n ∉ produced ∧
        ∃ m ∈ ms, ∃ l, ScriptBelow t p.disk m l n ∧ p.disk.find? l ≠ none := by
  induction ms generalizing p with
  | nil => exact ⟨[], .nil t p, by simp, by simp⟩
  | cons m rest ih =>
    rw [List.nodup_cons] at hms
    have hm := hmanaged m (List.mem_cons_self ..)
    have hrest : ∀ m' ∈ rest, m' ∈ managed ∧ m ≠ m' := fun m' hm' =>
      ⟨hmanaged m' (List.mem_cons_of_mem _ hm'), fun h => hms.1 (h ▸ hm')⟩
    obtain ⟨rs₁, hnames, h₁⟩ := exists_cleared_names hdry (stale t produced p.disk m) p
    rw [← removeStale_eq produced hm hd] at h₁
    obtain ⟨rs₂, h₂, hnodup, hmem⟩ :=
      ih hms.2 (fun m' hm' => (hrest m' hm').1) _ (h₁.named hd)
    refine ⟨rs₁ ++ rs₂, h₁.append h₂, ?_, fun n => ?_⟩
    · rw [List.map_append, hnames, List.nodup_append]
      refine ⟨nodup_stale hm hd, hnodup, fun a ha b hb => ?_⟩
      obtain ⟨-, l, hl, hfind⟩ := mem_stale_iff.1 ha
      obtain ⟨-, m', hm', l', hl', hfind'⟩ := (hmem b).1 hb
      exact ne_of_scriptBelow hm (hrest m' hm').1 (hrest m' hm').2 hd (h₁.named hd)
        hl hfind hl' hfind'
    · have same : ∀ m' ∈ rest, (∃ l, ScriptBelow t (removeStale t produced p m).disk m' l n ∧
          (removeStale t produced p m).disk.find? l ≠ none) ↔
          ∃ l, ScriptBelow t p.disk m' l n ∧ p.disk.find? l ≠ none := by
        intro m' hm'
        refine exists_congr fun l => ?_
        rw [h₁.scriptBelow]
        exact and_congr_right fun hscript =>
          h₁.find?_ne_none hd hm (hrest m' hm').1 (hrest m' hm').2 hnames hscript
      rw [List.map_append, List.mem_append, hnames, mem_stale_iff, hmem, ← and_or_left,
        List.exists_mem_cons_iff]
      exact and_congr_right fun _ => or_congr_right
        (exists_congr fun m' => and_congr_right fun hm' => same m' hm')

/-- The disk and the report after a synchronisation, against the disk before it. -/
structure Reconciled (t : Target) (files : OrderedMap String String) (before after : Disk)
    (report : Report) : Prop where
  /-- There is a record of every produced file, in order, and then of every script that is not
  produced, each of them once. -/
  records : ∃ stale, report.records.map (·.name) = files.keys ++ stale ∧ stale.Nodup ∧
    ∀ n, n ∈ stale ↔ n ∉ files.keys ∧
      ∃ l, IsScript t after l n ∧ (before.find? l ≠ none ∨ after.find? l ≠ none)
  paths : ∀ r ∈ report.records, r.path = (t.pathOf r.name).text
  errors : report.told = failures report.records
  readsBack : ∀ r ∈ report.records, r.action = .written ∨ r.action = .unchanged →
    ∃ body, files.get? r.name = some body ∧ ReadsBack after (t.pathOf r.name) body
  /-- What is frozen or failed is as it was. -/
  kept : ∀ r ∈ report.records, r.action = .frozen ∨ r.action = .failed → ∀ c,
    after.find? (before.placeOf (t.pathOf r.name)) = some (.file c) ↔
      before.find? (before.placeOf (t.pathOf r.name)) = some (.file c)
  /-- What is neither produced nor a script below a managed directory is as it was. -/
  others : ∀ l, (∀ n ∈ files.keys, l ≠ before.placeOf (t.pathOf n)) →
    (∀ n, ¬ IsScript t after l n) → ∀ c,
      after.find? l = some (.file c) ↔ before.find? l = some (.file c)
  /-- What is left below a managed directory is produced, frozen or failed. -/
  left : ∀ l n c, IsScript t after l n → after.find? l = some (.file c) →
    n ∈ files.keys ∨ ∃ r ∈ report.records, r.name = n ∧ (r.action = .frozen ∨ r.action = .failed)

structure Passed (t : Target) (files : OrderedMap String String) (ws ss : List Record)
    (p p₁ p' : Progress) : Prop where
  wrote : Wrote t files.entries ws p p₁
  cleared : Cleared t ss p₁ p'
  named : Named p₁.disk
  spelled : ∀ n ∈ files.keys, ∃ way, Spells n way
  nodup : (ss.map (·.name)).Nodup
  stale : ∀ n, n ∈ ss.map (·.name) ↔ n ∉ files.keys ∧
    ∃ m ∈ managed, ∃ l, ScriptBelow t p₁.disk m l n ∧ p₁.disk.find? l ≠ none

namespace Passed

variable {files : OrderedMap String String} {ws ss : List Record} {p₁ : Progress} {l : Place}
  {n : String}

theorem course (h : Passed t files ws ss p p₁ p') : Course t (ws ++ ss) p p' :=
  h.wrote.course.append h.cleared.course

theorem isScript (h : Passed t files ws ss p p₁ p') :
    IsScript t p'.disk l n ↔ IsScript t p₁.disk l n :=
  exists_congr fun _ => and_congr_right fun _ => h.cleared.scriptBelow

theorem names (h : Passed t files ws ss p p₁ p') :
    (ws ++ ss).map (·.name) = files.keys ++ ss.map (·.name) := by
  rw [List.map_append, h.wrote.names]
  rfl

theorem nodup_names (h : Passed t files ws ss p p₁ p') : ((ws ++ ss).map (·.name)).Nodup := by
  rw [h.names, List.nodup_append]
  refine ⟨files.distinct, h.nodup, fun a ha b hb => ?_⟩
  rintro rfl
  exact ((h.stale a).1 hb).1 ha

theorem spells (h : Passed t files ws ss p p₁ p') (hr : r ∈ ws ++ ss) :
    ∃ way, Spells r.name way := by
  have hname : r.name ∈ files.keys ++ ss.map (·.name) := h.names ▸ List.mem_map_of_mem hr
  rcases List.mem_append.1 hname with hkey | hstale
  · exact h.spelled _ hkey
  · obtain ⟨-, m, hm, l, hl, hfind⟩ := (h.stale _).1 hstale
    obtain ⟨-, way, hway⟩ := hl.spells hm h.named hfind
    exact ⟨_, hway⟩

theorem unique (h : Passed t files ws ss p p₁ p') {r' : Record} (hr : r ∈ ws ++ ss)
    (hr' : r' ∈ ws ++ ss) (hname : r.name = r'.name) : r = r' :=
  List.inj_on_of_nodup_map h.nodup_names hr hr' hname

theorem eq_of_place (h : Passed t files ws ss p p₁ p') {r' : Record} (hr : r ∈ ws ++ ss)
    (hr' : r' ∈ ws ++ ss) (hplace : d.placeOf (t.pathOf r.name) = d.placeOf (t.pathOf r'.name)) :
    r = r' := by
  obtain ⟨way, hway⟩ := h.spells hr
  obtain ⟨way', hway'⟩ := h.spells hr'
  exact h.unique hr hr' (hway.name_eq hway' hplace)

theorem kept (h : Passed t files ws ss p p₁ p') (hr : r ∈ ws ++ ss) (hc : ¬ r.Changes)
    (c : ByteArray) :
    p'.disk.find? (p.disk.placeOf (t.pathOf r.name)) = some (.file c) ↔
      p.disk.find? (p.disk.placeOf (t.pathOf r.name)) = some (.file c) := by
  refine h.course.alters.files _ c ?_
  rintro ⟨r', hr', hc', hplace⟩
  exact hc (h.eq_of_place hr hr' hplace ▸ hc')

theorem reads_kept (h : Passed t files ws ss p p₁ p') (hr : r ∈ ws ++ ss) (hc : ¬ r.Changes)
    {P : Header → Prop} (hP : Reads p.disk (t.pathOf r.name) P) :
    Reads p'.disk (t.pathOf r.name) P :=
  h.course.reads hP fun _ hr' hc' hplace => hc (h.eq_of_place hr' hr hplace ▸ hc')

/-- What is not produced and was there when the files were cleared was there at the start, or is
there at the end. -/
theorem found_iff (h : Passed t files ws ss p p₁ p') (hn : n ∉ files.keys)
    (hl : l = p.disk.placeOf (t.pathOf n)) (hs : ∃ way, Spells n way) :
    p₁.disk.find? l ≠ none ↔ p.disk.find? l ≠ none ∨ p'.disk.find? l ≠ none := by
  constructor
  · intro hfind
    have untouched : ¬ ∃ r ∈ ws, r.Changes ∧ l = p.disk.placeOf (t.pathOf r.name) := by
      rintro ⟨r, hr, -, hplace⟩
      obtain ⟨way, hway⟩ := hs
      obtain ⟨way', hway'⟩ := h.spells (List.mem_append_left ss hr)
      have hkey : r.name ∈ files.entries.map Prod.fst := h.wrote.names ▸ List.mem_map_of_mem hr
      exact hn (hway.name_eq hway' (hl.symm.trans hplace) ▸ hkey)
    obtain ⟨e, he⟩ := Option.ne_none_iff_exists'.1 hfind
    cases e with
    | directory => exact .inr (by simp [h.cleared.course.alters.directories l he])
    | file c => exact .inl (by simp [(h.wrote.course.alters.files l c untouched).1 he])
  · rintro (hfind | hfind)
    · exact h.wrote.persists l hfind
    · exact mt h.cleared.none_of_none hfind

theorem place_eq (h : Passed t files ws ss p p₁ p') (hs : IsScript t p'.disk l n)
    (hl : p₁.disk.find? l ≠ none) :
    l = p.disk.placeOf (t.pathOf n) ∧ ∃ way, Spells n way := by
  obtain ⟨m, hm, hbelow⟩ := h.isScript.1 hs
  obtain ⟨hplace, way, hway⟩ := hbelow.spells hm h.named hl
  exact ⟨hplace.trans (h.wrote.course.alters.placeOf _), _, hway⟩

theorem mem_stale_iff (h : Passed t files ws ss p p₁ p') :
    n ∈ ss.map (·.name) ↔ n ∉ files.keys ∧ ∃ l, IsScript t p'.disk l n ∧
      (p.disk.find? l ≠ none ∨ p'.disk.find? l ≠ none) := by
  rw [h.stale]
  refine and_congr_right fun hn => ⟨?_, ?_⟩
  · rintro ⟨m, hm, l, hbelow, hfind⟩
    have hscript := h.isScript.2 ⟨m, hm, hbelow⟩
    obtain ⟨hl, hs⟩ := h.place_eq hscript hfind
    exact ⟨l, hscript, (h.found_iff hn hl hs).1 hfind⟩
  · rintro ⟨l, hscript, hfind⟩
    have hfind' : p₁.disk.find? l ≠ none := by
      rcases hfind with hfind | hfind
      · exact h.wrote.persists l hfind
      · exact mt h.cleared.none_of_none hfind
    obtain ⟨m, hm, hbelow⟩ := h.isScript.1 hscript
    exact ⟨m, hm, l, hbelow, hfind'⟩

/-- The records of files that are produced tell what is read of them at the end. -/
theorem reads (h : Passed t files ws ss p p₁ p') (hr : r ∈ ws) (ha : r.action ≠ .failed) :
    ∃ body, files.get? r.name = some body ∧
      Reads p'.disk (t.pathOf r.name) (Tells body r.action) := by
  have hkey : r.name ∈ files.entries.map Prod.fst := h.wrote.names ▸ List.mem_map_of_mem hr
  obtain ⟨e, he, hname⟩ := List.mem_map.1 hkey
  have hreads := h.wrote.reads e he r hr hname.symm ha
  rw [hname] at hreads
  obtain ⟨way, hway⟩ := h.spells (List.mem_append_left ss hr)
  refine ⟨e.2, OrderedMap.mem_entries_iff.1 (hname ▸ he), h.cleared.course.reads hreads ?_⟩
  intro r' hr' _ hplace
  obtain ⟨way', hway'⟩ := h.spells (List.mem_append_right ws hr')
  have hstale := (h.stale r'.name).1 (List.mem_map_of_mem hr')
  exact hstale.1 (hway'.name_eq hway hplace ▸ hkey)

theorem readsBack (h : Passed t files ws ss p p₁ p') (hbodies : ∀ b ∈ files.values, '\r' ∉ b.toList)
    (hr : r ∈ ws ++ ss) (ha : r.action = .written ∨ r.action = .unchanged) :
    ∃ body, files.get? r.name = some body ∧ ReadsBack p'.disk (t.pathOf r.name) body := by
  rcases List.mem_append.1 hr with hws | hss
  · obtain ⟨body, hbody, s, hs, htells⟩ := h.reads hws (by rcases ha with ha | ha <;> simp [ha])
    refine ⟨body, hbody, s, hs, ?_⟩
    rcases ha with ha | ha
    · rw [ha] at htells
      have hplain := hbodies body (OrderedMap.mem_values_iff.2 ⟨_, hbody⟩)
      exact htells.1.trans (Text.unified_eq_self_iff.2 hplain)
    · rwa [ha] at htells
  · exfalso
    rcases h.cleared.actions r hss with h | h | h <;> simp [h] at ha

theorem others (h : Passed t files ws ss p p₁ p')
    (hk : ∀ n ∈ files.keys, l ≠ p.disk.placeOf (t.pathOf n))
    (hs : ∀ n, ¬ IsScript t p'.disk l n) (c : ByteArray) :
    p'.disk.find? l = some (.file c) ↔ p.disk.find? l = some (.file c) := by
  refine h.course.alters.files l c ?_
  rintro ⟨r, hr, -, hplace⟩
  have hname : r.name ∈ files.keys ++ ss.map (·.name) := h.names ▸ List.mem_map_of_mem hr
  rcases List.mem_append.1 hname with hkey | hstale
  · exact hk _ hkey hplace
  · obtain ⟨-, m, hm, l', hbelow, hfind⟩ := (h.stale _).1 hstale
    have hscript := h.isScript.2 ⟨m, hm, hbelow⟩
    exact hs r.name (hplace.trans (h.place_eq hscript hfind).1.symm ▸ hscript)

theorem left (h : Passed t files ws ss p p₁ p') {c : ByteArray} (hs : IsScript t p'.disk l n)
    (hl : p'.disk.find? l = some (.file c)) :
    n ∈ files.keys ∨
      ∃ r ∈ ws ++ ss, r.name = n ∧ (r.action = .frozen ∨ r.action = .failed) := by
  by_cases hkey : n ∈ files.keys
  · exact .inl hkey
  · refine .inr ?_
    have hfind : p₁.disk.find? l ≠ none := by simp [h.cleared.within l _ hl]
    obtain ⟨m, hm, hbelow⟩ := h.isScript.1 hs
    obtain ⟨r, hr, rfl⟩ := List.mem_map.1 ((h.stale n).2 ⟨hkey, m, hm, l, hbelow, hfind⟩)
    refine ⟨r, List.mem_append_right ws hr, rfl, ?_⟩
    rcases h.cleared.actions r hr with ha | ha | ha
    · exact .inl ha
    · have hgone := h.cleared.gone r hr ha
      rw [← (hbelow.spells hm h.named hfind).1, hl] at hgone
      cases hgone
    · exact .inr ha

theorem reconciled (h : Passed t files ws ss p p₁ p') (hr : p.report.records = [])
    (he : p.report.errors = []) (hbodies : ∀ b ∈ files.values, '\r' ∉ b.toList) :
    Reconciled t files p.disk p'.disk p'.report := by
  have records : p'.report.records = ws ++ ss := by rw [h.course.records, hr, List.nil_append]
  have errors : p'.report.told = failures (ws ++ ss) := by
    rw [h.course.errors, Report.told, he]
    rfl
  refine ⟨⟨ss.map (·.name), records ▸ h.names, h.nodup, fun n => h.mem_stale_iff⟩, ?_, ?_, ?_, ?_,
    fun l hk hs c => h.others hk hs c, fun l n c hs hl => ?_⟩
  · rw [records]
    exact h.course.paths
  · rw [errors, records]
  · rw [records]
    exact fun r hr ha => h.readsBack hbodies hr ha
  · rw [records]
    refine fun r hr ha c => h.kept hr ?_ c
    rintro (hc | hc) <;> simp [hc] at ha
  · rw [records]
    exact h.left hs hl

end Passed

/-- What it takes to tell files apart by name, and to know them again. -/
structure Orderly (t : Target) (files : OrderedMap String String) (d : Disk) : Prop where
  not_dry : t.dryRun = false
  command : Header.Unbroken t.command
  directory : t.directory.IsSpelled
  disk : Named d
  names : ∀ n ∈ files.keys, ∃ way, Spells n way

/-- A synchronisation that produces what a disk could hold comes to an end if the managed
directories can be searched. -/
theorem exists_synchronize_iff (files : OrderedMap String String)
    (hn : ∀ n ∈ files.keys, (t.pathOf n).isNameable = true) :
    (∃ report, (synchronize t d files).2 = .ok report) ↔
      ∀ m ∈ managed, (synchronize t d files).1.unsearchable? (t.directory / m) = none := by
  refine ⟨fun ⟨report, h⟩ => unsearchable?_of_synchronize (Prod.ext rfl h), fun hsearch => ?_⟩
  rcases hsync : synchronize t d files with ⟨d', e | report⟩
  · rw [hsync] at hsearch
    rcases synchronize_error hsync with ⟨-, hbroke⟩ | ⟨m, hm, path, -, hpath⟩
    · obtain ⟨p, hwritten⟩ := exists_syncFiles files.entries
        (fun e he => hn _ (List.mem_map_of_mem he))
        ⟨d, { directory := t.directory.text, dryRun := t.dryRun }⟩
      cases hbroke.symm.trans hwritten
    · cases (hsearch m hm).symm.trans hpath
  · exact ⟨report, rfl⟩

/-- A synchronisation that comes to an end goes through both passes. -/
theorem passed_of_synchronize {files : OrderedMap String String} {report : Report}
    (ho : Orderly t files d) (h : synchronize t d files = (d', .ok report)) :
    ∃ ws ss p p₁ p', Passed t files ws ss p p₁ p' ∧ p.disk = d ∧ p.report.records = [] ∧
      p.report.errors = [] ∧ p'.disk = d' ∧ p'.report = report := by
  obtain ⟨p₁, hwritten, hswept⟩ := synchronize_ok h
  obtain ⟨ws, hwrote⟩ := wrote_of_syncFiles ho.not_dry ho.command ho.directory files.distinct
    (fun e he => ho.names _ (List.mem_map_of_mem he)) hwritten
  have named := hwrote.named ho.disk
  obtain ⟨ss, hcleared, hnodup, hstale⟩ := exists_cleared ho.not_dry files.keys managed
    (by decide) (fun _ => id) p₁ named
  have hend := removeStales_of_sweeps hswept
  exact ⟨ws, ss, _, p₁, _, ⟨hwrote, hcleared, named, ho.names, hnodup, hstale⟩, rfl, rfl, rfl,
    congrArg Progress.disk hend, congrArg Progress.report hend⟩

/-- A synchronisation that comes to an end leaves the disk as its report says, on every disk and for
all proper names. If a disk could hold the names, it comes to an end whenever the managed
directories can be searched. They can if they can to begin with, and the directory steps up only out
of directories that are there. -/
theorem reconciled_synchronize (t : Target) (files : OrderedMap String String) (d : Disk)
    (hdry : t.dryRun = false) (hc : Header.Unbroken t.command) (hdir : t.directory.IsSpelled)
    (hd : Named d) (hproper : ∀ n ∈ files.keys, IsProper n)
    (hbodies : ∀ b ∈ files.values, '\r' ∉ b.toList) :
    (∀ report, (synchronize t d files).2 = .ok report →
      Reconciled t files d (synchronize t d files).1 report) ∧
    ((∀ n ∈ files.keys, (t.pathOf n).isNameable = true) →
      ((∃ report, (synchronize t d files).2 = .ok report) ↔
        ∀ m ∈ managed, (synchronize t d files).1.unsearchable? (t.directory / m) = none) ∧
      (d.Reaches t.directory → (∀ m ∈ managed, d.Searchable (t.directory / m)) →
        ∃ report, (synchronize t d files).2 = .ok report)) := by
  have spelled : ∀ n ∈ files.keys, ∃ way, Spells n way :=
    fun n hmem => exists_spells (hproper n hmem)
  refine ⟨fun report hreport => ?_, fun hn => ⟨exists_synchronize_iff files hn,
    fun hr hsearch => ?_⟩⟩
  · have hsync : synchronize t d files = ((synchronize t d files).1, .ok report) :=
      Prod.ext rfl hreport
    obtain ⟨ws, ss, p, p₁, p', passed, rfl, hrecords, herrors, hp', rfl⟩ :=
      passed_of_synchronize ⟨hdry, hc, hdir, hd, spelled⟩ hsync
    rw [← hp']
    exact passed.reconciled hrecords herrors hbodies
  · exact (exists_synchronize_iff files hn).2 fun m hm =>
      (searchable_synchronize hr spelled hm (hsearch m hm)).unsearchable?

/-- A disk with a script that is produced again, one that is not, one that opts out, a directory
that is named like a script, and a file of another kind. -/
def sampleDisk : Disk where
  entries := .ofList [(["out"], .directory), (["out", "interfaces"], .directory),
    (["out", "interfaces", "Post.ts"], .file "old\n".toByteArray),
    (["out", "interfaces", "Gone.ts"], .file "gone\n".toByteArray),
    (["out", "interfaces", "Kept.ts"], .file "// @no-regenerate\n".toByteArray),
    (["out", "interfaces", "Folder.ts"], .directory),
    (["out", "interfaces", "notes.md"], .file "notes\n".toByteArray)]

def sampleFiles : OrderedMap String String :=
  .ofList [("interfaces/Post", "export type Post = string;\n"),
    ("endpoint/Post", "export const x = 1;\n"),
    ("interfaces/Kept", "x\n")]

theorem reconciled_synchronize_sample :
    ∃ report, (synchronize sampleTarget sampleDisk sampleFiles).2 = .ok report ∧
      Reconciled sampleTarget sampleFiles sampleDisk
        (synchronize sampleTarget sampleDisk sampleFiles).1 report := by
  obtain ⟨reconciled, ended⟩ := reconciled_synchronize sampleTarget sampleFiles sampleDisk rfl
    (by decide) (by decide) (by decide +kernel) (by decide +kernel) (by decide +kernel)
  obtain ⟨report, hreport⟩ := (ended (by decide +kernel)).2 (reaches_of_no_steps (by decide))
    (by decide +kernel)
  exact ⟨report, hreport, reconciled report hreport⟩

def unnameableFiles : OrderedMap String String :=
  .ofList [("interfaces/\x00", "x"), ("interfaces/Post", "y")]

/-- A name with a NUL in it keeps the files after it from being dealt with. -/
theorem synchronize_breaks_off :
    (∀ n ∈ unnameableFiles.keys, IsProper n) ∧ (∀ b ∈ unnameableFiles.values, '\r' ∉ b.toList) ∧
      (synchronize sampleTarget {} unnameableFiles).2.isOk = false := by
  decide +kernel

end HydraClient.Sync
