import HydraClient.Disk
import HydraClient.Proofs.Work
import Mathlib.Data.List.Basic
import Mathlib.Data.List.Induction

/-! # What disk operations leave alone

Following a path depends on directories only, and no operation takes a directory away. So a path
that leads somewhere leads there ever after, and an operation on one path changes a file at one
place at most, however many directories it makes.
-/
namespace HydraClient

theorem utf8ByteSize_intercalate_le {ss ts : List String} (h : ss <+: ts) :
    (String.intercalate "/" ss).utf8ByteSize ≤ (String.intercalate "/" ts).utf8ByteSize := by
  obtain ⟨rest, rfl⟩ := h
  by_cases hss : ss = []
  · subst hss
    exact Nat.zero_le _
  · by_cases hrest : rest = []
    · simp [hrest]
    · rw [String.intercalate_append_of_ne_nil hss hrest, String.utf8ByteSize_append,
        String.utf8ByteSize_append]
      omega

theorem FilePath.fits_of_isPrefix {p : FilePath} {ss : List String} (hp : p.fits = true)
    (h : ss <+: p.segments) : fits { p with segments := ss } = true := by
  have hle := utf8ByteSize_intercalate_le h
  have hdot : ".".utf8ByteSize ≤ 4095 := by decide
  simp only [fits, decide_eq_true_eq] at hp ⊢
  unfold text at hp ⊢
  dsimp only
  split
  · exact hdot
  · split at hp
    · rename_i hfull hempty
      simp only [Bool.and_eq_true, decide_eq_true_eq, List.isEmpty_iff] at hfull hempty
      rw [hempty.2, List.prefix_nil] at h
      exact absurd ⟨hempty.1, h⟩ hfull
    · rw [String.utf8ByteSize_append] at hp ⊢
      omega

namespace Disk

variable {d d' d'' : Disk} {at₁ at₂ : Place → Prop} {l k : Place} {p : FilePath}
  {ss ts : List String}

@[simp] theorem find?_nil (d : Disk) : d.find? [] = some .directory := rfl

theorem find?_put (d : Disk) (l k : Place) (e : Entry) :
    (d.put l e).find? k = if k = l ∧ k ≠ [] then some e else d.find? k := by
  by_cases hk : k = []
  · simp [hk]
  · simp [find?, put, OrderedMap.get?_insert, hk]

theorem find?_drop (d : Disk) (l k : Place) :
    (d.drop l).find? k = if k = l ∧ k ≠ [] then none else d.find? k := by
  by_cases hk : k = []
  · simp [hk]
  · simp [find?, drop, OrderedMap.get?_erase, hk]

/-- The place that a path leads to, if everything on the way is there. -/
def placeOf (d : Disk) (p : FilePath) : Place := (p.resolve d.home).segments

theorem follow_cons {s : String} (h : d.follow l (s :: ss) = .ok k) :
    d.find? l = some .directory ∧ (s ≠ ".." → nameFits s = true) ∧
      d.follow (if s = ".." then l.dropLast else l ++ [s]) ss = .ok k := by
  rw [follow] at h
  split at h
  · cases h
  · cases h
  · rename_i hl
    split at h
    · rename_i hs
      exact ⟨hl, fun e => absurd hs e, by rwa [if_pos hs]⟩
    · rename_i hs
      split at h
      · rename_i hf
        exact ⟨hl, fun _ => hf, by rwa [if_neg hs]⟩
      · cases h

theorem follow_append (d : Disk) (l : Place) (ss ts : List String) :
    d.follow l (ss ++ ts) = d.follow l ss >>= fun k => d.follow k ts := by
  induction ss generalizing l with
  | nil => rfl
  | cons s rest ih =>
    rw [List.cons_append, follow, follow]
    split
    · rfl
    · rfl
    · split
      · exact ih _
      · split
        · exact ih _
        · rfl

theorem locate_ok_iff :
    d.locate p = .ok l ↔ p.fits = true ∧ d.follow (d.start p) p.segments = .ok l := by
  unfold locate
  split <;> simp [*]

theorem collapse_of_no_steps (hs : ".." ∉ ss) (l : Place) : FilePath.collapse l ss = l ++ ss := by
  induction ss generalizing l with
  | nil => exact (List.append_nil l).symm
  | cons s rest ih =>
    rw [List.mem_cons, not_or] at hs
    have tail := ih hs.2 (l ++ [s])
    rw [List.append_assoc] at tail
    simpa [FilePath.collapse, Ne.symm hs.1] using tail

theorem placeOf_append (hs : ".." ∉ ss) (d : Disk) (p : FilePath) :
    d.placeOf { p with segments := p.segments ++ ss } = d.placeOf p ++ ss := by
  rw [← collapse_of_no_steps hs (d.placeOf p)]
  exact List.foldl_append ..

theorem eq_collapse_of_follow (h : d.follow l ss = .ok k) : k = FilePath.collapse l ss := by
  induction ss generalizing l with
  | nil => exact (Except.ok.inj h).symm
  | cons s rest ih => exact ih (follow_cons h).2.2

theorem eq_placeOf (h : d.locate p = .ok l) : l = d.placeOf p :=
  eq_collapse_of_follow (locate_ok_iff.1 h).2

theorem follow_of_directories
    (hd : ∀ l, d.find? l = some .directory → d'.find? l = some .directory)
    (h : d.follow l ss = .ok k) : d'.follow l ss = .ok k := by
  induction ss generalizing l with
  | nil => exact h
  | cons s rest ih =>
    obtain ⟨hl, hs, h⟩ := follow_cons h
    have tail := ih h
    rw [follow, hd l hl]
    split at tail
    · simp [*]
    · simp [*]

theorem locate_of_directories (hh : d'.home = d.home)
    (hd : ∀ l, d.find? l = some .directory → d'.find? l = some .directory)
    (h : d.locate p = .ok l) : d'.locate p = .ok l := by
  obtain ⟨hfits, h⟩ := locate_ok_iff.1 h
  rw [locate_ok_iff, start, hh]
  exact ⟨hfits, follow_of_directories hd h⟩

/-- Without steps up, a path that one disk can be followed along leads to the same place on another
one that has the directories on the way. -/
theorem follow_of_above (hs : ".." ∉ ss) (h : d'.follow l ss = .ok k)
    (ha : ∀ n < ss.length, d.find? (l ++ ss.take n) = some .directory) :
    d.follow l ss = .ok k := by
  induction ss generalizing l with
  | nil => exact h
  | cons s rest ih =>
    rw [List.mem_cons, not_or] at hs
    obtain ⟨-, hf, h⟩ := follow_cons h
    rw [if_neg (Ne.symm hs.1)] at h
    have hl : d.find? l = some .directory := by simpa using ha 0 (by simp)
    have tail := ih hs.2 h fun n hn => by
      simpa using ha (n + 1) (by simpa using hn)
    simp [follow, hl, Ne.symm hs.1, hf (Ne.symm hs.1), tail]

/-- Directories may be added, and files change at some places only. -/
structure Alters (there : Place → Prop) (d d' : Disk) : Prop where
  home : d'.home = d.home
  directories : ∀ l, d.find? l = some .directory → d'.find? l = some .directory
  files : ∀ l c, ¬ there l → (d'.find? l = some (.file c) ↔ d.find? l = some (.file c))

namespace Alters

theorem refl (there : Place → Prop) (d : Disk) : Alters there d d :=
  ⟨rfl, fun _ h => h, fun _ _ _ => Iff.rfl⟩

theorem trans (h : Alters at₁ d d') (h' : Alters at₁ d' d'') : Alters at₁ d d'' :=
  ⟨h'.home.trans h.home, fun l hl => h'.directories l (h.directories l hl),
    fun l c hl => (h'.files l c hl).trans (h.files l c hl)⟩

theorem mono (h : Alters at₁ d d') (hat : ∀ l, at₁ l → at₂ l) : Alters at₂ d d' :=
  ⟨h.home, h.directories, fun l c hl => h.files l c (hl ∘ hat l)⟩

theorem put_directory (h : d.find? l = none) : Alters at₁ d (d.put l .directory) := by
  refine ⟨rfl, fun k hk => ?_, fun k c _ => ?_⟩
  · rw [find?_put]
    split <;> simp [*]
  · rw [find?_put]
    split
    · rename_i e
      simp [e.1, h]
    · rfl

theorem put_file {c : ByteArray} (h : d.find? l ≠ some .directory) :
    Alters (· = l) d (d.put l (.file c)) := by
  refine ⟨rfl, fun k hk => ?_, fun k c hk => ?_⟩
  · have hkl : k ≠ l := fun e => h (e ▸ hk)
    rwa [find?_put, if_neg (fun e => hkl e.1)]
  · rw [find?_put, if_neg (fun e => hk e.1)]

theorem drop_file {c : ByteArray} (h : d.find? l = some (.file c)) :
    Alters (· = l) d (d.drop l) := by
  refine ⟨rfl, fun k hk => ?_, fun k c hk => ?_⟩
  · have hkl : k ≠ l := fun e => by simp [e, h] at hk
    rwa [find?_drop, if_neg (fun e => hkl e.1)]
  · rw [find?_drop, if_neg (fun e => hk e.1)]

theorem persists (h : Alters (fun _ => False) d d') (hl : d.find? l ≠ none) :
    d'.find? l ≠ none := by
  obtain ⟨e, he⟩ := Option.ne_none_iff_exists'.1 hl
  cases e with
  | directory => simp [h.directories l he]
  | file c => simp [(h.files l c id).2 he]

theorem placeOf (h : Alters at₁ d d') (p : FilePath) : d'.placeOf p = d.placeOf p := by
  rw [Disk.placeOf, Disk.placeOf, h.home]

theorem start (h : Alters at₁ d d') (p : FilePath) : d'.start p = d.start p := by
  rw [Disk.start, Disk.start, h.home]

theorem locate (h : Alters at₁ d d') (hl : d.locate p = .ok l) : d'.locate p = .ok l :=
  locate_of_directories h.home h.directories hl

end Alters

theorem makeDirectory_ok (h : d.makeDirectory p = .ok d') :
    ∃ l, d.locate p = .ok l ∧ d.find? l = none ∧ d' = d.put l .directory := by
  obtain ⟨l, hl, h⟩ := exists_of_bind_ok h
  split at h
  · cases h
  · rename_i hn
    exact ⟨l, hl, hn, (Except.ok.inj h).symm⟩

theorem settleDirectory_cases (d : Disk) (p : FilePath) :
    (d.settleDirectory p).1 = d ∨ d.makeDirectory p = .ok (d.settleDirectory p).1 := by
  rw [settleDirectory]
  split
  · rename_i h
    exact .inr h
  · split <;> exact .inl rfl

theorem makeDirectories_induction {P : Disk → Disk → Prop} (root : String) (ss : List String)
    (refl : ∀ d, P d d) (trans : ∀ {a b c}, P a b → P b c → P a c)
    (step : ∀ {d d' : Disk} {ts}, ts <+: ss → d.makeDirectory ⟨root, ts⟩ = .ok d' → P d d')
    (d : Disk) : P d (d.makeDirectories root ss).1 := by
  fun_induction Disk.makeDirectories d root ss with
  | case1 ss _ p d' h => exact step (List.prefix_refl ss) h
  | case2 ss _ p h => exact refl d
  | case3 ss _ p h hne d' hd ih =>
    rw [hd] at ih
    have above : P d d' := ih fun hts => step (hts.trans (List.dropLast_prefix ss))
    rcases settleDirectory_cases d' p with hs | hs
    · rwa [hs]
    · exact trans above (step (List.prefix_refl ss) hs)
  | case4 ss _ p h hne d' f hd ih =>
    rw [hd] at ih
    exact ih fun hts => step (hts.trans (List.dropLast_prefix ss))
  | case5 ss _ p e he h hp => exact refl d
  | case6 ss _ p e he h hp => exact refl d

theorem settleDirectory_error {f : DiskFault} (h : (d.settleDirectory p).2 = .error f) :
    f ≠ .unnameable := by
  rw [settleDirectory] at h
  split at h
  · cases h
  · split at h
    · cases h
    · exact fun e => by simp [e] at h

theorem makeDirectories_error {root : String} {f : DiskFault}
    (h : (d.makeDirectories root ss).2 = .error f) : f ≠ .unnameable := by
  fun_induction Disk.makeDirectories d root ss with
  | case1 ss _ p d' hd => cases h
  | case2 ss _ p hd => cases h; exact DiskFault.noConfusion
  | case3 ss _ p hd hne d' hd' ih => exact settleDirectory_error h
  | case4 ss _ p hd hne d' g hd' ih =>
    rw [hd'] at ih
    cases h
    exact ih rfl
  | case5 ss _ p e he hd hp => cases h
  | case6 ss _ p e he hd hp => cases h; exact DiskFault.noConfusion

theorem ensureDirectory_error {f : DiskFault} (h : (d.ensureDirectory p).2 = .error f)
    (hf : f = .unnameable) : p.isNameable = false := by
  rw [ensureDirectory] at h
  split at h
  · rename_i hn
    simpa using hn
  · exact absurd hf (makeDirectories_error h)

theorem ensureDirectory_induction {P : Disk → Disk → Prop} (p : FilePath)
    (refl : ∀ d, P d d) (trans : ∀ {a b c}, P a b → P b c → P a c)
    (step : ∀ {d d' : Disk} {ts}, ts <+: p.segments → d.makeDirectory ⟨p.root, ts⟩ = .ok d' →
      P d d')
    (d : Disk) : P d (d.ensureDirectory p).1 := by
  rw [ensureDirectory]
  split
  · exact refl d
  · exact makeDirectories_induction p.root p.segments refl trans step d

theorem alters_ensureDirectory (d : Disk) (p : FilePath) :
    Alters (fun _ => False) d (d.ensureDirectory p).1 :=
  ensureDirectory_induction p (.refl _) .trans
    (fun _ h => by
      obtain ⟨l, -, hl, rfl⟩ := makeDirectory_ok h
      exact .put_directory hl) d

theorem isNameable_parent (h : p.isNameable = true) : p.parent.isNameable = true :=
  List.all_eq_true.2 fun s hs => List.all_eq_true.1 h s (List.dropLast_subset _ hs)

/-- Writing makes the directories above, and then either fails or puts the file in its place. -/
theorem writeText_cases (d : Disk) (p : FilePath) (text : String) :
    (∃ f, d.writeText p text = ((d.ensureDirectory p.parent).1, .error f) ∧
      (f = .unnameable → p.isNameable = false)) ∨
    ∃ l, (d.ensureDirectory p.parent).1.locate p = .ok l ∧
      (d.ensureDirectory p.parent).1.find? l ≠ some .directory ∧ p.name ≠ ".." ∧
      p.isNameable = true ∧
      d.writeText p text = ((d.ensureDirectory p.parent).1.put l (.file text.toByteArray),
        .ok text.toByteArray.size) := by
  rw [writeText]
  have herr := @ensureDirectory_error d p.parent
  generalize d.ensureDirectory p.parent = made at herr
  obtain ⟨d', r⟩ := made
  cases r with
  | error f =>
    refine .inl ⟨f, rfl, fun hf => ?_⟩
    have hparent := herr rfl hf
    cases hp : p.isNameable with
    | false => rfl
    | true => rw [isNameable_parent hp] at hparent; cases hparent
  | ok u =>
    dsimp only
    split
    · exact .inl ⟨_, rfl, fun _ => by simpa using ‹(!p.isNameable) = true›⟩
    · split
      · exact .inl ⟨_, rfl, nofun⟩
      · split
        · exact .inl ⟨_, rfl, nofun⟩
        · split
          · exact .inl ⟨_, rfl, nofun⟩
          · split
            · exact .inl ⟨_, rfl, nofun⟩
            · rename_i hn _ hname _ l hl _ hd
              exact .inr ⟨l, hl, hd, hname, by simpa using hn, rfl⟩

theorem writeText_error {text : String} {f : DiskFault}
    (h : d.writeText p text = (d', .error f)) :
    Alters (fun _ => False) d d' ∧ (f = .unnameable → p.isNameable = false) := by
  have made := alters_ensureDirectory d p.parent
  rcases writeText_cases d p text with ⟨g, hw, hn⟩ | ⟨l, -, -, -, -, hw⟩
  · obtain ⟨rfl, hg⟩ := Prod.mk.inj (hw.symm.trans h)
    exact ⟨made, Except.error.inj hg ▸ hn⟩
  · obtain ⟨-, hg⟩ := Prod.mk.inj (hw.symm.trans h)
    cases hg

theorem writeText_ok {text : String} {size : Nat} (h : d.writeText p text = (d', .ok size)) :
    ∃ l, (d.ensureDirectory p.parent).1.locate p = .ok l ∧
      (d.ensureDirectory p.parent).1.find? l ≠ some .directory ∧
      d' = (d.ensureDirectory p.parent).1.put l (.file text.toByteArray) := by
  rcases writeText_cases d p text with ⟨g, hw, hn⟩ | ⟨l, hl, hd, -, -, hw⟩
  · obtain ⟨-, hg⟩ := Prod.mk.inj (hw.symm.trans h)
    cases hg
  · exact ⟨l, hl, hd, (Prod.mk.inj (hw.symm.trans h)).1.symm⟩

theorem isNameable_of_writeText {text : String} {size : Nat}
    (h : d.writeText p text = (d', .ok size)) : p.isNameable = true := by
  rcases writeText_cases d p text with ⟨g, hw, -⟩ | ⟨l, -, -, -, hn, -⟩
  · cases (Prod.mk.inj (hw.symm.trans h)).2
  · exact hn

theorem alters_writeText (d : Disk) (p : FilePath) (text : String) :
    Alters (· = d.placeOf p) d (d.writeText p text).1 := by
  have above := alters_ensureDirectory d p.parent
  rcases writeText_cases d p text with ⟨f, h, -⟩ | ⟨l, hl, hd, -, -, h⟩
  · rw [h]
    exact above.mono fun _ => False.elim
  · rw [h, ← above.placeOf p, ← eq_placeOf hl]
    exact (above.mono fun _ => False.elim).trans (.put_file hd)

theorem remove_cases (d : Disk) (p : FilePath) :
    (∃ f, d.remove p = (d, .error f)) ∨
    ∃ l c, d.locate p = .ok l ∧ d.find? l = some (.file c) ∧ d.remove p = (d.drop l, .ok ()) := by
  rw [remove]
  split
  · exact .inl ⟨_, rfl⟩
  · split
    · rename_i l hl _ c hc
      exact .inr ⟨l, c, hl, hc, rfl⟩
    · exact .inl ⟨_, rfl⟩
    · exact .inl ⟨_, rfl⟩

theorem alters_remove (d : Disk) (p : FilePath) :
    Alters (· = d.placeOf p) d (d.remove p).1 := by
  rcases remove_cases d p with ⟨f, h⟩ | ⟨l, c, hl, hc, h⟩
  · rw [h]
    exact .refl _ _
  · rw [h, ← eq_placeOf hl]
    exact .drop_file hc

theorem status_ok_iff {e : Entry} :
    d.status p = .ok e ↔ ∃ l, d.locate p = .ok l ∧ d.find? l = some e := by
  constructor
  · intro h
    obtain ⟨l, hl, h⟩ := exists_of_bind_ok h
    split at h
    · rename_i e' he
      exact ⟨l, hl, he.trans (congrArg some (Except.ok.inj h))⟩
    · cases h
  · rintro ⟨l, hl, he⟩
    rw [status, hl]
    dsimp only [bind, Except.bind]
    rw [he]
    rfl

theorem readBytes_ok_iff {c : ByteArray} :
    d.readBytes p = .ok c ↔
      p.isNameable = true ∧ ∃ l, d.locate p = .ok l ∧ d.find? l = some (.file c) := by
  rw [← status_ok_iff, readBytes]
  cases p.isNameable with
  | false => simp
  | true =>
    cases d.status p with
    | error e => simp
    | ok e => cases e <;> simp

theorem readText_ok_iff {s : String} :
    d.readText p = .ok s ↔ ∃ c t, d.readBytes p = .ok c ∧ Text.decodeUtf8 c = .ok t ∧
      s = String.ofList (Text.unifyBreaks t.toList) := by
  constructor
  · intro h
    obtain ⟨c, hc, h⟩ := exists_of_bind_ok h
    split at h
    · rename_i t ht
      exact ⟨c, t, hc, ht, (Except.ok.inj h).symm⟩
    · cases h
  · rintro ⟨c, t, hc, ht, rfl⟩
    rw [readText, hc]
    dsimp only [bind, Except.bind]
    rw [ht]
    rfl

theorem Alters.readText {s : String} (h : Alters at₁ d d') (hp : ¬ at₁ (d.placeOf p))
    (hr : d.readText p = .ok s) : d'.readText p = .ok s := by
  obtain ⟨c, t, hc, ht, hs⟩ := readText_ok_iff.1 hr
  obtain ⟨hn, l, hl, hf⟩ := readBytes_ok_iff.1 hc
  have hlp := eq_placeOf hl
  exact readText_ok_iff.2 ⟨c, t, readBytes_ok_iff.2
    ⟨hn, l, h.locate hl, (h.files l c (hlp ▸ hp)).2 hf⟩, ht, hs⟩

theorem find?_of_not_exists (h : d.exists? p = .ok false) (hn : p.isNameable = true)
    (hl : d.locate p = .ok l) : d.find? l = none := by
  cases hf : d.find? l with
  | none => rfl
  | some e =>
    rw [exists?, hn, status_ok_iff.2 ⟨l, hl, hf⟩] at h
    simp at h

theorem isDirectory_iff :
    d.isDirectory p = true ↔ ∃ l, d.locate p = .ok l ∧ d.find? l = some .directory := by
  rw [← status_ok_iff, isDirectory]
  cases d.status p with
  | error e => simp
  | ok e => cases e <;> simp

theorem ensureDirectory_of_isDirectory (hn : p.isNameable = true) (h : d.isDirectory p = true) :
    d.ensureDirectory p = (d, .ok ()) := by
  obtain ⟨l, hl, hdir⟩ := isDirectory_iff.1 h
  have hmake : d.makeDirectory ⟨p.root, p.segments⟩ = .error .alreadyThere := by
    have hl : d.locate ⟨p.root, p.segments⟩ = .ok l := hl
    rw [makeDirectory, hl]
    dsimp only [bind, Except.bind]
    rw [hdir]
    rfl
  have h : d.isDirectory ⟨p.root, p.segments⟩ = true := h
  rw [ensureDirectory, hn, makeDirectories]
  simp [hmake, h]

theorem isDirectory_parent (hl : d.locate p = .ok l) (hne : p.segments ≠ []) :
    d.isDirectory p.parent = true := by
  obtain ⟨hfits, hl⟩ := locate_ok_iff.1 hl
  have hsplit : p.segments = p.parent.segments ++ [p.segments.getLast hne] :=
    (List.dropLast_append_getLast hne).symm
  rw [hsplit, follow_append] at hl
  obtain ⟨k, hk, hlast⟩ := exists_of_bind_ok hl
  exact isDirectory_iff.2 ⟨k,
    locate_ok_iff.2 ⟨FilePath.fits_of_isPrefix hfits (List.dropLast_prefix _), hk⟩,
    (follow_cons hlast).1⟩

/-- Whether a file that is there can be written over: there is room for the name that the text is
written under first. -/
structure Overwritable (home : Place) (p : FilePath) : Prop where
  nonempty : p.segments ≠ []
  name : p.name ≠ ".."
  room : hasRoom home p = true

instance (home : Place) : DecidablePred (Overwritable home) := fun p =>
  decidable_of_iff (p.segments ≠ [] ∧ p.name ≠ ".." ∧ hasRoom home p = true)
    ⟨fun ⟨hs, hn, hr⟩ => ⟨hs, hn, hr⟩, fun ⟨hs, hn, hr⟩ => ⟨hs, hn, hr⟩⟩

theorem exists_writeText {c : ByteArray} (hp : Overwritable d.home p) (hr : d.readBytes p = .ok c)
    (text : String) : ∃ l size, d.find? l ≠ none ∧
      d.writeText p text = (d.put l (.file text.toByteArray), .ok size) := by
  obtain ⟨hn, l, hl, hf⟩ := readBytes_ok_iff.1 hr
  have hparent := ensureDirectory_of_isDirectory (isNameable_parent hn)
    (isDirectory_parent hl hp.nonempty)
  refine ⟨l, text.toByteArray.size, by simp [hf], ?_⟩
  rw [writeText, hparent]
  simp [hn, hp.room, hp.name, hl, hf]

theorem hasRoom_of_writeText {text : String} {size : Nat}
    (h : d.writeText p text = (d', .ok size)) : hasRoom d.home p = true := by
  by_contra hroom
  have hhome := (alters_ensureDirectory d p.parent).home
  rw [writeText] at h
  split at h
  · cases (Prod.mk.inj h).2
  · rename_i made hmade
    rw [hmade] at hhome
    split at h
    · cases (Prod.mk.inj h).2
    · rw [hhome, if_pos (by simpa using hroom)] at h
      cases (Prod.mk.inj h).2

theorem exists_remove {c : ByteArray} (hr : d.readBytes p = .ok c) :
    ∃ d', d.remove p = (d', .ok ()) := by
  obtain ⟨-, l, hl, hf⟩ := readBytes_ok_iff.1 hr
  exact ⟨d.drop l, by simp [remove, hl, hf]⟩

structure Rooted (d : Disk) : Prop where
  above : ∀ l e, d.find? l = some e → d.find? l.dropLast = some .directory
  home : d.find? d.home = some .directory

theorem find?_of_mem {e : Entry} (h : (l, e) ∈ d.entries.entries) (hl : l ≠ []) :
    d.find? l = some e := by
  rw [find?, if_neg (by simpa using hl), OrderedMap.mem_entries_iff.1 h]

theorem mem_of_find? {e : Entry} (h : d.find? l = some e) (hl : l ≠ []) :
    (l, e) ∈ d.entries.entries := by
  rw [find?, if_neg (by simpa using hl)] at h
  exact OrderedMap.mem_entries_iff.2 h

theorem rooted_iff :
    d.Rooted ↔ (∀ e ∈ d.entries.entries, d.find? e.1.dropLast = some .directory) ∧
      d.find? d.home = some .directory := by
  refine ⟨fun h => ⟨fun e he => ?_, h.home⟩, fun h => ⟨fun l e he => ?_, h.2⟩⟩
  · by_cases hl : e.1 = []
    · simp [hl]
    · exact h.above e.1 e.2 (find?_of_mem he hl)
  · by_cases hl : l = []
    · simp [hl]
    · exact h.1 (l, e) (mem_of_find? he hl)

instance : DecidablePred Rooted := fun _ => decidable_of_iff _ rooted_iff.symm

namespace Rooted

theorem above_take (h : Rooted d) {e : Entry} (hl : d.find? l = some e) {n : Nat}
    (hn : n < l.length) : d.find? (l.take n) = some .directory := by
  induction l using List.reverseRecOn generalizing e with
  | nil => simp at hn
  | append_singleton rest s ih =>
    have hrest : d.find? rest = some .directory := by simpa using h.above _ e hl
    rw [List.length_append, List.length_singleton] at hn
    rcases Nat.lt_or_ge n rest.length with hlt | hge
    · rw [List.take_append_of_le_length (Nat.le_of_lt hlt)]
      exact ih hrest hlt
    · obtain rfl : n = rest.length := by omega
      rwa [List.take_left]

theorem above_of_locate (h : Rooted d) (hl : d.locate p = .ok l)
    (hd : d.find? l ≠ some .directory) : d.find? l.dropLast = some .directory := by
  have hl := (locate_ok_iff.1 hl).2
  generalize hstart : d.start p = start at hl
  have hs : d.find? start = some .directory := by
    subst hstart
    unfold Disk.start
    split
    · rfl
    · exact h.home
  rcases List.eq_nil_or_concat p.segments with hnil | ⟨rest, s, hcons⟩
  · rw [hnil] at hl
    obtain rfl := Except.ok.inj hl
    exact absurd hs hd
  · rw [hcons, List.concat_eq_append, follow_append] at hl
    obtain ⟨k, -, hk⟩ := exists_of_bind_ok hl
    obtain ⟨hdir, -, hlast⟩ := follow_cons hk
    obtain rfl := Except.ok.inj hlast
    by_cases hs : s = ".."
    · rw [if_pos hs] at hd
      exact absurd (h.above k _ hdir) hd
    · rwa [if_neg hs, List.dropLast_concat]

theorem put {e : Entry} (h : Rooted d) (hl : d.find? l.dropLast = some .directory)
    (hd : d.find? l ≠ some .directory) : Rooted (d.put l e) := by
  have kept : ∀ k, d.find? k = some .directory → (d.put l e).find? k = some .directory := by
    intro k hk
    have hkl : k ≠ l := fun h => hd (h ▸ hk)
    rwa [find?_put, if_neg (fun h => hkl h.1)]
  refine ⟨fun k e' hk => kept _ ?_, kept _ h.home⟩
  rw [find?_put] at hk
  split at hk
  · rename_i hkl
    rwa [hkl.1]
  · exact h.above k e' hk

theorem drop {c : ByteArray} (h : Rooted d) (hl : d.find? l = some (.file c)) :
    Rooted (d.drop l) := by
  have kept := (Alters.drop_file hl).directories
  refine ⟨fun k e hk => kept _ ?_, kept _ h.home⟩
  rw [find?_drop] at hk
  split at hk
  · cases hk
  · exact h.above k e hk

theorem ensureDirectory (h : Rooted d) (p : FilePath) : Rooted (d.ensureDirectory p).1 := by
  refine ensureDirectory_induction (P := fun a b => Rooted a → Rooted b) p (fun _ h => h)
    (fun h h' a => h' (h a)) (fun {a _ _} _ hm ha => ?_) d h
  obtain ⟨l, hl, hn, rfl⟩ := makeDirectory_ok hm
  have hd : a.find? l ≠ some .directory := by simp [hn]
  exact ha.put (ha.above_of_locate hl hd) hd

theorem writeText (h : Rooted d) (p : FilePath) (text : String) :
    Rooted (d.writeText p text).1 := by
  have above := h.ensureDirectory p.parent
  rcases writeText_cases d p text with ⟨f, hw, -⟩ | ⟨l, hl, hd, -, -, hw⟩
  · rwa [hw]
  · rw [hw]
    exact above.put (above.above_of_locate hl hd) hd

theorem remove (h : Rooted d) (p : FilePath) : Rooted (d.remove p).1 := by
  rcases remove_cases d p with ⟨f, hr⟩ | ⟨l, c, -, hc, hr⟩
  · rwa [hr]
  · rw [hr]
    exact h.drop hc

end Rooted

end Disk
end HydraClient
