import HydraClient.Proofs.Dealings
import HydraClient.Proofs.Headers

/-! # Files that opt out

A file that opts out in its first line outlives every synchronisation: it is read before anything
is done to it, and what is read says that it is frozen. A path that steps up out of a directory
which is still to be made is the exception. It leads nowhere when it is looked at, and to the file
when it is written.
-/
namespace HydraClient

namespace Disk

variable {d d' : Disk} {there : Place → Prop} {l : Place} {p : FilePath}

/-- Whether a path steps up only out of directories that are there. -/
def Reaches (d : Disk) (p : FilePath) : Prop :=
  ∃ above below l, p.segments = above ++ below ∧ ".." ∉ below ∧ d.follow (d.start p) above = .ok l

theorem reaches_of_no_steps (h : ".." ∉ p.segments) : d.Reaches p :=
  ⟨[], p.segments, _, rfl, h, rfl⟩

theorem Reaches.alters (h : d.Reaches p) (ha : Alters there d d') : d'.Reaches p := by
  obtain ⟨above, below, l, hp, hb, hl⟩ := h
  exact ⟨above, below, l, hp, hb, ha.start p ▸ follow_of_directories ha.directories hl⟩

theorem Reaches.locate (h : d.Reaches p) (hd : d.Rooted) (ha : Alters there d d')
    (hl : d'.locate p = .ok l) {e : Entry} (he : d.find? l = some e) : d.locate p = .ok l := by
  obtain ⟨above, below, k, hp, hb, hk⟩ := h
  obtain ⟨hfits, hl⟩ := locate_ok_iff.1 hl
  refine locate_ok_iff.2 ⟨hfits, ?_⟩
  rw [hp, follow_append, ha.start, follow_of_directories ha.directories hk] at hl
  rw [hp, follow_append, hk]
  have hlk : l = k ++ below := (eq_collapse_of_follow hl).trans (collapse_of_no_steps hb k)
  refine follow_of_above hb hl fun n hn => ?_
  have := hd.above_take (n := k.length + n) he (by simp [hlk, hn])
  rwa [hlk, List.take_length_add_append] at this

end Disk

namespace Sync

open Disk

variable {d₀ : Disk} {l : Place} {c : ByteArray}

structure Untouched (l : Place) (d₀ d : Disk) : Prop where
  rooted : d.Rooted
  alters : Alters (· ≠ l) d₀ d

namespace Untouched

variable {d : Disk}

theorem content (h : Untouched l d₀ d) (hl : d₀.find? l = some (.file c)) :
    d.find? l = some (.file c) :=
  (h.alters.files l c fun h => h rfl).2 hl

theorem isFrozen_of_readText (hl : d.find? l = some (.file c)) (hc : Header.OptsOut c)
    {path : FilePath} (hloc : d.locate path = .ok l) {s : String} (hr : d.readText path = .ok s) :
    (Header.parse s).isFrozen = true := by
  obtain ⟨c', text, hbytes, htext, rfl⟩ := readText_ok_iff.1 hr
  obtain ⟨-, k, hk, hfile⟩ := readBytes_ok_iff.1 hbytes
  obtain rfl := Except.ok.inj (hloc.symm.trans hk)
  obtain rfl : c = c' := by simpa [hl] using hfile
  exact Header.isFrozen_of_optsOut hc htext

/-- What opts out may not be written, by whatever path it is reached. -/
theorem not_mayWrite (hl : d.find? l = some (.file c)) (hc : Header.OptsOut c) {path : FilePath}
    (hn : path.isNameable = true) (hloc : d.locate path = .ok l) : ¬ MayWrite d path := by
  rintro (hnone | ⟨h, hsome, hthawed⟩)
  · have := find?_of_not_exists (existing_none_iff.1 hnone) hn hloc
    simp [hl] at this
  · obtain ⟨-, s, hs, rfl⟩ := existing_some_iff.1 hsome
    rw [isFrozen_of_readText hl hc hloc hs] at hthawed
    cases hthawed

theorem writeText (h : Untouched l d₀ d) (hl : d₀.find? l = some (.file c))
    (hc : Header.OptsOut c) {path : FilePath} (hr : d₀.Reaches path) (hm : MayWrite d path)
    (text : String) : Untouched l d₀ (d.writeText path text).1 := by
  refine ⟨h.rooted.writeText path text, h.alters.trans ?_⟩
  have made := alters_ensureDirectory d path.parent
  rcases writeText_cases d path text with ⟨f, hw, -⟩ | ⟨k, hk, hdir, -, hn, hw⟩
  · rw [hw]
    exact made.mono fun _ => False.elim
  · have hkl : k ≠ l := by
      rintro rfl
      have hloc := (hr.alters h.alters).locate h.rooted made hk (h.content hl)
      exact not_mayWrite (h.content hl) hc hn hloc hm
    rw [hw]
    exact (made.mono fun _ => False.elim).trans ((Alters.put_file hdir).mono fun _ e => e ▸ hkl)

theorem remove (h : Untouched l d₀ d) (hl : d₀.find? l = some (.file c))
    (hc : Header.OptsOut c) {path : FilePath} {s : String} (hs : d.readText path = .ok s)
    (hthawed : (Header.parse s).isFrozen = false) : Untouched l d₀ (d.remove path).1 := by
  refine ⟨h.rooted.remove path, h.alters.trans ?_⟩
  rcases remove_cases d path with ⟨f, hr⟩ | ⟨k, c', hk, hfile, hr⟩
  · rw [hr]
    exact .refl _ _
  · have hkl : k ≠ l := by
      rintro rfl
      rw [isFrozen_of_readText (h.content hl) hc hk hs] at hthawed
      cases hthawed
    rw [hr]
    exact (Alters.drop_file hfile).mono fun _ e => e ▸ hkl

end Untouched

theorem Untouched.synchronize {d : Disk} (h : Untouched l d₀ d)
    (hl : d₀.find? l = some (.file c)) (hc : Header.OptsOut c) (t : Target)
    (files : OrderedMap String String) (hr : ∀ n ∈ files.keys, d₀.Reaches (t.pathOf n)) :
    Untouched l d₀ (synchronize t d files).1 :=
  disk_synchronize_induction (P := Untouched l d₀) h
    (fun n hn _ hd hm text => hd.writeText hl hc (hr n hn) hm text)
    fun _ _ _ _ _ _ _ _ hd _ hs hthawed => hd.remove hl hc hs hthawed

/-- The disk after a sequence of synchronisations, whether they come to an end or break off. -/
def runs (d : Disk) (calls : List (Target × OrderedMap String String)) : Disk :=
  calls.foldl (fun d call => (synchronize call.1 d call.2).1) d

theorem runs_concat (d : Disk) (calls : List (Target × OrderedMap String String))
    (call : Target × OrderedMap String String) :
    runs d (calls ++ [call]) = (synchronize call.1 (runs d calls) call.2).1 :=
  List.foldl_append ..

/-- A file that opts out in its first line keeps its bytes through every sequence of
synchronisations, dry or not, whatever they produce, as long as no path that one of them produces
steps up out of a directory that is still to be made. -/
theorem optedOut_untouched (d : Disk) (hd : d.Rooted) (l : Place) (c : ByteArray)
    (hl : d.find? l = some (.file c)) (hc : Header.OptsOut c)
    (calls : List (Target × OrderedMap String String))
    (hr : ∀ done call, done ++ [call] <+: calls →
      ∀ n ∈ call.2.keys, (runs d done).Reaches (call.1.pathOf n)) :
    ∀ done, done <+: calls → (runs d done).find? l = some (.file c) := by
  have untouched : ∀ done, done <+: calls → Untouched l d (runs d done) := by
    intro done
    induction done using List.reverseRecOn with
    | nil => exact fun _ => ⟨hd, .refl _ d⟩
    | append_singleton done call ih =>
      intro hcalls
      have before := ih ((List.prefix_append ..).trans hcalls)
      have step := Untouched.synchronize ⟨before.rooted, .refl _ _⟩ (before.content hl) hc call.1
        call.2 (hr done call hcalls)
      rw [runs_concat]
      exact ⟨step.rooted, before.alters.trans step.alters⟩
  exact fun done hdone => (untouched done hdone).content hl

def keptDisk : Disk where
  entries := .ofList [(["out"], .directory),
    (["out", "Post.ts"], .file "// @no-regenerate\nmine\n".toByteArray)]

/-- The file is produced with another body, first in a dry run, and then no longer. -/
def keptCalls : List (Target × OrderedMap String String) :=
  [({ sampleTarget with dryRun := true }, .ofList [("Post", "x")]),
    (sampleTarget, .ofList [("Post", "x"), ("interfaces/Tag", "y")]),
    (sampleTarget, .empty)]

theorem optsOut_keptDisk : Header.OptsOut "// @no-regenerate\nmine\n".toByteArray := by
  refine ⟨"// @no-regenerate".toList, ⟨[' '], Header.optOut.toList, rfl,
      fun c hc => List.mem_singleton.1 hc ▸ ⟨rfl, by decide, by decide⟩, rfl⟩,
    .inr ⟨"\n", by decide, "mine\n".toByteArray, ?_⟩⟩
  rw [← String.toByteArray_append]
  congr 1

theorem keptCalls_no_steps :
    ∀ call ∈ keptCalls, ∀ n ∈ call.2.keys, ".." ∉ (call.1.pathOf n).segments := by
  decide +kernel

theorem optedOut_untouched_keptCalls :
    (runs keptDisk keptCalls).find? ["out", "Post.ts"] =
      some (.file "// @no-regenerate\nmine\n".toByteArray) :=
  optedOut_untouched keptDisk (by decide +kernel) ["out", "Post.ts"] _ (by decide +kernel)
    optsOut_keptDisk keptCalls (fun _ call hcalls n hn =>
      reaches_of_no_steps (keptCalls_no_steps call (hcalls.subset (by simp)) n hn))
    keptCalls (List.prefix_refl _)

/-- Stepping up out of a directory that is still to be made gets at the file all the same. -/
theorem optedOut_overwritten :
    keptDisk.find? ["out", "Post.ts"] = some (.file "// @no-regenerate\nmine\n".toByteArray) ∧
      (synchronize sampleTarget keptDisk (.ofList [("new/../Post", "x")])).1.find?
        ["out", "Post.ts"] ≠ some (.file "// @no-regenerate\nmine\n".toByteArray) := by
  decide +kernel

end Sync

end HydraClient
