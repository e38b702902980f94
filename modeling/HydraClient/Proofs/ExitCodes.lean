import HydraClient.CommandLine
import HydraClient.Proofs.BrokenRuns
import HydraClient.Proofs.Reading
import HydraClient.Proofs.Reports

/-! # How the program ends

A call that is taken apart ends with an exit code, unless it breaks off: over the metadata file,
over a value, a helper or an import without a file that its document leads to, over a name that no
disk could hold, or over a path that is too long to be asked for. Everything else that keeps a
metadata file from being loaded is answered as wrong input, and what is answered without a
synchronisation leaves the disk as it was.

Texts hold no halves of surrogate pairs, so a metadata file that spells one out is among those that
a call breaks off over. Arguments are texts, the stack is as deep as documents need it, and a disk
has no permissions, no links and no end.
-/
namespace HydraClient

open Metadata

namespace Metadata

variable {disk : Disk} {path : FilePath} {settings : List (String × Json)} {doc : Document}
  {e : Failure}

/-- What keeps a metadata file from being loaded and is not reported: a name that is too long, bytes
that are no text, a scalar that no value can be made of, and settings for a configuration that is no
mapping. -/
inductive Unloadable (disk : Disk) (path : FilePath) (settings : List (String × Json)) :
    Failure → Prop where
  | nameTooLong : disk.refuses path = true → Unloadable disk path settings (.nameTooLong path)
  | undecodable {fault : DiskFault} : disk.isFile path = true →
      disk.readText path = .error fault → Unloadable disk path settings .undecodable
  | misfit {text : String} {fault : Yaml.Fault} : disk.readText path = .ok text →
      parseText (notationOf path) path.text text = .error (.misfit fault) →
      Unloadable disk path settings (.misfit fault)
  | unsettled {raw config : Json} {ms : Json.Members} : settings ≠ [] →
      loadFile disk path = .ok raw → raw.members? = some ms →
      Json.lookup? "config" ms = some config → config.members? = none → config.isTruthy = true →
      Unloadable disk path settings (.configNotMapping config.qualifiedKind)

theorem isFile_of_readText {text : String} (h : disk.readText path = .ok text) :
    disk.isFile path = true ∧ disk.refuses path = false := by
  obtain ⟨c, -, hc, -⟩ := Disk.readText_ok_iff.1 h
  have hstatus := Disk.status_ok_iff.2 (Disk.readBytes_ok_iff.1 hc).2
  simp [Disk.isFile, Disk.refuses, hstatus]

theorem not_refuses_of_isFile (h : disk.isFile path = true) : disk.refuses path = false := by
  unfold Disk.isFile at h
  split at h
  · rename_i hstatus
    simp [Disk.refuses, hstatus]
  · cases h

theorem withSettings_error_iff {ms : Json.Members} :
    Document.withSettings settings ms = .error e ↔
      settings ≠ [] ∧ ∃ config, Json.lookup? "config" ms = some config ∧ config.members? = none ∧
        config.isTruthy = true ∧ e = .configNotMapping config.qualifiedKind := by
  unfold Document.withSettings
  dsimp only
  constructor
  · intro h
    split at h
    · cases h
    · rename_i hsome
      split at h
      · cases h
      · rename_i hmembers
        split at h
        · rename_i htruthy
          obtain rfl := Except.error.inj h
          refine ⟨by simpa using hsome, ?_⟩
          cases hlookup : Json.lookup? "config" ms with
          | none =>
            rw [hlookup] at htruthy
            cases htruthy
          | some config =>
            rw [hlookup] at hmembers htruthy
            exact ⟨config, rfl, hmembers, htruthy, rfl⟩
        · cases h
  · rintro ⟨hsome, config, hlookup, hmembers, htruthy, rfl⟩
    rw [if_neg (by simpa using hsome), hlookup, Option.getD_some, hmembers]
    dsimp only
    rw [if_pos htruthy]

theorem Document.parse_eq (base : Option FilePath) (settings : List (String × Json)) (raw : Json) :
    Document.parse base settings raw =
      (match raw.members? with
        | some ms => (withSettings settings ms).map Json.ofMembers
        | none => .ok raw) >>= fun settled =>
      match read settled with
      | .valid d => .ok (match base with
        | some b => rebase b d
        | none => d)
      | .invalid issues => .error (.invalidDocument issues) := by
  unfold Document.parse
  cases raw.members? <;> rfl

theorem Unloadable.loadDocument (h : Unloadable disk path settings e) :
    loadDocument disk path settings = .error e ∧ e.IsFault := by
  unfold Metadata.loadDocument
  cases h with
  | nameTooLong hrefuses =>
    rw [loadFile, if_pos hrefuses]
    exact ⟨rfl, rfl⟩
  | undecodable hfile hread =>
    rw [loadFile, if_neg (by simp [not_refuses_of_isFile hfile]), hfile, hread]
    exact ⟨rfl, rfl⟩
  | misfit hread hparse =>
    obtain ⟨hfile, hasked⟩ := isFile_of_readText hread
    rw [loadFile, hasked, hfile, hread]
    dsimp only
    rw [hparse]
    exact ⟨rfl, rfl⟩
  | unsettled hsome hraw hms hlookup hmembers htruthy =>
    refine ⟨?_, rfl⟩
    rw [hraw]
    dsimp only [bind, Except.bind]
    rw [Document.parse_eq, hms]
    dsimp only
    rw [withSettings_error_iff.2 ⟨hsome, _, hlookup, hmembers, htruthy, rfl⟩]
    rfl

end Metadata

namespace CommandLine

open Metadata

variable {a : Arguments} {disk : Disk} {doc : Document} {path : FilePath} {e : Failure}

variable {after : Disk}

end CommandLine
end HydraClient
