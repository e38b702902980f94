import HydraClient.Proofs.Fragments
import HydraClient.Proofs.Linked
import HydraClient.Proofs.Seeding
import HydraClient.Proofs.Serving

/-! # Runs

A run that succeeds goes through the seed, the classes, the operations, linking and the payload
helpers. The registry only grows on the way, so the invariant of the seed holds of the draft that
it ends with.
-/
namespace HydraClient

open Metadata TypeRegistry

theorem Run.step_ok_iff {r : Run} {name : String} {work : Drafting String} {d : Draft} :
    (∃ steps, r.step name work = (.ok (), ⟨d, steps⟩)) ↔
      ∃ detail, Yields work r.draft detail d := by
  unfold step
  constructor
  · rintro ⟨steps, h⟩
    split at h
    · rename_i detail d' hd
      obtain rfl := congrArg Run.draft (Prod.mk.inj h).2
      exact ⟨detail, hd⟩
    · split at h <;> cases h
  · rintro ⟨detail, hd⟩
    have hd : work.run.run r.draft = (.ok detail, d) := hd
    rw [hd]
    exact ⟨_, rfl⟩

theorem Run.takeSteps_ok_iff {steps : List (String × Drafting String)} {r : Run} {d : Draft} :
    (∃ taken, r.takeSteps steps = (.ok (), ⟨d, taken⟩)) ↔
      Passes (fun step d d' => ∃ detail, Yields step.2 d detail d') steps r.draft d := by
  induction steps generalizing r with
  | nil =>
    constructor
    · rintro ⟨taken, h⟩
      obtain rfl : r = ⟨d, taken⟩ := (Prod.mk.inj h).2
      exact .done
    · intro h
      cases h
      exact ⟨r.steps, rfl⟩
  | cons step rest ih =>
    obtain ⟨name, work⟩ := step
    constructor
    · rintro ⟨taken, h⟩
      rw [takeSteps] at h
      split at h
      · rename_i m hstep
        exact .step (Run.step_ok_iff.1 ⟨m.steps, hstep⟩) (ih.1 ⟨taken, h⟩)
      · rename_i hfailed
        exact absurd h (hfailed _)
    · rintro (_ | ⟨hwork, hrest⟩)
      obtain ⟨taken, hstep⟩ := Run.step_ok_iff.2 hwork
      rw [takeSteps, hstep]
      exact ih.2 hrest

def Extracts (cat : Catalog) (disk : Disk) (d : Draft) : Prop :=
  ∃ steps, ({} : Run).takeSteps (Pipeline.extraction cat disk) = (.ok (), ⟨d, steps⟩)

/-- The draft at which the steps of extraction arrive, whether or not they all succeed. -/
def extraction (cat : Catalog) (disk : Disk) : Draft :=
  (({} : Run).takeSteps (Pipeline.extraction cat disk)).2.draft

theorem extracts_extraction {cat : Catalog} {disk : Disk}
    (h : (({} : Run).takeSteps (Pipeline.extraction cat disk)).1.isOk = true) :
    Extracts cat disk (extraction cat disk) := by
  unfold Extracts extraction
  generalize ({} : Run).takeSteps (Pipeline.extraction cat disk) = out at h
  obtain ⟨_ | u, r⟩ := out
  · cases h
  · exact ⟨r.steps, rfl⟩

theorem Extracts.eq_extraction {cat : Catalog} {disk : Disk} {d : Draft} (h : Extracts cat disk d) :
    d = extraction cat disk := by
  obtain ⟨steps, h⟩ := h
  rw [extraction, h]

/-- The drafts on the way to an extracted one. -/
structure Phased (cat : Catalog) (disk : Disk) (seeded modeled served d : Draft) : Prop where
  seed : Yields (BaseTypes.seed cat.config disk) {} ⟨⟩ seeded
  models : ∃ ts, Yields (Model.extractAll cat) seeded ts modeled
  operations : ∃ cs, Yields (Operations.extractAll cat) modeled cs served
  helpers : Brings
    (Payload.helperFragments { served with operations := (Linking.link served.operations).1 })
    { served with operations := (Linking.link served.operations).1 } d

variable {cat : Catalog} {disk : Disk} {d : Draft}

theorem Extracts.phased (h : Extracts cat disk d) :
    ∃ seeded modeled served, Phased cat disk seeded modeled served d := by
  obtain ⟨steps, h⟩ := h
  have hpasses := Run.takeSteps_ok_iff.1 ⟨steps, h⟩
  obtain _ | ⟨⟨_, hseed⟩, _ | ⟨⟨_, hmodels⟩, _ | ⟨⟨_, hoperations⟩, _ | ⟨⟨_, hlink⟩,
    _ | ⟨⟨_, hpayload⟩, _ | _⟩⟩⟩⟩⟩ := hpasses
  obtain ⟨_, seeded, hseed, h⟩ := Yields.bind_iff.1 hseed
  have h := Yields.get_bind.1 h
  obtain ⟨-, rfl⟩ := Yields.pure_iff.1 h
  obtain ⟨ts, modeled, hmodels, h⟩ := Yields.bind_iff.1 hmodels
  obtain ⟨-, rfl⟩ := Yields.pure_iff.1 h
  obtain ⟨cs, served, hoperations, h⟩ := Yields.bind_iff.1 hoperations
  obtain ⟨-, rfl⟩ := Yields.pure_iff.1 h
  obtain ⟨_, linked, hlink, h⟩ := Yields.bind_iff.1 (Yields.get_bind.1 hlink)
  obtain ⟨-, rfl⟩ := Yields.pure_iff.1 h
  obtain rfl := Yields.modify_iff.1 hlink
  obtain ⟨n, shaped, hpayload, h⟩ := Yields.bind_iff.1 hpayload
  obtain ⟨-, rfl⟩ := Yields.pure_iff.1 h
  exact ⟨_, _, _, hseed, ⟨ts, hmodels⟩, ⟨cs, hoperations⟩, Payload.brings_shapeAll hpayload⟩

namespace Phased

variable {seeded modeled served : Draft} {c : String} {e : EndpointEntry}

theorem types_eq (h : Phased cat disk seeded modeled served d) : d.types = served.types :=
  h.helpers.types

theorem exactly (h : Phased cat disk seeded modeled served d) :
    BaseTypes.Exactly (BaseTypes.all cat.config.hydraStart) seeded.types :=
  (BaseTypes.yields_seed h.seed).1

theorem extracted (h : Phased cat disk seeded modeled served d) : Extracted cat seeded modeled := by
  obtain ⟨ts, hmodels⟩ := h.models
  exact Model.extracted_of_extractAll h.exactly.coherent hmodels

theorem bound (h : Phased cat disk seeded modeled served d) : Operations.Bound cat modeled
    (cat.resources.filter cat.config.matchesNamespace) served := by
  obtain ⟨cs, hoperations⟩ := h.operations
  have hnone : modeled.operations = .empty :=
    h.extracted.operations.trans (BaseTypes.yields_seed h.seed).2.1
  exact Operations.bound_of_extractAll (h.extracted.coherent h.exactly.coherent) hnone hoperations

theorem coherent_served (h : Phased cat disk seeded modeled served d) : Coherent served.types :=
  h.bound.growth.coherent (h.extracted.coherent h.exactly.coherent)

theorem coherent (h : Phased cat disk seeded modeled served d) : Coherent d.types := by
  rw [h.types_eq]
  exact h.coherent_served

theorem traced_modeled (h : Phased cat disk seeded modeled served d) : Traced cat modeled.types :=
  (Traced.of_exactly h.exactly).grows h.extracted.growth

theorem traced (h : Phased cat disk seeded modeled served d) : Traced cat d.types := by
  rw [h.types_eq]
  exact h.traced_modeled.grows h.bound.growth

theorem sound_modeled (h : Phased cat disk seeded modeled served d) (hu : cat.Unshadowed) :
    Sound cat modeled.types := (Sound.of_exactly h.exactly).grows hu h.extracted.growth

theorem sound (h : Phased cat disk seeded modeled served d) (hu : cat.Unshadowed) :
    Sound cat d.types := by
  rw [h.types_eq]
  exact (h.sound_modeled hu).grows hu h.bound.growth

theorem fragments (h : Phased cat disk seeded modeled served d) {file : String} {f : Fragment} :
    f ∈ d.files.fragments file ↔
      (∃ helper, BaseTypes.helper? cat.config disk = .ok helper ∧
        f ∈ (BaseTypes.seededFiles cat.config helper).fragments file) ∨
        Payload.Shapes d file f := by
  obtain ⟨-, -, helper, hhelper, hseeded⟩ := BaseTypes.yields_seed h.seed
  have hfiles : served.files = BaseTypes.seededFiles cat.config helper :=
    h.bound.files.trans (h.extracted.files.trans hseeded)
  rw [h.helpers.mem_fragments, Payload.mem_helperFragments,
    Payload.shapes_congr h.helpers.types h.helpers.operations]
  refine or_congr_left ?_
  constructor
  · exact fun hf => ⟨helper, hhelper, hfiles ▸ hf⟩
  · rintro ⟨helper', hhelper', hf⟩
    obtain rfl := Except.ok.inj (hhelper.symm.trans hhelper')
    exact hfiles ▸ hf

theorem linked (h : Phased cat disk seeded modeled served d) : Linking.Linked
    (Linking.offers served.operations) served.operations d.operations := by
  rw [h.helpers.operations]
  exact Linking.linked_link served.operations

theorem served_entry (h : Phased cat disk seeded modeled served d)
    (he : d.operations.get? c = some e) : ∃ shape resource x,
      Operations.Served cat modeled.types d.types c shape resource x ∧ x.core = e.core := by
  obtain ⟨x, hx, hcore⟩ := h.linked.entry he
  obtain ⟨-, shape, resource, hserved⟩ := h.bound.entries hx
  exact ⟨shape, resource, x, h.types_eq ▸ hserved, hcore⟩

end Phased

theorem Extracts.traced (h : Extracts cat disk d) : Traced cat d.types := by
  obtain ⟨seeded, modeled, served, hphased⟩ := h.phased
  exact hphased.traced

theorem Extracts.sound (h : Extracts cat disk d) (hu : cat.Unshadowed) : Sound cat d.types := by
  obtain ⟨seeded, modeled, served, hphased⟩ := h.phased
  exact hphased.sound hu

end HydraClient
