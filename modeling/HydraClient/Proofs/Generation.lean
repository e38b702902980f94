import HydraClient.Proofs.Declarations
import HydraClient.Proofs.Runs

/-! # Generation

A run without hooks composes the draft that its catalog extracts to. Types and entries stay as they
are, and every fragment comes from the seed, a payload helper, the types of a file, an entry or the
routes.
-/
namespace HydraClient

open Metadata TypeRegistry

/-- A fragment that a run without hooks puts into a file. -/
inductive Contributes (cat : Catalog) (disk : Disk) (d : Draft) (file : String) (f : Fragment) :
    Prop where
  | seed {helper : Option String} : BaseTypes.helper? cat.config disk = .ok helper →
      f ∈ (BaseTypes.seededFiles cat.config helper).fragments file →
      Contributes cat disk d file f
  | payload : Payload.Shapes d file f → Contributes cat disk d file f
  | types : Render.Composes d.types file f → Contributes cat disk d file f
  | endpoint : Render.Serves d.operations file f → Contributes cat disk d file f
  | routes : cat.config.routesEnabled = true → Pipeline.Routed cat id file f →
      Contributes cat disk d file f

/-- What composition makes of an extracted draft. -/
structure Rendered (cat : Catalog) (disk : Disk) (d₀ d : Draft) : Prop where
  types : d.types = d₀.types
  operations : d.operations = d₀.operations
  fragments : ∀ {file f}, f ∈ d.files.fragments file ↔ Contributes cat disk d file f
  grouped : ∀ e ∈ d.types.byFile.entries, ∃ f, Render.typeFragment d.types e.2 = .ok f

variable {cat : Catalog} {disk : Disk} {d₀ d : Draft}

theorem Rendered.coherent (hr : Rendered cat disk d₀ d) (h : Coherent d₀.types) :
    Coherent d.types := by
  rwa [hr.types]

theorem Rendered.sound (hr : Rendered cat disk d₀ d) (h : Sound cat d₀.types) :
    Sound cat d.types := by
  rwa [hr.types]

theorem Pipeline.build_ok_iff : (∃ steps, build cat disk {} = (.ok (), ⟨d, steps⟩)) ↔
    ∃ d₀ r, ({} : Run).takeSteps (extraction cat disk) = (.ok (), ⟨d₀, r⟩) ∧
      ∃ steps, (⟨d₀, r⟩ : Run).takeSteps (composition cat id) = (.ok (), ⟨d, steps⟩) := by
  unfold build
  generalize ({} : Run).takeSteps (extraction cat disk) = out
  obtain ⟨f | u, r⟩ := out
  · constructor
    · rintro ⟨steps, h⟩
      cases h
    · rintro ⟨d₀, r', h, -⟩
      cases h
  · constructor
    · exact fun h => ⟨r.draft, r.steps, rfl, h⟩
    · rintro ⟨d₀, r', h, hsteps⟩
      obtain rfl := (Prod.mk.inj h).2
      exact hsteps

def composedFragments (cat : Catalog) (d : Draft) (file : String) : List Fragment :=
  Render.typeFragments d.types file ++ Render.endpointFragments d.operations file ++
    if cat.config.routesEnabled then Pipeline.routeFragments cat id file else []

theorem Pipeline.brings_composition {r steps : List StepMetric}
    (h : (⟨d₀, r⟩ : Run).takeSteps (composition cat id) = (.ok (), ⟨d, steps⟩)) :
    Brings (composedFragments cat d₀) d₀ d ∧ ∃ n m, Yields Render.composeTypes d₀ n m := by
  have hpasses := Run.takeSteps_ok_iff.1 ⟨steps, h⟩
  rw [composition, List.singleton_append] at hpasses
  obtain _ | @⟨_, _, _, m₂, _, ⟨_, hcompose⟩, hroutes⟩ := hpasses
  obtain ⟨n, m₁, htypes, hcompose⟩ := Yields.bind_iff.1 hcompose
  obtain ⟨n', m, hendpoints, hcompose⟩ := Yields.bind_iff.1 hcompose
  have hcompose := Yields.get_bind.1 hcompose
  obtain ⟨-, rfl⟩ := Yields.pure_iff.1 hcompose
  have h₁ := Render.brings_composeTypes htypes
  have h₂ := Render.brings_composeEndpoints hendpoints
  rw [h₁.operations] at h₂
  have h₃ : Brings (fun file => if cat.config.routesEnabled then routeFragments cat id file else [])
      m₂ d := by
    split at hroutes
    · rename_i henabled
      obtain _ | ⟨⟨_, hroute⟩, _ | _⟩ := hroutes
      obtain ⟨_, m₃, hroute, hdone⟩ := Yields.bind_iff.1 hroute
      obtain ⟨-, rfl⟩ := Yields.pure_iff.1 hdone
      exact (brings_composeRoutes hroute).congr fun _ => (if_pos henabled).symm
    · rename_i hdisabled
      obtain _ | _ := hroutes
      exact (Brings.nothing _).congr fun _ => (if_neg hdisabled).symm
  exact ⟨(h₁.trans h₂).trans h₃, n, m₁, htypes⟩

theorem mem_composedFragments {file : String} {f : Fragment} :
    f ∈ composedFragments cat d file ↔
      (Render.Composes d.types file f ∨ Render.Serves d.operations file f) ∨
        cat.config.routesEnabled = true ∧ Pipeline.Routed cat id file f := by
  rw [composedFragments, List.mem_append, List.mem_append, Render.mem_typeFragments,
    Render.mem_endpointFragments]
  refine or_congr_right ?_
  split
  · rename_i henabled
    rw [Pipeline.mem_routeFragments, and_iff_right henabled]
  · rename_i hdisabled
    exact ⟨nofun, fun hf => absurd hf.1 hdisabled⟩

theorem Rendered.of_composition {seeded modeled served : Draft} {r steps : List StepMetric}
    (h₀ : Phased cat disk seeded modeled served d₀)
    (h : (⟨d₀, r⟩ : Run).takeSteps (Pipeline.composition cat id) = (.ok (), ⟨d, steps⟩)) :
    Rendered cat disk d₀ d := by
  obtain ⟨hall, n, m, htypes⟩ := Pipeline.brings_composition h
  have hpayload : ∀ {file f}, Payload.Shapes d file f ↔ Payload.Shapes d₀ file f := by
    intro file f
    rw [Payload.shapes_congr hall.types hall.operations]
  refine ⟨hall.types, hall.operations, ?_, ?_⟩
  · intro file f
    rw [hall.mem_fragments, mem_composedFragments, h₀.fragments]
    constructor
    · rintro ((⟨helper, hhelper, hf⟩ | hf) | (hf | hf) | ⟨henabled, hf⟩)
      · exact .seed hhelper hf
      · exact .payload (hpayload.2 hf)
      · exact .types (hall.types ▸ hf)
      · exact .endpoint (hall.operations ▸ hf)
      · exact .routes henabled hf
    · intro hf
      cases hf with
      | seed hhelper hf => exact .inl (.inl ⟨_, hhelper, hf⟩)
      | payload hf => exact .inl (.inr (hpayload.1 hf))
      | types hf => exact .inr (.inl (.inl (hall.types ▸ hf)))
      | endpoint hf => exact .inr (.inl (.inr (hall.operations ▸ hf)))
      | routes henabled hf => exact .inr (.inr ⟨henabled, hf⟩)
  · intro e he
    rw [hall.types] at he ⊢
    exact Render.fragment_of_composeTypes htypes he

/-- A document that passes its checks and is built without hooks. -/
structure Generates (doc : Document) (disk : Disk) (d : Draft) : Prop where
  checked : doc.verdict.hasErrors = false
  built : ∃ steps, Pipeline.build (.ofDocument doc) disk {} = (.ok (), ⟨d, steps⟩)

def Metadata.Document.target (doc : Document) (output : Option FilePath) (clock : Timestamp) :
    Sync.Target where
  directory := output.getD (FilePath.ofText doc.config.outputDir)
  command := doc.config.commandName
  clock := clock

def Metadata.Document.targetOf (doc : Document) (output : Option FilePath) (o : Options) :
    Sync.Target := { doc.target output o.clock with dryRun := o.dryRun }

def Options.produced (o : Options) (d : Draft) : OrderedMap String String :=
  (o.fragments d).assemble

theorem Options.fragments_eq {o : Options} (hhooks : o.hooks = {}) (d : Draft) :
    o.fragments d = d.files := by
  rw [fragments, hhooks]
  rfl

theorem Options.produced_eq {o : Options} (hhooks : o.hooks = {}) (d : Draft) :
    o.produced d = d.files.assemble := by
  rw [produced, fragments_eq hhooks]

theorem Generates.of_build {doc : Document} {o : Options} {r : Run} (hhooks : o.hooks = {})
    (hchecked : doc.verdict.hasErrors = false)
    (hbuilt : Pipeline.build (.ofDocument doc) disk o.hooks = (.ok (), r)) :
    Generates doc disk r.draft := by
  rw [hhooks] at hbuilt
  exact ⟨hchecked, r.steps, hbuilt⟩

structure Report.Halted (r : Report) : Prop where
  files : r.files = .empty
  sync : r.sync = none
  failed : r.success = false

/-- A report of a run that has gone through its synchronisation. -/
structure Report.Delivers (r : Report) (produced : OrderedMap String String)
    (done : Sync.Report) : Prop where
  files : r.files = produced
  sync : r.sync = some done
  errors : r.errors = []
  failure : r.failure = none
  success : r.success = true ↔ done.errors = []

namespace Pipeline

/-- What a run comes to. The errors of its document or a failure of what is built are reported or
break it off, and otherwise it synchronises what is built. -/
inductive RunsTo (doc : Document) (output : Option FilePath) (o : Options) (disk : Disk) :
    Disk × Except Failure Report → Prop where
  | refused {report : Report} : doc.verdict.hasErrors = true → report.errors ≠ [] →
      report.Halted → RunsTo doc output o disk (disk, .ok report)
  | failed {r : Run} {f : Failure} {d : Diagnostic} {report : Report} :
      doc.verdict.hasErrors = false → build (.ofDocument doc) disk o.hooks = (.error f, r) →
      f.diagnostic? = some d → report.failure = some d → report.Halted →
      RunsTo doc output o disk (disk, .ok report)
  | broken {r : Run} {f : Failure} : doc.verdict.hasErrors = false →
      build (.ofDocument doc) disk o.hooks = (.error f, r) → f.diagnostic? = none →
      RunsTo doc output o disk (disk, .error f)
  | unplaced {r : Run} {place : Imports.Unplaced} : doc.verdict.hasErrors = false →
      build (.ofDocument doc) disk o.hooks = (.ok (), r) →
      (o.fragments r.draft).unplaced? = some place →
      RunsTo doc output o disk (disk, .error (.importUnplaced place))
  | delivered {r : Run} {after : Disk} {sync : Sync.Report} {report : Report} :
      doc.verdict.hasErrors = false → build (.ofDocument doc) disk o.hooks = (.ok (), r) →
      (o.fragments r.draft).unplaced? = none →
      Sync.synchronize (doc.targetOf output o) disk (o.produced r.draft) = (after, .ok sync) →
      report.Delivers (o.produced r.draft) sync → RunsTo doc output o disk (after, .ok report)
  | interrupted {r : Run} {after : Disk} {f : Failure} : doc.verdict.hasErrors = false →
      build (.ofDocument doc) disk o.hooks = (.ok (), r) →
      Sync.synchronize (doc.targetOf output o) disk (o.produced r.draft) = (after, .error f) →
      RunsTo doc output o disk (after, .error f)

theorem hasErrors_eq_false_iff {v : Verdict} : v.hasErrors = false ↔ v.errors = [] := by
  rw [Verdict.hasErrors, Verdict.errors, List.filter_eq_nil_iff, List.any_eq_false]

theorem runsTo_generate (doc : Document) (output : Option FilePath) (o : Options) (disk : Disk) :
    RunsTo doc output o disk (generate doc output o disk) := by
  unfold generate
  dsimp only
  split
  · rename_i herrors
    have hne : doc.verdict.errors ≠ [] := by
      intro hnone
      rw [hasErrors_eq_false_iff.2 hnone] at herrors
      cases herrors
    refine .refused herrors (by simpa using hne) ⟨rfl, rfl, ?_⟩
    simp [Report.succeeds, hne]
  · rename_i hchecked
    have hchecked : doc.verdict.hasErrors = false := by simpa using hchecked
    have hnone : doc.verdict.errors = [] := hasErrors_eq_false_iff.1 hchecked
    split
    · rename_i f r hbuilt
      split
      · rename_i d hd
        exact .failed hchecked hbuilt hd rfl ⟨rfl, rfl, by simp [Report.succeeds]⟩
      · rename_i hfault
        exact .broken hchecked hbuilt hfault
    · rename_i r hbuilt
      unfold deliver
      dsimp only
      cases hplaced : (o.fragments r.draft).unplaced? with
      | some place => exact .unplaced hchecked hbuilt hplaced
      | none =>
        rcases hsync : Sync.synchronize (doc.targetOf output o) disk (o.produced r.draft) with
          ⟨after, f | sync⟩
        · have hrun := RunsTo.interrupted hchecked hbuilt hsync
          rw [Document.targetOf, Document.target, Options.produced] at hsync
          rw [hsync]
          exact hrun
        · have hrun := fun report =>
            @RunsTo.delivered doc output o disk r after sync report hchecked hbuilt hplaced hsync
          rw [Document.targetOf, Document.target, Options.produced] at hsync
          rw [hsync]
          refine hrun _ ⟨rfl, rfl, by simp [hnone], rfl, ?_⟩
          simp [Report.succeeds, Report.writeErrors, hnone]

end Pipeline

/-- The report of a run without hooks lists the files of the draft that the document generates. -/
theorem generates_of_generate {doc : Document} {output : Option FilePath} {o : Options}
    {disk' : Disk} {report : Report} (hhooks : o.hooks = {})
    (h : Pipeline.generate doc output o disk = (disk', .ok report))
    (hok : report.success = true) :
    ∃ d, Generates doc disk d ∧ report.files = d.files.assemble := by
  have hrun := Pipeline.runsTo_generate doc output o disk
  rw [h] at hrun
  cases hrun with
  | refused _ _ hhalted =>
    rw [hhalted.failed] at hok
    cases hok
  | failed _ _ _ _ hhalted =>
    rw [hhalted.failed] at hok
    cases hok
  | delivered hchecked hbuilt _ _ hdelivers =>
    refine ⟨_, .of_build hhooks hchecked hbuilt, ?_⟩
    rw [hdelivers.files, Options.produced_eq hhooks]

namespace Generates

variable {doc : Document}

theorem extracted (h : Generates doc disk d) : ∃ seeded modeled served d₀ r steps,
    Phased (.ofDocument doc) disk seeded modeled served d₀ ∧
      d₀ = extraction (.ofDocument doc) disk ∧
      (⟨d₀, r⟩ : Run).takeSteps (Pipeline.composition (.ofDocument doc) id) =
        (.ok (), ⟨d, steps⟩) := by
  obtain ⟨d₀, r, htaken, steps, hcompose⟩ := Pipeline.build_ok_iff.1 h.built
  have hextracts : Extracts (.ofDocument doc) disk d₀ := ⟨r, htaken⟩
  obtain ⟨seeded, modeled, served, hphased⟩ := hextracts.phased
  exact ⟨seeded, modeled, served, d₀, r, steps, hphased, hextracts.eq_extraction, hcompose⟩

theorem rendered (h : Generates doc disk d) : ∃ seeded modeled served,
    Phased (.ofDocument doc) disk seeded modeled served (extraction (.ofDocument doc) disk) ∧
      Rendered (.ofDocument doc) disk (extraction (.ofDocument doc) disk) d := by
  obtain ⟨seeded, modeled, served, d₀, _, _, hphased, heq, hcompose⟩ := h.extracted
  rw [← heq]
  exact ⟨seeded, modeled, served, hphased, .of_composition hphased hcompose⟩

theorem composed (h : Generates doc disk d) : ∃ seeded modeled served d₀,
    Phased (.ofDocument doc) disk seeded modeled served d₀ ∧
      Brings (composedFragments (.ofDocument doc) d₀) d₀ d := by
  obtain ⟨seeded, modeled, served, d₀, _, _, hphased, -, hcompose⟩ := h.extracted
  exact ⟨seeded, modeled, served, d₀, hphased, (Pipeline.brings_composition hcompose).1⟩

end Generates

namespace Rendered

variable {t : TypeEntry} {file n : String}

theorem fragment_of_type (h : Rendered cat disk d₀ d) (ht : d.types.get? n = some t)
    (hr : t.isRendered = true) (hf : t.file = some file) : ∃ group f, t ∈ group ∧
      Render.typeFragment d.types group = .ok f ∧ f ∈ d.files.fragments file := by
  have hmem : t ∈ (d.types.byFile.get? file).getD [] := by
    refine TypeRegistry.mem_byFile.2 ⟨TypeRegistry.mem_toList.2 ⟨n, ht⟩, hr, ?_⟩
    rw [hf, Option.getD_some]
  cases hgroup : d.types.byFile.get? file with
  | none => simp [hgroup] at hmem
  | some group =>
    rw [hgroup, Option.getD_some] at hmem
    have hentry : (file, group) ∈ d.types.byFile.entries := OrderedMap.mem_entries_iff.2 hgroup
    obtain ⟨f, hfragment⟩ := h.grouped _ hentry
    exact ⟨group, f, hmem, hfragment, h.fragments.2 (.types ⟨_, hentry, rfl, hfragment⟩)⟩

theorem exported_of_type (h : Rendered cat disk d₀ d) (ht : d.types.get? n = some t)
    (hr : t.isRendered = true) (hf : t.file = some file) : d.files.Exported file t.name := by
  obtain ⟨group, f, hmem, hfragment, hmemf⟩ := h.fragment_of_type ht hr hf
  exact FileSet.exported_of_fragment hmemf (Render.exports_typeFragment hfragment hmem)

theorem exported_of_declares (h : Rendered cat disk d₀ d) (hfiled : Filed d.types)
    (hd : d.types.Declares file n) (hn : Coherent d.types) : d.files.Exported file n := by
  obtain ⟨t, ht, hf⟩ := hd
  have hr : t.isRendered = true := by
    rcases hfiled ht with hnone | hr
    · rw [hnone] at hf
      cases hf
    · exact hr
  have hexported := h.exported_of_type ht hr hf
  rwa [hn.named ht] at hexported

theorem imports_of_type {target m : String} (h : Rendered cat disk d₀ d)
    (ht : d.types.get? n = some t) (hr : t.isRendered = true) (hf : t.file = some file)
    (hi : t.imports.Takes target m) (hne : target ≠ file) :
    d.files.ImportsFrom file target m := by
  obtain ⟨group, f, hmem, hfragment, hmemf⟩ := h.fragment_of_type ht hr hf
  refine ⟨hne, SourceFile.takes_importsOf.2 ⟨f, hmemf, ?_⟩⟩
  exact (Render.takes_typeFragment hfragment).2 ⟨t, hmem, hi⟩

theorem imports_of_payload {target m : String} (h : Rendered cat disk d₀ d)
    (ht : t ∈ d₀.types.toList.filter Payload.isShaped) (hf : t.file = some file)
    (hi : (Payload.render d₀ t).2.Takes target m) (hne : target ≠ file) :
    d.files.ImportsFrom file target m := by
  have hrender := Payload.render_congr (t := t) h.types h.operations
  have hshapes : Payload.Shapes d file (Payload.fragment d t) := by
    refine ⟨t, ?_, ?_, rfl⟩
    · rw [h.types]
      exact ht
    · rw [hf, Option.getD_some]
  refine ⟨hne, SourceFile.takes_importsOf.2 ⟨_, h.fragments.2 (.payload hshapes), ?_⟩⟩
  rw [Payload.fragment, hrender]
  exact hi

end Rendered

namespace Render

theorem exists_typeFragment {r : TypeRegistry} {group : List TypeEntry}
    (h : ∀ t ∈ group, ∃ lines, typeLines r t = .ok lines) :
    ∃ f, typeFragment r group = .ok f := by
  obtain ⟨blocks, hblocks⟩ := exists_mapM_ok
    (l := group.mergeSort fun a b => a.siblingCount ≤ b.siblingCount)
    (f := fun t => (typeLines r t).map (String.intercalate "\n")) fun t ht => by
      obtain ⟨lines, hlines⟩ := h t (List.mem_mergeSort.1 ht)
      exact ⟨_, by rw [hlines]; rfl⟩
  unfold typeFragment
  simp only [hblocks]
  exact ⟨_, rfl⟩

theorem composeTypes_succeeds {s : Draft}
    (h : ∀ e ∈ s.types.byFile.entries, ∃ f, typeFragment s.types e.2 = .ok f) :
    Succeeds composeTypes s := by
  refine .get_bind (.bind (.forIn fun e he _ m => ?_) fun _ m _ => .pure _ m)
  obtain ⟨f, hf⟩ := h e he
  refine ⟨⟨⟩, { m with files := m.files.add e.1 f }, Yields.lift_bind.2 ⟨f, hf, ?_⟩⟩
  exact Yields.modify_bind.2 (Yields.pure_iff.2 ⟨rfl, rfl⟩)

theorem composeEndpoints_succeeds (s : Draft) : Succeeds composeEndpoints s := by
  refine .get_bind (.bind (.forIn fun e _ count m => ?_) fun count m _ => .pure count m)
  cases endpoint? e with
  | none => exact ⟨count, m, Yields.pure_iff.2 ⟨rfl, rfl⟩⟩
  | some text =>
    exact ⟨count + 1, _, Yields.modify_bind.2 (Yields.pure_iff.2 ⟨rfl, rfl⟩)⟩

end Render

theorem Pipeline.composeRoutes_succeeds {hook : Routes.Hook} {lines : List String}
    (h : Routes.compose cat.config hook cat.routes = .ok lines) (s : Draft) :
    Succeeds (composeRoutes cat hook) s := by
  refine .lift_bind h ?_
  split
  · exact .bind (.modify _ s) fun _ m _ => .pure _ m
  · exact .pure _ s

theorem Pipeline.composition_succeeds (cat : Catalog) (r : Run)
    (htypes : ∀ e ∈ r.draft.types.byFile.entries, ∃ f,
      Render.typeFragment r.draft.types e.2 = .ok f)
    (hroutes : cat.config.routesEnabled = true →
      ∃ lines, Routes.compose cat.config id cat.routes = .ok lines) :
    ∃ d steps, r.takeSteps (composition cat id) = (.ok (), ⟨d, steps⟩) := by
  have hcompose : Succeeds (do
      let _ ← Render.composeTypes
      let _ ← Render.composeEndpoints
      let n := (← get).files.size
      Pure.pure s!"{n} files" : Drafting String) r.draft := by
    refine .bind (Render.composeTypes_succeeds htypes) ?_
    intro _ m _
    refine .bind (Render.composeEndpoints_succeeds m) ?_
    intro _ m' _
    exact .get_bind (.pure _ m')
  obtain ⟨detail, m, hcompose⟩ := hcompose
  rw [composition, List.singleton_append]
  by_cases henabled : cat.config.routesEnabled = true
  · obtain ⟨lines, hlines⟩ := hroutes henabled
    obtain ⟨n, d, hroute⟩ := composeRoutes_succeeds hlines m
    rw [if_pos henabled]
    refine ⟨d, Run.takeSteps_ok_iff.2
      (.step ⟨detail, hcompose⟩ (.step ⟨s!"{n} constants", ?_⟩ .done))⟩
    exact Yields.bind_iff.2 ⟨n, d, hroute, Yields.pure_iff.2 ⟨rfl, rfl⟩⟩
  · rw [if_neg henabled]
    exact ⟨m, Run.takeSteps_ok_iff.2 (.step ⟨detail, hcompose⟩ .done)⟩

/-- A checked document is generated as soon as its catalog is extracted and every type and route of
it can be written. -/
theorem exists_generates {doc : Document} (hchecked : doc.verdict.hasErrors = false)
    (hextract : Extracts (.ofDocument doc) disk d₀)
    (htypes : ∀ t ∈ d₀.types.toList, t.isRendered = true →
      (Render.typeLines d₀.types t).isOk = true)
    (hroutes : doc.config.routesEnabled = true →
      (Routes.compose doc.config id doc.routes).isOk = true) :
    ∃ d, Generates doc disk d := by
  obtain ⟨taken, hextract⟩ := hextract
  obtain ⟨d, steps, hcompose⟩ := Pipeline.composition_succeeds (.ofDocument doc)
    ⟨d₀, taken⟩ (fun e he => Render.exists_typeFragment fun t ht => by
      have hgroup := OrderedMap.mem_entries_iff.1 he
      obtain ⟨hmem, hrendered, -⟩ := TypeRegistry.mem_byFile.1 (by rw [hgroup]; exact ht)
      exact exists_of_isOk (htypes t hmem hrendered))
    fun henabled => exists_of_isOk (hroutes henabled)
  exact ⟨d, hchecked, Pipeline.build_ok_iff.2 ⟨d₀, taken, hextract, steps, hcompose⟩⟩

def Metadata.Document.isGenerated (doc : Document) : Bool :=
  !doc.verdict.hasErrors &&
    (({} : Run).takeSteps (Pipeline.extraction (.ofDocument doc) {})).1.isOk &&
    ((extraction (.ofDocument doc) {}).types.toList.all fun t =>
      !t.isRendered || (Render.typeLines (extraction (.ofDocument doc) {}).types t).isOk) &&
    (!doc.config.routesEnabled || (Routes.compose doc.config id doc.routes).isOk)

theorem exists_generates_of_isGenerated {doc : Document} (h : doc.isGenerated = true) :
    ∃ d, Generates doc {} d ∧ d.types = (extraction (.ofDocument doc) {}).types := by
  simp only [Document.isGenerated, Bool.and_eq_true, Bool.not_eq_true', List.all_eq_true,
    Bool.or_eq_true] at h
  obtain ⟨⟨⟨hchecked, hextract⟩, htypes⟩, hroutes⟩ := h
  obtain ⟨d, hd⟩ := exists_generates hchecked (extracts_extraction hextract)
    (fun t ht hrendered => (htypes t ht).resolve_left (by simp [hrendered]))
    fun henabled => hroutes.resolve_left (by simp [henabled])
  obtain ⟨_, _, _, -, hr⟩ := hd.rendered
  exact ⟨d, hd, hr.types⟩

end HydraClient
