import HydraClient.Proofs.Generation

/-! # Hidden parts

Fields that can neither be read nor written, and operations that are not exposed, do not influence
what is generated. A document without them is extracted by the same work, rule by rule, so two
documents that differ only in hidden parts have the same run.
-/
namespace HydraClient

open Metadata

namespace Metadata

def Exposure.visible (e : Exposure) : Exposure :=
  { e with operations := e.operations.filter (·.exposed) }

def ClassDecl.visible (c : ClassDecl) : ClassDecl :=
  { c with
    fields := c.fields.filter (·.isExposed)
    exposures := c.exposures.map Exposure.visible }

def Document.visible (d : Document) : Document :=
  { d with classes := d.classes.map ClassDecl.visible }

@[simp] theorem ClassDecl.isAddressable_visible (c : ClassDecl) :
    c.visible.isAddressable = c.isAddressable := by
  rw [isAddressable, isAddressable, visible, List.isEmpty_map]

@[simp] theorem ClassDecl.shortName_visible (c : ClassDecl) :
    c.visible.shortName = c.shortName := by
  rw [shortName, shortName, visible, List.head?_map, Option.map_map]
  rfl

end Metadata

namespace OrderedMap

variable {α β γ : Type} [DecidableEq α]

theorem insert_mapValues (f : β → γ) (m : OrderedMap α β) (k : α) (v : β) :
    (m.mapValues fun _ => f).insert k (f v) = (m.insert k v).mapValues fun _ => f := by
  apply ext
  by_cases h : k ∈ m.keys
  · rw [insert, insert, dif_pos (by simpa using h), dif_pos h]
    simp only [replace, mapValues, List.map_map]
    refine List.map_congr_left fun e _ => ?_
    by_cases he : e.1 = k <;> simp [he]
  · rw [insert, insert, dif_neg (by simpa using h), dif_neg h]
    simp [push, mapValues]

theorem ofList_map (f : β → γ) (l : List (α × β)) :
    ofList (l.map fun e => (e.1, f e.2)) = (ofList l).mapValues fun _ => f := by
  have hfold : ∀ m : OrderedMap α β,
      (l.map fun e => (e.1, f e.2)).foldl (fun m e => m.insert e.1 e.2) (m.mapValues fun _ => f) =
        (l.foldl (fun m e => m.insert e.1 e.2) m).mapValues fun _ => f := by
    induction l with
    | nil => exact fun m => rfl
    | cons e rest ih =>
      intro m
      rw [List.map_cons, List.foldl_cons, List.foldl_cons, insert_mapValues, ih]
  exact hfold empty

end OrderedMap

namespace Catalog

def visible (c : Catalog) : Catalog :=
  { c with classes := c.classes.mapValues fun _ => ClassDecl.visible }

theorem ofDocument_visible (d : Document) : ofDocument d.visible = (ofDocument d).visible := by
  have hclasses : (d.classes.map ClassDecl.visible).map (fun c => (c.className, c)) =
      (d.classes.map fun c => (c.className, c)).map fun e => (e.1, e.2.visible) := by
    rw [List.map_map, List.map_map]
    rfl
  rw [ofDocument, visible, ofDocument, Document.visible]
  simp only [hclasses, OrderedMap.ofList_map]

variable {cat : Catalog} {name : String}

theorem config_visible : cat.visible.config = cat.config := rfl

theorem routes_visible : cat.visible.routes = cat.routes := rfl

theorem class?_visible : cat.visible.class? name = (cat.class? name).map ClassDecl.visible :=
  OrderedMap.get?_mapValues _ cat.classes _

theorem classify_visible : cat.visible.classify name = cat.classify name := by
  have hcontains : cat.visible.classes.contains (ClassName.relative name) =
      cat.classes.contains (ClassName.relative name) := by
    rw [Bool.eq_iff_iff, OrderedMap.contains_iff, OrderedMap.contains_iff, visible,
      OrderedMap.keys_mapValues]
  rw [classify, classify, hcontains]
  rfl

theorem resources_visible : cat.visible.resources = cat.resources := by
  rw [resources, resources, visible, OrderedMap.mapValues, List.filter_map, List.map_map]
  simp [Function.comp_def]

end Catalog

theorem forM_filter {m : Type → Type} [Monad m] [LawfulMonad m] {α : Type} {l : List α}
    {p : α → Bool} {f : α → m Unit} (h : ∀ a ∈ l, p a = false → f a = pure ()) :
    (l.filter p).forM f = l.forM f := by
  induction l with
  | nil => rfl
  | cons a rest ih =>
    have hrest := ih fun b hb => h b (List.mem_cons_of_mem _ hb)
    rw [List.forM_eq_forM] at hrest ⊢
    cases hp : p a with
    | true => rw [List.filter_cons_of_pos hp, List.forM_cons, List.forM_cons, hrest]
    | false =>
      rw [List.filter_cons_of_neg (by simp [hp]), hrest, List.forM_cons, h a (by simp) hp,
        pure_bind]

namespace Model

variable {cat : Catalog} {visit : String → Drafting TypeEntry} {owner : TypeEntry} {field : Field}

theorem nameCandidates_visible (c : Config) (shape : ClassDecl) :
    nameCandidates c shape.visible = nameCandidates c shape := by
  rw [nameCandidates, nameCandidates, ClassDecl.shortName_visible]
  rfl

theorem bare_visible (name className : String) (shape : ClassDecl) :
    bare name className shape.visible = bare name className shape := by
  rw [bare, bare, ClassDecl.isAddressable_visible]
  rfl

theorem refer_visible (className : String) (unknown : Failure) :
    refer cat.visible visit owner className unknown = refer cat visit owner className unknown := by
  rw [refer, refer, Catalog.classify_visible]
  rfl

theorem element_visible (value : FieldType) (p : Property) :
    element cat.visible visit owner field value p = element cat visit owner field value p := by
  unfold element
  simp only [refer_visible]

theorem applyClass_visible (c : String) (p : Property) :
    applyClass cat.visible visit owner field c p = applyClass cat visit owner field c p := by
  unfold applyClass
  simp only [refer_visible]
  rfl

theorem applyType_visible :
    applyType cat.visible visit owner field = applyType cat visit owner field := by
  funext p t
  unfold applyType
  simp only [element_visible, applyClass_visible]

theorem extractField_visible (className : String) (parent : Option String) :
    extractField cat.visible visit owner className parent =
      extractField cat visit owner className parent := by
  funext field
  unfold extractField buildProperty
  simp only [applyType_visible]

theorem extractField_of_hidden {className : String} {parent : Option String}
    (h : field.isExposed = false) :
    extractField cat visit owner className parent field = pure () := by
  rw [extractField, h]
  rfl

theorem extractParent_visible (name : String) (shape : ClassDecl) :
    extractParent cat.visible visit name shape.visible = extractParent cat visit name shape := by
  unfold extractParent
  simp only [Catalog.classify_visible, ClassDecl.visible]

theorem extractNew_visible (className : String) :
    extractNew cat.visible visit className = extractNew cat visit className := by
  unfold extractNew
  rw [Catalog.class?_visible]
  cases cat.class? className with
  | none => rfl
  | some shape =>
    have hfields : ∀ (owner : TypeEntry) (parent : Option String),
        shape.visible.fields.forM (extractField cat.visible visit owner className parent) =
          shape.fields.forM (extractField cat visit owner className parent) := by
      intro owner parent
      rw [extractField_visible]
      exact forM_filter fun field _ hhidden => extractField_of_hidden hhidden
    simp only [Option.map_some, nameCandidates_visible, bare_visible, extractParent_visible,
      ClassDecl.isAddressable_visible, hfields]
    rfl

theorem extractWithin_visible (depth : Nat) :
    extractWithin cat.visible depth = extractWithin cat depth := by
  induction depth with
  | zero => rfl
  | succ depth ih =>
    funext className
    rw [extractWithin, extractWithin, ih, extractNew_visible]

theorem extract_visible : extract cat.visible = extract cat := by
  have hdepth : depthBound cat.visible = depthBound cat := by
    simp [depthBound, Catalog.visible, OrderedMap.size, OrderedMap.mapValues]
  funext className
  rw [extract, extract, hdepth, extractWithin_visible]

end Model

namespace Operations

variable {cat : Catalog} {entry : EndpointEntry} {resource : TypeEntry} {e : Exposure}
  {o : Operation}

theorem ioType_visible (className : Option String) :
    ioType cat.visible className resource = ioType cat className resource := by
  unfold ioType
  rw [Model.extract_visible]

theorem buildCall_visible :
    buildCall cat.visible entry resource e.visible o = buildCall cat entry resource e o := by
  unfold buildCall
  simp only [ioType_visible]
  rfl

theorem extractOperation_visible :
    extractOperation cat.visible entry resource e.visible =
      extractOperation cat entry resource e := by
  funext o
  unfold extractOperation
  rw [buildCall_visible]
  rfl

theorem extractOperation_of_hidden (h : o.exposed = false) :
    extractOperation cat entry resource e o = pure () := by
  rw [extractOperation, h]
  rfl

theorem extractExposure_visible :
    extractExposure cat.visible entry resource e.visible =
      extractExposure cat entry resource e := by
  have hoperations : e.visible.operations.forM
      (extractOperation cat.visible entry resource e.visible) =
        e.operations.forM (extractOperation cat entry resource e) := by
    rw [extractOperation_visible]
    exact forM_filter fun o _ hhidden => extractOperation_of_hidden hhidden
  rw [extractExposure, extractExposure, hoperations]
  rfl

theorem extractResource_visible (className : String) :
    extractResource cat.visible className = extractResource cat className := by
  unfold extractResource
  rw [Catalog.class?_visible, Model.extract_visible]
  cases cat.class? className with
  | none => rfl
  | some shape =>
    have hexposures : ∀ (entry : EndpointEntry) (resource : TypeEntry),
        shape.visible.exposures.forM (extractExposure cat.visible entry resource) =
          shape.exposures.forM (extractExposure cat entry resource) := by
      intro entry resource
      rw [ClassDecl.visible, List.forM_eq_forM, List.forM_map]
      simp only [extractExposure_visible]
    simp only [Option.map_some, hexposures]

end Operations

/-- A report but for what the checks of the document say: their step and their warnings. -/
def Report.unchecked (r : Report) : Report := { r with warnings := [], steps := r.steps.tail }

namespace Pipeline

variable {cat : Catalog} {d d' : Document} {output : Option FilePath} {o : Options} {disk : Disk}

theorem extraction_visible : extraction cat.visible disk = extraction cat disk := by
  have hmodels : Model.extractAll cat.visible = Model.extractAll cat := by
    rw [Model.extractAll, Model.extractAll, Catalog.resources_visible, Model.extract_visible,
      Catalog.config_visible]
  have hoperations : Operations.extractAll cat.visible = Operations.extractAll cat := by
    rw [Operations.extractAll, Operations.extractAll, Catalog.resources_visible,
      funext Operations.extractResource_visible, Catalog.config_visible]
  unfold extraction
  rw [hmodels, hoperations, Catalog.config_visible]

theorem composition_visible {hook : Routes.Hook} :
    composition cat.visible hook = composition cat hook := by
  unfold composition composeRoutes
  rw [Catalog.config_visible, Catalog.routes_visible]

theorem build_visible {hooks : Hooks} : build cat.visible disk hooks = build cat disk hooks := by
  unfold build
  rw [extraction_visible, composition_visible]

/-- Documents without errors that are built alike are run alike. -/
theorem generate_congr (h : d.verdict.hasErrors = false) (h' : d'.verdict.hasErrors = false)
    (hconfig : d.config = d'.config)
    (hbuild : build (.ofDocument d) disk o.hooks = build (.ofDocument d') disk o.hooks) :
    (generate d output o disk).1 = (generate d' output o disk).1 ∧
      (generate d output o disk).2.map Report.unchecked =
        (generate d' output o disk).2.map Report.unchecked := by
  have herrors := hasErrors_eq_false_iff.1 h
  have herrors' := hasErrors_eq_false_iff.1 h'
  unfold generate
  simp only [h, h', hbuild, hconfig, herrors, herrors', Bool.false_eq_true, if_false]
  rcases build (.ofDocument d') disk o.hooks with ⟨f | _, r⟩
  · dsimp only
    cases f.diagnostic? with
    | none => exact ⟨rfl, rfl⟩
    | some diagnostic => exact ⟨rfl, rfl⟩
  · unfold deliver
    dsimp only
    cases (o.fragments r.draft).unplaced? with
    | some place => exact ⟨rfl, rfl⟩
    | none => rcases Sync.synchronize _ disk _ with ⟨after, f | sync⟩ <;> exact ⟨rfl, rfl⟩

end Pipeline

/-- Two documents without errors that differ only in hidden parts are built alike, with the same
failure or the same files, and leave the same disk and the same report but for what the checks
say. -/
theorem hidden_parts_unseen {d d' : Document} (h : d.verdict.hasErrors = false)
    (h' : d'.verdict.hasErrors = false) (hvisible : d.visible = d'.visible)
    (output : Option FilePath) (o : Options) (disk : Disk) :
    Pipeline.build (.ofDocument d) disk o.hooks = Pipeline.build (.ofDocument d') disk o.hooks ∧
      (Pipeline.generate d output o disk).1 = (Pipeline.generate d' output o disk).1 ∧
      (Pipeline.generate d output o disk).2.map Report.unchecked =
        (Pipeline.generate d' output o disk).2.map Report.unchecked := by
  have hbuild : Pipeline.build (.ofDocument d) disk o.hooks =
      Pipeline.build (.ofDocument d') disk o.hooks := by
    rw [← Pipeline.build_visible, ← Catalog.ofDocument_visible, hvisible,
      Catalog.ofDocument_visible, Pipeline.build_visible]
  have hconfig : d.config = d'.config :=
    (congrArg Document.config hvisible : d.visible.config = d'.visible.config)
  exact ⟨hbuild, Pipeline.generate_congr h h' hconfig hbuild⟩

def bookWith (fields : List Field) (operations : List Operation) : Document where
  classes := [{
    className := "App\\Entity\\Book"
    fields := { name := "title", types := [{ builtin := "string" }] } :: fields
    exposures := [{
      shortName := "Book"
      operations := { type := some "GetCollection" } :: operations }] }]

/-- A field of a class that nobody describes. -/
def secretField : Field where
  name := "vault"
  types := [{ builtin := "object", className := some "App\\Security\\Vault" }]
  readable := false
  writable := false

def secretOperation : Operation where
  type := some "Post"
  method := "POST"
  input := some "App\\Security\\Key"
  exposed := false

/-- The book is generated as if its secrets were not there, though either of them would stop the run
if it were not hidden. -/
theorem secrets_of_book_unseen :
    (bookWith [secretField] [secretOperation]).verdict.hasErrors = false ∧
      (bookWith [] []).verdict.hasErrors = false ∧
      (bookWith [secretField] [secretOperation]).visible = (bookWith [] []).visible ∧
      (bookWith [secretField] [secretOperation]).isGenerated = true ∧
      (bookWith [{ secretField with readable := true }] []).isGenerated = false ∧
      (bookWith [] [{ secretOperation with exposed := true }]).isGenerated = false ∧
      let o : Options := { clock := .ofSeconds 0 }
      Pipeline.build (.ofDocument (bookWith [secretField] [secretOperation])) {} o.hooks =
          Pipeline.build (.ofDocument (bookWith [] [])) {} o.hooks ∧
        (Pipeline.generate (bookWith [secretField] [secretOperation]) none o {}).1 =
          (Pipeline.generate (bookWith [] []) none o {}).1 ∧
        (Pipeline.generate (bookWith [secretField] [secretOperation]) none o {}).2.map
            Report.unchecked =
          (Pipeline.generate (bookWith [] []) none o {}).2.map Report.unchecked := by
  have hsecret : (bookWith [secretField] [secretOperation]).verdict.hasErrors = false := by
    decide +kernel
  have hplain : (bookWith [] []).verdict.hasErrors = false := by decide +kernel
  have hvisible : (bookWith [secretField] [secretOperation]).visible = (bookWith [] []).visible :=
    rfl
  exact ⟨hsecret, hplain, hvisible, by decide +kernel, by decide +kernel, by decide +kernel,
    hidden_parts_unseen hsecret hplain hvisible none { clock := .ofSeconds 0 } {}⟩

end HydraClient
