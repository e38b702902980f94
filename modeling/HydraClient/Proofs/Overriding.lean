import HydraClient.Proofs.Folding
import HydraClient.Proofs.Hidden

/-! # Operations declared more than once

The operations of a class are taken up on whatever was registered before. When that succeeds, every
name of a binding has the call of the last exposed operation that goes by it, also if the class was
extracted before and if that broke off. Operations that are not exposed leave no trace at all.
-/
namespace HydraClient

open Metadata TypeRegistry Model

namespace Advancing

variable {α β : Type} {x : Drafting α} {f : α → Drafting β} {s s' : Draft} {a : α}

theorem pure (a : α) : Advancing (Pure.pure a) := fun _ => .pure fun _ hs => hs

theorem bind (hx : Advancing x) (hf : ∀ a, Advancing (f a)) : Advancing (x >>= f) :=
  fun d => (hx d).bind fun a => hf a d

theorem lift (e : Except Failure α) : Advancing (liftM e : Drafting α) :=
  fun _ => .lift (fun _ _ _ hs => hs) fun _ _ _ hs => hs

theorem persists (h : Advancing x) (hs : Coherent s.types) (hx : Yields x s a s') : Persists s s' :=
  (h s).ok (.refl hs) hx

theorem left (h : Advancing x) (hs : Coherent s.types) : Persists s (outcome x s).2 :=
  (h s).left (.refl hs)

theorem ends {P : Draft → Prop} {Q : α → Draft → Prop} (h : Advancing x)
    (hcoherent : ∀ {s}, P s → Coherent s.types)
    (hkeeps : ∀ {s s'}, P s → Persists s s' → P s')
    (hvalue : ∀ {s a s'}, Coherent s.types → Yields x s a s' → Q a s') :
    Ends P x (fun a s => P s ∧ Q a s) fun _ => P := by
  intro s hs
  have hleft := h.left (hcoherent hs)
  rcases hx : outcome x s with ⟨e | a, m⟩ <;> rw [hx] at hleft
  · exact hkeeps hs hleft
  · exact ⟨hkeeps hs hleft, hvalue (hcoherent hs) hx⟩

end Advancing

theorem Model.stores_of_extract {cat : Catalog} {s s' : Draft} {t : TypeEntry} {c : String}
    (hs : Coherent s.types) (h : Yields (extract cat c) s t s') : s'.types.Stores c t.name := by
  obtain ⟨hfound, hl⟩ := extract_finds c hs h
  obtain ⟨-, ht, hsource⟩ := (hfound.coherent hs).of_lookupSource hl
  exact ⟨t, ht, hsource⟩

namespace Operations

section Calls

variable {cat : Catalog} {entry : EndpointEntry} {resource t : TypeEntry} {e : Exposure}
  {o : Operation} {c : Call} {s s' : Draft}

theorem advancing_ioType (className? : Option String) :
    Advancing (ioType cat className? resource) := by
  unfold ioType
  split
  · exact .pure resource
  · split
    · exact .pure resource
    · exact advancing_extract _

theorem advancing_listParams : Advancing (listParams cat entry resource e o) := by
  refine fun d => .get_bind fun m hm => ?_
  dsimp only
  split
  · exact .throw fun s hs => hs ▸ hm
  · refine Ends.mono (.bind (advancing_register (c := listSource entry.source) ?_ d)
      fun _ => .pure fun s hs => hs) (fun s hs => hs ▸ hm) (fun _ _ h => h) fun _ _ h => h
    exact listType_source

theorem advancing_modifyEntry {f : EndpointEntry → EndpointEntry} {className : String}
    (hf : ∀ x, (f x).source = x.source ∧ (f x).bindings = x.bindings) :
    Advancing (Drafting.modifyEntry className f) :=
  fun _ => .modify fun _ hs => hs.modifyEntry hf

theorem addImport_own (x : EndpointEntry) (file : Option String) (n : String) :
    (x.addImport file n).source = x.source ∧ (x.addImport file n).bindings = x.bindings :=
    ⟨rfl, rfl⟩

theorem advancing_imports {className : String} (t t' : TypeEntry) :
    Advancing (Drafting.modifyEntry className fun x =>
      (x.addImport t.file t.name).addImport t'.file t'.name) := by
  refine advancing_modifyEntry fun x => ?_
  obtain ⟨hsource, hbindings⟩ := addImport_own x t.file t.name
  obtain ⟨hsource', hbindings'⟩ := addImport_own (x.addImport t.file t.name) t'.file t'.name
  exact ⟨hsource'.trans hsource, hbindings'.trans hbindings⟩

theorem advancing_buildCall : Advancing (buildCall cat entry resource e o) := by
  refine .bind (.lift _) fun k => .bind (advancing_ioType _) fun input =>
    .bind (advancing_ioType _) fun output => .bind (advancing_imports _ _) fun _ => ?_
  split
  · exact .bind (.bind advancing_listParams fun _ => .pure _) fun _ => .pure _
  · exact .bind (.pure _) fun _ => .pure _

theorem dealsIn_of_ioType {className? : Option String} (hs : Coherent s.types)
    (h : Yields (ioType cat className? resource) s t s') :
    DealsIn s'.types resource.name className? t.name := by
  cases className? with
  | none =>
    obtain ⟨rfl, -⟩ := Yields.pure_iff.1 h
    rfl
  | some c =>
    rw [dealsIn_some]
    unfold ioType at h
    by_cases hc : c = ""
    · simp only [if_pos hc] at h ⊢
      obtain ⟨rfl, -⟩ := Yields.pure_iff.1 h
      rfl
    · simp only [if_neg hc] at h ⊢
      exact stores_of_extract hs h

theorem describes_of_buildCall (hs : Coherent s.types)
    (h : Yields (buildCall cat entry resource e o) s c s') :
    Describes cat s'.types entry.source resource.name e o c := by
  obtain ⟨k, hk, h⟩ := Yields.lift_bind.1 h
  obtain ⟨input, m₁, hinput, h⟩ := Yields.bind_iff.1 h
  obtain ⟨output, m₂, houtput, h⟩ := Yields.bind_iff.1 h
  obtain ⟨_, m₃, himports, h⟩ := Yields.bind_iff.1 h
  have h₁ := (advancing_ioType _).persists hs hinput
  have h₂ := (advancing_ioType _).persists h₁.coherent houtput
  have h₃ := (advancing_imports _ _).persists h₂.coherent himports
  have hin := dealsIn_of_ioType hs hinput
  have hout := dealsIn_of_ioType h₁.coherent houtput
  have hkind : kind? o = some k := by simp [kind?, hk, Except.toOption]
  -- Names are taken when a type is extracted, and the registry grows until the call is made.
  have hdescribes : ∀ m, Persists m₃ m → Describes cat m.types entry.source resource.name e o
      (callOf cat.config entry.source e o k input output
        (if k = .list then some (listParamsName resource.name) else none)) := by
    intro m hm
    have hm₂ := h₃.trans hm
    exact ⟨k, input, output, hkind, hin.mono (h₂.trans hm₂).stores, hout.mono hm₂.stores, rfl⟩
  split at h
  · rename_i hlist
    obtain ⟨params, m, hparams, h⟩ := Yields.bind_iff.1 h
    obtain ⟨rfl, rfl⟩ := Yields.pure_iff.1 h
    obtain ⟨n, hn, rfl⟩ := Yields.map_iff.1 hparams
    obtain ⟨rfl, -⟩ := yields_listParams hn
    have := hdescribes s' (advancing_listParams.persists h₃.coherent hn)
    rwa [if_pos hlist] at this
  · rename_i hlist
    obtain ⟨params, m, hparams, h⟩ := Yields.bind_iff.1 h
    obtain ⟨rfl, rfl⟩ := Yields.pure_iff.1 h
    obtain ⟨rfl, rfl⟩ := Yields.pure_iff.1 hparams
    have := hdescribes s' (.refl h₃.coherent)
    rwa [if_neg hlist] at this

end Calls

/-- A class while its exposures are taken up, on top of what was bound to it before. -/
structure Running (cat : Catalog) (s₀ : Draft) (className resource : String)
    (before : OrderedMap String Binding) (opened : List Exposure)
    (made : List (Exposure × Operation)) (s : Draft) : Prop where
  coherent : Coherent s.types
  found : s.types.Stores className resource
  others : ∀ {c}, c ≠ className → s.bindings c = s₀.bindings c
  own : ∃ m, s.bindings className = some (className, m) ∧
    Folded cat s.types className resource before opened made m

def Attempted (cat : Catalog) (s₀ : Draft) (className resource : String)
    (before : OrderedMap String Binding) (es : List Exposure) (s : Draft) : Prop :=
  ∃ opened made, opened <+: es ∧ made <+: declared es ∧
    Running cat s₀ className resource before opened made s

section Class

variable {cat : Catalog} {s₀ s s' : Draft} {className resource : String}
  {before : OrderedMap String Binding} {opened es : List Exposure}
  {made : List (Exposure × Operation)} {e : Exposure} {o : Operation} {entry : EndpointEntry}
  {t : TypeEntry}

theorem declared_append (es es' : List Exposure) :
    declared (es ++ es') = declared es ++ declared es' := List.flatMap_append

theorem prefix_declared (h : opened <+: es) : declared opened <+: declared es := by
  obtain ⟨rest, rfl⟩ := h
  rw [declared_append]
  exact List.prefix_append _ _

namespace Running

theorem persists (h : Running cat s₀ className resource before opened made s)
    (hs : Persists s s') : Running cat s₀ className resource before opened made s' where
  coherent := hs.coherent
  found := hs.stores h.found
  others hc := (hs.bindings _).trans (h.others hc)
  own := by
    obtain ⟨m, hm, hfolded⟩ := h.own
    exact ⟨m, (hs.bindings className).trans hm, hfolded.mono hs.stores⟩

theorem modifyEntry {f : EndpointEntry → EndpointEntry}
    {g : OrderedMap String Binding → OrderedMap String Binding} {opened' : List Exposure}
    {made' : List (Exposure × Operation)}
    (h : Running cat s₀ className resource before opened made s)
    (hf : ∀ x, (f x).source = x.source ∧ (f x).bindings = g x.bindings)
    (hg : ∀ m, Folded cat s.types className resource before opened made m →
      Folded cat s.types className resource before opened' made' (g m)) :
    Running cat s₀ className resource before opened' made'
      { s with operations := s.operations.modify className f } where
  coherent := h.coherent
  found := h.found
  others {c} hc := by
    rw [← h.others hc]
    simp only [Draft.bindings, OrderedMap.get?_modify, if_neg hc]
  own := by
    obtain ⟨m, hm, hfolded⟩ := h.own
    obtain ⟨x, hx, hpair⟩ := Option.map_eq_some_iff.1 hm
    obtain ⟨rfl, rfl⟩ := Prod.mk.inj hpair
    refine ⟨g x.bindings, ?_, hg _ hfolded⟩
    simp only [Draft.bindings, OrderedMap.get?_modify, if_true, hx, Option.map_some]
    rw [(hf x).1, (hf x).2]

theorem openBinding (h : Running cat s₀ className t.name before opened made s) :
    Running cat s₀ className t.name before (opened ++ [e]) made
      { s with operations := s.operations.modify className fun x =>
        if x.bindings.contains (bindingSymbol className e) then x
        else { x with
          bindings := x.bindings.insert (bindingSymbol className e)
            (bareBinding className t e) } } := by
  refine h.modifyEntry (g := fun m =>
    if m.contains (bindingSymbol className e) then m
    else m.insert (bindingSymbol className e) (bareBinding className t e)) (fun x => ?_)
    fun m hm => ?_
  · split <;> exact ⟨rfl, rfl⟩
  · split
    · rename_i hopen
      exact hm.again (OrderedMap.contains_iff.1 hopen)
    · rename_i hfresh
      exact hm.insert rfl rfl fun hmem => hfresh (OrderedMap.contains_iff.2 hmem)

theorem withCall {c : Call} (h : Running cat s₀ className resource before opened made s)
    (he : e ∈ opened) (hc : Describes cat s.types className resource e o c) :
    Running cat s₀ className resource before opened (made ++ [(e, o)])
      { s with operations :=
        s.operations.modify className (Operations.withCall (bindingSymbol className e) c) } :=
  h.modifyEntry (fun _ => ⟨rfl, rfl⟩) fun _ hm => hm.call he hc

end Running

variable (hentry : entry.source = className)
include hentry

theorem ends_extractOperation (he : e ∈ opened) :
    Ends (Running cat s₀ className t.name before opened made)
      (extractOperation cat entry t e o)
      (fun _ => Running cat s₀ className t.name before opened
        (made ++ ([o].filter (·.exposed)).map fun o => (e, o)))
      (fun _ => Running cat s₀ className t.name before opened made) := by
  cases ho : o.exposed with
  | false =>
    rw [extractOperation_of_hidden ho]
    refine .pure fun s hs => ?_
    simpa [ho] using hs
  | true =>
    have hbuild : Ends (Running cat s₀ className t.name before opened made)
        (buildCall cat entry t e o)
        (fun c s => Running cat s₀ className t.name before opened made s ∧
          Describes cat s.types className t.name e o c)
        (fun _ => Running cat s₀ className t.name before opened made) :=
      advancing_buildCall.ends (fun hs => hs.coherent) (fun hs hm => hs.persists hm)
        fun hs hx => hentry ▸ describes_of_buildCall hs hx
    unfold extractOperation
    rw [if_pos ho]
    refine hbuild.bind fun c => .modify fun s hs => ?_
    have hdone : ([o].filter (·.exposed)).map (fun o => (e, o)) = [(e, o)] := by simp [ho]
    rw [hdone, hentry]
    exact hs.1.withCall he hs.2

theorem ends_extractExposure {rest : List Exposure} (hes : es = opened ++ e :: rest) :
    Ends (Running cat s₀ className t.name before opened (declared opened))
      (extractExposure cat entry t e)
      (fun _ => Running cat s₀ className t.name before (opened ++ [e]) (declared (opened ++ [e])))
      (fun _ => Attempted cat s₀ className t.name before es) := by
  have hopened : opened ++ [e] <+: es := ⟨rest, by simp [hes]⟩
  have hopen : Ends (Running cat s₀ className t.name before opened (declared opened))
      (openBinding entry.source t e)
      (fun _ => Running cat s₀ className t.name before (opened ++ [e]) (declared opened))
      (fun _ => Attempted cat s₀ className t.name before es) := by
    rw [hentry]
    exact .modify fun s hs => hs.openBinding
  have hloop := Ends.forM (l := e.operations)
    (I := fun done => Running cat s₀ className t.name before (opened ++ [e])
      (declared opened ++ (done.filter (·.exposed)).map fun o => (e, o)))
    (E := fun _ => Attempted cat s₀ className t.name before es)
    (f := extractOperation cat entry t e) fun done o after hsplit => by
      refine (ends_extractOperation hentry (by simp)).mono (fun s hs => hs) (fun _ s hs => ?_)
        fun _ s hs => ⟨_, _, hopened, ?_, hs⟩
      · simpa using hs
      · refine List.IsPrefix.trans ?_ (prefix_declared hopened)
        rw [declared_append]
        refine List.prefix_append_right_inj _ |>.2 ?_
        simp [declared, hsplit]
  refine hopen.bind fun _ => hloop.mono (fun s hs => by simpa using hs) (fun _ s hs => ?_)
    fun _ _ h => h
  simpa [declared] using hs

theorem ends_exposures :
    Ends (Running cat s₀ className t.name before [] [])
      (es.forM (extractExposure cat entry t))
      (fun _ => Running cat s₀ className t.name before es (declared es))
      (fun _ => Attempted cat s₀ className t.name before es) :=
  .forM (I := fun done => Running cat s₀ className t.name before done (declared done))
    fun _ _ _ hsplit => ends_extractExposure hentry hsplit

end Class

structure Known (cat : Catalog) (s : Draft) : Prop where
  coherent : Coherent s.types
  begun : ∀ {c source m}, s.bindings c = some (source, m) → source = c ∧
    ∀ shape, cat.class? c = some shape → Begun c shape.exposures m

/-- Drafts that come about by asking for types and taking up the operations of classes, in any order
and any number of times, where each of these may break off. -/
inductive Prepared (cat : Catalog) : Draft → Prop where
  | start {s : Draft} : Coherent s.types → s.operations = .empty → Prepared cat s
  | request {s : Draft} (q : Request) : Prepared cat s → Prepared cat (outcome (q.work cat) s).2
  | serve {s : Draft} (className : String) :
      Prepared cat s → Prepared cat (outcome (extractResource cat className) s).2

section Classes

variable {cat : Catalog} {s₀ s s' : Draft} {className resource : String} {shape : ClassDecl}
  {before : OrderedMap String Binding} {t : TypeEntry}

theorem advancing_request (q : Request) : Advancing (q.work cat) := by
  cases q with
  | extract c => exact advancing_extract c
  | resolveEnum c file => exact advancing_resolveEnum c file

theorem Known.persists (h : Known cat s) (hs : Persists s s') : Known cat s' :=
  ⟨hs.coherent, fun hm => h.begun ((hs.bindings _).symm.trans hm)⟩

theorem Known.attempted (h : Known cat s₀) (hc : cat.class? className = some shape)
    (hbefore : Begun className shape.exposures before)
    (hs : Attempted cat s₀ className resource before shape.exposures s) : Known cat s := by
  obtain ⟨opened, made, hopened, hmade, hrunning⟩ := hs
  refine ⟨hrunning.coherent, fun {c source m} hm => ?_⟩
  by_cases hcn : c = className
  · subst hcn
    obtain ⟨m', hm', hfolded⟩ := hrunning.own
    obtain ⟨rfl, rfl⟩ := Prod.mk.inj (Option.some.inj (hm'.symm.trans hm))
    refine ⟨rfl, fun shape' hc' => ?_⟩
    obtain rfl := Option.some.inj (hc.symm.trans hc')
    exact hfolded.begun hbefore hopened hmade
  · exact h.begun ((hrunning.others hcn).symm.trans hm)

theorem exists_running (h : Known cat s) (hc : cat.class? className = some shape)
    (ht : s.types.Stores className t.name) (file : String) :
    (s.operations.getOrCreate className t.name file).2.source = className ∧
    ∃ before, Begun className shape.exposures before ∧
      Running cat s className t.name before [] []
        { s with operations := (s.operations.getOrCreate className t.name file).1 } := by
  unfold OperationRegistry.getOrCreate
  cases hget : s.operations.get? className with
  | none =>
    dsimp only
    refine ⟨rfl, .empty, begun_empty _ _, h.coherent, ht, fun {c} hne => ?_, .empty, ?_, ?_⟩
    · simp only [Draft.bindings, OrderedMap.get?_insert, if_neg hne]
    · simp only [Draft.bindings, OrderedMap.get?_insert, if_true, Option.map_some]
    · exact .start fun hb => ((begun_empty className shape.exposures).bindings hb).1
  | some x =>
    dsimp only
    have hbound : s.bindings className = some (x.source, x.bindings) := by
      simp only [Draft.bindings, hget, Option.map_some]
    obtain ⟨hsource, hbegun⟩ := h.begun hbound
    rw [hsource] at hbound
    refine ⟨hsource, x.bindings, hbegun shape hc, h.coherent, ht, fun _ => rfl, x.bindings,
      hbound, ?_⟩
    exact .start fun hb => ((hbegun shape hc).bindings hb).1

theorem ends_extractResource (h : Known cat s₀) (hc : cat.class? className = some shape) :
    Ends (· = s₀) (extractResource cat className)
      (fun _ s => ∃ d resource before, Known cat d ∧ Begun className shape.exposures before ∧
        Running cat d className resource before shape.exposures (declared shape.exposures) s)
      (fun _ => Known cat) := by
  have hextract : Ends (· = s₀) (Model.extract cat className)
      (fun t s => Known cat s ∧ s.types.Stores className t.name) (fun _ => Known cat) :=
    ((advancing_extract className).ends Known.coherent Known.persists stores_of_extract).mono
      (fun _ hs => hs ▸ h) (fun _ _ hs => hs) fun _ _ hs => hs
  unfold extractResource
  simp only [hc]
  refine hextract.bind fun t => .get_bind fun d hd => ?_
  obtain ⟨hd, ht⟩ := hd
  obtain ⟨hsource, before, hbefore, hrunning⟩ := exists_running hd hc ht ("endpoint/" ++ t.name)
  refine .bind (.modify fun s hs => hs ▸ hrunning) fun _ => .bind
    ((ends_exposures hsource).mono (fun _ hs => hs) (fun _ _ hs => hs) fun _ s hs => ?_)
    fun _ => .pure fun s hs => ⟨d, t.name, before, hd, hbefore, hs⟩
  exact hd.attempted hc hbefore hs

theorem known_of_prepared (h : Prepared cat s) : Known cat s := by
  induction h with
  | start hs hnone =>
    refine ⟨hs, fun hm => ?_⟩
    simp [Draft.bindings, hnone] at hm
  | request q _ ih => exact ih.persists ((advancing_request q).left ih.coherent)
  | @serve s className _ ih =>
    cases hc : cat.class? className with
    | none =>
      unfold extractResource
      simp only [hc]
      exact ih
    | some shape =>
      -- A class that is taken up to the end is attempted with all of its exposures.
      refine (Ends.mono (ends_extractResource ih hc) (fun _ hs => hs) (fun _ m hm => ?_)
        fun _ _ hm => hm).left rfl
      obtain ⟨d, resource, before, hd, hbefore, hrunning⟩ := hm
      exact hd.attempted hc hbefore
        ⟨_, _, List.prefix_rfl, List.prefix_rfl, hrunning⟩

end Classes

end Operations

namespace Metadata

def ClassDecl.offered (c : ClassDecl) : ClassDecl :=
  { c with exposures := c.exposures.map Exposure.visible }

theorem ClassDecl.visible_offered (c : ClassDecl) : c.offered.visible = c.visible := by
  have hexposures : c.exposures.map (Exposure.visible ∘ Exposure.visible) =
      c.exposures.map Exposure.visible := by
    refine List.map_congr_left fun e _ => ?_
    simp [Exposure.visible]
  rw [offered, visible, visible, List.map_map, hexposures]

end Metadata

def Catalog.offered (c : Catalog) : Catalog :=
  { c with classes := c.classes.mapValues fun _ => ClassDecl.offered }

theorem Catalog.visible_offered (c : Catalog) : c.offered.visible = c.visible := by
  have hclasses : (c.classes.mapValues fun _ => ClassDecl.offered).mapValues
      (fun _ => ClassDecl.visible) = c.classes.mapValues fun _ => ClassDecl.visible := by
    refine OrderedMap.ext ?_
    simp only [OrderedMap.mapValues, List.map_map, Function.comp_def, ClassDecl.visible_offered]
  rw [visible, offered, visible]
  exact congrArg (fun classes => { c with classes }) hclasses

namespace Operations

theorem extractResource_offered (cat : Catalog) (className : String) :
    extractResource cat.offered className = extractResource cat className := by
  rw [← extractResource_visible, Catalog.visible_offered, extractResource_visible]

/-- When the operations of a class have been taken up, whatever was registered or attempted before,
its bindings hold the last exposed operation under each name, and the work is the same, outcome and
all, as if operations that are not exposed were not declared. -/
theorem last_operation_wins {cat : Catalog} {className n : String} {shape : ClassDecl}
    {s s' : Draft} (hs : Prepared cat s) (hc : cat.class? className = some shape)
    (h : Yields (extractResource cat className) s n s') :
    (∃ resource x, s'.types.Stores className resource ∧
      s'.operations.get? className = some x ∧
      LastWins cat s'.types className resource shape.exposures x.bindings) ∧
    extractResource cat.offered className = extractResource cat className := by
  refine ⟨?_, extractResource_offered cat className⟩
  obtain ⟨d, resource, before, -, hbefore, hrunning⟩ :=
    (ends_extractResource (known_of_prepared hs) hc).ok rfl h
  obtain ⟨m, hm, hfolded⟩ := hrunning.own
  obtain ⟨x, hx, hpair⟩ := Option.map_eq_some_iff.1 hm
  obtain ⟨-, rfl⟩ := Prod.mk.inj hpair
  exact ⟨resource, x, hrunning.found, hx, hfolded.lastWins hbefore⟩

/-- A class with two exposures under one symbol and one under another. An operation of the last
exposure goes by the name of one of the first, and one that is not exposed is of no known kind. -/
def shelf : ClassDecl where
  className := "App\\Entity\\Shelf"
  fields := [{ name := "label", types := [{ builtin := "string" }] }]
  exposures := [
    { shortName := "Shelf"
      operations := [
        { type := some "Get" },
        { type := some "GetCollection" },
        { type := some "Burn", method := "BURN", exposed := false }] },
    { shortName := "Rack"
      operations := [{ type := some "Post", method := "POST" }] },
    { shortName := "Shelf"
      operations := [{ type := some "Patch", method := "PATCH", name := some "read" }] }]

/-- The shelf is taken up a second time and is read by what was declared last. -/
theorem last_operation_of_shelf_wins :
    let cat : Catalog := .ofDocument { classes := [shelf] }
    let s := (outcome (extractResource cat shelf.className) {}).2
    Prepared cat s ∧ cat.class? shelf.className = some shelf ∧
    ∃ n s' x b c, Yields (extractResource cat shelf.className) s n s' ∧
      s'.operations.get? shelf.className = some x ∧ x.bindings.keys = ["shelf", "rack"] ∧
      x.bindings.get? "shelf" = some b ∧ b.calls.keys = ["read", "list"] ∧
      b.calls.get? "read" = some c ∧ c.kind = "update" ∧
      extractResource cat.offered shelf.className = extractResource cat shelf.className := by
  intro cat s
  have hs : Prepared cat s := .serve shelf.className (.start ⟨nofun, nofun, nofun⟩ rfl)
  have hc : cat.class? shelf.className = some shelf := rfl
  obtain ⟨n, s', h, -⟩ := Yields.exists_of_test (x := extractResource cat shelf.className)
    (s := s) (p := fun _ _ => true) (by decide +kernel)
  obtain ⟨⟨resource, x, -, hx, hlast⟩, hoffered⟩ := last_operation_wins hs hc h
  have hkeys : x.bindings.keys = ["shelf", "rack"] := hlast.keys.trans (by decide +kernel)
  have hmem : "shelf" ∈ x.bindings.keys := by simp [hkeys]
  obtain ⟨b, hb⟩ := OrderedMap.mem_keys_iff.1 hmem
  have hnames : b.calls.keys = ["read", "list"] :=
    (hlast.bindings hb).2.trans (by decide +kernel)
  have hnamed : "read" ∈ b.calls.keys := by simp [hnames]
  obtain ⟨c, hread⟩ := OrderedMap.mem_keys_iff.1 hnamed
  refine ⟨hs, hc, n, s', x, b, c, h, hx, hkeys, hb, hnames, hread, ?_, hoffered⟩
  obtain ⟨e, o, hdeclared, -, k, input, output, hk, -, -, rfl⟩ := hlast.calls hb hread
  have hupdate : (((declared shelf.exposures).filter
      (goesTo shelf.className "shelf" "read")).getLast?).map (fun p => kind? p.2) =
        some (some .update) := by decide +kernel
  rw [hdeclared, Option.map_some, hk] at hupdate
  obtain rfl := Option.some.inj (Option.some.inj hupdate)
  rfl

end Operations
end HydraClient
