import HydraClient.Filter
import HydraClient.Model
import HydraClient.Text.Words

/-! # Operations

Exposures become bindings, and their exposed operations become calls. A list operation also gets an
interface of query parameters, gathered from paging and filters.
-/
namespace HydraClient.Operations

open Metadata

def leadsAway (className : String) (u : UriVariable) : Bool :=
  u.fromClass.any fun c => c != "" && ClassName.relative c != className

def parentLinks (className : String) (e : Exposure) : List UriVariable :=
  e.uriVariables.filter (leadsAway className)

/-- The name of a binding; below a parent it starts with the name of the parent. -/
def bindingSymbol (className : String) (e : Exposure) : String :=
  match parentLinks className e with
  | u :: _ => Text.lowerFirst (ClassName.base (u.fromClass.getD "")) ++ e.shortName
  | [] => Text.lowerFirst e.shortName

/-- Drops a final line feed for a test at the end of a text, and gives it back. -/
def beforeBreak (s : List Char) : List Char × List Char :=
  if s.getLast? = some '\n' then (s.dropLast, ['\n']) else (s, [])

def formatSuffix : List Char := "\x7b._format\x7d".toList

def dropFormat (s : List Char) : List Char :=
  let (body, tail) := beforeBreak s
  if formatSuffix.reverse.isPrefixOf body.reverse then
    body.take (body.length - formatSuffix.length) ++ tail
  else s

/-- The name of the variable that a path ends in, as a segment of its own. -/
def trailingVariable? (s : List Char) : Option (List Char) :=
  match (beforeBreak s).1.reverse with
  | '\x7d' :: rest =>
    let name := rest.takeWhile fun c => c.isAlphanum || c == '_'
    match rest.drop name.length with
    | '\x7b' :: '/' :: _ => if name.isEmpty then none else some name.reverse
    | _ => none
  | _ => none

def dropVariable (s : List Char) : List Char :=
  match trailingVariable? s with
  | some name =>
    let (body, tail) := beforeBreak s
    body.take (body.length - (name.length + 3)) ++ tail
  | none => s

/-- The path of a call. Helpers that take an identifier append it themselves. -/
def resolvePath (start template : String) (k : OperationKind) : String :=
  let path := start.toList ++ dropFormat template.toList
  String.ofList (if k.takesIdentifier then dropVariable path else path)

/-- The innermost setting that is made. -/
def cascade (operation exposure : Option Bool) (global : Bool) : Bool :=
  (operation.or exposure).getD global

/-- The path variables a caller has to supply. The identifier is passed on its own. -/
def pathParams (className : String) (e : Exposure) (o : Operation) (k : OperationKind) :
    List String :=
  let names := (e.uriVariables.filter fun u => leadsAway className u || !k.isCollection).map
    (·.parameter) ++ o.uriVariables
  names.foldl (fun ns n => if n = "id" || ns.contains n then ns else ns ++ [n]) []

def template (e : Exposure) (o : Operation) (k : OperationKind) : String :=
  let own := o.uriTemplate.filter (· != "")
  let shared := e.uriTemplate.filter (· != "")
  (own.or shared).getD
    (Text.collectionPath e.shortName ++ if k.isCollection then "" else "/\x7bid\x7d")

/-- The query parameters for paging, as far as they are switched on. -/
def pagingFields (c : Config) (e : Exposure) (o : Operation) : FilterFields × Bool :=
  let p := c.paging
  let fs : FilterFields := .empty
  let fs :=
    if cascade o.paging.enabled e.paging.enabled p.enabled then
      fs.contribute p.pageParameter "number" else fs
  let fs :=
    if cascade o.paging.clientItemsPerPage e.paging.clientItemsPerPage p.clientItemsPerPage then
      fs.contribute p.itemsPerPageParameter "number" else fs
  let client := cascade o.paging.clientEnabled e.paging.clientEnabled p.clientEnabled
  let fs := if client then fs.contribute p.enabledParameter "BooleanEnum" else fs
  let part := cascade o.paging.clientPartial e.paging.clientPartial p.clientPartial
  let fs := if part then fs.contribute p.partialParameter "BooleanEnum" else fs
  (fs, client || part)

def listParamsName (typeName : String) : String := typeName ++ "ListParams"

def listSource (className : String) : String := className ++ "#list-params"

def listBase (c : Config) (entry : EndpointEntry) (resource : TypeEntry) (e : Exposure)
    (o : Operation) : TypeEntry :=
  let bare : TypeEntry := {
    name := listParamsName resource.name
    kind := .interface
    file := some entry.file
    source := some (listSource entry.source)
    supers := ["ListParams<" ++ resource.name ++ ">"] }
  let base := (bare.addImport (some BaseTypes.apiTypesFile) "ListParams").addImport
    resource.file resource.name
  if (pagingFields c e o).2 then base.addImport (some BaseTypes.enumFile) "BooleanEnum" else base

def deriveFields (cat : Catalog) (types : TypeRegistry) (resource : TypeEntry) (o : Operation) :
    Deriving Unit :=
  (cat.filtersOf o.filters).forM fun f => Filter.derive types resource f

def listProperties (fields : FilterFields) : OrderedMap String Property :=
  .ofList (fields.values.map fun f => (f.name, f.toProperty))

def listParams (cat : Catalog) (entry : EndpointEntry) (resource : TypeEntry) (e : Exposure)
    (o : Operation) : Drafting String := do
  let base := listBase cat.config entry resource e o
  let types := (← get).types
  match (deriveFields cat types resource o).run.run
      ⟨(pagingFields cat.config e o).1, base.imports⟩ with
  | (.error f, _) => throw f
  | (.ok (), d) =>
    Drafting.register { base with imports := d.imports, properties := listProperties d.fields }
    pure base.name

def ioType (cat : Catalog) (className : Option String) (resource : TypeEntry) :
    Drafting TypeEntry :=
  match className with
  | none => pure resource
  | some c => if c = "" then pure resource else Model.extract cat (ClassName.relative c)

def callOf (c : Config) (className : String) (e : Exposure) (o : Operation) (k : OperationKind)
    (input output : TypeEntry) (params : Option String) : Call where
  name := OperationKind.nameOf o k
  kind := k.word
  method := o.method
  template := template e o k
  path := resolvePath c.apiPrefix (template e o k) k
  helper := (o.requestMethod.map (·.kind)).getD k.word
  input := some input.name
  output := some output.name
  pathParams := pathParams className e o k
  isMultipart := o.isMultipart
  listParams := params
  security := o.security
  genericParams := o.requestMethod.bind (·.genericParams)

def buildCall (cat : Catalog) (entry : EndpointEntry) (resource : TypeEntry) (e : Exposure)
    (o : Operation) : Drafting Call := do
  let kind ← OperationKind.ofOperation o
  let input ← ioType cat o.input resource
  let output ← ioType cat o.output resource
  Drafting.modifyEntry entry.source fun x =>
    (x.addImport input.file input.name).addImport output.file output.name
  let params ←
    if kind = .list then some <$> listParams cat entry resource e o else pure none
  pure (callOf cat.config entry.source e o kind input output params)

def bareBinding (className : String) (resource : TypeEntry) (e : Exposure) : Binding where
  symbol := bindingSymbol className e
  name := resource.name
  links := parentLinks className e
  security := e.security
  securityPostDenormalize := e.securityPostDenormalize

/-- Makes the binding of an exposure on the first use of its symbol. -/
def openBinding (className : String) (resource : TypeEntry) (e : Exposure) : Drafting Unit :=
  Drafting.modifyEntry className fun x =>
    if x.bindings.contains (bindingSymbol className e) then x
    else { x with
      bindings := x.bindings.insert (bindingSymbol className e)
        (bareBinding className resource e) }

/-- Adds a call to a binding. Of two with one name the later one stays. -/
def withCall (symbol : String) (c : Call) (x : EndpointEntry) : EndpointEntry :=
  { x with bindings := x.bindings.modify symbol fun b =>
    { b with calls := b.calls.insert c.name c } }

def extractOperation (cat : Catalog) (entry : EndpointEntry) (resource : TypeEntry)
    (e : Exposure) (o : Operation) : Drafting Unit := do
  if o.exposed then
    let call ← buildCall cat entry resource e o
    Drafting.modifyEntry entry.source (withCall (bindingSymbol entry.source e) call)

def extractExposure (cat : Catalog) (entry : EndpointEntry) (resource : TypeEntry)
    (e : Exposure) : Drafting Unit := do
  openBinding entry.source resource e
  e.operations.forM (extractOperation cat entry resource e)

def extractResource (cat : Catalog) (className : String) : Drafting String := do
  let some shape := cat.class? className | throw (.keyAbsent (ClassName.relative className))
  let resource ← Model.extract cat className
  let (operations, entry) :=
    (← get).operations.getOrCreate className resource.name ("endpoint/" ++ resource.name)
  Drafting.setOperations operations
  shape.exposures.forM (extractExposure cat entry resource)
  pure className

def extractAll (cat : Catalog) : Drafting (List String) :=
  (cat.resources.filter cat.config.matchesNamespace).mapM (extractResource cat)

end HydraClient.Operations
