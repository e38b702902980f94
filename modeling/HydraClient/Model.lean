import HydraClient.BaseTypes
import HydraClient.Catalog
import HydraClient.Script

/-! # Models

Described classes become interfaces, and enums become native enums. A class is registered before
its parent and fields are looked at, so a relation that leads back to it finds it there.
-/
namespace HydraClient.Model

open Metadata

def scalar? : String → Option String
  | "string" => some "string"
  | "int" => some "number"
  | "float" => some "number"
  | "bool" => some "boolean"
  | "null" => some "null"
  | _ => none

/-- Joined endings of a list of segments, the shortest first. -/
def endings (segments : List String) : List String :=
  ((List.range segments.length).map fun i =>
    String.join (segments.drop i)).reverse

theorem suffix_of_mem_endings {init : List String} {last n : String}
    (h : n ∈ endings (init ++ [last])) : last.toList <:+ n.toList := by
  simp only [endings, List.mem_reverse, List.mem_map, List.mem_range, List.length_append,
    List.length_singleton] at h
  obtain ⟨i, hi, rfl⟩ := h
  rw [List.drop_append_of_le_length (by omega), String.join_append]
  simp [String.toList_append]

/-- The names a class may take: its own short name, or longer ones with segments before it. -/
def nameCandidates (c : Config) (shape : ClassDecl) : List String :=
  let named := match shape.shortName with
    | some s => if s = "" then none else some s
    | none => none
  let below := match c.stripNamespace shape.className with
    | some s => if s = "" then none else some s
    | none => none
  let base := (named.or below).getD (ClassName.base shape.className)
  base :: (endings (ClassName.segments shape.className).dropLast).map (· ++ base)

def enumCandidates (className : String) : List String := endings (ClassName.segments className)

def docOf (sourceFile : Option String) : List String :=
  match sourceFile with
  | some f => if f = "" then [] else ["@see " ++ f]
  | none => []

def bare (name className : String) (shape : ClassDecl) : TypeEntry where
  name := name
  kind := .interface
  file := some ("interfaces/" ++ name)
  source := some className
  hasFactory := true
  doc := docOf shape.sourceFile
  addressable := shape.isAddressable
  persistent := shape.persistent

/-- The native enum of a description. Cases without backing values are bare ordinals. -/
def nativeEnum (name className file : String) (shape : EnumDecl) : TypeEntry where
  name := name
  kind := .nativeEnum
  file := some file
  source := some className
  members := .ofList (shape.cases.map fun c => (c.name, if shape.backed then c.value else .null))
  doc := docOf shape.sourceFile

/-- Registers the enum of a class, in the file of whoever asks first. -/
def resolveEnum (cat : Catalog) (className : String) (file : Option String) :
    Drafting TypeEntry := do
  let types := (← get).types
  match types.lookupSource className with
  | some t => pure t
  | none =>
    let name ← types.resolveName (enumCandidates className) className
    match cat.enum? className with
    | none => throw (.enumUndescribed className)
    | some shape =>
      let file := match file with
        | some f => if f = "" then BaseTypes.enumFile else f
        | none => BaseTypes.enumFile
      let t := nativeEnum name className file shape
      Drafting.register t
      pure t

def defaultCase (cat : Catalog) (className : String) (field : Field) :
    Except Failure (Option String) :=
  let given := match field.defaultCase with
    | some c => if c = "" then none else some c
    | none => none
  match given with
  | some c => .ok (some c)
  | none =>
    match field.default with
    | .null => .ok none
    | v =>
      match cat.enum? className with
      | none => .error (.keyAbsent (ClassName.relative className))
      | some shape => .ok ((shape.caseOf? v).map (·.name))

/-- What a class that a field refers to turns out to be. -/
inductive Referent where
  | model (t : TypeEntry)
  | enumeration (t : TypeEntry)
  | datetime
  | identifier
  | passthrough

def importType (p : Property) (t : TypeEntry) : Property :=
  { p with imports := p.imports.addFrom t.file t.name }

def importApiType (p : Property) (name : String) : Property :=
  { p with imports := p.imports.add BaseTypes.apiTypesFile name }

def relate (source : Option String) (className : String) (p : Property) (t : TypeEntry) :
    Property :=
  let p := { p with related := some t.name }
  let p := if some className = source then p else importType p t
  if t.addressable then importApiType p "HydraIri" else p

def reference (typeName : String) : String := "HydraIri<" ++ typeName ++ ">"

/-- The alternatives that a class brings into a type. -/
def Referent.alternatives : Referent → List String
  | .model t => if t.addressable then [t.name, reference t.name] else [t.name]
  | .enumeration t => [t.name]
  | .datetime => ["DateTime"]
  | .identifier => ["string"]
  | .passthrough => ["any"]

/-- Ties a property to a class: by what it imports, and by the model or enum it stands for. -/
def tie (source : Option String) (className : String) (p : Property) : Referent → Property
  | .model t => relate source className p t
  | .enumeration t => importType { p with enumName := some t.name } t
  | .datetime => importApiType p "DateTime"
  | .identifier => p
  | .passthrough => p

def elementOf (source : Option String) (className : String) (p : Property) (ref : Referent) :
    String × Property :=
  let q := tie source className p ref
  (String.intercalate "|" ref.alternatives,
    match ref with
    | .model t => { q with elementType := some t.name }
    | _ => q)

def withClass (source : Option String) (className : String) (p : Property) (ref : Referent) :
    Property :=
  { tie source className p ref with union := p.union.addAll ref.alternatives }

def withNull (t : FieldType) (p : Property) : Property :=
  if t.nullable then { p with union := p.union.add "null" } else p

/-- The token of a collection, which is an array unless its keys are said to be text. -/
def collectionToken (t : FieldType) (element : String) : String :=
  if t.keyType.all (· == "int") then "Array<" ++ element ++ ">"
  else "\x7b [key: string]: " ++ element ++ " \x7d"

def withCollection (t : FieldType) (element : String) (p : Property) : Property :=
  { p with
    union := p.union.add (collectionToken t element)
    isCollection := true
    defaultLiteral := some "[]" }

def blank (field : Field) (inherited : Bool) : Property where
  name := field.name
  required := field.required
  readOnly := field.readable && !field.writable
  inherited
  schema := field.schema

section Fields

variable (cat : Catalog) (visit : String → Drafting TypeEntry) (owner : TypeEntry) (field : Field)

def refer (className : String) (unknown : Failure) : Drafting Referent :=
  match cat.classify className with
  | .model => .model <$> visit className
  | .enumeration => .enumeration <$> resolveEnum cat className owner.file
  | .datetime => pure .datetime
  | .identifier => pure .identifier
  | .passthrough => pure .passthrough
  | .unknown => throw unknown

def element (value : FieldType) (p : Property) : Drafting (String × Property) :=
  match value.className with
  | none =>
    match scalar? value.builtin with
    | some s => pure (s, p)
    | none =>
      if value.builtin = "array" ∨ value.builtin = "object" then pure ("any", p)
      else throw (.elementUnknown value.builtin owner.source field.name)
  | some c => do
    let className := ClassName.relative c
    let r ← refer cat visit owner className
      (.elementClassUnknown className owner.source field.name)
    pure (elementOf owner.source className p r)

def applyClass (c : String) (p : Property) : Drafting Property := do
  let className := ClassName.relative c
  let r ← refer cat visit owner className (.classUnknown className owner.source field.name)
  let p := withClass owner.source className p r
  match r with
  | .enumeration t =>
    match ← defaultCase cat className field with
    | some case => pure { p with defaultLiteral := some (t.name ++ "." ++ case) }
    | none => pure p
  | _ => pure p

/-- Adds one form of value to a property. Scalars come first, then collections. -/
def applyType (p : Property) (t : FieldType) : Drafting Property := do
  let p := withNull t p
  match scalar? t.builtin with
  | some s =>
    let literal ← Script.literal field.default
    pure { p with union := p.union.add s, defaultLiteral := some literal }
  | none =>
    match t.collection, t.value with
    | true, some value =>
      let (e, p) ← element cat visit owner field value p
      pure (withCollection t e p)
    | _, _ =>
      if t.builtin = "array" then
        pure { p with
          union := (p.union.add "Array<any>").add "Record<number|string, any>"
          isCollection := true
          defaultLiteral := some "[]" }
      else if t.builtin = "object" then
        match t.className with
        | none => pure { p with union := p.union.add "Record<string, any>" }
        | some c => applyClass cat visit owner field c p
      else throw (.builtinUnknown t.builtin owner.source field.name)

def buildProperty (inherited : Bool) : Drafting Property :=
  field.types.foldlM (applyType cat visit owner field) (blank field inherited)

end Fields

/-- Whether a field belongs to an ancestor: the declaration says so, or else the parent has a
property of the name. -/
def isInherited (className : String) (field : Field) (parent : Option TypeEntry) : Bool :=
  match field.declaredBy with
  | some c => ClassName.relative c != className
  | none => parent.any (·.properties.contains field.name)

def withParent (p t : TypeEntry) : TypeEntry :=
  { t with supers := t.supers ++ [p.name] }.addImport p.file p.name

def withAddress (t : TypeEntry) : TypeEntry :=
  { t with supers := t.supers ++ ["HydraItem"] }.addImport (some BaseTypes.apiTypesFile) "HydraItem"

def extractParent (cat : Catalog) (visit : String → Drafting TypeEntry) (name : String)
    (shape : ClassDecl) : Drafting (Option String) := do
  match shape.parent with
  | none => pure none
  | some parent =>
    if parent = "" || cat.classify parent != .model then pure none
    else
      let p ← visit parent
      Drafting.modifyType name (withParent p)
      pure (some p.name)

def extractField (cat : Catalog) (visit : String → Drafting TypeEntry) (owner : TypeEntry)
    (className : String) (parent : Option String) (field : Field) : Drafting Unit := do
  if field.isExposed then
    let inherited := isInherited className field (parent.bind (← get).types.get?)
    let p ← buildProperty cat visit owner field inherited
    Drafting.modifyType owner.name (·.addProperty p)

def extractNew (cat : Catalog) (visit : String → Drafting TypeEntry) (className : String) :
    Drafting TypeEntry := do
  let some shape := cat.class? className | throw (.classUndescribed className)
  let name ← (← get).types.resolveName (nameCandidates cat.config shape) className
  let owner := bare name className shape
  Drafting.register owner
  let parent ← extractParent cat visit name shape
  if shape.isAddressable then
    Drafting.modifyType name withAddress
  shape.fields.forM (extractField cat visit owner className parent)
  pure (((← get).types.get? name).getD owner)

/-- Extracts a class, at most `depth` classes deep. -/
def extractWithin (cat : Catalog) : Nat → String → Drafting TypeEntry
  | 0, className => throw (.classUndescribed className)
  | depth + 1, className => do
    match (← get).types.lookupSource className with
    | some t => pure t
    | none => extractNew cat (extractWithin cat depth) className

/-- Every class on the way down is new: the first one, a parent as spelled by its child, or a
described class. -/
def depthBound (cat : Catalog) : Nat := 2 * cat.classes.size + 2

def extract (cat : Catalog) (className : String) : Drafting TypeEntry :=
  extractWithin cat (depthBound cat) className

def extractAll (cat : Catalog) : Drafting (List TypeEntry) :=
  (cat.resources.filter cat.config.matchesNamespace).mapM (extract cat)

end HydraClient.Model
