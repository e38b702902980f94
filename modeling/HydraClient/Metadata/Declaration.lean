import HydraClient.Json.Basic
import HydraClient.OrderedMap

/-! # Declarations

What a metadata document declares: classes with their fields and exposures, operations, enums,
filters and routes.
-/
namespace HydraClient.Metadata

/-- One form that the value of a field may take. The word for the form is kept as written, since an
unknown one is reported only where the field is used. -/
structure FieldType where
  builtin : String
  nullable : Bool := false
  className : Option String := none
  collection : Bool := false
  keyType : Option String := none
  value : Option FieldType := none

structure Field where
  name : String
  types : List FieldType := []
  readable : Bool := true
  writable : Bool := true
  required : Bool := false
  default : Json := .null
  defaultCase : Option String := none
  declaredBy : Option String := none
  schema : OrderedMap String Json := .empty

/-- A field that can neither be read nor written is hidden. -/
def Field.isExposed (f : Field) : Bool := f.readable || f.writable

/-- A variable of a path, which may point at a property of another class. -/
structure UriVariable where
  parameter : String
  fromClass : Option String := none
  fromProperty : Option String := none
  toProperty : Option String := none
  deriving DecidableEq, Repr

structure HelperOverride where
  kind : String
  genericParams : Option (List String) := none
  deriving DecidableEq, Repr

/-- Paging switches of an exposure or operation. An absent switch is inherited. -/
structure PagingSwitches where
  enabled : Option Bool := none
  clientEnabled : Option Bool := none
  clientItemsPerPage : Option Bool := none
  clientPartial : Option Bool := none
  deriving DecidableEq, Repr

structure Operation where
  paging : PagingSwitches := {}
  type : Option String := none
  method : String := "GET"
  name : Option String := none
  uriTemplate : Option String := none
  uriVariables : List String := []
  exposed : Bool := true
  input : Option String := none
  output : Option String := none
  inputFormats : OrderedMap String (List String) := .empty
  filters : List String := []
  security : Option String := none
  requestMethod : Option HelperOverride := none

def Operation.isMultipart (o : Operation) : Bool := o.inputFormats.contains "multipart"

structure Exposure where
  paging : PagingSwitches := {}
  shortName : String
  uriTemplate : Option String := none
  uriVariables : List UriVariable := []
  operations : List Operation := []
  security : Option String := none
  securityPostDenormalize : Option String := none

structure ClassDecl where
  className : String
  parent : Option String := none
  persistent : Bool := false
  sourceFile : Option String := none
  fields : List Field := []
  exposures : List Exposure := []

namespace ClassDecl

/-- A class with an exposure has an address of its own. -/
def isAddressable (c : ClassDecl) : Bool := !c.exposures.isEmpty

def shortName (c : ClassDecl) : Option String := c.exposures.head?.map (·.shortName)

def field? (c : ClassDecl) (name : String) : Option Field := c.fields.find? (·.name == name)

end ClassDecl

structure EnumCase where
  name : String
  value : Json := .null

structure EnumDecl where
  className : String
  backed : Bool := false
  cases : List EnumCase := []
  sourceFile : Option String := none

/-- The first case that has the value or is named by it. -/
def EnumDecl.caseOf? (e : EnumDecl) (v : Json) : Option EnumCase :=
  e.cases.find? fun c => c.value.matchesValue v || (Json.str c.name).matchesValue v

inductive FilterKind where
  | search
  | order
  | date
  | boolean
  | existence
  | range
  | backedEnum
  deriving DecidableEq, Repr

namespace FilterKind

def all : List FilterKind := [search, order, date, boolean, existence, range, backedEnum]

def word : FilterKind → String
  | search => "search"
  | order => "order"
  | date => "date"
  | boolean => "boolean"
  | existence => "exists"
  | range => "range"
  | backedEnum => "backed_enum"

def ofWord? (w : String) : Option FilterKind := all.find? (·.word == w)

end FilterKind

structure FilterParameter where
  property : Option String := none
  type : String := "string"
  required : Bool := false
  isCollection : Bool := false
  schema : OrderedMap String Json := .empty

structure Filter where
  id : String
  kind : FilterKind
  parameters : OrderedMap String FilterParameter := .empty

structure Route where
  name : String
  path : String
  requirements : OrderedMap String String := .empty
  defaults : OrderedMap String Json := .empty

end HydraClient.Metadata
