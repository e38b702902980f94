import HydraClient.Proofs.BuiltProperties
import HydraClient.Proofs.Contributions

/-! # Conversions of relations

A payload helper converts a relation element by element if the property is marked as a collection,
and at once otherwise. The mark is set by the same forms of value that put the type of the property
together, but not only by those that give an array: a collection with text for its keys and an array
of any kind set it as well, and it holds for all other forms beside them.
-/
namespace HydraClient

open Metadata TypeRegistry

namespace TypeUnion

variable {u : TypeUnion} {t x : String} {ts : List String}

theorem mem_push : x ∈ (u.push t).tokens ↔ x ∈ u.tokens ∨ x = t := by
  rw [tokens_push]
  split
  · rename_i h
    exact ⟨.inl, fun hx => hx.elim id fun hx => hx ▸ h⟩
  · rw [List.mem_append, List.mem_singleton]

theorem mem_addAll : x ∈ (u.addAll ts).tokens ↔
    x ∈ u.tokens ∨ x ≠ "" ∧ ∃ t ∈ ts, x = Text.trim t := by
  induction ts generalizing u with
  | nil => simp [addAll]
  | cons t rest ih =>
    have hcons : u.addAll (t :: rest) = (u.add t).addAll rest := by
      simp only [addAll, List.foldl]
    rw [hcons, ih]
    simp only [List.mem_cons, exists_eq_or_imp]
    by_cases hblank : Text.trim t = ""
    · rw [add, if_pos hblank]
      refine or_congr_right (and_congr_right fun hne => ?_)
      rw [hblank, or_iff_right hne]
    · rw [add, if_neg hblank, mem_push]
      constructor
      · rintro ((h | rfl) | h)
        · exact .inl h
        · exact .inr ⟨hblank, .inl rfl⟩
        · exact .inr ⟨h.1, .inr h.2⟩
      · rintro (h | ⟨hne, rfl | h⟩)
        · exact .inl (.inl h)
        · exact .inl (.inr rfl)
        · exact .inr ⟨hne, h⟩

theorem mem_ofTokens : x ∈ (ofTokens ts).tokens ↔ x ≠ "" ∧ ∃ t ∈ ts, x = Text.trim t := by
  rw [ofTokens, mem_addAll, or_iff_right]
  exact List.not_mem_nil

theorem mem_addAll_iff : x ∈ (u.addAll ts).tokens ↔ x ∈ u.tokens ∨ x ∈ (ofTokens ts).tokens := by
  rw [mem_addAll, mem_ofTokens]

end TypeUnion

namespace Model

/-- Whether a form of value marks a property as a collection. -/
def isMultiple (t : FieldType) : Bool :=
  match formOf t with
  | .collection _ | .array => true
  | _ => false

def nulls (t : FieldType) : List String := if t.nullable then ["null"] else []

def Referent.Denotes (cat : Catalog) (r : TypeRegistry) (c : String) : Referent → Prop
  | .model t => cat.classify c = .model ∧ r.Files c t.name
  | .enumeration t => cat.classify c = .enumeration ∧ r.Files c t.name
  | .datetime => cat.classify c = .datetime
  | .identifier => cat.classify c = .identifier
  | .passthrough => cat.classify c = .passthrough

inductive ElementText (cat : Catalog) (r : TypeRegistry) (value : FieldType) : String → Prop where
  | word : value.className = none → ElementText cat r value ((scalar? value.builtin).getD "any")
  | named {c : String} {ref : Referent} : value.className = some c →
      ref.Denotes cat r (ClassName.relative c) →
      ElementText cat r value (String.intercalate "|" ref.alternatives)

inductive Gives (cat : Catalog) (r : TypeRegistry) (t : FieldType) : TypeUnion → Prop where
  | scalar {word : String} : formOf t = .scalar word →
      Gives cat r t (.ofTokens (nulls t ++ [word]))
  | collection {value : FieldType} {element : String} : formOf t = .collection value →
      ElementText cat r value element →
      Gives cat r t (.ofTokens (nulls t ++ [collectionToken t element]))
  | array : formOf t = .array →
      Gives cat r t (.ofTokens (nulls t ++ ["Array<any>", "Record<number|string, any>"]))
  | record : formOf t = .record → Gives cat r t (.ofTokens (nulls t ++ ["Record<string, any>"]))
  | object {c : String} {ref : Referent} : formOf t = .object c →
      ref.Denotes cat r (ClassName.relative c) →
      Gives cat r t (.ofTokens (nulls t ++ ref.alternatives))

section Naming

variable {cat : Catalog} {r r' : TypeRegistry} {c : String} {ref : Referent} {t : FieldType}
  {u : TypeUnion}

theorem Refers.denotes (h : Refers cat r c ref) (hr : Coherent r) : ref.Denotes cat r c := by
  cases h with
  | model hc ht | enumeration hc ht => exact ⟨hc, _, (hr.of_lookupSource ht).2⟩
  | datetime hc | identifier hc | passthrough hc => exact hc

variable (hr : ∀ {s n}, r.Files s n → r'.Files s n)
include hr

theorem Referent.Denotes.mono (h : ref.Denotes cat r c) : ref.Denotes cat r' c := by
  cases ref with
  | model | enumeration => exact h.imp_right hr
  | datetime | identifier | passthrough => exact h

theorem Gives.mono (h : Gives cat r t u) : Gives cat r' t u := by
  cases h with
  | scalar hform => exact .scalar hform
  | collection hform htext =>
    cases htext with
    | word hnone => exact .collection hform (.word hnone)
    | named hclass hdenotes => exact .collection hform (.named hclass (hdenotes.mono hr))
  | array hform => exact .array hform
  | record hform => exact .record hform
  | object hform hdenotes => exact .object hform (hdenotes.mono hr)

end Naming

/-- A property is made of forms of value: its type, and its mark. -/
structure MadeOf (cat : Catalog) (r : TypeRegistry) (types : List FieldType)
    (unions : List TypeUnion) (p : Property) : Prop where
  gives : List.Forall₂ (Gives cat r) types unions
  tokens : ∀ x, x ∈ p.union.tokens ↔ ∃ u ∈ unions, x ∈ u.tokens
  mark : p.isCollection = types.any isMultiple

theorem MadeOf.mono {cat : Catalog} {r r' : TypeRegistry} {types : List FieldType}
    {unions : List TypeUnion} {p : Property} (h : MadeOf cat r types unions p)
    (hr : ∀ {s n}, r.Files s n → r'.Files s n) : MadeOf cat r' types unions p where
  gives := h.gives.imp fun _ _ hgives => hgives.mono hr
  tokens := h.tokens
  mark := h.mark

section Steps

variable {cat : Catalog} {visit : String → Drafting TypeEntry} {owner : TypeEntry} {field : Field}
  {file : String} {s s' : Draft} {p q : Property} {t : FieldType}
  (hv : ∀ c, Finds cat (visit c) c) (ho : owner.file = some file) (hf : Houses cat file)
  (hs : Coherent s.types)

include hv ho hf hs

theorem text_of_element {value : FieldType} {e : String} (hs' : Coherent s'.types)
    (h : Yields (element cat visit owner field value p) s (e, q) s') :
    ElementText cat s'.types value e ∧ q.union = p.union ∧ q.isCollection = p.isCollection := by
  rcases element_cases hv ho hf hs h with ⟨hnone, rfl, rfl⟩ | ⟨c, ref, hclass, href, he⟩
  · exact ⟨.word hnone, rfl, rfl⟩
  · obtain rfl : e = String.intercalate "|" ref.alternatives := congrArg Prod.fst he
    obtain rfl := congrArg Prod.snd he
    exact ⟨.named hclass (href.denotes hs'), sameValue_elementOf.union,
      sameValue_elementOf.isCollection⟩

theorem gives_of_applyType (hs' : Coherent s'.types)
    (h : Yields (applyType cat visit owner field p t) s q s') :
    q.isCollection = (p.isCollection || isMultiple t) ∧
      ∃ u, Gives cat s'.types t u ∧
        ∀ x, x ∈ q.union.tokens ↔ x ∈ p.union.tokens ∨ x ∈ u.tokens := by
  rw [applyType_eq] at h
  -- Null comes first in every form, so it is taken together with the tokens of the form.
  have hunion : ∀ ts x, x ∈ ((withNull t p).union.addAll ts).tokens ↔
      x ∈ p.union.tokens ∨ x ∈ (TypeUnion.ofTokens (nulls t ++ ts)).tokens := by
    intro ts x
    rw [withNull_addAll, TypeUnion.mem_addAll_iff]
    rfl
  have hmark : (withNull t p).isCollection = p.isCollection := by
    rw [withNull_eq]
  generalize withNull t p = p' at h hunion hmark
  cases hform : formOf t with
  | scalar word =>
    simp only [hform] at h
    obtain ⟨literal, -, h⟩ := Yields.lift_bind.1 h
    obtain ⟨rfl, -⟩ := Yields.pure_iff.1 h
    refine ⟨by simp [isMultiple, hform, hmark], _, .scalar hform, fun x => ?_⟩
    rw [← hunion]
    simp only [TypeUnion.addAll, List.foldl]
  | collection value =>
    simp only [hform] at h
    obtain ⟨⟨e, q'⟩, m, he, h⟩ := Yields.bind_iff.1 h
    obtain ⟨rfl, rfl⟩ := Yields.pure_iff.1 h
    obtain ⟨htext, hsame, -⟩ := text_of_element hv ho hf hs hs' he
    refine ⟨by simp [isMultiple, hform, withCollection], _, .collection hform htext, fun x => ?_⟩
    rw [← hunion, ← hsame]
    simp only [withCollection, TypeUnion.addAll, List.foldl]
  | array =>
    simp only [hform] at h
    obtain ⟨rfl, -⟩ := Yields.pure_iff.1 h
    refine ⟨by simp [isMultiple, hform], _, .array hform, fun x => ?_⟩
    rw [← hunion]
    simp only [TypeUnion.addAll, List.foldl]
  | record =>
    simp only [hform] at h
    obtain ⟨rfl, -⟩ := Yields.pure_iff.1 h
    refine ⟨by simp [isMultiple, hform, hmark], _, .record hform, fun x => ?_⟩
    rw [← hunion]
    simp only [TypeUnion.addAll, List.foldl]
  | object c =>
    simp only [hform] at h
    obtain ⟨ref, href, hadds, -, -, hsame⟩ := ties_of_applyClass hv ho hf hs h
    refine ⟨by simp [isMultiple, hform, hsame, hmark], _, .object hform (href.denotes hs'),
      fun x => ?_⟩
    rw [hadds, hunion]
  | unknown =>
    simp only [hform] at h
    exact absurd h Yields.not_throw

theorem madeOf_of_buildProperty {inherited : Bool}
    (h : Yields (buildProperty cat visit owner field inherited) s p s') :
    ∃ unions, MadeOf cat s'.types field.types unions p := by
  -- The invariant is about the forms that have been added so far.
  have hpass := (Yields.foldlM_pass h).prefix_invariant
    (I := fun before x => Coherent x.2.types ∧ ∃ unions, MadeOf cat x.2.types before unions x.1)
    ⟨hs, [], .nil, fun x => by simp [blank, TypeUnion.empty], rfl⟩
    fun before t after x y _ hx hstep => by
      obtain ⟨hx, unions, hmade⟩ := hx
      obtain ⟨hextracted, -⟩ := formed_of_applyType hv ho hf hx hstep
      have hy : Coherent y.2.types := hextracted.coherent hx
      obtain ⟨hmark, u, hu, htokens⟩ := gives_of_applyType hv ho hf hx hy hstep
      obtain ⟨hgives, htokens', hmark'⟩ :=
        hmade.mono fun hfiles => hfiles.of_extends hextracted.kept
      refine ⟨hy, unions ++ [u], List.rel_append hgives (.cons hu .nil), fun x => ?_, ?_⟩
      · rw [htokens, htokens']
        simp [or_and_right, exists_or]
      · rw [hmark, hmark']
        simp
  exact hpass.2

end Steps

def IsArray (token : String) : Prop := ∃ e, token = "Array<" ++ e ++ ">"

/-- A form of value gives nothing but arrays, apart from null. -/
def Lists (t : FieldType) (u : TypeUnion) : Prop :=
  match formOf t with
  | .scalar word => word = "null"
  | .collection _ => t.keyType.all (· == "int") = true
  | .object _ => ∀ x ∈ u.tokens, x ≠ "null" → IsArray x
  | .array | .record | .unknown => False

def HasArray (t : FieldType) (u : TypeUnion) : Prop :=
  match formOf t with
  | .collection _ => t.keyType.all (· == "int") = true
  | .array => True
  | .object _ => ∃ x ∈ u.tokens, IsArray x
  | .scalar _ | .record | .unknown => False

section Arrays

variable {cat : Catalog} {r : TypeRegistry} {t : FieldType} {u : TypeUnion} {x word : String}

theorem IsArray.head? (h : IsArray x) : x.toList.head? = some 'A' := by
  obtain ⟨e, rfl⟩ := h
  simp [String.toList_append]

theorem trim_of_ends {c d : Char} {s : List Char} (hc : Text.isBlank c = false)
    (hd : Text.isBlank d = false) (hx : x.toList = c :: (s ++ [d])) : Text.trim x = x := by
  rw [Text.trim, Text.trimWhere_eq_self, String.ofList_toList]
  · intro c' hc'
    rw [hx] at hc'
    obtain rfl := Option.some.inj hc'
    exact hc
  · intro d' hd'
    rw [hx, ← List.cons_append, List.getLast?_concat] at hd'
    obtain rfl := Option.some.inj hd'
    exact hd

/-- The token of a collection is kept as it is, and it is an array unless its keys are text. -/
theorem collectionToken_spec (t : FieldType) (e : String) :
    Text.trim (collectionToken t e) = collectionToken t e ∧
      (IsArray (collectionToken t e) ↔ t.keyType.all (· == "int") = true) := by
  unfold collectionToken
  split
  · rename_i hkeys
    refine ⟨?_, iff_of_true ⟨e, rfl⟩ hkeys⟩
    exact trim_of_ends (c := 'A') (d := '>') (s := "rray<".toList ++ e.toList) (by decide)
      (by decide) (by simp [String.toList_append])
  · rename_i hkeys
    refine ⟨?_, iff_of_false (fun h => ?_) hkeys⟩
    · exact trim_of_ends (c := '\x7b') (d := '\x7d')
        (s := " [key: string]: ".toList ++ e.toList ++ [' ']) (by decide) (by decide)
        (by simp [String.toList_append])
    · have hhead := h.head?
      simp [String.toList_append] at hhead

theorem mem_nulls (h : x ∈ nulls t) : x = "null" := by
  unfold nulls at h
  split at h
  · exact List.mem_singleton.1 h
  · cases h

theorem word_of_scalar (h : formOf t = .scalar word) :
    word ∈ ["string", "number", "boolean", "null"] := by
  have hword : scalar? t.builtin = some word := by
    unfold formOf at h
    split at h
    · obtain rfl := Form.scalar.inj h
      assumption
    · repeat' split at h
      all_goals cases h
  unfold scalar? at hword
  split at hword <;> simp_all

theorem not_isArray_of_scalar (h : formOf t = .scalar word) : ¬IsArray word := by
  have hwords : ∀ w ∈ ["string", "number", "boolean", "null"], w.toList.head? ≠ some 'A' := by
    decide
  exact fun harray => hwords word (word_of_scalar h) harray.head?

section Trimmed

variable {ts : List String} (h : ∀ w ∈ ts, Text.trim w = w ∧ w ≠ "")
include h

theorem mem_formed : x ∈ (TypeUnion.ofTokens (nulls t ++ ts)).tokens ↔ x ∈ nulls t ∨ x ∈ ts := by
  have htrimmed : ∀ w ∈ nulls t ++ ts, Text.trim w = w ∧ w ≠ "" := by
    intro w hw
    rcases List.mem_append.1 hw with hw | hw
    · obtain rfl := mem_nulls hw
      decide
    · exact h w hw
  rw [TypeUnion.ofTokens, TypeUnion.tokens_addAll htrimmed, List.mem_eraseDups,
    TypeUnion.empty, List.nil_append, List.mem_append]

theorem all_isArray_iff :
    (∀ x ∈ (TypeUnion.ofTokens (nulls t ++ ts)).tokens, x ≠ "null" → IsArray x) ↔
      ∀ x ∈ ts, x ≠ "null" → IsArray x := by
  simp only [mem_formed h]
  constructor
  · exact fun hall x hx => hall x (.inr hx)
  · rintro hall x (hx | hx) hne
    · exact absurd (mem_nulls hx) hne
    · exact hall x hx hne

theorem exists_isArray_iff :
    (∃ x ∈ (TypeUnion.ofTokens (nulls t ++ ts)).tokens, IsArray x) ↔ ∃ x ∈ ts, IsArray x := by
  simp only [mem_formed h]
  constructor
  · rintro ⟨x, hx | hx, harray⟩
    · obtain rfl := mem_nulls hx
      cases harray.head?
    · exact ⟨x, hx, harray⟩
  · rintro ⟨x, hx, harray⟩
    exact ⟨x, .inr hx, harray⟩

end Trimmed

theorem array_tokens_trimmed : ∀ w ∈ ["Array<any>", "Record<number|string, any>"],
    Text.trim w = w ∧ w ≠ "" := by decide

theorem not_isArray_record : ¬IsArray "Record<number|string, any>" ∧
    ¬IsArray "Record<string, any>" := by
  constructor
  · intro h
    cases h.head?
  · intro h
    cases h.head?

theorem isArray_any : IsArray "Array<any>" := ⟨"any", rfl⟩

theorem word_trimmed (h : formOf t = .scalar word) :
    ∀ w ∈ [word], Text.trim w = w ∧ w ≠ "" := by
  have hwords : ∀ w ∈ ["string", "number", "boolean", "null"], Text.trim w = w ∧ w ≠ "" := by
    decide
  exact List.forall_mem_singleton.2 (hwords word (word_of_scalar h))

theorem collectionToken_trimmed (t : FieldType) (e : String) :
    ∀ w ∈ [collectionToken t e], Text.trim w = w ∧ w ≠ "" := by
  refine List.forall_mem_singleton.2 ⟨(collectionToken_spec t e).1, ?_⟩
  unfold collectionToken
  split <;> simp

theorem Gives.lists_iff (h : Gives cat r t u) :
    Lists t u ↔ ∀ x ∈ u.tokens, x ≠ "null" → IsArray x := by
  cases h with
  | scalar hform =>
    rw [all_isArray_iff (word_trimmed hform), List.forall_mem_singleton]
    simp only [Lists, hform, not_isArray_of_scalar hform]
    tauto
  | @collection _ e hform _ =>
    have hne : collectionToken t e ≠ "null" := by
      unfold collectionToken
      intro heq
      have hhead := congrArg (fun s : String => s.toList.head?) heq
      split at hhead <;> simp [String.toList_append] at hhead
    rw [all_isArray_iff (collectionToken_trimmed t e), List.forall_mem_singleton]
    simp only [Lists, hform, ← (collectionToken_spec t e).2]
    exact ⟨fun harray _ => harray, fun hall => hall hne⟩
  | array hform =>
    rw [all_isArray_iff array_tokens_trimmed]
    simp only [Lists, hform, false_iff]
    intro hall
    exact not_isArray_record.1 (hall _ (by simp) (by decide))
  | record hform =>
    rw [all_isArray_iff (by decide), List.forall_mem_singleton]
    simp only [Lists, hform, false_iff]
    exact fun hall => not_isArray_record.2 (hall (by decide))
  | object hform _ => simp only [Lists, hform]

theorem Gives.hasArray_iff (h : Gives cat r t u) : HasArray t u ↔ ∃ x ∈ u.tokens, IsArray x := by
  cases h with
  | scalar hform =>
    rw [exists_isArray_iff (word_trimmed hform)]
    simp [HasArray, hform, not_isArray_of_scalar hform]
  | @collection _ e hform _ =>
    rw [exists_isArray_iff (collectionToken_trimmed t e)]
    simp [HasArray, hform, (collectionToken_spec t e).2]
  | array hform =>
    rw [exists_isArray_iff array_tokens_trimmed]
    simp [HasArray, hform, isArray_any]
  | record hform =>
    rw [exists_isArray_iff (by decide)]
    simp [HasArray, hform, not_isArray_record.2]
  | object hform _ => simp only [HasArray, hform]

end Arrays

namespace MadeOf

variable {cat : Catalog} {r : TypeRegistry} {types : List FieldType} {unions : List TypeUnion}
  {p : Property} (h : MadeOf cat r types unions p)
include h

theorem exists_form {u : TypeUnion} (hu : u ∈ unions) : ∃ t, (t, u) ∈ types.zip unions := by
  have hzip : (types.zip unions).map Prod.snd = unions :=
    List.map_snd_zip h.gives.length_eq.ge
  rw [← hzip] at hu
  obtain ⟨⟨t, u⟩, htu, rfl⟩ := List.mem_map.1 hu
  exact ⟨t, htu⟩

/-- All tokens are arrays just if all forms of value give such tokens. -/
theorem arrays_iff :
    (∀ x ∈ p.union.tokens, x ≠ "null" → IsArray x) ↔ List.Forall₂ Lists types unions := by
  obtain ⟨hlength, hgives⟩ := List.forall₂_iff_zip.1 h.gives
  constructor
  · intro hall
    refine List.forall₂_iff_zip.2 ⟨hlength, fun {t u} htu => (hgives htu).lists_iff.2 ?_⟩
    intro x hx
    exact hall x ((h.tokens x).2 ⟨u, (List.of_mem_zip htu).2, hx⟩)
  · intro hlists x hx
    obtain ⟨u, hu, hx⟩ := (h.tokens x).1 hx
    obtain ⟨t, htu⟩ := h.exists_form hu
    exact (hgives htu).lists_iff.1 ((List.forall₂_iff_zip.1 hlists).2 htu) x hx

theorem exists_array_iff : (∃ x ∈ p.union.tokens, IsArray x) ↔
    ∃ t u, (t, u) ∈ types.zip unions ∧ HasArray t u := by
  obtain ⟨-, hgives⟩ := List.forall₂_iff_zip.1 h.gives
  constructor
  · rintro ⟨x, hx, harray⟩
    obtain ⟨u, hu, hx⟩ := (h.tokens x).1 hx
    obtain ⟨t, htu⟩ := h.exists_form hu
    exact ⟨t, u, htu, (hgives htu).hasArray_iff.2 ⟨x, hx, harray⟩⟩
  · rintro ⟨t, u, htu, harray⟩
    obtain ⟨x, hx, harray⟩ := (hgives htu).hasArray_iff.1 harray
    exact ⟨x, (h.tokens x).2 ⟨u, (List.of_mem_zip htu).2, hx⟩, harray⟩

end MadeOf
end Model

namespace Payload

def mappedLine (name : String) (c : Converter) : String :=
  let field := "entity[" ++ Json.quote name ++ "]"
  "        " ++ field ++ " = " ++ field ++ ".map(item => " ++ c.name ++ "(item));"

def directLine (name : String) (c : Converter) : String :=
  let field := "entity[" ++ Json.quote name ++ "]"
  "        " ++ field ++ " = " ++ c.name ++ "(" ++ field ++ ");"

variable {d : Draft} {t : TypeEntry} {p : Property} {c : Converter}

theorem exists_render (hp : p ∈ t.properties.values) (hc : converter? d p = some c) :
    ∃ before opening closing after, (render d t).1 = String.intercalate "\n" (before ++
      [opening, if p.isCollection then mappedLine p.name c else directLine p.name c, closing] ++
        after) := by
  have hmem : (p, c) ∈ t.properties.values.filterMap fun p =>
      (converter? d p).map fun c => (p, c) :=
    List.mem_filterMap.2 ⟨p, hp, by rw [hc]; rfl⟩
  obtain ⟨init, rest, hsplit⟩ := List.append_of_mem hmem
  unfold render
  dsimp only
  rw [hsplit, List.flatMap_append, List.flatMap_cons]
  have hlines : ∀ start middle ending : List String,
      start ++ (middle ++ (convertLines p c ++ rest.flatMap fun r => convertLines r.1 r.2)) ++
        ending = start ++ middle ++ convertLines p c ++
          ((rest.flatMap fun r => convertLines r.1 r.2) ++ ending) := by
    intro start middle ending
    simp only [List.append_assoc]
  rw [hlines]
  exact ⟨_, _, _, _, rfl⟩

end Payload

open Model

def OfField (cat : Catalog) (r : TypeRegistry) (c : String) (p : Property) : Prop :=
  ∃ f unions, cat.HasField c f ∧ f.name = p.name ∧ MadeOf cat r f.types unions p

theorem abiding_ofField (cat : Catalog) : Abiding cat (OfField cat) where
  built hv hs ho hmem hexposed hbuild _ := by
    obtain ⟨-, hbuilt⟩ := built_of_buildProperty hv rfl ho.houses hs hbuild
    obtain ⟨unions, hmade⟩ := madeOf_of_buildProperty hv rfl ho.houses hs hbuild
    exact ⟨_, unions, ⟨_, ho.described, hmem, hexposed⟩, hbuilt.sameField.name.symm, hmade⟩
  put := by
    rintro r t c p ⟨f, unions, hf, hname, hmade⟩ hheld
    exact ⟨f, unions, hf, hname, hmade.mono fun hfiles => hfiles.put hheld⟩
  modify := by
    rintro r name c g p ⟨f, unions, hf, hname, hmade⟩ hg
    exact ⟨f, unions, hf, hname, hmade.mono fun hfiles => hfiles.modify hg⟩

/-- A relation is converted element by element just if some form of its values marks a collection.
Then all its tokens are arrays just if all forms give arrays, and it has a token that is an array
just if some form gives one. -/
theorem relation_converted {doc : Document} {disk : Disk} {d : Draft} {t : TypeEntry}
    {p : Property} {conversion : Payload.Converter} (h : Extracts (.ofDocument doc) disk d)
    (ht : t ∈ d.types.toList) (hshaped : Payload.isShaped t = true)
    (hp : p ∈ t.properties.values) (hc : Payload.converter? d p = some conversion) :
    ∃ c f unions, t.source = some c ∧ (Catalog.ofDocument doc).HasField c f ∧ f.name = p.name ∧
      MadeOf (.ofDocument doc) d.types f.types unions p ∧
      Payload.fragment d t ∈ d.files.fragments (t.file.getD "") ∧
      (∃ before opening closing after, (Payload.fragment d t).body = String.intercalate "\n"
        (before ++ [opening, if f.types.any isMultiple
          then Payload.mappedLine p.name conversion else Payload.directLine p.name conversion,
          closing] ++ after)) ∧
      ((f.types.any isMultiple = true →
          ∀ x ∈ p.union.tokens, x ≠ "null" → IsArray x) ↔
        f.types.any isMultiple = false ∨ List.Forall₂ Lists f.types unions) ∧
      ((¬(∃ x ∈ p.union.tokens, IsArray x) → f.types.any isMultiple = false) ↔
        f.types.any isMultiple = false ∨
          ∃ form u, (form, u) ∈ f.types.zip unions ∧ HasArray form u) := by
  obtain ⟨seeded, modeled, served, hphased⟩ := h.phased
  obtain ⟨n, hn⟩ := mem_toList.1 ht
  have hpersistent : t.persistent = true := by
    simp only [Payload.isShaped, Bool.and_eq_true] at hshaped
    exact hshaped.1.2
  have hmade := hphased.traced.hasFactory_of_persistent hn hpersistent
  obtain ⟨c, shape, -, hhead, -⟩ := hphased.traced.model_of_hasFactory hn hmade
  have hsource : t.source = some c := TypeEntry.source_of_head hhead
  obtain ⟨x, hx⟩ := OrderedMap.mem_values_iff.1 hp
  obtain ⟨-, f, unions, hf, hname, hforms⟩ :=
    ((abiding_ofField _).of_phased hphased).holds hn hmade hsource hx
  -- Helpers are written last, so the property has not changed since.
  have hfragment : Payload.fragment d t ∈ d.files.fragments (t.file.getD "") :=
    hphased.fragments.2 (.inr ⟨t, List.mem_filter.2 ⟨ht, hshaped⟩, rfl, rfl⟩)
  refine ⟨c, f, unions, hsource, hf, hname, hforms, hfragment, ?_, ?_, ?_⟩
  · rw [← hforms.mark]
    exact Payload.exists_render hp hc
  · rw [hforms.arrays_iff]
    cases f.types.any isMultiple <;> simp
  · rw [hforms.exists_array_iff]
    cases f.types.any isMultiple <;> simp

def authorForm : FieldType where
  builtin := "object"
  className := some "App\\Entity\\Author"

def authorsForm (keyType : String) : FieldType where
  builtin := "array"
  collection := true
  keyType := some keyType
  value := some authorForm

def writerDecl : ClassDecl where
  className := "App\\Entity\\Author"
  exposures := [{
    shortName := "Author"
    operations := [{ type := some "Get", uriTemplate := some "/authors/\x7bid\x7d" }] }]

def anthologyDecl (types : List FieldType) : ClassDecl where
  className := "App\\Entity\\Book"
  persistent := true
  fields := [{ name := "authors", types := types }]
  exposures := [{ shortName := "Book" }]

def anthology (types : List FieldType) : Document where
  classes := [writerDecl, anthologyDecl types]

/-- How the authors of a book are converted after a run that succeeds. -/
def authorsConversion (doc : Document) : Option (Bool × List String × Payload.Converter) :=
  let d := extraction (.ofDocument doc) {}
  if (({} : Run).takeSteps (Pipeline.extraction (.ofDocument doc) {})).1.isOk then do
    let t ← d.types.toList.find? fun t => t.source == some "App\\Entity\\Book"
    let p ← t.properties.get? "authors"
    let c ← Payload.converter? d p
    if Payload.isShaped t then some (p.isCollection, p.union.tokens, c) else none
  else none

theorem exists_authors (doc : Document) (mark : Bool) (tokens : List String)
    (c : Payload.Converter) (h : authorsConversion doc = some (mark, tokens, c)) :
    ∃ d t p, Extracts (.ofDocument doc) {} d ∧ t ∈ d.types.toList ∧
      t.source = some "App\\Entity\\Book" ∧ Payload.isShaped t = true ∧
      p ∈ t.properties.values ∧ Payload.converter? d p = some c ∧ p.isCollection = mark ∧
      p.union.tokens = tokens := by
  unfold authorsConversion at h
  dsimp only at h
  split at h
  · rename_i hok
    obtain ⟨t, ht, h⟩ := Option.bind_eq_some_iff.1 h
    obtain ⟨p, hp, h⟩ := Option.bind_eq_some_iff.1 h
    obtain ⟨c', hc, h⟩ := Option.bind_eq_some_iff.1 h
    split at h
    · rename_i hshaped
      simp only [Option.some.injEq, Prod.mk.injEq] at h
      obtain ⟨rfl, rfl, rfl⟩ := h
      exact ⟨_, t, p, extracts_extraction hok, List.mem_of_find?_eq_some ht,
        by simpa using List.find?_some ht, hshaped, OrderedMap.mem_values_iff.2 ⟨_, hp⟩, hc, rfl,
        rfl⟩
    · cases h
  · cases h

/-- Authors under text are converted as if they stood in an array. -/
theorem authors_under_text : ∃ d t p conversion,
    Extracts (.ofDocument (anthology [authorsForm "string"])) {} d ∧ t ∈ d.types.toList ∧
      Payload.isShaped t = true ∧ p ∈ t.properties.values ∧
      Payload.converter? d p = some conversion ∧
      (∃ before opening closing after, (Payload.fragment d t).body = String.intercalate "\n"
        (before ++ [opening, Payload.mappedLine p.name conversion, closing] ++ after)) ∧
      ∃ x ∈ p.union.tokens, x ≠ "null" ∧ ¬IsArray x := by
  obtain ⟨d, t, p, hd, ht, -, hshaped, hp, hc, hmark, htokens⟩ := exists_authors
    (anthology [authorsForm "string"]) true ["\x7b [key: string]: Author|HydraIri<Author> \x7d"]
    ⟨"generateAuthorIri", "endpoint/Author"⟩ (by decide +kernel)
  obtain ⟨before, opening, closing, after, hbody⟩ := Payload.exists_render hp hc
  rw [hmark, if_pos rfl] at hbody
  have hmem : "\x7b [key: string]: Author|HydraIri<Author> \x7d" ∈ p.union.tokens := by
    rw [htokens]
    exact List.mem_singleton_self _
  have hplain : ¬IsArray "\x7b [key: string]: Author|HydraIri<Author> \x7d" := by
    intro harray
    cases harray.head?
  exact ⟨d, t, p, _, hd, ht, hshaped, hp, hc, ⟨_, _, _, _, hbody⟩, _, hmem, by decide, hplain⟩

/-- Authors under numbers are in an array, and so they are converted. -/
theorem authors_under_numbers : ∃ d t p conversion,
    Extracts (.ofDocument (anthology [authorsForm "int"])) {} d ∧ t ∈ d.types.toList ∧
      Payload.isShaped t = true ∧ p ∈ t.properties.values ∧
      Payload.converter? d p = some conversion ∧ (∀ x ∈ p.union.tokens, x ≠ "null" → IsArray x) ∧
      ∃ before opening closing after, (Payload.fragment d t).body = String.intercalate "\n"
        (before ++ [opening, Payload.mappedLine p.name conversion, closing] ++ after) := by
  obtain ⟨d, t, p, hd, ht, hsource, hshaped, hp, hc, -, -⟩ := exists_authors
    (anthology [authorsForm "int"]) true ["Array<Author|HydraIri<Author>>"]
    ⟨"generateAuthorIri", "endpoint/Author"⟩ (by decide +kernel)
  obtain ⟨c, f, unions, hsource', hf, -, hforms, -, hbody, harrays, -⟩ :=
    relation_converted hd ht hshaped hp hc
  obtain rfl := Option.some.inj (hsource.symm.trans hsource')
  have htypes : f.types = [authorsForm "int"] := by
    obtain ⟨shape, hshape, hfield, -⟩ := hf
    have hbook : (Catalog.ofDocument (anthology [authorsForm "int"])).class?
        "App\\Entity\\Book" = some (anthologyDecl [authorsForm "int"]) := rfl
    obtain rfl := Option.some.inj (hshape.symm.trans hbook)
    obtain rfl := List.mem_singleton.1 hfield
    rfl
  have hmultiple : [authorsForm "int"].any isMultiple = true := by decide
  rw [htypes] at hforms hbody harrays
  rw [hmultiple, if_pos rfl] at hbody
  have hlists : List.Forall₂ Lists [authorsForm "int"] unions := by
    cases hforms.gives with
    | cons _ hnone =>
      cases hnone
      exact .cons rfl .nil
  exact ⟨d, t, p, _, hd, ht, hshaped, hp, hc, harrays.2 (.inr hlists) hmultiple, hbody⟩

end HydraClient
