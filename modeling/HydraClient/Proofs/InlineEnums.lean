import HydraClient.Operations
import HydraClient.Proofs.Contributions
import HydraClient.Proofs.Literals
import HydraClient.Proofs.Refusals

/-! # Inline enums

The values that a parameter may take stand as literals in the type of its field, behind null. Their
alternation is taken apart again when it is contributed and when the field becomes a property, so
the field holds the literals exactly if the scanner of alternations finds them. It does when no
string among them has a quotation mark.
-/
namespace HydraClient

open TypeExpr
open Metadata (FilterParameter)

/-- The tokens that spell null and each distinct value. -/
def literalTokens (vs : List Json) : List String := ("null" :: vs.map Json.compact).eraseDups

section Tokens

variable {vs : List Json}

private theorem toList_compacts (vs : List Json) :
    (vs.map Json.compact).map String.toList = vs.map fun v => v.compact.toList := by
  rw [List.map_map]
  rfl

theorem cut_null (hcut : Cut {} (vs.map fun v => v.compact.toList)) :
    Cut {} (("null" :: vs.map Json.compact).map String.toList) := by
  rw [List.map_cons, toList_compacts]
  exact .more (unbarred_of_not_mem (by decide)) (by decide) hcut

theorem trimmed_literals (hatoms : ∀ v ∈ vs, v.isAtom = true) :
    ∀ t ∈ "null" :: vs.map Json.compact, Text.trim t = t ∧ t ≠ "" := by
  intro t ht
  rcases List.mem_cons.1 ht with rfl | ht
  · exact Json.compact_trimmed (v := .null) rfl
  · obtain ⟨v, hv, rfl⟩ := List.mem_map.1 ht
    exact Json.compact_trimmed (hatoms v hv)

/-- The alternation of literals falls into them again exactly if they are cut. -/
theorem split_literals_iff (hne : vs ≠ []) (hatoms : ∀ v ∈ vs, v.isAtom = true) :
    (split ("|".intercalate ("null" :: vs.map Json.compact))).eraseDups = literalTokens vs ↔
      Cut {} (vs.map fun v => v.compact.toList) := by
  constructor
  · intro h
    have hcut : Cut {} ((Json.null :: vs).map fun v => v.compact.toList) := by
      refine Json.cut_of_splitChars (List.cons_ne_nil _ _) ?_ fun t ht => ?_
      · intro v hv
        rcases List.mem_cons.1 hv with rfl | hv
        · rfl
        · exact hatoms v hv
      · have hsplit :
            String.ofList t ∈ split ("|".intercalate ("null" :: vs.map Json.compact)) := by
          rw [split, String.toList_intercalate, List.map_cons, toList_compacts]
          exact List.mem_map_of_mem ht
        rw [← List.mem_eraseDups, h, literalTokens, List.mem_eraseDups, List.mem_cons] at hsplit
        rcases hsplit with hnull | hliteral
        · refine ⟨.null, rfl, ?_⟩
          rw [← String.toList_ofList (l := t), hnull]
          rfl
        · obtain ⟨v, hv, heq⟩ := List.mem_map.1 hliteral
          exact ⟨v, hatoms v hv, by rw [heq, String.toList_ofList]⟩
    exact hcut.sublist (List.sublist_cons_self _ _) (by simpa using hne)
  · intro hcut
    rw [split_intercalate (cut_null hcut) (trimmed_literals hatoms)]
    rfl

theorem eraseDups_sublist {α : Type} [DecidableEq α] (l : List α) : l.eraseDups.Sublist l := by
  induction l using List.reverseRecOn with
  | nil => exact List.Sublist.refl _
  | append_singleton init a ih =>
    rw [eraseDups_concat]
    split
    · exact ih.trans (List.sublist_append_left _ _)
    · exact ih.append (List.Sublist.refl _)

theorem parse_literalTokens (hatoms : ∀ v ∈ vs, v.isAtom = true)
    (hcut : Cut {} (vs.map fun v => v.compact.toList)) :
    (TypeUnion.parse ("|".intercalate (literalTokens vs))).tokens = literalTokens vs := by
  have hsub := eraseDups_sublist ("null" :: vs.map Json.compact)
  rw [TypeUnion.tokens_parse]
  · exact eraseDups_of_nodup (nodup_eraseDups _)
  · refine (cut_null hcut).sublist (hsub.map _) ?_
    rw [literalTokens, List.eraseDups_cons]
    exact List.cons_ne_nil _ _
  · exact fun t ht => trimmed_literals hatoms t (List.mem_eraseDups.1 ht)

end Tokens

def FilterFields.Named (fs : FilterFields) : Prop := ∀ name f, fs.get? name = some f → f.name = name

namespace FilterFields

variable {fs : FilterFields}

theorem Named.contribute (h : fs.Named) (name expression : String) (required collection : Bool) :
    (fs.contribute name expression required collection).Named := by
  intro name' f hf
  rw [FilterFields.contribute, OrderedMap.get?_insert] at hf
  split at hf
  · rename_i hname
    subst hname
    obtain rfl := Option.some.inj hf
    cases hheld : fs.get? name' with
    | none => rfl
    | some held => exact h name' held hheld
  · exact h name' f hf

theorem Named.get?_listProperties (h : fs.Named) {name : String} {f : FilterField}
    (hf : fs.get? name = some f) :
    (Operations.listProperties fs).get? name = some f.toProperty := by
  have hnames : (fs.values.map fun f => (f.name, f.toProperty)).map Prod.fst = fs.keys := by
    rw [OrderedMap.values, List.map_map, List.map_map]
    exact List.map_congr_left fun e he => h e.1 e.2 (OrderedMap.mem_entries_iff.1 he)
  rw [Operations.listProperties, OrderedMap.get?_ofList_of_nodup (hnames ▸ fs.distinct)]
  refine List.mem_map.2 ⟨f, OrderedMap.mem_values_iff.2 ⟨name, hf⟩, ?_⟩
  rw [h name f hf]

end FilterFields

namespace Filter

variable {types : TypeRegistry} {resource : TypeEntry} {filter : Metadata.Filter} {key : String}
  {p : FilterParameter} {prop : Property} {vs : List Json}

theorem unwritable?_of_isAtom {v : Json} (h : v.isAtom = true) :
    v.unwritable? = none ∨
      v.unwritable? = some .intTooLong ∧ ∃ n, v = .int n ∧ Text.isOverlong n = true := by
  cases v with
  | int n =>
    cases hn : Text.isOverlong n
    · exact .inl (by simp [Json.unwritable?, Json.intUnwritable?, hn])
    · exact .inr ⟨by simp [Json.unwritable?, Json.intUnwritable?, hn], n, rfl, hn⟩
  | _ => first | exact .inl rfl | cases h

theorem literal_of_isAtom {v : Json} (h : v.isAtom = true)
    (hshort : ∀ n, v = .int n → Text.isOverlong n = false) : Script.literal v = .ok v.compact := by
  refine Script.written_ok_iff.2 ⟨?_, rfl⟩
  rcases unwritable?_of_isAtom h with hnone | ⟨-, n, hv, hlong⟩
  · exact hnone
  · exact absurd hlong (by rw [hshort n hv]; nofun)

theorem enumerated_of_values {schema : OrderedMap String Json}
    (henum : schema.get? "enum" = some (.arr vs)) : enumerated schema = .ok vs := by
  rw [enumerated, henum]
  rfl

theorem valueUnion_of_overlong {schema : OrderedMap String Json}
    (henum : schema.get? "enum" = some (.arr vs)) (hatoms : ∀ v ∈ vs, v.isAtom = true)
    (hlong : ∃ n, .int n ∈ vs ∧ Text.isOverlong n = true) :
    valueUnion schema = .error (.unwritable .intTooLong) := by
  rw [valueUnion, enumerated_of_values henum]
  change (vs.mapM (fun v => Script.literal v) >>= _) = _
  cases hliterals : vs.mapM fun v => Script.literal v with
  | error e =>
    obtain ⟨v, hv, he⟩ := exists_of_mapM_error hliterals
    obtain ⟨reason, hreason, rfl⟩ := Script.written_error_iff.1 he
    rcases unwritable?_of_isAtom (hatoms v hv) with hnone | ⟨hlong, -⟩
    · exact absurd (hnone.symm.trans hreason) nofun
    · obtain rfl := Option.some.inj (hlong.symm.trans hreason)
      rfl
  | ok literals =>
    obtain ⟨n, hn, hlong⟩ := hlong
    obtain ⟨t, -, ht⟩ := exists_of_mapM_ok hliterals hn
    have hwritten := (Script.written_ok_iff.1 ht).1
    simp [Json.unwritable?, Json.intUnwritable?, hlong] at hwritten

theorem valueUnion_of_atoms {schema : OrderedMap String Json}
    (henum : schema.get? "enum" = some (.arr vs)) (hne : vs ≠ [])
    (hatoms : ∀ v ∈ vs, v.isAtom = true)
    (hshort : ∀ n, .int n ∈ vs → Text.isOverlong n = false) :
    valueUnion schema = .ok ("|".intercalate (vs.map Json.compact)) := by
  have hliterals : vs.mapM (fun v => Script.literal v) = .ok (vs.map Json.compact) :=
    mapM_eq_ok fun v hv => literal_of_isAtom (hatoms v hv) fun n hn => hshort n (hn ▸ hv)
  have hnonempty : "|".intercalate (vs.map Json.compact) ≠ "" := by
    obtain ⟨v, hv⟩ := List.exists_mem_of_ne_nil vs hne
    intro hempty
    have hle := length_le_intercalate "|".toList
      (List.mem_map_of_mem (f := String.toList) (List.mem_map_of_mem (f := Json.compact) hv))
    rw [← String.toList_intercalate, hempty] at hle
    exact (Json.compact_trimmed (hatoms v hv)).2
      (String.toList_eq_nil_iff.1 (List.length_eq_zero_iff.1 (Nat.le_zero.1 hle)))
  rw [valueUnion, enumerated_of_values henum]
  change (do
    let literals ← vs.mapM fun v => Script.literal v
    pure (if "|".intercalate literals = "" then "string" else "|".intercalate literals)) = _
  rw [hliterals]
  change Except.ok (if _ then _ else _) = _
  rw [if_neg hnonempty]

theorem outcome_backedEnumField (d : Derivation)
    (hexposed : resource.properties.get? (FilterKey.start key p) = some prop)
    (hmodelled : prop.enumName.filter (· != "") = none)
    (henum : p.schema.get? "enum" = some (.arr vs)) (hne : vs ≠ [])
    (hatoms : ∀ v ∈ vs, v.isAtom = true)
    (hshort : ∀ n, .int n ∈ vs → Text.isOverlong n = false) :
    outcome (backedEnumField types resource filter key p) d =
      outcome (Deriving.contribute key ("|".intercalate ("null" :: vs.map Json.compact))
        p.required p.isCollection) d := by
  have htext : "|".intercalate ("null" :: vs.map Json.compact) =
      "null|" ++ "|".intercalate (vs.map Json.compact) := by
    rw [String.intercalate_cons_of_ne_nil (by simpa using hne)]
    rfl
  rw [backedEnumField, localProperty_of_exposed hexposed, pure_bind, htext, hmodelled,
    valueUnion_of_atoms henum hne hatoms hshort]
  rfl

def Held (name : String) (held : Option FilterField) (d : Derivation) : Prop :=
  d.fields.Named ∧ d.fields.get? name = held

section Frame

variable {name : String} {held : Option FilterField}

theorem Held.depend (file n : String) :
    Ends (Held name held) (Deriving.depend file n) (fun _ => Held name held)
      (fun _ => Held name held) :=
  .modify fun d hd => by split <;> exact hd

theorem Held.dependOnType (n : String) :
    Ends (Held name held) (Deriving.dependOnType types n) (fun _ => Held name held)
      (fun _ => Held name held) := by
  unfold Deriving.dependOnType
  split
  · split
    · exact .depend _ _
    · exact .pure fun _ hd => hd
  · exact .pure fun _ hd => hd

theorem Held.contribute (hne : key ≠ name) (expression : String) (required collection : Bool) :
    Ends (Held name held) (Deriving.contribute key expression required collection)
      (fun _ => Held name held) (fun _ => Held name held) := by
  refine .modify fun d hd => ⟨hd.1.contribute _ _ _ _, ?_⟩
  rw [FilterFields.contribute, OrderedMap.get?_insert, if_neg (Ne.symm hne)]
  exact hd.2

theorem Held.backedEnumField (hne : key ≠ name) :
    Ends (Held name held) (Filter.backedEnumField types resource filter key p)
      (fun _ => Held name held) (fun _ => Held name held) := by
  unfold Filter.backedEnumField Filter.localProperty
  dsimp only
  refine .bind (Q := fun _ => Held name held) ?_ fun prop => ?_
  · split
    · exact .pure fun _ hd => hd
    · exact .throw fun _ hd => hd
  · split
    · exact (Held.dependOnType _).bind fun _ => Held.contribute hne _ _ _
    · exact (Ends.lift (Q := fun _ => Held name held) (fun _ _ _ hd => hd) fun _ _ _ hd => hd).bind
        fun _ => Held.contribute hne _ _ _

theorem Held.backedEnumFields {entries : List (String × FilterParameter)}
    (hne : ∀ e ∈ entries, e.1 ≠ name) :
    Ends (Held name held)
      (entries.forM fun e => Filter.backedEnumField types resource filter e.1 e.2)
      (fun _ => Held name held) (fun _ => Held name held) :=
  Ends.forM (I := fun _ => Held name held) fun _ e _ hsplit =>
    Held.backedEnumField (hne e (by simp [hsplit]))

end Frame

def literalField (key : String) (p : FilterParameter) (vs : List Json) : FilterField where
  name := key
  union := TypeUnion.empty.addExpression ("|".intercalate ("null" :: vs.map Json.compact))
  required := p.required
  isCollection := p.isCollection

/-- A filter over an enum leaves the field of literals behind, whether or not it breaks off over a
later parameter. -/
theorem held_literalField (types : TypeRegistry) {before after : List (String × FilterParameter)}
    {d : Derivation}
    (hnamed : d.fields.Named) (hfresh : d.fields.get? key = none)
    (hkind : filter.kind = .backedEnum)
    (hsplit : filter.parameters.entries = before ++ (key, p) :: after)
    (hbefore : ∀ e ∈ before, refusal? resource filter e = none)
    (hexposed : resource.properties.get? (FilterKey.start key p) = some prop)
    (hmodelled : prop.enumName.filter (· != "") = none)
    (henum : p.schema.get? "enum" = some (.arr vs)) (hne : vs ≠ [])
    (hatoms : ∀ v ∈ vs, v.isAtom = true)
    (hshort : ∀ n, .int n ∈ vs → Text.isOverlong n = false) :
    Held key (some (literalField key p vs)) (outcome (derive types resource filter) d).2 := by
  have hdistinct := filter.parameters.distinct
  rw [hsplit, List.map_append, List.map_cons, List.nodup_append, List.nodup_cons] at hdistinct
  obtain ⟨-, ⟨hafter, -⟩, hapart⟩ := hdistinct
  have hothers : ∀ e ∈ before, e.1 ≠ key := fun e he heq =>
    hapart e.1 (List.mem_map_of_mem he) key List.mem_cons_self heq
  have hothers' : ∀ e ∈ after, e.1 ≠ key := fun e he heq =>
    hafter (List.mem_map.2 ⟨e, he, heq⟩)
  let visit : String × FilterParameter → Deriving Unit := fun e =>
    backedEnumField types resource filter e.1 e.2
  obtain ⟨d₁, hd₁⟩ : ∃ d₁, outcome (before.forM visit) d = (.ok ⟨⟩, d₁) := by
    have hrefuses : Refuses (before.forM visit) (before.findSome? (refusal? resource filter)) := by
      rw [refusal?_of_backedEnum hkind]
      exact .forM fun _ => refuses_backedEnumField
    have hnone := hrefuses d
    rw [List.findSome?_eq_none_iff.2 hbefore, failure?_eq_none_iff] at hnone
    obtain ⟨⟨⟩, hok⟩ := hnone
    exact ⟨_, Prod.ext hok rfl⟩
  -- No other parameter has the key, so the field is new, and nothing is added to it later.
  have hheld : Held key none d₁ :=
    (Held.backedEnumFields hothers).ok ⟨hnamed, hfresh⟩ hd₁
  have hrun : outcome (derive types resource filter) d = outcome (after.forM visit)
      (outcome (visit (key, p)) d₁).2 := by
    have hderive : derive types resource filter =
        before.forM visit >>= fun _ => visit (key, p) >>= fun _ => after.forM visit := by
      rw [derive, hkind]
      change filter.parameters.entries.forM visit = _
      rw [hsplit]
      exact List.forM_append
    rw [hderive, outcome_bind, hd₁]
    dsimp only
    rw [outcome_bind, outcome_backedEnumField d₁ hexposed hmodelled henum hne hatoms hshort]
    rfl
  rw [hrun, outcome_backedEnumField d₁ hexposed hmodelled henum hne hatoms hshort]
  refine (Held.backedEnumFields hothers').left ⟨hheld.1.contribute _ _ _ _, ?_⟩
  change (d₁.fields.contribute _ _ _ _).get? key = _
  rw [FilterFields.contribute, hheld.2, OrderedMap.get?_insert, if_pos rfl]
  simp [literalField]

/-- A filter over an enum breaks off over a whole number that is too long to be written, and no
field is made of the values. -/
theorem derive_of_overlong (types : TypeRegistry) {before after : List (String × FilterParameter)}
    (d : Derivation) (hkind : filter.kind = .backedEnum)
    (hsplit : filter.parameters.entries = before ++ (key, p) :: after)
    (hbefore : ∀ e ∈ before, refusal? resource filter e = none)
    (hexposed : resource.properties.get? (FilterKey.start key p) = some prop)
    (hmodelled : prop.enumName.filter (· != "") = none)
    (henum : p.schema.get? "enum" = some (.arr vs)) (hatoms : ∀ v ∈ vs, v.isAtom = true)
    (hlong : ∃ n, .int n ∈ vs ∧ Text.isOverlong n = true) :
    (outcome (derive types resource filter) d).1 = .error (.unwritable .intTooLong) := by
  have hvalues : refusal? resource filter (key, p) = some (.unwritable .intTooLong) := by
    rw [refusal?_of_backedEnum hkind]
    simp [lookupRefusal?, valuesRefusal?, hexposed, hmodelled,
      valueUnion_of_overlong henum hatoms hlong, failure?]
  rw [← failure?_eq_some_iff, refuses_derive d, hsplit, List.findSome?_append,
    List.findSome?_eq_none_iff.2 hbefore, findSome?_cons_or, hvalues]
  rfl

/-- The field of an inline enum, and the property that it becomes, hold null and each distinct
literal exactly if the scanner finds the literals in their alternation. No field is made if one of
the values is a whole number of too many digits. -/
theorem inline_enum_kept_iff (types : TypeRegistry) {before after : List (String × FilterParameter)}
    {d : Derivation} (hnamed : d.fields.Named) (hfresh : d.fields.get? key = none)
    (hkind : filter.kind = .backedEnum)
    (hsplit : filter.parameters.entries = before ++ (key, p) :: after)
    (hbefore : ∀ e ∈ before, refusal? resource filter e = none)
    (hexposed : resource.properties.get? (FilterKey.start key p) = some prop)
    (hmodelled : prop.enumName.filter (· != "") = none)
    (henum : p.schema.get? "enum" = some (.arr vs)) (hne : vs ≠ [])
    (hatoms : ∀ v ∈ vs, v.isAtom = true) :
    ((∃ n, .int n ∈ vs ∧ Text.isOverlong n = true) →
      (outcome (derive types resource filter) d).1 = .error (.unwritable .intTooLong)) ∧
    ((∀ n, .int n ∈ vs → Text.isOverlong n = false) →
      ∃ f, (outcome (derive types resource filter) d).2.fields.get? key = some f ∧
        f.required = p.required ∧ f.isCollection = p.isCollection ∧
        (Operations.listProperties (outcome (derive types resource filter) d).2.fields).get? key =
          some f.toProperty ∧
        ((f.union.tokens = literalTokens vs ∧
            (f.isCollection = false → f.toProperty.union.tokens = literalTokens vs)) ↔
          Cut {} (vs.map fun v => v.compact.toList)) ∧
        ((∀ s, .str s ∈ vs → '"' ∉ s.toList) → Cut {} (vs.map fun v => v.compact.toList))) := by
  refine ⟨derive_of_overlong types d hkind hsplit hbefore hexposed hmodelled henum hatoms,
    fun hshort => ?_⟩
  obtain ⟨hnames, hfield⟩ := held_literalField types hnamed hfresh hkind hsplit hbefore
    hexposed hmodelled henum hne hatoms hshort
  have htokens : (literalField key p vs).union.tokens = literalTokens vs ↔
      Cut {} (vs.map fun v => v.compact.toList) := by
    rw [← split_literals_iff hne hatoms, literalField, TypeUnion.tokens_addExpression]
    rfl
  refine ⟨literalField key p vs, hfield, rfl, rfl, hnames.get?_listProperties hfield,
    ⟨fun h => htokens.1 h.1, fun hcut => ⟨htokens.2 hcut, fun hsingle => ?_⟩⟩,
    Json.cut_of_no_quote hne hatoms⟩
  have hrender : (literalField key p vs).typeExpression =
      "|".intercalate (literalTokens vs) := by
    have hany : (literalField key p vs).union.tokens.isEmpty = false := by
      rw [htokens.2 hcut, literalTokens, List.eraseDups_cons]
      rfl
    rw [FilterField.typeExpression, hsingle, if_neg Bool.false_ne_true, TypeUnion.render, hany,
      if_neg Bool.false_ne_true, htokens.2 hcut]
  change (TypeUnion.parse (literalField key p vs).typeExpression).tokens = _
  rw [hrender, parse_literalTokens hatoms hcut]

/-- Bars, brackets and single quotation marks within strings do no harm. -/
theorem inline_tones_kept :
    let post : TypeEntry := {
      name := "Post"
      kind := .interface
      properties := .ofList [("tone", { name := "tone" })] }
    let vs : List Json := [.str "a|b", .int (-7), .str "it's <", .null, .str "a|b"]
    let tone : FilterParameter := { schema := .ofList [("enum", .arr vs)] }
    let tones : Metadata.Filter := {
      id := "post.tones", kind := .backedEnum
      parameters := { entries := [("tone", tone)] } }
    ∃ f, (outcome (derive {} post tones) {}).2.fields.get? "tone" = some f ∧
      f.union.tokens = ["null", "\"a|b\"", "-7", "\"it's <\""] ∧
      f.toProperty.union.tokens = ["null", "\"a|b\"", "-7", "\"it's <\""] := by
  intro post vs tone tones
  have hlist : literalTokens vs = ["null", "\"a|b\"", "-7", "\"it's <\""] := by decide +kernel
  have hstart : FilterKey.start "tone" tone = "tone" := by decide +kernel
  have hexposed : post.properties.get? (FilterKey.start "tone" tone) = some { name := "tone" } := by
    rw [hstart]
    rfl
  have hentries : tones.parameters.entries = [] ++ ("tone", tone) :: [] := rfl
  have henum : tone.schema.get? "enum" = some (.arr vs) := rfl
  have hnamed : ({} : Derivation).fields.Named := nofun
  have hshort : ∀ n, .int n ∈ vs → Text.isOverlong n = false := by
    intro n hn
    obtain rfl : n = -7 := by simpa [vs] using hn
    decide +kernel
  obtain ⟨f, hf, -, hcollection, -, hkept, hcut⟩ :=
    (inline_enum_kept_iff {} hnamed rfl rfl hentries nofun hexposed rfl henum (by simp [vs])
      (by simp [vs, Json.isAtom])).2 hshort
  obtain ⟨htokens, hproperty⟩ := hkept.2 (hcut (by simp [vs]))
  exact ⟨f, hf, htokens.trans hlist, (hproperty hcollection).trans hlist⟩

/-- The scanner takes the mark behind a backslash for the end of the string, and the bar after it
for the end of the literal. -/
theorem inline_quote_cut :
    let post : TypeEntry := {
      name := "Post"
      kind := .interface
      properties := .ofList [("tone", { name := "tone" })] }
    let tone : FilterParameter := { schema := .ofList [("enum", .arr [.str "a\"|b"])] }
    let tones : Metadata.Filter := {
      id := "post.tones", kind := .backedEnum
      parameters := { entries := [("tone", tone)] } }
    (Json.str "a\"|b").compact = "\"a\\\"|b\"" ∧
      ((outcome (derive {} post tones) {}).2.fields.get? "tone").map (·.union.tokens) =
        some ["null", "\"a\\\"", "b\""] ∧
      some ["null", "\"a\\\"", "b\""] ≠ some (literalTokens [.str "a\"|b"]) := by
  decide +kernel

end Filter
end HydraClient
