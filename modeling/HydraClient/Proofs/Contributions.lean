import HydraClient.Filter
import HydraClient.Proofs.Alternations

/-! # Contributed fields

A sequence of contributions unites what each of its names was given. A field of balanced expressions
is spelled so that parsing finds its tokens again, and brackets around all of them make one token
more.
-/
namespace HydraClient

section FirstOccurrences

variable {α : Type} [DecidableEq α]

theorem eraseDups_concat (l : List α) (a : α) :
    (l ++ [a]).eraseDups = if a ∈ l then l.eraseDups else l.eraseDups ++ [a] := by
  rw [List.eraseDups_append]
  split
  · rename_i h
    simp [List.removeAll, h]
  · rename_i h
    simp [List.removeAll, h, List.eraseDups_cons]

theorem eraseDups_of_nodup {l : List α} (h : l.Nodup) : l.eraseDups = l := by
  induction l with
  | nil => rfl
  | cons a rest ih =>
    rw [List.nodup_cons] at h
    have hrest : rest.filter (fun b => !b == a) = rest := by
      refine List.filter_eq_self.2 fun b hb => ?_
      have hne : b ≠ a := fun heq => h.1 (heq ▸ hb)
      simpa using hne
    rw [List.eraseDups_cons, hrest, ih h.2]

theorem nodup_eraseDups (l : List α) : l.eraseDups.Nodup := by
  induction l using List.reverseRecOn with
  | nil => exact List.nodup_nil
  | append_singleton init a ih =>
    rw [eraseDups_concat]
    split
    · exact ih
    · rename_i h
      rw [List.nodup_append]
      refine ⟨ih, by simp, fun b hb c hc => ?_⟩
      obtain rfl := List.mem_singleton.1 hc
      exact fun heq => h (heq ▸ List.mem_eraseDups.1 hb)

theorem eraseDups_eraseDups_append (l r : List α) :
    (l.eraseDups ++ r).eraseDups = (l ++ r).eraseDups := by
  induction r using List.reverseRecOn with
  | nil => rw [List.append_nil, List.append_nil, eraseDups_of_nodup (nodup_eraseDups l)]
  | append_singleton init a ih =>
    rw [← List.append_assoc, ← List.append_assoc, eraseDups_concat, eraseDups_concat, ih]
    simp only [List.mem_append, List.mem_eraseDups]

end FirstOccurrences

namespace TypeExpr

variable {ts : List String} {s t : String}

theorem trimmed_of_mem_split (h : t ∈ split s) : Text.trim t = t ∧ t ≠ "" := by
  obtain ⟨u, hu, rfl⟩ := List.mem_map.1 h
  obtain ⟨v, -, rfl, hne⟩ := mem_splitChars.1 hu
  refine ⟨?_, fun hempty => hne (by simpa using congrArg String.toList hempty)⟩
  rw [Text.trim, String.toList_ofList, Text.trimWhere_trimWhere]

theorem split_intercalate (h : Cut {} (ts.map String.toList))
    (ht : ∀ t ∈ ts, Text.trim t = t ∧ t ≠ "") : split ("|".intercalate ts) = ts := by
  rw [split, String.toList_intercalate]
  change (splitChars (['|'].intercalate _)).map _ = _
  rw [splitChars_intercalate h]
  · simp [Function.comp_def]
  · intro u hu
    obtain ⟨t, hmem, rfl⟩ := List.mem_map.1 hu
    obtain ⟨htrim, hne⟩ := ht t hmem
    refine ⟨?_, fun hempty => hne (String.toList_eq_nil_iff.1 hempty)⟩
    have := congrArg String.toList htrim
    rwa [Text.trim, String.toList_ofList] at this

theorem isToken_of_mem_split (h : Balanced s.toList) (ht : t ∈ split s) : IsToken t.toList := by
  obtain ⟨u, hu, rfl⟩ := List.mem_map.1 ht
  rw [String.toList_ofList]
  exact isToken_of_mem_splitChars h hu

end TypeExpr

theorem length_le_intercalate {α : Type} (sep : List α) {l : List α} {ls : List (List α)}
    (h : l ∈ ls) : l.length ≤ (sep.intercalate ls).length := by
  induction ls with
  | nil => cases h
  | cons first rest ih =>
    cases rest with
    | nil =>
      obtain rfl := List.mem_singleton.1 h
      rw [List.intercalate_singleton]
    | cons second rest =>
      rw [List.intercalate_cons_cons, List.length_append, List.length_append]
      rcases List.mem_cons.1 h with rfl | h
      · omega
      · have := ih h
        omega

namespace TypeUnion

open TypeExpr

variable {u : TypeUnion} {t : String} {ts : List String}

theorem tokens_push : (u.push t).tokens = if t ∈ u.tokens then u.tokens else u.tokens ++ [t] := by
  rw [push]
  split <;> rfl

theorem tokens_addAll (h : ∀ t ∈ ts, Text.trim t = t ∧ t ≠ "") :
    (u.addAll ts).tokens = (u.tokens ++ ts).eraseDups := by
  induction ts using List.reverseRecOn with
  | nil =>
    rw [List.append_nil, eraseDups_of_nodup u.distinct]
    rfl
  | append_singleton init t ih =>
    have hinit := ih fun v hv => h v (List.mem_append_left _ hv)
    obtain ⟨htrim, hne⟩ := h t (by simp)
    have hadd : u.addAll (init ++ [t]) = (u.addAll init).push t := by
      simp only [addAll, List.foldl_append, List.foldl_cons, List.foldl_nil, add, htrim, if_neg hne]
    rw [hadd, tokens_push, hinit, ← List.append_assoc, eraseDups_concat]
    simp only [List.mem_eraseDups]

theorem tokens_addExpression (u : TypeUnion) (expression : String) :
    (u.addExpression expression).tokens = (u.tokens ++ split expression).eraseDups :=
  tokens_addAll fun _ => trimmed_of_mem_split

theorem tokens_parse (h : Cut {} (ts.map String.toList))
    (ht : ∀ t ∈ ts, Text.trim t = t ∧ t ≠ "") :
    (parse ("|".intercalate ts)).tokens = ts.eraseDups := by
  rw [parse, split_intercalate h ht, ofTokens, tokens_addAll ht]
  rfl

def alternatives (u : TypeUnion) : List String := if u.tokens.isEmpty then ["any"] else u.tokens

theorem alternatives_ne_nil (u : TypeUnion) : u.alternatives ≠ [] := by
  unfold alternatives
  split
  · exact List.cons_ne_nil _ _
  · rename_i h
    simpa using h

theorem nodup_alternatives (u : TypeUnion) : u.alternatives.Nodup := by
  unfold alternatives
  split
  · simp
  · exact u.distinct

theorem render_eq (u : TypeUnion) : u.render = "|".intercalate u.alternatives := by
  unfold render alternatives
  split
  · rw [String.intercalate_singleton]
  · rfl

theorem widened_eq (u : TypeUnion) :
    u.widened = "|".intercalate (u.alternatives ++ ["Array<" ++ u.render ++ ">"]) := by
  rw [String.intercalate_append_of_ne_nil u.alternatives_ne_nil (List.cons_ne_nil _ _),
    String.intercalate_singleton, ← render_eq, widened]
  simp only [String.append_assoc]
  rfl

def Tokenized (u : TypeUnion) : Prop := ∀ t ∈ u.tokens, IsToken t.toList

theorem Tokenized.alternatives (h : u.Tokenized) : ∀ t ∈ u.alternatives, IsToken t.toList := by
  intro t ht
  unfold TypeUnion.alternatives at ht
  split at ht
  · obtain rfl := List.mem_singleton.1 ht
    exact ⟨by decide, unbarred_of_not_mem (by decide), by decide, by decide⟩
  · exact h t ht

private theorem tokens_parse_of_tokens (hne : ts ≠ []) (hts : ts.Nodup)
    (h : ∀ t ∈ ts, IsToken t.toList) : (parse ("|".intercalate ts)).tokens = ts := by
  have hcut : Cut {} (ts.map String.toList) := by
    refine cut_of_closed (by simpa using hne) fun u hu => ?_
    obtain ⟨t, ht, rfl⟩ := List.mem_map.1 hu
    exact ⟨(h t ht).unbarred, (h t ht).balanced.closed⟩
  rw [tokens_parse hcut fun t ht => ?_, eraseDups_of_nodup hts]
  refine ⟨?_, fun hempty => (h t ht).nonempty (String.toList_eq_nil_iff.2 hempty)⟩
  rw [Text.trim, (h t ht).trimmed, String.ofList_toList]

theorem Tokenized.parse_render (h : u.Tokenized) : (parse u.render).tokens = u.alternatives := by
  rw [render_eq]
  exact tokens_parse_of_tokens u.alternatives_ne_nil u.nodup_alternatives h.alternatives

/-- Brackets around a whole union make one token, longer than each of the others. -/
theorem Tokenized.parse_widened (h : u.Tokenized) :
    (parse u.widened).tokens = u.alternatives ++ ["Array<" ++ u.render ++ ">"] := by
  rw [widened_eq]
  have hlist : u.render.toList = ['|'].intercalate (u.alternatives.map String.toList) := by
    rw [render_eq, String.toList_intercalate]
    rfl
  have hbalanced : Balanced u.render.toList := by
    rw [hlist]
    refine balanced_intercalate fun v hv => ?_
    obtain ⟨t, ht, rfl⟩ := List.mem_map.1 hv
    exact (h.alternatives t ht).balanced
  have hfresh : "Array<" ++ u.render ++ ">" ∉ u.alternatives := by
    intro hmem
    have hle := length_le_intercalate ['|'] (List.mem_map_of_mem (f := String.toList) hmem)
    rw [← hlist] at hle
    simp only [String.toList_append, List.length_append] at hle
    have : "Array<".toList.length = 6 := by decide
    omega
  refine tokens_parse_of_tokens (by simp) ?_ ?_
  · rw [List.nodup_append]
    refine ⟨u.nodup_alternatives, by simp, fun t ht v hv => ?_⟩
    obtain rfl := List.mem_singleton.1 hv
    exact fun heq => hfresh (heq ▸ ht)
  · intro t ht
    rcases List.mem_append.1 ht with ht | ht
    · exact h.alternatives t ht
    · obtain rfl := List.mem_singleton.1 ht
      simpa using isToken_array hbalanced

end TypeUnion

/-- What one call gives to the field of a name. -/
structure Contribution where
  name : String
  expression : String
  required : Bool := false
  isCollection : Bool := false
  deriving DecidableEq, Repr

/-- A field holds what a sequence of contributions gives to its name. -/
structure FilterField.Unites (f : FilterField) (name : String) (own : List Contribution) :
    Prop where
  named : f.name = name
  tokens : f.union.tokens = (own.flatMap fun c => TypeExpr.split c.expression).eraseDups
  required : f.required = own.any (·.required)
  isCollection : f.isCollection = own.any (·.isCollection)

namespace FilterField.Unites

variable {f : FilterField} {name : String} {own : List Contribution}

theorem fresh (name : String) : Unites { name } name [] := ⟨rfl, rfl, rfl, rfl⟩

theorem contribute (h : f.Unites name own) (c : Contribution) :
    Unites { f with
      union := f.union.addExpression c.expression
      required := f.required || c.required
      isCollection := f.isCollection || c.isCollection } name (own ++ [c]) where
  named := h.named
  tokens := by
    rw [TypeUnion.tokens_addExpression, h.tokens, List.flatMap_append, List.flatMap_singleton,
      eraseDups_eraseDups_append]
  required := by rw [h.required, List.any_append, List.any_cons, List.any_nil, Bool.or_false]
  isCollection := by
    rw [h.isCollection, List.any_append, List.any_cons, List.any_nil, Bool.or_false]

theorem tokenized (h : f.Unites name own)
    (hown : ∀ c ∈ own, TypeExpr.Balanced c.expression.toList) : f.union.Tokenized := by
  intro t ht
  rw [h.tokens, List.mem_eraseDups, List.mem_flatMap] at ht
  obtain ⟨c, hc, ht⟩ := ht
  exact TypeExpr.isToken_of_mem_split (hown c hc) ht

/-- Besides the tokens of the field, a collection has one token that stands for arrays of them. -/
theorem tokens_toProperty (h : f.Unites name own)
    (hown : ∀ c ∈ own, TypeExpr.Balanced c.expression.toList) :
    f.toProperty.union.tokens = if f.isCollection
      then f.union.alternatives ++ ["Array<" ++ "|".intercalate f.union.alternatives ++ ">"]
      else f.union.alternatives := by
  have htokenized := h.tokenized hown
  rw [← TypeUnion.render_eq]
  change (TypeUnion.parse f.typeExpression).tokens = _
  unfold FilterField.typeExpression
  split
  · exact htokenized.parse_widened
  · exact htokenized.parse_render

end FilterField.Unites

namespace FilterFields

def contributed (cs : List Contribution) : FilterFields :=
  cs.foldl (fun fs c => fs.contribute c.name c.expression c.required c.isCollection) .empty

theorem contributed_concat (cs : List Contribution) (c : Contribution) :
    contributed (cs ++ [c]) =
      (contributed cs).contribute c.name c.expression c.required c.isCollection := by
  simp only [contributed, List.foldl_append, List.foldl_cons, List.foldl_nil]

theorem keys_contributed (cs : List Contribution) :
    (contributed cs).keys = (cs.map (·.name)).eraseDups := by
  induction cs using List.reverseRecOn with
  | nil => rfl
  | append_singleton init c ih =>
    rw [contributed_concat, contribute, OrderedMap.keys_insert, ih, List.map_append, List.map_cons,
      List.map_nil, eraseDups_concat]
    simp only [List.mem_eraseDups]

theorem unites_of_contributed {cs : List Contribution} {name : String} {f : FilterField}
    (h : (contributed cs).get? name = some f) : f.Unites name (cs.filter (·.name == name)) := by
  -- Contributions are united from the left, so the last one is taken off.
  induction cs using List.reverseRecOn generalizing f with
  | nil => cases h
  | append_singleton init c ih =>
    rw [contributed_concat, contribute, OrderedMap.get?_insert] at h
    rw [List.filter_append]
    split at h
    · rename_i hname
      subst hname
      obtain rfl := Option.some.inj h
      have hlast : [c].filter (·.name == c.name) = [c] :=
        List.filter_cons_of_pos (beq_self_eq_true _)
      rw [hlast]
      refine .contribute ?_ c
      cases hheld : (contributed init).get? c.name with
      | some held => exact ih hheld
      | none =>
        have hfresh : init.filter (·.name == c.name) = [] := by
          rw [OrderedMap.get?_eq_none_iff, keys_contributed, List.mem_eraseDups,
            List.mem_map] at hheld
          refine List.filter_eq_nil_iff.2 fun d hd heq => hheld ⟨d, hd, ?_⟩
          simpa using heq
        rw [hfresh]
        exact .fresh c.name
    · rename_i hname
      rw [List.filter_cons_of_neg (by simpa using fun heq => hname heq.symm), List.filter_nil,
        List.append_nil]
      exact ih h

/-- Contributions of balanced expressions are united by name. A field that any of them makes a
collection is spelled with one token more, which stands for arrays of all the others. -/
theorem united_contributions {cs : List Contribution}
    (h : ∀ c ∈ cs, TypeExpr.Balanced c.expression.toList) :
    (contributed cs).keys = (cs.map (·.name)).eraseDups ∧
    ∀ name f, (contributed cs).get? name = some f →
      f.Unites name (cs.filter (·.name == name)) ∧
      f.toProperty.name = name ∧ f.toProperty.required = f.required ∧
      f.toProperty.isCollection = f.isCollection ∧
      f.toProperty.union.tokens = if f.isCollection
        then f.union.alternatives ++ ["Array<" ++ "|".intercalate f.union.alternatives ++ ">"]
        else f.union.alternatives := by
  refine ⟨keys_contributed cs, fun name f hf => ?_⟩
  have hunites := unites_of_contributed hf
  have hown : ∀ c ∈ cs.filter (·.name == name), TypeExpr.Balanced c.expression.toList :=
    fun c hc => h c (List.mem_filter.1 hc).1
  exact ⟨hunites, hunites.named, rfl, rfl, hunites.tokens_toProperty hown⟩

/-- Two calls for one name, with brackets and quotes around bars, and one for another. -/
theorem united_contributions_of_two_names :
    let cs : List Contribution := [
      ⟨"by", "null|Array<A|B>", false, false⟩, ⟨"at", "", true, false⟩,
      ⟨"by", "\"a|b\"|null", true, true⟩]
    (∀ c ∈ cs, TypeExpr.Balanced c.expression.toList) ∧
    (contributed cs).keys = ["by", "at"] ∧
    (∀ f, (contributed cs).get? "by" = some f →
      f.union.tokens = ["null", "Array<A|B>", "\"a|b\""] ∧ f.required = true ∧
      f.toProperty.union.tokens = ["null", "Array<A|B>", "\"a|b\"",
        "Array<null|Array<A|B>|\"a|b\">"]) ∧
    ∀ f, (contributed cs).get? "at" = some f → f.toProperty.union.tokens = ["any"] := by
  intro cs
  have hbalanced : ∀ c ∈ cs, TypeExpr.Balanced c.expression.toList := by decide +kernel
  obtain ⟨hkeys, hfields⟩ := united_contributions hbalanced
  refine ⟨hbalanced, hkeys.trans (by decide +kernel), fun f hf => ?_, fun f hf => ?_⟩
  · obtain ⟨hunites, -, -, -, htokens⟩ := hfields "by" f hf
    have hunion : f.union.tokens = ["null", "Array<A|B>", "\"a|b\""] :=
      hunites.tokens.trans (by decide +kernel)
    have hcollection : f.isCollection = true := hunites.isCollection.trans (by decide +kernel)
    refine ⟨hunion, hunites.required.trans (by decide +kernel), ?_⟩
    rw [htokens, hcollection, TypeUnion.alternatives, hunion]
    decide +kernel
  · obtain ⟨hunites, -, -, -, htokens⟩ := hfields "at" f hf
    have hunion : f.union.tokens = [] := hunites.tokens.trans (by decide +kernel)
    have hcollection : f.isCollection = false := hunites.isCollection.trans (by decide +kernel)
    rw [htokens, hcollection, TypeUnion.alternatives, hunion]
    rfl

end FilterFields
end HydraClient
