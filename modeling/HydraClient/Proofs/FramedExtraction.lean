import HydraClient.Proofs.Framing

/-! # Classes beside a guest

A catalog that has one class more treats the other classes as before, as long as none of them
mentions it. So they are extracted beside the guest as they are without it.
-/
namespace HydraClient

open Metadata TypeRegistry Model

/-- A catalog with one class more, which no other class mentions. -/
structure Guest.Joins (g : Guest) (cat cat' : Catalog) : Prop where
  config : cat'.config = cat.config
  filters : cat'.filters = cat.filters
  routes : cat'.routes = cat.routes
  enum? : ∀ c, cat'.enum? c = cat.enum? c
  class? : ∀ {c}, ClassName.relative c ≠ g.source → cat'.class? c = cat.class? c
  size : cat.classes.size ≤ cat'.classes.size
  parent : ∀ {c shape p}, cat.class? c = some shape → shape.parent = some p →
    ClassName.relative p ≠ g.source
  referred : ∀ {c shape}, cat.class? c = some shape → ∀ f ∈ shape.fields, ∀ form ∈ f.types,
    ∀ a, referred? form = some a → a ≠ g.source
  dealt : ∀ {c shape}, cat.class? c = some shape → ∀ e ∈ shape.exposures, ∀ o ∈ e.operations,
    ∀ a, o.input = some a ∨ o.output = some a → ClassName.relative a ≠ g.source
  linked : ∀ {c shape}, cat.class? c = some shape → ∀ e ∈ shape.exposures, ∀ u ∈ e.uriVariables,
    ∀ a, u.fromClass = some a → ClassName.relative a ≠ g.source

namespace Guest

variable {g : Guest} {cat cat' : Catalog} {visit visit' : String → Drafting TypeEntry}
  {s : Draft} {c name : String} {shape : ClassDecl} {owner : TypeEntry} {field : Field}

theorem Joins.classify (hj : g.Joins cat cat') (hc : ClassName.relative c ≠ g.source) :
    cat'.classify c = cat.classify c := by
  have hclasses : cat'.classes.contains (ClassName.relative c) =
      cat.classes.contains (ClassName.relative c) := by
    have h := hj.class? hc
    rw [Bool.eq_iff_iff, OrderedMap.contains_iff_get?, OrderedMap.contains_iff_get?]
    rw [Catalog.class?, Catalog.class?] at h
    rw [h]
  have henums : cat'.enums.contains (ClassName.relative c) =
      cat.enums.contains (ClassName.relative c) := by
    have h := hj.enum? c
    rw [Bool.eq_iff_iff, OrderedMap.contains_iff_get?, OrderedMap.contains_iff_get?]
    rw [Catalog.enum?, Catalog.enum?] at h
    rw [h]
  rw [Catalog.classify, Catalog.classify, hclasses, henums, hj.config]

theorem framed_resolveEnum (he : cat'.enum? c = cat.enum? c) (file : Option String) :
    Framed g (resolveEnum cat c file) (resolveEnum cat' c file) := by
  intro s hs a s' h
  have h := Yields.get_bind.1 h
  dsimp only at h
  cases hl : s.types.lookupSource c with
  | some u =>
    simp only [hl, Yields.pure_iff] at h
    obtain ⟨rfl, rfl⟩ := h
    refine ⟨.refl _, fun _ t ht => ⟨t, Yields.get_bind.2 ?_, ht⟩⟩
    dsimp only
    rw [ht.lookupSource_of_some hl]
    exact Yields.pure_iff.2 ⟨rfl, rfl⟩
  | none =>
    simp only [hl] at h
    obtain ⟨name, hname, h⟩ := Yields.lift_bind.1 h
    cases hshape : cat.enum? c with
    | none => simp [hshape] at h
    | some shape =>
      simp only [hshape] at h
      obtain ⟨_, m, hr, h⟩ := Yields.bind_iff.1 h
      obtain ⟨hheld, rfl⟩ := Drafting.yields_register hr
      obtain ⟨rfl, rfl⟩ := Yields.pure_iff.1 h
      refine ⟨.put rfl hheld, fun habsent t ht => ?_⟩
      obtain ⟨hn, hc⟩ := habsent.of_put rfl
      obtain ⟨hy, hbeside⟩ := ht.register rfl hheld habsent
      refine ⟨_, Yields.get_bind.2 ?_, hbeside⟩
      dsimp only
      rw [ht.lookupSource_of_none hs hc hl]
      refine Yields.lift_bind.2 ⟨name, ht.resolveName hn hname, ?_⟩
      rw [he, hshape]
      exact Yields.bind_iff.2 ⟨⟨⟩, _, hy, Yields.pure_iff.2 ⟨rfl, rfl⟩⟩

theorem registered_of_extractParent {m : Draft} {parent : Option String}
    (hv : ∀ a, Finds cat (visit a) a) (hs : Coherent s.types)
    (h : Yields (extractParent cat visit name shape) s parent m) :
    ∀ n, parent = some n → ∃ u, m.types.get? n = some u := by
  cases parentStep_of_yields h with
  | skip => exact nofun
  | @add n p m _ _ _ hvisit =>
    intro k hk
    obtain rfl := Option.some.inj hk
    obtain ⟨hx, hl⟩ := hv n hs hvisit
    have hget := ((hx.coherent hs).of_lookupSource hl).2.1
    exact (Grown.modify (head_withParent p)).names ⟨p, hget⟩

section Visits

variable (hj : g.Joins cat cat')
  (hvisit : ∀ a, ClassName.relative a ≠ g.source → Framed g (visit a) (visit' a))
include hj hvisit

theorem agreesAt (hc : ClassName.relative c ≠ g.source) :
    AgreesAt (fun _ => Framed g) cat cat' visit visit' c where
  classify := hj.classify hc
  enum? := hj.enum? c
  model _ := hvisit c hc
  enumeration _ := framed_resolveEnum (hj.enum? c)

theorem framedAt_extractParent (hs : Coherent s.types)
    (hparent : ∀ p, shape.parent = some p → ClassName.relative p ≠ g.source) :
    FramedAt g s (extractParent cat visit name shape) (extractParent cat' visit' name shape) := by
  unfold extractParent
  split
  · exact .pure none
  · rename_i parent hp
    have hclass := hparent parent hp
    rw [hj.classify hclass]
    split
    · exact .pure none
    · refine (hvisit parent hclass s hs).bind fun p m _ _ => ?_
      exact (FramedAt.modifyType (head_withParent p)).bind fun _ _ _ _ => .pure _

theorem framedAt_extractField {parent : Option String} (hs : Coherent s.types)
    (hparent : ∀ n, parent = some n → ∃ u, s.types.get? n = some u)
    (hfield : ∀ form ∈ field.types, ∀ a, referred? form = some a → a ≠ g.source) :
    FramedAt g s (extractField cat visit owner c parent field)
      (extractField cat' visit' owner c parent field) := by
  unfold extractField
  split
  · refine FramedAt.get_bind ?_ fun t ht => ?_
    · have hagrees : ∀ form ∈ field.types, ∀ a, referred? form = some a →
          AgreesAt (fun _ => Framed g) cat cat' visit visit' a := fun form hform a ha =>
        agreesAt hj hvisit (by rw [relative_of_referred ha]; exact hfield form hform a ha)
      have hbuild : Framed g
          (buildProperty cat visit owner field (isInherited c field (parent.bind s.types.get?)))
          (buildProperty cat' visit' owner field
            (isInherited c field (parent.bind s.types.get?))) :=
        (compositional_framed g).buildProperty _ hagrees
      exact (hbuild s hs).bind fun p _ _ _ => .modifyType fun t => t.head_addProperty p
    · -- The parent is registered, so it is found beside the guest as well.
      have hbind : parent.bind t.types.get? = parent.bind s.types.get? := by
        cases parent with
        | none => rfl
        | some n =>
          obtain ⟨u, hu⟩ := hparent n rfl
          rw [Option.bind_some, Option.bind_some, hu, ht.get?_of_some hu]
      rw [hbind]
  · exact .pure _

theorem framedAt_fill (hs : Coherent s.types) (hv : ∀ a, Finds cat (visit a) a)
    (hshape : cat.class? c = some shape) (hname : ∃ u, s.types.get? name = some u) :
    FramedAt g s
      (do
        let parent ← extractParent cat visit name shape
        if shape.isAddressable then
          Drafting.modifyType name withAddress
        shape.fields.forM (extractField cat visit (bare name c shape) c parent)
        pure (((← get).types.get? name).getD (bare name c shape)))
      (do
        let parent ← extractParent cat' visit' name shape
        if shape.isAddressable then
          Drafting.modifyType name withAddress
        shape.fields.forM (extractField cat' visit' (bare name c shape) c parent)
        pure (((← get).types.get? name).getD (bare name c shape))) := by
  refine (framedAt_extractParent hj hvisit hs fun p hp => hj.parent hshape hp).bind
    fun parent m hparent hgrown => ?_
  have hknown := registered_of_extractParent hv hs hparent
  have hfields : ∀ m', Grown m.types m'.types → FramedAt g m'
      (do
        shape.fields.forM (extractField cat visit (bare name c shape) c parent)
        pure (((← get).types.get? name).getD (bare name c shape)))
      (do
        shape.fields.forM (extractField cat' visit' (bare name c shape) c parent)
        pure (((← get).types.get? name).getD (bare name c shape))) := by
    intro m' hgrown'
    have hm' := hgrown.trans hgrown'
    refine FramedAt.bind (.forM fun field hfield m'' hgrown'' => ?_) fun _ m'' _ hgrown'' => ?_
    · exact framedAt_extractField hj hvisit ((hm'.trans hgrown'').coherent hs)
        (fun n hn => (hgrown'.trans hgrown'').names (hknown n hn)) (hj.referred hshape field hfield)
    · obtain ⟨u, hu⟩ := (hm'.trans hgrown'').names hname
      refine FramedAt.get_bind (.pure _) fun t ht => ?_
      rw [hu, ht.get?_of_some hu]
  split
  · exact (FramedAt.modifyType head_withAddress).bind fun _ m' _ hgrown' => hfields m' hgrown'
  · exact hfields m (.refl _)

theorem framedAt_extractNew (hs : Coherent s.types) (hv : ∀ a, Finds cat (visit a) a)
    (hc : ClassName.relative c ≠ g.source) :
    FramedAt g s (extractNew cat visit c) (extractNew cat' visit' c) := by
  intro a s' h
  unfold extractNew at h ⊢
  rw [hj.class? hc, hj.config]
  cases hshape : cat.class? c with
  | none => simp [hshape] at h
  | some shape =>
    simp only [hshape] at h ⊢
    obtain ⟨name, hname, h⟩ := Yields.lift_bind.1 (Yields.get_bind.1 h)
    obtain ⟨_, m, hr, h⟩ := Yields.bind_iff.1 h
    obtain ⟨hheld, rfl⟩ := Drafting.yields_register hr
    have hgrown := Grown.put (c := c) rfl hheld
    have hopened : ∃ u, (s.types.put (bare name c shape)).get? name = some u := by
      rw [get?_put]
      exact ⟨_, if_pos rfl⟩
    obtain ⟨hgrown', hframed⟩ :=
      framedAt_fill hj hvisit (hgrown.coherent hs) hv hshape hopened a s' h
    refine ⟨hgrown.trans hgrown', fun habsent t ht => ?_⟩
    have hput := habsent.of_grown hgrown'
    obtain ⟨hy, hbeside⟩ := ht.register rfl hheld hput
    obtain ⟨t', hy', ht'⟩ := hframed habsent _ hbeside
    refine ⟨t', Yields.get_bind.2 (Yields.lift_bind.2 ⟨name, ?_, ?_⟩), ht'⟩
    · exact ht.resolveName (hput.of_put rfl).1 hname
    · exact Yields.bind_iff.2 ⟨⟨⟩, _, hy, hy'⟩

end Visits

/-- Any class but the guest is extracted beside it, at least as deep as without it. -/
theorem framed_extractWithin (hj : g.Joins cat cat') {depth depth' : Nat} (hdepth : depth ≤ depth')
    (hc : ClassName.relative c ≠ g.source) :
    Framed g (extractWithin cat depth c) (extractWithin cat' depth' c) := by
  induction depth generalizing c depth' with
  | zero => exact fun _ _ => .throw _
  | succ depth ih =>
    obtain ⟨depth', rfl⟩ := Nat.exists_eq_succ_of_ne_zero (by omega : depth' ≠ 0)
    intro s hs a s' h
    obtain ⟨hx, hl'⟩ := extractWithin_finds (depth + 1) c hs h
    rcases yields_extractWithin_succ h with ⟨hl, rfl⟩ | ⟨hl, hnew⟩
    · refine ⟨.refl _, fun _ t ht => ⟨t, Yields.get_bind.2 ?_, ht⟩⟩
      rw [ht.lookupSource_of_some hl]
      exact Yields.pure_iff.2 ⟨rfl, rfl⟩
    · have hvisit : ∀ a, ClassName.relative a ≠ g.source →
          Framed g (extractWithin cat depth a) (extractWithin cat' depth' a) :=
        fun a ha => ih (by omega) ha
      obtain ⟨hgrown, hframed⟩ :=
        framedAt_extractNew hj hvisit hs (extractWithin_finds depth) hc a s' hnew
      refine ⟨hgrown, fun habsent t ht => ?_⟩
      obtain ⟨t', hy, ht'⟩ := hframed habsent t ht
      -- The class is registered in the end, and nothing of the guest is.
      have hsource := habsent.not_sources ((hx.coherent hs).of_lookupSource hl').1
      refine ⟨t', Yields.get_bind.2 ?_, ht'⟩
      rw [ht.lookupSource_of_none hs hsource hl]
      exact hy

theorem framed_extract (hj : g.Joins cat cat') (hc : ClassName.relative c ≠ g.source) :
    Framed g (extract cat c) (extract cat' c) := by
  have hsize := hj.size
  apply framed_extractWithin hj _ hc
  unfold depthBound
  omega

end Guest
end HydraClient
