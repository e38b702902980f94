import HydraClient.Proofs.Alike

/-! # Work that may break off

What is left of work that may fail: one condition on the value and the state if it succeeds, and
another on the failure and the state if it breaks off half-way. The extraction of a class is opened
once in these terms, for every pair of conditions.
-/
namespace HydraClient

open Metadata TypeRegistry

section Outcomes

variable {ε σ α : Type} {β : Type}

section States

variable {s : σ}

theorem outcome_lift (x : Except ε α) : outcome (liftM x : ExceptT ε (StateM σ) α) s = (x, s) := rfl

theorem outcome_get_bind (f : σ → ExceptT ε (StateM σ) β) :
    outcome (get >>= f) s = outcome (f s) s := by
  have hget : outcome (get : ExceptT ε (StateM σ) σ) s = (.ok s, s) := rfl
  rw [outcome_bind, hget]

theorem yields_of_outcome {x : ExceptT ε (StateM σ) α} {a : α} (h : (outcome x s).1 = .ok a) :
    Yields x s a (outcome x s).2 := by
  unfold Yields
  rw [← h]

theorem exists_failure_of_test {x : ExceptT ε (StateM σ) α} {p : ε → Bool}
    (h : (match (outcome x s).1 with
      | .error e => p e
      | .ok _ => false) = true) : ∃ e, outcome x s = (.error e, (outcome x s).2) ∧ p e = true := by
  split at h
  · rename_i e he
    exact ⟨e, Prod.ext he rfl, h⟩
  · cases h

end States

/-- From a state with a property, work that succeeds meets one condition, and work that breaks off
meets the other. -/
def Ends (P : σ → Prop) (x : ExceptT ε (StateM σ) α) (Q : α → σ → Prop) (E : ε → σ → Prop) :
    Prop :=
  ∀ s, P s → match outcome x s with
    | (.ok a, s') => Q a s'
    | (.error e, s') => E e s'

namespace Ends

variable {P P' : σ → Prop} {x : ExceptT ε (StateM σ) α} {f : α → ExceptT ε (StateM σ) β}
  {Q : α → σ → Prop} {R : β → σ → Prop} {E : ε → σ → Prop} {s s' : σ}

theorem ok {a : α} (h : Ends P x Q E) (hs : P s) (hx : Yields x s a s') : Q a s' := by
  have := h s hs
  rwa [show outcome x s = (.ok a, s') from hx] at this

theorem error {e : ε} (h : Ends P x Q E) (hs : P s) (hx : outcome x s = (.error e, s')) :
    E e s' := by
  have := h s hs
  rwa [hx] at this

theorem left {I : σ → Prop} (h : Ends P x (fun _ => I) (fun _ => I)) (hs : P s) :
    I (outcome x s).2 := by
  have := h s hs
  rcases hx : outcome x s with ⟨e | a, m⟩ <;> rw [hx] at this <;> exact this

theorem mono {Q' : α → σ → Prop} {E' : ε → σ → Prop} (h : Ends P x Q E) (hP : ∀ s, P' s → P s)
    (hQ : ∀ a s, Q a s → Q' a s) (hE : ∀ e s, E e s → E' e s) : Ends P' x Q' E' := by
  intro s hs
  have := h s (hP s hs)
  rcases hx : outcome x s with ⟨e | a, m⟩ <;> rw [hx] at this
  · exact hE e m this
  · exact hQ a m this

theorem pure {a : α} (h : ∀ s, P s → Q a s) : Ends P (Pure.pure a) Q E := fun s hs => h s hs

theorem throw {e : ε} (h : ∀ s, P s → E e s) : Ends P (MonadExcept.throw e) Q E :=
  fun s hs => h s hs

theorem lift {e : Except ε α} (hok : ∀ a s, e = .ok a → P s → Q a s)
    (herror : ∀ i s, e = .error i → P s → E i s) : Ends P (liftM e) Q E := by
  intro s hs
  rw [outcome_lift]
  cases e with
  | ok a => exact hok a s rfl hs
  | error i => exact herror i s rfl hs

theorem modify {g : σ → σ} {Q : PUnit → σ → Prop} (h : ∀ s, P s → Q ⟨⟩ (g s)) :
    Ends P (modifyThe σ g : ExceptT ε (StateM σ) PUnit) Q E := fun s hs => h s hs

theorem bind (hx : Ends P x Q E) (hf : ∀ a, Ends (Q a) (f a) R E) : Ends P (x >>= f) R E := by
  intro s hs
  have hleft := hx s hs
  rw [outcome_bind]
  rcases hout : outcome x s with ⟨e | a, m⟩ <;> rw [hout] at hleft
  · exact hleft
  · exact hf a m hleft

theorem map {g : α → β} (h : Ends P x (fun a => R (g a)) E) : Ends P (g <$> x) R E := by
  rw [map_eq_pure_bind]
  exact h.bind fun a => .pure fun _ hs => hs

theorem get_bind {f : σ → ExceptT ε (StateM σ) β} (h : ∀ d, P d → Ends (· = d) (f d) R E) :
    Ends P (get >>= f) R E := by
  intro s hs
  rw [outcome_get_bind]
  exact h s hs s rfl

variable {I : List α → σ → Prop} {l : List α}

private theorem foldlM_after {f : β → α → ExceptT ε (StateM σ) β} {before : List α} {b : β}
    (step : ∀ done a rest b, l = done ++ a :: rest →
      Ends (I (before ++ done)) (f b a) (fun _ => I (before ++ done ++ [a])) E) :
    Ends (I before) (l.foldlM f b) (fun _ => I (before ++ l)) E := by
  induction l generalizing before b with
  | nil =>
    rw [List.foldlM_nil, List.append_nil]
    exact .pure fun _ hs => hs
  | cons a rest ih =>
    rw [List.foldlM_cons]
    have hfirst : Ends (I before) (f b a) (fun _ => I (before ++ [a])) E := by
      simpa using step [] a rest b rfl
    have hrest : ∀ b', Ends (I (before ++ [a])) (rest.foldlM f b')
        (fun _ => I (before ++ a :: rest)) E := fun b' => by
      have := @ih (before ++ [a]) b' fun done a' rest' b'' hsplit => by
        simpa using step (a :: done) a' rest' b'' (by simp [hsplit])
      simpa using this
    exact hfirst.bind hrest

theorem foldlM {f : β → α → ExceptT ε (StateM σ) β} {b : β}
    (step : ∀ done a rest b, l = done ++ a :: rest →
      Ends (I done) (f b a) (fun _ => I (done ++ [a])) E) :
    Ends (I []) (l.foldlM f b) (fun _ => I l) E :=
  foldlM_after step

theorem forM {f : α → ExceptT ε (StateM σ) PUnit}
    (step : ∀ done a rest, l = done ++ a :: rest →
      Ends (I done) (f a) (fun _ => I (done ++ [a])) E) :
    Ends (I []) (l.forM f) (fun _ => I l) E := by
  have hfold : ∀ (l : List α) (u : PUnit), l.forM f = l.foldlM (fun _ a => f a) u := by
    intro l
    induction l with
    | nil => exact fun u => rfl
    | cons a rest ih =>
      intro u
      have hcons : (a :: rest).forM f = f a >>= fun _ => rest.forM f := rfl
      rw [hcons, List.foldlM_cons]
      exact congrArg (f a >>= ·) (funext fun v => ih v)
  rw [hfold l ⟨⟩]
  exact .foldlM fun done a rest _ hsplit => step done a rest hsplit

theorem mapM {f : α → ExceptT ε (StateM σ) β}
    (step : ∀ done a rest, l = done ++ a :: rest →
      Ends (I done) (f a) (fun _ => I (done ++ [a])) E) :
    Ends (I []) (l.mapM f) (fun _ => I l) E := by
  rw [List.mapM_eq_reverse_foldlM_cons]
  exact .map (.foldlM fun done a rest _ hsplit => .map (step done a rest hsplit))

end Ends
end Outcomes

section Drafts

def Failure.IsOf (e : Failure) (category : Category) : Prop :=
  ∃ d, e.diagnostic? = some d ∧ d.category = category

variable {P Q : Draft → Prop} {E : Failure → Draft → Prop}

theorem Drafting.ends_register {t : TypeEntry} (hfree : ∀ s, P s → s.types.get? t.name = none)
    (h : ∀ s, P s → Q { s with types := s.types.put t }) :
    Ends P (Drafting.register t) (fun _ => Q) E := by
  refine .get_bind fun d hd => ?_
  have hput : d.types.register t = .ok (d.types.put t) :=
    register_ok_iff.2 ⟨by simp [hfree d hd], rfl⟩
  rw [hput]
  intro s hs
  obtain rfl : s = d := hs
  exact h s hd

theorem Drafting.ends_modifyType {n : String} {f : TypeEntry → TypeEntry}
    (h : ∀ s, P s → Q { s with types := s.types.modify n f }) :
    Ends P (Drafting.modifyType n f) (fun _ => Q) E := .modify h

end Drafts

namespace Model

variable {cat : Catalog} {visit : String → Drafting TypeEntry} {owner : TypeEntry} {field : Field}
  {P Q : Draft → Prop} {E : Failure → Draft → Prop} {c : String}

/-- An element that has a type: its class is of a known kind, or it is a scalar, an array or an
object of no class. -/
def Recognised.element (cat : Catalog) (value : FieldType) : Prop :=
  match value.className with
  | some c => cat.classify (ClassName.relative c) ≠ .unknown
  | none => (scalar? value.builtin).isSome ∨ value.builtin = "array" ∨ value.builtin = "object"

def Recognised (cat : Catalog) (t : FieldType) : Prop :=
  match formOf t with
  | .scalar _ | .array | .record => True
  | .collection value => Recognised.element cat value
  | .object c => cat.classify (ClassName.relative c) ≠ .unknown
  | .unknown => False

theorem recognised_of_referred {t : FieldType} (ht : referred? t = some c)
    (hc : cat.classify c ≠ .unknown) : Recognised cat t := by
  unfold referred? at ht
  unfold Recognised
  cases hform : formOf t with
  | collection value =>
    rw [hform] at ht
    obtain ⟨c', hvalue, rfl⟩ := Option.map_eq_some_iff.1 ht
    simp only [Recognised.element, hvalue]
    exact hc
  | object c' =>
    rw [hform] at ht
    obtain rfl := Option.some.inj ht
    exact hc
  | scalar | array | record | unknown => simp [hform] at ht

theorem enum?_of_classify (hc : cat.classify c = .enumeration) :
    ∃ shape, cat.enum? c = some shape := by
  rw [Catalog.enum?, ← OrderedMap.contains_iff_get?]
  unfold Catalog.classify at hc
  dsimp only at hc
  by_contra henum
  rw [if_neg henum] at hc
  repeat' split at hc
  all_goals cases hc

theorem exists_defaultCase (hc : cat.classify c = .enumeration) (field : Field) :
    ∃ case?, defaultCase cat c field = .ok case? := by
  obtain ⟨shape, hshape⟩ := enum?_of_classify hc
  unfold defaultCase
  rw [hshape]
  dsimp only
  split
  · exact ⟨_, rfl⟩
  · split <;> exact ⟨_, rfl⟩

section Enums

variable {R : TypeEntry → Draft → Prop}

theorem ends_resolveEnum (file : Option String) (hcoherent : ∀ s, P s → Coherent s.types)
    (hfound : ∀ s t, P s → s.types.lookupSource c = some t → R t s)
    (hunnamed : ∀ s e, P s → s.types.resolveName (enumCandidates c) c = .error e → E e s)
    (hundescribed : cat.enum? c = none → ∀ s, P s → E (.enumUndescribed c) s)
    (hput : ∀ s name file shape, P s → s.types.lookupSource c = none →
      s.types.resolveName (enumCandidates c) c = .ok name → cat.enum? c = some shape →
      R (nativeEnum name c file shape)
        { s with types := s.types.put (nativeEnum name c file shape) }) :
    Ends P (resolveEnum cat c file) R E := by
  refine .get_bind fun d hd => ?_
  cases hl : d.types.lookupSource c with
  | some t =>
    simp only [hl]
    refine .pure fun s hs => ?_
    obtain rfl : s = d := hs
    exact hfound s t hd hl
  | none =>
    simp only [hl]
    refine Ends.bind (Q := fun name s => s = d ∧
        d.types.resolveName (enumCandidates c) c = .ok name)
      (.lift (fun name s hname hs => ⟨hs, hname⟩) fun e s he hs => hs ▸ hunnamed d e hd he)
      fun name => ?_
    cases henum : cat.enum? c with
    | none => exact .throw fun s hs => hs.1 ▸ hundescribed henum d hd
    | some shape =>
      refine Ends.bind (Drafting.ends_register ?_ ?_) fun _ => .pure fun s hs => hs
      · rintro s ⟨rfl, hname⟩
        exact (hcoherent s hd).resolveName_fresh hl hname
      · rintro s ⟨rfl, hname⟩
        exact hput s name _ shape hd hl hname henum

end Enums

section Fields

structure EndsAt (cat : Catalog) (P : Draft → Prop) (visit : String → Drafting TypeEntry)
    (c : String) (Q : Draft → Prop) (E : Failure → Draft → Prop) : Prop where
  model : cat.classify c = .model → Ends P (visit c) (fun _ => Q) E
  enumeration : cat.classify c = .enumeration → ∀ file,
    Ends P (resolveEnum cat c file) (fun _ => Q) E

theorem ends_refer {unknown : Failure} (h : EndsAt cat P visit c Q E)
    (hother : cat.classify c ≠ .unknown → cat.classify c ≠ .model → ∀ s, P s → Q s)
    (hunknown : cat.classify c = .unknown → ∀ s, P s → E unknown s) :
    Ends P (refer cat visit owner c unknown)
      (fun ref s => Q s ∧ ∀ t, ref = .enumeration t → cat.classify c = .enumeration) E := by
  unfold refer
  cases hc : cat.classify c with
  | model =>
    have hmodel : Ends P (visit c) (fun t s => Q s ∧ ∀ u, Referent.model t = .enumeration u →
        ClassKind.model = .enumeration) E :=
      (h.model hc).mono (fun _ hs => hs) (fun t s hs => ⟨hs, by simp⟩) fun _ _ he => he
    exact hmodel.map
  | enumeration =>
    exact ((h.enumeration hc owner.file).mono (fun _ hs => hs) (fun t s hs => ⟨hs, by simp⟩)
      fun _ _ he => he).map
  | datetime | identifier | passthrough =>
    exact .pure fun s hs => ⟨hother (by simp [hc]) (by simp [hc]) s hs, by simp⟩
  | unknown => exact .throw (hunknown hc)

theorem ends_element {value : FieldType} (p : Property)
    (hrefer : ∀ c, value.className = some c → EndsAt cat P visit (ClassName.relative c) Q E)
    (hother : Recognised.element cat value →
      (∀ c, value.className = some c → cat.classify (ClassName.relative c) ≠ .model) →
      ∀ s, P s → Q s)
    (hunknown : ¬Recognised.element cat value →
      ∀ e, e.IsOf .unknownFieldShape → ∀ s, P s → E e s) :
    Ends P (element cat visit owner field value p) (fun _ => Q) E := by
  unfold element
  unfold Recognised.element at hother hunknown
  cases hclass : value.className with
  | some c =>
    simp only [hclass] at hother hunknown ⊢
    refine Ends.bind (ends_refer (hrefer c hclass) (fun hknown hmodel => hother hknown ?_)
      fun hc => hunknown (by simp [hc]) _ ⟨_, rfl, rfl⟩) fun ref => .pure fun s hs => hs.1
    rintro c' hc'
    obtain rfl := Option.some.inj hc'
    exact hmodel
  | none =>
    simp only [hclass] at hother hunknown ⊢
    cases hword : scalar? value.builtin with
    | some word => exact .pure (hother (by simp [hword]) nofun)
    | none =>
      simp only [hword, Option.isSome_none, Bool.false_eq_true, false_or] at hother hunknown ⊢
      split
      · rename_i hmixed
        exact .pure (hother hmixed nofun)
      · rename_i hmixed
        exact .throw (hunknown hmixed _ ⟨_, rfl, rfl⟩)

theorem ends_applyClass {c : String} (p : Property)
    (hrefer : EndsAt cat P visit (ClassName.relative c) Q E)
    (hother : cat.classify (ClassName.relative c) ≠ .unknown →
      cat.classify (ClassName.relative c) ≠ .model → ∀ s, P s → Q s)
    (hunknown : cat.classify (ClassName.relative c) = .unknown →
      ∀ e, e.IsOf .unknownFieldShape → ∀ s, P s → E e s) :
    Ends P (applyClass cat visit owner field c p) (fun _ => Q) E := by
  refine Ends.bind (ends_refer hrefer hother fun hc => hunknown hc _ ⟨_, rfl, rfl⟩) fun ref => ?_
  cases ref with
  | enumeration t =>
    refine Ends.bind (Q := fun _ => Q) (.lift (fun _ s _ hs => hs.1) fun e s he hs => ?_)
      fun case? => by cases case? <;> exact .pure fun s hs => hs
    obtain ⟨case?, hcase⟩ := exists_defaultCase (hs.2 t rfl) field
    rw [hcase] at he
    cases he
  | model | datetime | identifier | passthrough => exact .pure fun s hs => hs.1

/-- What comes of one form of a field: the class that it refers to is looked up, and only a form
without a type and a default without a literal stop the work. -/
theorem ends_applyType {t : FieldType} (p : Property)
    (hrefer : ∀ c, referred? t = some c → EndsAt cat P visit c Q E)
    (hother : Recognised cat t → (∀ c, referred? t = some c → cat.classify c ≠ .model) →
      ∀ s, P s → Q s)
    (hunknown : ¬Recognised cat t → ∀ e, e.IsOf .unknownFieldShape → ∀ s, P s → E e s)
    (hliteral : ∀ e s, Script.literal field.default = .error e → P s → E e s) :
    Ends P (applyType cat visit owner field p t) (fun _ => Q) E := by
  rw [applyType_eq]
  unfold referred? at hrefer hother
  unfold Recognised at hother hunknown
  cases hform : formOf t with
  | scalar word =>
    simp only [hform] at hother ⊢
    exact (Ends.lift (fun _ s _ hs => hother trivial nofun s hs) hliteral).bind
      fun literal => .pure fun s hs => hs
  | collection value =>
    simp only [hform] at hrefer hother hunknown ⊢
    refine (ends_element _ (fun c hc => hrefer _ (by simp [hc])) (fun hknown hkinds => ?_)
      hunknown).bind fun _ => .pure fun s hs => hs
    refine hother hknown fun c hc => ?_
    obtain ⟨c', hc', rfl⟩ := Option.map_eq_some_iff.1 hc
    exact hkinds c' hc'
  | array | record =>
    simp only [hform] at hother ⊢
    exact .pure (hother trivial nofun)
  | object c =>
    simp only [hform] at hrefer hother hunknown ⊢
    refine ends_applyClass _ (hrefer _ rfl) (fun hknown hmodel => hother hknown ?_)
      fun hc => hunknown (by simp [hc])
    rintro c' hc'
    obtain rfl := Option.some.inj hc'
    exact hmodel
  | unknown =>
    simp only [hform] at hunknown ⊢
    exact .throw (hunknown id _ ⟨_, rfl, rfl⟩)

theorem ends_buildProperty {I : List FieldType → Draft → Prop} (inherited : Bool)
    (hrefer : ∀ done t rest c, field.types = done ++ t :: rest → referred? t = some c →
      EndsAt cat (I done) visit c (I (done ++ [t])) E)
    (hother : ∀ done t rest, field.types = done ++ t :: rest → Recognised cat t →
      (∀ c, referred? t = some c → cat.classify c ≠ .model) → ∀ s, I done s → I (done ++ [t]) s)
    (hunknown : ∀ done t rest, field.types = done ++ t :: rest → ¬Recognised cat t →
      ∀ e, e.IsOf .unknownFieldShape → ∀ s, I done s → E e s)
    (hliteral : ∀ done t rest, field.types = done ++ t :: rest →
      ∀ e s, Script.literal field.default = .error e → I done s → E e s) :
    Ends (I []) (buildProperty cat visit owner field inherited) (fun _ => I field.types) E :=
  .foldlM fun done t rest p hsplit => ends_applyType p (fun c => hrefer done t rest c hsplit)
    (hother done t rest hsplit) (hunknown done t rest hsplit) (hliteral done t rest hsplit)

end Fields

section Classes

variable {shape : ClassDecl} {name className : String} {R : Draft → Prop}

theorem ends_extractParent
    (hskip : (∀ n, shape.parent = some n → n ≠ "" → cat.classify n ≠ .model) →
      ∀ s, P s → Q s)
    (hvisit : ∀ n, shape.parent = some n → n ≠ "" → cat.classify n = .model →
      Ends P (visit n) (fun p s => Q { s with types := s.types.modify name (withParent p) }) E) :
    Ends P (extractParent cat visit name shape) (fun _ => Q) E := by
  unfold extractParent
  split
  · rename_i hnone
    exact .pure (hskip fun n hn => by simp [hnone] at hn)
  · rename_i n hn
    split
    · rename_i hkind
      refine .pure (hskip fun m hm hne => ?_)
      obtain rfl := Option.some.inj (hn.symm.trans hm)
      simpa [hne] using hkind
    · rename_i hkind
      simp only [Bool.or_eq_true, decide_eq_true_eq, bne_iff_ne, not_or, Decidable.not_not] at hkind
      refine (hvisit n hn hkind.1 hkind.2).bind fun p => ?_
      exact (Drafting.ends_modifyType (Q := Q) fun s hs => hs).bind fun _ => .pure fun s hs => hs

theorem ends_extractField {parent : Option String}
    (hskip : field.isExposed = false → ∀ s, P s → Q s)
    (hbuild : field.isExposed = true → ∀ inherited,
      Ends P (buildProperty cat visit owner field inherited) (fun _ => R) E)
    (hadd : ∀ p s, R s → Q { s with types := s.types.modify owner.name (·.addProperty p) }) :
    Ends P (extractField cat visit owner className parent field) (fun _ => Q) E := by
  unfold extractField
  split
  · rename_i hexposed
    refine .get_bind fun d hd => ?_
    have hfrom : ∀ s, s = d → P s := fun s hs => hs ▸ hd
    exact ((hbuild hexposed _).mono hfrom (fun _ _ h => h) fun _ _ h => h).bind fun p =>
      Drafting.ends_modifyType (hadd p)
  · rename_i hhidden
    exact .pure (hskip (by simpa using hhidden))

/-- What comes of a class that is new: its name is chosen and taken, and its parent, its address and
its fields are added in turn. -/
theorem ends_extractNew {I : String → List Field → Draft → Prop}
    (hc : cat.class? className = some shape)
    (hunnamed : ∀ s e, P s →
      s.types.resolveName (nameCandidates cat.config shape) className = .error e → E e s)
    (hfree : ∀ s name, P s →
      s.types.resolveName (nameCandidates cat.config shape) className = .ok name →
      s.types.get? name = none)
    (hparent : ∀ s name, P s →
      s.types.resolveName (nameCandidates cat.config shape) className = .ok name →
      Ends (· = { s with types := s.types.put (bare name className shape) })
        (extractParent cat visit name shape) (fun _ => I name []) E)
    (haddress : ∀ name s, I name [] s →
      I name [] { s with types := s.types.modify name withAddress })
    (hfield : ∀ name parent done field rest, shape.fields = done ++ field :: rest →
      Ends (I name done) (extractField cat visit (bare name className shape) className parent field)
        (fun _ => I name (done ++ [field])) E)
    (hend : ∀ name s, I name shape.fields s → Q s) :
    Ends P (extractNew cat visit className) (fun _ => Q) E := by
  unfold extractNew
  simp only [hc]
  refine .get_bind fun d hd => ?_
  refine Ends.bind (Q := fun name s => s = d ∧
      d.types.resolveName (nameCandidates cat.config shape) className = .ok name)
    (.lift (fun name s hname hs => ⟨hs, hname⟩) fun e s he hs => hs ▸ hunnamed d e hd he)
    fun name => ?_
  refine Ends.bind (Q := fun _ s =>
      s = { d with types := d.types.put (bare name className shape) } ∧
      d.types.resolveName (nameCandidates cat.config shape) className = .ok name)
    (Drafting.ends_register ?_ ?_) fun _ => ?_
  · rintro s ⟨rfl, hname⟩
    exact hfree s name hd hname
  · rintro s ⟨rfl, hname⟩
    exact ⟨rfl, hname⟩
  refine Ends.bind (Q := fun _ => I name []) ?_ fun parent => ?_
  · rintro s ⟨rfl, hname⟩
    exact hparent d name hd hname _ rfl
  have hfields : Ends (I name []) (do
      shape.fields.forM (extractField cat visit (bare name className shape) className parent)
      pure (((← get).types.get? name).getD (bare name className shape)))
      (fun _ => Q) E :=
    (Ends.forM fun done field rest hsplit => hfield name parent done field rest hsplit).bind
      fun _ => .get_bind fun s hs => .pure fun s' hs' => hs' ▸ hend name s hs
  split
  · exact (Drafting.ends_modifyType (haddress name)).bind fun _ => hfields
  · exact hfields

end Classes
end Model
end HydraClient
