import HydraClient.Proofs.Depth
import HydraClient.Proofs.Outcomes
import HydraClient.Proofs.Reachability
import HydraClient.Proofs.Spellings

/-! # Forms without a type

Extraction looks at every form of every exposed field of every class that it reaches, so a form that
has no type is never passed over: it stops the extraction unless something else has stopped it
before. Nothing else is taken for such a form.
-/
namespace HydraClient

open Metadata TypeRegistry

namespace Model

variable {cat : Catalog} {s : Draft} {pending : List String} {known known' : String → Prop}
  {depth : Nat} {c n name : String} {shape : ClassDecl} {t : TypeEntry} {e : Failure}

/-- A described class with an exposed field that has a form without a type. -/
def Flawed (cat : Catalog) (c : String) : Prop :=
  ∃ shape f form, cat.class? c = some shape ∧ f ∈ shape.fields ∧ f.isExposed = true ∧
    form ∈ f.types ∧ ¬Recognised cat form

/-- What can stop the extraction of a class: a name that cannot be found, a default that cannot be
written, or a flaw in a class that is reached. -/
def Stops (cat : Catalog) (c : String) (e : Failure) : Prop :=
  e.IsOf .nameConflict ∨ (∃ reason, e = .unwritable reason) ∨
    e.IsOf .unknownFieldShape ∧ ∃ n, Relation.ReflTransGen (Leads cat) c n ∧ Flawed cat n

theorem Stops.head (h : Stops cat n e) (hn : Leads cat c n) : Stops cat c e := by
  rcases h with h | h | ⟨h, m, hm, hflawed⟩
  · exact .inl h
  · exact .inr (.inl h)
  · exact .inr (.inr ⟨h, m, .head hn hm, hflawed⟩)

theorem stops_of_resolveName {r : TypeRegistry} {names : List String}
    (h : r.resolveName names n = .error e) : Stops cat c e := by
  unfold resolveName at h
  split at h
  · cases h
  · obtain rfl := Except.error.inj h
    exact .inl ⟨_, rfl, rfl⟩

theorem stops_of_literal {v : Json} (h : Script.literal v = .error e) : Stops cat c e := by
  obtain ⟨reason, -, rfl⟩ := Script.written_error_iff.1 h
  exact .inr (.inl ⟨reason, rfl⟩)

def LeadsForm (cat : Catalog) (form : FieldType) (n : String) : Prop :=
  referred? form = some n ∧ cat.classify n = .model

/-- Every known class that is not pending is without flaw, and what it leads to is known. -/
structure Gathering (cat : Catalog) (pending : List String) (known : String → Prop) (depth : Nat)
    (s : Draft) : Prop where
  coherent : Coherent s.types
  settled : ∀ n shape, s.types.Knows n → cat.class? n = some shape → n ∉ pending →
    ¬Flawed cat n ∧ ∀ m, Leads cat n m → s.types.Knows m
  known : ∀ n, known n → s.types.Knows n
  fewer : Fewer cat depth s

namespace Gathering

theorem mono (h : Gathering cat pending known depth s) (hknown : ∀ n, known' n → known n) :
    Gathering cat pending known' depth s :=
  ⟨h.coherent, h.settled, fun n hn => h.known n (hknown n hn), h.fewer⟩

theorem modify {f : TypeEntry → TypeEntry} (h : Gathering cat pending known depth s)
    (hf : ∀ t, (f t).head = t.head) :
    Gathering cat pending known depth { s with types := s.types.modify name f } :=
  ⟨h.coherent.modify hf, h.settled, h.known, h.fewer.modify name f⟩

theorem put {pending' : List String} {depth' : Nat} (h : Gathering cat pending known depth s)
    (hfree : s.types.get? t.name = none) (ht : t.source = some c)
    (hclass : ∀ shape, cat.class? c = some shape → c ∈ pending') (hsub : pending ⊆ pending')
    (hfewer : Fewer cat depth' { s with types := s.types.put t }) :
    Gathering cat pending' (fun n => n = c ∨ known n) depth'
      { s with types := s.types.put t } := by
  have hknows : ∀ {n}, (s.types.put t).Knows n ↔ n = c ∨ s.types.Knows n :=
    PlainlyKnown.knows_put ht
  refine ⟨h.coherent.put ht (by simp [hfree]), ?_, ?_, hfewer⟩
  · intro n shape hn hshape hpending
    rcases hknows.1 hn with rfl | hn
    · exact absurd (hclass shape hshape) hpending
    · obtain ⟨hflaw, hleads⟩ := h.settled n shape hn hshape fun hmem => hpending (hsub hmem)
      exact ⟨hflaw, fun m hm => hknows.2 (.inr (hleads m hm))⟩
  · exact fun n hn => hknows.2 (hn.imp_right (h.known n))

theorem close {depth' : Nat} (h : Gathering cat (c :: pending) known depth s) (hle : depth ≤ depth')
    (hflaw : ¬Flawed cat c) (hleads : ∀ n, Leads cat c n → known n) :
    Gathering cat pending known depth' s := by
  refine ⟨h.coherent, fun n shape hn hshape hpending => ?_, h.known, h.fewer.trans_le hle⟩
  by_cases hc : n = c
  · subst hc
    exact ⟨hflaw, fun m hm => h.known m (hleads m hm)⟩
  · exact h.settled n shape hn hshape (by simp [hc, hpending])

theorem reached (h : Gathering cat [] known depth s) (hc : s.types.Knows c)
    (hclass : ∃ shape, cat.class? c = some shape) (hn : Relation.ReflTransGen (Leads cat) c n) :
    ¬Flawed cat n := by
  have hknown : s.types.Knows n ∧ ∃ shape, cat.class? n = some shape := by
    induction hn with
    | refl => exact ⟨hc, hclass⟩
    | tail _ hl ih =>
      obtain ⟨hm, shape, hshape⟩ := ih
      refine ⟨(h.settled _ shape hm hshape (by simp)).2 _ hl, ?_⟩
      cases hl with
      | parent _ _ _ hmodel | field _ _ _ _ _ hmodel =>
        exact Catalog.classify_eq_model_iff.1 hmodel
  obtain ⟨hn, shape, hshape⟩ := hknown
  exact (h.settled n shape hn hshape (by simp)).1

end Gathering

def Gathers (cat : Catalog) (depth : Nat) (visit : String → Drafting TypeEntry) : Prop :=
  ∀ pending known c, c ∈ met cat → (∃ shape, cat.class? c = some shape) →
    Ends (Gathering cat pending known depth) (visit c)
      (fun _ => Gathering cat pending (fun n => n = c ∨ known n) depth) (fun e _ => Stops cat c e)

theorem ends_enum (hc : cat.classify c = .enumeration) (file : Option String) :
    Ends (Gathering cat pending known depth) (resolveEnum cat c file)
      (fun _ => Gathering cat pending known depth) (fun e _ => Stops cat name e) := by
  refine ends_resolveEnum file (fun _ hs => hs.coherent) (fun _ _ hs _ => hs)
    (fun _ _ _ he => stops_of_resolveName he) ?_ ?_
  · intro hnone
    obtain ⟨shape, hshape⟩ := enum?_of_classify hc
    rw [hnone] at hshape
    cases hshape
  · intro s n file shape hs hl hn _
    refine (hs.put (t := nativeEnum n c file shape) (hs.coherent.resolveName_fresh hl hn) rfl ?_
      (List.Subset.refl pending) hs.fewer.put).mono fun _ => .inr
    intro shape' hshape'
    rw [Catalog.classify_eq_model_iff.2 ⟨shape', hshape'⟩] at hc
    cases hc

def LeadsField (cat : Catalog) (field : Field) (n : String) : Prop :=
  field.isExposed = true ∧ ∃ form ∈ field.types, LeadsForm cat form n

def Recognises (cat : Catalog) (field : Field) : Prop :=
  field.isExposed = true → ∀ form ∈ field.types, Recognised cat form

/-- The parts of a class that have been looked at, forms of a field or fields: they are without
flaw, and the classes that they lead to are known. -/
structure Seen {α : Type} (cat : Catalog) (leads : α → String → Prop) (flawless : α → Prop)
    (pending : List String) (known : String → Prop) (depth : Nat) (done : List α) (s : Draft) :
    Prop where
  gathering : Gathering cat pending (fun n => known n ∨ ∃ a ∈ done, leads a n) depth s
  flawless : ∀ a ∈ done, flawless a

theorem Seen.append {α : Type} {leads : α → String → Prop} {flawless : α → Prop} {done : List α}
    {a : α} {s' : Draft} (h : Seen cat leads flawless pending known depth done s) (ha : flawless a)
    (hs' : Gathering cat pending (fun n => leads a n ∨ known n ∨ ∃ a ∈ done, leads a n) depth s') :
    Seen cat leads flawless pending known depth (done ++ [a]) s' where
  gathering := by
    refine hs'.mono fun n hn => ?_
    rcases hn with hn | ⟨b, hmem, hn⟩
    · exact .inr (.inl hn)
    · rcases List.mem_append.1 hmem with hmem | hmem
      · exact .inr (.inr ⟨b, hmem, hn⟩)
      · exact .inl (List.mem_singleton.1 hmem ▸ hn)
  flawless b hmem := by
    rcases List.mem_append.1 hmem with hmem | hmem
    · exact h.flawless b hmem
    · exact List.mem_singleton.1 hmem ▸ ha

theorem Gathering.seen {α : Type} {leads : α → String → Prop} {flawless : α → Prop}
    (h : Gathering cat pending known depth s) :
    Seen cat leads flawless pending known depth [] s :=
  ⟨h.mono (by simp), by simp⟩

section Classes

variable {visit : String → Drafting TypeEntry} {owner : TypeEntry} {field : Field}
  (hv : Gathers cat depth visit) (hc : cat.class? c = some shape)

include hv hc

theorem seen_buildProperty (hf : field ∈ shape.fields) (hexposed : field.isExposed = true)
    (inherited : Bool) :
    Ends (Seen cat (LeadsForm cat) (Recognised cat) pending known depth [])
      (buildProperty cat visit owner field inherited)
      (fun _ => Seen cat (LeadsForm cat) (Recognised cat) pending known depth field.types)
      (fun e _ => Stops cat c e) := by
  refine ends_buildProperty inherited ?_ ?_ ?_ ?_
  · intro done form rest n hsplit hn
    have hform : form ∈ field.types := by simp [hsplit]
    refine ⟨fun hmodel s hs => ?_, fun henum file s hs => ?_⟩
    · have hleads : Leads cat c n := .field hc hf hexposed hform hn hmodel
      refine (hv pending (fun k => known k ∨ ∃ form ∈ done, LeadsForm cat form k) n
        (referred_mem_met hn hmodel) (Catalog.classify_eq_model_iff.1 hmodel)).mono
        (fun m (hm : m = s) => hm ▸ hs.gathering) (fun _ m hm => ?_)
        (fun e _ he => he.head hleads) s rfl
      refine hs.append (recognised_of_referred hn (by simp [hmodel])) (hm.mono fun k hk => ?_)
      exact hk.imp_left fun hk => Option.some.inj (hk.1.symm.trans hn)
    · refine (ends_enum henum file).mono (fun m (hm : m = s) => hm ▸ hs.gathering)
        (fun _ m hm => ?_) (fun e _ he => he) s rfl
      refine hs.append (recognised_of_referred hn (by simp [henum])) (hm.mono fun k hk => ?_)
      refine hk.resolve_left fun ⟨hk, hkind⟩ => ?_
      rw [Option.some.inj (hk.symm.trans hn), henum] at hkind
      cases hkind
  · intro done form rest _ hrecognised hkinds s hs
    refine hs.append hrecognised (hs.gathering.mono fun k hk => ?_)
    exact hk.resolve_left fun hk => hkinds k hk.1 hk.2
  · intro done form rest hsplit hunknown e he s hs
    have hform : form ∈ field.types := by simp [hsplit]
    exact .inr (.inr ⟨he, c, .refl, shape, field, form, hc, hf, hexposed, hform, hunknown⟩)
  · exact fun _ _ _ _ e s he _ => stops_of_literal he

theorem seen_extractField {className : String} {parent : Option String} {done rest : List Field}
    (hsplit : shape.fields = done ++ field :: rest) :
    Ends (Seen cat (LeadsField cat) (Recognises cat) pending known depth done)
      (extractField cat visit owner className parent field)
      (fun _ => Seen cat (LeadsField cat) (Recognises cat) pending known depth (done ++ [field]))
      (fun e _ => Stops cat c e) := by
  have hf : field ∈ shape.fields := by simp [hsplit]
  intro s hs
  refine (ends_extractField (P := (· = s)) (R := fun m => Seen cat (LeadsForm cat) (Recognised cat)
    pending (fun n => known n ∨ ∃ f ∈ done, LeadsField cat f n) depth field.types m ∧
      field.isExposed = true) ?_ ?_ ?_) s rfl
  · rintro hhidden m rfl
    have hnone : ¬field.isExposed = true := by simp [hhidden]
    refine hs.append (fun hexposed => absurd hexposed hnone) (hs.gathering.mono fun n hn => ?_)
    exact hn.resolve_left fun hn => hnone hn.1
  · intro hexposed inherited
    refine (seen_buildProperty hv hc hf hexposed inherited).mono ?_ (fun _ m hm => ⟨hm, hexposed⟩)
      fun _ _ he => he
    rintro m rfl
    exact hs.gathering.seen
  · rintro p m ⟨hm, hexposed⟩
    refine hs.append (fun _ => hm.flawless)
      ((hm.gathering.modify fun t => t.head_addProperty p).mono fun n hn => ?_)
    exact hn.elim (fun hn => .inr hn.2) .inl

theorem gathering_extractNew (hmet : c ∈ met cat) :
    Ends (fun s => Gathering cat pending known (depth + 1) s ∧ s.types.lookupSource c = none)
      (extractNew cat visit c)
      (fun _ => Gathering cat pending (fun n => n = c ∨ known n) (depth + 1))
      (fun e _ => Stops cat c e) := by
  let parental : String → Prop := fun n =>
    shape.parent = some n ∧ n ≠ "" ∧ cat.classify n = .model
  refine ends_extractNew (I := fun _ => Seen cat (LeadsField cat) (Recognises cat) (c :: pending)
    (fun n => parental n ∨ n = c ∨ known n) depth) hc ?_ ?_ ?_ ?_ ?_ ?_
  · exact fun s e _ he => stops_of_resolveName he
  · rintro s name ⟨hs, hl⟩ hname
    exact hs.coherent.resolveName_fresh hl hname
  · rintro s name ⟨hs, hl⟩ hname
    have hput : Gathering cat (c :: pending) (fun n => n = c ∨ known n) depth
        { s with types := s.types.put (bare name c shape) } :=
      hs.put (hs.coherent.resolveName_fresh hl hname) rfl (fun _ _ => List.mem_cons_self)
        (List.subset_cons_self c pending) (hs.fewer.put_new hmet hl rfl)
    refine ends_extractParent ?_ ?_
    · rintro habsent m rfl
      refine (hput.mono fun n hn => ?_).seen
      exact hn.resolve_left fun hn => habsent n hn.1 hn.2.1 hn.2.2
    · intro n hn hne hmodel
      have hvisit := hv (c :: pending) (fun n => n = c ∨ known n) n (parent_mem_met hc hn)
        (Catalog.classify_eq_model_iff.1 hmodel)
      refine hvisit.mono (fun m hm => hm ▸ hput) (fun p m hm => ?_)
        fun e _ he => he.head (.parent hc hn hne hmodel)
      refine ((hm.modify (head_withParent p)).mono fun k hk => ?_).seen
      exact hk.imp_left fun hk => Option.some.inj (hk.1.symm.trans hn)
  · exact fun name s hs => ⟨hs.gathering.modify head_withAddress, hs.flawless⟩
  · exact fun name parent done field rest hsplit => seen_extractField hv hc hsplit
  · intro name s hs
    refine (hs.gathering.close (Nat.le_succ depth) ?_ ?_).mono fun n hn => .inl (.inr hn)
    · rintro ⟨shape', f, form, hshape', hf, hexposed, hform, hunknown⟩
      obtain rfl := Option.some.inj (hc.symm.trans hshape')
      exact hunknown (hs.flawless f hf hexposed form hform)
    · intro n hn
      cases hn with
      | parent hshape' hp hne hmodel =>
        obtain rfl := Option.some.inj (hc.symm.trans hshape')
        exact .inl (.inl ⟨hp, hne, hmodel⟩)
      | field hshape' hf hexposed hform hreferred hmodel =>
        obtain rfl := Option.some.inj (hc.symm.trans hshape')
        exact .inr ⟨_, hf, hexposed, _, hform, hreferred, hmodel⟩

end Classes

theorem gathers_extractWithin (depth : Nat) : Gathers cat depth (extractWithin cat depth) := by
  -- A visit has fewer new names left than its caller, and none is ever made without any.
  induction depth with
  | zero => exact fun pending known c _ _ s hs => absurd hs.fewer (Nat.not_lt_zero _)
  | succ depth ih =>
    intro pending known c hmet hclass
    obtain ⟨shape, hshape⟩ := hclass
    refine .get_bind fun d hd => ?_
    cases hl : d.types.lookupSource c with
    | some t =>
      refine .pure fun s hs => ?_
      obtain rfl : s = d := hs
      have hc : s.types.Knows c := ⟨t.name, (hd.coherent.of_lookupSource hl).1⟩
      refine ⟨hd.coherent, hd.settled, fun n hn => ?_, hd.fewer⟩
      rcases hn with rfl | hn
      · exact hc
      · exact hd.known n hn
    | none =>
      refine (gathering_extractNew ih hshape hmet).mono (fun s hs => ?_) (fun _ _ h => h)
        fun _ _ h => h
      obtain rfl : s = d := hs
      exact ⟨hd, hl⟩

end Model

open Model

variable {doc : Document}

theorem Metadata.Config.NamespacesPlain.relative {c : Config} {a : String} (h : c.NamespacesPlain)
    (ha : c.matchesNamespace a = true) : ClassName.relative a = a := by
  obtain ⟨ns, hns, hmatch⟩ := List.any_eq_true.1 ha
  obtain ⟨first, rest, hfirst, hne⟩ := h ns hns
  have hbegins : ns.toList <+: a.toList := by
    rw [Bool.or_eq_true] at hmatch
    rcases hmatch with heq | hbelow
    · rw [beq_iff_eq.1 heq]
    · unfold Config.below? at hbelow
      dsimp only at hbelow
      split at hbelow
      · rename_i hprefix
        exact (List.prefix_append _ _).trans (List.isPrefixOf_iff_prefix.1 hprefix)
      · cases hbelow
  obtain ⟨more, hmore⟩ := hbegins
  rw [hfirst] at hmore
  have hkeep : a.toList.dropWhile (· == '\\') = a.toList := by
    rw [← hmore, List.cons_append, List.dropWhile_cons, if_neg (by simpa using hne)]
  rw [ClassName.relative, hkeep, String.ofList_toList]

theorem exists_class?_of_resources {cat : Catalog} {a : String} (ha : a ∈ cat.resources)
    (hplain : ClassName.relative a = a) : ∃ shape, cat.class? a = some shape := by
  obtain ⟨⟨key, shape⟩, hmem, rfl⟩ := List.mem_map.1 ha
  refine ⟨shape, ?_⟩
  rw [Catalog.class?, hplain]
  exact OrderedMap.mem_entries_iff.1 (List.mem_filter.1 hmem).1

theorem gathering_seeded {cat : Catalog} {s : Draft} {depth : Nat}
    (h : BaseTypes.Exactly (BaseTypes.all cat.config.hydraStart) s.types)
    (hbase : ∀ t ∈ BaseTypes.all cat.config.hydraStart, ∀ c, t.source = some c →
      cat.class? c = none) (hdepth : 2 * cat.classes.size + 1 ≤ depth) :
    Gathering cat [] (· ∈ ([] : List String)) depth s where
  coherent := h.coherent
  settled n shape hn hshape _ := by
    obtain ⟨name, hname⟩ := hn
    obtain ⟨t, ht, hs⟩ := h.coherent.sourced hname
    rw [hbase t (h.among ht) n hs] at hshape
    cases hshape
  known := by simp
  fewer := (fewer_bound s).trans_le hdepth

/-- The extraction of all served classes either stops, and for a reason, or has passed every class
that it leads to. -/
theorem ends_extractAll {cat : Catalog} (hplain : cat.config.NamespacesPlain) :
    Ends (Gathering cat [] (· ∈ ([] : List String)) (depthBound cat)) (extractAll cat)
      (fun _ => Gathering cat [] (· ∈ cat.resources.filter cat.config.matchesNamespace)
        (depthBound cat))
      (fun e _ => ∃ a ∈ cat.resources, cat.config.matchesNamespace a = true ∧ Stops cat a e) := by
  refine .mapM (I := fun done => Gathering cat [] (· ∈ done) (depthBound cat))
    fun done a rest hsplit => ?_
  have hmem : a ∈ cat.resources.filter cat.config.matchesNamespace := by simp [hsplit]
  obtain ⟨ha, hnamespace⟩ := List.mem_filter.1 hmem
  obtain ⟨shape, hshape⟩ := exists_class?_of_resources ha (hplain.relative hnamespace)
  have hkey : a ∈ met cat := by
    refine List.mem_append_left _ (OrderedMap.mem_keys_iff.2 ⟨shape, ?_⟩)
    rwa [Catalog.class?, hplain.relative hnamespace] at hshape
  refine (gathers_extractWithin (depthBound cat) [] (· ∈ done) a hkey ⟨shape, hshape⟩).mono
    (fun _ hs => hs) (fun t s hs => hs.mono fun n hn => ?_)
    fun e s he => ⟨a, ha, hnamespace, he⟩
  exact (List.mem_append.1 hn).elim .inr fun hn => .inl (List.mem_singleton.1 hn)

/-- Unless a name cannot be found or a default cannot be written, the extraction of all served
classes fails for a form without a type exactly if an exposed field of a class that they lead to has
such a form. -/
theorem unknownShape_iff_flawed {disk : Disk} {seeded : Draft}
    (hplain : doc.config.NamespacesPlain)
    (hbase : ∀ t ∈ BaseTypes.all doc.config.hydraStart, ∀ c, t.source = some c →
      (Catalog.ofDocument doc).class? c = none)
    (hseed : Yields (BaseTypes.seed doc.config disk) {} ⟨⟩ seeded)
    (hruns : ∀ e s, outcome (extractAll (.ofDocument doc)) seeded = (.error e, s) →
      ¬e.IsOf .nameConflict ∧ ∀ reason, e ≠ .unwritable reason) :
    (∃ e s, outcome (extractAll (.ofDocument doc)) seeded = (.error e, s) ∧
      e.IsOf .unknownFieldShape) ↔
    ∃ a ∈ (Catalog.ofDocument doc).resources, doc.config.matchesNamespace a = true ∧
      ∃ c, Relation.ReflTransGen (Leads (.ofDocument doc)) a c ∧ Flawed (.ofDocument doc) c := by
  have hseeded : Gathering (.ofDocument doc) [] (· ∈ ([] : List String))
      (depthBound (.ofDocument doc)) seeded :=
    gathering_seeded (BaseTypes.yields_seed hseed).1 hbase (Nat.le_succ _)
  have hcat : (Catalog.ofDocument doc).config.NamespacesPlain := hplain
  have hends := ends_extractAll hcat
  constructor
  · rintro ⟨e, s, hfails, -⟩
    obtain ⟨hnames, hwritten⟩ := hruns e s hfails
    obtain ⟨a, ha, hnamespace, hstops⟩ := hends.error hseeded hfails
    rcases hstops with h | ⟨reason, h⟩ | ⟨-, hreached⟩
    · exact absurd h hnames
    · exact absurd h (hwritten reason)
    · exact ⟨a, ha, hnamespace, hreached⟩
  · rintro ⟨a, ha, hnamespace, c, hreached, hflawed⟩
    rcases hout : outcome (extractAll (.ofDocument doc)) seeded with ⟨e | ts, s⟩
    · obtain ⟨hnames, hwritten⟩ := hruns e s hout
      obtain ⟨_, _, _, hstops⟩ := hends.error hseeded hout
      rcases hstops with h | ⟨reason, h⟩ | ⟨h, -⟩
      · exact absurd h hnames
      · exact absurd h (hwritten reason)
      · exact ⟨e, s, rfl, h⟩
    · have hs := hends.ok hseeded hout
      have hknown : s.types.Knows a := hs.known a (List.mem_filter.2 ⟨ha, hnamespace⟩)
      have hclass := exists_class?_of_resources ha (hplain.relative hnamespace)
      have hfree : Gathering (.ofDocument doc) [] (fun _ => False)
          (depthBound (.ofDocument doc)) s :=
        hs.mono fun _ h => h.elim
      exact absurd hflawed (hfree.reached hknown hclass hreached)

def weightField : Field where
  name := "weight"
  types := [{ builtin := "resource" }]

def entryDecl : ClassDecl where
  className := "App\\Entity\\Entry"
  fields := [weightField]

def remarkDecl : ClassDecl where
  className := "App\\Entity\\Remark"
  parent := some "App\\Entity\\Entry"
  fields := [{
    name := "board"
    types := [{ builtin := "object", className := some "App\\Entity\\Board" }] }]

def remarksField : Field where
  name := "remarks"
  types := [{
    builtin := "array"
    collection := true
    value := some { builtin := "object", className := some "App\\Entity\\Remark" } }]

def boardDecl : ClassDecl where
  className := "App\\Entity\\Board"
  fields := [remarksField]
  exposures := [{ shortName := "Board" }]

/-- A board has remarks, which lead back to it and have a flawed parent. -/
def board : Document where
  classes := [boardDecl, remarkDecl, entryDecl]

/-- The flaw is found behind an element of a collection and its parent. -/
theorem board_unknownShape : board.config.NamespacesPlain ∧
    (∀ t ∈ BaseTypes.all board.config.hydraStart, ∀ c, t.source = some c →
      (Catalog.ofDocument board).class? c = none) ∧
    Yields (BaseTypes.seed board.config {}) {} ⟨⟩ (baseDraft board) ∧
    (∀ e s, outcome (extractAll (.ofDocument board)) (baseDraft board) = (.error e, s) →
      ¬e.IsOf .nameConflict ∧ ∀ reason, e ≠ .unwritable reason) ∧
    ∃ e s, outcome (extractAll (.ofDocument board)) (baseDraft board) = (.error e, s) ∧
      e.IsOf .unknownFieldShape := by
  have hbase : ∀ t ∈ BaseTypes.all board.config.hydraStart, ∀ c, t.source = some c →
      (Catalog.ofDocument board).class? c = none := by
    intro t ht c hc
    have hnone : ∀ s ∈ (BaseTypes.all board.config.hydraStart).map (·.source),
        s.all fun c => ((Catalog.ofDocument board).class? c).isNone := by decide +kernel
    have hclass := hnone _ (List.mem_map_of_mem ht)
    rw [hc] at hclass
    exact Option.isNone_iff_eq_none.1 hclass
  have hseed : Yields (BaseTypes.seed board.config {}) {} ⟨⟩ (baseDraft board) := by
    obtain ⟨⟨⟩, hok⟩ := exists_of_isOk
      (x := (outcome (BaseTypes.seed board.config {}) {}).1) (by decide +kernel)
    exact yields_of_outcome hok
  obtain ⟨e, hfails, hflaw⟩ := exists_failure_of_test
    (x := extractAll (.ofDocument board)) (s := baseDraft board)
    (p := (· == .builtinUnknown "resource" (some "App\\Entity\\Entry") "weight"))
    (by decide +kernel)
  obtain rfl := beq_iff_eq.1 hflaw
  have hruns : ∀ e s, outcome (extractAll (.ofDocument board)) (baseDraft board) = (.error e, s) →
      ¬e.IsOf .nameConflict ∧ ∀ reason, e ≠ .unwritable reason := by
    intro e s he
    rw [hfails] at he
    obtain rfl := Except.error.inj (Prod.mk.inj he).1
    refine ⟨?_, nofun⟩
    rintro ⟨d, hd, hcategory⟩
    obtain rfl := Option.some.inj hd
    cases hcategory
  have hremark : Leads (.ofDocument board) "App\\Entity\\Board" "App\\Entity\\Remark" :=
    .field (show _ = some boardDecl from rfl) (List.mem_singleton_self remarksField) (by decide)
      (List.mem_singleton.2 rfl) (by decide) (by decide)
  have hentry : Leads (.ofDocument board) "App\\Entity\\Remark" "App\\Entity\\Entry" :=
    .parent (show _ = some remarkDecl from rfl) rfl (by decide) (by decide)
  have hflawed : Flawed (.ofDocument board) "App\\Entity\\Entry" :=
    ⟨entryDecl, weightField, _, rfl, List.mem_singleton_self _, by decide,
      List.mem_singleton_self _, id⟩
  have hplain := Config.namespacesPlain_default
  refine ⟨hplain, hbase, hseed, hruns, (unknownShape_iff_flawed hplain hbase hseed hruns).2 ?_⟩
  exact ⟨"App\\Entity\\Board", by decide +kernel, by decide +kernel, _,
    .tail (.single hremark) hentry, hflawed⟩

def scaleDecl : ClassDecl where
  className := "App\\Entity\\Scale"
  fields := [{
    name := "load"
    types := [{ builtin := "object", className := some "@base/HydraItem" }] }]
  exposures := [{ shortName := "Scale" }]

def loadDecl : ClassDecl where
  className := "@base/HydraItem"
  fields := [weightField]

def scale : Document where
  classes := [scaleDecl, loadDecl]

def loggedDecl : ClassDecl where
  className := "App\\Entity\\Scale"
  fields := [
    { name := "since"
      types := [{ builtin := "string" }]
      default := .special (.date ⟨2024, 1, 1⟩) },
    weightField]
  exposures := [{ shortName := "Scale" }]

/-- A flawed field after one whose default is a date. -/
def logged : Document where
  classes := [loggedDecl]

/-- The envelope is taken for the class, whose flaw is never seen. A default that cannot be written
stops the extraction before it sees the flaw. -/
theorem flaw_passed_over :
    (∃ ts s, Yields (extractAll (.ofDocument scale)) (baseDraft scale) ts s ∧
      ∃ a ∈ (Catalog.ofDocument scale).resources, scale.config.matchesNamespace a = true ∧
        ∃ c, Relation.ReflTransGen (Leads (.ofDocument scale)) a c ∧
          Flawed (.ofDocument scale) c) ∧
    ∃ e s, outcome (extractAll (.ofDocument logged)) (baseDraft logged) = (.error e, s) ∧
      ¬e.IsOf .nameConflict ∧ ¬e.IsOf .unknownFieldShape ∧
      ∃ a ∈ (Catalog.ofDocument logged).resources, logged.config.matchesNamespace a = true ∧
        ∃ c, Relation.ReflTransGen (Leads (.ofDocument logged)) a c ∧
          Flawed (.ofDocument logged) c := by
  constructor
  · obtain ⟨ts, s, h, -⟩ := Yields.exists_of_test (p := fun _ _ => true)
      (x := extractAll (.ofDocument scale)) (s := baseDraft scale) (by decide +kernel)
    have hload : Leads (.ofDocument scale) "App\\Entity\\Scale" "@base/HydraItem" :=
      .field (show _ = some scaleDecl from rfl) (List.mem_singleton.2 rfl) (by decide)
        (List.mem_singleton.2 rfl) (by decide) (by decide)
    have hflawed : Flawed (.ofDocument scale) "@base/HydraItem" :=
      ⟨loadDecl, weightField, _, rfl, List.mem_singleton_self _, by decide,
        List.mem_singleton_self _, id⟩
    exact ⟨ts, s, h, "App\\Entity\\Scale", by decide +kernel, by decide +kernel, _, .single hload,
      hflawed⟩
  · obtain ⟨e, hfails, hdate⟩ := exists_failure_of_test
      (x := extractAll (.ofDocument logged)) (s := baseDraft logged)
      (p := (· == .unwritable (.value "date"))) (by decide +kernel)
    obtain rfl := beq_iff_eq.1 hdate
    have hflawed : Flawed (.ofDocument logged) "App\\Entity\\Scale" :=
      ⟨loggedDecl, weightField, _, rfl, by simp [loggedDecl], by decide,
        List.mem_singleton_self _, id⟩
    have hunreported : ∀ category, ¬(Failure.unwritable (.value "date")).IsOf category := by
      rintro category ⟨d, hd, -⟩
      cases hd
    exact ⟨_, _, hfails, hunreported _, hunreported _, "App\\Entity\\Scale", by decide +kernel,
      by decide +kernel, _, .refl, hflawed⟩

end HydraClient
