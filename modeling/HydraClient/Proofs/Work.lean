import HydraClient.Draft
import HydraClient.Filter

/-! # Runs of work that may fail

What work on a state gives is a relation between the states before and after it. A loop is a pass:
one step for each element of a list, in order.
-/
namespace HydraClient

variable {ε σ α β : Type}

section Results

variable {x : Except ε α} {a : α} {b : β} {l : List α} {bs : List β}

theorem exists_of_isOk (h : x.isOk = true) : ∃ a, x = .ok a := by
  cases x with
  | error e => cases h
  | ok a => exact ⟨a, rfl⟩

theorem exists_of_map_ok {f : α → β} (h : x.map f = .ok b) : ∃ a, x = .ok a ∧ f a = b := by
  cases x with
  | error e => cases h
  | ok a => exact ⟨a, rfl, Except.ok.inj h⟩

theorem exists_of_bind_ok {f : α → Except ε β} (h : (x >>= f) = .ok b) :
    ∃ a, x = .ok a ∧ f a = .ok b := by
  cases x with
  | error e => cases h
  | ok a => exact ⟨a, rfl, h⟩

theorem bind_eq_error {f : α → Except ε β} {e : ε} (h : (x >>= f) = .error e) :
    x = .error e ∨ ∃ a, x = .ok a ∧ f a = .error e := by
  cases x with
  | error e' => exact .inl (congrArg Except.error (Except.error.inj h))
  | ok a => exact .inr ⟨a, rfl, h⟩

variable {f : α → Except ε β}

theorem mapM_congr {g : α → Except ε β} (h : ∀ a ∈ l, f a = g a) : l.mapM f = l.mapM g := by
  induction l with
  | nil => rfl
  | cons a rest ih =>
    rw [List.mapM_cons, List.mapM_cons, h a List.mem_cons_self,
      ih fun a' ha => h a' (List.mem_cons_of_mem _ ha)]

theorem map_of_mapM_ok (h : l.mapM f = .ok bs) : l.map f = bs.map .ok := by
  induction l generalizing bs with
  | nil =>
    rw [List.mapM_nil] at h
    obtain rfl := Except.ok.inj h
    rfl
  | cons a rest ih =>
    rw [List.mapM_cons] at h
    obtain ⟨b, hb, h⟩ := exists_of_bind_ok h
    obtain ⟨cs, hcs, h⟩ := exists_of_bind_ok h
    obtain rfl := Except.ok.inj h
    rw [List.map_cons, List.map_cons, hb, ih hcs]

theorem exists_of_mapM_ok (h : l.mapM f = .ok bs) (ha : a ∈ l) : ∃ b ∈ bs, f a = .ok b := by
  have hmem : f a ∈ bs.map .ok := map_of_mapM_ok h ▸ List.mem_map_of_mem ha
  obtain ⟨b, hb, e⟩ := List.mem_map.1 hmem
  exact ⟨b, hb, e.symm⟩

theorem mem_of_mapM_ok (h : l.mapM f = .ok bs) (hb : b ∈ bs) : ∃ a ∈ l, f a = .ok b := by
  have hmem : .ok b ∈ l.map f := (map_of_mapM_ok h).symm ▸ List.mem_map_of_mem hb
  exact List.mem_map.1 hmem

theorem mapM_eq_ok {g : α → β} (h : ∀ a ∈ l, f a = .ok (g a)) : l.mapM f = .ok (l.map g) := by
  induction l with
  | nil => rfl
  | cons a rest ih =>
    rw [List.mapM_cons, h a List.mem_cons_self, ih fun a' ha => h a' (List.mem_cons_of_mem _ ha)]
    rfl

theorem exists_mapM_ok (h : ∀ a ∈ l, ∃ b, f a = .ok b) : ∃ bs, l.mapM f = .ok bs := by
  induction l with
  | nil => exact ⟨[], rfl⟩
  | cons a rest ih =>
    obtain ⟨b, hb⟩ := h a (by simp)
    obtain ⟨bs, hbs⟩ := ih fun a' ha => h a' (List.mem_cons_of_mem _ ha)
    refine ⟨b :: bs, ?_⟩
    rw [List.mapM_cons, hb, hbs]
    rfl

theorem exists_of_mapM_error {e : ε} (h : l.mapM f = .error e) : ∃ a ∈ l, f a = .error e := by
  induction l with
  | nil =>
    rw [List.mapM_nil] at h
    cases h
  | cons a rest ih =>
    rw [List.mapM_cons] at h
    rcases bind_eq_error h with h | ⟨b, -, h⟩
    · exact ⟨a, by simp, h⟩
    · rcases bind_eq_error h with h | ⟨bs, -, h⟩
      · obtain ⟨a', ha, he⟩ := ih h
        exact ⟨a', List.mem_cons_of_mem _ ha, he⟩
      · cases h

end Results

def outcome (x : ExceptT ε (StateM σ) α) (s : σ) : Except ε α × σ := x.run.run s

theorem outcome_bind (x : ExceptT ε (StateM σ) α) (f : α → ExceptT ε (StateM σ) β) (s : σ) :
    outcome (x >>= f) s = match outcome x s with
      | (.ok a, m) => outcome (f a) m
      | (.error e, m) => (.error e, m) := by
  change (match outcome x s with
    | (r, m) => (ExceptT.bindCont f r).run m : Id (Except ε β × σ)) = _
  rcases outcome x s with ⟨_ | _, _⟩ <;> rfl

def Yields (x : ExceptT ε (StateM σ) α) (s : σ) (a : α) (s' : σ) : Prop :=
  outcome x s = (.ok a, s')

theorem exists_outcome_error {x : ExceptT ε (StateM σ) α} {s : σ}
    (h : (outcome x s).1.isOk = false) : ∃ e, outcome x s = (.error e, (outcome x s).2) := by
  generalize outcome x s = r at h ⊢
  rcases r with ⟨e | a, m⟩
  · exact ⟨e, rfl⟩
  · cases h

namespace Yields

variable {x : ExceptT ε (StateM σ) α} {f : α → ExceptT ε (StateM σ) β} {s s' : σ} {a : α} {b : β}

@[simp] theorem pure_iff {a' : α} :
    Yields (pure a : ExceptT ε (StateM σ) α) s a' s' ↔ a' = a ∧ s' = s := by
  have : outcome (pure a : ExceptT ε (StateM σ) α) s = (.ok a, s) := rfl
  simp [Yields, this, eq_comm]

theorem bind_iff :
    Yields (x >>= f) s b s' ↔ ∃ a m, Yields x s a m ∧ Yields (f a) m b s' := by
  simp only [Yields, outcome_bind]
  rcases outcome x s with ⟨_ | a, m⟩
  · simp
  · constructor
    · exact fun hf => ⟨a, m, rfl, hf⟩
    · rintro ⟨_, _, e, hf⟩
      cases e
      exact hf

theorem map_iff {g : α → β} : Yields (g <$> x) s b s' ↔ ∃ a, Yields x s a s' ∧ b = g a := by
  rw [map_eq_pure_bind, bind_iff]
  constructor
  · rintro ⟨a, m, hx, hp⟩
    obtain ⟨rfl, rfl⟩ := pure_iff.1 hp
    exact ⟨a, hx, rfl⟩
  · rintro ⟨a, hx, rfl⟩
    exact ⟨a, s', hx, pure_iff.2 ⟨rfl, rfl⟩⟩

@[simp] theorem get_iff {t : σ} :
    Yields (get : ExceptT ε (StateM σ) σ) s t s' ↔ t = s ∧ s' = s := by
  have : outcome (get : ExceptT ε (StateM σ) σ) s = (.ok s, s) := rfl
  simp [Yields, this, eq_comm]

@[simp] theorem modify_iff {g : σ → σ} {u : PUnit} :
    Yields (modify g : ExceptT ε (StateM σ) PUnit) s u s' ↔ s' = g s := by
  have : outcome (modify g : ExceptT ε (StateM σ) PUnit) s = (.ok ⟨⟩, g s) := rfl
  simp [Yields, this, eq_comm]

@[simp] theorem not_throw {e : ε} : ¬Yields (throw e : ExceptT ε (StateM σ) α) s a s' := by
  have : outcome (throw e : ExceptT ε (StateM σ) α) s = (.error e, s) := rfl
  simp [Yields, this]

@[simp] theorem lift_iff {e : Except ε α} :
    Yields (liftM e : ExceptT ε (StateM σ) α) s a s' ↔ e = .ok a ∧ s' = s := by
  have : outcome (liftM e : ExceptT ε (StateM σ) α) s = (e, s) := rfl
  simp [Yields, this, eq_comm]

theorem get_bind {f : σ → ExceptT ε (StateM σ) β} :
    Yields (get >>= f) s b s' ↔ Yields (f s) s b s' := by
  simp only [bind_iff, get_iff]
  refine ⟨?_, fun h => ⟨s, s, ⟨rfl, rfl⟩, h⟩⟩
  rintro ⟨_, _, ⟨rfl, rfl⟩, h⟩
  exact h

theorem modify_bind {g : σ → σ} {f : PUnit → ExceptT ε (StateM σ) β} :
    Yields (modify g >>= f) s b s' ↔ Yields (f ⟨⟩) (g s) b s' := by
  simp only [bind_iff, modify_iff]
  exact ⟨fun ⟨_, _, hm, h⟩ => hm ▸ h, fun h => ⟨⟨⟩, g s, rfl, h⟩⟩

theorem lift_bind {e : Except ε α} :
    Yields ((liftM e : ExceptT ε (StateM σ) α) >>= f) s b s' ↔
      ∃ a, e = .ok a ∧ Yields (f a) s b s' := by
  simp only [bind_iff, lift_iff]
  exact ⟨fun ⟨a, _, ⟨ha, hm⟩, h⟩ => ⟨a, ha, hm ▸ h⟩, fun ⟨a, ha, h⟩ => ⟨a, s, ⟨ha, rfl⟩, h⟩⟩

theorem exists_of_test {p : α → σ → Bool}
    (h : (match outcome x s with
      | (.ok a, s') => p a s'
      | (.error _, _) => false) = true) : ∃ a s', Yields x s a s' ∧ p a s' = true := by
  split at h
  · rename_i a s' hx
    exact ⟨a, s', hx, h⟩
  · cases h

end Yields

inductive Passes (R : α → σ → σ → Prop) : List α → σ → σ → Prop where
  | done {s : σ} : Passes R [] s s
  | step {a : α} {rest : List α} {s m s' : σ} :
      R a s m → Passes R rest m s' → Passes R (a :: rest) s s'

namespace Passes

variable {R Q : α → σ → σ → Prop} {l : List α} {s s' : σ}

theorem mono (h : Passes R l s s') (hQ : ∀ a ∈ l, ∀ s s', R a s s' → Q a s s') :
    Passes Q l s s' := by
  induction h with
  | done => exact .done
  | step hR _ ih =>
    exact .step (hQ _ (by simp) _ _ hR) (ih fun a ha => hQ a (List.mem_cons_of_mem _ ha))

theorem map {τ : Type} {f : σ → τ} {Q : α → τ → τ → Prop} (h : Passes R l s s')
    (hQ : ∀ a s s', R a s s' → Q a (f s) (f s')) : Passes Q l (f s) (f s') := by
  induction h with
  | done => exact .done
  | step hR _ ih => exact .step (hQ _ _ _ hR) ih

theorem invariant {I : σ → Prop} (h : Passes R l s s') (hs : I s)
    (step : ∀ a ∈ l, ∀ s s', I s → R a s s' → I s') : I s' := by
  induction h with
  | done => exact hs
  | step hR _ ih =>
    exact ih (step _ (by simp) _ _ hs hR) fun a ha => step a (List.mem_cons_of_mem _ ha)

private theorem invariant_after {I : List α → σ → Prop} {done : List α} (h : Passes R l s s')
    (hs : I done s)
    (step : ∀ before a after s s', l = before ++ a :: after → I (done ++ before) s → R a s s' →
      I (done ++ before ++ [a]) s') : I (done ++ l) s' := by
  induction h generalizing done with
  | done => simpa using hs
  | @step a rest s m s' hR _ ih =>
    have hm : I (done ++ [a]) m := by
      simpa using step [] a rest s m rfl (by simpa using hs) hR
    have := ih hm fun before b after s s' e hI hR => by
      simpa using step (a :: before) b after s s' (by simp [e]) (by simpa using hI) hR
    simpa using this

/-- A statement about the elements passed so far is carried from each prefix to the next. -/
theorem prefix_invariant {I : List α → σ → Prop} (h : Passes R l s s') (hs : I [] s)
    (step : ∀ before a after s s', l = before ++ a :: after → I before s → R a s s' →
      I (before ++ [a]) s') : I l s' :=
  invariant_after h hs step

theorem exists_step {a : α} (h : Passes R l s s') (ha : a ∈ l) : ∃ m m', R a m m' := by
  induction h with
  | done => cases ha
  | step hR _ ih =>
    rcases List.mem_cons.1 ha with rfl | ha
    · exact ⟨_, _, hR⟩
    · exact ih ha

theorem trans {T : σ → σ → Prop} (h : Passes R l s s') (refl : ∀ s, T s s)
    (trans : ∀ {a b c}, T a b → T b c → T a c)
    (step : ∀ a ∈ l, ∀ s s', R a s s' → T s s') : T s s' := by
  induction h with
  | done => exact refl _
  | step hR _ ih =>
    exact trans (step _ (by simp) _ _ hR) (ih fun a ha => step a (List.mem_cons_of_mem _ ha))

end Passes

namespace Yields

variable {l : List α} {s s' : σ}

theorem forIn_pass {R : α → σ → σ → Prop}
    {f : α → PUnit → ExceptT ε (StateM σ) (ForInStep PUnit)} {u : PUnit}
    (h : Yields (forIn l PUnit.unit f) s u s')
    (step : ∀ a s v m, Yields (f a ⟨⟩) s v m → v = .yield ⟨⟩ ∧ R a s m) : Passes R l s s' := by
  induction l generalizing s with
  | nil =>
    rw [List.forIn_nil, pure_iff] at h
    obtain ⟨-, rfl⟩ := h
    exact .done
  | cons a t ih =>
    rw [List.forIn_cons, bind_iff] at h
    obtain ⟨v, m, hv, ht⟩ := h
    obtain ⟨rfl, hR⟩ := step a s v m hv
    exact .step hR (ih ht)

theorem forIn_carried_pass {R : α → β × σ → β × σ → Prop}
    {f : α → β → ExceptT ε (StateM σ) (ForInStep β)} {b b' : β}
    (h : Yields (forIn l b f) s b' s')
    (step : ∀ a b s v m, Yields (f a b) s v m → ∃ b', v = .yield b' ∧ R a (b, s) (b', m)) :
    Passes R l (b, s) (b', s') := by
  induction l generalizing s b with
  | nil =>
    rw [List.forIn_nil, pure_iff] at h
    obtain ⟨rfl, rfl⟩ := h
    exact .done
  | cons a t ih =>
    rw [List.forIn_cons, bind_iff] at h
    obtain ⟨v, m, hv, ht⟩ := h
    obtain ⟨b₁, rfl, hR⟩ := step a b s v m hv
    exact .step hR (ih ht)

theorem forM_pass {f : α → ExceptT ε (StateM σ) PUnit} {u : PUnit}
    (h : Yields (l.forM f) s u s') : Passes (fun a s m => Yields (f a) s ⟨⟩ m) l s s' := by
  induction l generalizing s with
  | nil =>
    obtain ⟨-, rfl⟩ := pure_iff.1 (show Yields (pure ⟨⟩) s u s' from h)
    exact .done
  | cons a t ih =>
    obtain ⟨_, m, ha, ht⟩ := bind_iff.1 (show Yields (f a >>= fun _ => t.forM f) s u s' from h)
    exact .step ha (ih ht)

theorem mapM_pass {f : α → ExceptT ε (StateM σ) β} {bs : List β}
    (h : Yields (l.mapM f) s bs s') :
    Passes (fun a s m => ∃ b, Yields (f a) s b m) l s s' := by
  induction l generalizing s bs with
  | nil =>
    rw [List.mapM_nil, pure_iff] at h
    obtain ⟨-, rfl⟩ := h
    exact .done
  | cons a t ih =>
    rw [List.mapM_cons, bind_iff] at h
    obtain ⟨b, m, ha, ht⟩ := h
    obtain ⟨cs, m', hcs, hpure⟩ := bind_iff.1 ht
    obtain ⟨-, rfl⟩ := pure_iff.1 hpure
    exact .step ⟨b, ha⟩ (ih hcs)

theorem foldlM_pass {f : β → α → ExceptT ε (StateM σ) β} {b b' : β}
    (h : Yields (l.foldlM f b) s b' s') :
    Passes (fun a (x y : β × σ) => Yields (f x.1 a) x.2 y.1 y.2) l (b, s) (b', s') := by
  induction l generalizing s b with
  | nil =>
    rw [List.foldlM_nil, pure_iff] at h
    obtain ⟨rfl, rfl⟩ := h
    exact .done
  | cons a t ih =>
    rw [List.foldlM_cons, bind_iff] at h
    obtain ⟨b₁, m, ha, ht⟩ := h
    exact .step ha (ih ht)

end Yields

def Succeeds (x : ExceptT ε (StateM σ) α) (s : σ) : Prop := ∃ a s', Yields x s a s'

namespace Succeeds

variable {x : ExceptT ε (StateM σ) α} {f : α → ExceptT ε (StateM σ) β} {l : List α} {s : σ}

theorem pure (a : α) (s : σ) : Succeeds (Pure.pure a : ExceptT ε (StateM σ) α) s :=
  ⟨a, s, Yields.pure_iff.2 ⟨rfl, rfl⟩⟩

theorem bind (hx : Succeeds x s) (hf : ∀ a m, Yields x s a m → Succeeds (f a) m) :
    Succeeds (x >>= f) s := by
  obtain ⟨a, m, hx⟩ := hx
  obtain ⟨b, s', hf⟩ := hf a m hx
  exact ⟨b, s', Yields.bind_iff.2 ⟨a, m, hx, hf⟩⟩

theorem modify (g : σ → σ) (s : σ) :
    Succeeds (modifyThe σ g : ExceptT ε (StateM σ) PUnit) s :=
  ⟨⟨⟩, g s, Yields.modify_iff.2 rfl⟩

theorem get_bind {f : σ → ExceptT ε (StateM σ) β} (hf : Succeeds (f s) s) :
    Succeeds (get >>= f) s := by
  obtain ⟨b, s', hf⟩ := hf
  exact ⟨b, s', Yields.get_bind.2 hf⟩

theorem lift_bind {e : Except ε α} {a : α} (he : e = .ok a) (hf : Succeeds (f a) s) :
    Succeeds ((liftM e : ExceptT ε (StateM σ) α) >>= f) s := by
  obtain ⟨b, s', hf⟩ := hf
  exact ⟨b, s', Yields.lift_bind.2 ⟨a, he, hf⟩⟩

theorem forIn {f : α → β → ExceptT ε (StateM σ) (ForInStep β)} {b : β}
    (step : ∀ a ∈ l, ∀ b s, ∃ b' m, Yields (f a b) s (.yield b') m) :
    Succeeds (ForIn.forIn l b f) s := by
  induction l generalizing s b with
  | nil =>
    rw [List.forIn_nil]
    exact .pure b s
  | cons a t ih =>
    rw [List.forIn_cons]
    obtain ⟨b₁, m, hstep⟩ := step a (by simp) b s
    obtain ⟨b', m', hrest⟩ := ih (s := m) (b := b₁) fun a' ha => step a' (List.mem_cons_of_mem _ ha)
    exact ⟨b', m', Yields.bind_iff.2 ⟨.yield b₁, m, hstep, hrest⟩⟩

end Succeeds

end HydraClient
