import Mathlib
import Lamina.Fault

/-!
# Outcomes of computations

What is said about a computation that may fail has two sides: what holds of its value, and what
holds of its fault. `Yields` says both of a result, `Runs` of a computation that also changes a
state. The rules below follow the way computations are put together: a value passed on, a fault
raised, one computation after another, a computation for each entry of a list.

The state that a failed computation leaves behind is part of what `Runs` speaks of, since role
tables and layer graphs keep what was done before a fault.
-/

namespace Lamina

variable {α β σ : Type}

/-- The value of a result satisfies `Q`, its fault satisfies `P`. -/
def Yields (P : Fault → Prop) (x : Except Fault α) (Q : α → Prop) : Prop :=
  match x with
  | .ok a => Q a
  | .error f => P f

/-- Started in a state, a computation ends with a value and a state that satisfy `Q`, or with a
fault and a state that satisfy `P`. -/
def Runs (P : Fault → σ → Prop) (s : σ) (x : ExceptT Fault (StateM σ) α)
    (Q : α → σ → Prop) : Prop :=
  match x.run.run s with
  | (.ok a, t) => Q a t
  | (.error f, t) => P f t

/-! ### Results -/

namespace Yields

variable {P P' : Fault → Prop} {Q Q' : α → Prop} {x : Except Fault α}

theorem ok {a : α} (h : Q a) : Yields P (.ok a) Q := h

theorem pure {a : α} (h : Q a) : Yields P (Pure.pure a) Q := h

theorem fail {site : Site} {cause : Cause} (h : P ⟨site, cause⟩) : Yields P (site.fail cause) Q := h

theorem mono (h : Yields P x Q) (hP : ∀ f, P f → P' f) (hQ : ∀ a, Q a → Q' a) : Yields P' x Q' := by
  cases x with
  | ok a => exact hQ a h
  | error f => exact hP f h

theorem imp (h : Yields P x Q) (hQ : ∀ a, Q a → Q' a) : Yields P x Q' := h.mono (fun _ => id) hQ

theorem bind {R : β → Prop} {f : α → Except Fault β} (hx : Yields P x Q)
    (hf : ∀ a, Q a → Yields P (f a) R) : Yields P (x >>= f) R := by
  cases x with
  | ok a => exact hf a hx
  | error f => exact hx

theorem map {R : β → Prop} {f : α → β} (hx : Yields P x Q) (hf : ∀ a, Q a → R (f a)) :
    Yields P (f <$> x) R := by
  cases x with
  | ok a => exact hf a hx
  | error f => exact hx

/-- A computation whose result is known. -/
theorem of_eq_ok {a : α} (hx : x = .ok a) (h : Q a) : Yields P x Q := hx ▸ h

theorem value {a : α} (h : Yields P x Q) (hx : x = .ok a) : Q a := by
  subst hx
  exact h

theorem fault {f : Fault} (h : Yields P x Q) (hx : x = .error f) : P f := by
  subst hx
  exact h

/-- Nothing is said about the value. -/
theorem of_faults (h : ∀ f, x = .error f → P f) : Yields P x fun a => x = .ok a := by
  cases x with
  | ok a => rfl
  | error f => exact h f rfl

/-- Without faults there is a value. -/
theorem exists_ok (h : Yields (fun _ => False) x Q) : ∃ a, x = .ok a ∧ Q a := by
  cases x with
  | ok a => exact ⟨a, rfl, h⟩
  | error f => exact h.elim

theorem ensure {site : Site} {condition : Bool} {cause : Cause}
    (h : condition = false → P ⟨site, cause⟩) :
    Yields P (site.ensure condition cause) fun _ => condition = true := by
  unfold Site.ensure
  split
  · rename_i hc
    exact ok hc
  · rename_i hc
    exact fail (h (by simpa using hc))

theorem mapM {R : α → β → Prop} {f : α → Except Fault β} {l : List α}
    (h : ∀ a ∈ l, Yields P (f a) (R a)) : Yields P (l.mapM f) (List.Forall₂ R l) := by
  induction l with
  | nil => exact pure .nil
  | cons a l ih =>
    rw [List.mapM_cons]
    refine (h a List.mem_cons_self).bind fun b hb => ?_
    refine (ih fun a ha => h a (List.mem_cons_of_mem _ ha)).bind fun bs hbs => ?_
    exact pure (.cons hb hbs)

theorem forM {R : α → Prop} {f : α → Except Fault PUnit} {l : List α}
    (h : ∀ a ∈ l, Yields P (f a) fun _ => R a) : Yields P (l.forM f) fun _ => ∀ a ∈ l, R a := by
  induction l with
  | nil => exact pure fun a ha => absurd ha List.not_mem_nil
  | cons a l ih =>
    change Yields P (f a >>= fun _ => l.forM f) _
    refine (h a List.mem_cons_self).bind fun _ ha => ?_
    refine (ih fun a ha => h a (List.mem_cons_of_mem _ ha)).imp fun _ hl b hb => ?_
    rcases List.mem_cons.1 hb with rfl | hb
    · exact ha
    · exact hl b hb

theorem foldlM {I : β → Prop} {f : β → α → Except Fault β} {l : List α}
    (h : ∀ b, ∀ a ∈ l, I b → Yields P (f b a) I) {b : β} (hb : I b) :
    Yields P (l.foldlM f b) I := by
  induction l generalizing b with
  | nil => exact pure hb
  | cons a l ih =>
    rw [List.foldlM_cons]
    refine (h b a List.mem_cons_self hb).bind fun b' hb' => ?_
    exact ih (fun b a ha => h b a (List.mem_cons_of_mem _ ha)) hb'

/-- A fold whose invariant speaks of the entries passed so far. -/
theorem foldlM_passed {I : List α → β → Prop} {f : β → α → Except Fault β} {l : List α}
    (h : ∀ passed a rest, l = passed ++ a :: rest → ∀ b, I passed b →
      Yields P (f b a) (I (passed ++ [a]))) {b : β} (hb : I [] b) :
    Yields P (l.foldlM f b) (I l) := by
  -- induction on what is left, whatever has been passed
  suffices hrun : ∀ rest passed b, l = passed ++ rest → I passed b →
      Yields P (rest.foldlM f b) (I l) from hrun l [] b rfl hb
  intro rest
  induction rest with
  | nil =>
    rintro passed b rfl hb
    rw [List.append_nil]
    exact pure hb
  | cons a rest ih =>
    intro passed b hl hb
    rw [List.foldlM_cons]
    refine (h passed a rest hl b hb).bind fun b' hb' => ?_
    exact ih (passed ++ [a]) b' (by rw [hl, List.append_assoc]; rfl) hb'

end Yields

/-- A bind succeeds if both parts do. -/
theorem bind_eq_ok {ε : Type} {x : Except ε α} {f : α → Except ε β} {b : β} :
    x >>= f = .ok b ↔ ∃ a, x = .ok a ∧ f a = .ok b := by
  cases x with
  | ok a =>
    constructor
    · exact fun h => ⟨a, rfl, h⟩
    · rintro ⟨_, ha, h⟩
      cases ha
      exact h
  | error e =>
    constructor
    · exact fun h => nomatch h
    · rintro ⟨_, ha, _⟩
      cases ha

theorem map_eq_ok {ε : Type} {x : Except ε α} {f : α → β} {b : β} :
    f <$> x = .ok b ↔ ∃ a, x = .ok a ∧ f a = b := by
  rw [map_eq_pure_bind, bind_eq_ok]
  constructor
  · rintro ⟨a, ha, h⟩
    exact ⟨a, ha, by cases h; rfl⟩
  · rintro ⟨a, ha, rfl⟩
    exact ⟨a, ha, rfl⟩

@[simp] theorem pure_eq_ok {ε : Type} {a b : α} : (Pure.pure a : Except ε α) = .ok b ↔ a = b :=
  ⟨fun h => by cases h; rfl, fun h => h ▸ rfl⟩

/-- A list is mapped if each of its entries is. -/
theorem mapM_eq_ok {ε : Type} {f : α → Except ε β} {l : List α} {l' : List β} :
    l.mapM f = .ok l' ↔ List.Forall₂ (fun a b => f a = .ok b) l l' := by
  induction l generalizing l' with
  | nil =>
    rw [List.mapM_nil, pure_eq_ok, List.forall₂_nil_left_iff]
    exact eq_comm
  | cons a l ih =>
    rw [List.mapM_cons, bind_eq_ok, List.forall₂_cons_left_iff]
    simp only [bind_eq_ok, pure_eq_ok, ih]
    constructor
    · rintro ⟨b, hb, rest, hrest, rfl⟩
      exact ⟨b, rest, hb, hrest, rfl⟩
    · rintro ⟨b, rest, hb, hrest, rfl⟩
      exact ⟨b, hb, rest, hrest, rfl⟩

@[simp] theorem Site.fail_ne_ok {site : Site} {cause : Cause} {a : α} :
    (site.fail cause : Except Fault α) ≠ .ok a := by
  intro h
  cases h

@[simp] theorem Site.ensure_eq_ok {site : Site} {condition : Bool} {cause : Cause} {u : Unit} :
    site.ensure condition cause = .ok u ↔ condition = true := by
  unfold Site.ensure
  split <;> simp_all

/-! ### Faults of an operator -/

/-- Whether a cause is one of the layer graph. -/
def Cause.isLayer : Cause → Bool
  | .layer _ => true
  | _ => false

/-- Whether a cause is one of the network or of the layer graph as a whole. -/
def Cause.isNetwork : Cause → Bool
  | .network _ | .layer _ => true
  | _ => false

/-- A fault that an operator may raise: one of its own site or one of the arithmetic, and none that
only the network or the layer graph as a whole can have. -/
def Fault.Own (site : Site) (f : Fault) : Prop :=
  f.cause.isNetwork = false ∧ (f.site = site ∨ f.site.opType = "CpuBackend")

theorem Yields.own {Q : α → Prop} {site : Site} {cause : Cause} (h : cause.isNetwork = false) :
    Yields (Fault.Own site) (site.fail cause) Q := ⟨h, .inl rfl⟩

/-- What would come after a fault does not matter. -/
theorem Yields.own_bind {Q : β → Prop} {site : Site} {cause : Cause} {f : α → Except Fault β}
    (h : cause.isNetwork = false) : Yields (Fault.Own site) (site.fail cause >>= f) Q :=
  ⟨h, .inl rfl⟩

/-- A refusal in front of a computation. -/
theorem Yields.refuse {Q : α → Prop} {site : Site} {cause : Cause} {c : Prop} [Decidable c]
    {x : Except Fault α} (h : cause.isNetwork = false)
    (hx : ¬ c → Yields (Fault.Own site) x Q) :
    Yields (Fault.Own site) (if c then site.fail cause >>= fun (_ : Unit) => x else x) Q := by
  split
  · exact .own_bind h
  · rename_i hc
    exact hx hc

theorem Yields.ensure_own {site : Site} {condition : Bool} {cause : Cause}
    (h : cause.isNetwork = false) :
    Yields (Fault.Own site) (site.ensure condition cause) fun _ => condition = true :=
  .ensure fun _ => ⟨h, .inl rfl⟩

/-! ### Lists that are related entry by entry -/

theorem forall₂_mem_left {R : α → β → Prop} {l : List α} {l' : List β} {a : α}
    (h : List.Forall₂ R l l') (ha : a ∈ l) : ∃ b ∈ l', R a b := by
  induction h with
  | nil => cases ha
  | cons hab _ ih =>
    rcases List.mem_cons.1 ha with rfl | ha
    · exact ⟨_, List.mem_cons_self, hab⟩
    · obtain ⟨b, hb, hab⟩ := ih ha
      exact ⟨b, List.mem_cons_of_mem _ hb, hab⟩

theorem forall₂_getElem? {R : α → β → Prop} {l : List α} {l' : List β} {i : Nat} {a : α}
    (h : List.Forall₂ R l l') (ha : l[i]? = some a) : ∃ b, l'[i]? = some b ∧ R a b := by
  induction h generalizing i with
  | nil => cases ha
  | cons hab _ ih =>
    cases i with
    | zero =>
      obtain rfl := Option.some.inj ha
      exact ⟨_, rfl, hab⟩
    | succ i => exact ih ha

theorem forall₂_comp {γ : Type} {R : α → β → Prop} {S : β → γ → Prop} {T : α → γ → Prop}
    (hT : ∀ a b c, R a b → S b c → T a c) {l : List α} {l' : List β} {l'' : List γ}
    (h : List.Forall₂ R l l') (h' : List.Forall₂ S l' l'') : List.Forall₂ T l l'' := by
  induction h generalizing l'' with
  | nil =>
    cases h'
    exact .nil
  | cons hab _ ih =>
    cases h' with
    | cons hbc hrest => exact .cons (hT _ _ _ hab hbc) (ih hrest)

/-! ### Computations with a state -/

/-- A computation goes on where its first part ends. -/
theorem run_bind_ok {x : ExceptT Fault (StateM σ) α} {f : α → ExceptT Fault (StateM σ) β} {a : α}
    {s t : σ} (h : x.run.run s = (.ok a, t)) : (x >>= f).run.run s = (f a).run.run t := by
  have hx : StateT.run x.run s = (.ok a, t) := h
  simp only [ExceptT.run_bind, StateT.run_bind, hx]
  rfl

theorem run_bind_error {x : ExceptT Fault (StateM σ) α} {f : α → ExceptT Fault (StateM σ) β}
    {e : Fault} {s t : σ} (h : x.run.run s = (.error e, t)) :
    (x >>= f).run.run s = (.error e, t) := by
  have hx : StateT.run x.run s = (.error e, t) := h
  simp only [ExceptT.run_bind, StateT.run_bind, hx]
  rfl

/-- A result leaves the state as it is. -/
theorem run_lift (y : Except Fault α) (s : σ) :
    (liftM y : ExceptT Fault (StateM σ) α).run.run s = (y, s) := by
  cases y <;> rfl

theorem run_get_bind (f : σ → ExceptT Fault (StateM σ) α) (s : σ) :
    (MonadState.get >>= f).run.run s = (f s).run.run s := rfl

namespace Runs

variable {P P' : Fault → σ → Prop} {Q Q' : α → σ → Prop} {s : σ}
  {x : ExceptT Fault (StateM σ) α}

theorem pure {a : α} (h : Q a s) : Runs P s (Pure.pure a) Q := h

theorem mono (h : Runs P s x Q) (hP : ∀ f t, P f t → P' f t) (hQ : ∀ a t, Q a t → Q' a t) :
    Runs P' s x Q' := by
  unfold Runs at h ⊢
  split at h
  · exact hQ _ _ h
  · exact hP _ _ h

theorem imp (h : Runs P s x Q) (hQ : ∀ a t, Q a t → Q' a t) : Runs P s x Q' :=
  h.mono (fun _ _ => id) hQ

theorem bind {R : β → σ → Prop} {f : α → ExceptT Fault (StateM σ) β} (hx : Runs P s x Q)
    (hf : ∀ a t, Q a t → Runs P t (f a) R) : Runs P s (x >>= f) R := by
  unfold Runs at hx ⊢
  split at hx
  · rename_i hrun
    rw [run_bind_ok hrun]
    exact hf _ _ hx
  · rename_i hrun
    rw [run_bind_error hrun]
    exact hx

theorem map {R : β → σ → Prop} {f : α → β} (hx : Runs P s x Q)
    (hf : ∀ a t, Q a t → R (f a) t) : Runs P s (f <$> x) R := by
  rw [map_eq_pure_bind]
  exact hx.bind fun a t h => pure (hf a t h)

/-- A result is a computation that leaves the state as it is. -/
theorem lift {y : Except Fault α} (h : Yields (fun f => P f s) y fun a => Q a s) :
    Runs P s (liftM y) Q := by
  cases y with
  | ok a => exact h
  | error f => exact h

/-- A result first, then a computation. -/
theorem lift_bind {R : β → σ → Prop} {Q : α → Prop} {y : Except Fault α}
    {f : α → ExceptT Fault (StateM σ) β} (h : Yields (fun f => P f s) y Q)
    (hf : ∀ a, Q a → Runs P s (f a) R) : Runs P s (liftM y >>= f) R := by
  have hy : Runs P s (liftM y) fun a t => t = s ∧ Q a := lift (h.imp fun _ ha => ⟨rfl, ha⟩)
  exact hy.bind fun
    | a, _, ⟨rfl, ha⟩ => hf a ha

/-- A result of which only the value matters. -/
theorem value_bind {R : β → σ → Prop} {y : Except Fault α} {f : α → ExceptT Fault (StateM σ) β}
    (hf : ∀ a, y = .ok a → Runs (fun _ _ => True) s (f a) R) :
    Runs (fun _ _ => True) s (liftM y >>= f) R :=
  lift_bind (Yields.of_faults fun _ _ => trivial) hf

/-- A look at the state. -/
theorem get_bind {R : β → σ → Prop} {f : σ → ExceptT Fault (StateM σ) β} (h : Runs P s (f s) R) :
    Runs P s (MonadState.get >>= f) R := by
  have hget : Runs P s (MonadState.get) fun a t => a = s ∧ t = s := ⟨rfl, rfl⟩
  exact hget.bind fun
    | _, _, ⟨rfl, rfl⟩ => h

theorem set {Q : PUnit → σ → Prop} {t : σ} (h : Q ⟨⟩ t) : Runs P s (MonadStateOf.set t) Q := h

theorem mapM {I : σ → Prop} {R : α → β → Prop} {f : α → ExceptT Fault (StateM σ) β} {l : List α}
    (h : ∀ a ∈ l, ∀ t, I t → Runs P t (f a) fun b t' => I t' ∧ R a b) (hs : I s) :
    Runs P s (l.mapM f) fun bs t => I t ∧ List.Forall₂ R l bs := by
  induction l generalizing s with
  | nil => exact pure ⟨hs, .nil⟩
  | cons a l ih =>
    rw [List.mapM_cons]
    refine (h a List.mem_cons_self s hs).bind fun b t hb => ?_
    refine (ih (fun a ha => h a (List.mem_cons_of_mem _ ha)) hb.1).bind fun bs t' hbs => ?_
    exact pure ⟨hbs.1, .cons hb.2 hbs.2⟩

theorem forM {I : σ → Prop} {f : α → ExceptT Fault (StateM σ) PUnit} {l : List α}
    (h : ∀ a ∈ l, ∀ t, I t → Runs P t (f a) fun _ t' => I t') (hs : I s) :
    Runs P s (l.forM f) fun _ t => I t := by
  induction l generalizing s with
  | nil => exact pure hs
  | cons a l ih =>
    change Runs P s (f a >>= fun _ => l.forM f) _
    refine (h a List.mem_cons_self s hs).bind fun _ t ht => ?_
    exact ih (fun a ha => h a (List.mem_cons_of_mem _ ha)) ht

/-- A fold over entries with their positions. -/
theorem foldlM_passed {I : List α → β → σ → Prop}
    {f : β → α × Nat → ExceptT Fault (StateM σ) β} {l : List α}
    (h : ∀ passed a rest, l = passed ++ a :: rest → ∀ b t, I passed b t →
      Runs P t (f b (a, passed.length)) (I (passed ++ [a]))) {b : β} (hb : I [] b s) :
    Runs P s (l.zipIdx.foldlM f b) (I l) := by
  suffices hrun : ∀ rest passed b s, l = passed ++ rest → I passed b s →
      Runs P s ((rest.zipIdx passed.length).foldlM f b) (I l) from hrun l [] b s rfl hb
  intro rest
  induction rest with
  | nil =>
    rintro passed b s rfl hb
    rw [List.append_nil]
    exact pure hb
  | cons a rest ih =>
    intro passed b s hl hb
    rw [List.zipIdx_cons, List.foldlM_cons]
    refine (h passed a rest hl b s hb).bind fun b' s' hb' => ?_
    have hlength : passed.length + 1 = (passed ++ [a]).length := by simp
    rw [hlength]
    exact ih (passed ++ [a]) b' s' (by rw [hl, List.append_assoc]; rfl) hb'

/-- About faults and results of which nothing is said, nothing has to be shown. -/
theorem any : Runs (fun _ _ => True) s x fun _ _ => True := by
  unfold Runs
  split <;> trivial

/-- Two things about one run. -/
theorem and (h : Runs P s x Q) (h' : Runs P' s x Q') :
    Runs (fun f t => P f t ∧ P' f t) s x fun a t => Q a t ∧ Q' a t := by
  unfold Runs at h h' ⊢
  split
  · rename_i hrun
    rw [hrun] at h h'
    exact ⟨h, h'⟩
  · rename_i hrun
    rw [hrun] at h h'
    exact ⟨h, h'⟩

theorem value {a : α} {t : σ} (h : Runs P s x Q) (hx : x.run.run s = (.ok a, t)) : Q a t := by
  unfold Runs at h
  rwa [hx] at h

theorem fault {f : Fault} {t : σ} (h : Runs P s x Q) (hx : x.run.run s = (.error f, t)) :
    P f t := by
  unfold Runs at h
  rwa [hx] at h

/-- A value together with the run that it comes from. -/
theorem traced (h : Runs P s x Q) :
    Runs P s x fun a t => x.run.run s = (.ok a, t) ∧ Q a t := by
  rcases hrun : x.run.run s with ⟨f | a, t⟩
  · unfold Runs
    rw [hrun]
    exact h.fault hrun
  · unfold Runs
    rw [hrun]
    exact ⟨rfl, h.value hrun⟩

/-- A fold whose invariant is kept along the run so far. -/
theorem foldlM_traced {I : List α → β → σ → Prop}
    {f : β → α × Nat → ExceptT Fault (StateM σ) β} {l : List α} {b₀ : β}
    (h : ∀ passed a rest, l = passed ++ a :: rest → ∀ b t,
      (passed.zipIdx.foldlM f b₀).run.run s = (.ok b, t) → I passed b t →
        Runs P t (f b (a, passed.length)) (I (passed ++ [a]))) (hb : I [] b₀ s) :
    Runs P s (l.zipIdx.foldlM f b₀) (I l) := by
  have hboth : Runs P s (l.zipIdx.foldlM f b₀) fun b t =>
      (l.zipIdx.foldlM f b₀).run.run s = (.ok b, t) ∧ I l b t := by
    refine foldlM_passed (I := fun passed b t =>
      (passed.zipIdx.foldlM f b₀).run.run s = (.ok b, t) ∧ I passed b t) ?_ ⟨rfl, hb⟩
    rintro passed a rest hl b t ⟨hrun, hI⟩
    refine (h passed a rest hl b t hrun hI).traced.imp ?_
    rintro b' t' ⟨hstep, hI'⟩
    refine ⟨?_, hI'⟩
    rw [List.zipIdx_append, List.foldlM_append, run_bind_ok hrun]
    simpa using hstep
  exact hboth.imp fun _ _ hI => hI.2

/-- Without faults there is a value. -/
theorem exists_ok (h : Runs (fun _ _ => False) s x Q) :
    ∃ a t, x.run.run s = (.ok a, t) ∧ Q a t := by
  unfold Runs at h
  split at h
  · rename_i a t hrun
    exact ⟨a, t, hrun, h⟩
  · exact h.elim

/-- The result alone, when nothing is said about the state. -/
theorem result {P : Fault → Prop} {Q : α → Prop} (h : Runs (fun f _ => P f) s x fun a _ => Q a) :
    Yields P (x.run.run s).1 Q := by
  unfold Runs at h
  split at h
  · rename_i hrun
    rw [hrun]
    exact h
  · rename_i hrun
    rw [hrun]
    exact h

end Runs

end Lamina
