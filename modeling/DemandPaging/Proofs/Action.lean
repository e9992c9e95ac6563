import DemandPaging.Outcome
/-!
Running actions by rewriting. Each primitive has an equation for its outcome, and a sequence runs
its first action and goes on from the state that one reached. Read backwards, a sequence that
answered had parts that answered.
-/

namespace DemandPaging

namespace Outcome

variable {ω ω' ε ε' σ τ α β : Type}

def after (e : List ω) (o : Outcome ω ε σ α) : Outcome ω ε σ α :=
  ⟨o.answer, o.state, e ++ o.events⟩

/-- Goes on from an answer; a failure stands. -/
def andThen (o : Outcome ω ε σ α) (f : α → Action ω ε σ β) : Outcome ω ε σ β :=
  match o with
  | ⟨.ok a, t, e⟩ => ((f a).run t).after e
  | ⟨.error r, t, e⟩ => ⟨.error r, t, e⟩

def place (s : σ) (put : τ → σ → σ) (event : ω' → ω) (failure : ε' → ε)
    (o : Outcome ω' ε' τ α) : Outcome ω ε σ α :=
  ⟨o.answer.mapError failure, put o.state s, o.events.map event⟩

@[simp] theorem after_mk (e e' : List ω) (a : Except ε α) (t : σ) :
    after e ⟨a, t, e'⟩ = ⟨a, t, e ++ e'⟩ := rfl

theorem after_after (e e' : List ω) (o : Outcome ω ε σ α) :
    (o.after e').after e = o.after (e ++ e') := by simp [after]

@[simp] theorem after_nil (o : Outcome ω ε σ α) : after [] o = o := rfl

@[simp] theorem andThen_ok (a : α) (t : σ) (e : List ω) (f : α → Action ω ε σ β) :
    andThen ⟨.ok a, t, e⟩ f = ((f a).run t).after e := rfl

@[simp] theorem andThen_error (r : ε) (t : σ) (e : List ω) (f : α → Action ω ε σ β) :
    andThen ⟨.error r, t, e⟩ f = ⟨.error r, t, e⟩ := rfl

@[simp] theorem place_ok (s : σ) (put : τ → σ → σ) (event : ω' → ω) (failure : ε' → ε) (a : α)
    (t : τ) (e : List ω') :
    place s put event failure ⟨.ok a, t, e⟩ = ⟨.ok a, put t s, e.map event⟩ := rfl

@[simp] theorem place_error (s : σ) (put : τ → σ → σ) (event : ω' → ω) (failure : ε' → ε)
    (r : ε') (t : τ) (e : List ω') :
    place s put event failure (⟨.error r, t, e⟩ : Outcome ω' ε' τ α) =
      ⟨.error (failure r), put t s, e.map event⟩ := rfl

end Outcome

namespace Action

variable {ω ω' ε ε' σ τ α β : Type}

@[simp] theorem run_bind (x : Action ω ε σ α) (f : α → Action ω ε σ β) (s : σ) :
    (x >>= f).run s = (x.run s).andThen f := by
  simp only [run, Bind.bind, Action.bind]
  rcases x s with ⟨r | a, t, e⟩ <;> rfl

@[simp] theorem run_pure (a : α) (s : σ) : (pure a : Action ω ε σ α).run s = ⟨.ok a, s, []⟩ := rfl

theorem run_bind_pure {x : Action ω ε σ α} {s t : σ} {r : Except ε α} {e : List ω}
    (h : x.run s = ⟨r, t, e⟩) (f : α → β) :
    (x >>= fun a => pure (f a)).run s = ⟨r.map f, t, e⟩ := by
  rw [run_bind, h]
  cases r with
  | error r => rfl
  | ok a => simp [Except.map]

theorem answer_bind_pure (x : Action ω ε σ α) (f : α → β) (s : σ) :
    ((x >>= fun a => pure (f a)).run s).answer = (x.run s).answer.map f := by
  rw [run_bind_pure (x := x) (s := s) rfl f]
  rfl

theorem state_bind_pure (x : Action ω ε σ α) (f : α → β) (s : σ) :
    ((x >>= fun a => pure (f a)).run s).state = (x.run s).state := by
  rw [run_bind_pure (x := x) (s := s) rfl f]
  rfl

theorem answer_bind_pure_eq_error {x : Action ω ε σ α} {f : α → β} {s : σ} {r : ε} :
    ((x >>= fun a => pure (f a)).run s).answer = .error r ↔ (x.run s).answer = .error r := by
  rw [answer_bind_pure]
  cases (x.run s).answer <;> simp [Except.map]

@[simp] theorem run_get (s : σ) : (get : Action ω ε σ σ).run s = ⟨.ok s, s, []⟩ := rfl

@[simp] theorem run_modify (f : σ → σ) (s : σ) :
    (modify f : Action ω ε σ Unit).run s = ⟨.ok (), f s, []⟩ := rfl

@[simp] theorem run_fail (r : ε) (s : σ) :
    (fail r : Action ω ε σ α).run s = ⟨.error r, s, []⟩ := rfl

@[simp] theorem run_report (e : ω) (s : σ) :
    (report e : Action ω ε σ Unit).run s = ⟨.ok (), s, [e]⟩ := rfl

@[simp] theorem run_reportAll (es : List ω) (s : σ) :
    (reportAll es : Action ω ε σ Unit).run s = ⟨.ok (), s, es⟩ := rfl

@[simp] theorem run_ofOption_some (r : ε) (a : α) (s : σ) :
    (ofOption r (some a) : Action ω ε σ α).run s = ⟨.ok a, s, []⟩ := rfl

@[simp] theorem run_ofOption_none (r : ε) (s : σ) :
    (ofOption r none : Action ω ε σ α).run s = ⟨.error r, s, []⟩ := rfl

theorem run_update_some {r : ε} {f : σ → Option σ} {s t : σ} (h : f s = some t) :
    (update r f : Action ω ε σ Unit).run s = ⟨.ok (), t, []⟩ := by
  simp [run, update, h]

theorem run_update_none {r : ε} {f : σ → Option σ} {s : σ} (h : f s = none) :
    (update r f : Action ω ε σ Unit).run s = ⟨.error r, s, []⟩ := by
  simp [run, update, h]

@[simp] theorem run_within (view : σ → τ) (put : τ → σ → σ) (event : ω' → ω)
    (failure : ε' → ε) (x : Action ω' ε' τ α) (s : σ) :
    (within view put event failure x).run s =
      (x.run (view s)).place s put event failure := rfl

@[simp] theorem run_each_cons (f : β → Action ω ε σ Unit) (b : β) (bs : List β) (s : σ) :
    (each f (b :: bs)).run s = ((f b).run s).andThen fun _ => each f bs := by
  simp only [each, run, Action.bind]
  rcases f b s with ⟨r | a, t, e⟩ <;> rfl

/-! Contracts: what an action promises of its answer, state and events, and of its failure. The
rules below read a contract of a whole back to its parts. -/

/-- Run from `s`, the action answers as `Q` says or fails as `E` says. -/
def Meets (x : Action ω ε σ α) (s : σ) (E : ε → Prop) (Q : α → σ → List ω → Prop) : Prop :=
  match x.run s with
  | ⟨.ok a, t, e⟩ => Q a t e
  | ⟨.error r, _, _⟩ => E r

section Meets

variable {E : ε → Prop} {s t : σ} {Q P : α → σ → List ω → Prop} {R : β → σ → List ω → Prop}
  {x : Action ω ε σ α} {f : α → Action ω ε σ β}

theorem meets_of_run_ok {a : α} {e : List ω} (h : x.run s = ⟨.ok a, t, e⟩) (hq : Q a t e) :
    x.Meets s E Q := by
  rw [Meets, h]
  exact hq

theorem meets_of_run_error {r : ε} {e : List ω} (h : x.run s = ⟨.error r, t, e⟩) (he : E r) :
    x.Meets s E Q := by
  rw [Meets, h]
  exact he

theorem Meets.of_ok (h : x.Meets s E Q) {a : α} {e : List ω} (hrun : x.run s = ⟨.ok a, t, e⟩) :
    Q a t e := by
  rwa [Meets, hrun] at h

theorem Meets.of_error (h : x.Meets s E Q) {r : ε} {e : List ω}
    (hrun : x.run s = ⟨.error r, t, e⟩) : E r := by
  rwa [Meets, hrun] at h

theorem Meets.answer (h : x.Meets s E Q) :
    (∃ a, (x.run s).answer = .ok a) ∨ ∃ r, (x.run s).answer = .error r ∧ E r := by
  rcases hrun : x.run s with ⟨r | a, t, e⟩
  · exact .inr ⟨r, rfl, h.of_error hrun⟩
  · exact .inl ⟨a, rfl⟩

theorem Meets.mono (h : x.Meets s E P) (hq : ∀ a t e, P a t e → Q a t e) : x.Meets s E Q := by
  unfold Meets at *
  split
  · next a t e hrun => rw [hrun] at h; exact hq a t e h
  · next r _ _ hrun => rw [hrun] at h; exact h

theorem Meets.weaken {E' : ε → Prop} (h : x.Meets s E P) (he : ∀ r, E r → E' r) :
    x.Meets s E' P := by
  unfold Meets at *
  split
  · next hrun => rwa [hrun] at h
  · next r _ _ hrun => rw [hrun] at h; exact he r h

theorem Meets.and {E' : ε → Prop} (h : x.Meets s E P) (h' : x.Meets s E' Q) :
    x.Meets s E fun a t e => P a t e ∧ Q a t e := by
  unfold Meets at *
  split
  · next a t e hrun => rw [hrun] at h h'; exact ⟨h, h'⟩
  · next r _ _ hrun => rw [hrun] at h; exact h

theorem Meets.bind (h : x.Meets s E P)
    (hf : ∀ a t e, P a t e → (f a).Meets t E fun b u e' => R b u (e ++ e')) :
    (x >>= f).Meets s E R := by
  unfold Meets at h ⊢
  rw [run_bind]
  rcases hrun : x.run s with ⟨r | a, t, e⟩
  · rw [hrun] at h
    exact h
  · rw [hrun] at h
    have hrest := hf a t e h
    unfold Meets at hrest
    rw [Outcome.andThen_ok]
    rcases hrun' : (f a).run t with ⟨r | b, u, e'⟩
    · rw [hrun'] at hrest
      exact hrest
    · rw [hrun'] at hrest
      exact hrest

theorem meets_bind_of_run {a : α} {e : List ω} (h : x.run s = ⟨.ok a, t, e⟩)
    (hf : (f a).Meets t E fun b u e' => R b u (e ++ e')) : (x >>= f).Meets s E R := by
  refine Meets.bind (P := fun a' t' e' => a' = a ∧ t' = t ∧ e' = e)
    (meets_of_run_ok h ⟨rfl, rfl, rfl⟩) ?_
  rintro _ _ _ ⟨rfl, rfl, rfl⟩
  exact hf

theorem meets_bind_answer {P : β → Prop}
    (h : ∀ a t, (f a).Meets t (fun _ => True) fun b _ _ => P b) :
    (x >>= f).Meets s (fun _ => True) fun b _ _ => P b := by
  refine Meets.bind (P := fun _ _ _ => True) ?_ fun a t _ _ => h a t
  unfold Meets
  split <;> trivial

theorem meets_pure {a : α} (h : Q a s []) : (pure a : Action ω ε σ α).Meets s E Q := h

theorem meets_fail {r : ε} (h : E r) : (fail r : Action ω ε σ α).Meets s E Q := h

theorem meets_get {Q : σ → σ → List ω → Prop} (h : Q s s []) :
    (get : Action ω ε σ σ).Meets s E Q := h

theorem meets_modify {Q : Unit → σ → List ω → Prop} {c : σ → σ} (h : Q () (c s) []) :
    (modify c : Action ω ε σ Unit).Meets s E Q := h

theorem meets_report {Q : Unit → σ → List ω → Prop} {o : ω} (h : Q () s [o]) :
    (report o : Action ω ε σ Unit).Meets s E Q := h

theorem meets_reportAll {Q : Unit → σ → List ω → Prop} {os : List ω} (h : Q () s os) :
    (reportAll os : Action ω ε σ Unit).Meets s E Q := h

theorem meets_ofOption {r : ε} {o : Option α} (hr : E r) (h : ∀ a, o = some a → Q a s []) :
    (ofOption r o).Meets s E Q := by
  cases o with
  | none => exact hr
  | some a => exact h a rfl

theorem meets_within {view : σ → τ} {put : τ → σ → σ} {event : ω' → ω} {failure : ε' → ε}
    {y : Action ω' ε' τ α}
    (h : y.Meets (view s) (fun r => E (failure r)) fun a t e => Q a (put t s) (e.map event)) :
    (within view put event failure y).Meets s E Q := by
  unfold Meets at *
  rw [run_within]
  rcases hrun : y.run (view s) with ⟨r | a, t, e⟩
  · rw [hrun] at h
    exact h
  · rw [hrun] at h
    exact h

end Meets

/-! Frames: what an action leaves as it is, whatever it answers. -/

/-- The action does not change `f` of the state, not even if it fails. -/
def Leaves {γ : Type} (f : σ → γ) (x : Action ω ε σ α) : Prop := ∀ s, f (x.run s).state = f s

section Leaves

variable {γ δ : Type} {f : σ → γ} {x : Action ω ε σ α} {k : α → Action ω ε σ β}

theorem Leaves.bind (hx : Leaves f x) (hk : ∀ a, Leaves f (k a)) : Leaves f (x >>= k) := by
  intro s
  have hfirst := hx s
  rw [run_bind]
  rcases hrun : x.run s with ⟨r | a, t, e⟩
  · rwa [hrun] at hfirst
  · rw [hrun] at hfirst
    exact (hk a t).trans hfirst

theorem Leaves.map (hx : Leaves f x) (h : γ → δ) : Leaves (fun s => h (f s)) x :=
  fun s => congrArg h (hx s)

theorem Leaves.meets (hx : Leaves f x) (s : σ) :
    x.Meets s (fun _ => True) fun _ t _ => f t = f s := by
  unfold Meets
  split
  · next hrun => rw [← hx s, hrun]
  · trivial

theorem leaves_pure (a : α) : Leaves f (pure a : Action ω ε σ α) := fun _ => rfl

theorem leaves_fail (r : ε) : Leaves f (fail r : Action ω ε σ α) := fun _ => rfl

theorem leaves_get : Leaves f (get : Action ω ε σ σ) := fun _ => rfl

theorem leaves_report (o : ω) : Leaves f (report o : Action ω ε σ Unit) := fun _ => rfl

theorem leaves_reportAll (os : List ω) : Leaves f (reportAll os : Action ω ε σ Unit) :=
  fun _ => rfl

theorem leaves_ofOption (r : ε) (o : Option α) : Leaves f (ofOption r o : Action ω ε σ α) := by
  cases o with
  | none => exact leaves_fail r
  | some a => exact leaves_pure a

theorem leaves_modify {c : σ → σ} (h : ∀ s, f (c s) = f s) :
    Leaves f (modify c : Action ω ε σ Unit) := h

theorem leaves_update (r : ε) {c : σ → Option σ} (h : ∀ s t, c s = some t → f t = f s) :
    Leaves f (update r c : Action ω ε σ Unit) := by
  intro s
  cases hc : c s with
  | none => rw [run_update_none hc]
  | some t =>
    rw [run_update_some hc]
    exact h s t hc

theorem leaves_within {view : σ → τ} {put : τ → σ → σ} (event : ω' → ω) (failure : ε' → ε)
    {y : Action ω' ε' τ α} (h : ∀ s, f (put (y.run (view s)).state s) = f s) :
    Leaves f (within view put event failure y) := h

theorem leaves_each {k : β → Action ω ε σ Unit} (hk : ∀ b, Leaves f (k b)) (bs : List β) :
    Leaves f (each k bs) := by
  induction bs with
  | nil => exact leaves_pure ()
  | cons b bs ih => exact (hk b).bind fun _ => ih

end Leaves

/-! Invariants: what an action keeps true, whatever it answers. -/

/-- The action does not make `P` false of the state, not even if it fails. -/
def Preserves (P : σ → Prop) (x : Action ω ε σ α) : Prop := ∀ s, P s → P (x.run s).state

section Preserves

variable {P : σ → Prop} {x : Action ω ε σ α} {k : α → Action ω ε σ β}

theorem Preserves.bind (hx : Preserves P x) (hk : ∀ a, Preserves P (k a)) :
    Preserves P (x >>= k) := by
  intro s hs
  have hfirst := hx s hs
  rw [run_bind]
  rcases hrun : x.run s with ⟨r | a, t, e⟩
  · rwa [hrun] at hfirst
  · rw [hrun] at hfirst
    exact hk a t hfirst

theorem preserves_pure (a : α) : Preserves P (pure a : Action ω ε σ α) := fun _ hs => hs

theorem preserves_fail (r : ε) : Preserves P (fail r : Action ω ε σ α) := fun _ hs => hs

theorem preserves_get : Preserves P (get : Action ω ε σ σ) := fun _ hs => hs

theorem preserves_report (o : ω) : Preserves P (report o : Action ω ε σ Unit) := fun _ hs => hs

theorem preserves_reportAll (os : List ω) : Preserves P (reportAll os : Action ω ε σ Unit) :=
  fun _ hs => hs

theorem preserves_ofOption (r : ε) (o : Option α) :
    Preserves P (ofOption r o : Action ω ε σ α) := by
  cases o with
  | none => exact preserves_fail r
  | some a => exact preserves_pure a

theorem preserves_ofOption_bind {r : ε} {o : Option α}
    (hk : ∀ a, o = some a → Preserves P (k a)) : Preserves P (ofOption r o >>= k) := by
  cases o with
  | none => exact preserves_fail r
  | some a =>
    intro s hs
    rw [run_bind, run_ofOption_some]
    exact hk a rfl s hs

theorem preserves_modify {c : σ → σ} (h : ∀ s, P s → P (c s)) :
    Preserves P (modify c : Action ω ε σ Unit) := h

theorem preserves_update (r : ε) {c : σ → Option σ} (h : ∀ s t, c s = some t → P s → P t) :
    Preserves P (update r c : Action ω ε σ Unit) := by
  intro s hs
  cases hc : c s with
  | none => rwa [run_update_none hc]
  | some t =>
    rw [run_update_some hc]
    exact h s t hc hs

theorem preserves_within {view : σ → τ} {put : τ → σ → σ} (event : ω' → ω) (failure : ε' → ε)
    {y : Action ω' ε' τ α} (h : ∀ s, P s → P (put (y.run (view s)).state s)) :
    Preserves P (within view put event failure y) := h

theorem preserves_each {k : β → Action ω ε σ Unit} {bs : List β}
    (hk : ∀ b ∈ bs, Preserves P (k b)) : Preserves P (each k bs) := by
  induction bs with
  | nil => exact preserves_pure ()
  | cons b bs ih =>
    exact (hk b List.mem_cons_self).bind fun _ => ih fun b hb => hk b (List.mem_cons_of_mem _ hb)

end Preserves

end Action

end DemandPaging
